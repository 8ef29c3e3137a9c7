import BluetoothStack.Lib.Triplets

/-!
# BluetoothStack.Obex.AppParameters

OBEX application parameters (`ObexAppParameters.java`): a map from tags to values, written as
tag-length-value triplets and read back from them.

The reader keeps a length in a signed byte. So it fails on the first length above 127 that it comes
to (`ofBytes_eq_ok_iff`), and reads all other bytes as the triplets they are.
-/

namespace BluetoothStack.Obex

open BluetoothStack.Lib

/-- `mParams`. -/
abbrev AppParameters := UInt8 → Option (List UInt8)

/-- What the constructor can throw. -/
inductive Exception
  | negativeArraySize
deriving DecidableEq, Repr

/-- The value of a `byte`. -/
def signed (b : UInt8) : ℤ := if b.toNat < 128 then b.toNat else b.toNat - 256

namespace AppParameters

/-- The map without entries. -/
def empty : AppParameters := fun _ => none

/-- `add`. -/
def add (m : AppParameters) (t : Triplet) : AppParameters :=
  fun tag => if tag = t.1 then some t.2 else m tag

/-- The loop of the constructor, on the bytes from index `i` on. -/
def ofBytesLoop (m : AppParameters) : List UInt8 → Except Exception AppParameters
  | tag :: len :: rest =>
    if rest.length - signed len < 0 then .ok m
    else if signed len < 0 then .error .negativeArraySize
    else ofBytesLoop (m.add (tag, rest.take len.toNat)) (rest.drop len.toNat)
  | _ => .ok m
termination_by bytes => bytes.length
decreasing_by
  rw [List.length_drop, List.length_cons, List.length_cons]
  omega

/-- `ObexAppParameters(byte[])`. -/
def ofBytes (raw : List UInt8) : Except Exception AppParameters := ofBytesLoop empty raw

/-- `getHeader`, for the entries in the order the map gives them. -/
def getHeader (entries : List Triplet) : List UInt8 := entries.flatMap Triplet.bytes

/-- The entries of a map, in some order. -/
structure IsEntrySet (m : AppParameters) (entries : List Triplet) : Prop where
  nodup : (entries.map Prod.fst).Nodup
  mem_iff : ∀ tag v, (tag, v) ∈ entries ↔ m tag = some v

/-- The last value of each tag. -/
def lastValues (ts : List Triplet) : AppParameters :=
  fun tag => (ts.reverse.find? fun t => decide (t.1 = tag)).map Prod.snd

theorem foldl_add (ts : List Triplet) : ts.foldl add empty = lastValues ts := by
  induction ts using List.reverseRecOn with
  | nil => rfl
  | append_singleton ts t ih =>
    funext tag
    rw [List.foldl_append, List.foldl_cons, List.foldl_nil, ih, add, lastValues,
      lastValues, List.reverse_append, List.reverse_singleton, List.singleton_append,
        List.find?_cons]
    by_cases heq : tag = t.1
    · rw [if_pos heq, decide_eq_true heq.symm]
      rfl
    · rw [if_neg heq, decide_eq_false fun h => heq h.symm]

theorem signed_nonneg_iff (len : UInt8) : 0 ≤ signed len ↔ len.toNat < 128 := by
  have hlt := len.toNat_lt
  rw [signed]
  split <;> omega

theorem signed_of_lt {len : UInt8} (h : len.toNat < 128) : signed len = len.toNat := if_pos h

/-- Without a length above 127 the triplets are read, and what is behind them is left. -/
theorem ofBytesLoop_ok (m : AppParameters) {bytes : List UInt8}
    (h : ∀ len ∈ tripletLengths bytes, len.toNat < 128) :
    ofBytesLoop m bytes = .ok ((triplets bytes).foldl add m) := by
  fun_induction triplets bytes generalizing m with
  | case1 tag len rest hle ih =>
    rw [tripletLengths, if_pos hle] at h
    have hlen := h len List.mem_cons_self
    rw [ofBytesLoop, signed_of_lt hlen, if_neg (by omega), if_neg (by omega),
      ih _ fun l hl => h l (List.mem_cons_of_mem len hl), List.foldl_cons]
  | case2 tag len rest hgt =>
    rw [tripletLengths, if_neg hgt] at h
    have hlen := h len List.mem_cons_self
    rw [ofBytesLoop, signed_of_lt hlen, if_pos (by omega), List.foldl_nil]
  | case3 bytes hshort => rw [ofBytesLoop, List.foldl_nil]; exact hshort

/-- The first length above 127 is an exception, whatever follows it. -/
theorem ofBytesLoop_error (m : AppParameters) {bytes : List UInt8}
    (h : ∃ len ∈ tripletLengths bytes, 128 ≤ len.toNat) :
    ofBytesLoop m bytes = .error .negativeArraySize := by
  have hnegative {len : UInt8} (hlen : 128 ≤ len.toNat) : signed len < 0 := by
    have hnot := mt (signed_nonneg_iff len).mp (Nat.not_lt.mpr hlen)
    omega
  fun_induction tripletLengths bytes generalizing m with
  | case1 tag len rest hle ih =>
    rw [ofBytesLoop]
    by_cases hlen : len.toNat < 128
    · rw [signed_of_lt hlen, if_neg (by omega), if_neg (by omega)]
      obtain ⟨l, hl, hlarge⟩ := h
      rcases List.mem_cons.mp hl with rfl | hl
      · omega
      · exact ih _ ⟨l, hl, hlarge⟩
    · have hneg := hnegative (Nat.not_lt.mp hlen)
      rw [if_neg (by omega), if_pos hneg]
  | case2 tag len rest hgt =>
    obtain ⟨l, hl, hlarge⟩ := h
    obtain rfl := List.mem_singleton.mp hl
    have hneg := hnegative hlarge
    rw [ofBytesLoop, if_neg (by omega), if_pos hneg]
  | case3 bytes hshort =>
    obtain ⟨l, hl, -⟩ := h
    exact absurd hl List.not_mem_nil

theorem ofBytes_eq_ok_iff (raw : List UInt8) :
    ofBytes raw = .ok (lastValues (triplets raw)) ↔
      ∀ len ∈ tripletLengths raw, len.toNat ≤ 127 := by
  constructor
  · intro hok len hlen
    by_contra hlarge
    rw [ofBytes, ofBytesLoop_error empty ⟨len, hlen, by omega⟩] at hok
    cases hok
  · intro hsmall
    rw [ofBytes, ofBytesLoop_ok empty fun len hlen => Nat.lt_succ_of_le (hsmall len hlen),
      foldl_add]

/-! ### Round trip -/

section

variable {m : AppParameters} {entries : List Triplet}

theorem IsEntrySet.lastValues_eq (h : IsEntrySet m entries) : lastValues entries = m := by
  funext tag
  rw [lastValues]
  rcases hfind : entries.reverse.find? (fun t => decide (t.1 = tag)) with _ | t
  · rw [hfind, Option.map_none, eq_comm, Option.eq_none_iff_forall_ne_some]
    intro v hv
    have hmem := (h.mem_iff tag v).mpr hv
    have hnot := List.find?_eq_none.mp hfind (tag, v) (List.mem_reverse.mpr hmem)
    exact hnot (decide_eq_true rfl)
  · have htag := List.find?_some hfind
    obtain rfl := of_decide_eq_true htag
    rw [hfind]
    have hmem := List.mem_reverse.mp (List.mem_of_find?_eq_some hfind)
    exact ((h.mem_iff t.1 t.2).mp hmem).symm

theorem IsEntrySet.length_le_iff (h : IsEntrySet m entries) {n : Nat} :
    (∀ tag v, m tag = some v → v.length ≤ n) ↔ ∀ t ∈ entries, t.2.length ≤ n :=
  ⟨fun hm t ht => hm t.1 t.2 ((h.mem_iff t.1 t.2).mp ht),
    fun ht tag v hv => ht (tag, v) ((h.mem_iff tag v).mpr hv)⟩

theorem ofBytes_getHeader (h : IsEntrySet m entries) (hlength : ∀ t ∈ entries, t.2.length ≤ 255) :
    ofBytes (getHeader entries) = .ok m ↔ ∀ t ∈ entries, t.2.length ≤ 127 := by
  have hiff := ofBytes_eq_ok_iff (getHeader entries)
  rw [getHeader, triplets_flatMap hlength, h.lastValues_eq, tripletLengths_flatMap hlength] at hiff
  rw [getHeader, hiff]
  constructor
  · intro hsmall t ht
    have hbyte := hsmall _ (List.mem_map_of_mem ht)
    rwa [(take_drop_value (hlength t ht) []).1] at hbyte
  · intro hsmall len hlen
    obtain ⟨t, ht, rfl⟩ := List.mem_map.mp hlen
    rw [(take_drop_value (hlength t ht) []).1]
    exact hsmall t ht

end

/-- The map survives the wire if no value is longer than 127 bytes, and bytes are read as the
triplets they are if no length among them is above 127. -/
theorem appParameters_survive_iff (m : AppParameters) (entries : List Triplet) (raw : List UInt8)
    (hentries : IsEntrySet m entries) (hlength : ∀ tag v, m tag = some v → v.length ≤ 255) :
    (ofBytes (getHeader entries) = .ok m ↔ ∀ tag v, m tag = some v → v.length ≤ 127) ∧
      (ofBytes raw = .ok (lastValues (triplets raw)) ↔
        ∀ len ∈ tripletLengths raw, len.toNat ≤ 127) := by
  refine ⟨?_, ofBytes_eq_ok_iff raw⟩
  rw [hentries.length_le_iff]
  exact ofBytes_getHeader hentries (hentries.length_le_iff.mp hlength)

theorem isEntrySet_lastValues {ts : List Triplet} (hnodup : (ts.map Prod.fst).Nodup) :
    IsEntrySet (lastValues ts) ts := by
  refine ⟨hnodup, fun tag v => ?_⟩
  rw [lastValues, Option.map_eq_some_iff]
  constructor
  · intro hmem
    cases hfind : ts.reverse.find? fun t => decide (t.1 = tag) with
    | none =>
      have hne := List.find?_eq_none.mp hfind (tag, v) (List.mem_reverse.mpr hmem)
      simp at hne
    | some t =>
      have ht := List.mem_reverse.mp (List.mem_of_find?_eq_some hfind)
      have htag : t.1 = tag := by simpa using List.find?_some hfind
      exact ⟨t, rfl, congrArg Prod.snd (List.inj_on_of_nodup_map hnodup ht hmem htag)⟩
  · rintro ⟨t, hfind, rfl⟩
    have htag : t.1 = tag := by simpa using List.find?_some hfind
    exact htag ▸ List.mem_reverse.mp (List.mem_of_find?_eq_some hfind)

/-- Three parameters survive; a tag that comes twice keeps its second value, and a last triplet that
is cut short is left. -/
theorem appParameters_survive_iff_short :
    ofBytes (getHeader [(1, [7]), (2, []), (9, [1, 2, 3])]) =
        .ok (lastValues [(1, [7]), (2, []), (9, [1, 2, 3])]) ∧
      ofBytes [1, 1, 5, 2, 2, 8, 9, 1, 1, 6, 3, 4, 0] =
        .ok (lastValues [(1, [5]), (2, [8, 9]), (1, [6])]) := by
  have hset : IsEntrySet _ [(1, [7]), (2, []), (9, [1, 2, 3])] := isEntrySet_lastValues (by decide)
  have hread : triplets [1, 1, 5, 2, 2, 8, 9, 1, 1, 6, 3, 4, 0] =
      [(1, [5]), (2, [8, 9]), (1, [6])] := by simp [triplets]
  have hlengths : tripletLengths [1, 1, 5, 2, 2, 8, 9, 1, 1, 6, 3, 4, 0] = [1, 2, 1, 4] := by
    simp [tripletLengths]
  obtain ⟨hsurvives, hbytes⟩ := appParameters_survive_iff _ _
    [1, 1, 5, 2, 2, 8, 9, 1, 1, 6, 3, 4, 0] hset (hset.length_le_iff.mpr (by decide))
  rw [hread, hlengths] at hbytes
  exact ⟨hsurvives.mpr (hset.length_le_iff.mpr (by decide)), hbytes.mpr (by simp)⟩

/-- A value of 128 bytes is written and not read; nor is a tag with this length and nothing behind.
-/
theorem long_value_lost :
    ofBytes (getHeader [(1, List.replicate 128 0)]) = .error .negativeArraySize ∧
      ofBytes [1, 0x80] = .error .negativeArraySize := by
  constructor
  · refine ofBytesLoop_error empty ⟨128, ?_, by decide⟩
    rw [getHeader, tripletLengths_flatMap]
    · rw [List.map_singleton, List.length_replicate]
      decide
    · intro t ht
      rw [List.mem_singleton.mp ht, List.length_replicate]
      decide
  · refine ofBytesLoop_error empty ⟨128, ?_, by decide⟩
    rw [tripletLengths]
    decide

end AppParameters

end BluetoothStack.Obex
