import BluetoothStack.Lib.SortedMap
import BluetoothStack.LeAudio.Announcement

/-!
# BluetoothStack.LeAudio.LtvMap

Maps of length-type-value entries (`LeAudioLtvMap` in `le_audio_types.cc`).

The hash and the parsed forms that are kept beside the values are left out; they are reset with
every change. `Entries` says what a packet of entries is: `Parse` takes exactly these, and of the
entries of one type the first.
-/

namespace BluetoothStack.LeAudio

open BluetoothStack.Lib

local instance ltvTypeOrder : LinearOrder UInt8 where
  le_refl a := Nat.le_refl a.toNat
  le_trans _ _ _ hab hbc := Nat.le_trans hab hbc
  lt_iff_le_not_ge a b := Std.lt_iff_le_and_not_ge (a := a.toNat) (b := b.toNat)
  le_antisymm _ _ hab hba := UInt8.toNat_inj.mp (Nat.le_antisymm hab hba)
  le_total a b := Nat.le_total a.toNat b.toNat
  toDecidableLE := inferInstance
  toDecidableEq := inferInstance
  toDecidableLT := inferInstance

/-- The values of a `LeAudioLtvMap`. -/
abbrev LeAudioLtvMap := SortedMap UInt8 (List UInt8)

namespace LeAudioLtvMap

/-! ### The source -/

/-- `RawPacketSize`. -/
def rawPacketSize (m : LeAudioLtvMap) : Nat := LtvMap.rawPacketSize m.entries

/-- `RawPacket`. -/
def rawPacket (m : LeAudioLtvMap) : List UInt8 := LtvMap.rawPacket m.entries

/-- `Append`. -/
def append (m other : LeAudioLtvMap) : LeAudioLtvMap := m.extend other

/-- An entry behind its length, which is not zero, with what follows it. -/
def parseEntry (ltvLen : UInt8) : List UInt8 → Option ((UInt8 × List UInt8) × List UInt8)
  | [] => none
  | ltvType :: rest =>
    if rest.length + 1 < ltvLen.toNat then none
    else some ((ltvType, rest.take (ltvLen.toNat - 1)), rest.drop (ltvLen.toNat - 1))

/-- The loop of `Parse`, which takes a byte at least in each round. -/
def parseLoop : Nat → LeAudioLtvMap → List UInt8 → Bool × LeAudioLtvMap
  | 0, m, _ => (true, m)
  | _ + 1, m, [] => (true, m)
  | fuel + 1, m, ltvLen :: rest =>
    if ltvLen = 0 then parseLoop fuel m rest
    else
      match parseEntry ltvLen rest with
      | none => (false, m)
      | some (e, rest) => parseLoop fuel (m.insertNew e.1 e.2) rest

/-- `Parse` of the first `len` bytes. -/
def parse (m : LeAudioLtvMap) (value : List UInt8) (len : UInt8) : Bool × LeAudioLtvMap :=
  parseLoop len.toNat m (value.take len.toNat)

/-- A round of `GetIntersection`; `none` if a missing entry is looked into. -/
def intersectEntry (other : LeAudioLtvMap) (result : LeAudioLtvMap) (e : UInt8 × List UInt8) :
    Option LeAudioLtvMap :=
  (other.find? e.1).map fun entry =>
    if entry.length ≠ e.2.length then result
    else if entry = e.2 then result.insert e.1 e.2
    else result

/-- `GetIntersection`. -/
def getIntersection (m other : LeAudioLtvMap) : Option LeAudioLtvMap :=
  m.entries.foldlM (intersectEntry other) .empty

/-! ### What is expected -/

/-- A packet of entries; those of length zero have no type. -/
inductive Entries : List UInt8 → List (UInt8 × List UInt8) → Prop
  | nil : Entries [] []
  | zero {bytes : List UInt8} {es : List (UInt8 × List UInt8)} :
      Entries bytes es → Entries (0 :: bytes) es
  | entry {ltvLen ltvType : UInt8} {ltvValue bytes : List UInt8} {es : List (UInt8 × List UInt8)} :
      ltvLen.toNat = ltvValue.length + 1 → Entries bytes es →
      Entries (ltvLen :: ltvType :: (ltvValue ++ bytes)) ((ltvType, ltvValue) :: es)

/-- The first of the entries with a type. -/
def first (es : List (UInt8 × List UInt8)) (type : UInt8) : Option (List UInt8) :=
  (es.find? fun e => e.1 = type).map Prod.snd

def RoundTrips (m : LeAudioLtvMap) : Prop :=
  parse .empty (rawPacket m) (UInt8.ofNat (rawPacket m).length) = (true, m)

/-- `Parse` fails exactly if the bytes are no packet of entries, and finds the first of each type
otherwise. -/
def ParsesFirst (value : List UInt8) (len : UInt8) : Prop :=
  ((parse .empty value len).1 = false ∧ ∀ es, ¬ Entries (value.take len.toNat) es) ∨
    (parse .empty value len).1 = true ∧ ∃ es, Entries (value.take len.toNat) es ∧
      ∀ type, (parse .empty value len).2.find? type = first es type

/-- The intersection is defined, has what is in both, and does not depend on the order. -/
def Intersects (a b : LeAudioLtvMap) : Prop :=
  ∃ r, getIntersection a b = some r ∧ getIntersection b a = some r ∧
    ∀ type value, r.find? type = some value ↔ a.find? type = some value ∧ b.find? type = some value

def AppendsRight (a b : LeAudioLtvMap) : Prop :=
  ∀ type, (append a b).find? type = (b.find? type).or (a.find? type)

def SameTypes (a b : LeAudioLtvMap) : Prop := ∀ type, (a.find? type).isSome ↔ (b.find? type).isSome

/-! ### Parsing -/

/-- What is found after the entries of a packet are put into a map, unless there is one before. -/
theorem find?_foldl_insertNew (es : List (UInt8 × List UInt8)) (m : LeAudioLtvMap) (type : UInt8) :
    (es.foldl (fun m e => m.insertNew e.1 e.2) m).find? type = (m.find? type).or
      (first es type) := by
  induction es generalizing m with
  | nil => simp [first]
  | cons e es ih =>
    rw [List.foldl_cons, ih, SortedMap.find?_insertNew, Option.or_assoc, first, first]
    by_cases htype : type = e.1
    · rw [if_pos htype, List.find?_cons_of_pos (by simpa using htype.symm)]
      rfl
    · rw [if_neg htype, Option.none_or, List.find?_cons_of_neg (by simpa using Ne.symm htype)]

/-- A packet of entries is parsed to its end. -/
theorem parseLoop_entries {bytes : List UInt8} {es : List (UInt8 × List UInt8)}
    (h : Entries bytes es) {fuel : Nat} (hfuel : bytes.length ≤ fuel) (m : LeAudioLtvMap) :
    parseLoop fuel m bytes = (true, es.foldl (fun m e => m.insertNew e.1 e.2) m) := by
  induction h generalizing fuel m with
  | nil => cases fuel <;> rfl
  | zero h ih =>
    obtain ⟨fuel, rfl⟩ : ∃ n, fuel = n + 1 :=
      Nat.exists_eq_succ_of_ne_zero (by simp at hfuel; omega)
    rw [parseLoop, if_pos rfl]
    exact ih (Nat.le_of_succ_le_succ hfuel) m
  | @entry ltvLen ltvType ltvValue bytes es hlen h ih =>
    simp only [List.length_cons, List.length_append] at hfuel
    obtain ⟨fuel, rfl⟩ : ∃ n, fuel = n + 1 := Nat.exists_eq_succ_of_ne_zero (by omega)
    have hne : ltvLen ≠ 0 := by
      rintro rfl
      simp at hlen
    have hfits : ¬ (ltvValue ++ bytes).length + 1 < ltvLen.toNat := by
      rw [List.length_append]
      omega
    have hentry : parseEntry ltvLen (ltvType :: (ltvValue ++ bytes)) =
        some ((ltvType, ltvValue), bytes) := by
      rw [parseEntry, if_neg hfits, hlen, Nat.add_sub_cancel, List.take_left, List.drop_left]
    rw [parseLoop, if_neg hne, hentry]
    exact ih (by omega) _

/-- What is parsed to its end is a packet of entries. -/
theorem entries_of_parseLoop {fuel : Nat} {m : LeAudioLtvMap} {bytes : List UInt8}
    (hfuel : bytes.length ≤ fuel)
    (h : (parseLoop fuel m bytes).1 = true) : ∃ es, Entries bytes es := by
  induction fuel generalizing m bytes with
  | zero =>
    rw [List.eq_nil_of_length_eq_zero (Nat.le_zero.mp hfuel)]
    exact ⟨[], .nil⟩
  | succ fuel ih =>
    cases bytes with
    | nil => exact ⟨[], .nil⟩
    | cons ltvLen rest =>
      rw [parseLoop] at h
      rw [List.length_cons] at hfuel
      split at h
      -- an entry of length zero is skipped
      next hzero =>
        obtain ⟨es, hes⟩ := ih (by omega) h
        rw [hzero]
        exact ⟨es, .zero hes⟩
      next hne =>
        have hpos : 0 < ltvLen.toNat := by
          rw [Nat.pos_iff_ne_zero]
          exact fun hzero => hne (UInt8.toNat_inj.mp hzero)
        cases rest with
        | nil => cases h
        | cons ltvType rest =>
          rw [parseEntry] at h
          rw [List.length_cons] at hfuel
          split at h
          · cases h
          next e rest' hentry =>
            split at hentry
            · cases hentry
            next hfits =>
              cases hentry
              obtain ⟨es, hes⟩ := ih (by rw [List.length_drop]; omega) h
              have hlen : ltvLen.toNat = (rest.take (ltvLen.toNat - 1)).length + 1 := by
                rw [List.length_take]
                omega
              rw [← List.take_append_drop (ltvLen.toNat - 1) rest]
              exact ⟨_, .entry hlen hes⟩

theorem parsesFirst (value : List UInt8) (len : UInt8) : ParsesFirst value len := by
  have hfuel : (value.take len.toNat).length ≤ len.toNat := List.length_take_le _ _
  cases hparse : (parse .empty value len).1 with
  | false =>
    refine .inl ⟨hparse, fun es hes => ?_⟩
    rw [parse, parseLoop_entries hes hfuel] at hparse
    cases hparse
  | true =>
    obtain ⟨es, hes⟩ := entries_of_parseLoop hfuel hparse
    refine .inr ⟨hparse, es, hes, fun type => ?_⟩
    rw [parse, parseLoop_entries hes hfuel, find?_foldl_insertNew]
    rfl

/-! ### The round trip -/

theorem entries_flatMap {l : List (UInt8 × List UInt8)} (hl : ∀ e ∈ l, e.2.length ≤ 254) :
    Entries (LtvMap.rawPacket l) l := by
  induction l with
  | nil => exact .nil
  | cons e l ih =>
    have hlen : (UInt8.ofNat (e.2.length + 1)).toNat = e.2.length + 1 := by
      rw [UInt8.toNat_ofNat']
      have hle := hl e List.mem_cons_self
      omega
    exact .entry hlen (ih fun e' he' => hl e' (List.mem_cons_of_mem e he'))

theorem roundTrips {m : LeAudioLtvMap} (hvalues : ∀ e ∈ m.entries, e.2.length ≤ 254)
    (hsize : rawPacketSize m ≤ 255) : RoundTrips m := by
  have hlen : (UInt8.ofNat (rawPacket m).length).toNat = (rawPacket m).length := by
    rw [UInt8.toNat_ofNat', rawPacket, LtvMap.rawPacket_length]
    rw [rawPacketSize] at hsize
    omega
  rw [RoundTrips, parse, hlen, List.take_length, rawPacket,
    parseLoop_entries (entries_flatMap hvalues) le_rfl, Prod.mk.injEq]
  refine ⟨rfl, SortedMap.ext_find fun type => ?_⟩
  rw [find?_foldl_insertNew, SortedMap.find?_empty, Option.none_or]
  rfl

/-! ### The intersection -/

/-- An entry of the other map is taken if it is the same. -/
theorem find?_intersectEntry {other result result' : LeAudioLtvMap} {e : UInt8 × List UInt8}
    (h : intersectEntry other result e = some result') (type : UInt8) :
    result'.find? type =
      if type = e.1 ∧ other.find? e.1 = some e.2 then some e.2 else result.find? type := by
  rw [intersectEntry, Option.map_eq_some_iff] at h
  obtain ⟨entry, hentry, rfl⟩ := h
  simp only [hentry, Option.some.injEq]
  split
  next hlen =>
    have hne : entry ≠ e.2 := fun heq => hlen (congrArg List.length heq)
    rw [if_neg fun h => hne h.2]
  split
  next heq =>
    rw [SortedMap.find?_insert]
    simp only [heq, and_true]
  next hne => rw [if_neg fun h => hne h.2]

/-- The entries that are gone through, by induction; their types differ. -/
theorem foldlM_intersectEntry {other : LeAudioLtvMap} {l : List (UInt8 × List UInt8)}
    (hl : l.Pairwise fun a b => a.1 < b.1) (hfound : ∀ e ∈ l, (other.find? e.1).isSome)
    (result : LeAudioLtvMap) :
    ∃ r, l.foldlM (intersectEntry other) result = some r ∧
      ∀ type value, r.find? type = some value ↔
        ((type, value) ∈ l ∧ other.find? type = some value) ∨
          result.find? type = some value ∧ ∀ e ∈ l, e.1 = type → other.find? type ≠ some e.2 := by
  induction l generalizing result with
  | nil => exact ⟨result, rfl, fun type value => by simp⟩
  | cons e l ih =>
    obtain ⟨hfirst, hrest⟩ := List.pairwise_cons.mp hl
    obtain ⟨entry, hentry⟩ := Option.isSome_iff_exists.mp (hfound e List.mem_cons_self)
    obtain ⟨result', hresult'⟩ : ∃ result', intersectEntry other result e = some result' := by
      rw [intersectEntry, hentry]
      exact ⟨_, rfl⟩
    obtain ⟨r, hrun, hr⟩ := ih hrest (fun e' he' => hfound e' (List.mem_cons_of_mem e he')) result'
    refine ⟨r, ?_, fun type value => ?_⟩
    · rw [List.foldlM_cons, hresult']
      exact hrun
    · rw [hr, find?_intersectEntry hresult']
      -- the types differ, so the entry decides about its own type alone
      by_cases htype : type = e.1
      · subst htype
        have hnot : ∀ e' ∈ l, e'.1 ≠ e.1 := fun e' he' => ne_of_gt (hfirst e' he')
        have hnotmem : (e.1, value) ∉ l := fun hmem => hnot _ hmem rfl
        have hvacuous : ∀ e' ∈ l, e'.1 = e.1 → other.find? e.1 ≠ some e'.2 :=
          fun e' he' heq => absurd heq (hnot e' he')
        by_cases hsame : other.find? e.1 = some e.2
        · simp only [hsame, hnotmem, true_and, if_true, List.mem_cons, Option.some.injEq]
          grind
        · simp only [hsame, hnotmem, and_false, if_false, false_and, false_or, List.mem_cons]
          grind
      · rw [if_neg fun h => htype h.1]
        have hmem : (type, value) ∈ e :: l ↔ (type, value) ∈ l := by
          rw [List.mem_cons, or_iff_right]
          rintro rfl
          exact htype rfl
        rw [hmem]
        have hforall : (∀ e' ∈ e :: l, e'.1 = type → other.find? type ≠ some e'.2) ↔
            ∀ e' ∈ l, e'.1 = type → other.find? type ≠ some e'.2 := by
          rw [List.forall_mem_cons, and_iff_right]
          exact fun heq => absurd heq.symm htype
        rw [hforall]

theorem getIntersection_eq {a b : LeAudioLtvMap}
    (h : ∀ type, (a.find? type).isSome → (b.find? type).isSome) :
    ∃ r, getIntersection a b = some r ∧ ∀ type value, r.find? type = some value ↔
      a.find? type = some value ∧ b.find? type = some value := by
  have hfound : ∀ e ∈ a.entries, (b.find? e.1).isSome := fun e he => h e.1 <| by
    rw [SortedMap.find?_eq_some.mpr he]
    rfl
  obtain ⟨r, hrun, hr⟩ := foldlM_intersectEntry a.sorted hfound .empty
  refine ⟨r, hrun, fun type value => ?_⟩
  rw [hr, ← SortedMap.find?_eq_some]
  simp

/-- A type that the other map does not have is looked into. -/
theorem getIntersection_isSome {a b r : LeAudioLtvMap} (h : getIntersection a b = some r)
    (type : UInt8) (htype : (a.find? type).isSome) : (b.find? type).isSome := by
  obtain ⟨value, hvalue⟩ := Option.isSome_iff_exists.mp htype
  rw [SortedMap.find?_eq_some] at hvalue
  rw [getIntersection] at h
  generalize (SortedMap.empty : LeAudioLtvMap) = result at h
  generalize a.entries = l at hvalue h
  induction l generalizing result with
  | nil => cases hvalue
  | cons e l ih =>
    rw [List.foldlM_cons, Option.bind_eq_bind, Option.bind_eq_some_iff] at h
    obtain ⟨result', hresult', h⟩ := h
    rcases List.mem_cons.mp hvalue with rfl | hvalue
    · rw [intersectEntry, Option.map_eq_some_iff] at hresult'
      obtain ⟨entry, hentry, -⟩ := hresult'
      rw [hentry]
      rfl
    · exact ih result' hvalue h

theorem intersects_iff (a b : LeAudioLtvMap) : Intersects a b ↔ SameTypes a b := by
  constructor
  · rintro ⟨r, hab, hba, -⟩ type
    exact ⟨getIntersection_isSome hab type, getIntersection_isSome hba type⟩
  · intro hsame
    obtain ⟨r, hab, hr⟩ := getIntersection_eq fun type => (hsame type).mp
    obtain ⟨r', hba, hr'⟩ := getIntersection_eq fun type => (hsame type).mpr
    have heq : r' = r := by
      refine SortedMap.ext_find fun type => Option.ext fun value => ?_
      rw [hr', hr, and_comm]
    exact ⟨r, hab, heq ▸ hba, hr⟩

/-- The laws of the maps, and for the intersection of two maps when they hold: exactly if the maps
have the same types. -/
theorem ltv_laws_iff (m : LeAudioLtvMap) (hvalues : ∀ e ∈ m.entries, e.2.length ≤ 254)
    (hsize : rawPacketSize m ≤ 255) (value : List UInt8) (len : UInt8) (a b : LeAudioLtvMap) :
    RoundTrips m ∧ ParsesFirst value len ∧ AppendsRight a b ∧ (Intersects a b ↔ SameTypes a b) :=
  ⟨roundTrips hvalues hsize, parsesFirst value len, fun type => SortedMap.find?_extend a b type,
    intersects_iff a b⟩

/-- A map with three entries, and two maps of the same types that agree on one of them. The bytes
have a type twice. -/
theorem ltv_laws_iff_three :
    let m : LeAudioLtvMap := ((SortedMap.empty.insert 3 [1, 2]).insert 1 []).insert 8 [9]
    let a : LeAudioLtvMap := (SortedMap.empty.insert 3 [1]).insert 4 [7, 7]
    let b : LeAudioLtvMap := (SortedMap.empty.insert 4 [6]).insert 3 [1]
    RoundTrips m ∧ ParsesFirst [2, 3, 4, 0, 2, 3, 5] 7 ∧ AppendsRight m a ∧ Intersects a b ∧
      ¬ Intersects m a := by
  intro m a b
  have hsame : SameTypes a b := fun type => by
    simp only [a, b, SortedMap.find?_insert, SortedMap.find?_empty]
    grind
  have hdiffer : ¬ SameTypes m a := fun h => absurd (h 4) (by decide)
  obtain ⟨hround, hparse, happend, hiff⟩ :=
    ltv_laws_iff m (by decide) (by decide) [2, 3, 4, 0, 2, 3, 5] 7 m a
  obtain ⟨-, -, -, hiff'⟩ :=
    ltv_laws_iff m (by decide) (by decide) [2, 3, 4, 0, 2, 3, 5] 7 a b
  exact ⟨hround, hparse, happend, hiff'.mpr hsame, fun h => hdiffer (hiff.mp h)⟩

/-- A type that only one of the maps has. -/
theorem intersection_undefined :
    getIntersection (SortedMap.empty.insert 3 [1]) (SortedMap.empty.insert 4 [1]) = none := by
  decide

end LeAudioLtvMap

end BluetoothStack.LeAudio
