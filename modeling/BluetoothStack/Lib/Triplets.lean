import Mathlib

/-!
# BluetoothStack.Lib.Triplets

Sequences of tag-length-value triplets, with lengths of one byte.

Any list of bytes has a longest prefix of whole triplets (`triplets`); what is behind it is less
than a triplet.
-/

namespace BluetoothStack.Lib

/-- A tag with its value. -/
abbrev Triplet := UInt8 × List UInt8

namespace Triplet

/-- The bytes of a triplet; the length is cut to a byte. -/
def bytes (t : Triplet) : List UInt8 := t.1 :: UInt8.ofNat t.2.length :: t.2

theorem bytes_take {tag len : UInt8} {rest : List UInt8} (h : len.toNat ≤ rest.length) :
    bytes (tag, rest.take len.toNat) = tag :: len :: rest.take len.toNat := by
  rw [bytes, List.length_take, Nat.min_eq_left h, UInt8.ofNat_toNat]

end Triplet

/-- The triplets of the longest prefix that has only whole ones. -/
def triplets : List UInt8 → List Triplet
  | tag :: len :: rest =>
    if len.toNat ≤ rest.length then
      (tag, rest.take len.toNat) :: triplets (rest.drop len.toNat)
    else []
  | _ => []
termination_by bytes => bytes.length
decreasing_by
  rw [List.length_drop, List.length_cons, List.length_cons]
  omega

/-- The length bytes of the triplets, and the one behind them if there is one. -/
def tripletLengths : List UInt8 → List UInt8
  | _ :: len :: rest =>
    if len.toNat ≤ rest.length then len :: tripletLengths (rest.drop len.toNat) else [len]
  | _ => []
termination_by bytes => bytes.length
decreasing_by
  rw [List.length_drop, List.length_cons, List.length_cons]
  omega

theorem triplets_nil : triplets [] = [] := by simp [triplets]

theorem tripletLengths_nil : tripletLengths [] = [] := by simp [tripletLengths]

theorem take_drop_value {t : Triplet} (h : t.2.length ≤ 255) (rest : List UInt8) :
    (UInt8.ofNat t.2.length).toNat = t.2.length ∧
      (t.2 ++ rest).take (UInt8.ofNat t.2.length).toNat = t.2 ∧
      (t.2 ++ rest).drop (UInt8.ofNat t.2.length).toNat = rest := by
  have hlength : (UInt8.ofNat t.2.length).toNat = t.2.length := by
    rw [UInt8.toNat_ofNat']
    exact Nat.mod_eq_of_lt (Nat.lt_succ_of_le h)
  rw [hlength]
  exact ⟨rfl, List.take_left, List.drop_left⟩

theorem triplets_append {t : Triplet} (h : t.2.length ≤ 255) (rest : List UInt8) :
    triplets (t.bytes ++ rest) = t :: triplets rest := by
  obtain ⟨hlength, htake, hdrop⟩ := take_drop_value h rest
  rw [Triplet.bytes, List.cons_append, List.cons_append, triplets, if_pos, htake, hdrop]
  rw [hlength, List.length_append]
  exact Nat.le_add_right _ _

theorem triplets_flatMap {ts : List Triplet} (h : ∀ t ∈ ts, t.2.length ≤ 255) :
    triplets (ts.flatMap Triplet.bytes) = ts := by
  induction ts with
  | nil => exact triplets_nil
  | cons t ts ih =>
    rw [List.flatMap_cons, triplets_append (h t List.mem_cons_self),
      ih fun u hu => h u (List.mem_cons_of_mem t hu)]

theorem tripletLengths_flatMap {ts : List Triplet} (h : ∀ t ∈ ts, t.2.length ≤ 255) :
    tripletLengths (ts.flatMap Triplet.bytes) = ts.map fun t => UInt8.ofNat t.2.length := by
  induction ts with
  | nil => exact tripletLengths_nil
  | cons t ts ih =>
    obtain ⟨hlength, -, hdrop⟩ := take_drop_value (h t List.mem_cons_self)
      (ts.flatMap Triplet.bytes)
    rw [List.flatMap_cons, Triplet.bytes, List.cons_append, List.cons_append, tripletLengths,
      if_pos, hdrop, ih fun u hu => h u (List.mem_cons_of_mem t hu), List.map_cons]
    rw [hlength, List.length_append]
    exact Nat.le_add_right _ _

theorem triplets_filter_length_le (p : Triplet → Bool) (bytes : List UInt8) :
    (((triplets bytes).filter p).flatMap Triplet.bytes).length ≤ bytes.length := by
  fun_induction triplets bytes with
  | case1 tag len rest hle ih =>
    rw [List.length_drop] at ih
    rw [List.filter_cons, List.length_cons, List.length_cons]
    split
    · rw [List.flatMap_cons, List.length_append, Triplet.bytes_take hle, List.length_cons,
        List.length_cons, List.length_take, Nat.min_eq_left hle]
      omega
    · omega
  | case2 tag len rest hlong | case3 bytes hshort => exact Nat.zero_le _

end BluetoothStack.Lib
