import BluetoothStack.Lib.Words

/-!
# BluetoothStack.Acl.PacketView

Packets that are stored in pieces (`packet/packet_view.cc`).

A `View` is the part of a buffer between its bounds, so it is modelled by the bytes in it. The
length that a `PacketView` stores is the sum over its views. An operation that can run into an
assertion returns an `Option`.
-/

namespace BluetoothStack.Acl

open BluetoothStack.Lib

abbrev View := List UInt8

structure PacketView where
  fragments : List View
deriving DecidableEq, Repr

namespace PacketView

variable (v : PacketView)

/-- `length_`. -/
def size : Nat := (v.fragments.map List.length).sum

/-- The bytes in their order. -/
def bytes : List UInt8 := v.fragments.flatten

/-- The search of `at` through the views. -/
def atFragments : List View → Nat → Option UInt8
  | [], _ => none
  | f :: fs, index => if index < f.length then f[index]? else atFragments fs (index - f.length)

def at? (index : Nat) : Option UInt8 :=
  if index < v.size then atFragments v.fragments index else none

/-- The loop of `GetSubviewList`. -/
def subviews : List View → Nat → Nat → List View
  | [], _, _ => []
  | f :: fs, start, length =>
    if start ≥ f.length then subviews fs (start - f.length) length
    else
      let view := (f.drop start).take (min length (f.length - start))
      view :: subviews fs 0 (length - view.length)

/-- `GetSubviewList`. -/
def getSubviewList (start stop : Nat) : Option (List View) :=
  if start ≤ stop ∧ stop ≤ v.size then some (subviews v.fragments start (stop - start)) else none

/-- Insert behind the view in which the first `remaining` bytes end. -/
def insertAfter (toAdd : List View) : List View → Nat → Option (List View)
  | [], _ => none
  | f :: fs, remaining =>
    if remaining - f.length > 0 then (insertAfter toAdd fs (remaining - f.length)).map (f :: ·)
    else some (f :: toAdd ++ fs)

/-- `Append`; it needs a view to insert behind. -/
def append (toAdd : PacketView) : Option PacketView :=
  (insertAfter toAdd.fragments v.fragments v.size).map PacketView.mk

/-! ### In terms of the bytes -/

theorem size_eq : v.size = v.bytes.length := by rw [size, bytes, List.length_flatten]

theorem atFragments_eq (fs : List View) (index : Nat) :
    atFragments fs index = fs.flatten[index]? := by
  induction fs generalizing index with
  | nil => rfl
  | cons f fs ih =>
    rw [atFragments, List.flatten_cons]
    split
    next h => rw [List.getElem?_append_left h]
    next h => rw [List.getElem?_append_right (Nat.not_lt.mp h), ih]

theorem at?_eq (index : Nat) : v.at? index = v.bytes[index]? := by
  rw [at?, atFragments_eq, size_eq]
  split
  · rfl
  next h => exact (List.getElem?_eq_none (Nat.not_lt.mp h)).symm

theorem subviews_flatten (fs : List View) (start length : Nat) :
    (subviews fs start length).flatten = (fs.flatten.drop start).take length := by
  induction fs generalizing start length with
  | nil => simp [subviews]
  | cons f fs ih =>
    rw [subviews]
    split
    next h =>
      rw [ih, List.flatten_cons, List.drop_append, List.drop_eq_nil_of_le h, List.nil_append]
    next h =>
      have hview : ((f.drop start).take (min length (f.length - start))).length =
          min length (f.length - start) := by simp
      rw [List.flatten_cons, ih, List.flatten_cons, hview,
        List.drop_append_of_le_length (Nat.le_of_not_ge h), List.take_append, List.length_drop,
        List.drop_zero]
      congr 1
      · rw [List.take_eq_take_iff]
        simp
      · congr 1
        omega

/-- A subview has the bytes between its bounds. -/
theorem getSubviewList_flatten {start stop : Nat} {views : List View}
    (h : v.getSubviewList start stop = some views) :
    views.flatten = (v.bytes.drop start).take (stop - start) := by
  rw [getSubviewList] at h
  split at h
  · rw [← Option.some.inj h, subviews_flatten, bytes]
  · cases h

theorem insertAfter_flatten {toAdd fs fs' : List View} {remaining : Nat}
    (hremaining : remaining = fs.flatten.length) (h : insertAfter toAdd fs remaining = some fs') :
    fs'.flatten = fs.flatten ++ toAdd.flatten := by
  induction fs generalizing remaining fs' with
  | nil => cases h
  | cons f fs ih =>
    rw [List.flatten_cons, List.length_append] at hremaining
    rw [insertAfter] at h
    split at h
    · obtain ⟨rest, hrest, rfl⟩ := Option.map_eq_some_iff.mp h
      rw [List.flatten_cons, ih (by omega) hrest, List.flatten_cons, List.append_assoc]
    · -- the views behind the insertion point are empty
      have hempty : fs.flatten = [] := List.length_eq_zero_iff.mp (by omega)
      rw [← Option.some.inj h]
      simp [hempty]

theorem insertAfter_isSome {toAdd fs : List View} (hfs : fs ≠ []) {remaining : Nat}
    (hremaining : remaining = fs.flatten.length) : (insertAfter toAdd fs remaining).isSome := by
  induction fs generalizing remaining with
  | nil => exact absurd rfl hfs
  | cons f fs ih =>
    rw [List.flatten_cons, List.length_append] at hremaining
    rw [insertAfter]
    split
    next hpos =>
      have hne : fs ≠ [] := by
        intro hnil
        simp only [hnil, List.flatten_nil, List.length_nil] at hremaining
        omega
      rw [Option.isSome_map]
      exact ih hne (by omega)
    · rfl

theorem append_bytes (toAdd : PacketView) (hv : v.fragments ≠ []) :
    ∃ w, v.append toAdd = some w ∧ w.bytes = v.bytes ++ toAdd.bytes := by
  have hsize : v.size = v.fragments.flatten.length := v.size_eq
  have hsome : (insertAfter toAdd.fragments v.fragments v.size).isSome :=
    insertAfter_isSome hv hsize
  obtain ⟨fs, hfs⟩ := Option.isSome_iff_exists.mp hsome
  refine ⟨⟨fs⟩, by rw [append, hfs, Option.map_some], ?_⟩
  exact insertAfter_flatten hsize hfs

/-- Appending to a packet without a view runs into the assertion. -/
theorem append_eq_none {toAdd : PacketView} (hv : v.fragments = []) : v.append toAdd = none := by
  rw [append, hv, insertAfter, Option.map_none]

end PacketView

end BluetoothStack.Acl
