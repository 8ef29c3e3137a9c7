import Mathlib

/-!
# BluetoothStack.Packet.View

Packet views (`view.cc`, `packet_view.cc`): lists of slices of shared data, and the bytes they show.

The byte order of a view matters for `extract` only; `GetLittleEndianSubview` and
`GetBigEndianSubview` are both `getSubview`.
-/

namespace BluetoothStack.Packet

/-- `View`: the slice `[begin_, end_)` of shared data. -/
structure View where
  data : List UInt8
  begin_ : Nat
  end_ : Nat
  begin_le : begin_ ≤ end_
  end_le : end_ ≤ data.length
deriving DecidableEq, Repr

namespace View

/-- `View(data, begin, end)`. -/
def ofData (data : List UInt8) (first last : Nat) (h : first ≤ last) : View where
  data := data
  begin_ := min first data.length
  end_ := min last data.length
  begin_le := min_le_min_right _ h
  end_le := min_le_right _ _

def size (v : View) : Nat := v.end_ - v.begin_

variable (v : View)

theorem begin_add_size : v.begin_ + v.size = v.end_ := Nat.add_sub_of_le v.begin_le

/-- `View(view, begin, end)`. -/
def sub (v : View) (first last : Nat) (h : first ≤ last) : View where
  data := v.data
  begin_ := min first v.size + v.begin_
  end_ := min last v.size + v.begin_
  begin_le := Nat.add_le_add_right (min_le_min_right _ h) _
  end_le := by
    have hsize := v.begin_add_size
    have hend := v.end_le
    omega

/-- `operator[]`, with its assertion. -/
def get? (v : View) (i : Nat) : Option UInt8 :=
  if i + v.begin_ < v.end_ then v.data[i + v.begin_]? else none

/-- What the view shows. -/
def bytes (v : View) : List UInt8 := (v.data.drop v.begin_).take v.size

theorem length_bytes : v.bytes.length = v.size := by
  have hsize := v.begin_add_size
  have hend := v.end_le
  rw [bytes, List.length_take, List.length_drop]
  omega

theorem bytes_ofData (data : List UInt8) :
    (ofData data 0 data.length (Nat.zero_le _)).bytes = data := by
  simp [ofData, bytes, size]

theorem bytes_sub (first last : Nat) (h : first ≤ last) :
    (v.sub first last h).bytes = (v.bytes.drop first).take (last - first) := by
  have hsize : (v.sub first last h).size = min last v.size - min first v.size := by
    show min last v.size + v.begin_ - (min first v.size + v.begin_) = _
    omega
  rw [bytes, hsize, bytes, List.drop_take, List.drop_drop, List.take_take]
  show (v.data.drop (min first v.size + v.begin_)).take _ = _
  rcases Nat.le_total first v.size with hfirst | hfirst
  · rw [min_eq_left hfirst, Nat.add_comm first]
    congr 1
    omega
  · have hempty : min last v.size - min first v.size = 0 := by
      omega
    have hempty' : min (last - first) (v.size - first) = 0 := by
      omega
    rw [hempty, hempty', List.take_zero, List.take_zero]

theorem get?_eq (i : Nat) : v.get? i = v.bytes[i]? := by
  have hsize := v.begin_add_size
  rw [get?, bytes, List.getElem?_take, List.getElem?_drop, Nat.add_comm i]
  refine if_congr ?_ rfl rfl
  omega

end View

/-! ### Lists of fragments -/

/-- The bytes of the fragments. -/
def concat (fragments : List View) : List UInt8 := fragments.flatMap View.bytes

/-- The sum of the sizes. -/
def totalSize (fragments : List View) : Nat := (fragments.map View.size).sum

@[simp] theorem concat_nil : concat [] = [] := rfl

@[simp] theorem concat_cons (f : View) (fs : List View) : concat (f :: fs) = f.bytes ++ concat fs :=
  rfl

variable (fs : List View)

@[simp] theorem concat_append (gs : List View) : concat (fs ++ gs) = concat fs ++ concat gs :=
  List.flatMap_append

@[simp] theorem totalSize_cons (f : View) (fs : List View) :
    totalSize (f :: fs) = f.size + totalSize fs := by
  rw [totalSize, List.map_cons, List.sum_cons, totalSize]

@[simp] theorem totalSize_append (gs : List View) :
    totalSize (fs ++ gs) = totalSize fs + totalSize gs := by
  rw [totalSize, List.map_append, List.sum_append, totalSize, totalSize]

theorem length_concat : (concat fs).length = totalSize fs := by
  induction fs with
  | nil => rfl
  | cons f fs ih => rw [concat_cons, List.length_append, View.length_bytes, ih, totalSize_cons]

theorem concat_of_totalSize {fs : List View} (h : totalSize fs = 0) : concat fs = [] :=
  List.length_eq_zero_iff.mp ((length_concat fs).trans h)

/-- The loop of `at` and of the iterator's `operator*`. -/
def fetch : List View → Nat → Option UInt8
  | [], _ => none
  | f :: fs, i => if i < f.size then f.get? i else fetch fs (i - f.size)

theorem fetch_eq (i : Nat) : fetch fs i = (concat fs)[i]? := by
  induction fs generalizing i with
  | nil => rfl
  | cons f fs ih =>
    rw [fetch, concat_cons, List.getElem?_append, View.length_bytes]
    refine if_congr Iff.rfl (f.get?_eq i) (ih _)

/-- The loop of `GetSubviewList`. -/
def subviewList : List View → Nat → Nat → List View
  | [], _, _ => []
  | f :: fs, first, length =>
    if f.size ≤ first then subviewList fs (first - f.size) length
    else
      let view := f.sub first (first + min length (f.size - first)) (Nat.le_add_right _ _)
      view :: subviewList fs 0 (length - view.size)

theorem concat_subviewList (first length : Nat) :
    concat (subviewList fs first length) = ((concat fs).drop first).take length := by
  induction fs generalizing first length with
  | nil => simp [subviewList]
  | cons f fs ih =>
    rw [subviewList, concat_cons, List.drop_append, View.length_bytes]
    split
    next hskip =>
      have hdrop : f.bytes.drop first = [] :=
        List.drop_eq_nil_of_le (f.length_bytes.trans_le hskip)
      rw [ih, hdrop, List.nil_append]
    next hskip =>
      have hbytes :
        (f.sub first (first + min length (f.size - first)) (Nat.le_add_right _ _)).bytes =
          (f.bytes.drop first).take length := by
        have hlength : (f.bytes.drop first).length = f.size - first := by
          rw [List.length_drop, View.length_bytes]
        rw [View.bytes_sub, Nat.add_sub_cancel_left, ← hlength, ← List.take_take, List.take_length]
      have hsize : length - (f.sub first (first + min length (f.size - first))
          (Nat.le_add_right _ _)).size = length - (f.bytes.drop first).length := by
        rw [← View.length_bytes, hbytes, List.length_take]
        omega
      have hfirst : first - f.size = 0 := by
        omega
      rw [concat_cons, ih, hbytes, hsize, hfirst, List.take_append]

/-- A subview has no fragments where it begins at the end. -/
theorem subviewList_eq_nil (first length : Nat) :
    subviewList fs first length = [] ↔ totalSize fs ≤ first := by
  induction fs generalizing first length with
  | nil => exact iff_of_true rfl (Nat.zero_le first)
  | cons f fs ih =>
    rw [subviewList, totalSize_cons]
    split
    next hskip =>
      rw [ih]
      omega
    next hskip =>
      refine iff_of_false (List.cons_ne_nil _ _) ?_
      omega

/-! ### Insertion -/

/-- The loop of `Append` that looks for the insertion point, over the fragments from there on. -/
def insertionPoint : List View → Nat → Nat → Option Nat
  | _, point, 0 => some point
  | [], _, _ + 1 => none
  | f :: fs, point, remaining + 1 =>
    if 0 < remaining + 1 - f.size then insertionPoint fs (point + 1) (remaining + 1 - f.size)
    else some point

/-- `insert_after`. -/
def insertAfter (fs : List View) (point : Nat) (f : View) : List View :=
  fs.take (point + 1) ++ f :: fs.drop (point + 1)

/-- The loop of `Append` that inserts. -/
def insertAll : List View → Nat → List View → List View
  | fs, _, [] => fs
  | fs, point, f :: rest => insertAll (insertAfter fs point f) (point + 1) rest

theorem totalSize_insertAll (point : Nat) (toAdd : List View) :
    totalSize (insertAll fs point toAdd) = totalSize fs + totalSize toAdd := by
  induction toAdd generalizing fs point with
  | nil => rfl
  | cons f rest ih =>
    have hsplit : totalSize fs = totalSize (fs.take (point + 1)) + totalSize
        (fs.drop (point + 1)) := by
      rw [← totalSize_append, List.take_append_drop]
    rw [insertAll, ih, insertAfter, totalSize_append, totalSize_cons, totalSize_cons, hsplit]
    omega

theorem insertAll_eq {fs : List View} {point : Nat} (h : point < fs.length) (toAdd : List View) :
    insertAll fs point toAdd = fs.take (point + 1) ++ toAdd ++ fs.drop (point + 1) := by
  induction toAdd generalizing fs point with
  | nil => rw [insertAll, List.append_nil, List.take_append_drop]
  | cons f rest ih =>
    have htake : (fs.take (point + 1)).length = point + 1 := List.length_take_of_le h
    have hlength : point + 1 < (insertAfter fs point f).length := by
      rw [insertAfter, List.length_append, List.length_cons, htake]
      omega
    have htake' : (insertAfter fs point f).take (point + 1 + 1) = fs.take (point + 1) ++ [f] := by
      rw [insertAfter, List.take_append, htake, Nat.add_sub_cancel_left,
        List.take_of_length_le (by omega)]
      rfl
    have hdrop : (insertAfter fs point f).drop (point + 1 + 1) = fs.drop (point + 1) := by
      rw [insertAfter, List.drop_append, htake, Nat.add_sub_cancel_left,
        List.drop_eq_nil_of_le (by omega)]
      rfl
    rw [insertAll, ih hlength, htake', hdrop, List.append_assoc, List.append_assoc,
      List.singleton_append, List.append_assoc, List.cons_append]

theorem insertionPoint_cons (f : View) (fs : List View) (point remaining : Nat) :
    insertionPoint (f :: fs) point remaining =
      if 0 < remaining - f.size then insertionPoint fs (point + 1) (remaining - f.size)
      else some point := by
  cases remaining with
  | zero => rw [insertionPoint, Nat.zero_sub, if_neg (lt_irrefl 0)]
  | succ remaining => rfl

/-- Behind the insertion point there are no bytes. -/
theorem insertionPoint_spec {fs : List View} (hfs : fs ≠ []) (point : Nat) :
    ∃ p, insertionPoint fs point (totalSize fs) = some (point + p) ∧ p < fs.length ∧
      concat (fs.drop (p + 1)) = [] := by
  induction fs generalizing point with
  | nil => exact absurd rfl hfs
  | cons f fs ih =>
    rw [insertionPoint_cons, totalSize_cons, Nat.add_sub_cancel_left]
    split
    next hrest =>
      have hne : fs ≠ [] := by
        rintro rfl
        exact lt_irrefl 0 hrest
      obtain ⟨p, hpoint, hlt, hempty⟩ := ih hne (point + 1)
      refine ⟨p + 1, ?_, Nat.succ_lt_succ hlt, hempty⟩
      rw [hpoint, Nat.add_assoc, Nat.add_comm 1]
    next hrest => exact ⟨0, rfl, Nat.succ_pos _, concat_of_totalSize (Nat.eq_zero_of_not_pos hrest)⟩

/-! ### Views -/

structure PacketView where
  fragments : List View
  length : Nat
  length_eq : length = totalSize fragments
deriving DecidableEq, Repr

namespace PacketView

/-- `PacketView(fragments)`. -/
def ofFragments (fragments : List View) : PacketView := ⟨fragments, totalSize fragments, rfl⟩

/-- `PacketView(packet)`. -/
def ofPacket (packet : List UInt8) : PacketView where
  fragments := [View.ofData packet 0 packet.length (Nat.zero_le _)]
  length := packet.length
  length_eq := by
    rw [← length_concat, concat_cons, View.bytes_ofData, concat_nil, List.append_nil]

def size (v : PacketView) : Nat := v.length

/-- `at`, with its assertion. -/
def at? (v : PacketView) (index : Nat) : Option UInt8 :=
  if index < v.length then fetch v.fragments index else none

/-- `GetLittleEndianSubview` and `GetBigEndianSubview`, with the assertions of `GetSubviewList`. -/
def getSubview (v : PacketView) (first last : Nat) : Option PacketView :=
  if first ≤ last ∧ last ≤ v.length then
    some (ofFragments (subviewList v.fragments first (last - first)))
  else none

/-- `Append`, with its assertion. -/
def append (v toAdd : PacketView) : Option PacketView := do
  let point ← insertionPoint v.fragments 0 v.length
  if point < v.fragments.length then
    some {
      fragments := insertAll v.fragments point toAdd.fragments
      length := v.length + toAdd.length
      length_eq := by
        rw [totalSize_insertAll, v.length_eq, toAdd.length_eq] }
  else none

/-- The bytes of the view: the concatenation of its fragments, cut to its length. -/
def bytes (v : PacketView) : List UInt8 := (concat v.fragments).take v.length

variable (v : PacketView)

theorem length_concat_fragments : (concat v.fragments).length = v.length := by
  rw [length_concat, v.length_eq]

theorem bytes_eq : v.bytes = concat v.fragments := by
  rw [bytes, ← v.length_concat_fragments, List.take_length]

theorem length_bytes : v.bytes.length = v.size := by
  rw [bytes_eq, length_concat_fragments]
  rfl

theorem bytes_ofPacket (packet : List UInt8) : (ofPacket packet).bytes = packet := by
  rw [bytes_eq]
  show (View.ofData packet 0 packet.length (Nat.zero_le _)).bytes ++ [] = packet
  rw [View.bytes_ofData, List.append_nil]

theorem at?_eq (index : Nat) : v.at? index = v.bytes[index]? := by
  rw [at?, fetch_eq, bytes_eq]
  split
  · rfl
  next h => rw [List.getElem?_eq_none (v.length_concat_fragments.trans_le (Nat.le_of_not_lt h))]

theorem getSubview_spec {first last : Nat} (h : first ≤ last ∧ last ≤ v.bytes.length) :
    ∃ v', v.getSubview first last = some v' ∧
      v'.bytes = (v.bytes.drop first).take (last - first) ∧
      (v'.fragments = [] ↔ v.bytes.length = first) := by
  have hlength := v.length_bytes
  refine ⟨_, if_pos ⟨h.1, h.2.trans_eq hlength⟩, ?_, ?_⟩
  · rw [bytes_eq, bytes_eq]
    exact concat_subviewList _ _ _
  · show subviewList v.fragments first (last - first) = [] ↔ _
    rw [subviewList_eq_nil, ← v.length_eq]
    have hsize : v.size = v.length := rfl
    omega

/-- `Append` trips its assertion on a view without fragments. -/
theorem append_none (toAdd : PacketView) (h : v.fragments = []) : v.append toAdd = none := by
  obtain ⟨fragments, length, rfl⟩ := v
  have h : fragments = [] := h
  subst h
  rfl

theorem append_spec (toAdd : PacketView) (h : v.fragments ≠ []) :
    ∃ v', v.append toAdd = some v' ∧ v'.bytes = v.bytes ++ toAdd.bytes ∧ v'.fragments ≠ [] := by
  obtain ⟨p, hpoint, hlt, hempty⟩ := insertionPoint_spec h 0
  rw [← v.length_eq, Nat.zero_add] at hpoint
  have hbytes : concat (insertAll v.fragments p toAdd.fragments) =
      concat v.fragments ++ concat toAdd.fragments := by
    have hsplit : concat v.fragments = concat (v.fragments.take (p + 1)) := by
      rw [← List.append_nil (concat (v.fragments.take (p + 1))), ← hempty, ← concat_append,
        List.take_append_drop]
    rw [insertAll_eq hlt, concat_append, concat_append, hempty, List.append_nil, hsplit]
  rw [append, hpoint]
  refine ⟨_, if_pos hlt, ?_, fun hnil => ?_⟩
  · rw [bytes_eq, bytes_eq, bytes_eq]
    exact hbytes
  · have hnil : insertAll v.fragments p toAdd.fragments = [] := hnil
    rw [insertAll_eq hlt, List.append_assoc, List.append_eq_nil_iff, List.take_eq_nil_iff] at hnil
    exact hnil.1.elim (Nat.succ_ne_zero p) h

end PacketView

end BluetoothStack.Packet
