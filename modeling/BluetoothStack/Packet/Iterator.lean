import BluetoothStack.Packet.View

/-!
# BluetoothStack.Packet.Iterator

Iterators over packet views (`iterator.cc`), and that views and iterators are the byte lists they
stand for (`refines_iff`).

Positions are not bounded here: a move that stays within the packet does not wrap around.
-/

namespace BluetoothStack.Packet

structure Iterator where
  data : List View
  index : Nat
  begin_ : Nat
  end_ : Nat
deriving DecidableEq, Repr

namespace Iterator

/-- `Iterator(data, offset)`. -/
def ofData (data : List View) (offset : Nat) : Iterator := ⟨data, offset, 0, totalSize data⟩

/-- `operator++`. -/
def next (it : Iterator) : Iterator := { it with index := it.index + 1 }

/-- `operator--`. -/
def prev (it : Iterator) : Iterator :=
  if it.index ≠ 0 then { it with index := it.index - 1 } else it

/-- `operator+=` and, with the opposite offset, `operator-=`. -/
def add (it : Iterator) (offset : Int) : Iterator := { it with index := (it.index + offset).toNat }

/-- `operator==`. -/
def eq (it it' : Iterator) : Bool := it.index = it'.index

def numBytesRemaining (it : Iterator) : Nat :=
  if it.end_ > it.index ∧ it.index ≥ it.begin_ then it.end_ - it.index else 0

/-- `operator*`, with its assertion. -/
def deref (it : Iterator) : Option UInt8 :=
  if it.numBytesRemaining > 0 then fetch it.data it.index else none

def subrange (it : Iterator) (index length : Nat) : Iterator :=
  if it.numBytesRemaining > index then
    let moved := { it with index := it.index + index, begin_ := it.index + index }
    if moved.numBytesRemaining ≥ length then { moved with end_ := moved.index + length } else moved
  else { it with end_ := 0 }

end Iterator

namespace PacketView

/-- `begin()`. -/
def first (v : PacketView) : Iterator := .ofData v.fragments 0

/-- `end()`. -/
def last (v : PacketView) : Iterator := .ofData v.fragments v.size

end PacketView

/-! ### Cursors -/

/-- A byte list and a position in it. -/
structure Cursor where
  bytes : List UInt8
  pos : Nat
deriving DecidableEq, Repr

inductive Move where
  | next
  | prev
  | add (offset : Int)
  | subrange (index length : Nat)
deriving DecidableEq, Repr

/-- A move within the list. A subrange is the slice clipped to the end. -/
def Cursor.move (c : Cursor) : Move → Option Cursor
  | .next => if c.pos < c.bytes.length then some { c with pos := c.pos + 1 } else none
  | .prev => if 0 < c.pos then some { c with pos := c.pos - 1 } else none
  | .add offset =>
    if 0 ≤ c.pos + offset ∧ c.pos + offset ≤ c.bytes.length then
      some { c with pos := (c.pos + offset).toNat }
    else none
  | .subrange index length => some ⟨(c.bytes.drop (c.pos + index)).take length, 0⟩

def Cursor.run (c : Cursor) : List Move → Option Cursor
  | [] => some c
  | m :: ms => (c.move m).bind (·.run ms)

namespace Iterator

def move (it : Iterator) : Move → Iterator
  | .next => it.next
  | .prev => it.prev
  | .add offset => it.add offset
  | .subrange index length => it.subrange index length

def run (it : Iterator) (ms : List Move) : Iterator := ms.foldl move it

/-- The iterator behaves as the cursor. -/
structure Shows (it : Iterator) (c : Cursor) : Prop where
  remaining : it.numBytesRemaining = c.bytes.length - c.pos
  deref : it.deref = c.bytes[c.pos]?

/-- The cursor is over the slice `[begin_, end_)`, or over nothing. -/
structure Over (it : Iterator) (c : Cursor) : Prop where
  pos_le : c.pos ≤ c.bytes.length
  slice : (it.index = it.begin_ + c.pos ∧ it.end_ = it.begin_ + c.bytes.length ∧
      c.bytes = ((concat it.data).drop it.begin_).take c.bytes.length) ∨
    (c.bytes = [] ∧ it.end_ ≤ it.index)

variable {it : Iterator} {c c' : Cursor}

section

variable (h : it.Over c)
include h

theorem Over.remaining : it.numBytesRemaining = c.bytes.length - c.pos := by
  have hpos := h.pos_le
  rw [numBytesRemaining]
  rcases h.slice with ⟨hindex, hend, -⟩ | ⟨hnil, hend⟩
  · split <;> omega
  · rw [if_neg (by omega), hnil, List.length_nil, Nat.zero_sub]

theorem Over.shows : it.Shows c where
  remaining := h.remaining
  deref := by
    rw [Iterator.deref, h.remaining]
    split
    next hlt =>
      rcases h.slice with ⟨hindex, -, hbytes⟩ | ⟨hnil, -⟩
      · have hget : c.bytes[c.pos]? = (concat it.data)[it.begin_ + c.pos]? := by
          rw [hbytes, List.getElem?_take, if_pos (by omega), List.getElem?_drop]
        rw [fetch_eq, hindex, hget]
      · rw [hnil] at hlt
        exact absurd hlt (by simp)
    next hlt => rw [List.getElem?_eq_none (by omega)]

theorem Over.pos_le_index : c.pos ≤ it.index := by
  have hpos := h.pos_le
  rcases h.slice with ⟨hindex, -, -⟩ | ⟨hnil, -⟩
  · omega
  · rw [hnil] at hpos
    exact (Nat.le_zero.mp hpos).trans_le (Nat.zero_le _)

/-- The iterator at another position of the same slice. -/
theorem Over.at_pos {index pos : Nat} (hpos : pos ≤ c.bytes.length)
    (hindex : it.index + pos = index + c.pos) :
    ({ it with index := index } : Iterator).Over { c with pos := pos } where
  pos_le := hpos
  slice := by
    have hle := h.pos_le
    rcases h.slice with ⟨hit, hend, hbytes⟩ | ⟨hnil, hend⟩
    · refine .inl ⟨?_, hend, hbytes⟩
      show index = it.begin_ + pos
      omega
    · refine .inr ⟨hnil, ?_⟩
      rw [hnil, List.length_nil] at hle hpos
      show it.end_ ≤ index
      omega

theorem Over.subrange (index length : Nat) :
    (it.subrange index length).Over ⟨(c.bytes.drop (c.pos + index)).take length, 0⟩ := by
  refine ⟨Nat.zero_le _, ?_⟩
  have hremaining := h.remaining
  have hle := h.pos_le
  rw [Iterator.subrange]
  split
  next hlt =>
    rcases h.slice with ⟨hit, hend, hbytes⟩ | ⟨hnil, -⟩
    · left
      obtain ⟨size, hsize⟩ : ∃ size, size = c.bytes.length := ⟨_, rfl⟩
      rw [← hsize] at hremaining hle hend hbytes
      have hslice : (c.bytes.drop (c.pos + index)).take length =
          ((concat it.data).drop (it.index + index)).take
            (min length (size - (c.pos + index))) := by
        rw [hbytes, List.drop_take, List.take_take, List.drop_drop, hit, Nat.add_assoc]
      have hlength : ((c.bytes.drop (c.pos + index)).take length).length =
          min length (size - (c.pos + index)) := by
        rw [List.length_take, List.length_drop, hsize]
      have hmoved : numBytesRemaining
          { it with index := it.index + index, begin_ := it.index + index } =
            size - (c.pos + index) := by
        rw [numBytesRemaining]
        dsimp only
        split <;> omega
      simp only [hmoved, hlength]
      split
      next hfits =>
        rw [min_eq_left hfits] at hslice ⊢
        exact ⟨rfl, rfl, hslice⟩
      next hfits =>
        -- the end is kept if the subrange asks for more than there is
        rw [min_eq_right (by omega)] at hslice ⊢
        refine ⟨rfl, ?_, hslice⟩
        show it.end_ = it.index + index + _
        omega
    · rw [hremaining, hnil] at hlt
      exact absurd hlt (by simp)
  next hlt =>
    have hempty : c.bytes.drop (c.pos + index) = [] := List.drop_eq_nil_of_le (by omega)
    refine .inr ⟨?_, Nat.zero_le _⟩
    rw [hempty, List.take_nil]

theorem Over.move {m : Move} (hm : c.move m = some c') : (it.move m).Over c' := by
  have hle := h.pos_le
  cases m with
  | next =>
    obtain ⟨hlt, hc⟩ := Option.ite_none_right_eq_some.mp hm
    cases hc
    exact h.at_pos hlt (by omega)
  | prev =>
    obtain ⟨hlt, hc⟩ := Option.ite_none_right_eq_some.mp hm
    cases hc
    have hindex : c.pos ≤ it.index := h.pos_le_index
    show (Iterator.prev it).Over _
    rw [Iterator.prev, if_pos (by omega)]
    exact h.at_pos (by omega) (by omega)
  | add offset =>
    obtain ⟨hlt, hc⟩ := Option.ite_none_right_eq_some.mp hm
    cases hc
    have hindex : c.pos ≤ it.index := h.pos_le_index
    exact h.at_pos (by omega) (by omega)
  | subrange index length =>
    cases hm
    exact h.subrange index length

theorem Over.run (ms : List Move) (hms : c.run ms = some c') : (it.run ms).Over c' := by
  induction ms generalizing it c with
  | nil =>
    cases hms
    exact h
  | cons m ms ih =>
    obtain ⟨c₁, hm, hms⟩ := Option.bind_eq_some_iff.mp hms
    exact ih (h.move hm) hms

end

end Iterator

namespace PacketView

variable (v : PacketView)

theorem first_over : v.first.Over ⟨v.bytes, 0⟩ where
  pos_le := Nat.zero_le _
  slice := by
    have hlength := (congrArg List.length v.bytes_eq).trans (length_concat _)
    refine .inl ⟨rfl, ?_, ?_⟩
    · show totalSize v.fragments = 0 + v.bytes.length
      rw [hlength, Nat.zero_add]
    · show v.bytes = ((concat v.fragments).drop 0).take v.bytes.length
      rw [List.drop_zero, ← v.bytes_eq, List.take_length]

theorem last_over : v.last.Over ⟨v.bytes, v.bytes.length⟩ := by
  refine v.first_over.at_pos le_rfl ?_
  show 0 + v.bytes.length = v.size + 0
  rw [length_bytes, Nat.zero_add, Nat.add_zero]

end PacketView

/-- A view behaves as a byte list. -/
structure Refines (v : PacketView) (l : List UInt8) : Prop where
  bytes : v.bytes = l
  size : v.size = l.length
  at? : ∀ i, v.at? i = l[i]?
  first : ∀ ms c, Cursor.run ⟨l, 0⟩ ms = some c → (v.first.run ms).Shows c
  last : ∀ ms c, Cursor.run ⟨l, l.length⟩ ms = some c → (v.last.run ms).Shows c
  eq_last : ∀ i : Nat, i ≤ l.length → ((v.first.add i).eq v.last ↔ i = l.length)

theorem refines_bytes (v : PacketView) : Refines v v.bytes where
  bytes := rfl
  size := v.length_bytes.symm
  at? := v.at?_eq
  first := fun ms _ h => (v.first_over.run ms h).shows
  last := fun ms _ h => (v.last_over.run ms h).shows
  eq_last := by
    intro i _
    rw [v.length_bytes]
    show decide ((0 + (i : Int)).toNat = v.size) = true ↔ i = v.size
    rw [decide_eq_true_iff, zero_add, Int.toNat_natCast]

/-! ### Every way to build a view -/

inductive Expr where
  | packet (data : List UInt8)
  | fragments (views : List View)
  | subview (e : Expr) (first last : Nat)
  | append (e toAdd : Expr)
deriving DecidableEq, Repr

namespace Expr

/-- What the code builds; nothing where an assertion trips. -/
def eval : Expr → Option PacketView
  | packet data => some (.ofPacket data)
  | fragments views => some (.ofFragments views)
  | subview e first last => e.eval.bind (·.getSubview first last)
  | append e toAdd => e.eval.bind fun v => toAdd.eval.bind v.append

/-- The same on byte lists, within bounds. -/
def spec : Expr → Option (List UInt8)
  | packet data => some data
  | fragments views => some (concat views)
  | subview e first last =>
    e.spec.bind fun l =>
      if first ≤ last ∧ last ≤ l.length then some ((l.drop first).take (last - first)) else none
  | append e toAdd => e.spec.bind fun l => toAdd.spec.map (l ++ ·)

/-- The view has no fragments: it was built of none, or begins at the end of another one. -/
def noFragments : Expr → Bool
  | packet _ => false
  | fragments views => views.isEmpty
  | subview e first _ => e.spec.map List.length = some first
  | append _ _ => false

/-- Nothing is appended to a view without fragments. -/
def AppendsToFragments : Expr → Prop
  | packet _ | fragments _ => True
  | subview e _ _ => e.AppendsToFragments
  | append e toAdd => e.AppendsToFragments ∧ toAdd.AppendsToFragments ∧ e.noFragments = false

/-- What is built shows the bytes it should. -/
theorem eval_spec (e : Expr) (l : List UInt8) (h : e.spec = some l) :
    (e.AppendsToFragments → ∃ v, e.eval = some v ∧ v.bytes = l ∧
      (v.fragments = [] ↔ e.noFragments = true)) ∧
    (¬ e.AppendsToFragments → e.eval = none) := by
  induction e generalizing l with
  | packet data =>
    cases h
    refine ⟨fun _ => ⟨_, rfl, PacketView.bytes_ofPacket data, ?_⟩, fun hn => absurd trivial hn⟩
    exact iff_of_false (List.cons_ne_nil _ _) Bool.false_ne_true
  | fragments views =>
    cases h
    refine ⟨fun _ => ⟨_, rfl, PacketView.bytes_eq _, ?_⟩, fun hn => absurd trivial hn⟩
    exact List.isEmpty_iff.symm
  | subview e first last ih =>
    obtain ⟨l', hl', h⟩ := Option.bind_eq_some_iff.mp h
    obtain ⟨hbounds, h⟩ := Option.ite_none_right_eq_some.mp h
    cases h
    obtain ⟨hbuilt, hnone⟩ := ih l' hl'
    constructor
    · intro ha
      obtain ⟨v, heval, rfl, -⟩ := hbuilt ha
      obtain ⟨v', hsub, hbytes, hfragments⟩ := v.getSubview_spec hbounds
      refine ⟨v', ?_, hbytes, ?_⟩
      · rw [eval, heval]
        exact hsub
      · rw [hfragments, noFragments, hl', decide_eq_true_iff, Option.map_some, Option.some_inj]
    · intro ha
      rw [eval, hnone ha]
      rfl
  | append e toAdd ih ih' =>
    obtain ⟨l₁, hl₁, h⟩ := Option.bind_eq_some_iff.mp h
    obtain ⟨l₂, hl₂, rfl⟩ := Option.map_eq_some_iff.mp h
    obtain ⟨hbuilt, hnone⟩ := ih l₁ hl₁
    obtain ⟨hbuilt', hnone'⟩ := ih' l₂ hl₂
    constructor
    · rintro ⟨ha, ha', hfragments⟩
      obtain ⟨v, heval, rfl, hv⟩ := hbuilt ha
      obtain ⟨v', heval', rfl, -⟩ := hbuilt' ha'
      have hne : v.fragments ≠ [] := fun hnil => by
        rw [hv.mp hnil] at hfragments
        cases hfragments
      obtain ⟨v'', happend, hbytes, hne'⟩ := v.append_spec v' hne
      refine ⟨v'', ?_, hbytes, iff_of_false hne' Bool.false_ne_true⟩
      rw [eval, heval, Option.bind_some, heval']
      exact happend
    · intro hn
      rw [eval]
      -- evaluation goes from left to right, so the first view that is not built decides
      by_cases ha : e.AppendsToFragments
      · obtain ⟨v, heval, -, hv⟩ := hbuilt ha
        rw [heval, Option.bind_some]
        by_cases ha' : toAdd.AppendsToFragments
        · obtain ⟨v', heval', -⟩ := hbuilt' ha'
          have hfragments : e.noFragments = true := by
            by_contra hfalse
            exact hn ⟨ha, ha', Bool.eq_false_iff.mpr hfalse⟩
          rw [heval', Option.bind_some]
          exact v.append_none v' (hv.mpr hfragments)
        · rw [hnone' ha']
          rfl
      · rw [hnone ha]
        rfl

/-- A view that is built within bounds is the byte list it stands for if nothing is appended to a
view without fragments. -/
theorem refines_iff (e : Expr) (l : List UInt8) (h : e.spec = some l) :
    (∃ v, e.eval = some v ∧ Refines v l) ↔ e.AppendsToFragments := by
  obtain ⟨hbuilt, hnone⟩ := eval_spec e l h
  constructor
  · rintro ⟨v, heval, -⟩
    by_contra hn
    rw [hnone hn] at heval
    cases heval
  · intro ha
    obtain ⟨v, heval, rfl, -⟩ := hbuilt ha
    exact ⟨v, heval, refines_bytes v⟩

/-- A part of a packet of two fragments, cut again where they meet and with bytes appended. -/
theorem refines_iff_subview :
    let whole := append (packet [1, 2, 3]) (packet [4, 5, 6])
    ∃ v, (append (subview (subview whole 1 5) 1 3) (subview whole 2 4)).eval = some v ∧
      Refines v [3, 4, 3, 4] := by
  intro whole
  have hwhole : whole.AppendsToFragments := ⟨trivial, trivial, rfl⟩
  exact (refines_iff (append (subview (subview whole 1 5) 1 3) (subview whole 2 4)) [3, 4, 3, 4]
    (by decide)).mpr ⟨hwhole, hwhole, by decide⟩

/-- A byte appended to the empty subview at the end of a packet. -/
theorem append_to_subview_at_end :
    (append (subview (packet [1]) 1 1) (packet [7])).spec = some [7] ∧
      (append (subview (packet [1]) 1 1) (packet [7])).eval = none := by
  decide

end Expr

end BluetoothStack.Packet
