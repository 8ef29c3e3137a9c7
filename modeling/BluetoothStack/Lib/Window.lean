import Mathlib
import BluetoothStack.Lib.Words
import BluetoothStack.Lib.Chunks

/-!
# BluetoothStack.Lib.Window

A window onto an allocated buffer: an offset and a length beside the data.

Reads and writes are relative to the window and fail outside the buffer, not outside the window.
`Holds` says what is in the window, in front of it and behind it; the data itself is never looked at
again.
-/

namespace BluetoothStack.Lib

universe u

structure Window (α : Type u) where
  data : List α
  offset : Nat
  len : Nat
deriving DecidableEq, Repr

namespace Window

variable {α : Type u}

/-- `n` items from the position `pos` of the window on. -/
def read? (w : Window α) (pos n : Nat) : Option (List α) :=
  if w.offset + pos + n ≤ w.data.length then some (slice w.data (w.offset + pos) n) else none

def item? (w : Window α) (pos : Nat) : Option α := w.data[w.offset + pos]?

/-- `src` is copied to the position `pos` of the window. -/
def write? (w : Window α) (pos : Nat) (src : List α) : Option (Window α) :=
  if w.offset + pos + src.length ≤ w.data.length then
    some { w with data := blit w.data (w.offset + pos) src }
  else none

/-- All of the window. -/
def items? (w : Window α) : Option (List α) := w.read? 0 w.len

/-- What lies in front of the window, in it and behind it. -/
structure Holds (w : Window α) (front items back : List α) : Prop where
  data : w.data = front ++ (items ++ back)
  offset : w.offset = front.length
  len : w.len = items.length

variable {w : Window α} {front items back before x after : List α} {p n : Nat}

theorem read?_eq (hdata : w.data = before ++ (x ++ after)) (hp : w.offset + p = before.length)
    (hn : x.length = n) : w.read? p n = some x := by
  subst hn
  rw [read?, hp, hdata, if_pos]
  · rw [slice, List.drop_left, List.take_left]
  · simp only [List.length_append]
    omega

theorem write?_eq (hdata : w.data = before ++ (x ++ after)) (hp : w.offset + p = before.length)
    (src : List α) (hsrc : src.length = x.length) :
    w.write? p src = some { w with data := before ++ (src ++ after) } := by
  rw [write?, hp, hdata, if_pos]
  · rw [blit, List.take_left, ← List.drop_drop, List.drop_left, hsrc, List.drop_left,
      List.append_assoc _ src]
  · simp only [List.length_append]
    omega

theorem Holds.read (h : w.Holds front (before ++ (x ++ after)) back) (hp : before.length = p)
    (hn : x.length = n) : w.read? p n = some x := by
  have hdata : w.data = (front ++ before) ++ (x ++ (after ++ back)) := by
    rw [h.data]
    simp only [List.append_assoc]
  exact read?_eq hdata (by rw [h.offset, List.length_append, hp]) hn

theorem Holds.all (h : w.Holds front items back) : w.items? = some items := by
  have hread : w.Holds front ([] ++ (items ++ [])) back := by
    rwa [List.nil_append, List.append_nil]
  exact hread.read rfl h.len.symm

/-- What is around the items of a window. -/
theorem exists_holds (h : w.items? = some items) : ∃ front back, w.Holds front items back := by
  rw [items?, read?, Nat.add_zero] at h
  split at h
  next hend =>
    cases h
    refine ⟨w.data.take w.offset, w.data.drop (w.offset + w.len), ?_, ?_, ?_⟩
    · rw [slice, ← List.drop_drop, List.take_append_drop, List.take_append_drop]
    · rw [List.length_take]
      omega
    · rw [slice_length hend]
  · cases h

theorem Holds.item (h : w.Holds front items back) (hp : p < items.length) :
    w.item? p = items[p]? := by
  rw [item?, h.data, h.offset, List.getElem?_append_right (by omega), Nat.add_sub_cancel_left,
    List.getElem?_append_left hp]

theorem len_of_items (h : w.items? = some items) : w.len = items.length := by
  obtain ⟨front, back, hholds⟩ := exists_holds h
  exact hholds.len

theorem item_of_items {a : α} (h : w.items? = some (a :: items)) : w.item? 0 = some a := by
  obtain ⟨front, back, hholds⟩ := exists_holds h
  exact hholds.item (Nat.zero_lt_succ _)

theorem Holds.write (h : w.Holds front (before ++ (x ++ after)) back) (src : List α)
    (hp : before.length = p) (hsrc : src.length = x.length) :
    ∃ w', w.write? p src = some w' ∧ w'.Holds front (before ++ (src ++ after)) back := by
  have hdata : w.data = (front ++ before) ++ (x ++ (after ++ back)) := by
    rw [h.data]
    simp only [List.append_assoc]
  refine ⟨_, write?_eq hdata (by rw [h.offset, List.length_append, hp]) src hsrc, ?_, h.offset, ?_⟩
  · simp only [List.append_assoc]
  · rw [h.len]
    simp only [List.length_append]
    omega

/-- The window is moved behind its first items. -/
theorem Holds.advance (h : w.Holds front (x ++ items) back) :
    Holds ⟨w.data, w.offset + x.length, w.len - x.length⟩ (front ++ x) items back := by
  refine ⟨?_, ?_, ?_⟩
  · simp only [h.data, List.append_assoc]
  · rw [h.offset, List.length_append]
  · rw [h.len, List.length_append, Nat.add_sub_cancel_left]

end Window

end BluetoothStack.Lib
