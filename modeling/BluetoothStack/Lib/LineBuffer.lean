import Mathlib.Tactic

/-!
# BluetoothStack.Lib.LineBuffer

Lines collected in a buffer that may be too short for them.

A stream is cut into lines by its terminators; `lastRun` is the part of a line that has
arrived. A buffer collects it, leaving out blanks in front (`fill`), and is emptied
whenever `n` elements are in it and another one comes. What is in it at the end of the
line is `lastPiece`: the whole line if that has fewer than `n` elements, and otherwise
only the last of the pieces it was cut into.
-/

namespace BluetoothStack.Lib

variable {α : Type*}

/-! ### The line under way -/

/-- The elements behind the last terminator. -/
def lastRun (isEnd : α → Bool) (l : List α) : List α :=
  (l.reverse.takeWhile fun x => !isEnd x).reverse

theorem lastRun_concat_end {isEnd : α → Bool} {x : α} (h : isEnd x = true) (l : List α) :
    lastRun isEnd (l ++ [x]) = [] := by
  simp [lastRun, h]

theorem lastRun_concat {isEnd : α → Bool} {x : α} (h : isEnd x = false) (l : List α) :
    lastRun isEnd (l ++ [x]) = lastRun isEnd l ++ [x] := by
  simp [lastRun, h]

/-! ### The buffer -/

variable (isBlank : α → Bool) (n : Nat)

/-- A full buffer is emptied before it is used again. -/
def emptied (acc : List α) : List α := if n ≤ acc.length then [] else acc

/-- One more element of a line. -/
def fill (acc : List α) (x : α) : List α :=
  if (emptied n acc).isEmpty && isBlank x then [] else emptied n acc ++ [x]

/-- What is left of a line without blanks in front, after pieces of `n` elements each. -/
def lastPiece (l : List α) : List α :=
  if n = 0 ∨ l.length < n then l else lastPiece ((l.drop n).dropWhile isBlank)
termination_by l.length
decreasing_by
  have hle := (List.dropWhile_sublist isBlank (l := l.drop n)).length_le
  rw [List.length_drop] at hle
  omega

variable {isBlank n}

theorem fill_full {acc : List α} (h : n ≤ acc.length) (x : α) :
    fill isBlank n acc x = fill isBlank n [] x := by
  have hacc : emptied n acc = emptied n [] := by
    rw [emptied, if_pos h, emptied]
    split <;> rfl
  rw [fill, fill, hacc]

theorem fill_nil (hn : 0 < n) (x : α) :
    fill isBlank n [] x = if isBlank x then [] else [x] := by
  have he : emptied n ([] : List α) = [] := if_neg (Nat.not_le.mpr hn)
  rw [fill, he, List.isEmpty_nil, Bool.true_and]
  rfl

/-- Blanks in front of a line are left out. -/
theorem foldl_fill_dropWhile (hn : 0 < n) (l : List α) :
    l.foldl (fill isBlank n) [] = (l.dropWhile isBlank).foldl (fill isBlank n) [] := by
  induction l with
  | nil => rfl
  | cons x l ih =>
    by_cases hx : isBlank x = true
    · rw [List.foldl_cons, fill_nil hn, if_pos hx, ih, List.dropWhile_cons_of_pos hx]
    · rw [List.dropWhile_cons_of_neg hx]

/-- Up to `n` elements the buffer takes everything, once it is not empty. -/
theorem foldl_fill_of_le {acc l : List α} (hne : acc ≠ []) (h : acc.length + l.length ≤ n) :
    l.foldl (fill isBlank n) acc = acc ++ l := by
  induction l generalizing acc with
  | nil => rw [List.append_nil]; rfl
  | cons x l ih =>
    rw [List.length_cons] at h
    have hacc : emptied n acc = acc := if_neg (by omega)
    have hfill : fill isBlank n acc x = acc ++ [x] := by
      rw [fill, hacc, List.isEmpty_eq_false_iff.mpr hne]
      rfl
    rw [List.foldl_cons, hfill, ih (by simp) (by simp; omega), List.append_assoc]
    rfl

/-- A line without a blank in front, not longer than the buffer. -/
theorem foldl_fill_short (hn : 0 < n) {l : List α} (hl : ∀ x ∈ l.head?, isBlank x = false)
    (h : l.length ≤ n) : l.foldl (fill isBlank n) [] = l := by
  cases l with
  | nil => rfl
  | cons x l =>
    have hx : ¬ isBlank x = true := by
      rw [hl x rfl]
      decide
    rw [List.length_cons] at h
    rw [List.foldl_cons, fill_nil hn, if_neg hx, foldl_fill_of_le (by simp) (by simp; omega)]
    rfl

theorem head?_dropWhile (isBlank : α → Bool) (l : List α) :
    ∀ x ∈ (l.dropWhile isBlank).head?, isBlank x = false := by
  intro x hx
  have h := List.head?_dropWhile_not isBlank l
  rw [Option.mem_def.mp hx] at h
  exact h

/-- What the buffer holds at the end of a line. -/
theorem emptied_foldl_fill (hn : 0 < n) (l : List α) :
    emptied n (l.foldl (fill isBlank n) []) = lastPiece isBlank n (l.dropWhile isBlank) := by
  induction hlen : l.length using Nat.strong_induction_on generalizing l with
  | _ k ih =>
    rw [foldl_fill_dropWhile hn, lastPiece]
    have hhead := head?_dropWhile isBlank l
    have hle := (List.dropWhile_sublist isBlank (l := l)).length_le
    generalize l.dropWhile isBlank = s at hhead hle
    by_cases hshort : s.length < n
    · rw [if_pos (Or.inr hshort), foldl_fill_short hn hhead hshort.le, emptied, if_neg (by omega)]
    · -- the first `n` elements fill the buffer, and the next one finds it full
      rw [if_neg (by omega)]
      have hfirst : (s.take n).foldl (fill isBlank n) [] = s.take n := by
        refine foldl_fill_short hn ?_ (List.length_take_le n s)
        rw [List.head?_take, if_neg (by omega)]
        exact hhead
      have hlenTake : n ≤ (s.take n).length := by
        rw [List.length_take]
        omega
      rw [← ih (s.drop n).length (by rw [List.length_drop]; omega) (s.drop n) rfl]
      conv_lhs => rw [← List.take_append_drop n s, List.foldl_append, hfirst]
      cases s.drop n with
      | nil => rw [List.foldl_nil, List.foldl_nil, emptied, if_pos hlenTake, emptied, ite_self]
      | cons x rest => rw [List.foldl_cons, List.foldl_cons, fill_full hlenTake]

end BluetoothStack.Lib
