import Mathlib.Tactic

/-!
# BluetoothStack.Lib.Fifo

Ghost numbers for the contents of queues.

A protocol with bounded sequence numbers is proved correct by giving each message in
flight the unbounded number it stands for. Two ways of doing so are collected here.

* `Indexed P i l`: the elements of `l` stand for `i`, `i + 1`, …, in order. This is a queue
  that never loses anything.
* `Labelled P lo hi l`: the elements of `l` can be given numbers that never decrease and lie
  between `lo` and `hi`. This is a lossy FIFO link whose sender labels what it sends with a
  counter, `hi`, and whose receiver has seen nothing beyond `lo`. Losing messages keeps it,
  and the sender's counter may grow at any time.
-/

namespace BluetoothStack.Lib

variable {α : Type*} {P Q : ℕ → α → Prop} {l l' : List α} {i lo hi : ℕ}

/-- The elements of `l` stand for the numbers from `i` on. -/
def Indexed (P : ℕ → α → Prop) : ℕ → List α → Prop
  | _, [] => True
  | i, a :: l => P i a ∧ Indexed P (i + 1) l

theorem Indexed.mono (h : Indexed P i l) (hPQ : ∀ j a, P j a → Q j a) : Indexed Q i l := by
  induction l generalizing i with
  | nil => trivial
  | cons a l ih => exact ⟨hPQ _ _ h.1, ih h.2⟩

theorem indexed_append : Indexed P i (l ++ l') ↔ Indexed P i l ∧ Indexed P (i + l.length) l' := by
  induction l generalizing i with
  | nil => exact ⟨fun h => ⟨trivial, h⟩, fun h => h.2⟩
  | cons a l ih =>
    rw [List.cons_append, Indexed, Indexed, ih, and_assoc, List.length_cons, Nat.add_assoc,
      Nat.add_comm 1]

theorem Indexed.concat {a : α} (h : Indexed P i l) (ha : P (i + l.length) a) :
    Indexed P i (l ++ [a]) :=
  indexed_append.mpr ⟨h, ha, trivial⟩

theorem Indexed.drop (h : Indexed P i l) {m : ℕ} (hm : m ≤ l.length) :
    Indexed P (i + m) (l.drop m) := by
  rw [← List.take_append_drop m l, indexed_append, List.length_take, min_eq_left hm] at h
  exact h.2

theorem Indexed.of_mem {a : α} (h : Indexed P i l) (ha : a ∈ l) :
    ∃ j, i ≤ j ∧ j < i + l.length ∧ P j a := by
  induction l generalizing i with
  | nil => cases ha
  | cons b l ih =>
    rw [List.length_cons]
    rcases List.mem_cons.mp ha with rfl | ha
    · exact ⟨i, le_rfl, by omega, h.1⟩
    · obtain ⟨j, hij, hj, hP⟩ := ih h.2 ha
      exact ⟨j, by omega, by omega, hP⟩

theorem Indexed.getLast {a : α} (h : Indexed P i l) (ha : l.getLast? = some a) :
    P (i + l.length - 1) a := by
  obtain ⟨init, rfl⟩ := List.getLast?_eq_some_iff.mp ha
  rw [List.length_append, List.length_singleton, ← Nat.add_assoc, Nat.add_sub_cancel]
  exact (indexed_append.mp h).2.1

/-- The elements of `l` can be given nondecreasing labels between `lo` and `hi`. -/
def Labelled (P : ℕ → α → Prop) : ℕ → ℕ → List α → Prop
  | lo, hi, [] => lo ≤ hi
  | lo, hi, a :: l => ∃ t, lo ≤ t ∧ P t a ∧ Labelled P t hi l

section

variable (h : Labelled P lo hi l)
include h

theorem Labelled.le : lo ≤ hi := by
  induction l generalizing lo with
  | nil => exact h
  | cons a l ih =>
    obtain ⟨t, hlo, -, hrest⟩ := h
    exact hlo.trans (ih hrest)

theorem Labelled.mono (hPQ : ∀ t a, P t a → Q t a) : Labelled Q lo hi l := by
  induction l generalizing lo with
  | nil => exact h
  | cons a l ih =>
    obtain ⟨t, hlo, hP, hrest⟩ := h
    exact ⟨t, hlo, hPQ _ _ hP, ih hrest⟩

theorem Labelled.mono_lo {lo' : ℕ} (hlo : lo' ≤ lo) : Labelled P lo' hi l := by
  cases l with
  | nil => exact hlo.trans h
  | cons a l =>
    obtain ⟨t, ht, hP, hrest⟩ := h
    exact ⟨t, hlo.trans ht, hP, hrest⟩

theorem Labelled.mono_hi {hi' : ℕ} (hhi : hi ≤ hi') : Labelled P lo hi' l := by
  induction l generalizing lo with
  | nil => exact le_trans h hhi
  | cons a l ih =>
    obtain ⟨t, ht, hP, hrest⟩ := h
    exact ⟨t, ht, hP, ih hrest⟩

/-- The sender sends a message, labelled with its counter. -/
theorem Labelled.concat {a : α} (ha : P hi a) : Labelled P lo hi (l ++ [a]) := by
  induction l generalizing lo with
  | nil => exact ⟨hi, h, ha, le_rfl⟩
  | cons b l ih =>
    obtain ⟨t, ht, hP, hrest⟩ := h
    exact ⟨t, ht, hP, ih hrest⟩

/-- The link loses messages. -/
theorem Labelled.sublist (hsub : l'.Sublist l) : Labelled P lo hi l' := by
  induction hsub generalizing lo with
  | slnil => exact h
  | cons a _ ih =>
    obtain ⟨t, ht, -, hrest⟩ := h
    exact (ih hrest).mono_lo ht
  | cons_cons a _ ih =>
    obtain ⟨t, ht, hP, hrest⟩ := h
    exact ⟨t, ht, hP, ih hrest⟩

end

end BluetoothStack.Lib
