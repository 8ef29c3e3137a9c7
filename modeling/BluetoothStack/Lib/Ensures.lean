import Mathlib.Tactic

/-!
# BluetoothStack.Lib.Ensures

Postconditions for computations in `Except`.

`Ensures E m Q` says that `m` either returns a value satisfying `Q`, or fails with
an error that `E` allows. Taking `E` to exclude one kind of error proves that the
kind cannot occur; the other kinds then never have to be split on, because each
rule below passes them through. A function's specification is one `Ensures` lemma,
and a caller composes the specifications of its callees with `Ensures.bind`.
-/

namespace BluetoothStack.Lib

universe u

variable {ε : Type*} {α β : Type u} {E : ε → Prop} {m : Except ε α} {Q R : α → Prop}

/-- `m` returns a value satisfying `Q`, or fails with an error in `E`. -/
def Ensures (E : ε → Prop) (m : Except ε α) (Q : α → Prop) : Prop :=
  match m with
  | .ok a => Q a
  | .error e => E e

theorem Ensures.of_ok {a : α} (h : Ensures E m Q) (hm : m = .ok a) : Q a := by
  subst hm
  exact h

theorem Ensures.mono (h : Ensures E m Q) (hQ : ∀ a, Q a → R a) : Ensures E m R := by
  cases m with
  | ok a => exact hQ a h
  | error e => exact h

theorem Ensures.forget (h : Ensures E m Q) : Ensures (fun _ => True) m Q := by
  cases m with
  | ok a => exact h
  | error e => trivial

variable {f : α → Except ε β}

/-- Sequencing: the postcondition of the first half is the precondition of the second. -/
theorem Ensures.bind {S : β → Prop} (h : Ensures E m Q) (hf : ∀ a, Q a → Ensures E (f a) S) :
    Ensures E (m >>= f) S := by
  cases m with
  | ok a => exact hf a h
  | error e => exact h

@[simp] theorem ok_bind {a : α} : (Except.ok a >>= f) = f a := rfl

@[simp] theorem error_bind {e : ε} : ((Except.error e : Except ε α) >>= f) = .error e := rfl

theorem bind_eq_ok {b : β} (h : (m >>= f) = .ok b) : ∃ a, m = .ok a ∧ f a = .ok b := by
  cases m with
  | ok a => exact ⟨a, rfl, h⟩
  | error e => cases h

end BluetoothStack.Lib
