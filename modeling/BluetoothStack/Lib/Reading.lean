import Mathlib.Tactic

/-!
# BluetoothStack.Lib.Reading

Readers of a sequence, which take items from its front and may stop with an error.

A reader is compared with a writer: `Exact p w V` says that `p` reads precisely what `w` writes, for
the values that `V` allows in front of what follows. A repetition of an exact reader is exact
(`Exact.times`), and it stops with an error exactly where one of its rounds does
(`Exact.times_error_iff`).
-/

namespace BluetoothStack.Lib

variable {τ ε α β : Type}

abbrev Reading (τ ε α : Type) := StateT (List τ) (Except ε) α

namespace Reading

/-- The next item; `e` if there is none. -/
def next (e : ε) : Reading τ ε τ
  | [] => .error e
  | x :: xs => .ok (x, xs)

/-- Go on if at least `n` items are left. -/
def atLeast (e : ε) (n : Nat) : Reading τ ε Unit := fun xs =>
  if xs.length < n then .error e else .ok ((), xs)

/-- The next `n` items; `e` if there are fewer. -/
def copy (e : ε) (n : Nat) : Reading τ ε (List τ) := fun xs =>
  if xs.length < n then .error e else .ok (xs.take n, xs.drop n)

/-- `n` rounds of a reader. -/
def times (p : Reading τ ε α) : Nat → Reading τ ε (List α)
  | 0 => pure []
  | n + 1 => do
    let a ← p
    let as ← times p n
    pure (a :: as)

/-! ### Results -/

variable {p : Reading τ ε α} {f : α → Reading τ ε β} {xs : List τ} {e : ε}

theorem bind_ok_iff {r : β × List τ} :
    (p >>= f) xs = .ok r ↔ ∃ a ys, p xs = .ok (a, ys) ∧ f a ys = .ok r := by
  change (p xs).bind (fun s => f s.1 s.2) = _ ↔ _
  cases p xs with
  | error e => refine ⟨fun h => ?_, fun ⟨_, _, h, _⟩ => ?_⟩ <;> cases h
  | ok s =>
    refine ⟨fun h => ⟨s.1, s.2, rfl, h⟩, fun ⟨_, _, h, h'⟩ => ?_⟩
    cases h
    exact h'

theorem bind_error_iff :
    (p >>= f) xs = .error e ↔
      p xs = .error e ∨ ∃ a ys, p xs = .ok (a, ys) ∧ f a ys = .error e := by
  change (p xs).bind (fun s => f s.1 s.2) = _ ↔ _
  cases p xs with
  | error e' =>
    constructor
    · rintro ⟨⟩
      exact Or.inl rfl
    · rintro (h | ⟨_, _, h, _⟩) <;> cases h
      rfl
  | ok s =>
    constructor
    · exact fun h => Or.inr ⟨s.1, s.2, rfl, h⟩
    · rintro (h | ⟨_, _, h, h'⟩) <;> cases h
      exact h'

variable {ys : List τ} {n : Nat}

theorem next_ok_iff {x : τ} : next e xs = .ok (x, ys) ↔ xs = x :: ys := by
  cases xs with
  | nil => refine ⟨fun h => ?_, fun h => ?_⟩ <;> cases h
  | cons z zs =>
    constructor
    · rintro ⟨⟩
      rfl
    · rintro ⟨⟩
      rfl

theorem next_error_iff {e' : ε} : next e xs = .error e' ↔ xs = [] ∧ e = e' := by
  cases xs with
  | nil =>
    constructor
    · rintro ⟨⟩
      exact ⟨rfl, rfl⟩
    · rintro ⟨-, rfl⟩
      rfl
  | cons z zs => refine ⟨fun h => ?_, fun ⟨h, _⟩ => ?_⟩ <;> cases h

theorem atLeast_ok_iff {u : Unit} : atLeast e n xs = .ok (u, ys) ↔ n ≤ xs.length ∧ ys = xs := by
  rw [atLeast]
  split
  next hlt =>
    refine ⟨fun h => ?_, fun h => absurd hlt (not_lt.mpr h.1)⟩
    cases h
  next hle => simp [not_lt.mp hle, eq_comm]

theorem atLeast_error_iff {e' : ε} : atLeast e n xs = .error e' ↔ xs.length < n ∧ e = e' := by
  rw [atLeast]
  split
  next hlt => simp [hlt]
  next hle =>
    refine ⟨fun h => ?_, fun h => absurd h.1 hle⟩
    cases h

theorem copy_ok_iff {zs : List τ} :
    copy e n xs = .ok (zs, ys) ↔ xs = zs ++ ys ∧ zs.length = n := by
  rw [copy]
  split
  next hlt =>
    constructor
    · rintro ⟨⟩
    · rintro ⟨rfl, rfl⟩
      rw [List.length_append] at hlt
      exact absurd hlt (Nat.not_lt.mpr (Nat.le_add_right _ _))
  next hle =>
    constructor
    · rintro ⟨⟩
      exact ⟨(List.take_append_drop n xs).symm, List.length_take_of_le (not_lt.mp hle)⟩
    · rintro ⟨rfl, rfl⟩
      rw [List.take_left, List.drop_left]

theorem copy_error_iff {e' : ε} : copy e n xs = .error e' ↔ xs.length < n ∧ e = e' := by
  rw [copy]
  split
  next hlt => simp [hlt]
  next hle =>
    refine ⟨fun h => ?_, fun h => absurd h.1 hle⟩
    cases h

theorem pure_ok_iff {a b : α} : (pure a : Reading τ ε α) xs = .ok (b, ys) ↔ b = a ∧ ys = xs := by
  constructor
  · rintro ⟨⟩
    exact ⟨rfl, rfl⟩
  · rintro ⟨rfl, rfl⟩
    rfl

theorem pure_error_iff {a : α} : (pure a : Reading τ ε α) xs = .error e ↔ False := by
  refine ⟨fun h => ?_, False.elim⟩
  cases h

end Reading

/-! ### Readers and writers -/

/-- `p` reads what `w` writes for a value that `V` allows, whatever follows. -/
def Exact (p : Reading τ ε α) (w : α → List τ) (V : α → List τ → Prop) : Prop :=
  ∀ xs a rest, p xs = .ok (a, rest) ↔ xs = w a ++ rest ∧ V a rest

/-- Every value is allowed in front of the values behind it. -/
def AllInFront (w : α → List τ) (V : α → List τ → Prop) : List α → List τ → Prop
  | [], _ => True
  | a :: as, rest => V a (as.flatMap w ++ rest) ∧ AllInFront w V as rest

theorem allInFront_of_forall {w : α → List τ} {V : α → List τ → Prop} {as : List α} {rest : List τ}
    (h : ∀ a ∈ as, ∀ ys, V a (ys ++ rest)) : AllInFront w V as rest := by
  induction as with
  | nil => trivial
  | cons a as ih =>
    obtain ⟨ha, has⟩ := List.forall_mem_cons.mp h
    exact ⟨ha _, ih has⟩

theorem AllInFront.forall_mem {w : α → List τ} {V : α → List τ → Prop} {as : List α} {rest : List τ}
    (h : AllInFront w V as rest) : ∀ a ∈ as, ∃ ys, V a ys := by
  induction as with
  | nil => exact fun a ha => absurd ha List.not_mem_nil
  | cons a as ih => exact List.forall_mem_cons.mpr ⟨⟨_, h.1⟩, ih h.2⟩

namespace Exact

variable {p : Reading τ ε α} {w : α → List τ} {V : α → List τ → Prop}

theorem times (hp : Exact p w V) (n : Nat) :
    Exact (Reading.times p n) (List.flatMap w) fun as rest => as.length = n ∧
      AllInFront w V as rest := by
  induction n with
  | zero =>
    intro xs as rest
    constructor
    · rintro ⟨⟩
      exact ⟨rfl, rfl, trivial⟩
    · rintro ⟨rfl, hlength, -⟩
      cases List.length_eq_zero_iff.mp hlength
      rfl
  | succ n ih =>
    intro xs as rest
    rw [Reading.times, Reading.bind_ok_iff]
    constructor
    · rintro ⟨a, ys, hfirst, hrest⟩
      obtain ⟨as', ys', hrest, hpure⟩ := Reading.bind_ok_iff.mp hrest
      cases hpure
      obtain ⟨rfl, hV⟩ := (hp _ _ _).mp hfirst
      obtain ⟨rfl, rfl, hall⟩ := (ih _ _ _).mp hrest
      exact ⟨by rw [List.flatMap_cons, List.append_assoc], rfl, hV, hall⟩
    · rintro ⟨rfl, hlength, hall⟩
      cases as with
      | nil => cases hlength
      | cons a as =>
        refine ⟨a, as.flatMap w ++ rest, (hp _ _ _).mpr ⟨?_, hall.1⟩, ?_⟩
        · rw [List.flatMap_cons, List.append_assoc]
        · exact Reading.bind_ok_iff.mpr
            ⟨as, rest, (ih _ _ _).mpr ⟨rfl, Nat.succ.inj hlength, hall.2⟩, rfl⟩

/-- A repetition stops where a round does, behind the rounds that were read. -/
theorem times_error_iff (hp : Exact p w V) {n : Nat} {xs : List τ} {e : ε} :
    Reading.times p n xs = .error e ↔
      ∃ as rest, xs = as.flatMap w ++ rest ∧ as.length < n ∧ AllInFront w V as rest ∧
        p rest = .error e := by
  induction n generalizing xs with
  | zero =>
    refine ⟨fun h => ?_, fun ⟨_, _, _, hlength, _⟩ => absurd hlength (Nat.not_lt_zero _)⟩
    cases h
  | succ n ih =>
    rw [Reading.times, Reading.bind_error_iff]
    constructor
    · rintro (hstop | ⟨a, ys, hfirst, hrest⟩)
      · exact ⟨[], xs, rfl, Nat.succ_pos n, trivial, hstop⟩
      · obtain ⟨rfl, hV⟩ := (hp _ _ _).mp hfirst
        rcases Reading.bind_error_iff.mp hrest with hstop | ⟨_, _, _, hpure⟩
        · obtain ⟨as, rest, rfl, hlength, hall, hstop⟩ := ih.mp hstop
          refine ⟨a :: as, rest, ?_, Nat.succ_lt_succ hlength, ⟨hV, hall⟩, hstop⟩
          rw [List.flatMap_cons, List.append_assoc]
        · cases hpure
    · rintro ⟨as, rest, rfl, hlength, hall, hstop⟩
      cases as with
      | nil => exact Or.inl hstop
      | cons a as =>
        refine Or.inr ⟨a, as.flatMap w ++ rest, (hp _ _ _).mpr ⟨?_, hall.1⟩, ?_⟩
        · rw [List.flatMap_cons, List.append_assoc]
        · exact Reading.bind_error_iff.mpr
            (Or.inl (ih.mpr ⟨as, rest, rfl, Nat.lt_of_succ_lt_succ hlength, hall.2, hstop⟩))

end Exact

end BluetoothStack.Lib
