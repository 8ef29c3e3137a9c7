import Mathlib.Logic.Relation

/-!
# BluetoothStack.Lib.Runs

Runs of a step function under a condition on every step: one that may end (`allSteps`), and one
that always goes on (`allAlong`). `Along` is about the states of a run: a property holds in all of
them exactly if no step is of the kind that breaks it (`along_iff`).
-/

namespace BluetoothStack.Lib

universe u v

variable {σ : Type u} {ε : Type v} (step : σ → ε → Option σ) (p : σ → ε → Bool)

/-- Every step of the run meets the condition in the state in which it is taken. -/
def allSteps (s : σ) : List ε → Bool
  | [] => true
  | e :: es =>
    p s e && match step s e with
      | some s' => allSteps s' es
      | none => true

variable {step p}

variable {es : List ε} {I : σ → Prop} {s : σ}

/-- A condition on the inputs alone. -/
theorem allSteps_of_forall {p : ε → Bool} (h : ∀ e ∈ es, p e) (s : σ) :
    allSteps step (fun _ => p) s es := by
  induction es generalizing s with
  | nil => rfl
  | cons e es ih =>
    rw [allSteps, Bool.and_eq_true]
    refine ⟨h e List.mem_cons_self, ?_⟩
    cases step s e with
    | none => rfl
    | some s' => exact ih (fun e' he' => h e' (List.mem_cons_of_mem e he')) s'

/-- What every step under the condition keeps holds at the end of such a run. -/
theorem run_invariant (hstep : ∀ s e s', I s → p s e → step s e = some s' → I s') {s' : σ}
    (hs : I s) (hall : allSteps step p s es) (hrun : es.foldlM step s = some s') : I s' := by
  induction es generalizing s with
  | nil =>
    cases hrun
    exact hs
  | cons e es ih =>
    simp only [List.foldlM_cons, Option.bind_eq_bind, Option.bind_eq_some_iff] at hrun
    obtain ⟨s₁, hs₁, hrest⟩ := hrun
    simp only [allSteps, hs₁, Bool.and_eq_true] at hall
    exact ih (hstep s e s₁ hs hall.1 hs₁) hall.2 hrest

/-- If every step under the condition goes through and keeps the invariant, so does the run. -/
theorem run_exists (hstep : ∀ s e, I s → p s e → ∃ s', step s e = some s' ∧ I s') (hs : I s)
    (hall : allSteps step p s es) : ∃ s', es.foldlM step s = some s' ∧ I s' := by
  induction es generalizing s with
  | nil => exact ⟨s, rfl, hs⟩
  | cons e es ih =>
    rw [allSteps, Bool.and_eq_true] at hall
    obtain ⟨s₁, hs₁, hi₁⟩ := hstep s e hs hall.1
    rw [hs₁] at hall
    obtain ⟨s', hrun, hi⟩ := ih hi₁ hall.2
    refine ⟨s', ?_, hi⟩
    rw [List.foldlM_cons, hs₁]
    exact hrun

/-- The same for what every step keeps. -/
theorem foldlM_invariant (hstep : ∀ s e s', I s → step s e = some s' → I s') {s' : σ} (hs : I s)
    (hrun : es.foldlM step s = some s') : I s' := by
  induction es generalizing s with
  | nil =>
    cases hrun
    exact hs
  | cons e es ih =>
    simp only [List.foldlM_cons, Option.bind_eq_bind, Option.bind_eq_some_iff] at hrun
    obtain ⟨s₁, hs₁, hrest⟩ := hrun
    exact ih (hstep s e s₁ hs hs₁) hrest

/-- If the condition is what a step needs, a run goes through exactly if it holds all along. -/
theorem foldlM_isSome_iff (hkeep : ∀ s e s', I s → step s e = some s' → I s')
    (hneeds : ∀ s e, I s → ((step s e).isSome ↔ p s e)) (es : List ε) (hs : I s) :
    (es.foldlM step s).isSome ↔ allSteps step p s es := by
  induction es generalizing s with
  | nil => simp [allSteps]
  | cons e es ih =>
    have hhead := hneeds s e hs
    cases hstep : step s e with
    | none =>
      simp only [hstep, Option.isSome_none, Bool.false_eq_true, false_iff, Bool.not_eq_true]
        at hhead
      simp [allSteps, hstep, hhead]
    | some s' =>
      simp only [hstep, Option.isSome_some, true_iff] at hhead
      simp [allSteps, hstep, hhead, ih (hkeep s e s' hs hstep)]

/-- A property holds in every state of a run, the first one included. -/
def Along (step : σ → ε → Option σ) (P : σ → Prop) (s : σ) : List ε → Prop
  | [] => P s
  | e :: es => P s ∧ ∀ s', step s e = some s' → Along step P s' es

/-- No step of a run that goes through is of the given kind. -/
def Avoids (step : σ → ε → Option σ) (bad : σ → ε → Prop) (s : σ) : List ε → Prop
  | [] => True
  | e :: es => ∀ s', step s e = some s' → ¬ bad s e ∧ Avoids step bad s' es

/-- A property that follows from an invariant holds along a run without the steps that break the
invariant. -/
theorem Avoids.along {P : σ → Prop} {bad : σ → ε → Prop}
    (hstep : ∀ s e s', I s → step s e = some s' → ¬ bad s e → I s') (hP : ∀ s, I s → P s)
    (hs : I s) (h : Avoids step bad s es) : Along step P s es := by
  induction es generalizing s with
  | nil => exact hP s hs
  | cons e es ih =>
    refine ⟨hP s hs, fun s' hs' => ?_⟩
    obtain ⟨hgood, hrest⟩ := h s' hs'
    exact ih (hstep s e s' hs hs' hgood) hrest

/-- If the bad steps are those that end the property, it holds all along a run exactly if there is
none of them. -/
theorem along_iff {P : σ → Prop} {bad : σ → ε → Prop}
    (hstep : ∀ s e s', I s → P s → step s e = some s' → I s' ∧ (P s' ↔ ¬ bad s e)) (es : List ε)
    (hs : I s) (hP : P s) : Along step P s es ↔ Avoids step bad s es := by
  induction es generalizing s with
  | nil => exact iff_of_true hP trivial
  | cons e es ih =>
    simp only [Along, Avoids, hP, true_and]
    refine forall₂_congr fun s' hs' => ?_
    obtain ⟨hI', hP'⟩ := hstep s e s' hs hP hs'
    constructor
    · intro halong
      have hhead : P s' := by
        cases es with
        | nil => exact halong
        | cons e' es => exact halong.1
      exact ⟨hP'.mp hhead, (ih hI' hhead).mp halong⟩
    · rintro ⟨hgood, havoids⟩
      exact (ih hI' (hP'.mpr hgood)).mpr havoids

/-- `allSteps` for a step that always goes on. -/
def allAlong (step : σ → ε → σ) (p : σ → ε → Bool) (s : σ) : List ε → Bool
  | [] => true
  | e :: es => p s e && allAlong step p (step s e) es

theorem allAlong_append {step : σ → ε → σ} (s : σ) (es es' : List ε) :
    allAlong step p s (es ++ es') =
      (allAlong step p s es && allAlong step p (es.foldl step s) es') := by
  induction es generalizing s with
  | nil => rfl
  | cons e es ih => simp only [List.cons_append, allAlong, ih, List.foldl_cons, Bool.and_assoc]

theorem foldl_invariant {step : σ → ε → σ} (hstep : ∀ s e, I s → p s e → I (step s e)) (hs : I s)
    (hall : allAlong step p s es) : I (es.foldl step s) := by
  induction es generalizing s with
  | nil => exact hs
  | cons e es ih =>
    simp only [allAlong, Bool.and_eq_true] at hall
    exact ih (hstep s e hs hall.1) hall.2

end BluetoothStack.Lib
