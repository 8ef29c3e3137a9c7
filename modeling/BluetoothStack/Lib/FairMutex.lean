import Mathlib.Data.List.Basic

/-!
# BluetoothStack.Lib.FairMutex

A mutex that is fair: a lock that is released goes to the first task in line, and nobody else gets
it before that task has run.

A task is known by a number. It gets in line when it asks for the lock in vain.
-/

namespace BluetoothStack.Lib

universe u

/-- Who has the lock: the holder of a guard, or a task to which it was handed and that has not run.
-/
inductive Owner
  | guard
  | task (id : Nat)
  deriving DecidableEq, Repr

structure FairMutex (α : Type u) where
  value : α
  owner : Option Owner
  waiters : List Nat
  /-- Nobody waits for a lock that is free. -/
  free : owner = none → waiters = []
  deriving DecidableEq

namespace FairMutex

variable {α : Type u}

def new (value : α) : FairMutex α := ⟨value, none, [], fun _ => rfl⟩

/-- The lock with its guard taken. -/
def taken (m : FairMutex α) : FairMutex α :=
  ⟨m.value, some .guard, m.waiters, fun h => absurd h (Option.some_ne_none _)⟩

/-- The guard is taken if nobody has the lock. -/
def tryLock (m : FairMutex α) : Option (FairMutex α) :=
  if m.owner = none then some m.taken else none

/-- The guard goes away. -/
def release (m : FairMutex α) : FairMutex α :=
  match m.waiters with
  | [] => ⟨m.value, none, [], fun _ => rfl⟩
  | id :: waiters => ⟨m.value, some (.task id), waiters, fun h => absurd h (Option.some_ne_none _)⟩

def set (m : FairMutex α) (value : α) : FairMutex α := ⟨value, m.owner, m.waiters, m.free⟩

/-- A task asks for the lock, and gets in line if it does not get it. -/
def poll (m : FairMutex α) (id : Nat) : Bool × FairMutex α :=
  if hgets : m.owner = none ∨ m.owner = some (.task id) then
    (true, m.taken)
  else if id ∈ m.waiters then (false, m)
  else (false, ⟨m.value, m.owner, m.waiters ++ [id], fun h => absurd (.inl h) hgets⟩)

/-- A task goes away. -/
def cancel (m : FairMutex α) (id : Nat) : FairMutex α :=
  if m.owner = some (.task id) then m.release
  else ⟨m.value, m.owner, m.waiters.erase id, fun h => by rw [m.free h]; rfl⟩

/-- The lock is handed to a task that has not run, or a task waits for it. -/
def InLine (m : FairMutex α) : Prop := (∃ id, m.owner = some (.task id)) ∨ m.waiters ≠ []

variable {m : FairMutex α}

@[simp] theorem value_release : m.release.value = m.value := by
  unfold release
  split <;> rfl

@[simp] theorem value_poll (id : Nat) : (m.poll id).2.value = m.value := by
  unfold poll
  split
  · rfl
  split <;> rfl

@[simp] theorem value_cancel (id : Nat) : (m.cancel id).value = m.value := by
  unfold cancel
  split
  · exact value_release
  · rfl

theorem owner_release : m.release.owner = none ↔ m.waiters = [] := by
  unfold release
  split <;> simp_all

theorem owner_release_ne_guard : m.release.owner ≠ some .guard := by
  unfold release
  split <;> simp

/-- A task that does not get the lock changes nobody's. -/
theorem owner_poll {id : Nat} (h : (m.poll id).1 = false) :
    (m.poll id).2.owner = m.owner ∧ m.owner ≠ none := by
  unfold poll at h ⊢
  split
  next hgets =>
    rw [dif_pos hgets] at h
    cases h
  next hgets =>
    rw [not_or] at hgets
    split
    · exact ⟨rfl, hgets.1⟩
    · exact ⟨rfl, hgets.1⟩

theorem waiters_poll {id : Nat} (h : (m.poll id).1 = true) :
    (m.poll id).2.waiters = m.waiters ∧ (m.owner = none ∨ m.owner = some (.task id)) := by
  unfold poll at h ⊢
  split
  next hgets => exact ⟨rfl, hgets⟩
  next hgets =>
    rw [dif_neg hgets] at h
    split at h <;> cases h

end FairMutex

end BluetoothStack.Lib
