import Mathlib

/-!
# BluetoothStack.Lib.SortedMap

Maps that are gone through in the order of their keys.

A map is the list of its entries, in order. It is determined by what it finds (`ext_find`), so the
operations are known by what is found afterwards.
-/

namespace BluetoothStack.Lib

universe u v

variable {κ : Type u} {α : Type v}

structure SortedMap (κ : Type u) (α : Type v) [LT κ] where
  entries : List (κ × α)
  sorted : entries.Pairwise fun a b => a.1 < b.1

/-- Insert an entry in order, in the place of one with the same key. -/
def insertSorted [LT κ] [DecidableLT κ] [DecidableEq κ] (k : κ) (a : α) :
    List (κ × α) → List (κ × α)
  | [] => [(k, a)]
  | e :: l =>
    if k < e.1 then (k, a) :: e :: l
    else if k = e.1 then (k, a) :: l
    else e :: insertSorted k a l

namespace SortedMap

variable [LinearOrder κ]

instance [DecidableEq α] : DecidableEq (SortedMap κ α) := fun m m' =>
  decidable_of_iff (m.entries = m'.entries) ⟨fun h => by cases m; cases m'; cases h; rfl,
    congrArg _⟩

def empty : SortedMap κ α := ⟨[], List.Pairwise.nil⟩

def find? (m : SortedMap κ α) (k : κ) : Option α := (m.entries.find? fun e => e.1 = k).map Prod.snd

theorem mem_insertSorted {k : κ} {a : α} {l : List (κ × α)} {e : κ × α}
    (h : e ∈ insertSorted k a l) : e = (k, a) ∨ e ∈ l := by
  induction l with
  | nil => exact .inl (List.mem_singleton.mp h)
  | cons e' l ih =>
    rw [insertSorted] at h
    split at h
    · exact List.mem_cons.mp h
    split at h
    · exact (List.mem_cons.mp h).imp_right (List.mem_cons_of_mem e')
    · rcases List.mem_cons.mp h with rfl | h
      · exact .inr List.mem_cons_self
      · exact (ih h).imp_right (List.mem_cons_of_mem e')

theorem sorted_insertSorted (k : κ) (a : α) {l : List (κ × α)}
    (hl : l.Pairwise fun a b => a.1 < b.1) :
    (insertSorted k a l).Pairwise fun a b => a.1 < b.1 := by
  induction l with
  | nil => exact List.pairwise_singleton _ _
  | cons e l ih =>
    obtain ⟨hfirst, hrest⟩ := List.pairwise_cons.mp hl
    rw [insertSorted]
    split
    next hlt =>
      refine List.pairwise_cons.mpr ⟨fun e' he' => ?_, hl⟩
      rcases List.mem_cons.mp he' with rfl | he'
      · exact hlt
      · exact hlt.trans (hfirst e' he')
    split
    next hkey =>
      subst hkey
      exact List.pairwise_cons.mpr ⟨hfirst, hrest⟩
    next hlt hkey =>
      refine List.pairwise_cons.mpr ⟨fun e' he' => ?_, ih hrest⟩
      rcases mem_insertSorted he' with rfl | he'
      · exact lt_of_le_of_ne (not_lt.mp hlt) (Ne.symm hkey)
      · exact hfirst e' he'

def insert (m : SortedMap κ α) (k : κ) (a : α) : SortedMap κ α :=
  ⟨insertSorted k a m.entries, sorted_insertSorted k a m.sorted⟩

/-- Insert an entry unless there is one with the key. -/
def insertNew (m : SortedMap κ α) (k : κ) (a : α) : SortedMap κ α :=
  if (m.find? k).isSome then m else m.insert k a

/-- Insert the entries of another map. -/
def extend (m m' : SortedMap κ α) : SortedMap κ α :=
  m'.entries.foldl (fun m e => m.insert e.1 e.2) m

variable {m m' : SortedMap κ α} {k : κ} {a : α}

/-! ### What is found -/

theorem eq_of_key {e e' : κ × α} (he : e ∈ m.entries) (he' : e' ∈ m.entries) (h : e.1 = e'.1) :
    e = e' := by
  have hnodup : (m.entries.map Prod.fst).Nodup :=
    List.pairwise_map.mpr (m.sorted.imp fun hlt => ne_of_lt hlt)
  exact List.inj_on_of_nodup_map hnodup he he' h

theorem find?_eq_some : m.find? k = some a ↔ (k, a) ∈ m.entries := by
  rw [find?, Option.map_eq_some_iff]
  constructor
  · rintro ⟨e, he, rfl⟩
    have hkey : e.1 = k := by simpa using List.find?_some he
    rw [← hkey]
    exact List.mem_of_find?_eq_some he
  · intro hmem
    cases hf : m.entries.find? fun e => e.1 = k with
    | none =>
      rw [List.find?_eq_none] at hf
      exact absurd (decide_eq_true rfl) (hf (k, a) hmem)
    | some e =>
      have hkey : e.1 = k := by simpa using List.find?_some hf
      rw [eq_of_key (List.mem_of_find?_eq_some hf) hmem hkey]
      exact ⟨_, rfl, rfl⟩

theorem ext_find (h : ∀ k, m.find? k = m'.find? k) : m = m' := by
  have hmem : ∀ e, e ∈ m.entries ↔ e ∈ m'.entries := by
    intro e
    rw [← find?_eq_some (m := m), ← find?_eq_some (m := m'), h]
  have hirrefl : Std.Irrefl fun a b : κ × α => a.1 < b.1 := ⟨fun a => lt_irrefl a.1⟩
  have hantisymm : Std.Antisymm fun a b : κ × α => a.1 < b.1 :=
    ⟨fun _ _ hab hba => absurd hba (lt_asymm hab)⟩
  have hentries := m.sorted.eq_of_mem_iff m'.sorted hmem
  cases m
  cases m'
  cases hentries
  rfl

@[simp] theorem find?_empty (k : κ) : (empty : SortedMap κ α).find? k = none := rfl

theorem find?_insert (m : SortedMap κ α) (k : κ) (a : α) (j : κ) :
    (m.insert k a).find? j = if j = k then some a else m.find? j := by
  rw [find?, find?, insert]
  dsimp only
  induction m.entries with
  | nil =>
    by_cases hj : j = k
    · simp [insertSorted, hj]
    · simp [insertSorted, hj, Ne.symm hj]
  | cons e l ih =>
    rw [insertSorted]
    by_cases hj : j = k
    · subst hj
      rw [if_pos rfl] at ih ⊢
      split
      · simp
      split
      · simp
      next hkey =>
        rw [List.find?_cons_of_neg (by simpa using Ne.symm hkey)]
        exact ih
    · rw [if_neg hj] at ih ⊢
      split
      · rw [List.find?_cons_of_neg (by simpa using Ne.symm hj)]
      split
      next hkey =>
        rw [List.find?_cons_of_neg (by simpa using Ne.symm hj),
          List.find?_cons_of_neg (by simpa [← hkey] using Ne.symm hj)]
      · rw [List.find?_cons, List.find?_cons]
        split
        · rfl
        · exact ih

theorem find?_insertNew (m : SortedMap κ α) (k : κ) (a : α) (j : κ) :
    (m.insertNew k a).find? j = (m.find? j).or (if j = k then some a else none) := by
  rw [insertNew]
  split
  next hsome =>
    by_cases hj : j = k
    · rw [hj]
      obtain ⟨b, hb⟩ := Option.isSome_iff_exists.mp hsome
      rw [hb, Option.some_or]
    · rw [if_neg hj, Option.or_none]
  next hnone =>
    rw [find?_insert]
    by_cases hj : j = k
    · rw [if_pos hj, if_pos hj, hj, Option.not_isSome_iff_eq_none.mp hnone, Option.none_or]
    · rw [if_neg hj, if_neg hj, Option.or_none]

theorem find?_foldl_insert {l : List (κ × α)} (hl : l.Pairwise fun a b => a.1 < b.1)
    (m : SortedMap κ α) (j : κ) :
    (l.foldl (fun m e => m.insert e.1 e.2) m).find? j =
      ((l.find? fun e => e.1 = j).map Prod.snd).or (m.find? j) := by
  induction l generalizing m with
  | nil => rfl
  | cons e l ih =>
    obtain ⟨hfirst, hrest⟩ := List.pairwise_cons.mp hl
    rw [List.foldl_cons, ih hrest, find?_insert]
    by_cases hj : e.1 = j
    · have hnone : (l.find? fun e => e.1 = j) = none := by
        rw [List.find?_eq_none]
        intro e' he'
        simpa [← hj] using ne_of_gt (hfirst e' he')
      rw [List.find?_cons_of_pos (by simpa using hj), hnone, if_pos hj.symm]
      rfl
    · rw [List.find?_cons_of_neg (by simpa using hj), if_neg (Ne.symm hj)]

theorem find?_extend (m m' : SortedMap κ α) (k : κ) :
    (m.extend m').find? k = (m'.find? k).or (m.find? k) :=
  find?_foldl_insert m'.sorted m k

end SortedMap

end BluetoothStack.Lib
