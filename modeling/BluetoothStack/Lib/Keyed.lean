import Mathlib

/-!
# BluetoothStack.Lib.Keyed

Tables: lists of records that are told apart by a key.

An update changes the record of one key. The sum of a quantity over the table changes by what it
changes in that record (`sum_update`, `sum_remove`).
-/

namespace BluetoothStack.Lib

variable {α κ : Type*} [DecidableEq κ] (key : α → κ)

/-- The record of a key. -/
def find (k : κ) (l : List α) : Option α := l.find? fun a => decide (key a = k)

/-- Change the record of a key. -/
def update (k : κ) (f : α → α) (l : List α) : List α := l.map fun a => if key a = k then f a else a

/-- Remove the record of a key. -/
def remove (k : κ) (l : List α) : List α := l.filter fun a => decide (key a ≠ k)

variable {key} {k : κ} {f : α → α} {l : List α} {a : α}

theorem mem_of_find (h : find key k l = some a) : a ∈ l ∧ key a = k := by
  refine ⟨List.mem_of_find?_eq_some h, ?_⟩
  simpa using List.find?_some h

theorem find_eq_none : find key k l = none ↔ ∀ a ∈ l, key a ≠ k := by
  simp [find]

omit [DecidableEq κ] in
theorem eq_of_key (hnodup : (l.map key).Nodup) {b : α} (ha : a ∈ l) (hb : b ∈ l)
    (h : key a = key b) : a = b := List.inj_on_of_nodup_map hnodup ha hb h

theorem find_of_mem (hnodup : (l.map key).Nodup) (ha : a ∈ l) : find key (key a) l = some a := by
  cases h : find key (key a) l with
  | none => exact absurd rfl (find_eq_none.mp h a ha)
  | some b =>
    obtain ⟨hb, hkey⟩ := mem_of_find h
    rw [eq_of_key hnodup hb ha hkey]

theorem mem_update : a ∈ update key k f l ↔ ∃ b ∈ l, (if key b = k then f b else b) = a :=
  List.mem_map

theorem mem_update_of_key (hnodup : (l.map key).Nodup) (ha : a ∈ l) (hkey : key a = k) {b : α}
    (hb : b ∈ update key k f l) : b = f a ∨ b ∈ l ∧ key b ≠ k := by
  obtain ⟨c, hc, rfl⟩ := mem_update.mp hb
  by_cases hck : key c = k
  · rw [if_pos hck, eq_of_key hnodup hc ha (hck.trans hkey.symm)]
    exact Or.inl rfl
  · rw [if_neg hck]
    exact Or.inr ⟨hc, hck⟩

theorem map_key_update (hf : ∀ a, key a = k → key (f a) = k) :
    (update key k f l).map key = l.map key := by
  rw [update, List.map_map]
  refine List.map_congr_left fun a _ => ?_
  simp only [Function.comp_apply]
  split
  next ha => rw [hf a ha, ha]
  · rfl

theorem find_update (hf : ∀ a, key a = k → key (f a) = k) (j : κ) :
    find key j (update key k f l) = if j = k then (find key k l).map f else find key j l := by
  induction l with
  | nil => simp [find, update]
  | cons a l ih =>
    simp only [find, update, List.map_cons, List.find?_cons] at ih ⊢
    by_cases ha : key a = k
    · rw [if_pos ha, hf a ha, ih, ha]
      by_cases hj : j = k
      · simp [hj]
      · simp [hj, Ne.symm hj]
    · rw [if_neg ha, ih]
      by_cases hj : j = k
      · simp [hj, ha]
      · simp [hj]

theorem mem_remove : a ∈ remove key k l ↔ a ∈ l ∧ key a ≠ k := by
  simp [remove]

theorem nodup_remove (hnodup : (l.map key).Nodup) : ((remove key k l).map key).Nodup :=
  hnodup.sublist (List.Sublist.map key List.filter_sublist)

theorem find_remove (j : κ) :
    find key j (remove key k l) = if j = k then none else find key j l := by
  split
  next hj =>
    rw [find_eq_none, hj]
    exact fun a ha => (mem_remove.mp ha).2
  next hj =>
    rw [find, find, remove, List.find?_filter]
    congr 1
    funext a
    by_cases ha : key a = j
    · simp [ha, hj]
    · simp [ha]

theorem find_cons (j : κ) : find key j (a :: l) = if key a = j then some a else find key j l := by
  rw [find, List.find?_cons]
  by_cases ha : key a = j
  · simp [ha]
  · simp [ha, find]

theorem remove_update (hf : ∀ a, key (f a) = key a) :
    remove key k (update key k f l) = remove key k l := by
  induction l with
  | nil => rfl
  | cons a l ih =>
    simp only [remove, update, List.map_cons] at ih ⊢
    by_cases ha : key a = k
    · rw [if_pos ha, List.filter_cons_of_neg (by simp [hf, ha]),
        List.filter_cons_of_neg (by simp [ha]), ih]
    · rw [if_neg ha, List.filter_cons_of_pos (by simp [ha]), List.filter_cons_of_pos (by simp [ha]),
        ih]

theorem update_of_ne (h : ∀ b ∈ l, key b ≠ k) : update key k f l = l := by
  rw [update, List.map_congr_left fun b hb => if_neg (h b hb), List.map_id']

theorem remove_of_ne (h : ∀ b ∈ l, key b ≠ k) : remove key k l = l :=
  List.filter_eq_self.mpr fun b hb => by simpa using h b hb

omit [DecidableEq κ] in
theorem exists_around (hnodup : (l.map key).Nodup) (ha : a ∈ l) (hkey : key a = k) :
    ∃ l₁ l₂, l = l₁ ++ a :: l₂ ∧ (∀ b ∈ l₁, key b ≠ k) ∧ ∀ b ∈ l₂, key b ≠ k := by
  obtain ⟨l₁, l₂, rfl⟩ := List.append_of_mem ha
  rw [List.map_append, List.map_cons, List.nodup_middle, List.nodup_cons, hkey,
    List.mem_append] at hnodup
  refine ⟨l₁, l₂, rfl, fun b hb heq => hnodup.1 (Or.inl ?_), fun b hb heq => hnodup.1 (Or.inr ?_)⟩
  · exact heq ▸ List.mem_map_of_mem hb
  · exact heq ▸ List.mem_map_of_mem hb

section

variable {M : Type*} [AddCommMonoid M] (g : α → M)

omit [DecidableEq κ] in
/-- Two quantities that differ in the record of one key, without a subtraction. -/
theorem sum_change (g' : α → M) (hnodup : (l.map key).Nodup) (ha : a ∈ l) (hkey : key a = k)
    (hothers : ∀ b ∈ l, key b ≠ k → g' b = g b) :
    (l.map g').sum + g a = (l.map g).sum + g' a := by
  obtain ⟨l₁, l₂, rfl, h₁, h₂⟩ := exists_around hnodup ha hkey
  have hsame₁ : l₁.map g' = l₁.map g :=
    List.map_congr_left fun b hb => hothers b (by simp [hb]) (h₁ b hb)
  have hsame₂ : l₂.map g' = l₂.map g :=
    List.map_congr_left fun b hb => hothers b (by simp [hb]) (h₂ b hb)
  simp only [List.map_append, List.map_cons, List.sum_append, List.sum_cons, hsame₁, hsame₂]
  abel

theorem sum_update (hnodup : (l.map key).Nodup) (ha : a ∈ l) (hkey : key a = k) :
    ((update key k f l).map g).sum + g a = (l.map g).sum + g (f a) := by
  have hchange := sum_change g (fun b => g (if key b = k then f b else b)) hnodup ha hkey
    fun b _ hb => by rw [if_neg hb]
  rw [if_pos hkey] at hchange
  rw [update, List.map_map]
  exact hchange

theorem sum_remove (hnodup : (l.map key).Nodup) (ha : a ∈ l) (hkey : key a = k) :
    ((remove key k l).map g).sum + g a = (l.map g).sum := by
  obtain ⟨l₁, l₂, rfl, h₁, h₂⟩ := exists_around hnodup ha hkey
  have hsplit : remove key k (l₁ ++ a :: l₂) = l₁ ++ l₂ := by
    conv_rhs => rw [← remove_of_ne h₁, ← remove_of_ne h₂]
    simp [remove, hkey]
  rw [hsplit]
  simp only [List.map_append, List.map_cons, List.sum_append, List.sum_cons]
  abel

end

end BluetoothStack.Lib
