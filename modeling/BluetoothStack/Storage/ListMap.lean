import BluetoothStack.Lib.Keyed

/-!
# BluetoothStack.Storage.ListMap

Maps in order of insertion (`list_map.h`) and the cache of the most recently used (`lru_cache.h`).

An assignment through an iterator is `modify`. An iteration that erases as it goes is `eraseIf`.
-/

namespace BluetoothStack.Storage

open BluetoothStack.Lib

/-- `ListMap`: the list of nodes; `key_map_` holds the same keys. -/
structure ListMap (κ υ : Type) where
  nodeList : List (κ × υ)
  nodup : (nodeList.map Prod.fst).Nodup
deriving DecidableEq, Repr

namespace ListMap

variable {κ υ : Type}

def empty : ListMap κ υ := ⟨[], List.nodup_nil⟩

@[ext] theorem ext {m m' : ListMap κ υ} (h : m.nodeList = m'.nodeList) : m = m' := by
  cases m
  cases m'
  cases h
  rfl

variable {l : List (κ × υ)} {f : υ → υ} (v : υ) (j : κ)

theorem nodup_concat {k : κ} {v : υ} (hl : (l.map Prod.fst).Nodup) (h : k ∉ l.map Prod.fst) :
    ((l ++ [(k, v)]).map Prod.fst).Nodup := by
  rw [List.map_append, List.map_singleton]
  exact hl.append (List.nodup_singleton k) (List.disjoint_singleton.mpr h)

variable [DecidableEq κ]

theorem nodup_update {k : κ} (hl : (l.map Prod.fst).Nodup) :
    ((update Prod.fst k (fun node => (node.1, f node.2)) l).map Prod.fst).Nodup := by
  have hkeys : (update Prod.fst k (fun node => (node.1, f node.2)) l).map Prod.fst =
      l.map Prod.fst := map_key_update fun _ hk => hk
  rwa [hkeys]

variable (m : ListMap κ υ) (k : κ)

/-- What `find` points to. -/
def find? : Option υ := (find Prod.fst k m.nodeList).map Prod.snd

def contains : Bool := (m.find? k).isSome

def size : Nat := m.nodeList.length

/-- An assignment to what `find` points to. -/
def modify (f : υ → υ) : ListMap κ υ :=
  ⟨update Prod.fst k (fun node => (node.1, f node.2)) m.nodeList, nodup_update m.nodup⟩

/-- `try_emplace_back`. -/
def tryEmplaceBack (v : υ) : ListMap κ υ :=
  if h : k ∈ m.nodeList.map Prod.fst then m else ⟨m.nodeList ++ [(k, v)], nodup_concat m.nodup h⟩

/-- `try_emplace` before the first node. -/
def tryEmplaceFront (v : υ) : ListMap κ υ :=
  if h : k ∈ m.nodeList.map Prod.fst then m
  else ⟨(k, v) :: m.nodeList, List.nodup_cons.mpr ⟨h, m.nodup⟩⟩

/-- `insert_or_assign` at the end. -/
def insertOrAssign (v : υ) : ListMap κ υ := (m.tryEmplaceBack k v).modify k fun _ => v

/-- What `extract` and `erase` leave. -/
def erase : ListMap κ υ := ⟨remove Prod.fst k m.nodeList, nodup_remove m.nodup⟩

def eraseIf (p : υ → Bool) : ListMap κ υ :=
  ⟨m.nodeList.filter fun node => !p node.2,
    m.nodup.sublist (List.Sublist.map _ List.filter_sublist)⟩

/-- `extract` of the last node. -/
def eraseLast : ListMap κ υ :=
  ⟨m.nodeList.dropLast, m.nodup.sublist (List.Sublist.map _ (List.dropLast_sublist _))⟩

/-- `splice` to the begin. -/
def toFront : ListMap κ υ :=
  match m.find? k with
  | none => m
  | some v => (m.erase k).tryEmplaceFront k v

theorem nodup_mapValues {κ υ υ' : Type} {l : List (κ × υ)} {f : υ → υ'}
    (hl : (l.map Prod.fst).Nodup) :
      ((l.map fun node => (node.1, f node.2)).map Prod.fst).Nodup := by
  rw [List.map_map]
  exact hl

/-- The map with other values. -/
def mapValues {κ υ υ' : Type} (m : ListMap κ υ) (f : υ → υ') : ListMap κ υ' :=
  ⟨m.nodeList.map fun node => (node.1, f node.2), nodup_mapValues m.nodup⟩

/-! ### Lookup -/

variable {m k}

theorem mem_of_find? {v : υ} (h : m.find? k = some v) : (k, v) ∈ m.nodeList := by
  obtain ⟨⟨j, w⟩, hfind, rfl⟩ := Option.map_eq_some_iff.mp h
  obtain ⟨hmem, rfl⟩ := mem_of_find hfind
  exact hmem

theorem find?_of_mem {v : υ} (h : (k, v) ∈ m.nodeList) : m.find? k = some v := by
  have hfind : find Prod.fst k m.nodeList = some (k, v) := find_of_mem m.nodup h
  rw [find?, hfind, Option.map_some]

theorem find?_eq_none : m.find? k = none ↔ k ∉ m.nodeList.map Prod.fst := by
  rw [find?, Option.map_eq_none_iff, find_eq_none, List.mem_map]
  exact ⟨fun h ⟨a, ha, hk⟩ => h a ha hk, fun h a ha hk => h ⟨a, ha, hk⟩⟩

theorem mem_keys_iff : k ∈ m.nodeList.map Prod.fst ↔ m.contains k := by
  rw [contains, ← Option.isNone_eq_false_iff, ← Bool.not_eq_true, Option.isNone_iff_eq_none,
    find?_eq_none, not_not]

theorem find?_modify (f : υ → υ) (j : κ) :
    (m.modify k f).find? j = if j = k then (m.find? k).map f else m.find? j := by
  have hfind : find Prod.fst j (m.modify k f).nodeList =
      if j = k then (find Prod.fst k m.nodeList).map fun node => (node.1, f node.2)
      else find Prod.fst j m.nodeList := by
    refine find_update ?_ j
    exact fun _ hk => hk
  rw [find?, hfind]
  split
  · rw [find?, Option.map_map, Option.map_map]
    rfl
  · rfl

theorem find?_tryEmplaceBack :
    (m.tryEmplaceBack k v).find? j = if j = k then some ((m.find? k).getD v) else m.find? j := by
  rw [tryEmplaceBack]
  split
  next h =>
    obtain ⟨w, hw⟩ := Option.isSome_iff_exists.mp (mem_keys_iff.mp h)
    split
    next hj => rw [hj, hw, Option.getD_some]
    · rfl
  next h =>
    have hnone := find?_eq_none.mpr h
    rw [hnone, Option.getD_none]
    simp only [find?, find, List.find?_append] at hnone ⊢
    split
    next hj =>
      rw [hj, Option.map_eq_none_iff.mp hnone]
      simp
    next hj => simp [Ne.symm hj]

theorem find?_tryEmplaceFront :
    (m.tryEmplaceFront k v).find? j = if j = k then some ((m.find? k).getD v) else m.find? j := by
  rw [tryEmplaceFront]
  split
  next h =>
    obtain ⟨w, hw⟩ := Option.isSome_iff_exists.mp (mem_keys_iff.mp h)
    split
    next hj => rw [hj, hw, Option.getD_some]
    · rfl
  next h =>
    rw [find?_eq_none.mpr h, Option.getD_none, find?, find_cons]
    by_cases hj : j = k
    · rw [if_pos hj.symm, if_pos hj, Option.map_some]
    · rw [if_neg (Ne.symm hj), if_neg hj, find?]

theorem find?_insertOrAssign :
    (m.insertOrAssign k v).find? j = if j = k then some v else m.find? j := by
  rw [insertOrAssign, find?_modify, find?_tryEmplaceBack, find?_tryEmplaceBack, if_pos rfl,
    Option.map_some]
  split <;> rfl

theorem find?_erase : (m.erase k).find? j = if j = k then none else m.find? j := by
  rw [find?, erase, find_remove]
  split <;> rfl

theorem find?_toFront : (m.toFront k).find? j = m.find? j := by
  unfold toFront
  split
  · rfl
  next v hv =>
    rw [find?_tryEmplaceFront, find?_erase, if_pos rfl, Option.getD_none, find?_erase]
    split
    next hj => rw [hj, hv]
    · rfl

theorem find?_eraseIf {p : υ → Bool} {v : υ} :
    (m.eraseIf p).find? k = some v ↔ m.find? k = some v ∧ p v = false := by
  constructor
  · intro h
    have hmem := List.mem_filter.mp (mem_of_find? h)
    exact ⟨find?_of_mem hmem.1, by simpa using hmem.2⟩
  · rintro ⟨h, hp⟩
    exact find?_of_mem (List.mem_filter.mpr ⟨mem_of_find? h, by simpa using hp⟩)

theorem find?_of_eraseLast {v : υ} (h : m.eraseLast.find? k = some v) : m.find? k = some v :=
  find?_of_mem (List.mem_of_mem_dropLast (mem_of_find? h))

/-! ### What holds of every node -/

/-- The nodes of the map have a property. -/
def All (m : ListMap κ υ) (P : κ → υ → Prop) : Prop := ∀ k v, m.find? k = some v → P k v

variable {P : κ → υ → Prop}

theorem all_empty : (empty : ListMap κ υ).All P := fun _ _ h => nomatch h

theorem all_of_nodeList (h : ∀ node ∈ m.nodeList, P node.1 node.2) : m.All P :=
  fun k v hfind => h (k, v) (mem_of_find? hfind)

theorem All.modify (h : m.All P) (hk : ∀ v, m.find? k = some v → P k (f v)) :
    (m.modify k f).All P := by
  intro j w hw
  rw [find?_modify] at hw
  split at hw
  next hj =>
    obtain ⟨v, hv, rfl⟩ := Option.map_eq_some_iff.mp hw
    exact hj ▸ hk v hv
  · exact h j w hw

theorem All.emplace (h : m.All P) {d : υ} (hk : P k (f ((m.find? k).getD d))) :
    ((m.tryEmplaceBack k d).modify k f).All P := by
  intro j w hw
  rw [find?_modify, find?_tryEmplaceBack, find?_tryEmplaceBack, if_pos rfl, Option.map_some] at hw
  split at hw
  next hj =>
    cases hw
    exact hj ▸ hk
  · exact h j w hw

theorem All.erase (h : m.All P) : (m.erase k).All P := by
  intro j w hw
  rw [find?_erase] at hw
  split at hw
  · cases hw
  · exact h j w hw

theorem All.eraseIf (h : m.All P) {p : υ → Bool} : (m.eraseIf p).All P :=
  fun j w hw => h j w (find?_eraseIf.mp hw).1

/-! ### Order -/

theorem modify_modify (f g : υ → υ) : (m.modify k f).modify k g = m.modify k (g ∘ f) := by
  refine ext ?_
  show (m.nodeList.map _).map _ = m.nodeList.map _
  rw [List.map_map]
  refine List.map_congr_left fun node _ => ?_
  by_cases hk : node.1 = k
  · simp [hk]
  · simp [hk]

theorem modify_self : (m.modify k fun v => v) = m := by
  refine ext ?_
  show m.nodeList.map (fun node => if node.1 = k then (node.1, node.2) else node) = m.nodeList
  simp

theorem contains_modify (f : υ → υ) : (m.modify k f).contains k = m.contains k := by
  rw [contains, find?_modify, if_pos rfl, Option.isSome_map, contains]

theorem contains_tryEmplaceBack : (m.tryEmplaceBack k v).contains k := by
  rw [contains, find?_tryEmplaceBack, if_pos rfl, Option.isSome_some]

theorem tryEmplaceBack_of_contains (h : m.contains k) (v : υ) : m.tryEmplaceBack k v = m :=
  dif_pos (mem_keys_iff.mpr h)

theorem nodeList_tryEmplaceBack (h : m.contains k = false) (v : υ) :
    (m.tryEmplaceBack k v).nodeList = m.nodeList ++ [(k, v)] := by
  have hk : k ∉ m.nodeList.map Prod.fst := by
    rw [mem_keys_iff, h]
    exact Bool.false_ne_true
  rw [tryEmplaceBack, dif_neg hk]

theorem nodeList_emplace (h : m.contains k = false) (f : υ → υ) (v : υ) :
    ((m.tryEmplaceBack k v).modify k f).nodeList = m.nodeList ++ [(k, f v)] := by
  have hkeys : ∀ node ∈ m.nodeList, node.1 ≠ k := by
    intro node hnode hk
    have hmem : k ∈ m.nodeList.map Prod.fst := hk ▸ List.mem_map_of_mem hnode
    rw [mem_keys_iff, h] at hmem
    cases hmem
  show update Prod.fst k _ (m.tryEmplaceBack k v).nodeList = _
  rw [nodeList_tryEmplaceBack h, update, List.map_append]
  congr 1
  · exact update_of_ne hkeys
  · simp

/-- New nodes come in the order they are inserted. -/
theorem nodeList_foldl_insertOrAssign (h : ((m.nodeList ++ l).map Prod.fst).Nodup) :
    (l.foldl (fun m node => m.insertOrAssign node.1 node.2) m).nodeList = m.nodeList ++ l := by
  induction l generalizing m with
  | nil => exact (List.append_nil _).symm
  | cons node l ih =>
    have hcontains : m.contains node.1 = false := by
      rw [Bool.eq_false_iff, Ne, ← mem_keys_iff]
      rw [List.map_append, List.map_cons, List.nodup_middle, List.nodup_cons] at h
      exact fun hmem => h.1 (List.mem_append_left _ hmem)
    have hnode : (m.insertOrAssign node.1 node.2).nodeList = m.nodeList ++ [node] :=
      nodeList_emplace hcontains _ _
    rw [List.foldl_cons, ih, hnode, List.append_assoc, List.singleton_append]
    rwa [hnode, List.append_assoc, List.singleton_append]

/-! ### Size -/

theorem length_modify (f : υ → υ) : (m.modify k f).nodeList.length = m.nodeList.length :=
  List.length_map _

theorem length_erase (h : m.contains k) : (m.erase k).nodeList.length + 1 = m.nodeList.length := by
  obtain ⟨v, hv⟩ := Option.isSome_iff_exists.mp h
  have hsum := sum_remove (fun _ => 1) m.nodup (mem_of_find? hv) rfl
  rwa [List.map_const', List.sum_replicate, List.map_const', List.sum_replicate, smul_eq_mul,
    smul_eq_mul, mul_one, mul_one] at hsum

theorem length_erase_le : (m.erase k).nodeList.length ≤ m.nodeList.length :=
  List.length_filter_le _ _

theorem length_tryEmplaceFront_le :
    (m.tryEmplaceFront k v).nodeList.length ≤ m.nodeList.length + 1 := by
  unfold tryEmplaceFront
  split
  · exact Nat.le_succ _
  · exact le_rfl

theorem length_toFront_le : (m.toFront k).nodeList.length ≤ m.nodeList.length := by
  unfold toFront
  split
  · exact le_rfl
  next v hv =>
    have hcontains : m.contains k := Option.isSome_iff_exists.mpr ⟨v, hv⟩
    exact length_erase hcontains ▸ length_tryEmplaceFront_le v

end ListMap

/-! ### The cache -/

/-- `LruCache`, from the most to the least recently used. -/
structure LruCache (κ υ : Type) where
  capacity : Nat
  listMap : ListMap κ υ
  capacity_pos : 0 < capacity
  bounded : listMap.nodeList.length ≤ capacity
deriving DecidableEq, Repr

namespace LruCache

variable {κ υ : Type}

def empty (capacity : Nat) (h : 0 < capacity) : LruCache κ υ :=
  ⟨capacity, .empty, h, Nat.zero_le capacity⟩

variable [DecidableEq κ] (c : LruCache κ υ) (k : κ)

/-- What `find` points to. -/
def find? : Option υ := c.listMap.find? k

/-- What `find` does to the order. -/
def warmUp : LruCache κ υ :=
  { c with
    listMap := c.listMap.toFront k
    bounded := ListMap.length_toFront_le.trans c.bounded }

/-- `contains`, but for the order. -/
def contains : Bool := c.listMap.contains k

/-- The map with room for one more node. -/
def evict : ListMap κ υ :=
  if c.listMap.size = c.capacity then c.listMap.eraseLast else c.listMap

omit [DecidableEq κ] in
theorem length_evict_lt : c.evict.nodeList.length < c.capacity := by
  unfold evict
  split
  next h =>
    rw [← h, ListMap.eraseLast, List.length_dropLast]
    exact Nat.sub_lt (h ▸ c.capacity_pos : 0 < c.listMap.size) Nat.one_pos
  next h => exact lt_of_le_of_ne c.bounded h

/-- `try_emplace`. -/
def tryEmplace (v : υ) : LruCache κ υ :=
  if c.contains k then c.warmUp k
  else
    { c with
      listMap := c.evict.tryEmplaceFront k v
      bounded := (ListMap.length_tryEmplaceFront_le v).trans c.length_evict_lt }

def modify (f : υ → υ) : LruCache κ υ :=
  { c with
    listMap := c.listMap.modify k f
    bounded := (ListMap.length_modify f).le.trans c.bounded }

/-- `insert_or_assign`. -/
def insertOrAssign (v : υ) : LruCache κ υ := (c.tryEmplace k v).modify k fun _ => v

/-- What `extract` and `erase` leave. -/
def erase : LruCache κ υ :=
  { c with
    listMap := c.listMap.erase k
    bounded := ListMap.length_erase_le.trans c.bounded }

def eraseIf (p : υ → Bool) : LruCache κ υ :=
  { c with
    listMap := c.listMap.eraseIf p
    bounded := (List.length_filter_le _ _).trans c.bounded }

variable {c k}

theorem find?_modify (f : υ → υ) (j : κ) :
    (c.modify k f).find? j = if j = k then (c.find? k).map f else c.find? j :=
  ListMap.find?_modify f j

theorem find?_warmUp (j : κ) : (c.warmUp k).find? j = c.find? j := ListMap.find?_toFront j

theorem find?_erase (j : κ) : (c.erase k).find? j = if j = k then none else c.find? j :=
  ListMap.find?_erase j

theorem find?_of_evict {v : υ} (h : c.evict.find? k = some v) : c.find? k = some v := by
  unfold evict at h
  split at h
  · exact ListMap.find?_of_eraseLast h
  · exact h

theorem find?_tryEmplace_self (v : υ) :
    (c.tryEmplace k v).find? k = some ((c.find? k).getD v) := by
  unfold tryEmplace
  split
  next h =>
    obtain ⟨w, hw⟩ := Option.isSome_iff_exists.mp h
    rw [find?_warmUp, find?, hw, Option.getD_some]
  next h =>
    have hnone : c.find? k = none := by
      simpa [contains, ListMap.contains, find?] using h
    have hevict : c.evict.find? k = none := by
      by_contra hsome
      obtain ⟨w, hw⟩ := Option.ne_none_iff_exists'.mp hsome
      rw [find?_of_evict hw] at hnone
      cases hnone
    rw [hnone]
    show (c.evict.tryEmplaceFront k v).find? k = _
    rw [ListMap.find?_tryEmplaceFront, if_pos rfl, hevict]

/-- The others are there or were evicted. -/
theorem find?_of_tryEmplace {v w : υ} {j : κ} (hj : j ≠ k)
    (h : (c.tryEmplace k v).find? j = some w) : c.find? j = some w := by
  unfold tryEmplace at h
  split at h
  · rwa [find?_warmUp] at h
  · have h : (c.evict.tryEmplaceFront k v).find? j = some w := h
    rw [ListMap.find?_tryEmplaceFront, if_neg hj] at h
    exact find?_of_evict h

variable {P : κ → υ → Prop}

theorem all_warmUp (h : c.listMap.All P) : (c.warmUp k).listMap.All P :=
  fun j w hw => h j w ((find?_warmUp j).symm.trans hw)

theorem all_emplace (h : c.listMap.All P) {f : υ → υ} {d : υ} (hk : P k (f ((c.find? k).getD d))) :
    ((c.tryEmplace k d).modify k f).listMap.All P := by
  intro j w hw
  have hw : ((c.tryEmplace k d).modify k f).find? j = some w := hw
  rw [find?_modify, find?_tryEmplace_self, Option.map_some] at hw
  split at hw
  next hj =>
    cases hw
    exact hj ▸ hk
  next hj => exact h j w (find?_of_tryEmplace hj hw)

end LruCache

end BluetoothStack.Storage
