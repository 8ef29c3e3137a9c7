import BluetoothStack.Acl.RoundRobin

/-!
# BluetoothStack.Acl.PriorityLevels

The queue with priorities of the scheduler, as `multi_priority_queue.h` builds it: one queue
for each priority, and a heap with the priority of every item in them. The heap knows nothing
of the items, and the queues nothing of each other.

`Arrivals` is what the queue is for: the items in the order they came, of which the first one
with the greatest priority leaves. `levelQueue_run` says that the two agree over any calls, and
`multiPriorityQueue_run` that for two priorities so does the queue in the model of the scheduler.
-/

namespace BluetoothStack.Acl

/-! ### The code -/

/-- `MultiPriorityQueue` with its `NUM_PRIORITY_LEVELS`. Of `std::priority_queue` only the elements
are kept, in any order. -/
structure LevelQueue (α : Type) (n : Nat) where
  queues : Fin n → List α
  nextToDequeue : List (Fin n)

/-- The calls that change the queue; an item is read with `front` before it is popped. -/
inductive QueueCall (α : Type) (n : Nat) where
  | push (a : α) (priority : Fin n)
  | pop

/-- `top` of a `std::priority_queue`: a greatest element. -/
def heapTop? {n : Nat} : List (Fin n) → Option (Fin n)
  | [] => none
  | p :: ps => some (ps.foldl (fun a b => if a.val < b.val then b else a) p)

namespace LevelQueue

variable {α : Type} {n : Nat} (q : LevelQueue α n)

def nil : LevelQueue α n := ⟨fun _ => [], []⟩

/-- `front`, where it is defined. -/
def front? : Option α := (heapTop? q.nextToDequeue).bind fun p => (q.queues p).head?

def push (a : α) (priority : Fin n) : LevelQueue α n where
  queues := fun k => if k = priority then q.queues k ++ [a] else q.queues k
  nextToDequeue := priority :: q.nextToDequeue

/-- The item in front of one queue leaves, and its priority the heap. -/
def popLevel (p : Fin n) : LevelQueue α n where
  queues := fun k => if k = p then (q.queues k).tail else q.queues k
  nextToDequeue := q.nextToDequeue.erase p

/-- `pop`, where it is defined. -/
def pop? : Option (LevelQueue α n) :=
  (heapTop? q.nextToDequeue).bind fun p => if q.queues p = [] then none else some (q.popLevel p)

theorem pop?_of_top {q : LevelQueue α n} {p : Fin n} (htop : heapTop? q.nextToDequeue = some p)
    (hne : q.queues p ≠ []) : q.pop? = some (q.popLevel p) := by
  rw [pop?, htop, Option.bind_some, if_neg hne]

/-- The items that leave in a run of calls; `none` if the queue is read when it is empty. -/
def run (q : LevelQueue α n) : List (QueueCall α n) → Option (List α)
  | [] => some []
  | .push a priority :: calls => (q.push a priority).run calls
  | .pop :: calls => do
    let a ← q.front?
    let q ← q.pop?
    return a :: (← q.run calls)

end LevelQueue

/-! ### What it is for -/

/-- The items in the order they came, with their priorities. -/
abbrev Arrivals (α : Type) (n : Nat) := List (α × Fin n)

namespace Arrivals

variable {α : Type} {n : Nat} (l : Arrivals α n)

/-- No item has a greater priority. -/
def isGreatest (e : α × Fin n) : Bool := l.all fun e' => decide (e'.2.val ≤ e.2.val)

def run (l : Arrivals α n) : List (QueueCall α n) → Option (List α)
  | [] => some []
  | .push a priority :: calls => run (l ++ [(a, priority)]) calls
  | .pop :: calls => do
    let e ← l.find? (isGreatest l)
    return e.1 :: (← run (l.eraseP (isGreatest l)) calls)

/-- The items of one priority. -/
def level (p : Fin n) : List α := (l.filter fun e => decide (e.2 = p)).map Prod.fst

end Arrivals

/-! ### The heap -/

section heap

variable {n : Nat}

theorem foldl_greater (ps : List (Fin n)) (p : Fin n) :
    ps.foldl (fun a b => if a.val < b.val then b else a) p ∈ p :: ps ∧
      ∀ b ∈ p :: ps, b.val ≤ (ps.foldl (fun a b => if a.val < b.val then b else a) p).val := by
  induction ps generalizing p with
  | nil => simp
  | cons c ps ih =>
    rw [List.foldl_cons]
    obtain ⟨hmem, hle⟩ := ih (if p.val < c.val then c else p)
    -- the head of the shorter list is the greater of the two
    have hhead := hle _ List.mem_cons_self
    constructor
    · rcases List.mem_cons.mp hmem with heq | htail
      · rw [heq]
        split <;> simp
      · exact List.mem_cons_of_mem _ (List.mem_cons_of_mem _ htail)
    · intro b hb
      rcases List.mem_cons.mp hb with rfl | hb
      · refine Nat.le_trans ?_ hhead
        split <;> omega
      rcases List.mem_cons.mp hb with rfl | hb
      · refine Nat.le_trans ?_ hhead
        split <;> omega
      · exact hle b (List.mem_cons_of_mem _ hb)

theorem heapTop?_spec (ps : List (Fin n)) :
    (ps = [] ∧ heapTop? ps = none) ∨
      ∃ p ∈ ps, heapTop? ps = some p ∧ ∀ b ∈ ps, b.val ≤ p.val := by
  cases ps with
  | nil => exact Or.inl ⟨rfl, rfl⟩
  | cons p ps => exact Or.inr ⟨_, (foldl_greater ps p).1, rfl, (foldl_greater ps p).2⟩

end heap

/-! ### The queues follow the arrivals -/

section levels

variable {α : Type} {n : Nat}

namespace Arrivals

variable {l : Arrivals α n} {p : Fin n}

/-- With `p` the greatest priority there is, the items to leave are those of `p`. -/
theorem isGreatest_eq (hmem : p ∈ l.map Prod.snd) (hle : ∀ b ∈ l.map Prod.snd, b.val ≤ p.val)
    {e : α × Fin n} (he : e ∈ l) : isGreatest l e = decide (e.2 = p) := by
  have hep := hle e.2 (List.mem_map_of_mem he)
  rw [Bool.eq_iff_iff, isGreatest, List.all_eq_true, decide_eq_true_eq]
  constructor
  · intro h
    obtain ⟨e', he', rfl⟩ := List.mem_map.mp hmem
    exact Fin.ext (Nat.le_antisymm hep (of_decide_eq_true (h e' he')))
  · rintro rfl e' he'
    exact decide_eq_true (hle e'.2 (List.mem_map_of_mem he'))

theorem eraseP_congr {f g : α × Fin n → Bool} (h : ∀ e ∈ l, f e = g e) :
    l.eraseP f = l.eraseP g := by
  induction l with
  | nil => rfl
  | cons e l ih =>
    rw [List.eraseP_cons, List.eraseP_cons, h e List.mem_cons_self,
      ih fun e' he' => h e' (List.mem_cons_of_mem e he')]

theorem level_ne_nil (hmem : p ∈ l.map Prod.snd) : l.level p ≠ [] := by
  obtain ⟨e, he, hep⟩ := List.mem_map.mp hmem
  refine List.ne_nil_of_mem (a := e.1) (List.mem_map_of_mem ?_)
  exact List.mem_filter.mpr ⟨he, decide_eq_true hep⟩

theorem level_eraseP (l : Arrivals α n) (p k : Fin n) :
    level (l.eraseP fun e => decide (e.2 = p)) k = if k = p then (l.level k).tail
      else l.level k := by
  induction l with
  | nil => simp [level]
  | cons e l ih =>
    unfold level at ih ⊢
    by_cases he : e.2 = p
    · by_cases hk : k = p
      · simp [he, hk]
      · have hne : ¬ p = k := fun h => hk h.symm
        simp [he, hk, hne]
    · by_cases hek : e.2 = k
      · have hk : k ≠ p := fun h => he (hek.trans h)
        simp [hek, hk] at ih ⊢
        simp [ih]
      · simp [he, hek] at ih ⊢
        simp [ih]

theorem map_snd_eraseP (l : Arrivals α n) (p : Fin n) :
    (l.eraseP fun e => decide (e.2 = p)).map Prod.snd = (l.map Prod.snd).erase p := by
  induction l with
  | nil => rfl
  | cons e l ih =>
    by_cases he : e.2 = p
    · simp [he]
    · simp [he, ih]

end Arrivals

/-- The queues hold the items of each priority, and the heap all the priorities. -/
structure LevelQueue.Holds (q : LevelQueue α n) (l : Arrivals α n) : Prop where
  queues : ∀ k, q.queues k = l.level k
  heap : q.nextToDequeue.Perm (l.map Prod.snd)

namespace LevelQueue.Holds

variable {q : LevelQueue α n} {l : Arrivals α n}

theorem nil : Holds (LevelQueue.nil : LevelQueue α n) [] := ⟨fun _ => rfl, .nil⟩

theorem push (h : Holds q l) (a : α) (p : Fin n) : Holds (q.push a p) (l ++ [(a, p)]) where
  queues k := by
    change (if k = p then q.queues k ++ [a] else q.queues k) = _
    rw [h.queues, Arrivals.level, Arrivals.level, List.filter_append, List.map_append]
    by_cases hk : k = p
    · simp [hk]
    · have hne : ¬ p = k := fun h => hk h.symm
      simp [hk, hne]
  heap := by
    rw [LevelQueue.push, List.map_append]
    exact (h.heap.cons p).trans (List.perm_append_singleton p (l.map Prod.snd)).symm

/-- The top of the heap is the greatest priority there is. -/
theorem top (h : Holds q l) :
    (l = [] ∧ heapTop? q.nextToDequeue = none) ∨
      ∃ p ∈ l.map Prod.snd, heapTop? q.nextToDequeue = some p ∧ q.queues p ≠ [] ∧
        ∀ b ∈ l.map Prod.snd, b.val ≤ p.val := by
  rcases heapTop?_spec q.nextToDequeue with ⟨hnil, htop⟩ | ⟨p, hp, htop, hle⟩
  · have hperm := h.heap
    rw [hnil] at hperm
    exact Or.inl ⟨List.map_eq_nil_iff.mp hperm.nil_eq.symm, htop⟩
  · have hmem : p ∈ l.map Prod.snd := h.heap.mem_iff.mp hp
    refine Or.inr ⟨p, hmem, htop, ?_, fun b hb => hle b (h.heap.mem_iff.mpr hb)⟩
    rw [h.queues]
    exact Arrivals.level_ne_nil hmem

/-- `front` and `pop` take the first item of the greatest priority; they are defined if there is
one. -/
theorem front_pop (h : Holds q l) :
    q.front? = (l.find? (Arrivals.isGreatest l)).map Prod.fst ∧
      (l = [] ∨ ∃ q', q.pop? = some q' ∧ Holds q' (l.eraseP (Arrivals.isGreatest l))) := by
  rcases h.top with ⟨rfl, htop⟩ | ⟨p, hmem, htop, hne, hmax⟩
  · rw [LevelQueue.front?, htop]
    exact ⟨rfl, Or.inl rfl⟩
  · have hgreatest : ∀ e ∈ l, Arrivals.isGreatest l e = decide (e.2 = p) :=
      fun e he => Arrivals.isGreatest_eq hmem hmax he
    have hfind : l.find? (Arrivals.isGreatest l) = l.find? fun e => decide (e.2 = p) := by
      rw [← List.head?_filter, ← List.head?_filter, List.filter_congr hgreatest]
    have herase : l.eraseP (Arrivals.isGreatest l) = l.eraseP fun e => decide (e.2 = p) :=
      Arrivals.eraseP_congr hgreatest
    constructor
    · rw [LevelQueue.front?, htop, Option.bind_some, h.queues, hfind, Arrivals.level,
        List.head?_map, List.head?_filter]
    · refine Or.inr ⟨q.popLevel p, LevelQueue.pop?_of_top htop hne, fun k => ?_, ?_⟩
      · rw [herase, Arrivals.level_eraseP, ← h.queues]
        rfl
      · rw [herase, Arrivals.map_snd_eraseP]
        exact h.heap.erase p

theorem run (h : Holds q l) (calls : List (QueueCall α n)) :
    q.run calls = Arrivals.run l calls := by
  induction calls generalizing q l with
  | nil => rfl
  | cons call calls ih =>
    cases call with
    | push a p => exact ih (h.push a p)
    | pop =>
      obtain ⟨hfront, hpop⟩ := h.front_pop
      rw [LevelQueue.run, Arrivals.run, hfront]
      rcases hpop with rfl | ⟨q', hq', hholds⟩
      · rfl
      · rw [hq']
        cases l.find? (Arrivals.isGreatest l) with
        | none => rfl
        | some e => simp only [Option.map_some, Option.bind_eq_bind, Option.bind_some, ih hholds]

end LevelQueue.Holds

/-- **Priorities, then arrival.** Over any calls, with any number of priorities, the items leave the
queue of the code as they leave the arrivals: of those with the greatest priority the first that
came. The heap and the queues never disagree, so that a call is undefined only on an empty queue. -/
theorem levelQueue_run (calls : List (QueueCall α n)) :
    (LevelQueue.nil : LevelQueue α n).run calls = Arrivals.run [] calls :=
  LevelQueue.Holds.nil.run calls

end levels

/-! ### Two priorities -/

section twoLevels

variable {α : Type} {m : MultiPriorityQueue α} {q : LevelQueue α 2} {l : Arrivals α 2}

/-- The calls on the queue of the scheduler's model. -/
def MultiPriorityQueue.run (q : MultiPriorityQueue α) : List (QueueCall α 2) → Option (List α)
  | [] => some []
  | .push a priority :: calls => (q.push a (decide (priority.val = 1))).run calls
  | .pop :: calls => do
    let a ← q.front?
    return a :: (← q.pop.run calls)

/-- The two lists are the two queues. -/
structure TwoLevels (m : MultiPriorityQueue α) (q : LevelQueue α 2) : Prop where
  low : q.queues ⟨0, by decide⟩ = m.low
  high : q.queues ⟨1, by decide⟩ = m.high

theorem TwoLevels.push (h : TwoLevels m q) (a : α) (p : Fin 2) :
    TwoLevels (m.push a (decide (p.val = 1))) (q.push a p) := by
  obtain ⟨hlow, hhigh⟩ := h
  rcases p with ⟨_ | _ | k, hk⟩
  · exact ⟨congrArg (· ++ [a]) hlow, hhigh⟩
  · exact ⟨hlow, congrArg (· ++ [a]) hhigh⟩
  · omega

theorem TwoLevels.front_pop (h : TwoLevels m q) (hq : q.Holds l) :
    m.front? = q.front? ∧ ∀ q', q.pop? = some q' → TwoLevels m.pop q' := by
  obtain ⟨hlow, hhigh⟩ := h
  rcases hq.top with ⟨rfl, htop⟩ | ⟨p, hmem, htop, hne, hmax⟩
  · rw [LevelQueue.front?, LevelQueue.pop?, htop, MultiPriorityQueue.front?,
      MultiPriorityQueue.items, ← hlow, ← hhigh, hq.queues, hq.queues]
    exact ⟨rfl, fun q' hq' => by cases hq'⟩
  · rw [LevelQueue.front?, LevelQueue.pop?_of_top htop hne, htop, Option.bind_some,
      MultiPriorityQueue.front?, MultiPriorityQueue.items, MultiPriorityQueue.pop]
    rcases p with ⟨_ | _ | k, hk⟩
    · -- nothing of the higher priority is left
      have hnone : m.high = [] := by
        rw [← hhigh, hq.queues, Arrivals.level, List.map_eq_nil_iff, List.filter_eq_nil_iff]
        intro e he heq
        have hle := hmax e.2 (List.mem_map_of_mem he)
        rw [of_decide_eq_true heq] at hle
        exact Nat.not_succ_le_zero 0 hle
      rw [hnone, if_pos rfl, List.nil_append]
      refine ⟨congrArg List.head? hlow.symm, ?_⟩
      rintro q' ⟨⟩
      exact ⟨congrArg List.tail hlow, hhigh.trans hnone⟩
    · have hsome : m.high ≠ [] := fun h => hne (hhigh.trans h)
      rw [if_neg hsome, List.head?_append_of_ne_nil _ hsome]
      refine ⟨congrArg List.head? hhigh.symm, ?_⟩
      rintro q' ⟨⟩
      exact ⟨hlow, congrArg List.tail hhigh⟩
    · omega

theorem TwoLevels.run (h : TwoLevels m q) (hq : q.Holds l) (calls : List (QueueCall α 2)) :
    m.run calls = q.run calls := by
  induction calls generalizing m q l with
  | nil => rfl
  | cons call calls ih =>
    cases call with
    | push a p => exact ih (h.push a p) (hq.push a p)
    | pop =>
      obtain ⟨hfront, hpop⟩ := h.front_pop hq
      obtain ⟨hfind, hdefined⟩ := hq.front_pop
      rw [MultiPriorityQueue.run, LevelQueue.run, hfront]
      rcases hdefined with rfl | ⟨q', hq', hholds⟩
      · rw [hfind]
        rfl
      · rw [hq', ih (hpop q' hq') hholds]
        rfl

/-- The queue in the model of the scheduler lets out what the queue of the code does. -/
theorem multiPriorityQueue_run (calls : List (QueueCall α 2)) :
    (MultiPriorityQueue.nil : MultiPriorityQueue α).run calls =
      (LevelQueue.nil : LevelQueue α 2).run calls :=
  TwoLevels.run ⟨rfl, rfl⟩ LevelQueue.Holds.nil calls

end twoLevels

end BluetoothStack.Acl
