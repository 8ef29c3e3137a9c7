import BluetoothStack.L2cap.LinkCreditsInv

/-!
# BluetoothStack.L2cap.LinkQuotas

How the buffers of the controller are divided among the links.

`l2c_link_adjust_allocation` and `l2c_ble_link_adjust_allocation` are one algorithm. They differ in
the quota of a link when there is not one buffer for each: with LE such a link has none and the
links take turns, with BR/EDR it has one or two of its own, and the links still take turns.
-/

namespace BluetoothStack.L2cap.Link

open BluetoothStack.Lib

/-! ### What is to hold -/

/-- Whether a link gets its quota from the allocation for `t`. -/
def takesPart (t : Transport) (s : Credits) (l : LinkCb) : Bool :=
  t.pick (l.inUse && (s.bufs .le == l2cDefNumBleBufShared || l.transport != .le))
    (l.inUse && l.transport == .le)

/-- The quota of a link if there is not one buffer for each. -/
def fewQuota : Transport → ℕ := Transport.pick 1 0

/-- The links that get a quota, by priority; none of them does if the number of links is zero. -/
def Credits.linksOf (t : Transport) (high : Bool) (s : Credits) : List LcbId :=
  if s.links t = 0 then []
  else (List.finRange 16).filter fun c => takesPart t s (s.lcb c) && (s.lcb c).highPriority == high

def Credits.quota (s : Credits) (c : LcbId) : ℕ := (s.lcb c).linkXmitQuota

def Credits.quotaSum (s : Credits) (cs : List LcbId) : ℕ := (cs.map s.quota).sum

/-- The allocation ends, and either there is a buffer for each link of low priority, or these links
have none of their own and take turns; no more buffers are given away than there are. -/
def AllocationSound (t : Transport) (s : Credits) : Prop :=
  ∃ s', adjustFor t s = some s' ∧
    ((∀ c ∈ s.linksOf t false, 1 ≤ s'.quota c) ∧
        s'.quotaSum (s.linksOf t true) + s'.quotaSum (s.linksOf t false) ≤ s.bufs t ∧
        s'.roundRobinQuota t = 0 ∨
      (∀ c ∈ s.linksOf t false, s'.quota c = 0) ∧
        s'.quotaSum (s.linksOf t true) + s'.roundRobinQuota t ≤ max (s.bufs t) 1)

/-! ### The quota of high priority -/

variable {xmitQuota : ℕ}

theorem hiPriQuota_eq_none_iff {hi low q : ℕ} :
    hiPriQuota hi low xmitQuota q = none ↔ xmitQuota < low := by
  induction q with
  | zero => simp [hiPriQuota]
  | succ q ih =>
    rw [hiPriQuota]
    split
    · exact ih
    case isFalse hfit => exact iff_of_false nofun (by omega)

/-- The greatest quota with which all of them fit. -/
theorem hiPriQuota_eq_some {hi low q r : ℕ} (h : hiPriQuota hi low xmitQuota q = some r) :
    hi * r + low ≤ xmitQuota ∧ r ≤ q ∧ ∀ r' ≤ q, hi * r' + low ≤ xmitQuota → r' ≤ r := by
  induction q with
  | zero =>
    rw [hiPriQuota] at h
    split at h
    · cases h
    case isFalse hfit =>
      cases h
      exact ⟨by omega, le_rfl, fun r' hr' _ => hr'⟩
  | succ q ih =>
    rw [hiPriQuota] at h
    split at h
    case isTrue hlong =>
      obtain ⟨hfit, hle, hmax⟩ := ih h
      refine ⟨hfit, hle.trans (Nat.le_succ q), fun r' hr' hfit' => hmax r' ?_ hfit'⟩
      refine Nat.le_of_lt_succ (lt_of_le_of_ne hr' ?_)
      rintro rfl
      exact absurd hfit' (not_le.mpr hlong)
    case isFalse hfit =>
      cases h
      exact ⟨not_lt.mp hfit, le_rfl, fun r' hr' _ => hr'⟩

/-- In closed form: five, or what the links of high priority can have of all buffers but one. -/
theorem hiPriQuota_mul {hi r : ℕ} (h : hiPriQuota hi 1 xmitQuota 5 = some r) :
    hi * r = hi * min 5 ((xmitQuota - 1) / hi) := by
  obtain ⟨hfit, hle, hmax⟩ := hiPriQuota_eq_some h
  rcases Nat.eq_zero_or_pos hi with rfl | hpos
  · rw [Nat.zero_mul, Nat.zero_mul]
  · congr 1
    refine le_antisymm (le_min hle ?_) (hmax _ (min_le_left _ _) ?_)
    · rw [Nat.le_div_iff_mul_le hpos, Nat.mul_comm]
      omega
    · have hdiv : hi * min 5 ((xmitQuota - 1) / hi) ≤ xmitQuota - 1 :=
        (Nat.mul_le_mul_left hi (min_le_right _ _)).trans (Nat.mul_div_le _ _)
      omega

/-! ### Giving out quotas -/

section Assign

variable (t : Transport) {counts : LinkCb → Bool} {hiQuota qq : ℕ}

/-- What one turn of the loop does: of the remainder, a link of low priority gets one at most. -/
structure Assigned (counts : LinkCb → Bool) (hiQuota qq : ℕ) (c : LcbId) (p p' : Credits × ℕ) :
    Prop where
  others : ∀ d, d ≠ c → p'.1.lcb d = p.1.lcb d
  high : counts (p.1.lcb c) && (p.1.lcb c).highPriority == true →
    p'.1.quota c = hiQuota ∧ p'.2 = p.2
  low : counts (p.1.lcb c) && (p.1.lcb c).highPriority == false →
    p'.1.quota c + p'.2 = qq + p.2 ∧ qq ≤ p'.1.quota c
  none : counts (p.1.lcb c) = false → p'.2 = p.2
  roundRobin : p'.1.roundRobinQuota = p.1.roundRobinQuota

variable {p p' : Credits × ℕ} {cs : List LcbId}

theorem assignQuota_assigned (hqq : 0 < p.2 → qq + 1 < 65536) (c : LcbId) :
    Assigned counts hiQuota qq c p (assignQuota t counts hiQuota qq p c) := by
  obtain ⟨s, remainder⟩ := p
  cases hcounts : counts (s.lcb c) with
  | false =>
    simp only [assignQuota, hcounts, Bool.false_eq_true, if_false]
    exact ⟨fun _ _ => rfl, by simp [hcounts], by simp [hcounts], fun _ => rfl, rfl⟩
  | true =>
    cases hhigh : (s.lcb c).highPriority with
    | true =>
      simp only [assignQuota, hcounts, hhigh, if_true]
      refine ⟨fun d hd => ?_, fun _ => ⟨?_, rfl⟩, by simp [hhigh], by simp [hcounts], rfl⟩
      · rw [Credits.setLcb_lcb, if_neg hd]
      · rw [Credits.quota, Credits.setLcb_lcb, if_pos rfl]
    | false =>
      -- only the count of unacknowledged packets differs
      have hsame : ∀ s' : Credits, s'.lcb = s.lcb → s'.roundRobinQuota = s.roundRobinQuota →
          Assigned counts hiQuota qq c (s, remainder)
            (if remainder > 0 then
              (s'.setLcb c { s.lcb c with linkXmitQuota := u16 (qq + 1) }, remainder - 1)
            else (s'.setLcb c { s.lcb c with linkXmitQuota := qq }, remainder)) := by
        intro s' hlcb hrr
        split
        case isTrue hleft =>
          refine ⟨fun d hd => ?_, by simp [hhigh], fun _ => ?_, by simp [hcounts], hrr⟩
          · rw [Credits.setLcb_lcb, if_neg hd, hlcb]
          · rw [Credits.quota, Credits.setLcb_lcb, if_pos rfl, u16_of_lt (hqq hleft)]
            dsimp only
            omega
        case isFalse =>
          refine ⟨fun d hd => ?_, by simp [hhigh], fun _ => ?_, by simp [hcounts], hrr⟩
          · rw [Credits.setLcb_lcb, if_neg hd, hlcb]
          · rw [Credits.quota, Credits.setLcb_lcb, if_pos rfl]
            exact ⟨rfl, le_rfl⟩
      unfold assignQuota
      dsimp only
      rw [if_pos hcounts, if_neg (Bool.eq_false_iff.mp hhigh)]
      refine hsame _ ?_ ?_
      · split
        · rfl
        · rfl
      · split
        · rfl
        · rfl

theorem Assigned.remainder {c : LcbId} (h : Assigned counts hiQuota qq c p p')
    (hcond : ¬(counts (p.1.lcb c) && (p.1.lcb c).highPriority == false) = true) : p'.2 = p.2 := by
  cases hcounts : counts (p.1.lcb c) with
  | false => exact h.none hcounts
  | true =>
    rw [hcounts, Bool.true_and] at hcond
    exact (h.high (by simpa [hcounts] using hcond)).2

theorem Assigned.remainder_le {c : LcbId} (h : Assigned counts hiQuota qq c p p') :
    p'.2 ≤ p.2 := by
  by_cases hcond : (counts (p.1.lcb c) && (p.1.lcb c).highPriority == false) = true
  · have hlow := h.low hcond
    omega
  · exact (h.remainder hcond).le

/-- The links of a priority among `cs`. -/
def ofPriority (counts : LinkCb → Bool) (high : Bool) (s : Credits) (cs : List LcbId) :
    List LcbId :=
  cs.filter fun c => counts (s.lcb c) && (s.lcb c).highPriority == high

/-- What the loop does to the links `cs`. -/
structure AllAssigned (counts : LinkCb → Bool) (hiQuota qq : ℕ) (cs : List LcbId)
    (p p' : Credits × ℕ) : Prop where
  others : ∀ d, d ∉ cs → p'.1.lcb d = p.1.lcb d
  high : ∀ c ∈ ofPriority counts true p.1 cs, p'.1.quota c = hiQuota
  low : ∀ c ∈ ofPriority counts false p.1 cs, qq ≤ p'.1.quota c
  sum : p'.1.quotaSum (ofPriority counts false p.1 cs) + p'.2 =
    qq * (ofPriority counts false p.1 cs).length + p.2
  roundRobin : p'.1.roundRobinQuota = p.1.roundRobinQuota

theorem ofPriority_cons (high : Bool) (s : Credits) (c : LcbId) (cs : List LcbId) :
    ofPriority counts high s (c :: cs) =
      if counts (s.lcb c) && (s.lcb c).highPriority == high then c :: ofPriority counts high s cs
      else ofPriority counts high s cs :=
  List.filter_cons

theorem ofPriority_congr {s s' : Credits} (h : ∀ d ∈ cs, s'.lcb d = s.lcb d) (high : Bool) :
    ofPriority counts high s' cs = ofPriority counts high s cs := by
  refine List.filter_congr fun d hd => ?_
  rw [h d hd]

theorem AllAssigned.cons {c : LcbId} {p₁ : Credits × ℕ} (hc : c ∉ cs)
    (h : Assigned counts hiQuota qq c p p₁) (hrest : AllAssigned counts hiQuota qq cs p₁ p') :
    AllAssigned counts hiQuota qq (c :: cs) p p' := by
  have hkeep : ∀ high, ofPriority counts high p₁.1 cs = ofPriority counts high p.1 cs :=
    ofPriority_congr fun d hd => h.others d fun hdc => hc (hdc ▸ hd)
  have hquota : p'.1.quota c = p₁.1.quota c := by
    rw [Credits.quota, hrest.others c hc, Credits.quota]
  have hhigh := hrest.high
  have hlow := hrest.low
  have hsum := hrest.sum
  rw [hkeep] at hhigh hlow hsum
  refine ⟨?_, ?_, ?_, ?_, hrest.roundRobin.trans h.roundRobin⟩
  · intro d hd
    obtain ⟨hdc, hdcs⟩ := not_or.mp (List.mem_cons.not.mp hd)
    rw [hrest.others d hdcs, h.others d hdc]
  · rw [ofPriority_cons]
    split
    case isTrue hcond =>
      refine List.forall_mem_cons.mpr ⟨?_, hhigh⟩
      rw [hquota]
      exact (h.high hcond).1
    case isFalse => exact hhigh
  · rw [ofPriority_cons]
    split
    case isTrue hcond =>
      refine List.forall_mem_cons.mpr ⟨?_, hlow⟩
      rw [hquota]
      exact (h.low hcond).2
    case isFalse => exact hlow
  · rw [ofPriority_cons]
    split
    case isTrue hcond =>
      -- what the link gets beyond `qq` is taken from the remainder
      have hone := (h.low hcond).1
      rw [Credits.quotaSum, List.map_cons, List.sum_cons, hquota, List.length_cons, Nat.mul_succ]
      rw [Credits.quotaSum] at hsum
      omega
    case isFalse hcond => rw [hsum, h.remainder hcond]

theorem foldl_assignQuota (hnd : cs.Nodup) (hqq : 0 < p.2 → qq + 1 < 65536) :
    AllAssigned counts hiQuota qq cs p (cs.foldl (assignQuota t counts hiQuota qq) p) := by
  induction cs generalizing p with
  | nil => exact ⟨fun _ _ => rfl, List.forall_mem_nil _, List.forall_mem_nil _, rfl, rfl⟩
  | cons c cs ih =>
    obtain ⟨hc, hnd⟩ := List.nodup_cons.mp hnd
    have hfirst : Assigned counts hiQuota qq c p _ := assignQuota_assigned t hqq c
    exact .cons hc hfirst (ih hnd fun hpos => hqq (hpos.trans_le hfirst.remainder_le))

end Assign

/-! ### The allocation -/

theorem adjustFor_eq (t : Transport) (s : Credits) :
    adjustFor t s = adjustAllocation t (takesPart t s) (fewQuota t) s := by
  cases t with
  | brEdr => rfl
  | le => rfl

theorem linksOf_eq {t : Transport} {s : Credits} (hlinks : s.links t ≠ 0) (high : Bool) :
    s.linksOf t high = ofPriority (takesPart t s) high s (List.finRange 16) :=
  if_neg hlinks

theorem quotaSum_const {s : Credits} {cs : List LcbId} {q : ℕ} (h : ∀ c ∈ cs, s.quota c = q) :
    s.quotaSum cs = cs.length * q := by
  rw [Credits.quotaSum, List.map_congr_left h, List.map_const', List.sum_replicate, smul_eq_mul]

variable {t : Transport} {s : Credits}

theorem length_linksOf_true (hlinks : s.links t ≠ 0) :
    (s.linksOf t true).length = ((List.finRange 16).filter fun c =>
      takesPart t s (s.lcb c) && (s.lcb c).highPriority).length := by
  rw [linksOf_eq hlinks, ofPriority]
  simp only [beq_true]

theorem length_linksOf_false (hlinks : s.links t ≠ 0) :
    (s.linksOf t false).length = ((List.finRange 16).filter fun c =>
      takesPart t s (s.lcb c) && !(s.lcb c).highPriority).length := by
  rw [linksOf_eq hlinks, ofPriority]
  simp only [beq_false]

/-- How many buffers are left for the links of low priority. -/
def lowQuota (t : Transport) (s : Credits) (hiQuota : ℕ) : ℕ :=
  if (s.linksOf t true).length * hiQuota < s.bufs t
  then s.bufs t - (s.linksOf t true).length * hiQuota else 1

/-- The round robin quota, and quota and remainder for the links of low priority. -/
def lowShares (t : Transport) (low lowQuota : ℕ) : ℕ × ℕ × ℕ :=
  if low > lowQuota then (lowQuota, fewQuota t, fewQuota t)
  else if low > 0 then (0, lowQuota / low, lowQuota % low)
  else (0, fewQuota t, fewQuota t)

/-- The quota of high priority is known, and given out with the others. -/
theorem adjustFor_eq_some {hiQuota : ℕ} (hlinks : s.links t ≠ 0)
    (hhi : hiPriQuota (s.linksOf t true).length (if (s.linksOf t false).length = 0 then 0 else 1)
      (s.bufs t) 5 = some hiQuota) :
    ∃ unacked, adjustFor t s = some ((List.finRange 16).foldl
      (assignQuota t (takesPart t s) hiQuota
        (lowShares t (s.linksOf t false).length (lowQuota t s hiQuota)).2.1)
      ({ s.setUnacked t unacked with
          roundRobinQuota := Function.update s.roundRobinQuota t
            (lowShares t (s.linksOf t false).length (lowQuota t s hiQuota)).1 },
        (lowShares t (s.linksOf t false).length (lowQuota t s hiQuota)).2.2)).1 := by
  rw [adjustFor_eq, adjustAllocation, if_neg hlinks]
  simp only [lowQuota, lowShares, length_linksOf_true hlinks, length_linksOf_false hlinks] at hhi ⊢
  rw [hhi]
  generalize ((List.finRange 16).filter fun c =>
    takesPart t s (s.lcb c) && (s.lcb c).highPriority).length = hi
  generalize ((List.finRange 16).filter fun c =>
    takesPart t s (s.lcb c) && !(s.lcb c).highPriority).length = low
  simp only [Option.bind_eq_bind, Option.bind_some, Option.pure_def]
  generalize (if hi * hiQuota < s.bufs t then s.bufs t - hi * hiQuota else 1) = lowQuota
  by_cases hmany : low > lowQuota
  · simp only [if_pos hmany]
    exact ⟨_, rfl⟩
  · by_cases hlow : low > 0
    · simp only [if_neg hmany, if_pos hlow]
      exact ⟨_, rfl⟩
    · simp only [if_neg hmany, if_neg hlow]
      exact ⟨_, rfl⟩

theorem adjustFor_eq_none (hlinks : s.links t ≠ 0)
    (hhi : hiPriQuota (s.linksOf t true).length (if (s.linksOf t false).length = 0 then 0 else 1)
      (s.bufs t) 5 = none) : adjustFor t s = none := by
  rw [adjustFor_eq, adjustAllocation, if_neg hlinks]
  simp only [length_linksOf_true hlinks, length_linksOf_false hlinks] at hhi
  dsimp only
  rw [hhi]
  rfl

theorem fewQuota_le (t : Transport) : fewQuota t ≤ 1 := by
  cases t with
  | brEdr => exact le_rfl
  | le => exact Nat.zero_le 1

/-- A quota that is given to some links with one more does not wrap around. -/
theorem lowShares_lt (t : Transport) (low : ℕ) {lowQuota : ℕ} (hquota : lowQuota < 65536)
    (hleft : 0 < (lowShares t low lowQuota).2.2) : (lowShares t low lowQuota).2.1 + 1 < 65536 := by
  have hfew := fewQuota_le t
  unfold lowShares at hleft ⊢
  split at hleft
  case isTrue hmany =>
    rw [if_pos hmany]
    dsimp only
    omega
  case isFalse hmany =>
    rw [if_neg hmany]
    split at hleft
    case isTrue hlow =>
      rw [if_pos hlow]
      dsimp only at hleft ⊢
      have htwo : 2 ≤ low := by
        by_contra hone
        obtain rfl : low = 1 := by omega
        rw [Nat.mod_one] at hleft
        exact lt_irrefl 0 hleft
      have hhalf : lowQuota / low ≤ lowQuota / 2 := Nat.div_le_div_left htwo Nat.two_pos
      omega
    case isFalse hlow =>
      rw [if_neg hlow]
      dsimp only
      omega

/-- What each link gets, and how much that is together. -/
theorem adjustFor_gives {hiQuota : ℕ} (hlinks : s.links t ≠ 0) (hbufs : s.bufs t < 65536)
    (hhi : hiPriQuota (s.linksOf t true).length (if (s.linksOf t false).length = 0 then 0 else 1)
      (s.bufs t) 5 = some hiQuota) {rr qq r : ℕ}
    (hshares : lowShares t (s.linksOf t false).length (lowQuota t s hiQuota) = (rr, qq, r)) :
    ∃ s', adjustFor t s = some s' ∧
      s'.quotaSum (s.linksOf t true) = (s.linksOf t true).length * hiQuota ∧
      (∀ c ∈ s.linksOf t false, qq ≤ s'.quota c) ∧
      s'.quotaSum (s.linksOf t false) ≤ qq * (s.linksOf t false).length + r ∧
      s'.roundRobinQuota t = rr := by
  have hquota : lowQuota t s hiQuota < 65536 := by
    unfold lowQuota
    split
    · exact (Nat.sub_le _ _).trans_lt hbufs
    · decide
  have hqq := lowShares_lt t (s.linksOf t false).length hquota
  obtain ⟨unacked, heq⟩ := adjustFor_eq_some hlinks hhi
  rw [hshares] at heq hqq
  have hall : AllAssigned (takesPart t s) hiQuota qq (List.finRange 16)
      ({ s.setUnacked t unacked with roundRobinQuota := Function.update s.roundRobinQuota t rr }, r)
        _ :=
    foldl_assignQuota t (List.nodup_finRange 16) hqq
  refine ⟨_, heq, ?_, ?_, ?_, ?_⟩
  · rw [linksOf_eq hlinks]
    exact quotaSum_const hall.high
  · rw [linksOf_eq hlinks]
    exact hall.low
  · rw [linksOf_eq hlinks]
    exact Nat.le.intro hall.sum
  · rw [hall.roundRobin]
    exact Function.update_self _ _ _

/-! ### When it is sound -/

theorem linksOf_nil (hlinks : s.links t = 0) (high : Bool) : s.linksOf t high = [] := if_pos hlinks

/-- With no link of low priority, the others get what fits. -/
theorem allocationSound_of_no_low (hbufs : s.bufs t < 65536) (hlow : s.linksOf t false = []) :
    AllocationSound t s := by
  by_cases hlinks : s.links t = 0
  · refine ⟨_, by rw [adjustFor_eq, adjustAllocation, if_pos hlinks]; rfl, .inl ?_⟩
    rw [linksOf_nil hlinks, linksOf_nil hlinks]
    exact ⟨List.forall_mem_nil _, Nat.zero_le _, Function.update_self _ _ _⟩
  · cases hhi : hiPriQuota (s.linksOf t true).length 0 (s.bufs t) 5 with
    | none => exact absurd (hiPriQuota_eq_none_iff.mp hhi) (Nat.not_lt_zero _)
    | some hiQuota =>
      have hfit := (hiPriQuota_eq_some hhi).1
      have hzero : (s.linksOf t false).length = 0 := by rw [hlow, List.length_nil]
      have hshares : lowShares t (s.linksOf t false).length (lowQuota t s hiQuota) =
          (0, fewQuota t, fewQuota t) := by
        rw [hzero, lowShares, if_neg (Nat.not_lt_zero _), if_neg (lt_irrefl 0)]
      obtain ⟨s', heq, hhigh, -, -, hrr⟩ :=
        adjustFor_gives hlinks hbufs (by rw [if_pos hzero]; exact hhi) hshares
      refine ⟨s', heq, .inl ⟨?_, ?_, hrr⟩⟩
      · rw [hlow]
        exact List.forall_mem_nil _
      · rw [hhigh, hlow]
        exact hfit

theorem quota_eq_zero {cs : List LcbId} (h : s.quotaSum cs ≤ 0) : ∀ c ∈ cs, s.quota c = 0 := by
  intro c hc
  have hle : s.quota c ≤ s.quotaSum cs := List.le_sum_of_mem (List.mem_map_of_mem hc)
  exact Nat.le_zero.mp (hle.trans h)

section Shares

variable {hiQuota : ℕ} (hlinks : s.links t ≠ 0) (hbufs : s.bufs t < 65536)
  (hlow : 0 < (s.linksOf t false).length)
  (hhi : hiPriQuota (s.linksOf t true).length (if (s.linksOf t false).length = 0 then 0 else 1)
    (s.bufs t) 5 = some hiQuota)
  (hsum : (s.linksOf t true).length * hiQuota + lowQuota t s hiQuota = s.bufs t)

include hlinks hbufs hlow hhi hsum

/-- There is a buffer for each link of low priority. -/
theorem allocationSound_of_enough (henough : (s.linksOf t false).length ≤ lowQuota t s hiQuota) :
    AllocationSound t s := by
  have hshares : lowShares t (s.linksOf t false).length (lowQuota t s hiQuota) =
      (0, lowQuota t s hiQuota / (s.linksOf t false).length,
        lowQuota t s hiQuota % (s.linksOf t false).length) := by
    rw [lowShares, if_neg (not_lt.mpr henough), if_pos hlow]
  obtain ⟨s', heq, hhigh, hge, hle, hrr⟩ := adjustFor_gives hlinks hbufs hhi hshares
  refine ⟨s', heq, .inl ⟨fun c hc => (Nat.div_pos henough hlow).trans_le (hge c hc), ?_, hrr⟩⟩
  rw [Nat.div_add_mod'] at hle
  rw [hhigh, ← hsum]
  exact Nat.add_le_add_left hle _

/-- There is none for each: with LE the links take turns, with BR/EDR they have quotas as well. -/
theorem allocationSound_iff_of_few (hfew : lowQuota t s hiQuota < (s.linksOf t false).length)
    (hquota : 0 < lowQuota t s hiQuota) : AllocationSound t s ↔ t = .le := by
  have hshares : lowShares t (s.linksOf t false).length (lowQuota t s hiQuota) =
      (lowQuota t s hiQuota, fewQuota t, fewQuota t) := by
    rw [lowShares, if_pos hfew]
  obtain ⟨s', heq, hhigh, hge, hle, hrr⟩ := adjustFor_gives hlinks hbufs hhi hshares
  cases t with
  | le =>
    refine iff_of_true ⟨s', heq, .inr ⟨quota_eq_zero ?_, ?_⟩⟩ rfl
    · rwa [fewQuota, Transport.pick, Nat.zero_mul] at hle
    · rw [hhigh, hrr, hsum]
      exact le_max_left _ _
  | brEdr =>
    refine iff_of_false ?_ (by decide)
    rintro ⟨s'', heq', hsound⟩
    rw [heq] at heq'
    cases heq'
    obtain ⟨-, -, hzero⟩ | ⟨hzero, -⟩ := hsound
    · rw [hrr] at hzero
      exact hquota.ne' hzero
    · obtain ⟨c, hc⟩ := List.exists_mem_of_length_pos hlow
      have hone : 1 ≤ s'.quota c := hge c hc
      rw [hzero c hc] at hone
      exact absurd hone (by decide)

end Shares

/-- The allocation is sound just if there is no link of low priority, or there is a buffer at all
and, with BR/EDR, one for each link of low priority that those of high priority leave. -/
theorem link_allocation_sound_iff (t : Transport) (s : Credits) (hbufs : s.bufs t < 65536) :
    AllocationSound t s ↔
      s.linksOf t false = [] ∨
        0 < s.bufs t ∧
          (t = .brEdr →
            (s.linksOf t true).length * min 5 ((s.bufs t - 1) / (s.linksOf t true).length) +
              (s.linksOf t false).length ≤ s.bufs t) := by
  by_cases hnil : s.linksOf t false = []
  · exact iff_of_true (allocationSound_of_no_low hbufs hnil) (.inl hnil)
  have hlinks : s.links t ≠ 0 := fun hzero => hnil (linksOf_nil hzero false)
  have hlow : 0 < (s.linksOf t false).length := List.length_pos_of_ne_nil hnil
  rw [or_iff_right hnil]
  cases hhi : hiPriQuota (s.linksOf t true).length 1 (s.bufs t) 5 with
  | none =>
    -- the loop that lowers the quota of high priority does not end
    have hzero := hiPriQuota_eq_none_iff.mp hhi
    refine iff_of_false ?_ fun h => absurd h.1 (not_lt.mpr (Nat.le_of_lt_succ hzero))
    rintro ⟨s', heq, -⟩
    rw [adjustFor_eq_none hlinks (by rw [if_neg hlow.ne']; exact hhi)] at heq
    cases heq
  | some hiQuota =>
    have hfit := (hiPriQuota_eq_some hhi).1
    rw [← hiPriQuota_mul hhi]
    rw [← if_neg (c := (s.linksOf t false).length = 0) (t := 0) (e := 1) hlow.ne'] at hhi
    have hquota : lowQuota t s hiQuota = s.bufs t - (s.linksOf t true).length * hiQuota :=
      if_pos (by omega)
    by_cases henough : (s.linksOf t false).length ≤ lowQuota t s hiQuota
    · refine iff_of_true (allocationSound_of_enough hlinks hbufs hlow hhi (by omega) henough) ?_
      exact ⟨by omega, fun _ => by omega⟩
    · rw [allocationSound_iff_of_few hlinks hbufs hlow hhi (by omega) (not_le.mp henough)
        (by omega)]
      cases t with
      | le => exact iff_of_true rfl ⟨by omega, fun h => by cases h⟩
      | brEdr => exact iff_of_false (by decide) fun h => henough (by have := h.2 rfl; omega)

/-- The first `n` links are BR/EDR links of low priority. -/
def lowLinks (n aclBufs : ℕ) : Credits where
  lcb c := { inUse := c.val < n }
  window := Transport.pick aclBufs 8
  bufs := Transport.pick aclBufs 8
  links := Transport.pick n 0

theorem link_allocation_sound_iff_two :
    (lowLinks 2 8).bufs .brEdr < 65536 ∧
      (AllocationSound .brEdr (lowLinks 2 8) ↔
        (lowLinks 2 8).linksOf .brEdr false = [] ∨
          0 < (lowLinks 2 8).bufs .brEdr ∧
            (Transport.brEdr = .brEdr →
              ((lowLinks 2 8).linksOf .brEdr true).length *
                  min 5 (((lowLinks 2 8).bufs .brEdr - 1) /
                    ((lowLinks 2 8).linksOf .brEdr true).length) +
                ((lowLinks 2 8).linksOf .brEdr false).length ≤ (lowLinks 2 8).bufs .brEdr)) :=
  ⟨by decide, link_allocation_sound_iff .brEdr (lowLinks 2 8) (by decide)⟩

/-- Two links with one buffer have quotas of two and one, and take turns as well; with no buffer,
not even one link gets its quota. -/
theorem link_allocation_unsound :
    (adjustFor .brEdr (lowLinks 2 1)).map
        (fun s => (s.quota 0, s.quota 1, s.roundRobinQuota .brEdr)) = some (2, 1, 1) ∧
      ¬AllocationSound .brEdr (lowLinks 2 1) ∧ (adjustFor .brEdr (lowLinks 1 0)).isNone := by
  refine ⟨by decide, ?_, by decide⟩
  rintro ⟨s', heq, hsound⟩
  have hquotas : (adjustFor .brEdr (lowLinks 2 1)).map
      (fun s => (s.quota 0, s.roundRobinQuota .brEdr)) = some (2, 1) := by decide
  rw [heq] at hquotas
  obtain ⟨hquota, hrr⟩ : s'.quota 0 = 2 ∧ s'.roundRobinQuota .brEdr = 1 := by
    simpa using hquotas
  obtain ⟨-, -, hzero⟩ | ⟨hzero, -⟩ := hsound
  · rw [hrr] at hzero
    exact absurd hzero (by decide)
  · have hfirst := hzero 0 (by decide)
    rw [hquota] at hfirst
    exact absurd hfirst (by decide)

end BluetoothStack.L2cap.Link
