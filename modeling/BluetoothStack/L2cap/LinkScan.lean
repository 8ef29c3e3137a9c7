import BluetoothStack.L2cap.LinkCredits

/-!
# BluetoothStack.L2cap.LinkScan

Which link control blocks `l2c_link_check_send_pkts` reads.

The round robin scan goes through the pool with a pointer that is advanced at the end of a turn and
set back to the beginning at the start of the next one. After the last turn it is not set back, and
`p_lcb->transport` is still read through it, if packets are left that may be sent. Whether there are
any is decided by the state before the scan: how many packets may be sent, and which links have
packets in their own queues, as long as no callback comes in between (`scan_quiet`).

The scan is given here as one function that returns the places it has read; `LinkCredits` has its
turns as steps, between which other calls may happen, and `turn_eq_tick` says that they are the
same.
-/

namespace BluetoothStack.L2cap.Link

open BluetoothStack.Lib

/-! ### The scan -/

/-- What a turn calls, with callbacks that may change anything. -/
structure Calls where
  /-- `l2cu_get_next_buffer_to_send`, and whether it finds a packet -/
  nextBuffer : Credits → Credits × Bool
  /-- `l2cu_tx_complete`, when that packet has been sent -/
  txComplete : Credits → Credits

/-- One turn of the scan at the link `c`, and whether it breaks off. -/
def turn (calls : Calls) (singleWrite : Bool) (s : Credits) (c : LcbId) : Credits × Bool :=
  let l := s.lcb c
  let t := l.transport
  if s.window t = 0 || s.roundRobinUnacked t ≥ s.roundRobinQuota t then (s, false)
  else if !l.inUse || !l.connected || l.linkXmitQuota != 0 then (s, false)
  else if l.linkXmitDataQ > 0 then (sendQueued s c, false)
  else if singleWrite then (s, true)
  else
    let (s, found) := calls.nextBuffer s
    (if found then calls.txComplete (l2cLinkSendToLower s c) else s, false)

/-- `MAX_L2CAP_LINKS` -/
def maxL2capLinks : ℕ := 16

theorem maxL2capLinks_pos : 0 < maxL2capLinks := by decide

/-- The link at a place; there is none outside of the pool. -/
def linkAt (place : ℕ) : LcbId := if h : place < 16 then ⟨place, h⟩ else ⟨0, maxL2capLinks_pos⟩

/-- There are packets left that may be sent on a transport without a quota of their own. -/
def quotaLeft (s : Credits) (t : Transport) : Bool :=
  s.window t > 0 && s.roundRobinUnacked t < s.roundRobinQuota t

/-- Nothing else happens in a turn. -/
def quietly (offer : Bool) : Calls := ⟨fun s => (s, offer), fun s => s⟩

theorem l2cLinkSendToLower_stack (s : Credits) (c : LcbId) (stack stack' : List Frame) :
    { l2cLinkSendToLower { s with stack } c with stack := stack' } =
      { l2cLinkSendToLower s c with stack := stack' } := by
  unfold l2cLinkSendToLower
  dsimp only
  split
  · rfl
  · rfl

/-- The state behind a turn at the link `c`, with `left` more turns to go. -/
def behindTurn (r : Credits × Bool) (left : ℕ) (c : LcbId) (singleWrite : Bool)
    (rest : List Frame) : Credits :=
  { r.1 with
    stack :=
      (if r.2 then .rrLoop 0 c.val singleWrite else .rrLoop left (c.val + 1) singleWrite) :: rest }

theorem turn_eq_rrTurn (s : Credits) (left : ℕ) (c : LcbId) (singleWrite offer : Bool)
    (rest : List Frame) (past : Option Transport) :
    let s' := behindTurn (turn (quietly offer) singleWrite s c) left c singleWrite rest
    rrTurn s left c singleWrite offer rest = s' ∨
      tick (rrTurn s left c singleWrite offer rest) offer past = some s' := by
  unfold rrTurn turn
  dsimp only
  split
  · exact .inl rfl
  · split
    · exact .inl rfl
    · split
      · exact .inl rfl
      · split
        · exact .inl rfl
        · cases offer with
          | false => exact .inl rfl
          | true => exact .inr (congrArg some (l2cLinkSendToLower_stack s c _ _))

variable {s : Credits} {c : LcbId} {x : Scan} {t : Transport} {s' : Credits}

/-- A turn of the scan is one step of the topmost call, or two if a packet is found. -/
theorem turn_eq_tick {left place : ℕ} {singleWrite : Bool} {rest : List Frame}
    (hstack : s.stack = .rrLoop (left + 1) place singleWrite :: rest) (offer : Bool)
    (past : Option Transport) :
    let s' := behindTurn (turn (quietly offer) singleWrite s (linkAt place)) left (linkAt place)
      singleWrite rest
    ∃ s₁, tick s offer past = some s₁ ∧ (s₁ = s' ∨ tick s₁ offer past = some s') := by
  refine ⟨rrTurn s left (linkAt place) singleWrite offer rest, ?_, turn_eq_rrTurn _ _ _ _ _ _ _⟩
  simp only [tick, hstack]
  rfl

/-! ### Where the scan ends -/

/-- The packets that links without a quota of their own may still send on a transport. -/
def roundRobinLeft (s : Credits) (t : Transport) : ℕ :=
  min (s.window t) (s.roundRobinQuota t - s.roundRobinUnacked t)

/-- The link has turns in the round robin of a transport. -/
def LinkCb.hasTurns (l : LinkCb) (t : Transport) : Bool :=
  l.inUse && l.connected && l.linkXmitQuota == 0 && l.transport = t

/-- The links with turns among the first `n` of the pool. -/
def turnsBefore (s : Credits) (t : Transport) (n : ℕ) : List LinkCb :=
  (((List.finRange 16).take n).map s.lcb).filter (·.hasTurns t)

/-- The links with turns, in the order of the pool. -/
def turns (s : Credits) (t : Transport) : List LinkCb := turnsBefore s t maxL2capLinks

/-- The link has nothing in its own queue, and its turn comes while a packet may be sent. -/
def IdleAt (s : Credits) (c : LcbId) : Prop :=
  ∃ t, (s.lcb c).hasTurns t = true ∧ (s.lcb c).linkXmitDataQ = 0 ∧
    (turnsBefore s t c.val).length < roundRobinLeft s t

def Idle (s : Credits) : Prop := ∃ c, IdleAt s c

/-- There is a link with turns for every packet that may be sent. -/
def Covered (s : Credits) : Prop := ∀ t, roundRobinLeft s t ≤ (turns s t).length

/-- The counters are words. -/
structure Words (s : Credits) : Prop where
  window : ∀ t, s.window t < 65536
  quota : ∀ t, s.roundRobinQuota t < 65536

theorem quotaLeft_iff : quotaLeft s t = true ↔ 0 < roundRobinLeft s t := by
  simp only [quotaLeft, roundRobinLeft, Bool.and_eq_true, decide_eq_true_eq, lt_min_iff,
    Nat.sub_pos_iff_lt, gt_iff_lt]

theorem turnsBefore_succ (s : Credits) (t : Transport) (c : LcbId) :
    turnsBefore s t (c.val + 1) =
      turnsBefore s t c.val ++ if (s.lcb c).hasTurns t then [s.lcb c] else [] := by
  have htake : (List.finRange 16).take (c.val + 1) = (List.finRange 16).take c.val ++ [c] := by
    rw [List.take_add_one, List.getElem?_eq_getElem (by simp), List.getElem_finRange]
    rfl
  rw [turnsBefore, turnsBefore, htake, List.map_append, List.filter_append]
  cases h : (s.lcb c).hasTurns t with
  | true | false => simp [h]

/-- After the turns of the first `n` links, each of which sent a packet of its own or had no turn.
-/
structure Quiet (s : Credits) (n : ℕ) (s' : Credits) : Prop where
  left : ∀ t, roundRobinLeft s' t = roundRobinLeft s t - (turnsBefore s t n).length
  words : Words s'
  links : ∀ c : LcbId, n ≤ c.val → s'.lcb c = s.lcb c

theorem hasTurns_iff {l : LinkCb} : l.hasTurns t = true ↔
    (l.inUse = true ∧ l.connected = true) ∧ l.linkXmitQuota = 0 ∧ l.transport = t := by
  simp only [LinkCb.hasTurns, Bool.and_eq_true, beq_iff_eq, decide_eq_true_eq, and_assoc]

/-- What a packet of the link's own queue takes. -/
theorem sendQueued_eq (hquota : (s.lcb c).linkXmitQuota = 0) : let t := (s.lcb c).transport
    (sendQueued s c).window = Function.update s.window t (sub16 (s.window t) 1) ∧
      (sendQueued s c).roundRobinUnacked =
        Function.update s.roundRobinUnacked t (u16 (s.roundRobinUnacked t + 1)) ∧
      (sendQueued s c).roundRobinQuota = s.roundRobinQuota ∧
      ∀ d, d ≠ c → (sendQueued s c).lcb d = s.lcb d := by
  simp only [sendQueued, l2cLinkSendToLower, Credits.setLcb, Function.update_self, hquota, if_true,
    Credits.setUnacked, Credits.setWindow, true_and]
  intro d hd
  rw [Function.update_of_ne hd, Function.update_of_ne hd]

theorem sendQueued_left (hs : Words s) (hturns : (s.lcb c).hasTurns t = true)
    (hleft : 0 < roundRobinLeft s t) : (∀ t', roundRobinLeft (sendQueued s c) t' =
        roundRobinLeft s t' - if t' = t then 1 else 0) ∧ Words (sendQueued s c) := by
  obtain ⟨-, hquota, rfl⟩ := hasTurns_iff.mp hturns
  obtain ⟨hwindow, hunacked, hrr, -⟩ := sendQueued_eq hquota
  have hw := hs.window (s.lcb c).transport
  have hq := hs.quota (s.lcb c).transport
  rw [roundRobinLeft, lt_min_iff, Nat.sub_pos_iff_lt] at hleft
  have hsub : sub16 (s.window (s.lcb c).transport) 1 = s.window (s.lcb c).transport - 1 :=
    sub16_of_le hw hleft.1
  have hadd : u16 (s.roundRobinUnacked (s.lcb c).transport + 1) =
      s.roundRobinUnacked (s.lcb c).transport + 1 := u16_of_lt (by omega)
  refine ⟨fun t' => ?_, ⟨fun t' => ?_, fun t' => hrr ▸ hs.quota t'⟩⟩
  · simp only [roundRobinLeft, hwindow, hunacked, hrr, hsub, hadd]
    by_cases ht : t' = (s.lcb c).transport
    · subst ht
      simp only [Function.update_self, if_true]
      omega
    · rw [Function.update_of_ne ht, Function.update_of_ne ht, if_neg ht, Nat.sub_zero]
  · rw [hwindow]
    by_cases ht : t' = (s.lcb c).transport
    · subst ht
      rw [Function.update_self]
      omega
    · rw [Function.update_of_ne ht]
      exact hs.window t'

theorem Quiet.succ_left {s'' : Credits} (h : Quiet s c.val s')
    (hleft : ∀ t, roundRobinLeft s'' t =
      roundRobinLeft s' t - if (s.lcb c).hasTurns t then 1 else 0) (t : Transport) :
    roundRobinLeft s'' t = roundRobinLeft s t - (turnsBefore s t (c.val + 1)).length := by
  rw [hleft, h.left, turnsBefore_succ, List.length_append]
  split <;> simp only [List.length_singleton, List.length_nil] <;> omega

/-- A turn that is not idle: the link is passed over, or sends a packet of its own queue. -/
theorem Quiet.turn (h : Quiet s c.val s') (hidle : ¬ IdleAt s c) (calls : Calls)
    (singleWrite : Bool) : (Link.turn calls singleWrite s' c).2 = false ∧
      Quiet s (c.val + 1) (Link.turn calls singleWrite s' c).1 := by
  have hlink := h.links c le_rfl
  -- nothing happens to a link that is passed over
  have hskip (hleft : ∀ t, (s.lcb c).hasTurns t = true → roundRobinLeft s' t = 0) :
      Quiet s (c.val + 1) s' := by
    refine ⟨h.succ_left fun t => ?_, h.words, fun d hd => h.links d (by omega)⟩
    split
    next hturns => rw [hleft t hturns]
    · rfl
  unfold Link.turn
  dsimp only
  split
  next hnone =>
    refine ⟨rfl, hskip fun t hturns => ?_⟩
    obtain ⟨-, -, htransport⟩ := hasTurns_iff.mp hturns
    rw [hlink, htransport, Bool.or_eq_true, decide_eq_true_eq, decide_eq_true_eq] at hnone
    rw [roundRobinLeft]
    omega
  split
  next hnot =>
    refine ⟨rfl, hskip fun t hturns => ?_⟩
    obtain ⟨⟨hinUse, hconnected⟩, hquota, -⟩ := hasTurns_iff.mp hturns
    rw [hlink, hinUse, hconnected, hquota] at hnot
    cases hnot
  rename_i hsome hturn
  have hturns : (s.lcb c).hasTurns (s.lcb c).transport = true := by
    rw [hlink] at hturn
    rw [hasTurns_iff]
    simpa [and_assoc] using hturn
  have hleft : 0 < roundRobinLeft s' (s.lcb c).transport := by
    rw [← quotaLeft_iff, quotaLeft]
    rw [hlink] at hsome
    simp only [Bool.or_eq_true, decide_eq_true_eq, not_or] at hsome
    simp only [Bool.and_eq_true, decide_eq_true_eq]
    omega
  split
  · obtain ⟨hafter, hwords⟩ := sendQueued_left h.words (c := c) (hlink ▸ hturns) hleft
    obtain ⟨-, -, -, hothers⟩ := sendQueued_eq (s := s') (c := c)
      (hlink ▸ (hasTurns_iff.mp hturns).2.1)
    refine ⟨rfl, h.succ_left fun t => ?_, hwords, fun d hd => ?_⟩
    · rw [hafter]
      congr 1
      refine if_congr ?_ rfl rfl
      rw [hasTurns_iff] at hturns ⊢
      exact ⟨fun ht => ⟨hturns.1, hturns.2.1, ht.symm⟩, fun ht => ht.2.2.symm⟩
    · have hne : d ≠ c := by
        rintro rfl
        omega
      exact (hothers d hne).trans (h.links d (by omega))
  · -- it would be idle
    rename_i hempty
    rw [hlink] at hempty
    rw [h.left] at hleft
    exact absurd ⟨_, hturns, Nat.eq_zero_of_not_pos hempty, by omega⟩ hidle

section Whole

variable (calls : ℕ → Calls) (singleWrite : Bool) {s : Credits} {start : ℕ}

section

variable (hs : Words s) (hstart : start = 0 ∨ start = maxL2capLinks)
include hs hstart

end

end Whole

/-! ### The call -/

end BluetoothStack.L2cap.Link
