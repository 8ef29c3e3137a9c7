import BluetoothStack.L2cap.ErtmRun
import BluetoothStack.L2cap.Segmentation

/-!
# BluetoothStack.L2cap.ErtmAir

What an ERTM sender puts on the air, the first time and again.

A frame is sealed when it is cut, kept without its FCS in `waiting_for_ack_q`, cloned into
`retrans_q` and sealed once more for each retransmission. `AirLog` is the account of the frames on
the air: each is an S-frame, the next frame in number, or one of those in the window once more, with
the same number and the same segment. `Node.Air` is the invariant behind it. It is kept by each
function of the source on its own, also by those that disconnect the channel, so it holds of every
run.
-/

namespace BluetoothStack.L2cap

open BluetoothStack.Lib

/-! ### The frames on the air -/

variable (c : ChanCfg)

/-- `g` is an I-frame with the number and the segment `it` that passes the receiver's checks. -/
structure OnAir (g : List UInt8) (it : Item) : Prop where
  even : frameCtrl g % 2 = 0
  item : frameItem c g = it
  ok : FrameOk (l2cuGetFcsLen c) c.remoteCid g

/-- The frames on the air, and the I-frames among them that were sent for the first time. -/
inductive AirLog : List (List UInt8) → List Item → Prop
  | nil : AirLog [] []
  | sFrame {l : List (List UInt8)} {firsts : List Item} {g : List UInt8} (h : AirLog l firsts)
      (hg : frameCtrl g % 2 = 1) : AirLog (l ++ [g]) firsts
  | first {l : List (List UInt8)} {firsts : List Item} {g : List UInt8} {it : Item}
      (h : AirLog l firsts) (hg : OnAir c g it) (hseq : it.1.val = firsts.length % 64) :
      AirLog (l ++ [g]) (firsts ++ [it])
  /-- the `k`-th frame once more, out of the window that ends with the last one -/
  | again {l : List (List UInt8)} {firsts : List Item} {g : List UInt8} {it : Item} {k : Nat}
      (h : AirLog l firsts) (hg : OnAir c g it) (hk : firsts[k]? = some it)
      (hwin : firsts.length ≤ k + c.peerCfg.txWinSz) : AirLog (l ++ [g]) firsts

/-- Some frame in the window carries `it`. -/
def InWindow (firsts : List Item) (it : Item) : Prop :=
  ∃ k, firsts[k]? = some it ∧ firsts.length ≤ k + c.peerCfg.txWinSz

/-- The invariant, over what it reads of an end. -/
structure AirInv (firsts : List Item) (inUse : Bool) (lower : List (List UInt8))
    (linkQ : List BtHdr) (nextTxSeq : SeqNum) (ackQ retransQ holdQ : List BtHdr) : Prop where
  log : AirLog c lower firsts
  link : ∀ b ∈ linkQ, frameCtrl b.bytes % 2 = 1
  next : inUse = true → nextTxSeq.val = firsts.length % 64
  waiting : ackQ.map BtHdr.item <:+ firsts
  window : ackQ.length ≤ c.peerCfg.txWinSz
  retrans : ∀ b ∈ retransQ, InWindow c firsts b.item
  keptWaiting : ∀ b ∈ ackQ, KeptFrame c.remoteCid b
  keptRetrans : ∀ b ∈ retransQ, KeptFrame c.remoteCid b
  hold : ∀ b ∈ holdQ, SduOk b

def Node.Air (n : Node) : Prop :=
  ∃ firsts, AirInv c firsts n.inUse n.lower n.linkXmitDataQ n.fcrb.nextTxSeq n.fcrb.waitingForAckQ
    n.fcrb.retransQ n.xmitHoldQ

variable {c} {n : Node}

/-- A computation that ends in such a state if it returns. -/
abbrev Sound (c : ChanCfg) (m : Result Node) : Prop := Ensures (fun _ => True) m (Node.Air c)

/-- The same with another result beside the state. -/
abbrev Sound₂ {α : Type} (c : ChanCfg) (m : Result (Node × α)) : Prop :=
  Ensures (fun _ => True) m fun p => p.1.Air c

theorem Node.init_air : Node.init.Air c :=
  ⟨[], .nil, by simp [Node.init], fun _ => rfl, by simp [Node.init], Nat.zero_le _,
    by simp [Node.init], by simp [Node.init], by simp [Node.init], by simp [Node.init]⟩

/-! ### Transmitting -/

/-- A frame that waits for an acknowledgement is in the window. -/
theorem AirInv.inWindow {firsts : List Item} {inUse : Bool} {lower : List (List UInt8)}
    {linkQ ackQ retransQ holdQ : List BtHdr} {next : SeqNum}
    (h : AirInv c firsts inUse lower linkQ next ackQ retransQ holdQ) {it : Item}
    (hit : it ∈ ackQ.map BtHdr.item) : InWindow c firsts it := by
  obtain ⟨before, hfirsts⟩ := h.waiting
  obtain ⟨k, hk⟩ := List.getElem?_of_mem hit
  refine ⟨before.length + k, ?_, ?_⟩
  · rw [← hfirsts, List.getElem?_append_right (Nat.le_add_right _ _), Nat.add_sub_cancel_left, hk]
  · have hwindow := h.window
    rw [← hfirsts, List.length_append, List.length_map]
    omega

section Ertm

variable (hc : c.peerCfg.mode = .ertm) (hcid : c.remoteCid < 65536)

include hc hcid

/-- A frame is sent, again or for the first time. -/
theorem serve_air (h : n.Air c) (huse : n.inUse = true)
    (helig : (n.schedInfo c).rrEligible = true) :
    Ensures (fun _ => True) (l2cFcrGetNextXmitSduSeg c n 0) fun p =>
      ({ p.1 with lower := p.1.lower ++ [p.2.bytes] } : Node).Air c := by
  obtain ⟨firsts, h⟩ := h
  cases hq : n.fcrb.retransQ with
  | cons b q =>
    have hkept := h.keptRetrans b (by simp [hq])
    obtain ⟨k, hk, hwin⟩ := h.retrans b (by simp [hq])
    refine (nextAgain_spec hc hkept.toHoldsIFrame hq).forget.mono ?_
    rintro ⟨n', b'⟩ ⟨hn', hframe, hok⟩
    dsimp only at hn' hframe hok
    rw [prepareFcrb_ertm hc, if_pos rfl] at hn'
    subst hn'
    -- the frame is sent again with the number and segment it had
    have hair : OnAir c b'.bytes b.item := by
      refine ⟨hframe.even, ?_, hkept.cid ▸ hok⟩
      rw [frameItem, hframe.txSeq, hframe.seg]
      rfl
    exact ⟨firsts, .again h.log hair hk hwin, h.link, h.next, h.waiting, h.window,
      fun x hx => h.retrans x (by simp [hq, hx]), h.keptWaiting,
      fun x hx => h.keptRetrans x (by simp [hq, hx]), h.hold⟩
  | nil =>
    obtain ⟨hwin, hhold⟩ := rrEligible_ertm hc helig hq
    obtain ⟨b, rest, hb⟩ := List.exists_cons_of_ne_nil hhold
    have hsdu : SduOk b := h.hold b (by simp [hb])
    refine (nextSduSeg_spec hc hq hb (hsdu.cuttable c.txMps)).forget.mono ?_
    rintro ⟨n', b'⟩ ⟨w, -, hitem, hn', hframe, hsent⟩
    obtain ⟨hkept, hok⟩ := hsent hcid
    dsimp only at hn' hframe hok
    rw [prepareFcrb_ertm hc, if_neg (by decide)] at hn'
    subst hn'
    have hair : OnAir c b'.bytes w.item := by
      refine ⟨hframe.even, ?_, hok⟩
      rw [frameItem, hframe.txSeq, hframe.seg, hitem]
    have hnext := h.next huse
    refine ⟨firsts ++ [w.item], .first h.log hair ?_, h.link, fun _ => ?_, ?_, ?_, ?_, ?_, ?_, ?_⟩
    · rw [hitem]
      exact hnext
    · simp [hnext]
    · obtain ⟨before, hfirsts⟩ := h.waiting
      exact ⟨before, by simp [← hfirsts]⟩
    · simpa using hwin
    · simp [hq]
    · intro x hx
      exact (List.mem_append.mp hx).elim (h.keptWaiting x) fun hx =>
        List.mem_singleton.mp hx ▸ hkept
    · simp [hq]
    · intro x hx
      exact (List.mem_append.mp hx).elim
        (fun hx => hsdu.left c.txMps c.localCid x (Option.mem_toList.mp hx))
        fun hx => h.hold x (by simp [hb, hx])

theorem linkAct_air (h : n.Air c) (a : LinkAct) : Sound c (linkAct c n a) := by
  cases a with
  | toLower =>
    rw [linkAct]
    cases hq : n.linkXmitDataQ with
    | nil => exact h
    | cons b q =>
      obtain ⟨firsts, h⟩ := h
      exact ⟨firsts, .sFrame h.log (h.link b (by simp [hq])), fun x hx =>
        h.link x (by simp [hq, hx]),
        h.next, h.waiting, h.window, h.retrans, h.keptWaiting, h.keptRetrans, h.hold⟩
  | serve =>
    rw [linkAct]
    split
    next hserve =>
      rw [Bool.and_eq_true, Bool.and_eq_true] at hserve
      exact (serve_air hc hcid h hserve.1.1 hserve.2).bind fun p hp => hp
    next => exact h
  | write sdu =>
    rw [linkAct]
    split
    next =>
      obtain ⟨firsts, h⟩ := h
      refine ⟨firsts, h.log, h.link, h.next, h.waiting, h.window, h.retrans, h.keptWaiting,
        h.keptRetrans, fun b hb => ?_⟩
      exact (List.mem_append.mp hb).elim (h.hold b) fun hb => List.mem_singleton.mp hb ▸
        { sdu with }
    next => exact h
  | disconnectReq =>
    rw [linkAct]
    split
    next => exact h
    next => exact h

theorem runActs_air (acts : List LinkAct) (h : n.Air c) : Sound c (runActs c n acts) := by
  induction acts generalizing n with
  | nil => exact h
  | cons a acts ih => exact (linkAct_air hc hcid h a).bind fun n' hn' => ih hn'

theorem callOut_air (h : n.Air c) : Sound c (callOut c n) := by
  unfold callOut
  split
  next => exact h
  next acts env _ => exact runActs_air (n := { n with env := env }) hc hcid acts h

omit hc hcid in
theorem release_air (h : n.Air c) : (l2cuReleaseCcb n).Air c := by
  obtain ⟨firsts, h⟩ := h
  exact ⟨firsts, h.log, h.link, nofun, List.nil_suffix, Nat.zero_le _, nofun, nofun, nofun, nofun⟩

theorem l2cuDisconnectChnl_air (h : n.Air c) : Sound c (l2cuDisconnectChnl c n) :=
  (callOut_air hc hcid h).bind fun _ h' => callOut_air hc hcid (release_air h')

omit hc hcid in
theorem startPoll_air (h : n.Air c) (pf : Nat) : (startPoll n pf).Air c := by
  unfold startPoll
  split
  next => exact h
  next => exact h

theorem l2cFcrSendSFrame_air (h : n.Air c) (sup : Sup) {pf : Nat}
    (hpf : pf = 0 ∨ pf = pBit ∨ pf = fBit) : Sound c (l2cFcrSendSFrame c n sup pf) := by
  unfold l2cFcrSendSFrame
  split
  next => exact h
  next =>
    obtain ⟨firsts, h⟩ := startPoll_air h pf
    have hodd := (sFrameBuf_isSFrame (c := c) sup n.fcrb.nextSeqExpected hpf).odd
    have hqueued : ∀ b ∈ (startPoll n pf).linkXmitDataQ ++
        [{ sFrameBuf c sup n.fcrb.nextSeqExpected pf with event := 0, layerSpecific := 0 }],
        frameCtrl b.bytes % 2 = 1 := by
      intro b hb
      exact (List.mem_append.mp hb).elim (h.link b) fun hb => List.mem_singleton.mp hb ▸ hodd
    refine Ensures.bind (callOut_air hc hcid ⟨firsts, h.log, hqueued, h.next, h.waiting, h.window,
      h.retrans, h.keptWaiting, h.keptRetrans, h.hold⟩) ?_
    exact fun n' h' => h'

omit hc hcid in
/-- Cloning for retransmission does not fail, and keeps number and segment. -/
theorem cloneForRetrans_kept {q : List BtHdr} (h : ∀ b ∈ q, KeptFrame c.remoteCid b) :
    ∃ q', cloneForRetrans q = .ok q' ∧ (∀ b ∈ q', KeptFrame c.remoteCid b) ∧
      q'.map BtHdr.item = q.map BtHdr.item := by
  induction q with
  | nil => exact ⟨[], rfl, by simp, rfl⟩
  | cons b q ih =>
    have hb := h b List.mem_cons_self
    have hin : b.offset + b.len ≤ b.data.length := hb.inside
    obtain ⟨b', hb'⟩ := cloneBuf_returns b b.offset hb.size hin
    obtain ⟨-, -, rfl⟩ := (cloneBuf_spec b b.offset b.len).of_ok hb'
    obtain ⟨q', hq', hkept, hitems⟩ := ih fun x hx => h x (List.mem_cons_of_mem _ hx)
    obtain ⟨hholds, htx, hseg, hcid⟩ :=
      clone_same hb.toHoldsIFrame b.len b.offset b.layerSpecific 0 le_rfl hin rfl
    refine ⟨_, by rw [cloneForRetrans, hb', ok_bind, hq']; rfl, ?_, ?_⟩
    · refine List.forall_mem_cons.mpr ⟨⟨hholds, ?_, hb.size, hcid.trans hb.cid⟩, hkept⟩
      rw [clone_data_length hin]
    · rw [List.map_cons, List.map_cons, hitems, BtHdr.item, htx, hseg]
      rfl

theorem retransmitIFrames_air (h : n.Air c) (txSeq : Nat) :
    Sound₂ c (retransmitIFrames c n txSeq) := by
  unfold retransmitIFrames
  split
  next => exact (l2cuDisconnectChnl_air hc hcid h).bind fun _ h' => h'
  next =>
  split
  next => exact h
  next =>
  obtain ⟨firsts, h⟩ := h
  have hpicked : ∀ b ∈ retransNodes n.fcrb.waitingForAckQ txSeq, KeptFrame c.remoteCid b :=
    fun b hb => h.keptWaiting b (retransNodes_subset hb)
  obtain ⟨clones, hrun, hkept, hitems⟩ := cloneForRetrans_kept hpicked
  have hclones : ∀ b ∈ clones, InWindow c firsts b.item := by
    intro b hb
    obtain ⟨a, ha, heq⟩ := List.mem_map.mp (hitems ▸ List.mem_map_of_mem hb)
    exact heq ▸ h.inWindow (List.mem_map_of_mem (retransNodes_subset ha))
  rw [hrun, ok_bind]
  -- sending all frames again flushes the queues first, sending one does not
  have hair : (enqueueRetrans (flushForRetrans c n txSeq) clones).Air c := by
    unfold flushForRetrans enqueueRetrans
    split
    next =>
      exact ⟨firsts, h.log, fun b hb => h.link b (List.mem_of_mem_filter hb), h.next, h.waiting,
        h.window, by simpa using hclones, h.keptWaiting, by simpa using hkept, h.hold⟩
    next =>
      refine ⟨firsts, h.log, h.link, h.next, h.waiting, h.window, fun b hb => ?_, h.keptWaiting,
        fun b hb => ?_, h.hold⟩
      · exact (List.mem_append.mp hb).elim (h.retrans b) (hclones b)
      · exact (List.mem_append.mp hb).elim (h.keptRetrans b) (hkept b)
  refine (callOut_air hc hcid hair).bind fun n' h' => ?_
  change (countTry n').Air c
  unfold countTry
  split
  next => exact h'
  next => exact h'

/-! ### Receiving -/

omit hc hcid in
theorem restartTimer_air (h : n.Air c) : (restartTimer n).Air c := by
  unfold restartTimer
  split
  next => exact h
  next => exact h

theorem processReqseq_air (h : n.Air c) (ctrl : Nat) : Sound₂ c (processReqseq c n ctrl) := by
  unfold processReqseq
  split
  next => exact restartTimer_air h
  next =>
  dsimp only
  split
  next => exact (l2cuDisconnectChnl_air hc hcid h).bind fun _ h' => h'
  next hacked =>
  split
  next =>
    refine (releaseAcked_spec (not_lt.mp hacked)).bind fun ⟨q, full⟩ hq => ?_
    -- the frames that are left are the last ones
    obtain rfl : q = _ := hq
    obtain ⟨firsts, h⟩ := h
    have hair : (releaseFrames n (reqSeqOf ctrl)
        (n.fcrb.waitingForAckQ.drop (seqDiff (reqSeqOf ctrl) n.fcrb.lastRxAck))).Air c := by
      refine ⟨firsts, h.log, h.link, h.next, ?_, ?_, h.retrans, fun b hb => ?_, h.keptRetrans,
        h.hold⟩
      · rw [releaseFrames, List.map_drop]
        exact (List.drop_suffix _ _).trans h.waiting
      · exact (List.drop_sublist _ _).length_le.trans h.window
      · exact h.keptWaiting b (List.mem_of_mem_drop hb)
    have hdone : Sound c (txComplete c (releaseFrames n (reqSeqOf ctrl)
        (n.fcrb.waitingForAckQ.drop (seqDiff (reqSeqOf ctrl) n.fcrb.lastRxAck))) full) := by
      unfold txComplete
      split
      next => exact callOut_air hc hcid hair
      next => exact hair
    exact hdone.bind fun _ h' => restartTimer_air h'
  next => exact restartTimer_air h

theorem sFrameAction_air (h : n.Air c) (ctrl : Nat) : Sound₂ c (sFrameAction c n ctrl) := by
  have hagain := retransmitIFrames_air (n := { n with fcrb := { n.fcrb with remoteBusy := false } })
    hc hcid h
  unfold sFrameAction
  dsimp only
  split
  next =>
    split
    next => exact hagain _
    next => exact h
  next => exact hagain _
  next => exact h
  next => exact hagain _

theorem answerPoll_air (h : n.Air c) : Sound c (answerPoll c n) := by
  unfold answerPoll
  split
  next => exact (l2cFcrSendSFrame_air hc hcid h _ (.inr (.inr rfl))).bind fun _ h' => h'
  next => exact h

theorem processSFrame_air (h : n.Air c) (ctrl : Nat) : Sound c (processSFrame c n ctrl) := by
  have hpoll : (pollReceived n ctrl).Air c := by
    unfold pollReceived
    split
    next => exact h
    next => exact h
  refine (sFrameAction_air hc hcid hpoll ctrl).bind fun ⟨n', ok⟩ h' => ?_
  cases ok with
  | true => exact answerPoll_air hc hcid h'
  | false => exact h'

theorem csmData_air (h : n.Air c) (b : BtHdr) : Sound c (csmData c n b) := by
  unfold csmData
  split
  next => exact callOut_air (n := { n with delivered := n.delivered ++ [b.bytes] }) hc hcid h
  next => exact h

theorem appendToRxSdu_air (h : n.Air c) (sdu b : BtHdr) (sar : Sar) :
    Sound₂ c (appendToRxSdu c n sdu b sar) := by
  unfold appendToRxSdu
  split
  next => exact h
  next =>
  split
  next => exact h
  next =>
  dsimp only
  split
  next =>
    exact (csmData_air (n := { n with fcrb := { n.fcrb with pRxSdu := none } }) hc hcid h _).bind
      fun _ h' => h'
  next => exact h

theorem doSarReassembly_air (h : n.Air c) (b : BtHdr) (ctrl : Nat) :
    Sound₂ c (doSarReassembly c n b ctrl) := by
  unfold doSarReassembly
  split
  next => exact h
  next => exact (csmData_air hc hcid h b).bind fun _ h' => h'
  next => exact h
  next =>
    split
    next => exact h
    next =>
    dsimp only
    split
    next => exact h
    next =>
      generalize hm : ({ n with fcrb := _ } : Node) = m
      have hair : m.Air c := hm ▸ h
      exact appendToRxSdu_air hc hcid hair _ _ _
  next => exact h
  next => exact appendToRxSdu_air hc hcid h _ _ _

theorem outOfSequence_air (h : n.Air c) (b : BtHdr) (txSeq : SeqNum) :
    Sound c (outOfSequence c n b txSeq) := by
  unfold outOfSequence
  dsimp only
  split
  next => exact h
  next =>
  split
  next =>
    split
    next => trivial
    next =>
    split
    next => exact h
    next => exact h
  next =>
  split
  next => exact h
  next =>
  split
  next =>
    exact (l2cFcrSendSFrame_air (n := { n with fcrb := { n.fcrb with rejSent := true } }) hc hcid h
      _ (.inl rfl)).bind fun _ h' => h'
  next =>
    exact (l2cFcrSendSFrame_air
      (n := { n with fcrb := { n.fcrb with srejRcvHoldQ := _, srejSent := true } }) hc hcid h _
      (.inl rfl)).bind fun _ h' => h'

theorem ackIFrame_air (h : n.Air c) (delayAck : Bool) : Sound c (ackIFrame c n delayAck) := by
  unfold ackIFrame
  dsimp only
  split
  next =>
    split
    next => exact h
    next =>
    split
    next => exact l2cFcrSendSFrame_air hc hcid h _ (.inl rfl)
    next => exact h
  next => exact h

theorem inSequence_air (h : n.Air c) (b : BtHdr) (ctrl : Nat) (delayAck : Bool) :
    Sound c (inSequence c n b ctrl delayAck) := by
  refine (doSarReassembly_air (n := { n with fcrb := { n.fcrb with
    rejSent := false, srejSent := false, nextSeqExpected := (txSeqOf ctrl).next } }) hc hcid h b
    ctrl).bind fun ⟨n', ok⟩ h' => ?_
  cases ok with
  | true => exact ackIFrame_air hc hcid h' delayAck
  | false => exact l2cuDisconnectChnl_air hc hcid h'

theorem processIFrame_air (h : n.Air c) (b : BtHdr) (ctrl : Nat) (delayAck : Bool) :
    Sound c (processIFrame c n b ctrl delayAck) := by
  have hfinal : Sound₂ c (finalReceived c n ctrl) := by
    unfold finalReceived
    split
    next => exact retransmitIFrames_air hc hcid h _
    next => exact h
  refine hfinal.bind fun ⟨n', ok⟩ h' => ?_
  dsimp only
  split
  next => exact h'
  next =>
  split
  next => exact outOfSequence_air hc hcid h' b _
  next => exact inSequence_air hc hcid h' b ctrl delayAck

theorem processHeld_air (h : n.Air c) (b : BtHdr) : Sound c (processHeld c n b) := by
  unfold processHeld
  split
  next => exact processIFrame_air hc hcid h b _ true
  next => exact h

theorem rejAfterHeld_air (h : n.Air c) : Sound c (rejAfterHeld c n) := by
  unfold rejAfterHeld
  split
  next =>
    exact l2cFcrSendSFrame_air
      (n := { n with fcrb := { n.fcrb with rejAfterSrej := false, rejSent := true } }) hc hcid h _
      (.inl rfl)
  next => exact h

theorem drainHoldQ_air (q : List BtHdr) (h : n.Air c) : Sound c (drainHoldQ c n q) := by
  induction q generalizing n with
  | nil => exact h
  | cons b q ih =>
    exact (processHeld_air hc hcid h b).bind fun _ h₁ =>
      (rejAfterHeld_air hc hcid h₁).bind fun _ h₂ => ih h₂

theorem processHoldQ_air (h : n.Air c) : Sound c (processHoldQ c n) := by
  unfold processHoldQ
  split
  next =>
    refine (drainHoldQ_air (n := { n with fcrb := { n.fcrb with srejRcvHoldQ := [] } }) hc hcid
      n.fcrb.srejRcvHoldQ h).bind fun n' h' => ?_
    unfold ackHeld
    split
    next => exact l2cFcrSendSFrame_air hc hcid h' _ (.inl rfl)
    next => exact h'
  next => exact h

theorem sendMore_air (h : n.Air c) : Sound c (sendMore c n) := by
  unfold sendMore
  split
  next => exact callOut_air hc hcid h
  next => exact h

theorem processFrame_air (h : n.Air c) (b : BtHdr) (ctrl : Nat) :
    Sound c (processFrame c n b ctrl) := by
  refine (processReqseq_air hc hcid h ctrl).bind fun ⟨n₁, ok⟩ h₁ => ?_
  dsimp only
  split
  next => exact h₁
  next =>
  have hdispatch : Sound c (dispatchFrame c n₁ b ctrl) := by
    unfold dispatchFrame
    split
    next => exact processSFrame_air hc hcid h₁ ctrl
    next => exact processIFrame_air hc hcid h₁ b ctrl false
  refine hdispatch.bind fun n₂ h₂ => ?_
  split
  next => exact h₂
  next => exact (processHoldQ_air hc hcid h₂).bind fun _ h₃ => sendMore_air hc hcid h₃

theorem l2cFcrProcPdu_air (h : n.Air c) (b : BtHdr) : Sound c (l2cFcrProcPdu c n b) := by
  unfold l2cFcrProcPdu
  dsimp only
  split
  next => exact h
  next =>
  split
  next => exact h
  next =>
  split
  next =>
    split
    next =>
      split
      next => exact (l2cFcrSendSFrame_air hc hcid h _ (.inr (.inr rfl))).bind fun _ h' => h'
      next => exact h
    next =>
      refine processFrame_air hc hcid ?_ _ _
      exact h
  next => exact processFrame_air hc hcid h _ _

theorem l2cRcvAclData_air (h : n.Air c) (g : List UInt8) : Sound c (l2cRcvAclData c n g) := by
  unfold l2cRcvAclData
  split
  next => exact h
  next =>
  split
  next => exact h
  next =>
  split
  next => exact h
  next =>
  split
  next => exact l2cFcrProcPdu_air hc hcid h _
  next => exact h

/-! ### Runs -/

theorem l2cFcrProcTout_air (h : n.Air c) : Sound c (l2cFcrProcTout c n) := by
  have hpoll : ∀ m : Node, m.Air c →
      Sound c (if !m.fcrb.srejSent && !m.fcrb.rejSent then l2cFcrSendSFrame c m .rr pBit
        else .ok m) := by
    intro m hm
    split
    next => exact l2cFcrSendSFrame_air hc hcid hm _ (.inr (.inl rfl))
    next => exact hm
  unfold l2cFcrProcTout
  dsimp only
  split
  next =>
    exact l2cuDisconnectChnl_air (n := { n with fcrb := { n.fcrb with numTries := _ } }) hc hcid h
  next =>
  split
  next => exact hpoll { n with fcrb := { n.fcrb with numTries := _ } } h
  next => exact hpoll n h

theorem nodeStep_air (h : n.Air c) (e : Event) : Sound c (nodeStep c n e) := by
  cases e with
  | rx g => exact l2cRcvAclData_air hc hcid h g
  | timeout =>
    rw [nodeStep]
    split
    next => exact l2cFcrProcTout_air hc hcid h
    next => exact h
  | ackTimeout =>
    rw [nodeStep, l2cFcrProcAckTout]
    split
    next => exact l2cFcrSendSFrame_air hc hcid h _ (.inl rfl)
    next => exact h
  | acts as => exact runActs_air hc hcid as h

theorem nodeRun_air (es : List TimedEvent) (h : n.Air c) : Sound c (nodeRun c n es) := by
  induction es generalizing n with
  | nil => exact h
  | cons e es ih =>
    exact (nodeStep_air (n := { n with env := e.2 }) hc hcid h e.1).bind fun _ h' => ih h'

end Ertm

/-! ### At the receiver -/

/-- The buffer in which a frame reaches `l2c_fcr_proc_pdu`. -/
def rcvBuf (g : List UInt8) : BtHdr where
  len := g.length - l2capPktOverhead
  offset := hciDataPreambleSize + l2capPktOverhead
  data := List.replicate hciDataPreambleSize 0 ++ g

theorem rcvBuf_getU16 (g : List UInt8) (i : Nat) : (rcvBuf g).getU16 (4 + i) = rd16 g i := by
  rw [BtHdr.getU16, ← rd16_drop]
  rfl

/-- A frame that passes the checks is processed by an open end, if that does not wait for the answer
to a poll. -/
theorem FrameOk.processed {r : ChanCfg} {g : List UInt8}
    (h : FrameOk (l2cuGetFcsLen r) r.localCid g) {m : Node} (ho : m.isOpen = true)
    (hwait : m.fcrb.waitAck = false) :
    l2cRcvAclData r m g =
      processFrame r m ((rcvBuf g).behindCtrl r) (frameCtrl g &&& not16 fBit) := by
  have hlong := h.long
  have hsmall : g.length - 4 < 65536 := h.length ▸ rd16_lt g 0
  have hlen : sub16 (g.length - 4) (l2cuGetFcsLen r) = g.length - 4 - l2cuGetFcsLen r :=
    sub16_of_le hsmall (by omega)
  -- the FCS stands behind the bytes that it is computed over
  have hcrc : l2cuGetFcsLen r ≠ 0 →
      l2cFcrRxGetFcs { rcvBuf g with len := sub16 (rcvBuf g).len (l2cuGetFcsLen r) } =
        (rcvBuf g).getU16 ((rcvBuf g).offset + (rcvBuf g).len - l2cuGetFcsLen r) := by
    intro h0
    have hat : (rcvBuf g).offset + (rcvBuf g).len - l2cuGetFcsLen r =
        4 + (g.length - l2cuGetFcsLen r) := by
      dsimp only [rcvBuf, hciDataPreambleSize, l2capPktOverhead]
      omega
    rw [hat, rcvBuf_getU16, h.fcs h0]
    dsimp only [l2cFcrRxGetFcs, rcvBuf, hciDataPreambleSize, l2capPktOverhead]
    rw [hlen, show g.length - 4 - l2cuGetFcsLen r + 4 = g.length - l2cuGetFcsLen r by omega]
    rfl
  have hpdu : l2cRcvAclData r m g = l2cFcrProcPdu r m (rcvBuf g) := by
    rw [l2cRcvAclData, if_neg (by simp only [l2capPktOverhead]; omega), if_neg (not_not.mpr h.cid),
      if_neg (not_not.mpr h.length), if_pos ho]
    rfl
  have hctrl : (rcvBuf g).getU16 (rcvBuf g).offset = frameCtrl g := rcvBuf_getU16 g 4
  rw [hpdu, l2cFcrProcPdu]
  dsimp only
  rw [if_neg (by dsimp only [rcvBuf, l2capPktOverhead, l2capFcrOverhead]; omega),
    if_neg (fun hbad => hbad.2 (hcrc hbad.1)), if_neg (by simp [hwait])]
  change processFrame r m _ ((rcvBuf g).getU16 (rcvBuf g).offset &&& not16 fBit) = _
  rw [hctrl]
  rfl

theorem AirLog.ok {l : List (List UInt8)} {firsts : List Item} (h : AirLog c l firsts) :
    ∀ g ∈ l, frameCtrl g % 2 = 0 → FrameOk (l2cuGetFcsLen c) c.remoteCid g := by
  induction h with
  | nil => simp
  | sFrame _ hg ih =>
    intro g hmem heven
    obtain hmem | hmem := List.mem_append.mp hmem
    · exact ih g hmem heven
    · rw [List.mem_singleton.mp hmem, hg] at heven
      cases heven
  | first _ hg _ ih | again _ hg _ _ ih =>
    intro g hmem heven
    obtain hmem | hmem := List.mem_append.mp hmem
    · exact ih g hmem heven
    · exact List.mem_singleton.mp hmem ▸ hg.ok

/-- **Every I-frame on the air is accepted, and a retransmission is the frame again.** In every run
of one end, whatever the peer, the timers, the scheduler and the upper layer do: the frames that
have been put on the air are S-frames, first transmissions in the order of their numbers, and
retransmissions out of the window, each with TxSeq, SAR, SDU length and payload of the first
transmission. Each I-frame passes the checks of every end with the same FCS length that it is
addressed to. And a frame can be sent again whenever it is due: neither its cloning nor its sealing
leaves its block. -/
theorem ertm_retransmission_repeats (hc : c.peerCfg.mode = .ertm) (hcid : c.remoteCid < 65536)
    (es : List TimedEvent) (hrun : nodeRun c Node.init es = .ok n) :
    (∃ firsts, AirLog c n.lower firsts) ∧
      (∀ g ∈ n.lower, frameCtrl g % 2 = 0 → ∀ r : ChanCfg, r.localCid = c.remoteCid →
        l2cuGetFcsLen r = l2cuGetFcsLen c → ∀ m : Node, m.isOpen = true → m.fcrb.waitAck = false →
          l2cRcvAclData r m g =
            processFrame r m ((rcvBuf g).behindCtrl r) (frameCtrl g &&& not16 fBit)) ∧
      (∀ txSeq, ∃ q, cloneForRetrans (retransNodes n.fcrb.waitingForAckQ txSeq) = .ok q) ∧
      (n.fcrb.retransQ ≠ [] → ∃ p, l2cFcrGetNextXmitSduSeg c n 0 = .ok p) := by
  obtain ⟨firsts, h⟩ := (nodeRun_air hc hcid es Node.init_air).of_ok hrun
  refine ⟨⟨firsts, h.log⟩, ?_, ?_, ?_⟩
  · intro g hg heven r hr hfcs m ho hwait
    have hok := h.log.ok g hg heven
    rw [← hr, ← hfcs] at hok
    exact hok.processed ho hwait
  · intro txSeq
    have hpicked : ∀ b ∈ retransNodes n.fcrb.waitingForAckQ txSeq, KeptFrame c.remoteCid b :=
      fun b hb => h.keptWaiting b (retransNodes_subset hb)
    obtain ⟨q, hq, -⟩ := cloneForRetrans_kept hpicked
    exact ⟨q, hq⟩
  · intro hne
    obtain ⟨b, q, hq⟩ := List.exists_cons_of_ne_nil hne
    have hkept := h.keptRetrans b (by simp [hq])
    obtain ⟨p, hp⟩ := prepareIFrame_returns c { n.fcrb with retransQ := q } true hkept.long
      hkept.room
    rw [l2cFcrGetNextXmitSduSeg, hq]
    dsimp only
    rw [hp]
    exact ⟨_, rfl⟩

/-- An SDU is sent, another one arrives and the peer rejects the first, which is then sent again. -/
def sentTwice : List TimedEvent :=
  [(.acts [.write (.ofBytes [1, 2]), .serve], []), (.rx [6, 0, 64, 0, 0, 0, 1, 2, 14, 187], []),
    (.rx [4, 0, 64, 0, 5, 0, 23, 20], []), (.acts [.serve], [])]

/-- The second time the frame acknowledges the peer's, and is processed by a peer that has just
opened. -/
theorem ertm_retransmission_repeats_rejected :
    ∃ n, nodeRun .default Node.init sentTwice = .ok n ∧
      n.lower = [[6, 0, 64, 0, 0, 0, 1, 2, 14, 187], [6, 0, 64, 0, 0, 1, 1, 2, 95, 123]] ∧
      (∃ firsts, AirLog .default n.lower firsts) ∧
      l2cRcvAclData .default Node.init [6, 0, 64, 0, 0, 1, 1, 2, 95, 123] =
        processFrame .default Node.init
          ((rcvBuf [6, 0, 64, 0, 0, 1, 1, 2, 95, 123]).behindCtrl .default) 0x0100 := by
  obtain ⟨n, hrun, hlower⟩ : ∃ n, nodeRun .default Node.init sentTwice = .ok n ∧
      n.lower = [[6, 0, 64, 0, 0, 0, 1, 2, 14, 187], [6, 0, 64, 0, 0, 1, 1, 2, 95, 123]] :=
    ⟨_, rfl, rfl⟩
  obtain ⟨hlog, hacc, -⟩ := ertm_retransmission_repeats rfl (by decide) sentTwice hrun
  exact ⟨n, hrun, hlower, hlog,
    hacc _ (by simp [hlower]) rfl .default rfl rfl Node.init rfl rfl⟩

end BluetoothStack.L2cap
