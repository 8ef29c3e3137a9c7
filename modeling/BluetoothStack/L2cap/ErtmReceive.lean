import BluetoothStack.L2cap.ErtmCore

/-!
# BluetoothStack.L2cap.ErtmReceive

Refinement of the receive side of `l2c_fcr.cc` to the abstract machine of `ErtmCore`.

A received PDU does three things, in this order: its ReqSeq releases acknowledged frames
(`Core.AckBy`); an I-frame is dropped, held or accepted (`Core.IFrame`); and frames held
during an SREJ are processed once the missing one has arrived (`Core.After`). Between any
two of these the transmit side may move, because the code calls out. `Core.Pdu` is the
composition, and `l2cFcrProcPdu_spec` says that `l2c_fcr_proc_pdu` refines it.

Reassembly is `sarStep`, a function on byte lists; `doSarReassembly_spec` relates the
buffer that `do_sar_reassembly` fills to it.
-/

namespace BluetoothStack.L2cap

open BluetoothStack.Lib Relation

/-! ### The abstract receive side -/

/-- Append a segment's payload to an SDU of announced length `len`. -/
def collect (len : Nat) (acc payload : List UInt8) (isFinal : Bool) :
    Option (Option (Nat × List UInt8) × Option (List UInt8)) :=
  if len < acc.length + payload.length then none
  else if isFinal ∧ acc.length + payload.length ≠ len then none
  else if isFinal then some (none, some (acc ++ payload))
  else some (some (len, acc ++ payload), none)

/-- Reassembly of one segment: the SDU still incomplete afterwards and the SDU completed by
it, or `none` when the segment does not fit. -/
def sarStep (mtu : Nat) (rx : Option (Nat × List UInt8)) (s : Seg) :
    Option (Option (Nat × List UInt8) × Option (List UInt8)) :=
  match s.sar, rx with
  | .unseg, none => some (none, some s.info)
  | .start, none =>
    if s.info.length < 2 then none
    else if mtu < rd16 s.info 0 then none
    else collect (rd16 s.info 0) [] (s.info.drop 2) false
  | .cont, some (len, acc) => collect len acc s.info false
  | .final, some (len, acc) => collect len acc s.info true
  | _, _ => none

/-- Acknowledgement of every frame before `req`. -/
def Core.ack (k : Core) (req : SeqNum) : Core :=
  { k with lastAck := req, waiting := k.waiting.drop (seqDiff req k.lastAck) }

/-- The effect of a ReqSeq: none, or an acknowledgement in range. -/
inductive Core.AckBy (req : SeqNum) : Core → Core → Prop
  | ignored (k : Core) : AckBy req k k
  | acked (k : Core) (h : seqDiff req k.lastAck ≤ k.waiting.length) : AckBy req k (k.ack req)

variable (c : ChanCfg)

/-- The effect of an I-frame. -/
inductive Core.IFrame (it : Item) : Core → Core → Prop
  | dropped (k : Core) (hne : it.1 ≠ k.expected) : IFrame it k k
  /-- the channel was disconnected on the way -/
  | closed {k k' : Core} (h : k'.isOpen = false) : IFrame it k k'
  /-- held behind the last held frame while an SREJ is outstanding -/
  | held (k : Core) {last : Item} (hsrej : k.srej = true) (hne : it.1 ≠ k.expected)
      (hwin : seqDiff it.1 k.expected < c.ourCfg.txWinSz) (hlast : k.held.getLast? = some last)
      (hnext : it.1 = last.1.next) (hlen : k.held.length < c.ourCfg.txWinSz) :
      IFrame it k { k with held := k.held ++ [it] }
  /-- one frame is missing: held, and an SREJ is sent -/
  | firstHeld (k : Core) (hsrej : k.srej = false) (hne : it.1 ≠ k.expected)
      (hwin : seqDiff it.1 k.expected < c.ourCfg.txWinSz) (hone : seqDiff it.1 k.expected ≤ 1) :
      IFrame it k { k with held := k.held ++ [it], srej := true }
  | accepted (k : Core) {rx : Option (Nat × List UInt8)} {d : Option (List UInt8)}
      (hexp : it.1 = k.expected) (hsar : sarStep c.maxRxMtu k.rx it.2 = some (rx, d)) :
      IFrame it k { k with
        expected := k.expected.next, srej := false, rx := rx, delivered := k.delivered ++ d.toList }

/-- A list of I-frames is processed, with transmit steps in between. -/
inductive Core.Process : List Item → Core → Core → Prop
  | nil {k k' : Core} (h : TxRun c k k') : Process [] k k'
  | cons {it : Item} {its : List Item} {k k₁ k₂ k' : Core} (h : TxRun c k k₁)
      (hi : Core.IFrame c it k₁ k₂) (hr : Process its k₂ k') : Process (it :: its) k k'

/-- The end of `l2c_fcr_proc_pdu`: the held frames are processed if no SREJ is outstanding. -/
inductive Core.After : Core → Core → Prop
  | idle {k k' : Core} (hidle : k.srej = true ∨ k.held = [] ∨ k.isOpen = false)
      (h : TxRun c k k') : After k k'
  | drain {k k' : Core} (hsrej : k.srej = false) (hne : k.held ≠ [])
      (h : Core.Process c k.held { k with held := [] } k') : After k k'

/-- The numbered segment in a frame on the link. -/
def frameItem (g : List UInt8) : Item :=
  (txSeqOf (frameCtrl g), frameSeg (l2cuGetFcsLen c) g)

/-- The I-frames in a frame: itself, or none if it is an S-frame. -/
def frameItems (g : List UInt8) : List Item :=
  if frameCtrl g % 2 = 1 then [] else [frameItem c g]

/-- The effect of a PDU. -/
inductive Core.Pdu (g : List UInt8) : Core → Core → Prop
  /-- the frame fails a check, or comes while a poll is unanswered -/
  | ignored {k k' : Core} (h : TxRun c k k') : Pdu g k k'
  | processed {k k₁ k₂ k' : Core} (hack : Core.AckBy (reqSeqOf (frameCtrl g)) k k₁)
      (hp : Core.Process c (frameItems c g) k₁ k₂) (hafter : Core.After c k₂ k') : Pdu g k k'

variable {c}

variable {its : List Item} {k k₁ k₂ : Core} {m : Nat} {n : Node} {b : BtHdr} {x : Nat}

theorem Core.Process.trans_left (h : TxRun c k k₁) (hp : Core.Process c its k₁ k₂) :
    Core.Process c its k k₂ := by
  cases hp with
  | nil h' => exact .nil (h.trans h')
  | cons h' hi hr => exact .cons (h.trans h') hi hr

theorem Core.Process.trans_right (hp : Core.Process c its k k₁) (h : TxRun c k₁ k₂) :
    Core.Process c its k k₂ := by
  induction hp with
  | nil h' => exact .nil (h'.trans h)
  | cons h' hi _ ih => exact .cons h' hi (ih h)

/-! ### Acknowledgement and S-frames -/

/-- The release loop never meets an empty queue: it runs within the queue's length. -/
theorem releaseAcked_spec {E : Fault → Prop} {q : List BtHdr} (h : m ≤ q.length) :
    Ensures E (releaseAcked m q) fun p => p.1 = q.drop m := by
  induction m generalizing q with
  | zero => exact rfl
  | succ m ih =>
    cases q with
    | nil => simp at h
    | cons b q =>
      unfold releaseAcked
      refine Ensures.bind (ih (by simpa using h)) ?_
      intro p hp
      exact hp

theorem restartTimer_moves (h : n.Wf) : Moves c n (restartTimer n) := by
  unfold restartTimer
  split
  · exact Moves.of_core_eq h rfl
  · exact Moves.of_core_eq { h with } rfl

section

variable (hc : c.peerCfg.mode = .ertm) (h : n.Wf)
include hc h

theorem txComplete_spec (full : Nat) : Ensures IsOverrun (txComplete c n full) (Moves c n) := by
  unfold txComplete
  split
  · exact callOut_spec hc h
  · exact Moves.of_core_eq h rfl

theorem processReqseq_spec (ctrl : Nat) :
    Ensures IsOverrun (processReqseq c n ctrl) fun p =>
      p.1.Wf ∧ (∃ k, Core.AckBy (reqSeqOf ctrl) n.core k ∧ TxRun c k p.1.core) ∧
        (p.2 = false → p.1.core.isOpen = false) := by
  unfold processReqseq
  split
  · exact ⟨(restartTimer_moves (c := c) h).wf, ⟨_, .ignored _, (restartTimer_moves h).run⟩,
      fun hf => by cases hf⟩
  · dsimp only
    split
    -- a ReqSeq that acknowledges more than is out ends the connection
    · refine Ensures.bind (l2cuDisconnectChnl_spec hc h) ?_
      rintro n' ⟨hn', hclosed⟩
      exact ⟨hn'.wf, ⟨_, .ignored _, hn'.run⟩, fun _ => hclosed⟩
    · next hle =>
      rw [gt_iff_lt, not_lt] at hle
      have hack : Core.AckBy (reqSeqOf ctrl) n.core (n.core.ack (reqSeqOf ctrl)) :=
        .acked _ (by simpa only [Node.core, List.length_map] using hle)
      split
      · refine Ensures.bind (releaseAcked_spec hle) ?_
        rintro ⟨q, full⟩ hq
        dsimp only at hq ⊢
        have hwf : (releaseFrames n (reqSeqOf ctrl) q).Wf := by
          refine { h with waiting := ?_ }
          intro b hb
          exact h.waiting b (List.mem_of_mem_drop (hq ▸ hb))
        have hcore : (releaseFrames n (reqSeqOf ctrl) q).core = n.core.ack (reqSeqOf ctrl) := by
          simp only [Node.core, Node.isOpen, releaseFrames, Core.ack, hq, List.map_drop]
        refine Ensures.bind (txComplete_spec hc hwf full) ?_
        intro n' hn'
        have hmoves := hn'.trans (restartTimer_moves hn'.wf)
        exact ⟨hmoves.wf, ⟨_, hack, hcore ▸ hmoves.run⟩, fun hf => by cases hf⟩
      · next hz =>
        rw [not_not] at hz
        have hwf : ({ n with fcrb := { n.fcrb with lastRxAck := reqSeqOf ctrl } } : Node).Wf :=
          { h with }
        have hmoves := restartTimer_moves (c := c) hwf
        refine ⟨hmoves.wf, ⟨_, hack, ?_⟩, fun hf => by cases hf⟩
        have hcore : ({ n with fcrb := { n.fcrb with lastRxAck := reqSeqOf ctrl } } : Node).core
            = n.core.ack (reqSeqOf ctrl) := by
          simp only [Node.core, Node.isOpen, Core.ack, hz, List.drop_zero]
        exact hcore ▸ hmoves.run

theorem sFrameAction_spec (ctrl : Nat) :
    Ensures IsOverrun (sFrameAction c n ctrl) fun p => Moves c n p.1 := by
  have hfree : ({ n with fcrb := { n.fcrb with remoteBusy := false } } : Node).Wf :=
    { h with }
  have hretrans (txSeq : Nat) : Ensures IsOverrun
      (retransmitIFrames c { n with fcrb := { n.fcrb with remoteBusy := false } } txSeq)
      fun p => Moves c n p.1 :=
    (retransmitIFrames_spec hc hfree txSeq).mono fun p hp => ⟨hp.1.wf, hp.1.run⟩
  unfold sFrameAction
  dsimp only
  split
  · split
    · exact hretrans _
    · exact Moves.of_core_eq hfree rfl
  · exact hretrans _
  · exact Moves.of_core_eq { h with } rfl
  · exact hretrans _

theorem answerPoll_spec : Ensures IsOverrun (answerPoll c n) (Moves c n) := by
  unfold answerPoll
  split
  · refine Moves.bind (l2cFcrSendSFrame_spec hc h _ (.inr (.inr rfl))) ?_
    intro n' hn'
    exact Moves.of_core_eq { hn' with } rfl
  · exact Moves.of_core_eq h rfl

theorem processSFrame_spec (ctrl : Nat) :
    Ensures IsOverrun (processSFrame c n ctrl) (Moves c n) := by
  have hpoll : Moves c n (pollReceived n ctrl) := by
    unfold pollReceived
    split
    · exact Moves.of_core_eq { h with } rfl
    · exact Moves.of_core_eq h rfl
  refine Ensures.bind (sFrameAction_spec hc hpoll.wf ctrl) ?_
  rintro ⟨n', allOk⟩ hn'
  cases allOk with
  | true => exact (answerPoll_spec hc hn'.wf).mono fun _ h' => hpoll.trans (hn'.trans h')
  | false => exact hpoll.trans hn'

end

/-! ### Reassembly -/

theorem RxBuf.bytes_length (h : RxBuf b) : b.bytes.length = b.len :=
  BtHdr.bytes_length h.inside

/-- The SDU length that a start segment announces, and the payload behind it. -/
theorem RxBuf.behindSduLen (hb : RxBuf b) (hlen : 2 ≤ b.len) :
    rd16 b.bytes 0 = b.getU16 b.offset ∧
      BtHdr.bytes { b with offset := u16 (b.offset + 2), len := sub16 b.len 2 } =
        b.bytes.drop 2 := by
  constructor
  · rw [BtHdr.bytes, rd16_take (by omega), rd16_drop]
    rfl
  · change List.take (sub16 b.len 2) (List.drop (u16 (b.offset + 2)) b.data) = _
    rw [u16_of_lt hb.offset, sub16_of_le hb.len hlen, BtHdr.bytes, List.drop_take, List.drop_drop]

theorem RxSduOk.bytes_length {L : Nat} (h : RxSduOk L b) : b.bytes.length = b.len := by
  have h₁ := h.len
  have h₂ := h.room
  exact BtHdr.bytes_length (by omega)

/-- Copying a payload behind the bytes received so far. -/
theorem rxSdu_append {L : Nat} {sdu : BtHdr} (hs : RxSduOk L sdu) (hlen : b.bytes.length = b.len)
    (hfit : sdu.len + b.len ≤ L) {sdu' : BtHdr} (h : sdu' = { sdu with
      data := blit sdu.data (sdu.offset + sdu.len) b.bytes, len := u16 (sdu.len + b.len) }) :
    RxSduOk L sdu' ∧ sdu'.bytes = sdu.bytes ++ b.bytes := by
  have hroom := hs.room
  have hbound := hs.bound
  have hu : u16 (sdu.len + b.len) = sdu.len + b.len := u16_of_lt (by omega)
  subst h
  refine ⟨⟨?_, ?_, hbound⟩, ?_⟩
  · simp only [hu]
    exact hfit
  · simp only
    rw [blit_length (by omega)]
    exact hroom
  · have htake : (blit sdu.data (sdu.offset + sdu.len) b.bytes).take _ = _ := take_blit (by omega)
    rw [hlen, Nat.add_assoc] at htake
    change List.take (u16 (sdu.len + b.len)) (List.drop sdu.offset (blit _ _ b.bytes)) = _
    rw [hu, List.take_drop, htake, List.drop_append_of_le_length, ← List.take_drop]
    · rfl
    · rw [List.length_take]
      omega

/-- The buffer of the SDU being received, if any, is as `do_sar_reassembly` allocated it. -/
def RxOk (n : Node) : Prop := ∀ b ∈ n.fcrb.pRxSdu, RxSduOk n.fcrb.rxSduLen b

/-- `n` with another state of reassembly. -/
def Node.setRx (n : Node) (len : Nat) (sdu : Option BtHdr) : Node :=
  { n with fcrb := { n.fcrb with rxSduLen := len, pRxSdu := sdu } }

section Outcome

variable (c)

/-- `l2c_csm_execute` with an SDU, by its bytes. -/
def csmSdu (n : Node) (d : List UInt8) : Result Node :=
  if n.isOpen then callOut c { n with delivered := n.delivered ++ [d] } else .ok n

theorem csmData_eq (n : Node) (b : BtHdr) : csmData c n b = csmSdu c n b.bytes := rfl

/-- What follows an accepted segment: the SDU it completes, if any, is handed over. -/
def passOn (n : Node) : Option (List UInt8) → Result (Node × Bool)
  | none => .ok (n, true)
  | some d => do
    let n ← csmSdu c n d
    pure (n, true)

/-- The outcome of a segment, by what `sarStep` says about it. -/
def SarOutcome (n : Node) (r : Result (Node × Bool)) :
    Option (Option (Nat × List UInt8) × Option (List UInt8)) → Prop
  | none => ∃ len sdu, RxOk (n.setRx len sdu) ∧ r = .ok (n.setRx len sdu, false)
  | some (rx, d) => ∃ len sdu, RxOk (n.setRx len sdu) ∧ (n.setRx len sdu).core.rx = rx ∧
      r = passOn c (n.setRx len sdu) d

theorem appendToRxSdu_outcome {n : Node} (hn : RxOk n) {sdu b : BtHdr}
    (hs : n.fcrb.pRxSdu = some sdu) (hb : b.bytes.length = b.len) (sar : Sar) :
    SarOutcome c n (appendToRxSdu c n sdu b sar)
      (collect n.fcrb.rxSduLen sdu.bytes b.bytes (sar == .final)) := by
  have hok : RxSduOk n.fcrb.rxSduLen sdu := hn sdu hs
  simp only [collect, appendToRxSdu, hok.bytes_length, hb, beq_iff_eq, gt_iff_lt]
  by_cases hlong : n.fcrb.rxSduLen < sdu.len + b.len
  · rw [if_pos hlong, if_pos hlong]
    exact ⟨_, _, hn, rfl⟩
  by_cases hpart : sar = .final ∧ sdu.len + b.len ≠ n.fcrb.rxSduLen
  · rw [if_neg hlong, if_neg hlong, if_pos hpart, if_pos hpart]
    exact ⟨_, _, hn, rfl⟩
  obtain ⟨hok', hbytes⟩ := rxSdu_append hok hb (not_lt.mp hlong) rfl
  rw [if_neg hlong, if_neg hlong, if_neg hpart, if_neg hpart]
  by_cases hfinal : sar = .final
  · rw [if_pos hfinal, if_pos hfinal, csmData_eq, hbytes]
    exact ⟨n.fcrb.rxSduLen, none, (fun x hx => by cases hx), rfl, rfl⟩
  · rw [if_neg hfinal, if_neg hfinal]
    refine ⟨n.fcrb.rxSduLen, some _, fun x hx => ?_, ?_, rfl⟩
    · rw [← Option.some.inj hx]
      exact hok'
    · simp only [Node.core, Node.setRx, Option.map_some, hbytes]

/-- `do_sar_reassembly` does with a segment what `sarStep` says. -/
theorem doSarReassembly_outcome {n : Node} (hn : RxOk n) {b : BtHdr} (hb : RxBuf b) (ctrl : Nat) :
    SarOutcome c n (doSarReassembly c n b ctrl)
      (sarStep c.maxRxMtu n.core.rx ⟨sarOf ctrl, b.bytes⟩) := by
  have hrefused : SarOutcome c n (.ok (n, false)) none := ⟨_, _, hn, rfl⟩
  unfold doSarReassembly
  cases hs : n.fcrb.pRxSdu with
  | none =>
    have hrx : n.core.rx = none := by simp only [Node.core, hs, Option.map_none]
    rw [hrx]
    cases hsar : sarOf ctrl with
    | unseg => exact ⟨n.fcrb.rxSduLen, n.fcrb.pRxSdu, hn, hrx, rfl⟩
    | start =>
      simp only [sarStep, hb.bytes_length]
      by_cases hshort : b.len < l2capSduLenOverhead
      · rw [if_pos hshort, if_pos hshort]
        exact hrefused
      rw [if_neg hshort, if_neg hshort]
      obtain ⟨hread, hbytes⟩ := hb.behindSduLen (not_lt.mp hshort)
      rw [hread]
      by_cases hmtu : c.maxRxMtu < b.getU16 b.offset
      · rw [if_pos hmtu, if_pos hmtu]
        refine ⟨b.getU16 b.offset, n.fcrb.pRxSdu, fun x hx => ?_, rfl⟩
        rw [Node.setRx, hs] at hx
        cases hx
      rw [if_neg hmtu, if_neg hmtu]
      -- the SDU buffer that is allocated for the announced length
      let sdu : BtHdr :=
        { len := 0, offset := obxBufMinOffset
          data := List.replicate (obxBufMinOffset + b.getU16 b.offset) 0 }
      have hsdu : RxSduOk (b.getU16 b.offset) sdu := ⟨Nat.zero_le _, by simp [sdu], rd16_lt _ _⟩
      have hok : RxOk (n.setRx (b.getU16 b.offset) (some sdu)) := fun x hx =>
        Option.some.inj hx ▸ hsdu
      generalize hb' : ({ b with offset := u16 (b.offset + 2), len := sub16 b.len 2 } : BtHdr) = b'
        at hbytes
      have hlen : b'.bytes.length = b'.len := by
        rw [hbytes, List.length_drop, hb.bytes_length, ← hb', sub16_of_le hb.len (not_lt.mp hshort)]
      have houtcome := appendToRxSdu_outcome c hok rfl hlen .start
      rw [hbytes] at houtcome
      exact houtcome
    | cont | final => exact hrefused
  | some sdu =>
    have hrx : n.core.rx = some (n.fcrb.rxSduLen, sdu.bytes) := by
      simp only [Node.core, hs, Option.map_some]
    rw [hrx]
    cases hsar : sarOf ctrl with
    | unseg | start => exact hrefused
    | cont => exact appendToRxSdu_outcome c hn hs hb.bytes_length .cont
    | final => exact appendToRxSdu_outcome c hn hs hb.bytes_length .final

end Outcome

/-! ### I-frames -/

theorem csmSdu_spec (hc : c.peerCfg.mode = .ertm) (h : n.Wf) (d : List UInt8) :
    Ensures IsOverrun (csmSdu c n d) fun n' =>
      n'.Wf ∧ TxRun c { n.core with delivered := n.core.delivered ++ [d] } n'.core := by
  unfold csmSdu
  split
  · have hwf : ({ n with delivered := n.delivered ++ [d] } : Node).Wf :=
      { h with }
    exact (callOut_spec hc hwf).mono fun n' hn' => ⟨hn'.wf, hn'.run⟩
  · next ho =>
    rw [Bool.not_eq_true] at ho
    exact ⟨h, ReflTransGen.single (.close ho)⟩

variable (c) in
/-- The outcome of reassembling a segment `s`: on success the abstract state has taken the
`sarStep`. -/
def SarPost (n : Node) (s : Seg) (p : Node × Bool) : Prop :=
  p.1.Wf ∧ (p.2 = true →
    ∃ rx d, sarStep c.maxRxMtu n.core.rx s = some (rx, d) ∧
      TxRun c { n.core with rx := rx, delivered := n.core.delivered ++ d.toList } p.1.core)

/-- `do_sar_reassembly` refines `sarStep`. -/
theorem doSarReassembly_spec (hc : c.peerCfg.mode = .ertm) (h : n.Wf) (hb : RxBuf b) (ctrl : Nat) :
    Ensures IsOverrun (doSarReassembly c n b ctrl) (SarPost c n ⟨sarOf ctrl, b.bytes⟩) := by
  have houtcome := doSarReassembly_outcome c h.rx hb ctrl
  have hwf {len : Nat} {sdu : Option BtHdr} (hok : RxOk (n.setRx len sdu)) : (n.setRx len sdu).Wf :=
    { h with rx := hok }
  cases hstep : sarStep c.maxRxMtu n.core.rx ⟨sarOf ctrl, b.bytes⟩ with
  | none =>
    rw [hstep] at houtcome
    obtain ⟨len, sdu, hok, heq⟩ := houtcome
    rw [heq]
    exact ⟨hwf hok, fun hf => by cases hf⟩
  | some r =>
    obtain ⟨rx, d⟩ := r
    rw [hstep] at houtcome
    obtain ⟨len, sdu, hok, rfl, heq⟩ := houtcome
    rw [heq]
    cases d with
    | none =>
      refine ⟨hwf hok, fun _ => ⟨_, none, hstep, ?_⟩⟩
      rw [Option.toList_none, List.append_nil]
      exact ReflTransGen.refl
    | some d =>
      refine Ensures.bind (csmSdu_spec hc (hwf hok) d) ?_
      rintro n' ⟨hn', hrun⟩
      exact ⟨hn', fun _ => ⟨_, some d, hstep, hrun⟩⟩

variable (c) in
/-- The outcome of an I-frame that carries `it`. -/
def IFramePost (n : Node) (it : Item) (n' : Node) : Prop :=
  n'.Wf ∧ ∃ k, Core.IFrame c it n.core k ∧ TxRun c k n'.core

theorem IFramePost.dropped {n' : Node} {it : Item} (hne : it.1 ≠ n.fcrb.nextSeqExpected)
    (h : Moves c n n') : IFramePost c n it n' :=
  ⟨h.wf, _, .dropped _ hne, h.run⟩

theorem IFramePost.closed {n' : Node} {it : Item} (h : n'.Wf) (hclosed : n'.core.isOpen = false) :
    IFramePost c n it n' :=
  ⟨h, _, .closed hclosed, ReflTransGen.refl⟩

theorem outOfSequence_spec (hc : c.peerCfg.mode = .ertm) (h : n.Wf) (hb : RxBuf b)
    (hne : b.rxItem.1 ≠ n.fcrb.nextSeqExpected) :
    Ensures IsOverrun (outOfSequence c n b b.rxItem.1) (IFramePost c n b.rxItem) := by
  have hitem (ls : Nat) : BtHdr.rxItem { b with layerSpecific := ls } = b.rxItem := rfl
  have hheld : ∀ x ∈ n.fcrb.srejRcvHoldQ ++ [{ b with layerSpecific := b.rxItem.1.val }],
      HeldBuf x := by
    intro x hx
    rcases List.mem_append.mp hx with hx | hx
    · exact h.held x hx
    · rw [List.mem_singleton] at hx
      rw [hx]
      exact ⟨{ hb with }, rfl⟩
  unfold outOfSequence
  dsimp only
  split
  · exact .dropped hne (Moves.of_core_eq h rfl)
  · next hwin =>
    rw [not_le] at hwin
    split
    -- an SREJ is out: the frame is held if it is the one behind the last that is held
    · next hsrej =>
      split
      · next hnone => exact absurd (List.getLast?_eq_none_iff.mp hnone) (h.peek hsrej)
      · next last hlast =>
        split
        · next hnext =>
          have hl : n.core.held.getLast? = some last.rxItem := by
            simp only [Node.core, List.getLast?_map, hlast, Option.map_some]
          have hls : last.layerSpecific = last.rxItem.1.val :=
            (h.held last (List.mem_of_getLast? hlast)).layer
          refine ⟨{ h with held := hheld, peek := (fun _ => by simp) }, _,
            .held n.core hsrej hne hwin hl ?_ ?_, ?_⟩
          · rw [hnext.1, hls]
            rfl
          · simpa only [Node.core, List.length_map] using hnext.2
          · simp only [Node.core, Node.isOpen, List.map_append, List.map_cons, List.map_nil, hitem]
            exact ReflTransGen.refl
        · exact .dropped hne (Moves.of_core_eq { h with } rfl)
    -- the first gap: REJ if more than one frame is missing, SREJ otherwise
    · next hsrej =>
      split
      · exact .dropped hne (Moves.of_core_eq h rfl)
      · split
        · have hwf : ({ n with fcrb := { n.fcrb with rejSent := true } } : Node).Wf :=
            { h with }
          refine Ensures.bind (l2cFcrSendSFrame_spec hc hwf .rej (.inl rfl)) ?_
          intro n' hn'
          refine .dropped hne (Moves.trans ⟨hn'.wf, hn'.run⟩ (Moves.of_core_eq ?_ rfl))
          exact ⟨hn'.wf.waiting, hn'.wf.retrans, hn'.wf.held, hn'.wf.rx, hn'.wf.peek, hn'.wf.hold⟩
        · next hone =>
          have hwf : ({ n with fcrb := { n.fcrb with
              srejRcvHoldQ := n.fcrb.srejRcvHoldQ ++ [{ b with layerSpecific := b.rxItem.1.val }]
              srejSent := true } } : Node).Wf :=
            { h with held := hheld, peek := (fun _ => by simp) }
          refine Ensures.bind (l2cFcrSendSFrame_spec hc hwf .srej (.inl rfl)) ?_
          intro n' hn'
          refine ⟨⟨hn'.wf.waiting, hn'.wf.retrans, hn'.wf.held, hn'.wf.rx, hn'.wf.peek,
            hn'.wf.hold⟩, _,
            .firstHeld n.core (Bool.not_eq_true _ ▸ hsrej) hne hwin (not_lt.mp hone), ?_⟩
          have hrun := hn'.run
          simp only [Node.core, Node.isOpen, List.map_append, List.map_cons, List.map_nil,
            hitem] at hrun ⊢
          exact hrun

theorem ackIFrame_spec (hc : c.peerCfg.mode = .ertm) (h : n.Wf) (delayAck : Bool) :
    Ensures IsOverrun (ackIFrame c n delayAck) (Moves c n) := by
  unfold ackIFrame
  dsimp only
  split
  · split
    · exact Moves.of_core_eq { h with } rfl
    · split
      · exact l2cFcrSendSFrame_spec hc h .rr (.inl rfl)
      · exact Moves.of_core_eq h rfl
  · exact Moves.of_core_eq h rfl

theorem inSequence_spec (hc : c.peerCfg.mode = .ertm) (h : n.Wf) (hb : RxBuf b) {ctrl : Nat}
    (hexp : txSeqOf ctrl = n.fcrb.nextSeqExpected) (delayAck : Bool) :
    Ensures IsOverrun (inSequence c n b ctrl delayAck)
      (IFramePost c n (txSeqOf ctrl, ⟨sarOf ctrl, b.bytes⟩)) := by
  have hwf : ({ n with fcrb := { n.fcrb with
      rejSent := false, srejSent := false, nextSeqExpected := (txSeqOf ctrl).next } } : Node).Wf :=
    { h with peek := (fun hf => by cases hf) }
  refine Ensures.bind (doSarReassembly_spec hc hwf hb ctrl) ?_
  rintro ⟨m, ok⟩ ⟨hm, hsar⟩
  cases ok with
  | false =>
    refine (l2cuDisconnectChnl_spec hc hm).mono ?_
    rintro n' ⟨hn', hclosed⟩
    exact .closed hn'.wf hclosed
  | true =>
    obtain ⟨rx, d, hstep, hrun⟩ := hsar rfl
    refine (ackIFrame_spec hc hm delayAck).mono ?_
    intro n' hn'
    refine ⟨hn'.wf, _, .accepted n.core hexp hstep, ?_⟩
    have htotal := hrun.trans hn'.run
    simp only [Node.core, Node.isOpen, hexp] at htotal ⊢
    exact htotal

variable (c) in
/-- The outcome of processing a list of I-frames. -/
def ProcessPost (n : Node) (its : List Item) (n' : Node) : Prop :=
  n'.Wf ∧ Core.Process c its n.core n'.core

/-- `process_i_frame`: `ctrl` may differ from the control word in the buffer, but not in its
TxSeq and segmentation type. -/
theorem processIFrame_spec (hc : c.peerCfg.mode = .ertm) (h : n.Wf) (hb : RxBuf b) {ctrl : Nat}
    (htx : txSeqOf ctrl = txSeqOf b.rxCtrl) (hsar : sarOf ctrl = sarOf b.rxCtrl) (delayAck : Bool) :
    Ensures IsOverrun (processIFrame c n b ctrl delayAck) (ProcessPost c n [b.rxItem]) := by
  have hitem : b.rxItem = (txSeqOf ctrl, ⟨sarOf ctrl, b.bytes⟩) := by
    rw [htx, hsar]
    rfl
  have hfinal : Ensures IsOverrun (finalReceived c n ctrl) fun p =>
      Moves c n p.1 ∧ (p.2 = false → p.1.core.isOpen = false) := by
    unfold finalReceived
    split
    · exact retransmitIFrames_spec hc h _
    · exact ⟨Moves.of_core_eq h rfl, fun hf => by cases hf⟩
  refine Ensures.bind hfinal ?_
  rintro ⟨m, ok⟩ ⟨hm, hclosed⟩
  have hpost : ∀ n', IFramePost c m b.rxItem n' → ProcessPost c n [b.rxItem] n' := by
    rintro n' ⟨hn', k, hk, hrun⟩
    exact ⟨hn', .cons hm.run hk (.nil hrun)⟩
  dsimp only
  split
  · next hok => exact hpost _ (.closed hm.wf (hclosed (by simpa using hok)))
  · split
    · next hne =>
      rw [htx] at hne ⊢
      exact (outOfSequence_spec hc hm.wf hb hne).mono hpost
    · next heq =>
      rw [not_not] at heq
      rw [hitem] at hpost ⊢
      exact (inSequence_spec hc hm.wf hb heq delayAck).mono hpost

/-! ### `l2c_fcr_proc_pdu` -/

theorem processHeld_spec (hc : c.peerCfg.mode = .ertm) (h : n.Wf) (hb : HeldBuf b) :
    Ensures IsOverrun (processHeld c n b) (ProcessPost c n [b.rxItem]) := by
  unfold processHeld
  split
  · exact processIFrame_spec hc h hb.toRxBuf rfl rfl true
  · next hclosed =>
    rw [Bool.not_eq_true] at hclosed
    exact ⟨h, .cons ReflTransGen.refl (.closed hclosed) (.nil ReflTransGen.refl)⟩

theorem rejAfterHeld_spec (hc : c.peerCfg.mode = .ertm) (h : n.Wf) :
    Ensures IsOverrun (rejAfterHeld c n) (Moves c n) := by
  have hwf :
      ({ n with fcrb := { n.fcrb with rejAfterSrej := false, rejSent := true } } : Node).Wf :=
    { h with }
  unfold rejAfterHeld
  split
  · exact (l2cFcrSendSFrame_spec hc hwf .rej (.inl rfl)).mono fun _ hn' => ⟨hn'.wf, hn'.run⟩
  · exact Moves.of_core_eq h rfl

theorem Core.Process.append {its' : List Item} (h : Core.Process c its k k₁)
    (h' : Core.Process c its' k₁ k₂) : Core.Process c (its ++ its') k k₂ := by
  induction h with
  | nil hrun => exact h'.trans_left hrun
  | cons hrun hi _ ih => exact .cons hrun hi (ih h')

/-- The drain loop processes the held frames in order. -/
theorem drainHoldQ_spec (hc : c.peerCfg.mode = .ertm) (q : List BtHdr) (h : n.Wf)
    (hq : ∀ b ∈ q, HeldBuf b) :
    Ensures IsOverrun (drainHoldQ c n q) (ProcessPost c n (q.map BtHdr.rxItem)) := by
  induction q generalizing n with
  | nil => exact ⟨h, .nil ReflTransGen.refl⟩
  | cons b q ih =>
    refine Ensures.bind (processHeld_spec hc h (hq b List.mem_cons_self)) ?_
    rintro n₁ ⟨hn₁, hp₁⟩
    refine Ensures.bind (rejAfterHeld_spec hc hn₁) ?_
    intro n₂ hn₂
    refine (ih hn₂.wf fun x hx => hq x (List.mem_cons_of_mem _ hx)).mono ?_
    rintro n' ⟨hn', hp'⟩
    exact ⟨hn', (hp₁.trans_right hn₂.run).append hp'⟩

theorem processHoldQ_spec (hc : c.peerCfg.mode = .ertm) (h : n.Wf) :
    Ensures IsOverrun (processHoldQ c n) fun n' => n'.Wf ∧ Core.After c n.core n'.core := by
  unfold processHoldQ
  split
  · next hdrain =>
    rw [Bool.and_eq_true, Bool.not_eq_true', Bool.not_eq_true', List.isEmpty_eq_false_iff] at hdrain
    have hwf : ({ n with fcrb := { n.fcrb with srejRcvHoldQ := [] } } : Node).Wf := by
      refine { h with held := by simp, peek := fun hs => ?_ }
      rw [hdrain.1] at hs
      cases hs
    refine Ensures.bind (drainHoldQ_spec hc n.fcrb.srejRcvHoldQ hwf h.held) ?_
    rintro n₁ ⟨hn₁, hp₁⟩
    have hack : Ensures IsOverrun (ackHeld c n₁) (Moves c n₁) := by
      unfold ackHeld
      split
      · exact l2cFcrSendSFrame_spec hc hn₁ .rr (.inl rfl)
      · exact Moves.of_core_eq hn₁ rfl
    refine hack.mono ?_
    intro n' hn'
    refine ⟨hn'.wf, .drain hdrain.1 (by simpa [Node.core] using hdrain.2) ?_⟩
    exact hp₁.trans_right hn'.run
  · next hidle =>
    rw [Bool.and_eq_true, Bool.not_eq_true', Bool.not_eq_true', List.isEmpty_eq_false_iff,
      not_and_or, Bool.not_eq_false, not_not] at hidle
    refine ⟨h, .idle ?_ ReflTransGen.refl⟩
    exact hidle.imp id fun hnil => .inl (by rw [Node.core, hnil, List.map_nil])

theorem sendMore_spec (hc : c.peerCfg.mode = .ertm) (h : n.Wf) :
    Ensures IsOverrun (sendMore c n) (Moves c n) := by
  unfold sendMore
  split
  · exact callOut_spec hc h
  · exact Moves.of_core_eq h rfl

theorem Core.After.trans_right (h : Core.After c k k₁) (h' : TxRun c k₁ k₂) :
    Core.After c k k₂ := by
  cases h with
  | idle hidle hrun => exact .idle hidle (hrun.trans h')
  | drain hsrej hne hp => exact .drain hsrej hne (hp.trans_right h')

/-- Masking bits outside a field leaves the field alone. -/
theorem reqSeqOf_and (h : m &&& reqSeqBits = reqSeqBits) : reqSeqOf (x &&& m) = reqSeqOf x := by
  apply Fin.ext
  change (x &&& m &&& reqSeqBits) >>> 8 = (x &&& reqSeqBits) >>> 8
  rw [Nat.and_assoc, h]

theorem txSeqOf_and (h : m &&& txSeqBits = txSeqBits) : txSeqOf (x &&& m) = txSeqOf x := by
  apply Fin.ext
  change (x &&& m &&& txSeqBits) >>> 1 = (x &&& txSeqBits) >>> 1
  rw [Nat.and_assoc, h]

theorem sarOf_and (h : m &&& sarBits = sarBits) : sarOf (x &&& m) = sarOf x := by
  rw [sarOf, sarOf, Nat.and_assoc, h]

theorem hasBit_and {bit : Nat} (h : m &&& bit = bit) : hasBit (x &&& m) bit = hasBit x bit := by
  rw [hasBit, hasBit, Nat.and_assoc, h]

/-- `ctrl` agrees with the control word in front of `b` in all fields that matter. -/
structure SameFields (ctrl : Nat) (b : BtHdr) : Prop where
  sBit : hasBit ctrl sFrameBit = hasBit b.rxCtrl sFrameBit
  reqSeq : reqSeqOf ctrl = reqSeqOf b.rxCtrl
  txSeq : hasBit b.rxCtrl sFrameBit = false → txSeqOf ctrl = txSeqOf b.rxCtrl
  sar : hasBit b.rxCtrl sFrameBit = false → sarOf ctrl = sarOf b.rxCtrl

/-- The I-frames in a received buffer: itself, or none if it holds an S-frame. -/
def BtHdr.rxItems (b : BtHdr) : List Item :=
  if hasBit b.rxCtrl sFrameBit then [] else [b.rxItem]

variable (c) in
/-- The outcome of a frame that passed the checks, in the buffer `b`. -/
def FramePost (n : Node) (b : BtHdr) (n' : Node) : Prop :=
  n'.Wf ∧ ∃ k₁ k₂, Core.AckBy (reqSeqOf b.rxCtrl) n.core k₁ ∧ Core.Process c b.rxItems k₁ k₂ ∧
    Core.After c k₂ n'.core

theorem dispatchFrame_spec (hc : c.peerCfg.mode = .ertm) (h : n.Wf) (hb : RxBuf b) {ctrl : Nat}
    (hctrl : SameFields ctrl b) : Ensures IsOverrun (dispatchFrame c n b ctrl)
      (ProcessPost c n b.rxItems) := by
  unfold dispatchFrame BtHdr.rxItems
  rw [hctrl.sBit]
  split
  · exact (processSFrame_spec hc h ctrl).mono fun _ hn' => ⟨hn'.wf, .nil hn'.run⟩
  · next hi =>
    rw [Bool.not_eq_true] at hi
    exact processIFrame_spec hc h hb (hctrl.txSeq hi) (hctrl.sar hi) false

theorem processFrame_spec (hc : c.peerCfg.mode = .ertm) (h : n.Wf) (hb : RxBuf b) {ctrl : Nat}
    (hctrl : SameFields ctrl b) :
    Ensures IsOverrun (processFrame c n b ctrl) (FramePost c n b) := by
  unfold processFrame
  refine Ensures.bind (processReqseq_spec hc h ctrl) ?_
  rintro ⟨n₁, ok⟩ ⟨hn₁, ⟨k₁, hack, hrun⟩, hclosed⟩
  rw [hctrl.reqSeq] at hack
  cases ok with
  | false =>
    refine ⟨hn₁, k₁, n₁.core, hack, ?_, .idle (.inr (.inr (hclosed rfl))) ReflTransGen.refl⟩
    unfold BtHdr.rxItems
    split
    · exact .nil hrun
    · exact .cons hrun (.closed (hclosed rfl)) (.nil ReflTransGen.refl)
  | true =>
    refine Ensures.bind (dispatchFrame_spec hc hn₁ hb hctrl) ?_
    rintro n₂ ⟨hn₂, hp⟩
    split
    · next hend =>
      rw [Bool.not_eq_true'] at hend
      exact ⟨hn₂, _, _, hack, hp.trans_left hrun, .idle (.inr (.inr hend)) ReflTransGen.refl⟩
    · refine Ensures.bind (processHoldQ_spec hc hn₂) ?_
      rintro n₃ ⟨hn₃, hafter⟩
      refine (sendMore_spec hc hn₃).mono ?_
      intro n' hn'
      exact ⟨hn'.wf, _, _, hack, hp.trans_left hrun, hafter.trans_right hn'.run⟩

variable (c) in
/-- The buffer `l2c_fcr_proc_pdu` passes on: without FCS and control word. -/
def BtHdr.behindCtrl (b : BtHdr) : BtHdr :=
  { b with
    len := sub16 (sub16 b.len (l2cuGetFcsLen c)) l2capFcrOverhead
    offset := u16 (b.offset + l2capFcrOverhead) }

theorem behindCtrl_rxBuf (hin : b.offset + b.len ≤ b.data.length) (hlen : b.len < 65536)
    (hoff : b.offset + 4 < 65536) (hmin : l2cuGetFcsLen c + 2 ≤ b.len) :
    RxBuf (b.behindCtrl c) ∧ (b.behindCtrl c).rxCtrl = b.getU16 b.offset ∧
      (b.behindCtrl c).bytes
        = (b.data.drop (b.offset + 2)).take (b.len - l2cuGetFcsLen c - 2) := by
  have h₁ : sub16 b.len (l2cuGetFcsLen c) = b.len - l2cuGetFcsLen c := sub16_of_le hlen (by omega)
  have h₂ : sub16 (b.len - l2cuGetFcsLen c) 2 = b.len - l2cuGetFcsLen c - 2 :=
    sub16_of_le (by omega) (by omega)
  have h₃ : u16 (b.offset + 2) = b.offset + 2 := u16_of_lt (by omega)
  simp only [BtHdr.behindCtrl, BtHdr.rxCtrl, BtHdr.bytes, l2capFcrOverhead, h₁, h₂, h₃,
    Nat.add_sub_cancel]
  refine ⟨⟨?_, ?_, ?_⟩, rfl, trivial⟩
  · dsimp only
    omega
  · dsimp only
    omega
  · dsimp only
    omega

/-- P and F are mutually exclusive: P is cleared in an S-frame with F. -/
theorem sameFields_clearP (h : b.rxCtrl = x) :
    SameFields (if hasBit x sFrameBit then x &&& not16 pBit else x) b := by
  subst h
  split
  · next hs =>
    refine ⟨hasBit_and rfl, reqSeqOf_and rfl, fun hf => ?_, fun hf => ?_⟩
    · rw [hs] at hf
      cases hf
    · exact sarOf_and rfl
  · exact ⟨rfl, rfl, fun _ => rfl, fun _ => rfl⟩

theorem sameFields_clearF (h : b.rxCtrl = x) : SameFields (x &&& not16 fBit) b := by
  subst h
  exact ⟨hasBit_and rfl, reqSeqOf_and rfl, fun _ => txSeqOf_and rfl, fun _ => sarOf_and rfl⟩

variable (c) in
/-- The checks of `l2c_fcr_proc_pdu`: length, FCS, and the final bit while a poll is
unanswered. -/
def passesChecks (n : Node) (b : BtHdr) : Prop :=
  l2cuGetFcsLen c + l2capFcrOverhead ≤ b.len ∧
    (l2cuGetFcsLen c ≠ 0 → l2cFcrRxGetFcs { b with len := sub16 b.len (l2cuGetFcsLen c) }
      = b.getU16 (b.offset + b.len - l2cuGetFcsLen c)) ∧
    (n.fcrb.waitAck → hasBit (b.getU16 b.offset) fBit)

instance (n : Node) (b : BtHdr) : Decidable (passesChecks c n b) :=
  inferInstanceAs (Decidable (_ ∧ _ ∧ _))

/-- A frame that fails a check has no effect, except that a poll is answered. -/
theorem l2cFcrProcPdu_fails (hc : c.peerCfg.mode = .ertm) (h : n.Wf)
    (hfail : ¬ passesChecks c n b) : Ensures IsOverrun (l2cFcrProcPdu c n b) (Moves c n) := by
  have hquiet : Moves c n n := Moves.of_core_eq h rfl
  unfold l2cFcrProcPdu
  dsimp only
  split
  · exact hquiet
  · next hmin =>
    split
    · exact hquiet
    · next hfcs =>
      rw [not_and, not_not] at hfcs
      split
      · next hwait =>
        split
        · split
          · refine Ensures.bind (l2cFcrSendSFrame_spec hc h _ (.inr (.inr rfl))) ?_
            intro n' hn'
            refine hn'.trans (Moves.of_core_eq ?_ rfl)
            exact ⟨hn'.wf.waiting, hn'.wf.retrans, hn'.wf.held, hn'.wf.rx, hn'.wf.peek, hn'.wf.hold⟩
          · exact hquiet
        · next hf =>
          rw [Bool.not_eq_true, Bool.not_eq_false'] at hf
          exact absurd ⟨not_lt.mp hmin, hfcs, fun _ => hf⟩ hfail
      · next hwait => exact absurd ⟨not_lt.mp hmin, hfcs, fun hw => absurd hw hwait⟩ hfail

theorem l2cFcrProcPdu_passes (hc : c.peerCfg.mode = .ertm) (h : n.Wf)
    (hin : b.offset + b.len ≤ b.data.length) (hlen : b.len < 65536) (hoff : b.offset + 4 < 65536)
    (hpass : passesChecks c n b) :
    Ensures IsOverrun (l2cFcrProcPdu c n b) (FramePost c n (b.behindCtrl c)) := by
  obtain ⟨hmin, hfcs, hfinal⟩ := hpass
  obtain ⟨hbuf, hctrl, -⟩ := behindCtrl_rxBuf hin hlen hoff hmin
  unfold l2cFcrProcPdu
  dsimp only
  rw [if_neg (not_lt.mpr hmin), if_neg (fun hbad => hbad.2 (hfcs hbad.1))]
  split
  · next hwait =>
    have hf : hasBit (b.getU16 b.offset) fBit = true := hfinal hwait
    have hwf : ({ n with fcrb := l2cFcrStopTimer { n.fcrb with
        waitAck := false
        numTries := if n.fcrb.waitingForAckQ.isEmpty then 0 else n.fcrb.numTries } } : Node).Wf :=
      { h with }
    change Ensures IsOverrun (if (!hasBit (b.getU16 b.offset) fBit) = true then _ else _) _
    rw [hf, Bool.not_true, if_neg Bool.false_ne_true]
    exact (processFrame_spec hc hwf hbuf (sameFields_clearP hctrl)).mono fun _ hn' => hn'
  · exact processFrame_spec hc h hbuf (sameFields_clearF hctrl)

/-- The buffer in which a frame `g` reaches `l2c_fcr_proc_pdu`. -/
theorem rcvBuf_item {g : List UInt8} (hfour : 4 ≤ g.length) (hsmall : g.length - 4 < 65536)
    (hlong : l2cuGetFcsLen c + 2 ≤ g.length - 4)
    (hb : b = { len := g.length - 4, offset := 4 + 4, data := List.replicate 4 0 ++ g }) :
    (b.behindCtrl c).rxCtrl = frameCtrl g ∧ (b.behindCtrl c).rxItem = frameItem c g := by
  have hin : b.offset + b.len ≤ b.data.length := by
    subst hb
    simp only [List.length_append, List.length_replicate]
    omega
  have hdrop (i : Nat) : (List.replicate 4 (0 : UInt8) ++ g).drop (4 + i) = g.drop i := by
    rw [List.drop_append, List.length_replicate, List.drop_replicate,
      Nat.sub_eq_zero_of_le (Nat.le_add_right _ _), Nat.add_sub_cancel_left]
    rfl
  obtain ⟨-, hctrl, hbytes⟩ := behindCtrl_rxBuf (c := c) hin (by subst hb; exact hsmall)
    (by subst hb; exact (by decide : 4 + 4 + 4 < 65536)) (by subst hb; exact hlong)
  have hword : (b.behindCtrl c).rxCtrl = frameCtrl g := by
    rw [hctrl, frameCtrl]
    subst hb
    change rd16 _ (4 + 4) = _
    rw [← rd16_drop, ← Nat.add_zero 4, hdrop 0, List.drop_zero]
  have hinfo : (b.behindCtrl c).bytes = (g.drop 6).take (g.length - 6 - l2cuGetFcsLen c) := by
    rw [hbytes]
    subst hb
    dsimp only
    rw [show 4 + 4 + 2 = 4 + 6 from rfl, hdrop,
      show g.length - 4 - l2cuGetFcsLen c - 2 = g.length - 6 - l2cuGetFcsLen c by omega]
  refine ⟨hword, ?_⟩
  rw [BtHdr.rxItem, hword, hinfo]
  rfl

/-- A frame arriving on the link refines `Core.Pdu`. -/
theorem l2cRcvAclData_spec (hc : c.peerCfg.mode = .ertm) (h : n.Wf) (g : List UInt8) :
    Ensures IsOverrun (l2cRcvAclData c n g) fun n' =>
      n'.Wf ∧ Core.Pdu c g n.core n'.core := by
  have hquiet : n.Wf ∧ Core.Pdu c g n.core n.core := ⟨h, .ignored ReflTransGen.refl⟩
  unfold l2cRcvAclData
  split
  · exact hquiet
  · next hfour =>
    split
    · exact hquiet
    · split
      · exact hquiet
      · next hlen =>
        split
        · rw [l2capPktOverhead, not_lt] at hfour
          rw [l2capPktOverhead, not_not] at hlen
          have hsmall : g.length - 4 < 65536 := hlen ▸ rd16_lt g 0
          by_cases hpass : passesChecks c n
              { len := g.length - 4, offset := 4 + 4, data := List.replicate 4 0 ++ g }
          · obtain ⟨hctrl, hitem⟩ := rcvBuf_item hfour hsmall hpass.1 rfl
            have hin : (4 + 4) + (g.length - 4) ≤ (List.replicate 4 (0 : UInt8) ++ g).length := by
              rw [List.length_append, List.length_replicate]
              omega
            refine (l2cFcrProcPdu_passes hc h hin hsmall (by decide : 4 + 4 + 4 < 65536) hpass).mono
              ?_
            rintro n' ⟨hn', k₁, k₂, hack, hp, hafter⟩
            rw [hctrl] at hack
            rw [BtHdr.rxItems, hitem, hctrl, hasBit_sFrameBit] at hp
            simp only [decide_eq_true_eq] at hp
            exact ⟨hn', .processed hack hp hafter⟩
          · exact (l2cFcrProcPdu_fails hc h hpass).mono fun n' hn' => ⟨hn'.wf, .ignored hn'.run⟩
        · exact hquiet

/-! ### Timeouts -/

theorem l2cFcrProcTout_spec (hc : c.peerCfg.mode = .ertm) (h : n.Wf) :
    Ensures IsOverrun (l2cFcrProcTout c n) (Moves c n) := by
  have hcount :
      ({ n with fcrb := { n.fcrb with numTries := u8 (n.fcrb.numTries + 1) } } : Node).Wf :=
    { h with }
  unfold l2cFcrProcTout
  dsimp only
  split
  · exact (l2cuDisconnectChnl_spec hc hcount).mono fun _ hn' => ⟨hn'.1.wf, hn'.1.run⟩
  · split
    · split
      · exact (l2cFcrSendSFrame_spec hc hcount .rr (.inr (.inl rfl))).mono
          fun _ hn' => ⟨hn'.wf, hn'.run⟩
      · exact Moves.of_core_eq hcount rfl
    · split
      · exact l2cFcrSendSFrame_spec hc h .rr (.inr (.inl rfl))
      · exact Moves.of_core_eq h rfl

theorem l2cFcrProcAckTout_spec (hc : c.peerCfg.mode = .ertm) (h : n.Wf) :
    Ensures IsOverrun (l2cFcrProcAckTout c n) (Moves c n) := by
  unfold l2cFcrProcAckTout
  split
  · exact l2cFcrSendSFrame_spec hc h .rr (.inl rfl)
  · exact Moves.of_core_eq h rfl

end BluetoothStack.L2cap
