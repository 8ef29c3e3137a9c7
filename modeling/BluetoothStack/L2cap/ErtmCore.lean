import BluetoothStack.L2cap.Frames

/-!
# BluetoothStack.L2cap.ErtmCore

One end of an ERTM channel as an abstract sliding-window machine, and the refinement
of the transmit side of `l2c_fcr.cc` to it.

`Core` keeps of a `Node` what the protocol is about: the two transmit counters, the
unacknowledged and the queued frames as numbered segments, the SDUs not yet cut, the
frames under way, and the receive side. Timers, poll bits, retry counters and busy
flags are gone: they decide *when* something is sent, never *what*.

`Core.Tx` lists everything the transmit side can do in one step. Every function of the
source that sends, polls, retransmits or calls out refines a sequence of such steps
(`TxRun`); the lemmas below say so, one a function. Window, sequencing and delivery
properties are then proved from the eight cases of `Core.Tx` and never look at the
code again.
-/

namespace BluetoothStack.L2cap

open BluetoothStack.Lib Relation

/-- A numbered segment. -/
abbrev Item := SeqNum × Seg

/-- The abstract state of one end. -/
structure Core where
  isOpen : Bool
  nextTx : SeqNum
  lastAck : SeqNum
  /-- sent and not acknowledged, oldest first -/
  waiting : List Item
  retrans : List Item
  /-- SDUs not yet cut: whether cutting has started, and the bytes left -/
  hold : List (Bool × List UInt8)
  /-- frames on their way to the peer, oldest first -/
  wire : List (List UInt8)
  written : List (List UInt8)
  expected : SeqNum
  srej : Bool
  held : List Item
  /-- the SDU being reassembled: announced length and bytes so far -/
  rx : Option (Nat × List UInt8)
  delivered : List (List UInt8)

/-- The numbered segment in a buffer of `waiting_for_ack_q` or `retrans_q`. -/
def BtHdr.item (b : BtHdr) : Item := (b.txSeq, b.seg)

/-- The control word in front of a received buffer that starts at its information field. -/
def BtHdr.rxCtrl (b : BtHdr) : Nat := b.getU16 (b.offset - l2capFcrOverhead)

/-- The numbered segment in a received buffer. -/
def BtHdr.rxItem (b : BtHdr) : Item := (txSeqOf b.rxCtrl, ⟨sarOf b.rxCtrl, b.bytes⟩)

/-- The abstraction of an end. -/
def Node.core (n : Node) : Core where
  isOpen := n.isOpen
  nextTx := n.fcrb.nextTxSeq
  lastAck := n.fcrb.lastRxAck
  waiting := n.fcrb.waitingForAckQ.map BtHdr.item
  retrans := n.fcrb.retransQ.map BtHdr.item
  hold := n.xmitHoldQ.map BtHdr.pending
  wire := n.lower ++ n.linkXmitDataQ.map BtHdr.bytes
  written := n.written
  expected := n.fcrb.nextSeqExpected
  srej := n.fcrb.srejSent
  held := n.fcrb.srejRcvHoldQ.map BtHdr.rxItem
  rx := n.fcrb.pRxSdu.map fun b => (n.fcrb.rxSduLen, b.bytes)
  delivered := n.delivered

/-- A received buffer, behind its control word. -/
structure RxBuf (b : BtHdr) : Prop where
  inside : b.offset + b.len ≤ b.data.length
  len : b.len < 65536
  offset : b.offset + 2 < 65536

/-- A buffer of `srej_rcv_hold_q`: its TxSeq is stored in `layer_specific`. -/
structure HeldBuf (b : BtHdr) : Prop extends RxBuf b where
  layer : b.layerSpecific = (txSeqOf b.rxCtrl).val

/-- The SDU being received fits its buffer. -/
structure RxSduOk (rxSduLen : Nat) (b : BtHdr) : Prop where
  len : b.len ≤ rxSduLen
  room : b.offset + rxSduLen ≤ b.data.length
  bound : rxSduLen < 65536

/-- What holds of the buffers in the queues of an end. -/
structure Node.Wf (n : Node) : Prop where
  waiting : ∀ b ∈ n.fcrb.waitingForAckQ, HoldsIFrame b
  retrans : ∀ b ∈ n.fcrb.retransQ, HoldsIFrame b
  held : ∀ b ∈ n.fcrb.srejRcvHoldQ, HeldBuf b
  rx : ∀ b ∈ n.fcrb.pRxSdu, RxSduOk n.fcrb.rxSduLen b
  /-- an SREJ is outstanding only while a frame is held -/
  peek : n.fcrb.srejSent = true → n.fcrb.srejRcvHoldQ ≠ []
  hold : ∀ b ∈ n.xmitHoldQ, SduOk b

variable (c : ChanCfg)

/-- One step of the transmit side. -/
inductive Core.Tx : Core → Core → Prop
  /-- the channel is disconnected; nothing is said about it from then on -/
  | close {k k' : Core} (h : k'.isOpen = false) : Tx k k'
  | write (k : Core) {d : List UInt8} (hlen : d.length < 65536) :
      Tx k { k with hold := k.hold ++ [(false, d)], written := k.written ++ [d] }
  /-- a new I-frame, cut from the oldest SDU: only when nothing is to be sent again and
  the window is open -/
  | newI (k : Core) {started : Bool} {d : List UInt8} {rest : List (Bool × List UInt8)}
      {g : List UInt8} (hretrans : k.retrans = []) (hwin : k.waiting.length < c.peerCfg.txWinSz)
      (hhold : k.hold = (started, d) :: rest)
      (hg : IsIFrame (l2cuGetFcsLen c) g k.nextTx k.expected (cutSeg c.txMps started d).1) :
      Tx k { k with
        nextTx := k.nextTx.next
        waiting := k.waiting ++ [(k.nextTx, (cutSeg c.txMps started d).1)]
        hold := ((cutSeg c.txMps started d).2.map (Prod.mk true)).toList ++ rest
        wire := k.wire ++ [g] }
  | reI (k : Core) {t : Item} {q : List Item} {g : List UInt8} (hretrans : k.retrans = t :: q)
      (hg : IsIFrame (l2cuGetFcsLen c) g t.1 k.expected t.2) :
      Tx k { k with retrans := q, wire := k.wire ++ [g] }
  | sFrame (k : Core) {g : List UInt8} (hg : IsSFrame g k.expected) :
      Tx k { k with wire := k.wire ++ [g] }
  | flush (k : Core) {w : List (List UInt8)} (h : w.Sublist k.wire) : Tx k { k with wire := w }
  | retransClear (k : Core) : Tx k { k with retrans := [] }
  | retransPush (k : Core) {t : Item} (h : t ∈ k.waiting) :
      Tx k { k with retrans := k.retrans ++ [t] }

/-- Any number of transmit steps. -/
abbrev TxRun : Core → Core → Prop := ReflTransGen (Core.Tx c)

variable {c}

variable {k k' : Core} {n : Node} {b : BtHdr} {q : List BtHdr}

theorem Core.Tx.isOpen (h : Core.Tx c k k') (ho : k'.isOpen = true) : k.isOpen = true := by
  cases h with
  | close hc => rw [hc] at ho; cases ho
  | write | newI | reI | sFrame | flush | retransClear | retransPush => exact ho

theorem TxRun.isOpen (h : TxRun c k k') (ho : k'.isOpen = true) : k.isOpen = true := by
  induction h with
  | refl => exact ho
  | tail _ hstep ih => exact ih (hstep.isOpen ho)

/-- The receive side of a core. -/
structure SameRx (k k' : Core) : Prop where
  expected : k'.expected = k.expected
  srej : k'.srej = k.srej
  held : k'.held = k.held
  rx : k'.rx = k.rx
  delivered : k'.delivered = k.delivered

theorem SameRx.refl (k : Core) : SameRx k k := ⟨rfl, rfl, rfl, rfl, rfl⟩

theorem SameRx.trans {k₁ k₂ k₃ : Core} (h : SameRx k₁ k₂) (h' : SameRx k₂ k₃) : SameRx k₁ k₃ :=
  ⟨h'.expected.trans h.expected, h'.srej.trans h.srej, h'.held.trans h.held, h'.rx.trans h.rx,
    h'.delivered.trans h.delivered⟩

theorem Core.Tx.sameRx (h : Core.Tx c k k') (ho : k'.isOpen = true) : SameRx k k' := by
  cases h with
  | close hc => rw [hc] at ho; cases ho
  | write | newI | reI | sFrame | flush | retransClear | retransPush =>
    exact ⟨rfl, rfl, rfl, rfl, rfl⟩

theorem TxRun.sameRx (h : TxRun c k k') (ho : k'.isOpen = true) : SameRx k k' := by
  induction h with
  | refl => exact SameRx.refl _
  | tail _ hstep ih => exact (ih (hstep.isOpen ho)).trans (hstep.sameRx ho)

/-! ### Refinement of the transmit side -/

variable (c) in
/-- `n'` is well-formed and follows from `n` by transmit steps. -/
structure Moves (n n' : Node) : Prop where
  wf : n'.Wf
  run : TxRun c n.core n'.core

theorem Moves.trans {n₁ n₂ n₃ : Node} (h : Moves c n₁ n₂) (h' : Moves c n₂ n₃) : Moves c n₁ n₃ :=
  ⟨h'.wf, h.run.trans h'.run⟩

/-- A change that the abstraction does not see. -/
theorem Moves.of_core_eq {n' : Node} (h : n'.Wf) (hcore : n'.core = n.core) : Moves c n n' := by
  refine ⟨h, ?_⟩
  rw [hcore]

/-- The start may be replaced by one with the same abstraction. -/
theorem Moves.congr {n₁ : Node} {m : Result Node} (hcore : n₁.core = n.core)
    (h : Ensures IsOverrun m (Moves c n₁)) : Ensures IsOverrun m (Moves c n) :=
  h.mono fun _ h' => ⟨h'.wf, hcore ▸ h'.run⟩

theorem Moves.bind {m : Result Node} {f : Node → Result Node}
    (h : Ensures IsOverrun m (Moves c n))
    (hf : ∀ n', n'.Wf → Ensures IsOverrun (f n') (Moves c n')) :
    Ensures IsOverrun (m >>= f) (Moves c n) :=
  h.bind fun n' hn' => (hf n' hn'.wf).mono fun _ h' => hn'.trans h'

section

variable (hc : c.peerCfg.mode = .ertm)
include hc

theorem prepareFcrb_ertm (f : Fcrb) (again : Bool) :
    prepareFcrb c f again = { f with
      sendFRsp := false
      nextTxSeq := if again then f.nextTxSeq else f.nextTxSeq.next
      lastAckSent := f.nextSeqExpected
      ackTimer := false
      monRetransTimer := true } := by
  rw [prepareFcrb, if_pos hc]
  rfl

/-- `l2c_fcr_get_next_xmit_sdu_seg` with a frame of `retrans_q` to send again. -/
theorem nextAgain_spec (hb : HoldsIFrame b) (hq : n.fcrb.retransQ = b :: q) :
    Ensures IsOverrun (l2cFcrGetNextXmitSduSeg c n 0) fun p =>
      p.1 = { n with fcrb := prepareFcrb c { n.fcrb with retransQ := q } true } ∧
        IsIFrame (l2cuGetFcsLen c) p.2.bytes b.txSeq n.fcrb.nextSeqExpected b.seg ∧
        FrameOk (l2cuGetFcsLen c) b.cid p.2.bytes := by
  obtain ⟨hlt, htx, hreq, hsar, heven⟩ :=
    prepareCtrl_fields c hc { n.fcrb with retransQ := q } b true fun _ => hb.even
  rw [if_pos rfl] at htx hsar
  rw [l2cFcrGetNextXmitSduSeg, hq]
  dsimp only
  refine Ensures.bind (prepareIFrame_spec c _ true hb.long hb.inside hb.short hlt) ?_
  rintro ⟨f, b'⟩ ⟨hf, hb'⟩
  dsimp only at hf hb'
  have hframe := hb'.isIFrame c hb.long heven
  rw [htx, hreq, hsar] at hframe
  subst hf
  exact ⟨rfl, hframe, hb'.frameOk c hb.long⟩

/-- A frame of `retrans_q` goes out again. -/
theorem serve_again (h : n.Wf) (hlink : n.linkXmitDataQ = []) (hq : n.fcrb.retransQ = b :: q) :
    Ensures IsOverrun (l2cFcrGetNextXmitSduSeg c n 0) fun p =>
      Moves c n { p.1 with lower := p.1.lower ++ [p.2.bytes] } := by
  refine (nextAgain_spec hc (h.retrans b (by rw [hq]; exact List.mem_cons_self)) hq).mono ?_
  rintro ⟨n', b'⟩ ⟨hn', hframe, -⟩
  dsimp only at hn' hframe ⊢
  rw [prepareFcrb_ertm hc, if_pos rfl] at hn'
  subst hn'
  refine ⟨{ h with retrans := ?_ }, ReflTransGen.single ?_⟩
  · intro x hx
    exact h.retrans x (by rw [hq]; exact List.mem_cons_of_mem _ hx)
  · have hstep := Core.Tx.reI (c := c) n.core (t := b.item) (q := q.map BtHdr.item)
      (by simp only [Node.core, hq, List.map_cons]) hframe
    simp only [Node.core, Node.isOpen, hlink, List.map_nil, List.append_nil] at hstep ⊢
    exact hstep

/-- `l2c_fcr_get_next_xmit_sdu_seg` with nothing to send again: it cuts the next segment off the
oldest SDU, keeps a copy of the frame until it is acknowledged, and returns the frame. -/
theorem nextSduSeg_spec (hq : n.fcrb.retransQ = []) {rest : List BtHdr}
    (hb : n.xmitHoldQ = b :: rest) (hcut : Cuttable b c.txMps) :
    Ensures IsOverrun (l2cFcrGetNextXmitSduSeg c n 0) fun p =>
      ∃ w, HoldsIFrame w ∧
        w.item = (n.fcrb.nextTxSeq, (cutSeg c.txMps b.pending.1 b.pending.2).1) ∧
        p.1 = { n with
          fcrb := { prepareFcrb c n.fcrb false with waitingForAckQ := n.fcrb.waitingForAckQ ++ [w] }
          xmitHoldQ := (b.left c.txMps c.localCid).toList ++ rest } ∧
        IsIFrame (l2cuGetFcsLen c) p.2.bytes n.fcrb.nextTxSeq n.fcrb.nextSeqExpected
          (cutSeg c.txMps b.pending.1 b.pending.2).1 ∧
        (c.remoteCid < 65536 →
          KeptFrame c.remoteCid w ∧ FrameOk (l2cuGetFcsLen c) c.remoteCid p.2.bytes) := by
  simp only [l2cFcrGetNextXmitSduSeg, hq, hb, Nat.not_lt_zero, false_and, if_false, gt_iff_lt]
  refine Ensures.bind (cutSegment_spec c rest hcut) ?_
  rintro s ⟨hcut, hseg, hrest⟩
  refine Ensures.bind (addHeader_spec c hcut) ?_
  intro x hx
  obtain ⟨hlt, htx, hreq, hsar, heven⟩ :=
    prepareCtrl_fields c hc n.fcrb x false fun hf => by cases hf
  rw [if_neg (by decide)] at htx hsar
  refine Ensures.bind
    (prepareIFrame_spec c _ false hx.long (by have := hx.inside; omega) hx.short hlt) ?_
  rintro ⟨f, x'⟩ ⟨hf, hx'⟩
  dsimp only at hf hx'
  rw [if_pos hc]
  refine Ensures.bind (cloneBuf_spec _ _ _) ?_
  rintro w ⟨hsize, hin, rfl⟩
  have hlen : sub16 x'.len (l2cuGetFcsLen c) = x.len := by
    have hfcs := fcsLen_le c
    have hshort := hx.short
    rw [hx'.len, sub16_of_le (by omega) (Nat.le_add_left _ _), Nat.add_sub_cancel]
  -- the segmentation type in the control word is that of the cut
  have hsegx : (⟨sarOf (prepareCtrl c n.fcrb x false), x.info⟩ : Seg)
      = (cutSeg c.txMps b.pending.1 b.pending.2).1 := by
    rw [hsar, hx.sar, hx.info, ← hseg]
    rfl
  have hframe := hx'.isIFrame c hx.long heven
  -- the copy on `waiting_for_ack_q` is made without the FCS
  obtain ⟨hw, hwtx, hwseg, hwcid⟩ := hx'.clone c hx.long hx.short heven 4 x'.layerSpecific 0 rfl
  rw [hsegx, htx, hreq] at hframe
  have hwait : f.waitingForAckQ = n.fcrb.waitingForAckQ := by
    rw [hf, prepareFcrb_ertm hc]
  rw [← hf]
  refine ⟨_, hw, ?_, ?_, hframe, fun hcid => ?_⟩
  · rw [BtHdr.item, hwtx, hwseg, htx, hsegx]
  · dsimp only
    rw [hlen, hwait, hrest]
  · rw [← hx.cid hcid]
    refine ⟨⟨hw, ?_, ?_, hwcid⟩, hx'.frameOk c hx.long⟩
    · rw [clone_data_length hin]
      have hle := hx'.len
      dsimp only
      omega
    · have hle := hx'.len
      dsimp only [hciDataPreambleSize] at hsize ⊢
      omega

/-- A new frame is cut from `xmit_hold_q` and goes out. -/
theorem serve_new (h : n.Wf) (hlink : n.linkXmitDataQ = []) (hq : n.fcrb.retransQ = [])
    (hwin : n.fcrb.waitingForAckQ.length < c.peerCfg.txWinSz) (hhold : n.xmitHoldQ ≠ []) :
    Ensures IsOverrun (l2cFcrGetNextXmitSduSeg c n 0) fun p =>
      Moves c n { p.1 with lower := p.1.lower ++ [p.2.bytes] } := by
  obtain ⟨b, rest, hb⟩ := List.exists_cons_of_ne_nil hhold
  have hok : SduOk b := h.hold b (by rw [hb]; exact List.mem_cons_self)
  have hroom := hok.room
  have hrest := BtHdr.left_pending (b := b) c.localCid_ne_zero
    (hok.cuttable c.txMps) fun hlong => by have := b.cutLen_le hlong; omega
  refine (nextSduSeg_spec hc hq hb (hok.cuttable c.txMps)).mono ?_
  rintro p ⟨w, hw, hitem, hp, hframe, -⟩
  have hstep := Core.Tx.newI (c := c) n.core (by simp only [Node.core, hq, List.map_nil])
    (by simpa only [Node.core, List.length_map] using hwin)
    (show n.core.hold = (b.pending.1, b.pending.2) :: rest.map BtHdr.pending by
      simp only [Node.core, hb, List.map_cons]) hframe
  rw [hp, prepareFcrb_ertm hc, if_neg (by decide)]
  refine ⟨{ h with waiting := ?_, hold := ?_ }, ReflTransGen.single ?_⟩
  · intro y hy
    rcases List.mem_append.mp hy with hy | hy
    · exact h.waiting y hy
    · rw [List.mem_singleton.mp hy]
      exact hw
  · intro y hy
    rcases List.mem_append.mp hy with hy | hy
    · exact hok.left c.txMps c.localCid y (Option.mem_toList.mp hy)
    · exact h.hold y (by rw [hb]; exact List.mem_cons_of_mem _ hy)
  · rw [← hrest, ← List.map_append] at hstep
    simp only [Node.core, Node.isOpen, hlink, List.map_nil, List.append_nil, List.map_append,
      List.map_cons, hitem] at hstep ⊢
    exact hstep

/-- What the scheduler's test guarantees: a new frame is sent only inside the window. -/
theorem rrEligible_ertm (h : (n.schedInfo c).rrEligible = true) (hq : n.fcrb.retransQ = []) :
    n.fcrb.waitingForAckQ.length < c.peerCfg.txWinSz ∧ n.xmitHoldQ ≠ [] := by
  simp only [SchedInfo.rrEligible, Node.schedInfo, hc, hq, l2cFcrIsFlowControlled] at h
  simp only [BEq.rfl, Bool.true_and, ne_eq, reduceCtorEq, not_false_eq_true, if_true,
    List.isEmpty_nil, Bool.false_eq_true, if_false] at h
  split at h
  · cases h
  · split at h
    · cases h
    · split at h
      · cases h
      · next hhold =>
        simp only [Bool.not_eq_true', Bool.or_eq_false_iff, decide_eq_false_iff_not, not_le] at h
        exact ⟨h.2, fun hnil => hhold (by rw [hnil]; rfl)⟩

theorem linkAct_spec (h : n.Wf) (a : LinkAct) : Ensures IsOverrun (linkAct c n a) (Moves c n) := by
  cases a with
  | toLower =>
    simp only [linkAct]
    split
    · exact Moves.of_core_eq h rfl
    · next b q hq =>
      refine Moves.of_core_eq { h with } ?_
      simp only [Node.core, Node.isOpen, hq, List.map_cons, List.append_assoc,
        List.singleton_append]
  | serve =>
    simp only [linkAct]
    split
    · next hserve =>
      rw [Bool.and_eq_true, Bool.and_eq_true, List.isEmpty_iff] at hserve
      obtain ⟨⟨-, hlink⟩, helig⟩ := hserve
      refine Ensures.bind
        (Q := fun p : Node × BtHdr => Moves c n { p.1 with lower := p.1.lower ++ [p.2.bytes] })
        ?_ fun p hp => hp
      -- what is to be sent again goes before what is new
      cases hq : n.fcrb.retransQ with
      | cons b q => exact serve_again hc h hlink hq
      | nil =>
        obtain ⟨hwin, hhold⟩ := rrEligible_ertm hc helig hq
        exact serve_new hc h hlink hq hwin hhold
    · exact Moves.of_core_eq h rfl
  | write sdu =>
    simp only [linkAct]
    split
    · have hhold : ∀ b ∈ n.xmitHoldQ ++ [{ sdu.toBtHdr with event := 0 }], SduOk b := by
        intro b hb
        rcases List.mem_append.mp hb with hb | hb
        · exact h.hold b hb
        · rw [List.mem_singleton.mp hb]
          exact { sdu with }
      refine ⟨{ h with hold := hhold }, ReflTransGen.single ?_⟩
      have hlen : sdu.bytes.length < 65536 := by
        have hroom := sdu.ok.room
        rw [sdu.ok.bytes_length]
        omega
      have hstep := Core.Tx.write (c := c) n.core hlen
      simp only [Node.core, Node.isOpen, List.map_append, List.map_cons, List.map_nil] at hstep ⊢
      exact hstep
    · exact Moves.of_core_eq h rfl
  | disconnectReq =>
    simp only [linkAct]
    split
    · refine ⟨{ h with }, ReflTransGen.single (.close ?_)⟩
      simp only [Node.core, Node.isOpen, Bool.and_eq_false_imp]
      intro _
      rfl
    · exact Moves.of_core_eq h rfl

theorem runActs_spec (acts : List LinkAct) (h : n.Wf) :
    Ensures IsOverrun (runActs c n acts) (Moves c n) := by
  induction acts generalizing n with
  | nil => exact Moves.of_core_eq h rfl
  | cons a as ih => exact Moves.bind (linkAct_spec hc h a) fun n' hn' => ih hn'

theorem callOut_spec (h : n.Wf) : Ensures IsOverrun (callOut c n) (Moves c n) := by
  unfold callOut
  split
  · exact Moves.of_core_eq h rfl
  · next acts env _ =>
    have hw : Node.Wf { n with env := env } := { h with }
    have hrun := runActs_spec hc acts hw
    exact hrun.mono fun _ h' => ⟨h'.wf, h'.run⟩

/-- A disconnected channel is released, and no fault is possible after that. -/
theorem l2cuDisconnectChnl_spec (h : n.Wf) :
    Ensures IsOverrun (l2cuDisconnectChnl c n) fun n' =>
      Moves c n n' ∧ n'.core.isOpen = false := by
  have hclosed (m : Node) : (l2cuReleaseCcb m).core.isOpen = false := rfl
  have hwf (m : Node) : (l2cuReleaseCcb m).Wf := by
    refine ⟨?_, ?_, ?_, ?_, ?_, ?_⟩ <;> simp [l2cuReleaseCcb]
  refine Ensures.bind (callOut_spec hc h) ?_
  intro m hm
  refine (callOut_spec hc (hwf m)).mono ?_
  intro n' hn'
  refine ⟨hm.trans (Moves.trans ⟨hwf m, ReflTransGen.single (.close (hclosed m))⟩ hn'), ?_⟩
  by_contra ho
  rw [Bool.not_eq_false] at ho
  have := hn'.run.isOpen ho
  rw [hclosed m] at this
  cases this

end

/-- The bytes `l2c_fcr_send_S_frame` hands to the link are an S-frame. -/
theorem sFrameBuf_isSFrame (sup : Sup) (e : SeqNum) {pf : Nat}
    (hpf : pf = 0 ∨ pf = pBit ∨ pf = fBit) : IsSFrame (sFrameBuf c sup e pf).bytes e := by
  obtain ⟨hlt, hodd, hreq⟩ := sFrameCtrl_fields sup e hpf
  have hctrl : frameCtrl (sFrameBuf c sup e pf).bytes
      = (sup.code <<< 2) ||| sFrameBit ||| (e.val <<< 8) ||| pf := by
    have hlen : 4 + 2 ≤ (sFrameBuf c sup e pf).len := Nat.le_add_right _ _
    rw [frameCtrl, BtHdr.bytes, rd16_take hlen, rd16_drop]
    exact rd16_le16_append hlt []
  refine ⟨?_, ?_⟩
  · rw [hctrl]
    exact hodd
  · rw [hctrl]
    exact hreq

theorem l2cFcrSendSFrame_spec (hc : c.peerCfg.mode = .ertm) (h : n.Wf) (sup : Sup) {pf : Nat}
    (hpf : pf = 0 ∨ pf = pBit ∨ pf = fBit) :
    Ensures IsOverrun (l2cFcrSendSFrame c n sup pf) (Moves c n) := by
  unfold l2cFcrSendSFrame
  split
  · exact Moves.of_core_eq h rfl
  · -- the poll bookkeeping is invisible to the abstraction
    have hpoll : (startPoll n pf).Wf ∧ (startPoll n pf).core = n.core := by
      unfold startPoll
      split
      · exact ⟨{ h with }, rfl⟩
      · exact ⟨h, rfl⟩
    obtain ⟨hwf, hcore⟩ := hpoll
    generalize startPoll n pf = m at hwf hcore
    have hexp : n.fcrb.nextSeqExpected = m.core.expected := by rw [hcore]; rfl
    have hstep :=
      Core.Tx.sFrame (c := c) m.core (sFrameBuf_isSFrame (c := c) sup m.core.expected hpf)
    rw [hexp]
    generalize sFrameBuf c sup m.core.expected pf = b at hstep
    refine Moves.bind (n := n) ?_ ?_
    · refine Moves.congr hcore ?_
      unfold l2cLinkCheckSendPkts
      have hq : Moves c m { m with
          linkXmitDataQ := m.linkXmitDataQ ++ [{ b with event := 0, layerSpecific := 0 }] } := by
        refine ⟨{ hwf with }, ReflTransGen.single ?_⟩
        simp only [Node.core, Node.isOpen, List.map_append, List.map_cons, List.map_nil,
          ← List.append_assoc] at hstep ⊢
        exact hstep
      exact (callOut_spec hc hq.wf).mono fun _ h' => hq.trans h'
    · intro n' hn'
      exact Moves.of_core_eq { hn' with } rfl

/-! ### Retransmission -/

theorem cloneForRetrans_spec (h : ∀ b ∈ q, HoldsIFrame b) :
    Ensures IsOverrun (cloneForRetrans q) fun q' =>
      (∀ b ∈ q', HoldsIFrame b) ∧ q'.map BtHdr.item = q.map BtHdr.item := by
  induction q with
  | nil => exact ⟨by simp, rfl⟩
  | cons b q ih =>
    have hb : HoldsIFrame b := h b List.mem_cons_self
    unfold cloneForRetrans
    refine Ensures.bind (cloneBuf_spec _ _ _) ?_
    rintro _ ⟨-, hin, rfl⟩
    refine Ensures.bind (ih fun x hx => h x (List.mem_cons_of_mem _ hx)) ?_
    rintro q' ⟨hq', hitems⟩
    obtain ⟨hholds, htx, hseg, -⟩ := clone_same hb b.len b.offset b.layerSpecific 0 le_rfl hin rfl
    refine ⟨?_, ?_⟩
    · intro x hx
      rcases List.mem_cons.mp hx with rfl | hx
      · exact hholds
      · exact hq' x hx
    · rw [List.map_cons, List.map_cons, hitems, BtHdr.item, htx, hseg]
      rfl

theorem TxRun.retransPushAll (k : Core) (l : List Item) (h : ∀ t ∈ l, t ∈ k.waiting) :
    TxRun c k { k with retrans := k.retrans ++ l } := by
  induction l generalizing k with
  | nil => rw [List.append_nil]
  | cons t l ih =>
    have hstep := Core.Tx.retransPush (c := c) k (h t List.mem_cons_self)
    have hrest := ih { k with retrans := k.retrans ++ [t] } fun x hx =>
      h x (List.mem_cons_of_mem _ hx)
    rw [List.append_assoc, List.singleton_append] at hrest
    exact ReflTransGen.head hstep hrest

/-- The frames `retransmit_i_frames` picks are unacknowledged ones. -/
theorem retransNodes_subset {waiting : List BtHdr} {txSeq : Nat}
    (h : b ∈ retransNodes waiting txSeq) : b ∈ waiting := by
  unfold retransNodes at h
  split at h
  · exact h
  · exact (List.dropWhile_suffix _).subset (List.mem_of_mem_take h)

theorem flushForRetrans_moves (h : n.Wf) (txSeq : Nat) : Moves c n (flushForRetrans c n txSeq) ∧
      (flushForRetrans c n txSeq).fcrb.waitingForAckQ = n.fcrb.waitingForAckQ := by
  unfold flushForRetrans
  split
  · refine ⟨⟨{ h with retrans := by simp }, ?_⟩, rfl⟩
    have hsub : (n.lower ++ (n.linkXmitDataQ.filter fun t =>
        !(t.layerSpecific == 0 && t.event == c.localCid)).map BtHdr.bytes).Sublist n.core.wire :=
      List.Sublist.append_left (List.filter_sublist.map _) _
    exact (ReflTransGen.single (Core.Tx.flush (c := c) n.core hsub)).tail (.retransClear _)
  · exact ⟨Moves.of_core_eq h rfl, rfl⟩

theorem retransmitIFrames_spec (hc : c.peerCfg.mode = .ertm) (h : n.Wf) (txSeq : Nat) :
    Ensures IsOverrun (retransmitIFrames c n txSeq) fun p =>
      Moves c n p.1 ∧ (p.2 = false → p.1.core.isOpen = false) := by
  unfold retransmitIFrames
  split
  · refine Ensures.bind (l2cuDisconnectChnl_spec hc h) ?_
    rintro n' ⟨hn', hclosed⟩
    exact ⟨hn', fun _ => hclosed⟩
  · split
    · exact ⟨Moves.of_core_eq h rfl, fun hf => by cases hf⟩
    · refine Ensures.bind (cloneForRetrans_spec fun b hb => h.waiting b (retransNodes_subset hb)) ?_
      rintro clones ⟨hclones, hitems⟩
      obtain ⟨hflush, hsame⟩ := flushForRetrans_moves (c := c) h txSeq
      -- the clones go behind what is already queued to be sent again
      have hpush : Moves c (flushForRetrans c n txSeq)
          (enqueueRetrans (flushForRetrans c n txSeq) clones) := by
        refine ⟨⟨hflush.wf.waiting, ?_, hflush.wf.held, hflush.wf.rx, hflush.wf.peek,
          hflush.wf.hold⟩, ?_⟩
        · intro b hb
          exact (List.mem_append.mp hb).elim (hflush.wf.retrans b) (hclones b)
        · have hrun := TxRun.retransPushAll (c := c) (flushForRetrans c n txSeq).core
            (clones.map BtHdr.item) ?_
          · simp only [Node.core, Node.isOpen, enqueueRetrans, List.map_append] at hrun ⊢
            exact hrun
          · rw [hitems]
            intro t ht
            obtain ⟨b, hb, rfl⟩ := List.mem_map.mp ht
            refine List.mem_map.mpr ⟨b, ?_, rfl⟩
            rw [hsame]
            exact retransNodes_subset hb
      refine Ensures.bind (callOut_spec hc hpush.wf) ?_
      intro n' hn'
      refine ⟨(hflush.trans hpush).trans (hn'.trans ?_), fun hf => by cases hf⟩
      unfold countTry
      split
      · exact Moves.of_core_eq ⟨hn'.wf.waiting, hn'.wf.retrans, hn'.wf.held, hn'.wf.rx, hn'.wf.peek,
          hn'.wf.hold⟩ rfl
      · exact Moves.of_core_eq hn'.wf rfl

end BluetoothStack.L2cap
