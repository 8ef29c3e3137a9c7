import BluetoothStack.L2cap.Types

/-!
# BluetoothStack.L2cap.Fcr

The enhanced retransmission mode (ERTM) of `l2c_fcr.cc`: one end of a channel.

`Node` is one end: the fields of `tL2C_CCB` and of its `fcrb` that change while
the channel is open, the queue of frames that wait for the controller
(`link_xmit_data_q`), the frames handed to the controller (`lower`), and two
records that the code does not have, `written` and `delivered`: the SDUs put on
`xmit_hold_q` and the SDUs given to `L2CEVT_L2CAP_DATA`. What does not change while
the channel is open is in `ChanCfg`, which every function takes as a parameter.

Several functions call out: `l2c_link_check_send_pkts` sends whatever the
scheduler allows, and the upper layer, called back with data, may write or
disconnect. `env` says what happens at each such point, one list of `LinkAct`s a
call; a theorem about every `env` is a theorem about every behaviour of the
scheduler, of the controller and of the upper layer. A send is possible only when
`rrEligible` holds, as in `l2cu_get_next_channel_in_rr`.

The model is of a dynamically allocated channel (`local_cid >= L2CAP_BASE_APPL_CID`):
fixed channels do not run in this mode.
-/

namespace BluetoothStack.L2cap

open BluetoothStack.Lib

/-! ### State -/

/-- Channel modes. -/
inductive FcrMode
  | basic | ertm | leCoc
  deriving DecidableEq, Repr

/-- The part of `tL2CAP_FCR_OPTS` and of the FCS option that data transfer reads. -/
structure CfgInfo where
  mode : FcrMode
  txWinSz : Nat
  maxTransmit : Nat
  fcsPresent : Bool
  fcs : Nat

/-- `kDefaultErtmOptions`, in a configuration without an FCS option. -/
def kDefaultErtmOptions : CfgInfo where
  mode := .ertm
  txWinSz := 10
  maxTransmit := 20
  fcsPresent := false
  fcs := 1

/-- The fields of a channel that stay fixed while it is open. -/
structure ChanCfg where
  localCid : Nat
  remoteCid : Nat
  ourCfg : CfgInfo
  peerCfg : CfgInfo
  txMps : Nat
  maxRxMtu : Nat
  maxHeldAcks : Nat
  dynamic : l2capBaseApplCid ≤ localCid

/-- Channel states, in the order of `tL2C_CHNL_STATE`. -/
inductive ChnlState
  | closed | origW4SecComp | termW4SecComp | w4L2capConnectRsp | w4L2caConnectRsp
  | config | opened | w4L2capDisconnectRsp | w4L2caDisconnectRsp
  deriving DecidableEq, Repr

/-- `tL2C_FCRB`. A timer is `true` while it is scheduled. The fields start as
`memset` leaves them. -/
structure Fcrb where
  nextTxSeq : SeqNum := 0
  lastRxAck : SeqNum := 0
  nextSeqExpected : SeqNum := 0
  lastAckSent : SeqNum := 0
  numTries : Nat := 0
  remoteBusy : Bool := false
  rejSent : Bool := false
  srejSent : Bool := false
  waitAck : Bool := false
  rejAfterSrej : Bool := false
  sendFRsp : Bool := false
  rxSduLen : Nat := 0
  pRxSdu : Option BtHdr := none
  waitingForAckQ : List BtHdr := []
  srejRcvHoldQ : List BtHdr := []
  retransQ : List BtHdr := []
  ackTimer : Bool := false
  monRetransTimer : Bool := false

/-- An SDU buffer as `L2CA_DataWrite` hands it to the channel: header room of at
least `L2CAP_MIN_OFFSET`, room for a frame check sequence behind the payload, an
allocation that sixteen-bit offsets address, and only a flushable flag in
`layer_specific`. Beyond that allocation `offset` would wrap around while the SDU is
segmented. No user of the enhanced modes writes such an SDU: `gap_config_ind` and
`avct_l2c_br_config_ind_cback` cut the peer's MTU to what a buffer of theirs holds, some
thousand bytes. -/
structure SduBuf extends BtHdr where
  headroom : l2capMinOffset ≤ offset
  tailroom : offset + len + l2capFcsLen ≤ data.length
  addressable : data.length ≤ 65535
  flags : layerSpecific < 4

/-- What can happen at a point where the code calls out. -/
inductive LinkAct
  /-- The head of `link_xmit_data_q` goes to the controller. -/
  | toLower
  /-- The scheduler serves this channel. -/
  | serve
  /-- The upper layer writes an SDU. -/
  | write (sdu : SduBuf)
  /-- The upper layer asks to disconnect, or the peer or the link does. -/
  | disconnectReq

/-- One end of a channel. -/
structure Node where
  inUse : Bool
  chnlState : ChnlState
  fcrb : Fcrb
  xmitHoldQ : List BtHdr
  linkXmitDataQ : List BtHdr
  lower : List (List UInt8)
  written : List (List UInt8)
  delivered : List (List UInt8)
  env : List (List LinkAct)

/-- `p_ccb->in_use && p_ccb->chnl_state == CST_OPEN`. -/
def Node.isOpen (n : Node) : Bool := n.inUse && n.chnlState == .opened

/-- A channel that has just been opened. -/
def Node.init : Node where
  inUse := true
  chnlState := .opened
  fcrb := {}
  xmitHoldQ := []
  linkXmitDataQ := []
  lower := []
  written := []
  delivered := []
  env := []

variable (c : ChanCfg)

/-- `l2cu_get_fcs_len`: no FCS only when both sides configure it away. -/
def l2cuGetFcsLen : Nat :=
  if (c.peerCfg.fcsPresent && c.peerCfg.fcs == 0) && (c.ourCfg.fcsPresent && c.ourCfg.fcs == 0)
  then 0 else l2capFcsLen

/-- `l2c_fcr_start_timer`: only a timer that is not running is started. -/
def l2cFcrStartTimer (f : Fcrb) : Fcrb := { f with monRetransTimer := true }

/-- `l2c_fcr_stop_timer`. -/
def l2cFcrStopTimer (f : Fcrb) : Fcrb := { f with monRetransTimer := false }

/-- `l2c_fcr_is_flow_controlled`. -/
def l2cFcrIsFlowControlled (f : Fcrb) : Bool :=
  c.peerCfg.mode == .ertm &&
    (f.remoteBusy || decide (c.peerCfg.txWinSz ≤ f.waitingForAckQ.length))

/-! ### The scheduler's test -/

/-- What `l2cu_get_next_channel_in_rr` reads of a channel. -/
structure SchedInfo where
  isOpen : Bool
  transportLe : Bool
  mode : FcrMode
  waitAck : Bool
  remoteBusy : Bool
  retransEmpty : Bool
  holdEmpty : Bool
  flowControlled : Bool

/-- The tests of `l2cu_get_next_channel_in_rr` that let a channel be served. -/
def SchedInfo.rrEligible (i : SchedInfo) : Bool :=
  if !i.isOpen then false
  else if i.transportLe then !i.holdEmpty
  else if i.mode ≠ .basic then
    if i.waitAck || i.remoteBusy then false
    else if i.retransEmpty then
      if i.holdEmpty then false
      else !(i.mode == .ertm && i.flowControlled)
    else true
  else !i.holdEmpty

/-- A channel of this model, as the scheduler sees it. -/
def Node.schedInfo (n : Node) : SchedInfo where
  isOpen := n.chnlState == .opened
  transportLe := false
  mode := c.peerCfg.mode
  waitAck := n.fcrb.waitAck
  remoteBusy := n.fcrb.remoteBusy
  retransEmpty := n.fcrb.retransQ.isEmpty
  holdEmpty := n.xmitHoldQ.isEmpty
  flowControlled := l2cFcrIsFlowControlled c n.fcrb

/-! ### Sending -/

/-- The control word `prepare_I_frame` computes. On a retransmission it is the old one,
with ReqSeq and the F bit set anew. -/
def prepareCtrl (f : Fcrb) (b : BtHdr) (isRetransmission : Bool) : Nat :=
  let ctrl :=
    if isRetransmission then
      b.getU16 (b.offset + l2capPktOverhead) &&& not16 (reqSeqBits + fBit)
    else (b.layerSpecific &&& sarBits) ||| (f.nextTxSeq.val <<< 1)
  -- the F bit and ReqSeq are set only in retransmission mode
  if c.peerCfg.mode = .ertm then
    (if f.sendFRsp then ctrl ||| fBit else ctrl) ||| (f.nextSeqExpected.val <<< 8)
  else ctrl

/-- The state after `prepare_I_frame`. -/
def prepareFcrb (f : Fcrb) (isRetransmission : Bool) : Fcrb :=
  let f := { f with
    sendFRsp := false
    nextTxSeq := if isRetransmission then f.nextTxSeq else f.nextTxSeq.next }
  if c.peerCfg.mode = .ertm then
    l2cFcrStartTimer { f with lastAckSent := f.nextSeqExpected, ackTimer := false }
  else f

/-- The stores of `prepare_I_frame`: the control word, the length field, which counts the
FCS, and the FCS behind the payload. -/
def sealFrame (b : BtHdr) (ctrl : Nat) : Result BtHdr := do
  let fcsLen := l2cuGetFcsLen c
  let b ← b.putU16 (b.offset + l2capPktOverhead) ctrl
  let b ← b.putU16 b.offset (sub16 (b.len + fcsLen) l2capPktOverhead)
  if fcsLen ≠ 0 then do
    let b' ← b.putU16 (b.offset + b.len) (l2cFcrTxGetFcs b)
    pure { b' with len := u16 (b'.len + fcsLen) }
  else pure b

/-- `prepare_I_frame`: set the FCR variables in an I-frame that is about to be sent, for the
first time or again. -/
def prepareIFrame (f : Fcrb) (b : BtHdr) (isRetransmission : Bool) : Result (Fcrb × BtHdr) := do
  let b ← sealFrame c b (prepareCtrl c f b isRetransmission)
  pure (prepareFcrb c f isRetransmission, b)

/-- `p_buf->len -= n; p_buf->offset += n`, with the started mark in `event`. -/
def BtHdr.advance (b : BtHdr) (n cid : Nat) : BtHdr :=
  { b with event := cid, len := sub16 b.len n, offset := u16 (b.offset + n) }

/-- A segment cut from the head of `xmit_hold_q`: the buffer to send, the queue that
remains, the segment's place in the SDU, and the SDU length of a start segment. -/
structure CutSegment where
  xmit : BtHdr
  hold : List BtHdr
  sar : Sar
  sduLen : Nat

/-- The middle of `l2c_fcr_get_next_xmit_sdu_seg`: take the next segment off the
SDU `b` at the head of `xmit_hold_q`. The `event` field of a buffer tells whether its
segmentation has started. -/
def cutSegment (b : BtHdr) (rest : List BtHdr) (maxPdu : Nat) : Result CutSegment :=
  if b.len > maxPdu then do
    let firstSeg := b.event == 0
    let n := if firstSeg then sub16 maxPdu l2capSduLenOverhead else maxPdu
    let xmit ← l2cFcrCloneBuf b (l2capMinOffset + l2capSduLenOffset) n
    pure
      { xmit := { xmit with event := c.localCid, layerSpecific := b.layerSpecific }
        hold := b.advance n c.localCid :: rest
        sar := if firstSeg then .start else .cont
        sduLen := if firstSeg then b.len else 0 }
  else
    pure
      { xmit := { b with event := c.localCid }
        hold := rest
        sar := if b.event ≠ 0 then .final else .unseg
        sduLen := 0 }

/-- The end of `l2c_fcr_get_next_xmit_sdu_seg` up to `prepare_I_frame`: step back, write
the L2CAP header and the SDU length, and store the SAR type. -/
def addHeader (s : CutSegment) : Result BtHdr := do
  let overhead := l2capPktOverhead + l2capFcrOverhead
  let b := { s.xmit with
    offset := sub16 s.xmit.offset overhead, len := u16 (s.xmit.len + overhead) }
  let b :=
    if s.sar = .start then
      { b with offset := sub16 b.offset l2capSduLenOverhead
               len := u16 (b.len + l2capSduLenOverhead) }
    else b
  let b ← b.putU16 b.offset (sub16 b.len l2capPktOverhead)
  let b ← b.putU16 (b.offset + 2) c.remoteCid
  let b ← if s.sar = .start then b.putU16 (b.offset + 6) s.sduLen else pure b
  pure { b with layerSpecific := b.layerSpecific ||| s.sar.code }

/-- `l2c_fcr_get_next_xmit_sdu_seg`: the next frame to send, from `retrans_q` or
cut from `xmit_hold_q`. -/
def l2cFcrGetNextXmitSduSeg (n : Node) (maxPacketLength : Nat) : Result (Node × BtHdr) :=
  match n.fcrb.retransQ with
  | b :: q => do
    -- anything in the retransmit queue goes first
    let (f, b) ← prepareIFrame c { n.fcrb with retransQ := q } b true
    pure ({ n with fcrb := f }, { b with event := c.localCid })
  | [] =>
    let maxPdu :=
      if maxPacketLength > l2capMaxHeaderFcs ∧ c.txMps + l2capMaxHeaderFcs > maxPacketLength then
        maxPacketLength - l2capMaxHeaderFcs
      else c.txMps
    match n.xmitHoldQ with
    | [] => .error .nullDeref
    | b :: rest => do
      let seg ← cutSegment c b rest maxPdu
      let xmit ← addHeader c seg
      let (f, xmit) ← prepareIFrame c n.fcrb xmit false
      let f ←
        if c.peerCfg.mode = .ertm then do
          let wack ← l2cFcrCloneBuf xmit hciDataPreambleSize xmit.len
          -- the FCS is not saved
          let wack := { wack with
            len := sub16 wack.len (l2cuGetFcsLen c), layerSpecific := xmit.layerSpecific }
          pure { f with waitingForAckQ := f.waitingForAckQ ++ [wack] }
        else pure f
      pure ({ n with fcrb := f, xmitHoldQ := seg.hold }, xmit)

/-- One action at a point where the code calls out. -/
def linkAct (n : Node) : LinkAct → Result Node
  | .toLower =>
    match n.linkXmitDataQ with
    | [] => .ok n
    | b :: q => .ok { n with linkXmitDataQ := q, lower := n.lower ++ [b.bytes] }
  | .serve =>
    -- channels are served only once the link queue is empty
    if n.inUse && n.linkXmitDataQ.isEmpty && (n.schedInfo c).rrEligible then do
      let (n, b) ← l2cFcrGetNextXmitSduSeg c n 0
      pure { n with lower := n.lower ++ [b.bytes] }
    else .ok n
  | .write sdu =>
    -- `L2CEVT_L2CA_DATA_WRITE` in the open state: `l2c_enqueue_peer_data`
    if n.isOpen then
      .ok { n with
        xmitHoldQ := n.xmitHoldQ ++ [{ sdu.toBtHdr with event := 0 }]
        written := n.written ++ [sdu.bytes] }
    else .ok n
  | .disconnectReq =>
    if n.isOpen then .ok { n with chnlState := .w4L2capDisconnectRsp } else .ok n

/-- A list of actions, in order. -/
def runActs (n : Node) : List LinkAct → Result Node
  | [] => .ok n
  | a :: as => do
    let n ← linkAct c n a
    runActs n as

/-- A point where the code calls out: whatever `env` has next happens. -/
def callOut (n : Node) : Result Node :=
  match n.env with
  | [] => .ok n
  | acts :: env => runActs c { n with env := env } acts

/-- `l2c_link_check_send_pkts (p_lcb, 0, p_buf)`. -/
def l2cLinkCheckSendPkts (n : Node) (pBuf : Option BtHdr) : Result Node :=
  match pBuf with
  | none => callOut c n
  | some b =>
    callOut c { n with linkXmitDataQ := n.linkXmitDataQ ++
      [{ b with event := 0, layerSpecific := 0 }] }

/-- `l2cu_release_ccb`, with `l2c_fcr_cleanup`. -/
def l2cuReleaseCcb (n : Node) : Node :=
  { n with inUse := false, fcrb := {}, xmitHoldQ := [] }

/-- `l2cu_disconnect_chnl`: send a disconnect request (on the signalling channel,
which takes a pass over the link queue), release, and call back. -/
def l2cuDisconnectChnl (n : Node) : Result Node := do
  let n ← l2cLinkCheckSendPkts c n none
  callOut c (l2cuReleaseCcb n)

/-- The buffer `l2c_fcr_send_S_frame` builds. -/
def sFrameBuf (functionCode : Sup) (nextSeqExpected : SeqNum) (pfBit : Nat) : BtHdr :=
  let ctrl := (functionCode.code <<< 2) ||| sFrameBit ||| (nextSeqExpected.val <<< 8) ||| pfBit
  let fcsLen := l2cuGetFcsLen c
  let frame := le16 (l2capFcrOverhead + fcsLen) ++ le16 c.remoteCid ++ le16 ctrl
  let fcs := if fcsLen ≠ 0 then le16 (l2cFcrUpdcrc l2capFcrInitCrc frame) else []
  { len := l2capPktOverhead + l2capFcrOverhead + fcsLen
    offset := hciDataPreambleSize
    data := List.replicate hciDataPreambleSize 0 ++ (frame ++ fcs) }

/-- A poll sets `wait_ack` and restarts the monitor timer. -/
def startPoll (n : Node) (pfBit : Nat) : Node :=
  if pfBit = pBit then
    { n with fcrb := l2cFcrStartTimer (l2cFcrStopTimer { n.fcrb with waitAck := true }) }
  else n

/-- `l2c_fcr_send_S_frame`; `pfBit` is 0, `pBit` or `fBit`. -/
def l2cFcrSendSFrame (n : Node) (functionCode : Sup) (pfBit : Nat) : Result Node :=
  if !n.isOpen then .ok n
  else do
    let n ← l2cLinkCheckSendPkts c (startPoll n pfBit)
      (some (sFrameBuf c functionCode n.fcrb.nextSeqExpected pfBit))
    pure { n with fcrb := { n.fcrb with
      lastAckSent := n.fcrb.nextSeqExpected, ackTimer := false } }

/-! ### Retransmission and acknowledgement -/

/-- The frames of `waiting_for_ack_q` cloned for retransmission. -/
def cloneForRetrans : List BtHdr → Result (List BtHdr)
  | [] => .ok []
  | b :: q => do
    let b' ← l2cFcrCloneBuf b b.offset b.len
    let q' ← cloneForRetrans q
    pure ({ b' with layerSpecific := b.layerSpecific } :: q')

/-- TxSeq in the old control word of a frame in `waiting_for_ack_q`. -/
def BtHdr.txSeq (b : BtHdr) : SeqNum := txSeqOf (b.getU16 (b.offset + l2capPktOverhead))

/-- The frames `retransmit_i_frames` picks: the one with number `txSeq`, or all. -/
def retransNodes (waiting : List BtHdr) (txSeq : Nat) : List BtHdr :=
  if txSeq = l2cFcrRetxAllPkts then waiting
  else (waiting.dropWhile fun b => b.txSeq.val != txSeq).take 1

/-- Before all frames are sent again, this channel's I-frames are flushed from the link queue,
and so is the retransmission queue. -/
def flushForRetrans (n : Node) (txSeq : Nat) : Node :=
  if txSeq = l2cFcrRetxAllPkts then
    { n with
      linkXmitDataQ := n.linkXmitDataQ.filter fun t =>
        !(t.layerSpecific == 0 && t.event == c.localCid)
      fcrb := { n.fcrb with retransQ := [] } }
  else n

/-- `fixed_queue_enqueue (p_ccb->fcrb.retrans_q, ...)` for a list of frames. -/
def enqueueRetrans (n : Node) (q : List BtHdr) : Node :=
  { n with fcrb := { n.fcrb with retransQ := n.fcrb.retransQ ++ q } }

/-- Count a retransmission while frames wait for an acknowledgement. -/
def countTry (n : Node) : Node :=
  if n.fcrb.waitingForAckQ.length ≠ 0 then
    { n with fcrb := l2cFcrStartTimer { n.fcrb with numTries := u8 (n.fcrb.numTries + 1) } }
  else n

/-- `retransmit_i_frames`: queue again the frame with number `txSeq`, or all that wait
for an acknowledgement when `txSeq` is `L2C_FCR_RETX_ALL_PKTS`. The result is `false`
when the channel was disconnected. -/
def retransmitIFrames (n : Node) (txSeq : Nat) : Result (Node × Bool) :=
  if !n.fcrb.waitingForAckQ.isEmpty && c.peerCfg.maxTransmit != 0 &&
      decide (c.peerCfg.maxTransmit ≤ n.fcrb.numTries) then do
    let n ← l2cuDisconnectChnl c n
    pure (n, false)
  else if txSeq ≠ l2cFcrRetxAllPkts ∧ n.fcrb.waitingForAckQ = [] then
    pure (n, true)
  else do
    let clones ← cloneForRetrans (retransNodes n.fcrb.waitingForAckQ txSeq)
    let n ← l2cLinkCheckSendPkts c (enqueueRetrans (flushForRetrans c n txSeq) clones) none
    pure (countTry n, true)

/-- The release loop of `process_reqseq`: dequeue `k` frames, counting the SDUs that
end among them. -/
def releaseAcked : Nat → List BtHdr → Result (List BtHdr × Nat)
  | 0, q => .ok (q, 0)
  | _ + 1, [] => .error .nullDeref
  | k + 1, b :: q => do
    let (q, full) ← releaseAcked k q
    let sar := sarOf b.layerSpecific
    pure (q, if sar = .unseg ∨ sar = .final then full + 1 else full)

/-- If anything still waits for an ack, restart the timer if it was stopped. -/
def restartTimer (n : Node) : Node :=
  if n.fcrb.waitingForAckQ.isEmpty then n else { n with fcrb := l2cFcrStartTimer n.fcrb }

/-- The state once acknowledged frames are released. In a wait_ack state the timer is left
alone. -/
def releaseFrames (n : Node) (reqSeq : SeqNum) (waiting : List BtHdr) : Node :=
  { n with fcrb := { n.fcrb with
      lastRxAck := reqSeq
      numTries := 0
      waitingForAckQ := waiting
      monRetransTimer := if n.fcrb.waitAck then n.fcrb.monRetransTimer else false } }

/-- The TxComplete callback, called if an SDU was sent in full. -/
def txComplete (n : Node) (fullSdusXmitted : Nat) : Result Node :=
  if fullSdusXmitted ≠ 0 then callOut c n else .ok n

/-- `process_reqseq`: handle a receive sequence number. The result is `false` when the
channel was disconnected. -/
def processReqseq (n : Node) (ctrl : Nat) : Result (Node × Bool) :=
  if hasBit ctrl sFrameBit && ctrl &&& supBits == Sup.srej.code <<< 2 && !hasBit ctrl pBit then
    -- no acknowledgement in an SREJ without the P bit
    .ok (restartTimer n, true)
  else
    let reqSeq := reqSeqOf ctrl
    let numBufsAcked := seqDiff reqSeq n.fcrb.lastRxAck
    if numBufsAcked > n.fcrb.waitingForAckQ.length then do
      let n ← l2cuDisconnectChnl c n
      pure (n, false)
    else if numBufsAcked ≠ 0 then do
      let (waiting, fullSdusXmitted) ← releaseAcked numBufsAcked n.fcrb.waitingForAckQ
      let n ← txComplete c (releaseFrames n reqSeq waiting) fullSdusXmitted
      pure (restartTimer n, true)
    else .ok (restartTimer { n with fcrb := { n.fcrb with lastRxAck := reqSeq } }, true)

/-- A poll allows another REJ, and is answered by the next I-frame or S-frame. -/
def pollReceived (n : Node) (ctrl : Nat) : Node :=
  if hasBit ctrl pBit then { n with fcrb := { n.fcrb with rejSent := false, sendFRsp := true } }
  else n

/-- The switch of `process_s_frame`. -/
def sFrameAction (n : Node) (ctrl : Nat) : Result (Node × Bool) :=
  let free := { n with fcrb := { n.fcrb with remoteBusy := false } }
  match supOf ctrl with
  | .rr =>
    if hasBit ctrl fBit || n.fcrb.remoteBusy then retransmitIFrames c free l2cFcrRetxAllPkts
    else .ok (free, true)
  | .rej => retransmitIFrames c free l2cFcrRetxAllPkts
  | .rnr => .ok ({ n with fcrb := l2cFcrStopTimer { n.fcrb with remoteBusy := true } }, true)
  | .srej => retransmitIFrames c free (reqSeqOf ctrl).val

/-- If polled, respond with the F bit, unless an I-frame has done so. -/
def answerPoll (n : Node) : Result Node :=
  if n.fcrb.sendFRsp then do
    let n ← l2cFcrSendSFrame c n (if n.fcrb.srejSent then .srej else .rr) fBit
    pure { n with fcrb := { n.fcrb with sendFRsp := false } }
  else .ok n

/-- `process_s_frame`. -/
def processSFrame (n : Node) (ctrl : Nat) : Result Node := do
  let (n, allOk) ← sFrameAction c (pollReceived n ctrl) ctrl
  if allOk then answerPoll c n else pure n

/-! ### Receiving -/

/-- `l2c_csm_execute (p_ccb, L2CEVT_L2CAP_DATA, p_buf)`: an open channel hands the SDU to
the upper layer, any other state frees it. -/
def csmData (n : Node) (b : BtHdr) : Result Node :=
  if n.isOpen then callOut c { n with delivered := n.delivered ++ [b.bytes] } else .ok n

/-- The second half of `do_sar_reassembly`: append the payload of `b` to the SDU that is
being received, and hand the SDU over when `b` was its last segment. -/
def appendToRxSdu (n : Node) (sdu b : BtHdr) (sar : Sar) : Result (Node × Bool) :=
  if sdu.len + b.len > n.fcrb.rxSduLen then .ok (n, false)
  else if sar = .final ∧ sdu.len + b.len ≠ n.fcrb.rxSduLen then .ok (n, false)
  else
    let sdu' := { sdu with
      data := blit sdu.data (sdu.offset + sdu.len) b.bytes, len := u16 (sdu.len + b.len) }
    if sar = .final then do
      let n ← csmData c { n with fcrb := { n.fcrb with pRxSdu := none } } sdu'
      pure (n, true)
    else .ok ({ n with fcrb := { n.fcrb with pRxSdu := some sdu' } }, true)

/-- `do_sar_reassembly`: `false` when the frame does not fit the segmentation state. -/
def doSarReassembly (n : Node) (b : BtHdr) (ctrl : Nat) : Result (Node × Bool) :=
  match sarOf ctrl, n.fcrb.pRxSdu with
  | .unseg, some _ => .ok (n, false)
  | .unseg, none => do
    let n ← csmData c n b
    pure (n, true)
  | .start, some _ => .ok (n, false)
  | .start, none =>
    if b.len < l2capSduLenOverhead then .ok (n, false)
    else
      let rxSduLen := b.getU16 b.offset
      let b := { b with offset := u16 (b.offset + 2), len := sub16 b.len 2 }
      let n := { n with fcrb := { n.fcrb with rxSduLen := rxSduLen } }
      if rxSduLen > c.maxRxMtu then .ok (n, false)
      else
        let sdu : BtHdr :=
          { len := 0, offset := obxBufMinOffset
            data := List.replicate (obxBufMinOffset + rxSduLen) 0 }
        appendToRxSdu c { n with fcrb := { n.fcrb with pRxSdu := some sdu } } sdu b .start
  | _, none => .ok (n, false)
  | sar, some sdu => appendToRxSdu c n sdu b sar

/-- A frame whose number is not the expected one: a duplicate, a frame to hold while an
SREJ is outstanding, or the first sign of a loss. -/
def outOfSequence (n : Node) (b : BtHdr) (txSeq : SeqNum) : Result Node :=
  let f := n.fcrb
  let numLost := seqDiff txSeq f.nextSeqExpected
  if c.ourCfg.txWinSz ≤ numLost then
    -- duplicate - simply drop it
    .ok n
  else if f.srejSent then
    match f.srejRcvHoldQ.getLast? with
    | none => .error .nullDeref
    | some last =>
      if txSeq = seqMask (last.layerSpecific + 1) ∧ f.srejRcvHoldQ.length < c.ourCfg.txWinSz then
        .ok { n with fcrb := { f with
          srejRcvHoldQ := f.srejRcvHoldQ ++ [{ b with layerSpecific := txSeq.val }] } }
      else .ok { n with fcrb := { f with rejAfterSrej := true } }
  else if f.rejSent then .ok n
  else do
    let n ←
      if numLost > 1 then l2cFcrSendSFrame c { n with fcrb := { f with rejSent := true } } .rej 0
      else
        l2cFcrSendSFrame c { n with fcrb := { f with
          srejRcvHoldQ := f.srejRcvHoldQ ++ [{ b with layerSpecific := txSeq.val }]
          srejSent := true } } .srej 0
    pure { n with fcrb := { n.fcrb with ackTimer := false } }

/-- The end of `process_i_frame`: acknowledge now, or start the timer that will. -/
def ackIFrame (n : Node) (delayAck : Bool) : Result Node :=
  let numToAck := seqDiff n.fcrb.nextSeqExpected n.fcrb.lastAckSent
  let delayAck := delayAck || decide (numToAck < c.maxHeldAcks)
  if numToAck ≠ 0 ∧ n.isOpen then
    if delayAck then .ok { n with fcrb := { n.fcrb with ackTimer := true } }
    else if (n.xmitHoldQ.isEmpty || l2cFcrIsFlowControlled c n.fcrb) &&
        n.fcrb.srejRcvHoldQ.isEmpty then
      l2cFcrSendSFrame c n .rr 0
    else .ok n
  else .ok n

/-- A frame with the expected number. -/
def inSequence (n : Node) (b : BtHdr) (ctrl : Nat) (delayAck : Bool) : Result Node := do
  let (n, ok) ← doSarReassembly c { n with fcrb := { n.fcrb with
    rejSent := false, srejSent := false, nextSeqExpected := (txSeqOf ctrl).next } } b ctrl
  if ok then ackIFrame c n delayAck else l2cuDisconnectChnl c n

/-- If we were doing checkpoint recovery, first retransmit all unacked I-frames. -/
def finalReceived (n : Node) (ctrl : Nat) : Result (Node × Bool) :=
  if hasBit ctrl fBit then retransmitIFrames c n l2cFcrRetxAllPkts else .ok (n, true)

/-- `process_i_frame`. -/
def processIFrame (n : Node) (b : BtHdr) (ctrl : Nat) (delayAck : Bool) : Result Node := do
  let (n, ok) ← finalReceived c n ctrl
  if !ok then pure n
  else if txSeqOf ctrl ≠ n.fcrb.nextSeqExpected then outOfSequence c n b (txSeqOf ctrl)
  else inSequence c n b ctrl delayAck

/-- A frame taken off `srej_rcv_hold_q`. No RR is sent for each frame. -/
def processHeld (n : Node) (b : BtHdr) : Result Node :=
  if n.isOpen then processIFrame c n b (b.getU16 (b.offset - l2capFcrOverhead)) true else .ok n

/-- If more frames were lost during SREJ, send a REJ. -/
def rejAfterHeld (n : Node) : Result Node :=
  if n.fcrb.rejAfterSrej then
    l2cFcrSendSFrame c
      { n with fcrb := { n.fcrb with rejAfterSrej := false, rejSent := true } } .rej 0
  else .ok n

/-- The loop of `l2c_fcr_proc_pdu` over the frames held during an SREJ. -/
def drainHoldQ : Node → List BtHdr → Result Node
  | n, [] => .ok n
  | n, b :: q => do
    let n ← processHeld c n b
    let n ← rejAfterHeld c n
    drainHoldQ n q

/-- One RR for the whole held queue, if needed. -/
def ackHeld (n : Node) : Result Node :=
  if !n.fcrb.rejSent && !n.fcrb.srejSent && n.fcrb.nextSeqExpected != n.fcrb.lastAckSent then
    l2cFcrSendSFrame c n .rr 0
  else .ok n

/-- If buffers were held while doing SREJ, and SREJ has cleared, process them now. -/
def processHoldQ (n : Node) : Result Node :=
  if !n.fcrb.srejSent && !n.fcrb.srejRcvHoldQ.isEmpty then do
    let n ← drainHoldQ c { n with fcrb := { n.fcrb with srejRcvHoldQ := [] } } n.fcrb.srejRcvHoldQ
    ackHeld c n
  else .ok n

/-- If a window has opened, check if more packets can be sent. -/
def sendMore (n : Node) : Result Node :=
  if (!n.fcrb.retransQ.isEmpty || !n.xmitHoldQ.isEmpty) && !n.fcrb.waitAck &&
      !l2cFcrIsFlowControlled c n.fcrb then
    l2cLinkCheckSendPkts c n none
  else .ok n

/-- `process_s_frame` or `process_i_frame`. -/
def dispatchFrame (n : Node) (b : BtHdr) (ctrl : Nat) : Result Node :=
  if hasBit ctrl sFrameBit then processSFrame c n ctrl else processIFrame c n b ctrl false

/-- The part of `l2c_fcr_proc_pdu` after the checks: `b` starts behind the control word
`ctrl`. -/
def processFrame (n : Node) (b : BtHdr) (ctrl : Nat) : Result Node := do
  let (n, ok) ← processReqseq c n ctrl
  if !ok then pure n
  else do
    let n ← dispatchFrame c n b ctrl
    -- the channel may have been disconnected by a bad packet or max retransmissions
    if !n.isOpen then pure n
    else do
      let n ← processHoldQ c n
      sendMore c n

/-- `l2c_fcr_proc_pdu`: a PDU has arrived; `b` starts behind its L2CAP header. -/
def l2cFcrProcPdu (n : Node) (b : BtHdr) : Result Node :=
  let fcsLen := l2cuGetFcsLen c
  if b.len < fcsLen + l2capFcrOverhead then .ok n
  else
    let fcs := b.getU16 (b.offset + b.len - fcsLen)
    let b := { b with len := sub16 b.len fcsLen }
    if fcsLen ≠ 0 ∧ l2cFcrRxGetFcs b ≠ fcs then .ok n
    else
      let ctrl := b.getU16 b.offset
      let b :=
        { b with len := sub16 b.len l2capFcrOverhead, offset := u16 (b.offset + l2capFcrOverhead) }
      if n.fcrb.waitAck then
        if !hasBit ctrl fBit then
          -- without the final bit only a poll is answered
          if hasBit ctrl pBit && hasBit ctrl sFrameBit then do
            let n ← l2cFcrSendSFrame c n (if n.fcrb.srejSent then .srej else .rr) fBit
            pure { n with fcrb := { n.fcrb with monRetransTimer := true } }
          else .ok n
        else
          let ctrl := if hasBit ctrl sFrameBit then ctrl &&& not16 pBit else ctrl
          let f := { n.fcrb with
            waitAck := false
            numTries := if n.fcrb.waitingForAckQ.isEmpty then 0 else n.fcrb.numTries }
          processFrame c { n with fcrb := l2cFcrStopTimer f } b ctrl
      else processFrame c n b (ctrl &&& not16 fBit)

/-- `l2c_rcv_acl_data`, for an L2CAP frame `g` that arrives on the link: only a frame for this
channel with a correct length field, while the channel is open, is processed. -/
def l2cRcvAclData (n : Node) (g : List UInt8) : Result Node :=
  if g.length < l2capPktOverhead then .ok n
  else if rd16 g 2 ≠ c.localCid then .ok n
  else if rd16 g 0 ≠ g.length - l2capPktOverhead then .ok n
  else if n.isOpen then
    l2cFcrProcPdu c n
      { len := g.length - l2capPktOverhead
        offset := hciDataPreambleSize + l2capPktOverhead
        data := List.replicate hciDataPreambleSize 0 ++ g }
  else .ok n

/-! ### Timeouts -/

/-- `l2c_fcr_proc_tout`: the monitor or retransmission timer has expired. -/
def l2cFcrProcTout (n : Node) : Result Node :=
  let tries := u8 (n.fcrb.numTries + 1)
  let counted := { n with fcrb := { n.fcrb with numTries := tries } }
  if c.peerCfg.maxTransmit ≠ 0 ∧ tries > c.peerCfg.maxTransmit then l2cuDisconnectChnl c counted
  else
    let n := if c.peerCfg.maxTransmit ≠ 0 then counted else n
    if !n.fcrb.srejSent && !n.fcrb.rejSent then l2cFcrSendSFrame c n .rr pBit else .ok n

/-- `l2c_fcr_proc_ack_tout`: send an RR if an I-frame has not been acknowledged. -/
def l2cFcrProcAckTout (n : Node) : Result Node :=
  if n.chnlState = .opened ∧ !n.fcrb.waitAck ∧ n.fcrb.lastAckSent ≠ n.fcrb.nextSeqExpected then
    l2cFcrSendSFrame c n .rr 0
  else .ok n

end BluetoothStack.L2cap
