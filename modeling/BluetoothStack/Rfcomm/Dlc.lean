import BluetoothStack.Rfcomm.Ports

/-!
# BluetoothStack.Rfcomm.Dlc

The data path of one port: the transmit and receive queues, the modem status handshake that
gates them, parameter negotiation, and the credits of both directions.

The port is attached to its multiplexer and the entry in the multiplexer's table is its own;
the fields of the multiplexer that the port reads are kept beside those of the port, and what
other ports do to them comes as events. The port is followed until it is released. It has no
data callbacks, so that received data goes to its own queue. Events for the application are
left out.
-/

namespace BluetoothStack.Rfcomm

/-! ### Control block -/

def rfcommDefaultMtu : Nat := 127
def rfcommMinMtu : Nat := 23
def rfcommMaxMtu : Nat := 32767
def rfcommKMax : Nat := 7

def l2capMtuSize : Nat := 1691
def l2capPktOverhead : Nat := 4
def rfcommDataOverhead : Nat := 6
/-- `BTA_RFC_MTU_SIZE`. -/
def btaRfcMtuSize : Nat := l2capMtuSize - 13 - rfcommDataOverhead

def portRxBufLowWm : Nat := 8
def portRxBufHighWm : Nat := 10
def portRxBufCriticalWm : Nat := 15
def portRxLowWm : Nat := btaRfcMtuSize * portRxBufLowWm
def portRxHighWm : Nat := btaRfcMtuSize * portRxBufHighWm
def portRxCriticalWm : Nat := btaRfcMtuSize * portRxBufCriticalWm
def portTxBufHighWm : Nat := 10
def portTxBufCriticalWm : Nat := 15
def portTxHighWm : Nat := btaRfcMtuSize * portTxBufHighWm
def portTxCriticalWm : Nat := btaRfcMtuSize * portTxBufCriticalWm

/-- What fits a buffer of `RFCOMM_DATA_BUF_SIZE` behind its header and offset. -/
def dataBufRoom : Nat := 4096 + 16 - (8 + 13 + rfcommDataOverhead)

/-- The convergence layers of a PN message. -/
def convLayerType1 : Nat := 0
def convLayerCbfcI : Nat := 0xF0
def convLayerCbfcR : Nat := 0xE0

/-- The flow control mechanism of a multiplexer. -/
inductive Flow where
  | undefined | ts710 | credit
deriving DecidableEq, Repr

/-- What passes between the port, its application and the peer. -/
inductive Entry where
  /-- `PORT_WriteData` takes these bytes. -/
  | accepted (bytes : List UInt8)
  /-- A data frame is handed to L2CAP, while `peer_mtu` has this value. -/
  | data (payload : List UInt8) (credits peerMtu : Nat)
  /-- A credit frame is sent. -/
  | credit (n : Nat)
  /-- Initial credits are sent in a PN message. -/
  | initialCredits (k : Nat)
  /-- The initial credits of the peer are taken from a PN message. -/
  | negotiated (k : Nat)
  /-- A UIH frame of the peer carries credits. -/
  | granted (n : Nat)
  /-- A data frame of the peer arrives. -/
  | received
  /-- It is dropped; `buffers` if there were too many buffers. -/
  | dropped (buffers : Bool)
deriving DecidableEq, Repr

/-- The port control block, and what it reads of its multiplexer. -/
structure Dlc where
  isServer : Bool
  /-- The service is dial-up networking or fax. -/
  dialup : Bool
  /-- `rfc_cfg_info.init_credit`, if it is present. -/
  initCredit : Option Nat
  state : PortState
  sm : RfcState
  mtu : Nat
  peerMtu : Nat
  txQueue : List (List UInt8)
  txQueueSize : Nat
  txPeerFc : Bool
  rxQueue : List (List UInt8)
  rxQueueSize : Nat
  rxPeerFc : Bool
  rxUserFc : Bool
  /-- `PORT_CTRL_REQ_SENT`, `PORT_CTRL_REQ_CONFIRMED` and `PORT_CTRL_IND_RECEIVED`. -/
  reqSent : Bool
  reqConfirmed : Bool
  indReceived : Bool
  /-- `expected_rsp` has `RFC_RSP_PN`, `RFC_RSP_MSC`. -/
  expectsPn : Bool
  expectsMsc : Bool
  /-- `local_ctrl.fc`. -/
  localFc : Bool
  /-- `line_status` is not 0. -/
  lineStatus : Bool
  creditTx : Nat
  creditRx : Nat
  creditRxMax : Nat
  creditRxLow : Nat
  rxBufCritical : Nat
  muxState : MxState
  flow : Flow
  peerReady : Bool
  l2capCongested : Bool
  peerL2capMtu : Nat
  /-- `rfc_cb.rfc.peer_rx_disabled`. -/
  peerRxDisabled : Bool
  log : List Entry
deriving DecidableEq, Repr

namespace Dlc

def note (s : Dlc) (e : Entry) : Dlc := { s with log := s.log ++ [e] }

/-! ### Sending -/

/-- `rfc_dec_credit`. -/
def rfcDecCredit (s : Dlc) : Dlc :=
  if s.flow = .credit then
    { s with creditTx := s.creditTx - 1, txPeerFc := s.txPeerFc || s.creditTx - 1 == 0 }
  else s

/-- A data frame also brings credits to the peer. -/
def piggybacks (s : Dlc) (len : Nat) : Bool :=
  s.flow == .credit && decide (len < s.peerMtu) && !s.rxUserFc && decide
    (s.creditRx < s.creditRxMax)

/-- `RFCOMM_DataReq`: `RFC_PORT_EVENT_DATA`, which frees the buffer unless the port is open. -/
def rfcommDataReq (s : Dlc) (buf : List UInt8) : Dlc :=
  match s.sm with
  | .opened =>
    if s.piggybacks buf.length then
      rfcDecCredit ({ s with creditRx := s.creditRxMax }.note
        (.data buf ((s.creditRxMax - s.creditRx) % 256) s.peerMtu))
    else rfcDecCredit (s.note (.data buf 0 s.peerMtu))
  | _ => s

/-- The loop of `port_rfc_send_tx_data`, for at most `fuel` buffers. -/
def sendLoop : Nat → Dlc → Dlc
  | 0, s => s
  | fuel + 1, s =>
    if s.txPeerFc || !s.peerReady then s
    else
      match s.txQueue with
      | [] => s
      | buf :: rest =>
        let s := { s with txQueue := rest, txQueueSize := s.txQueueSize - buf.length }
        let s := s.rfcommDataReq buf
        if s.txQueueSize = 0 then s else sendLoop fuel s

/-- `port_rfc_send_tx_data`. -/
def portRfcSendTxData (s : Dlc) : Dlc :=
  if s.txQueueSize > 0 then sendLoop s.txQueue.length s else s

/-- What `port_write` asks for before it sends a buffer at once. -/
def maySend (s : Dlc) : Bool :=
  !s.txPeerFc && s.peerReady && s.sm == .opened && s.reqSent && s.indReceived

/-- The results of `port_write`. -/
inductive WriteResult where
  | success | cmdPending | closed | txFull
deriving DecidableEq, Repr

/-- `port_write`. -/
def portWrite (s : Dlc) (buf : List UInt8) : WriteResult × Dlc :=
  if s.isServer && s.sm != .opened then (.closed, s)
  else if !s.maySend then
    if s.txQueueSize > portTxCriticalWm ∨ s.txQueue.length > portTxBufCriticalWm then (.txFull, s)
    else
      (.cmdPending,
        { s with txQueue := s.txQueue ++ [buf], txQueueSize := s.txQueueSize + buf.length })
  else (.success, s.rfcommDataReq buf)

/-- The loop of `PORT_WriteData`; each turn takes at least one byte of the data. -/
def writeLoop : Nat → Nat → Dlc → List UInt8 → Dlc
  | 0, _, s, _ => s
  | fuel + 1, length, s, data =>
    if data = [] then s
    else if s.txQueueSize > portTxHighWm ∨ s.txQueue.length > portTxBufHighWm then s
    else
      let length := min (min length s.peerMtu) data.length
      match s.portWrite (data.take length) with
      | (.closed, s) | (.txFull, s) => s
      | (.success, s) | (.cmdPending, s) =>
        writeLoop fuel length (s.note (.accepted (data.take length))) (data.drop length)

/-- The data fits behind the last buffer that waits. -/
def fitsLast (s : Dlc) (data : List UInt8) : Bool :=
  match s.txQueue.getLast? with
  | none => false
  | some buf => buf.length + data.length ≤ s.peerMtu ∧ buf.length + data.length ≤ dataBufRoom

/-- `PORT_WriteData`. -/
def portWriteData (s : Dlc) (data : List UInt8) : Dlc :=
  if s.state = .closed ∨ data = [] ∨ s.peerMtu = 0 then s
  else if s.fitsLast data then
    { s with
      txQueue := s.txQueue.dropLast ++ [s.txQueue.getLast?.getD [] ++ data]
      txQueueSize := s.txQueueSize + data.length }.note (.accepted data)
  else writeLoop data.length dataBufRoom s data

/-! ### Flow control by the peer -/

/-- `PORT_FlowInd` for the port. -/
def portFlowInd (s : Dlc) (enable : Bool) : Dlc :=
  portRfcSendTxData { s with txPeerFc := !enable }

/-- `PORT_FlowInd` for the multiplexer. -/
def muxFlowInd (s : Dlc) (enable : Bool) : Dlc :=
  let s := { s with peerReady := enable }
  if s.sm = .opened then s.portRfcSendTxData else s

/-- `rfc_inc_credit`. -/
def rfcIncCredit (s : Dlc) (credit : Nat) : Dlc :=
  if s.flow = .credit then
    let s := { s with creditTx := (s.creditTx + credit) % 65536 }.note (.granted credit)
    if s.txPeerFc then s.portFlowInd true else s
  else s

/-- `rfc_process_fcon`, command. -/
def rfcProcessFcon (s : Dlc) : Dlc :=
  let s := { s with peerRxDisabled := false }
  if !s.l2capCongested then s.muxFlowInd true else s

/-- `rfc_process_fcoff`, command. -/
def rfcProcessFcoff (s : Dlc) : Dlc :=
  let s := { s with peerRxDisabled := true }
  if !s.l2capCongested then s.muxFlowInd false else s

/-- `rfc_process_l2cap_congestion`. -/
def rfcProcessL2capCongestion (s : Dlc) (isCongested : Bool) : Dlc :=
  let s := { s with l2capCongested := isCongested }
  if !s.peerRxDisabled then s.muxFlowInd !isCongested else s

/-! ### Modem status -/

/-- `RFCOMM_ControlReq`. -/
def rfcommControlReq (s : Dlc) : Dlc :=
  if s.state = .opened ∧ s.sm = .opened then { s with reqSent := true, expectsMsc := true } else s

/-- `RFCOMM_FlowReq`. -/
def rfcommFlowReq (s : Dlc) (enable : Bool) : Dlc :=
  if s.state = .opened ∧ s.sm = .opened then { s with localFc := !enable, expectsMsc := true }
  else s

/-- `PORT_ControlInd`. -/
def portControlInd (s : Dlc) : Dlc :=
  let s :=
    if !s.reqSent then s.rfcommControlReq
    else if s.reqConfirmed then s.portRfcSendTxData
    else s
  { s with indReceived := true }

/-- `PORT_ControlCnf`. -/
def portControlCnf (s : Dlc) : Dlc :=
  let s := { s with reqConfirmed := true }
  if s.indReceived then s.portRfcSendTxData else s

/-- `rfc_process_msc`, command. -/
def mscCommand (s : Dlc) (fc : Bool) : Dlc :=
  let s := if s.flow ≠ .credit ∧ fc ≠ s.txPeerFc then s.portFlowInd !fc else s
  s.portControlInd

/-- `rfc_process_msc`, response. -/
def mscResponse (s : Dlc) : Dlc :=
  if s.expectsMsc then { s with expectsMsc := false }.portControlCnf else s

/-! ### Parameter negotiation -/

/-- `port_select_mtu`; the packet size of the link is an input. -/
def portSelectMtu (s : Dlc) (packetSize : Nat) : Dlc :=
  let mtu :=
    if s.mtu ≠ 0 then s.mtu
    else if packetSize = 0 then rfcommDefaultMtu
    else if packetSize ≤ l2capMtuSize + l2capPktOverhead then
      (l2capMtuSize + l2capPktOverhead) / packetSize * packetSize - rfcommDataOverhead
        - l2capPktOverhead
    else l2capMtuSize - rfcommDataOverhead
  { s with
    mtu := mtu
    creditRxMax := min (portRxHighWm / mtu) portRxBufHighWm
    creditRxLow := min (portRxLowWm / mtu) portRxBufLowWm
    rxBufCritical := min (portRxCriticalWm / mtu) portRxBufCriticalWm }

/-- The initial credits for the peer. -/
def initialK (s : Dlc) : Nat :=
  match s.initCredit with
  | some c => c % 256
  | none => if s.creditRxMax < rfcommKMax then s.creditRxMax else rfcommKMax

/-- `port_get_credits`. -/
def portGetCredits (s : Dlc) (k : Nat) : Dlc :=
  { s with creditTx := k, txPeerFc := s.txPeerFc || k == 0 }.note (.negotiated k)

/-- The MTU of the port becomes the smaller of its own and the peer's. -/
def takeMtu (s : Dlc) (mtu : Nat) : Dlc := { s with mtu := min s.mtu mtu, peerMtu := min s.mtu mtu }

/-- The flow control mechanism of the multiplexer, if none is set yet. -/
def settleFlow (s : Dlc) (flow : Flow) : Dlc :=
  if s.flow = .undefined then { s with flow := flow } else s

/-- The credits of a PN command are taken, and the response brings the peer its own. -/
def exchangeCredits (s : Dlc) (k : Nat) : Dlc :=
  let s := { s.portGetCredits k with creditRx := s.initialK }
  if s.muxState = .connected then s.note (.initialCredits s.initialK) else s

/-- `PORT_ParNegInd`. -/
def portParNegInd (s : Dlc) (mtu cl k packetSize : Nat) : Dlc :=
  let s := (s.portSelectMtu packetSize).takeMtu mtu
  let s := s.settleFlow (if cl = convLayerType1 then .ts710 else .credit)
  if cl ≠ convLayerType1 ∧ s.flow = .credit then s.exchangeCredits k else s

/-- `RFC_PORT_EVENT_OPEN`. -/
def portSmOpen (s : Dlc) : Dlc :=
  match s.sm with
  | .closed => { s with sm := .origWaitSecCheck }
  | _ => s

/-- The flow control mechanism, the MTU and the credits of a PN response are taken. -/
def takeResponse (s : Dlc) (mtu cl k : Nat) : Dlc :=
  let s := (s.settleFlow (if cl = convLayerCbfcR then .credit else .ts710)).takeMtu mtu
  if s.flow = .credit then s.portGetCredits k else s

/-- `PORT_ParNegCnf`; the port is released where the multiplexer is not connected. -/
def portParNegCnf (s : Dlc) (mtu cl k : Nat) : Option Dlc :=
  let s := s.takeResponse mtu cl k
  if s.state = .opening then
    if s.muxState ≠ .connected then none else some s.portSmOpen
  else some s

/-- The check of the MTU of a PN message. -/
def validPnMtu (mtu : Nat) : Bool := rfcommMinMtu ≤ mtu && mtu ≤ rfcommMaxMtu

/-- `rfc_process_pn`, command. -/
def pnCommand (s : Dlc) (mtu cl k packetSize : Nat) : Dlc :=
  if validPnMtu mtu && s.muxState != .discWaitUa then s.portParNegInd mtu cl k packetSize else s

/-- `rfc_process_pn`, response. -/
def pnResponse (s : Dlc) (mtu cl k : Nat) : Option Dlc :=
  if validPnMtu mtu && s.expectsPn then { s with expectsPn := false }.portParNegCnf mtu cl k
  else some s

/-- `RFCOMM_ParameterNegotiationRequest`. -/
def negotiationRequest (s : Dlc) : Dlc :=
  if s.muxState ≠ .connected then s
  else if s.flow ≠ .ts710 then
    { s with creditRx := s.initialK, expectsPn := true }.note (.initialCredits s.initialK)
  else { s with expectsPn := true }

/-- The part of `port_open_continue` behind the registration. -/
def portOpenContinue (s : Dlc) (packetSize : Nat) : Dlc :=
  (s.portSelectMtu packetSize).negotiationRequest

/-! ### Establishing and releasing -/

/-- If the MTU of L2CAP is smaller, it is taken. -/
def takeL2capMtu (s : Dlc) : Dlc :=
  if s.peerL2capMtu ≠ 0 ∧ s.peerL2capMtu < s.peerMtu then { s with peerMtu := s.peerL2capMtu }
    else s

/-- `RFC_PORT_EVENT_SABME`. -/
def portSmSabme (s : Dlc) : Dlc :=
  match s.sm with
  | .closed => { s with sm := .termWaitSecCheck }
  | _ => s

/-- `RFC_PORT_EVENT_SEC_COMPLETE` with success. -/
def secComplete (s : Dlc) : Option Dlc :=
  match s.sm with
  | .termWaitSecCheck =>
    if s.muxState ≠ .connected then none
    else some { s.takeL2capMtu with sm := .opened, state := .opened }
  | .origWaitSecCheck => some { s with sm := .sabmeWaitUa }
  | _ => some s

/-- `RFC_PORT_EVENT_UA`. -/
def portSmUa (s : Dlc) : Option Dlc :=
  match s.sm with
  | .sabmeWaitUa =>
    let s := { s.takeL2capMtu with sm := .opened, state := .opened }
    if s.dialup then if s.muxState ≠ .connected then none else some s
    else some s.rfcommControlReq
  | .discWaitUa => none
  | _ => some s

/-- `PORT_PortNegCnf` with success. -/
def portPortNegCnf (s : Dlc) : Dlc := if !s.reqSent then s.rfcommControlReq else s

/-- `RFC_PORT_EVENT_DISC`. -/
def portSmDisc (s : Dlc) : Option Dlc :=
  match s.sm with
  | .opened => if s.rxQueue ≠ [] then some { s with sm := .closed } else none
  | .sabmeWaitUa | .termWaitSecCheck => none
  | _ => some s

/-- `RFCOMM_RemoveConnection`. -/
def removeConnection (s : Dlc) : Option Dlc :=
  let s := { s with state := .closing, lineStatus := true }
  match s.sm with
  | .closed | .origWaitSecCheck => none
  | .sabmeWaitUa | .opened =>
    some { s with sm := .discWaitUa, expectsPn := false, expectsMsc := false }
  | .termWaitSecCheck | .discWaitUa => some s

/-! ### Receiving -/

/-- `port_flow_control_peer`. -/
def portFlowControlPeer (s : Dlc) (enable : Bool) (count : Nat) : Dlc :=
  if s.flow = .credit then
    if enable then
      let s := { s with creditRx := s.creditRx - count }
      if s.creditRx ≤ s.creditRxLow ∧ !s.rxUserFc ∧ s.creditRxMax > s.creditRx then
        { s with creditRx := s.creditRxMax, rxPeerFc := false }.note
          (.credit ((s.creditRxMax - s.creditRx) % 256))
      else s
    else if s.rxQueue.length ≥ s.creditRxMax then { s with rxPeerFc := true }
    else s
  else if enable then
    if s.rxPeerFc ∧ s.rxQueueSize < portRxLowWm ∧ s.rxQueue.length < portRxBufLowWm then
      let s := { s with rxPeerFc := false }
      if !s.rxUserFc then s.rfcommFlowReq true else s
    else s
  else if (s.rxQueueSize > portRxHighWm ∨ s.rxQueue.length > portRxBufHighWm) ∧ !s.rxPeerFc then
    { s with rxPeerFc := true }.rfcommFlowReq false
  else s

/-- `PORT_DataInd`. -/
def portDataInd (s : Dlc) (buf : List UInt8) : Dlc :=
  if s.rxQueueSize + buf.length > portRxCriticalWm ∨ s.rxQueue.length + 1 > s.rxBufCritical then
    s.note (.dropped (s.rxQueue.length + 1 > s.rxBufCritical))
  else
    { s with
      rxQueue := s.rxQueue ++ [buf]
      rxQueueSize := s.rxQueueSize + buf.length }.portFlowControlPeer false 0

/-- `RFC_PORT_EVENT_UIH` with data. -/
def portSmUih (s : Dlc) (buf : List UInt8) : Dlc :=
  let s := s.note .received
  match s.sm with
  | .opened => s.portDataInd buf
  | _ => s

/-- `RFCOMM_BufDataInd` for a UIH frame. -/
def uih (s : Dlc) (buf : List UInt8) (credit : Nat) : Dlc :=
  let s := if buf ≠ [] then s.portSmUih buf else s
  if credit ≠ 0 then s.rfcIncCredit credit else s

/-- The loop of `PORT_ReadData`: the bytes read, the buffers left, and how many were emptied. -/
def readLoop : List (List UInt8) → Nat → List UInt8 × List (List UInt8) × Nat
  | [], _ => ([], [], 0)
  | buf :: rest, maxLen =>
    if maxLen = 0 then ([], buf :: rest, 0)
    else if buf.length > maxLen then (buf.take maxLen, buf.drop maxLen :: rest, 0)
    else
      let (bytes, left, count) := readLoop rest (maxLen - buf.length)
      (buf ++ bytes, left, count + 1)

/-- `PORT_ReadData`. -/
def portReadData (s : Dlc) (maxLen : Nat) : Dlc :=
  if s.state = .closed ∨ s.lineStatus ∨ s.rxQueue = [] then s
  else
    let (bytes, left, count) := readLoop s.rxQueue maxLen
    { s with
      rxQueue := left
      rxQueueSize := s.rxQueueSize - bytes.length }.portFlowControlPeer true count

/-- `PORT_FlowControl_MaxCredit`. -/
def portFlowControlMaxCredit (s : Dlc) (enable : Bool) : Dlc :=
  if s.state = .closed then s
  else
    let s := { s with rxUserFc := !enable }
    if s.flow = .credit then
      if !s.rxUserFc then s.portFlowControlPeer true s.creditRx else s
    else
      let old := s.localFc
      let s := { s with localFc := s.rxUserFc || s.rxPeerFc }
      if s.localFc ≠ old then s.rfcommControlReq else s

/-! ### Steps -/

/-- What can happen to the port. -/
inductive Event where
  | write (data : List UInt8)
  | readData (maxLen : Nat)
  | flowControlMaxCredit (enable : Bool)
  /-- `RFCOMM_ControlReqFromBTSOCK`. -/
  | controlReq (fc : Bool)
  | removeConnection
  /-- `port_open_continue`. -/
  | openContinue (packetSize : Nat)
  /-- `PORT_StartCnf`: the multiplexer is connected. -/
  | startCnf
  | pnCommand (mtu cl k packetSize : Nat)
  | pnResponse (mtu cl k : Nat)
  | portNegCnf
  | sabme
  | secComplete
  | ua
  | disc
  | uih (buf : List UInt8) (credit : Nat)
  | mscCommand (fc : Bool)
  | mscResponse
  | lineStatusInd
  | fcon
  | fcoff
  | congestion (isCongested : Bool)
  /-- The multiplexer changes its state. -/
  | muxState (state : MxState) (peerReady : Bool) (peerL2capMtu : Nat)
  /-- Another port of the multiplexer negotiates the flow control mechanism. -/
  | muxFlow (flow : Flow)
deriving DecidableEq, Repr

/-- One step, or `none` where the port is released. -/
def step (s : Dlc) : Event → Option Dlc
  | .write data => some (s.portWriteData data)
  | .readData maxLen => some (s.portReadData maxLen)
  | .flowControlMaxCredit enable => some (s.portFlowControlMaxCredit enable)
  | .controlReq fc => some { s with localFc := fc }.rfcommControlReq
  | .removeConnection => s.removeConnection
  | .openContinue packetSize => some (s.portOpenContinue packetSize)
  | .startCnf => some s.negotiationRequest
  | .pnCommand mtu cl k packetSize => some (s.pnCommand mtu cl (k % 8) packetSize)
  | .pnResponse mtu cl k => s.pnResponse mtu cl (k % 8)
  | .portNegCnf => some s.portPortNegCnf
  | .sabme => some s.portSmSabme
  | .secComplete => s.secComplete
  | .ua => s.portSmUa
  | .disc => s.portSmDisc
  | .uih buf credit => some (s.uih buf credit)
  | .mscCommand fc => some (s.mscCommand fc)
  | .mscResponse => some s.mscResponse
  | .lineStatusInd => some { s with lineStatus := true }
  | .fcon => some s.rfcProcessFcon
  | .fcoff => some s.rfcProcessFcoff
  | .congestion isCongested => some (s.rfcProcessL2capCongestion isCongested)
  | .muxState state peerReady peerL2capMtu =>
    some { s with muxState := state, peerReady := peerReady, peerL2capMtu := peerL2capMtu }
  | .muxFlow flow => some (s.settleFlow flow)

/-- A run, until the port is released. -/
def run (s : Dlc) (es : List Event) : Option Dlc := es.foldlM step s

/-- The watermarks are not set yet, or `port_select_mtu` set them for an MTU that was not
smaller. -/
structure Watermarks (s : Dlc) : Prop where
  le_critical : s.creditRxMax ≤ s.rxBufCritical
  creditRxMax : s.creditRxMax ≤ min (portRxHighWm / s.mtu) portRxBufHighWm
  rxBufCritical : s.rxBufCritical ≤ min (portRxCriticalWm / s.mtu) portRxBufCriticalWm

/-- A port that was created, or went back to listening, and is now attached to a multiplexer. -/
structure Fresh (s : Dlc) : Prop where
  state : s.state = .opening
  sm : s.sm = .closed
  txQueue : s.txQueue = []
  txQueueSize : s.txQueueSize = 0
  rxQueue : s.rxQueue = []
  log : s.log = []
  watermarks : s.Watermarks

/-- A port after `port_allocate_port`, on a multiplexer that is connected and has no flow control
mechanism yet. -/
def init (isServer : Bool) (mtu : Nat) : Dlc :=
  { isServer := isServer, dialup := false, initCredit := none, state := .opening, sm := .closed,
    mtu := mtu, peerMtu := rfcommDefaultMtu, txQueue := [], txQueueSize := 0, txPeerFc := false,
    rxQueue := [], rxQueueSize := 0, rxPeerFc := false, rxUserFc := false, reqSent := false,
    reqConfirmed := false, indReceived := false, expectsPn := false, expectsMsc := false,
    localFc := false, lineStatus := false, creditTx := 0, creditRx := 0, creditRxMax := 0,
    creditRxLow := 0, rxBufCritical := 0, muxState := .connected, flow := .undefined,
    peerReady := true, l2capCongested := false, peerL2capMtu := l2capMtuSize,
    peerRxDisabled := false, log := [] }

theorem fresh_init (isServer : Bool) (mtu : Nat) : Fresh (init isServer mtu) :=
  ⟨rfl, rfl, rfl, rfl, rfl, rfl, Nat.le_refl 0, Nat.zero_le _, Nat.zero_le _⟩

end Dlc

end BluetoothStack.Rfcomm
