import BluetoothStack.L2cap.Types

/-!
# BluetoothStack.Bnep.Frames

The Ethernet frames of BNEP: `bnepu_build_bnep_hdr` of `bnep_utils.cc`, which puts a
header in front of a payload and leaves out the addresses the peer knows, and
`bnep_data_ind` of `bnep_main.cc`, which takes it off and fills them in again.

A received packet is read through a pointer `p` and a count `rem_len` that move
together; here the two are the list of the `rem_len` bytes at `p`, and `none` is a
null `p`. What a control message does to the connection is a parameter: the setup and
filter procedures are not modelled here, only that and with which bytes they are called.
-/

namespace BluetoothStack.Bnep

open BluetoothStack.Lib BluetoothStack.L2cap

/-! ### Constants and types -/

/-- `BNEP_MINIMUM_OFFSET`. -/
abbrev bnepMinimumOffset : Nat := 15 + l2capMinOffset

/-- `BNEP_MTU_SIZE`. -/
abbrev bnepMtuSize : Nat := 1691

/-- A device address, in the order of its bytes in memory. -/
abbrev RawAddress := Vector UInt8 6

/-- `RawAddress::kEmpty`. -/
def kEmpty : RawAddress := Vector.replicate 6 0

/-- `*(RawAddress*)p`. -/
def readAddress (p : List UInt8) : RawAddress := Vector.ofFn fun k => p.getD k 0

/-- The frame types, in the order of their codes. -/
inductive FrameType
  | generalEthernet | control | compressedEthernet | compressedEthernetSrcOnly
  | compressedEthernetDestOnly
  deriving DecidableEq, Repr

/-- The code of a frame type. -/
def FrameType.code : FrameType → UInt8
  | .generalEthernet => 0
  | .control => 1
  | .compressedEthernet => 2
  | .compressedEthernetSrcOnly => 3
  | .compressedEthernetDestOnly => 4

/-- The frame type with a code, if there is one. -/
def FrameType.ofCode (c : UInt8) : Option FrameType :=
  [.generalEthernet, .control, .compressedEthernet, .compressedEthernetSrcOnly,
    .compressedEthernetDestOnly].find? fun t => t.code == c

/-- `bnep_frame_hdr_sizes`: the bytes of each header behind the type. -/
def FrameType.hdrSize : FrameType → Nat
  | .generalEthernet => 14
  | .control => 1
  | .compressedEthernet => 2
  | .compressedEthernetSrcOnly => 8
  | .compressedEthernetDestOnly => 8

/-! ### Building a frame -/

/-- Store bytes at index `p` of the allocation. -/
def store (b : BtHdr) (p : Nat) (bytes : List UInt8) : Result BtHdr :=
  if p + bytes.length ≤ b.data.length then .ok { b with data := blit b.data p bytes }
  else .error .overrun

/-- `bnepu_init_hdr`: make space for a header if there is too little, and put the packet type in
front. The result is the buffer and the index behind the packet type. -/
def bnepuInitHdr (b : BtHdr) (hdrLen : Nat) (pktType : UInt8) : Result (BtHdr × Nat) := do
  let b ←
    if b.offset < hdrLen + l2capMinOffset then
      let diff := sub16 bnepMinimumOffset b.offset
      if b.offset + diff + b.len ≤ b.data.length then
        pure { b with
          data := shiftUp b.data b.offset diff b.len
          offset := bnepMinimumOffset }
      else .error .overrun
    else pure b
  let b := { b with len := u16 (b.len + hdrLen), offset := sub16 b.offset hdrLen }
  let b ← store b b.offset [pktType]
  pure (b, b.offset + 1)

/-- The frame type that `bnepu_build_bnep_hdr` chooses on a device with address `own`, connected
to `remBda`. -/
def chooseType (own remBda srcAddr destAddr : RawAddress) : FrameType :=
  let type :=
    if srcAddr ≠ kEmpty ∧ srcAddr ≠ own then .compressedEthernetSrcOnly
    else FrameType.compressedEthernet
  if destAddr ≠ remBda then
    if type = .compressedEthernet then .compressedEthernetDestOnly else .generalEthernet
  else type

/-- `source_addr` of `bnepu_build_bnep_hdr`: an empty source is this device. -/
def sourceAddr (own srcAddr : RawAddress) : RawAddress := if srcAddr = kEmpty then own else srcAddr

/-- `bnepu_build_bnep_hdr`. -/
def bnepuBuildBnepHdr (own remBda : RawAddress) (b : BtHdr) (protocol : Nat)
    (srcAddr destAddr : RawAddress) (fwExtPresent : Bool) : Result BtHdr := do
  let extBit : UInt8 := if fwExtPresent then 0x80 else 0x00
  let type := chooseType own remBda srcAddr destAddr
  let source := sourceAddr own srcAddr
  let (b, p) ←
    match type with
    | .generalEthernet => do
      let (b, p) ← bnepuInitHdr b 15 (extBit ||| type.code)
      let b ← store b p destAddr.toList
      let b ← store b (p + 6) source.toList
      pure (b, p + 6 + 6)
    | .compressedEthernet => bnepuInitHdr b 3 (extBit ||| type.code)
    | .compressedEthernetSrcOnly => do
      let (b, p) ← bnepuInitHdr b 9 (extBit ||| type.code)
      let b ← store b p source.toList
      pure (b, p + 6)
    | .compressedEthernetDestOnly => do
      let (b, p) ← bnepuInitHdr b 9 (extBit ||| type.code)
      let b ← store b p destAddr.toList
      pure (b, p + 6)
    -- never chosen; `p` would stay null
    | .control => .error .nullDeref
  store b p (be16 protocol)

/-! ### Receiving a frame -/

/-- Connection states. -/
inductive ConState
  | idle | connStart | cfgSetup | connSetup | secChecking | setupRcvd | connected
  deriving DecidableEq, Repr

/-- The fields of `tBNEP_CONN` that data transfer reads. `connCompleted` is the flag
`BNEP_FLAGS_CONN_COMPLETED`. -/
structure Conn where
  conState : ConState
  connCompleted : Bool
  remBda : RawAddress
  handle : Nat
  pPendingData : Option BtHdr := none

/-- The calls that a control message leads to. -/
inductive ControlMsg
  | setupConnReq (setup : List UInt8)
  | setupConnResponse (setup : List UInt8)
  | peerFilterSet (filters : List UInt8)
  | peerFilterRsp (rsp : List UInt8)
  | peerMulticastFilterSet (filters : List UInt8)
  | multicastFilterRsp (rsp : List UInt8)
  /-- `bnep_send_command_not_understood`. -/
  | commandNotUnderstood (cmdCode : UInt8)

/-- What goes to the upper layer with the data of a frame. -/
structure Delivery where
  handle : Nat
  src : RawAddress
  dst : RawAddress
  protocol : Nat
  fwExtPresent : Bool
  deriving DecidableEq

/-- What `bnep_data_ind` does. -/
inductive Out
  | control (m : ControlMsg)
  /-- `p_data_buf_cb`, with the buffer. -/
  | dataBuf (d : Delivery) (b : BtHdr)
  /-- `p_data_ind_cb`, with `rem_len` bytes at `p`. -/
  | dataInd (d : Delivery) (p : List UInt8)

section Receiving

-- what a control message does to the connection
variable (onControl : Conn → ControlMsg → Conn)

/-- A connection while a packet is processed, with what has been done so far. -/
structure Rx where
  conn : Conn
  outs : List Out := []

/-- A control message is acted on. -/
def Rx.act (r : Rx) (m : ControlMsg) : Rx :=
  { conn := onControl r.conn m, outs := r.outs ++ [.control m] }

/-- A message of two bytes. -/
def twoBytes (r : Rx) (m : List UInt8 → Option ControlMsg) (p : List UInt8) :
    Rx × Option (List UInt8) :=
  if p.length < 2 then (r, none)
  else ((m (p.take 2)).elim r (r.act onControl), some (p.drop 2))

/-- A message that starts with its length, in two bytes. -/
def withLength (r : Rx) (m : List UInt8 → ControlMsg) (p : List UInt8) : Rx × Option (List UInt8) :=
  if p.length < 2 then (r, none)
  else
    let len := beValue (p.take 2)
    if p.length < len + 2 then (r, none)
    else (r.act onControl (m ((p.drop 2).take len)), some (p.drop (2 + len)))

/-- `bnep_process_control_packet` behind the extension length. -/
def controlBody (r : Rx) (isExt : Bool) (extLen : Nat) : List UInt8 → Rx × Option (List UInt8)
  | [] => (r, none)
  | controlType :: p =>
    if controlType = 0 then
      -- a command that was not understood is only logged
      if p.length < 1 then (r, none) else (r, some (p.drop 1))
    else if controlType = 1 then
      match p with
      | [] => (r, none)
      | len :: q =>
        if p.length < 2 * len.toNat + 1 then (r, none)
        else
          (if isExt then r else r.act onControl (.setupConnReq (q.take (2 * len.toNat))),
            some (q.drop (2 * len.toNat)))
    else if controlType = 2 then
      twoBytes onControl r (fun q => if isExt then none else some (.setupConnResponse q)) p
    else if controlType = 3 then withLength onControl r .peerFilterSet p
    else if controlType = 4 then twoBytes onControl r (fun q => some (.peerFilterRsp q)) p
    else if controlType = 5 then withLength onControl r .peerMulticastFilterSet p
    else if controlType = 6 then twoBytes onControl r (fun q => some (.multicastFilterRsp q)) p
    else
      let r := r.act onControl (.commandNotUnderstood controlType)
      if isExt && decide (0 < extLen) then
        if p.length < extLen - 1 then (r, none) else (r, some (p.drop (extLen - 1)))
      else (r, some p)

/-- `bnep_process_control_packet`: the packet left behind the message, or `none` when the message
is cut short. -/
def bnepProcessControlPacket (r : Rx) (isExt : Bool) (p : List UInt8) : Rx × Option (List UInt8) :=
  if isExt then
    match p with
    | [] => (r, none)
    | extLen :: p => controlBody onControl r true extLen.toNat p
  else controlBody onControl r false 0 p

/-- The extension headers of a data packet that comes before the connection is complete: unknown
control messages are answered, the rest is ignored. At most `k` headers. -/
def ignoredExtensions (r : Rx) : Nat → List UInt8 → Rx
  | k + 1, ext :: length :: p =>
    if p.length < length.toNat then r
    else if ext &&& 0x7F = 0 then
      match p with
      | [] => r
      | ctrl :: _ =>
        if length = 0 then r
        else
          let r := if 6 < ctrl then r.act onControl (.commandNotUnderstood ctrl) else r
          if ext &&& 0x80 ≠ 0 then ignoredExtensions r k (p.drop length.toNat) else r
    else if ext &&& 0x80 ≠ 0 then ignoredExtensions r k (p.drop length.toNat)
    else r
  | _, _ => r

/-- The extensions behind a control message, `k` at most, while there are any. -/
def controlExtensions (r : Rx) : Nat → Bool → Option (List UInt8) → Rx
  | k + 1, true, some (ext :: p) =>
    if ext &&& 0x7F ≠ 0 then r
    else
      let (r, p) := bnepProcessControlPacket onControl r true p
      controlExtensions r k (decide (0x80 ≤ ext)) p
  | _, _, _ => r

/-- The header extensions of a data frame, `k` at most, up to one that is not a control message;
with the last extension type that was read. -/
def dataExtensions (r : Rx) (extType : UInt8) : Nat → Bool → Option (List UInt8) →
    Rx × UInt8 × Option (List UInt8)
  | k + 1, true, some (ext :: p) =>
    if ext &&& 0x7F ≠ 0 then (r, ext &&& 0x7F, some (ext :: p))
    else
      let (r, p) := bnepProcessControlPacket onControl r true p
      dataExtensions r 0 k (decide (0x80 ≤ ext)) p
  | _, _, p => (r, extType, p)

/-- The callbacks of `bnep_cb` that are registered. -/
structure Callbacks where
  pDataBufCb : Bool
  pDataIndCb : Bool

/-- The end of `bnep_data_ind`: the frame's data goes to the upper layer, with the addresses that
the frame left out. -/
def deliver (own : RawAddress) (cb : Callbacks) (b : BtHdr) (src dst : RawAddress) (protocol : Nat)
    (r : Rx) (extType : UInt8) (p : Option (List UInt8)) : Rx :=
  let rest := p.getD []
  let b := { b with offset := u16 (b.offset + (b.len - rest.length)), len := rest.length }
  let d : Delivery :=
    { handle := r.conn.handle
      src := if src = kEmpty then r.conn.remBda else src
      dst := if dst = kEmpty then own else dst
      protocol := protocol
      fwExtPresent := decide (extType ≠ 0) }
  if cb.pDataBufCb then { r with outs := r.outs ++ [.dataBuf d b] }
  else if cb.pDataIndCb then { r with outs := r.outs ++ [.dataInd d rest] }
  else r

/-- The data of a frame: the header has been read up to `p`. -/
def dataFrame (own : RawAddress) (cb : Callbacks) (b : BtHdr) (r : Rx) (extensionPresent : Bool)
    (src dst : RawAddress) (p : List UInt8) : Rx :=
  let protocol := beValue (p.take 2)
  let (r, extType, p) :=
    dataExtensions onControl r 0 p.length extensionPresent (some (p.drop 2))
  deliver own cb b src dst protocol r extType p

/-- A control frame. A setup request before the connection is complete leaves its extensions for
later. -/
def controlFrame (r : Rx) (extensionPresent : Bool) (p : List UInt8) : Rx :=
  let (r', q) := bnepProcessControlPacket onControl r false p
  if p.head? = some 1 ∧ r'.conn.conState ≠ .connected ∧ extensionPresent ∧ q.getD [] ≠ [] then
    { r' with conn := { r'.conn with
        pPendingData := some { len := (q.getD []).length, offset := 0, data := q.getD [] } } }
  else controlExtensions onControl r' p.length extensionPresent q

/-- `bnep_data_ind` on a device with address `own`, for a packet on the channel of `conn`. -/
def bnepDataInd (own : RawAddress) (cb : Callbacks) (conn : Conn) (b : BtHdr) : Rx :=
  let r : Rx := { conn := conn }
  match b.bytes with
  | [] => r
  | first :: p =>
    let extensionPresent := decide (0x80 ≤ first)
    match FrameType.ofCode (first &&& 0x7F) with
    | none => r
    | some type =>
      if b.len ≤ type.hdrSize ∨ bnepMtuSize < b.len then r
      else if conn.conState ≠ .connected ∧ !conn.connCompleted ∧ type ≠ .control then
        if extensionPresent then ignoredExtensions onControl r p.length p else r
      else
        match type with
        | .generalEthernet =>
          dataFrame onControl own cb b r extensionPresent (readAddress (p.drop 6)) (readAddress p)
            (p.drop 12)
        | .control => controlFrame onControl r extensionPresent p
        | .compressedEthernet => dataFrame onControl own cb b r extensionPresent kEmpty kEmpty p
        | .compressedEthernetSrcOnly =>
          dataFrame onControl own cb b r extensionPresent (readAddress p) kEmpty (p.drop 6)
        | .compressedEthernetDestOnly =>
          dataFrame onControl own cb b r extensionPresent kEmpty (readAddress p) (p.drop 6)

end Receiving

end BluetoothStack.Bnep
