import BluetoothStack.L2cap.Types

/-!
# BluetoothStack.L2cap.Lcc

LE credit-based channels: `l2c_lcc_get_next_xmit_sdu_seg` and `l2c_lcc_proc_pdu` of
`l2c_fcr.cc`.

The sender cuts the SDU at the head of `xmit_hold_q` into PDUs of at most the peer's MPS.
Whether an SDU has been started is kept in the `event` field of its buffer, and how far it
has been sent in `len` and `offset`; the first PDU carries the SDU's length. The receiver
collects PDUs in `ble_sdu` until that length is reached.

Credits only decide when the sender is asked for a PDU, so they are left out.
-/

namespace BluetoothStack.L2cap

open BluetoothStack.Lib

/-- `L2CAP_LCC_SDU_LENGTH`. -/
abbrev l2capLccSduLength : Nat := 2

/-- `L2CAP_LCC_OFFSET`. -/
abbrev l2capLccOffset : Nat := l2capMinOffset + l2capLccSduLength

/-- `L2CAP_LE_MIN_MPS`. -/
abbrev l2capLeMinMps : Nat := 23

/-- `L2CAP_LE_MAX_MPS`. -/
abbrev l2capLeMaxMps : Nat := 65533

/-! ### Sending -/

/-- What the sender reads of its channel. -/
structure LccTxCfg where
  peerMps : Nat
  localCid : Nat
  remoteCid : Nat
  dynamic : l2capBaseApplCid ≤ localCid

/-- The SDU length in front of the first PDU. -/
def addSduLength (x : BtHdr) (sduLength : Nat) : Result BtHdr := do
  let x := { x with offset := sub16 x.offset l2capLccSduLength }
  let x ← x.putU16 x.offset sduLength
  pure { x with len := u16 (x.len + l2capLccSduLength) }

/-- The L2CAP header in front of a PDU. -/
def addLccHeader (c : LccTxCfg) (x : BtHdr) : Result BtHdr := do
  let x := { x with
    offset := sub16 x.offset l2capPktOverhead
    len := u16 (x.len + l2capPktOverhead) }
  let x ← x.putU16 x.offset (x.len - l2capPktOverhead)
  x.putU16 (x.offset + 2) c.remoteCid

/-- `l2c_lcc_get_next_xmit_sdu_seg`: the next PDU, whether it is the last of its SDU, and the
hold queue behind it. -/
def l2cLccGetNextXmitSduSeg (c : LccTxCfg) : List BtHdr → Result (BtHdr × Bool × List BtHdr)
  | [] => .error .nullDeref
  | b :: rest => do
    let maxPdu := sub16 c.peerMps l2capPktOverhead
    let firstPdu := b.event == 0
    let noOfBytesToSend := min b.len (if firstPdu then sub16 maxPdu l2capLccSduLength else maxPdu)
    let lastPdu := noOfBytesToSend == b.len
    let x ← l2cFcrCloneBuf b (if firstPdu then l2capLccOffset else l2capMinOffset) noOfBytesToSend
    let x ← if firstPdu then addSduLength x b.len else pure x
    let b := { b with
      event := c.localCid
      len := sub16 b.len noOfBytesToSend
      offset := u16 (b.offset + noOfBytesToSend) }
    let x ← addLccHeader c { x with event := c.localCid, layerSpecific := b.layerSpecific }
    pure (x, lastPdu, if lastPdu then rest else b :: rest)

/-! ### Receiving -/

/-- What the receiver reads of its channel; `fixFirst` is the flag
`fix_buf_len_check_for_first_k_frame`. -/
structure LccRxCfg where
  localCid : Nat
  mps : Nat
  mtu : Nat
  fixFirst : Bool

/-- The receive side of a channel. -/
structure LccRx where
  isOpen : Bool
  isFirstSeg : Bool
  bleSdu : Option BtHdr
  bleSduLength : Nat
  delivered : List (List UInt8)
  deriving DecidableEq

/-- `l2cu_disconnect_chnl`. -/
def LccRx.disconnect (r : LccRx) : LccRx := { r with isOpen := false }

/-- The copy at the end of `l2c_lcc_proc_pdu`, into the SDU `d` of announced length
`bleSduLength`. -/
def lccAppend (r : LccRx) (d b : BtHdr) : Result LccRx :=
  if d.offset + d.len + b.len ≤ d.data.length ∧ b.offset + b.len ≤ b.data.length then
    let d := { d with
      data := blit d.data (d.offset + d.len) b.bytes
      len := u16 (d.len + b.len) }
    if d.len = r.bleSduLength then
      .ok { r with
        delivered := r.delivered ++ [d.bytes], isFirstSeg := true, bleSdu := none
        bleSduLength := 0 }
    else if d.len < r.bleSduLength then .ok { r with bleSdu := some d, isFirstSeg := false }
    else .ok { r with bleSdu := some d }
  else .error .overrun

/-- A new SDU of the announced length, and its first bytes `b`. -/
def lccStart (r : LccRx) (sduLength : Nat) (b : BtHdr) : Result LccRx :=
  if sduLength < b.len then .ok r
  else
    let d : BtHdr := { len := 0, offset := 0, data := List.replicate sduLength 0 }
    lccAppend { r with bleSdu := some d, bleSduLength := sduLength } d b

/-- The first PDU of an SDU. -/
def lccFirst (c : LccRxCfg) (r : LccRx) (b : BtHdr) : Result LccRx :=
  if b.len < l2capLccSduLength then .ok r
  else if b.getU16 b.offset > c.mtu then .ok r.disconnect
  else
    lccStart r (b.getU16 b.offset)
      { b with
        len := sub16 b.len l2capLccSduLength
        offset := u16 (b.offset + l2capLccSduLength) }

/-- A later PDU of an SDU. -/
def lccNext (r : LccRx) (b : BtHdr) : Result LccRx :=
  match r.bleSdu with
  | none => .ok r
  | some d =>
    if r.bleSduLength < d.len + b.len then
      .ok { r with isFirstSeg := true, bleSdu := none, bleSduLength := 0 }.disconnect
    else lccAppend r d b

/-- `l2c_lcc_proc_pdu`. -/
def l2cLccProcPdu (c : LccRxCfg) (r : LccRx) (b : BtHdr) : Result LccRx :=
  -- the SDU length in the first PDU is not part of its payload
  let localMps := if c.fixFirst && r.isFirstSeg then u16 (c.mps + l2capLccSduLength) else c.mps
  if b.len > localMps then .ok r.disconnect
  else if r.isFirstSeg then lccFirst c r b
  else lccNext r b

/-- `l2c_rcv_acl_data`, for an L2CAP frame `g` that arrives on the link. -/
def lccRcvAclData (c : LccRxCfg) (r : LccRx) (g : List UInt8) : Result LccRx :=
  if g.length < l2capPktOverhead then .ok r
  else if rd16 g 2 ≠ c.localCid then .ok r
  else if rd16 g 0 ≠ g.length - l2capPktOverhead then .ok r
  else
    l2cLccProcPdu c r
      { len := g.length - l2capPktOverhead
        offset := hciDataPreambleSize + l2capPktOverhead
        data := List.replicate hciDataPreambleSize 0 ++ g }

/-! ### A transfer -/

/-- The sender is asked for `k` PDUs, and each reaches the receiver. -/
def lccTransfer (ct : LccTxCfg) (cr : LccRxCfg) : Nat → List BtHdr → LccRx →
    Result (List BtHdr × LccRx)
  | 0, q, r => .ok (q, r)
  | k + 1, q, r => do
    let (x, _, q) ← l2cLccGetNextXmitSduSeg ct q
    let r ← lccRcvAclData cr r x.bytes
    lccTransfer ct cr k q r

/-- A receiver between SDUs that has delivered `ds`. -/
def LccRx.idle (ds : List (List UInt8)) : LccRx where
  isOpen := true
  isFirstSeg := true
  bleSdu := none
  bleSduLength := 0
  delivered := ds

end BluetoothStack.L2cap
