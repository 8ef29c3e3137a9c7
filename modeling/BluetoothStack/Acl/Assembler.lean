import BluetoothStack.Acl.PacketView

/-!
# BluetoothStack.Acl.Assembler

Recombination of incoming ACL packets into L2CAP PDUs (`assembler.h`).

The fragments of a PDU are collected in `recombination_stage_`, a packet view that grows until it
has the size that its own header announces. Complete PDUs wait in `incoming_queue_` until the upper
layer takes them. A `Link` is an assembler together with what was taken from it.
-/

namespace BluetoothStack.Acl

open BluetoothStack.Lib

/-! ### ACL packets -/

inductive PacketBoundaryFlag where
  | firstNonAutomaticallyFlushable
  | continuingFragment
  | firstAutomaticallyFlushable
  | reserved
deriving DecidableEq, Repr

inductive BroadcastFlag where
  | pointToPoint
  | activePeripheralBroadcast
  | reserved
deriving DecidableEq, Repr

/-- The size field of the header. -/
def aclPayloadSize (bytes : List UInt8) : Nat := rd16 bytes 2

/-- A validated ACL packet: it has a header, and at least as many bytes behind it as this says. -/
structure AclView where
  bytes : List UInt8
  valid : 4 + aclPayloadSize bytes ≤ bytes.length
deriving DecidableEq, Repr

/-- `IsValid`: an invalid packet does not reach a connection. -/
def AclView.ofBytes? (bytes : List UInt8) : Option AclView :=
  if h : 4 + aclPayloadSize bytes ≤ bytes.length then some ⟨bytes, h⟩ else none

namespace AclView

variable (packet : AclView)

def getPacketBoundaryFlag : PacketBoundaryFlag :=
  match (packet.bytes.getD 1 0).toNat / 16 % 4 with
  | 0 => .firstNonAutomaticallyFlushable
  | 1 => .continuingFragment
  | 2 => .firstAutomaticallyFlushable
  | _ => .reserved

def getBroadcastFlag : BroadcastFlag :=
  match (packet.bytes.getD 1 0).toNat / 64 with
  | 0 => .pointToPoint
  | 1 => .activePeripheralBroadcast
  | _ => .reserved

/-- `GetPayload`: a subview of the buffer that came from the controller. -/
def getPayload : Option PacketView :=
  ((PacketView.mk [packet.bytes]).getSubviewList 4 (4 + aclPayloadSize packet.bytes)).map
    PacketView.mk

end AclView

/-! ### Recombination -/

def kMaxQueuedPacketsPerConnection : Nat := 10
def kL2capBasicFrameHeaderSize : Nat := 4

/-- `PacketViewForRecombination`. -/
structure Stage where
  view : PacketView
  receivedFirst : Bool
deriving DecidableEq, Repr

/-- The stage between two PDUs: a view of an empty buffer. -/
def Stage.init : Stage := ⟨⟨[[]]⟩, false⟩

/-- `GetL2capPduSize`. -/
def getL2capPduSize (pdu : PacketView) : Option Nat :=
  if pdu.size < 2 then some kL2capBasicFrameHeaderSize
  else do
    let high ← pdu.at? 1
    let low ← pdu.at? 0
    return high.toNat * 256 + low.toNat

structure Assembler where
  recombinationStage : Stage
  enqueueRegistered : Bool
  incomingQueue : List PacketView
deriving DecidableEq, Repr

namespace Assembler

variable (a : Assembler)

/-- `on_incoming_packet` behind the update of the stage. -/
def checkSize : Option Assembler := do
  let pduSize ← getL2capPduSize a.recombinationStage.view
  let expectedSize := pduSize + kL2capBasicFrameHeaderSize
  if expectedSize < a.recombinationStage.view.size then
    return { a with recombinationStage := .init }
  else if expectedSize > a.recombinationStage.view.size then
    return a
  else if a.incomingQueue.length > kMaxQueuedPacketsPerConnection then
    return { a with recombinationStage := .init }
  else
    return {
      recombinationStage := .init
      enqueueRegistered := true
      incomingQueue := a.incomingQueue ++ [a.recombinationStage.view] }

/-- `on_incoming_packet`. -/
def onIncomingPacket (packet : AclView) : Option Assembler := do
  let payload ← packet.getPayload
  if packet.getBroadcastFlag = .activePeripheralBroadcast then return a
  else
    match packet.getPacketBoundaryFlag with
    | .firstNonAutomaticallyFlushable => return a
    | .continuingFragment =>
      if !a.recombinationStage.receivedFirst then return a
      else
        let view ← a.recombinationStage.view.append payload
        checkSize { a with recombinationStage := { a.recombinationStage with view := view } }
    | .firstAutomaticallyFlushable => checkSize { a with recombinationStage := ⟨payload, true⟩ }
    | .reserved => a.checkSize

/-- `on_data_ready`. -/
def onDataReady : Option (PacketView × Assembler) :=
  match a.incomingQueue with
  | [] => none
  | packet :: queue =>
    some (packet, { a with
      incomingQueue := queue
      enqueueRegistered := if queue = [] then false else a.enqueueRegistered })

end Assembler

/-! ### A connection -/

structure Link where
  assembler : Assembler
  /-- What the upper layer has received. -/
  delivered : List PacketView
deriving DecidableEq, Repr

def Link.init : Link := ⟨⟨.init, false, []⟩, []⟩

inductive LinkEvent where
  | packet (packet : AclView)
  /-- The upper layer has room; `on_data_ready` is called if it is registered. -/
  | dataReady
deriving DecidableEq, Repr

/-- `none` if the event runs into an assertion. -/
def Link.step (l : Link) : LinkEvent → Option Link
  | .packet packet => (l.assembler.onIncomingPacket packet).map fun a => { l with assembler := a }
  | .dataReady =>
    if l.assembler.enqueueRegistered then
      l.assembler.onDataReady.map fun (packet, a) => ⟨a, l.delivered ++ [packet]⟩
    else some l

end BluetoothStack.Acl
