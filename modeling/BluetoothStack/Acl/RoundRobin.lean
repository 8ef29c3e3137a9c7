import BluetoothStack.Acl.Assembler
import BluetoothStack.Acl.Fragmenter
import BluetoothStack.Lib.Keyed

/-!
# BluetoothStack.Acl.RoundRobin

The scheduler of outgoing ACL packets (`round_robin_scheduler.cc`).

Every connection offers packets in a queue of its own. The scheduler takes a packet from one of
them, cuts it into fragments for the controller and hands these to the HCI layer one by one, each
for a credit of its transport. Credits come back with Number Of Completed Packets events, and with
the connection when it is unregistered.

The callbacks that are registered with other queues are part of the state: `buffer_packet` is
called for a connection whose `dequeueIsRegistered`, `handle_enqueue_next_fragment` while
`enqueueRegistered`, and a posted `start_round_robin` at some later time.
-/

namespace BluetoothStack.Acl

open BluetoothStack.Lib

inductive ConnectionType where
  | classic
  | le
deriving DecidableEq, Repr

/-- A packet in the queue of a connection. -/
structure OutgoingPacket where
  bytes : List UInt8
  isFlushable : Bool
deriving DecidableEq, Repr

/-- `packet_fragment`. -/
structure PacketFragment where
  connectionType : ConnectionType
  handle : Nat
  highPriority : Bool
  packetBoundaryFlag : PacketBoundaryFlag
  payload : List UInt8
  /-- The packet it belongs to, counted from the start. -/
  packetNumber : Nat
deriving DecidableEq, Repr

/-! ### `MultiPriorityQueue` -/

/-- A queue for two priorities. -/
structure MultiPriorityQueue (α : Type) where
  low : List α
  high : List α
deriving DecidableEq, Repr

namespace MultiPriorityQueue

variable {α : Type} (q : MultiPriorityQueue α)

def nil : MultiPriorityQueue α := ⟨[], []⟩

/-- The items in the order in which they leave. -/
def items : List α := q.high ++ q.low

def front? : Option α := q.items.head?

def size : Nat := q.items.length

def push (a : α) (highPriority : Bool) : MultiPriorityQueue α :=
  if highPriority then { q with high := q.high ++ [a] } else { q with low := q.low ++ [a] }

def pop : MultiPriorityQueue α :=
  if q.high = [] then { q with low := q.low.tail } else { q with high := q.high.tail }

end MultiPriorityQueue

/-! ### The scheduler -/

/-- `acl_queue_handler`, with its handle. -/
structure AclQueueHandler where
  handle : Nat
  connectionType : ConnectionType
  dequeueIsRegistered : Bool
  numberOfSentPackets : Nat
  highPriority : Bool
deriving DecidableEq, Repr

structure RoundRobinScheduler where
  /-- In the order of the handles. -/
  aclQueueHandlers : List AclQueueHandler
  fragmentsToSend : MultiPriorityQueue PacketFragment
  maxAclPacketCredits : Nat
  aclPacketCredits : Nat
  leMaxAclPacketCredits : Nat
  leAclPacketCredits : Nat
  hciMtu : Nat
  leHciMtu : Nat
  enqueueRegistered : Bool
  /-- The handle of the next connection to start with, if it is not the end. -/
  startingPoint : Option Nat
  /-- The calls of `start_round_robin` that are posted. -/
  posted : Nat
  /-- The fragments of every packet that was buffered. -/
  buffered : List (List PacketFragment)
  /-- What was handed to the HCI layer. -/
  sent : List PacketFragment
deriving DecidableEq, Repr

/-- What the controller has: buffers and packet length for each transport. -/
structure Buffers where
  numAclPacketBuffers : UInt16
  aclPacketLength : UInt16
  totalNumLePackets : UInt8
  leDataPacketLength : UInt16
deriving DecidableEq, Repr

/-- How many packets of a transport the controller can hold. -/
def Buffers.count (b : Buffers) : ConnectionType → Nat
  | .classic => b.numAclPacketBuffers.toNat
  | .le => b.totalNumLePackets.toNat

def RoundRobinScheduler.init (b : Buffers) : RoundRobinScheduler where
  aclQueueHandlers := []
  fragmentsToSend := .nil
  maxAclPacketCredits := b.count .classic
  aclPacketCredits := b.count .classic
  leMaxAclPacketCredits := b.count .le
  leAclPacketCredits := b.count .le
  hciMtu := b.aclPacketLength.toNat
  leHciMtu := b.leDataPacketLength.toNat
  enqueueRegistered := false
  startingPoint := none
  posted := 0
  buffered := []
  sent := []

namespace RoundRobinScheduler

variable (s : RoundRobinScheduler)

def find (handle : Nat) : Option AclQueueHandler :=
  Lib.find AclQueueHandler.handle handle s.aclQueueHandlers

def update (handle : Nat) (f : AclQueueHandler → AclQueueHandler) : RoundRobinScheduler :=
  { s with aclQueueHandlers := Lib.update AclQueueHandler.handle handle f s.aclQueueHandlers }

def credits : ConnectionType → Nat
  | .classic => s.aclPacketCredits
  | .le => s.leAclPacketCredits

def maxCredits : ConnectionType → Nat
  | .classic => s.maxAclPacketCredits
  | .le => s.leMaxAclPacketCredits

def setCredits (t : ConnectionType) (n : Nat) : RoundRobinScheduler :=
  { s with
    aclPacketCredits := if t = .classic then n else s.aclPacketCredits
    leAclPacketCredits := if t = .le then n else s.leAclPacketCredits }

def mtu : ConnectionType → Nat
  | .classic => s.hciMtu
  | .le => s.leHciMtu

/-- `send_next_fragment`. -/
def sendNextFragment : RoundRobinScheduler := { s with enqueueRegistered := true }

/-- The connection behind the one with this handle. -/
def next (handle : Nat) : Option Nat :=
  (s.aclQueueHandlers.find? fun h => decide (handle < h.handle)).map AclQueueHandler.handle

/-- `start_round_robin`. -/
def startRoundRobin : RoundRobinScheduler :=
  if s.aclPacketCredits = 0 ∧ s.leAclPacketCredits = 0 then s
  else
    match s.fragmentsToSend.front? with
    | some fragment =>
      if s.credits fragment.connectionType = 0 then s else s.sendNextFragment
    | none =>
      match s.aclQueueHandlers with
      | [] => s
      | first :: others =>
        let start := if others = [] then first.handle else s.startingPoint.getD first.handle
        { s with
          aclQueueHandlers := s.aclQueueHandlers.map fun h =>
            if s.credits h.connectionType = 0 then h else { h with dequeueIsRegistered := true }
          startingPoint := s.next start }

def insert (h : AclQueueHandler) : RoundRobinScheduler :=
  { s with
    aclQueueHandlers := s.aclQueueHandlers.orderedInsert (fun a b => a.handle ≤ b.handle) h }

/-- `Register`. -/
def register (connectionType : ConnectionType) (handle : Nat) : Option RoundRobinScheduler :=
  if (s.find handle).isSome then none
  else
    let s := s.insert ⟨handle, connectionType, false, 0, false⟩
    if s.fragmentsToSend.size = 0 then some s.startRoundRobin else some s

/-- `drop_packet_fragments`. -/
def dropPacketFragments (handle : Nat) : RoundRobinScheduler :=
  if s.fragmentsToSend.size = 0 then s
  else
    let dropped := s.fragmentsToSend.items.filter fun f => decide (f.handle = handle)
    let kept := s.fragmentsToSend.items.filter fun f => decide (f.handle ≠ handle)
    let queue := kept.foldl (fun q f => q.push f f.highPriority) MultiPriorityQueue.nil
    { s.update handle fun h =>
        { h with numberOfSentPackets :=
          dropped.foldl (fun n _ => sub16 n 1) h.numberOfSentPackets } with
      fragmentsToSend := queue
      enqueueRegistered := if queue.size = 0 then false else s.enqueueRegistered }

/-- `Unregister`. -/
def unregister (handle : Nat) : Option RoundRobinScheduler :=
  if (s.find handle).isNone then none
  else
    let s := s.dropPacketFragments handle
    (s.find handle).map fun h =>
      let creditsReclaimedFromZero := h.numberOfSentPackets > 0 ∧ s.credits h.connectionType = 0
      let s := s.setCredits h.connectionType
        (u16 (s.credits h.connectionType + h.numberOfSentPackets))
      let handlers := remove AclQueueHandler.handle handle s.aclQueueHandlers
      let s := { s with
        aclQueueHandlers := handlers
        startingPoint := handlers.head?.map AclQueueHandler.handle }
      if creditsReclaimedFromZero then s.startRoundRobin else s

/-- `SetLinkPriority`. -/
def setLinkPriority (handle : Nat) (highPriority : Bool) : RoundRobinScheduler :=
  s.update handle fun h => { h with highPriority := highPriority }

/-- The fragments of a packet. -/
def fragment (h : AclQueueHandler) (packet : OutgoingPacket) : List PacketFragment :=
  let mtu := s.mtu h.connectionType
  let first : PacketBoundaryFlag :=
    if packet.isFlushable then .firstAutomaticallyFlushable else .firstNonAutomaticallyFlushable
  let pieces := if packet.bytes.length ≤ mtu then [packet.bytes] else getFragments mtu packet.bytes
  pieces.mapIdx fun i piece =>
    ⟨h.connectionType, h.handle, h.highPriority, if i = 0 then first else .continuingFragment,
      piece, s.buffered.length⟩

/-- `unregister_all_connections`. -/
def unregisterAllConnections : RoundRobinScheduler :=
  { s with
    aclQueueHandlers := s.aclQueueHandlers.map fun h => { h with dequeueIsRegistered := false } }

/-- `buffer_packet`, with the packet that comes from the queue of the connection. -/
def bufferPacket (handle : Nat) (packet : OutgoingPacket) : Option RoundRobinScheduler :=
  match s.find handle with
  | none => some s
  | some h =>
    let fragments := s.fragment h packet
    let s := { s with
      fragmentsToSend := fragments.foldl (fun q f => q.push f f.highPriority) s.fragmentsToSend
      buffered := s.buffered ++ [fragments] }
    if s.fragmentsToSend.size = 0 then none
    else
      let s := s.unregisterAllConnections.update handle fun h =>
        { h with numberOfSentPackets := u16 (h.numberOfSentPackets + s.fragmentsToSend.size) }
      some s.sendNextFragment

/-- The front fragment leaves for a credit. -/
def sendFront (fragment : PacketFragment) : RoundRobinScheduler :=
  { s.setCredits fragment.connectionType (s.credits fragment.connectionType - 1) with
    fragmentsToSend := s.fragmentsToSend.pop
    sent := s.sent ++ [fragment] }

/-- `handle_enqueue_next_fragment`. -/
def handleEnqueueNextFragment : Option RoundRobinScheduler :=
  match s.fragmentsToSend.front? with
  | none => none
  | some fragment =>
    if s.credits fragment.connectionType = 0 then none
    else
      let s := s.sendFront fragment
      match s.fragmentsToSend.front? with
      | none => some { s with enqueueRegistered := false, posted := s.posted + 1 }
      | some next =>
        if s.credits next.connectionType = 0 then some { s with enqueueRegistered := false }
        else some s

/-- `incoming_acl_credits`. -/
def incomingAclCredits (handle credits : Nat) : RoundRobinScheduler :=
  match s.find handle with
  | none => s
  | some h =>
    let creditWasZero := s.credits h.connectionType = 0
    let total := u16 (s.credits h.connectionType + credits)
    let s := s.update handle fun h =>
      { h with numberOfSentPackets := h.numberOfSentPackets - credits }
    let s := s.setCredits h.connectionType (min total (s.maxCredits h.connectionType))
    if creditWasZero then s.startRoundRobin else s

end RoundRobinScheduler

/-! ### Events -/

inductive SchedulerEvent where
  | register (connectionType : ConnectionType) (handle : Nat)
  | unregister (handle : Nat)
  | setLinkPriority (handle : Nat) (highPriority : Bool)
  /-- A connection whose queue is registered has a packet. -/
  | packet (handle : Nat) (packet : OutgoingPacket)
  /-- The HCI queue has room. -/
  | enqueue
  /-- A posted `start_round_robin` runs. -/
  | startRoundRobin
  /-- Number Of Completed Packets. -/
  | completed (handle credits : Nat)
deriving DecidableEq, Repr

/-- `none` if an assertion fails. A callback that is not registered is not called. -/
def RoundRobinScheduler.step (s : RoundRobinScheduler) : SchedulerEvent → Option RoundRobinScheduler
  | .register connectionType handle => s.register connectionType handle
  | .unregister handle => s.unregister handle
  | .setLinkPriority handle highPriority => some (s.setLinkPriority handle highPriority)
  | .packet handle packet =>
    if (s.find handle).any AclQueueHandler.dequeueIsRegistered then s.bufferPacket handle packet
    else some s
  | .enqueue => if s.enqueueRegistered then s.handleEnqueueNextFragment else some s
  | .startRoundRobin =>
    if 0 < s.posted then some { s with posted := s.posted - 1 }.startRoundRobin else some s
  | .completed handle credits => some (s.incomingAclCredits handle credits)

end BluetoothStack.Acl
