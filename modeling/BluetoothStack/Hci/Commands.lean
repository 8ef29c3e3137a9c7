import Mathlib

/-!
# BluetoothStack.Hci.Commands

The queue of HCI commands (`hci_layer.cc`).

Commands are sent one at a time. Every Command Complete and Command Status event says how many more
the controller takes; one with the opcode `NONE` says only that. The timeout of a command, after
which the process ends, is left out, so the timeout alarm is always there.
-/

namespace BluetoothStack.Hci

abbrev OpCode := BitVec 16

def OpCode.NONE : OpCode := 0x0000

def OpCode.CONTROLLER_DEBUG_INFO : OpCode := 0xfd5b

/-- `is_vendor_specific`. -/
def OpCode.isVendorSpecific (opCode : OpCode) : Bool := decide (opCode &&& 0xfc00 = 0xfc00)

/-- `CommandQueueEntry::WaitingFor`. -/
inductive WaitingFor where
  | status
  | complete
  | statusOrComplete
deriving DecidableEq, Repr

/-- `CommandQueueEntry`; the callback is named by its place among the enqueued commands. -/
structure CommandQueueEntry where
  opCode : OpCode
  waitingFor : WaitingFor
  callback : Nat
deriving DecidableEq, Repr

abbrev ErrorCode := BitVec 8

def ErrorCode.UNKNOWN_HCI_COMMAND : ErrorCode := 0x01

/-- The two events that answer commands. -/
inductive ResponseKind where
  | status (status : ErrorCode)
  | complete
deriving DecidableEq, Repr

def ResponseKind.isStatus : ResponseKind → Bool
  | .status _ => true
  | .complete => false

structure CommandResponse where
  kind : ResponseKind
  numHciCommandPackets : BitVec 8
  opCode : OpCode
deriving DecidableEq, Repr

/-- What the layer does to the outside. -/
inductive Output where
  | sendHciCommand (entry : CommandQueueEntry)
  | callback (entry : CommandQueueEntry) (kind : ResponseKind)
deriving DecidableEq, Repr

structure HciLayer where
  commandQueue : List CommandQueueEntry
  waitingCommand : OpCode
  commandCredits : BitVec 8
deriving DecidableEq, Repr

namespace HciLayer

variable (s : HciLayer)

/-- One command may be sent before the controller says so: the reset. -/
def init : HciLayer := ⟨[], .NONE, 1⟩

/-- `send_next_command`. -/
def sendNextCommand : HciLayer × List Output :=
  if s.commandCredits = 0 then (s, [])
  else if s.waitingCommand ≠ .NONE then (s, [])
  else
    match s.commandQueue with
    | [] => (s, [])
    | front :: _ =>
      ({ s with waitingCommand := front.opCode, commandCredits := 0 }, [.sendHciCommand front])

/-- `enqueue_command`. -/
def enqueueCommand (entry : CommandQueueEntry) : HciLayer × List Output :=
  { s with commandQueue := s.commandQueue ++ [entry] }.sendNextCommand

/-- The event with which the callback of a command is run, if it is one that it waits for. A vendor
specific command that the controller does not know is completed. -/
def answer (entry : CommandQueueEntry) (r : CommandResponse) : Option ResponseKind :=
  if r.opCode.isVendorSpecific && decide (entry.waitingFor = .complete) &&
      decide (r.kind = .status .UNKNOWN_HCI_COMMAND) then some .complete
  else
    match entry.waitingFor with
    | .status => if r.kind.isStatus then some r.kind else none
    | .complete => if r.kind.isStatus then none else some r.kind
    | .statusOrComplete => some r.kind

/-- `handle_command_response`; `none` if an assertion fails. -/
def handleCommandResponse (r : CommandResponse) : Option (HciLayer × List Output) :=
  let s := { s with commandCredits := r.numHciCommandPackets }
  if r.opCode = .NONE then some s.sendNextCommand
  else
    match s.commandQueue with
    | [] => none
    | front :: rest =>
      -- an event that comes after a timeout
      if s.waitingCommand = .CONTROLLER_DEBUG_INFO ∧ r.opCode ≠ .CONTROLLER_DEBUG_INFO then
        some (s, [])
      else if s.waitingCommand ≠ r.opCode then none
      else
        (answer front r).map fun kind =>
          let (s, sent) := { s with commandQueue := rest, waitingCommand := .NONE }.sendNextCommand
          (s, .callback front kind :: sent)

/-- `on_hci_event` for the two events. -/
def onHciEvent (r : CommandResponse) : Option (HciLayer × List Output) :=
  if s.commandQueue = [] ∧ r.opCode ≠ .NONE then none else s.handleCommandResponse r

end HciLayer

/-! ### The exchange with the controller -/

/-- A command when it was sent. -/
structure SentCommand where
  entry : CommandQueueEntry
  /-- What the last event granted, or the initial credit. -/
  granted : BitVec 8
  unanswered : List CommandQueueEntry
deriving DecidableEq, Repr

/-- The layer and what has passed between it, its users and the controller. -/
structure Exchange where
  layer : HciLayer
  enqueued : List CommandQueueEntry
  granted : BitVec 8
  /-- The commands that were sent and have no response. -/
  unanswered : List CommandQueueEntry
  sent : List SentCommand
  /-- The events that answer a command. -/
  responses : List CommandResponse
  invoked : List (CommandQueueEntry × ResponseKind)
deriving DecidableEq, Repr

namespace Exchange

def init : Exchange := ⟨.init, [], HciLayer.init.commandCredits, [], [], [], []⟩

def output (x : Exchange) : Output → Exchange
  | .sendHciCommand entry =>
    { x with
      sent := x.sent ++ [⟨entry, x.granted, x.unanswered⟩]
      unanswered := x.unanswered ++ [entry] }
  | .callback entry kind => { x with invoked := x.invoked ++ [(entry, kind)] }

/-- The layer after a call, with what it did. -/
def put (x : Exchange) (result : HciLayer × List Output) : Exchange :=
  result.2.foldl output { x with layer := result.1 }

/-- The controller's event. -/
def receive (x : Exchange) (r : CommandResponse) : Exchange :=
  if r.opCode = .NONE then { x with granted := r.numHciCommandPackets }
  else
    { x with
      granted := r.numHciCommandPackets
      responses := x.responses ++ [r]
      unanswered := x.unanswered.eraseP fun entry => decide (entry.opCode = r.opCode) }

end Exchange

inductive HciInput where
  | enqueueCommand (opCode : OpCode) (waitingFor : WaitingFor)
  | event (r : CommandResponse)
deriving DecidableEq, Repr

def Exchange.step (x : Exchange) : HciInput → Option Exchange
  | .enqueueCommand opCode waitingFor =>
    let entry := ⟨opCode, waitingFor, x.enqueued.length⟩
    some ({ x with enqueued := x.enqueued ++ [entry] }.put (x.layer.enqueueCommand entry))
  | .event r => (x.layer.onHciEvent r).map (x.receive r).put

end BluetoothStack.Hci
