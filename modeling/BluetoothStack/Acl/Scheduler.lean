import Mathlib
import BluetoothStack.Lib.Runs

/-!
# BluetoothStack.Acl.Scheduler

The scheduler of connection operations (`acl_scheduler.cc`): outgoing ACL connections and remote
name requests, which wait in one queue while another operation runs or a connection comes in.

The functions return the callbacks that they run. `History` runs the scheduler and remembers from
the outside which operations were started and have not been reported as finished; the scheduler
itself has only `outgoing_entry_` for that.

Operations are started in the order in which they were enqueued, each at most once
(`OrderInv`). That `outgoing_entry_` is the operation that runs holds as long as no remote name
request overtakes it and each completion is its own (`proper`).
-/

namespace BluetoothStack.Acl

open BluetoothStack.Lib

abbrev Address := BitVec 48

inductive Operation where
  | createConnection
  | remoteNameRequest
deriving DecidableEq, Repr

/-- `QueueEntry`; the callback is named by its place among the enqueued operations. -/
structure QueueEntry where
  operation : Operation
  address : Address
  callback : Nat
deriving DecidableEq, Repr

/-- The callbacks that the scheduler runs. -/
inductive Callback where
  | start (entry : QueueEntry)
  | handleOutgoingConnection (address : Address)
  | handleIncomingConnection (address : Address)
  | handleUnknownConnection (address : Address) (incoming : Finset Address)
  | cancelConnection (address : Address)
  | cancelConnectionCompleted (entry : QueueEntry)
  | cancelRequest (address : Address)
  | callbackWhenCancelled (entry : QueueEntry)
deriving DecidableEq

structure AclScheduler where
  outgoingEntry : Option QueueEntry
  pendingOutgoingOperations : List QueueEntry
  incomingConnectingAddressSet : Finset Address
  stopped : Bool
deriving DecidableEq

def QueueEntry.is (entry : QueueEntry) (operation : Operation) (address : Address) : Bool :=
  decide (entry.operation = operation) && decide (entry.address = address)

namespace AclScheduler

variable (s : AclScheduler)

def init : AclScheduler := ⟨none, [], ∅, false⟩

/-- `ready_to_send_next_operation`. -/
def readyToSendNextOperation : Bool :=
  if s.stopped then false
  else
    match s.pendingOutgoingOperations with
    | [] => false
    | front :: _ =>
      if front.operation = .remoteNameRequest ∧ front.address ∈ s.incomingConnectingAddressSet then
        true
      else decide (s.incomingConnectingAddressSet = ∅) && s.outgoingEntry.isNone

/-- `try_dequeue_next_operation`, after the callbacks that were run before. -/
def tryDequeueNextOperation (calls : List Callback) : AclScheduler × List Callback :=
  match s.pendingOutgoingOperations with
  | [] => (s, calls)
  | front :: rest =>
    if s.readyToSendNextOperation then
      ({ s with pendingOutgoingOperations := rest, outgoingEntry := some front },
        calls ++ [.start front])
    else (s, calls)

def enqueue (entry : QueueEntry) : AclScheduler × List Callback :=
  { s with
    pendingOutgoingOperations :=
      s.pendingOutgoingOperations ++ [entry] }.tryDequeueNextOperation []

/-- `EnqueueOutgoingAclConnection`. -/
def enqueueOutgoingAclConnection (address : Address) (callback : Nat) :
    AclScheduler × List Callback :=
  s.enqueue ⟨.createConnection, address, callback⟩

/-- `RegisterPendingIncomingConnection`. -/
def registerPendingIncomingConnection (address : Address) : AclScheduler × List Callback :=
  ({ s with incomingConnectingAddressSet := insert address s.incomingConnectingAddressSet }, [])

/-- `ReportAclConnectionCompletion`, with the flag `acl_fix_in_and_out_connection_reqs`. -/
def reportAclConnectionCompletion (fix : Bool) (address : Address) : AclScheduler × List Callback :=
  if s.outgoingEntry.any fun entry => entry.is .createConnection address then
    { s with
      outgoingEntry := none
      incomingConnectingAddressSet :=
        if fix then s.incomingConnectingAddressSet.erase address
        else s.incomingConnectingAddressSet }.tryDequeueNextOperation
      [.handleOutgoingConnection address]
  else if address ∈ s.incomingConnectingAddressSet then
    { s with
      incomingConnectingAddressSet :=
        s.incomingConnectingAddressSet.erase address }.tryDequeueNextOperation
      [.handleIncomingConnection address]
  else
    s.tryDequeueNextOperation [.handleUnknownConnection address s.incomingConnectingAddressSet]

/-- `ReportOutgoingAclConnectionFailure`. -/
def reportOutgoingAclConnectionFailure : AclScheduler × List Callback :=
  if s.outgoingEntry.any fun entry => decide (entry.operation = .createConnection) then
    { s with outgoingEntry := none }.tryDequeueNextOperation []
  else (s, [])

/-- `cancel_outgoing_or_queued_connection`. -/
def cancelOutgoingOrQueuedConnection (matcher : QueueEntry → Bool) (cancelOutgoing : Callback)
    (cancelledQueued : QueueEntry → Callback) : AclScheduler × List Callback :=
  if s.outgoingEntry.any matcher then (s, [cancelOutgoing])
  else
    match s.pendingOutgoingOperations.find? matcher with
    | none => (s, [])
    | some entry =>
      ({ s with pendingOutgoingOperations := s.pendingOutgoingOperations.eraseP matcher },
        [cancelledQueued entry])

/-- `CancelAclConnection`. -/
def cancelAclConnection (address : Address) : AclScheduler × List Callback :=
  s.cancelOutgoingOrQueuedConnection (fun entry => entry.is .createConnection address)
    (.cancelConnection address) .cancelConnectionCompleted

/-- `EnqueueRemoteNameRequest`. -/
def enqueueRemoteNameRequest (address : Address) (callback : Nat) : AclScheduler × List Callback :=
  s.enqueue ⟨.remoteNameRequest, address, callback⟩

/-- `ReportRemoteNameRequestCompletion`; the address is not looked at. -/
def reportRemoteNameRequestCompletion (_address : Address) : AclScheduler × List Callback :=
  if s.outgoingEntry.isNone then (s, [])
  else { s with outgoingEntry := none }.tryDequeueNextOperation []

/-- `CancelRemoteNameRequest`. -/
def cancelRemoteNameRequest (address : Address) : AclScheduler × List Callback :=
  s.cancelOutgoingOrQueuedConnection (fun entry => entry.is .remoteNameRequest address)
    (.cancelRequest address) .callbackWhenCancelled

/-- `Stop`. -/
def stop : AclScheduler × List Callback := ({ s with stopped := true }, [])

end AclScheduler

/-! ### Histories -/

inductive AclCall where
  | enqueueOutgoingAclConnection (address : Address)
  | registerPendingIncomingConnection (address : Address)
  | reportAclConnectionCompletion (address : Address)
  | reportOutgoingAclConnectionFailure
  | cancelAclConnection (address : Address)
  | enqueueRemoteNameRequest (address : Address)
  | reportRemoteNameRequestCompletion (address : Address)
  | cancelRemoteNameRequest (address : Address)
  | stop
deriving DecidableEq, Repr

def AclScheduler.call (s : AclScheduler) (fix : Bool) (callback : Nat) :
    AclCall → AclScheduler × List Callback
  | .enqueueOutgoingAclConnection address => s.enqueueOutgoingAclConnection address callback
  | .registerPendingIncomingConnection address => s.registerPendingIncomingConnection address
  | .reportAclConnectionCompletion address => s.reportAclConnectionCompletion fix address
  | .reportOutgoingAclConnectionFailure => s.reportOutgoingAclConnectionFailure
  | .cancelAclConnection address => s.cancelAclConnection address
  | .enqueueRemoteNameRequest address => s.enqueueRemoteNameRequest address callback
  | .reportRemoteNameRequestCompletion address => s.reportRemoteNameRequestCompletion address
  | .cancelRemoteNameRequest address => s.cancelRemoteNameRequest address
  | .stop => s.stop

/-- The operation that a call enqueues. -/
def AclCall.added (callback : Nat) : AclCall → List QueueEntry
  | .enqueueOutgoingAclConnection address => [⟨.createConnection, address, callback⟩]
  | .enqueueRemoteNameRequest address => [⟨.remoteNameRequest, address, callback⟩]
  | _ => []

/-- The call reports the end of an operation. -/
def AclCall.finishes (entry : QueueEntry) : AclCall → Bool
  | .reportAclConnectionCompletion address => entry.is .createConnection address
  | .reportOutgoingAclConnectionFailure => decide (entry.operation = .createConnection)
  | .reportRemoteNameRequestCompletion address => entry.is .remoteNameRequest address
  | _ => false

def Callback.started? : Callback → Option QueueEntry
  | .start entry => some entry
  | _ => none

/-- An operation that is taken from the queue without being started. -/
def Callback.cancelled? : Callback → Option QueueEntry
  | .cancelConnectionCompleted entry => some entry
  | .callbackWhenCancelled entry => some entry
  | _ => none

/-- The scheduler with what has happened so far. -/
structure History where
  scheduler : AclScheduler
  /-- How many operations have been enqueued. -/
  enqueued : Nat
  started : List QueueEntry
  cancelled : List QueueEntry
  /-- The operations that were started and have not been reported as finished. -/
  running : List QueueEntry
deriving DecidableEq

def History.init : History := ⟨.init, 0, [], [], []⟩

def History.step (fix : Bool) (h : History) (call : AclCall) : History :=
  let (scheduler, calls) := h.scheduler.call fix h.enqueued call
  { scheduler := scheduler
    enqueued := h.enqueued + (call.added h.enqueued).length
    started := h.started ++ calls.filterMap Callback.started?
    cancelled := h.cancelled ++ calls.filterMap Callback.cancelled?
    running := h.running.filter (fun entry => !call.finishes entry) ++
      calls.filterMap Callback.started? }

end BluetoothStack.Acl
