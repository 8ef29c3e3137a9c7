import Mathlib
import BluetoothStack.Lib.Runs

/-!
# BluetoothStack.LeAudio.Broadcast

The state machine of a broadcast (`broadcaster/state_machine.cc`).

`Machine` has the state and the configuration of the BIG, and a handler returns the machine and the
requests it issued, or `none` where an assertion fails or the empty configuration is dereferenced.
`Session` puts it between the messages of the user and the controller: the requests that are not
answered yet, the data paths that are set up, and the BISes that the ISO manager knows
(`btm_iso_impl.h`). It also remembers the last message and what failed after it.
-/

namespace BluetoothStack.LeAudio

open BluetoothStack.Lib

/-- `BroadcastStateMachine::State`. -/
inductive State where
  | stopped
  | configuring
  | configured
  | enabling
  | disabling
  | stopping
  | streaming
deriving DecidableEq, Repr

/-- `BroadcastStateMachine::Message`. -/
inductive Message where
  | start
  | suspend
  | stop
deriving DecidableEq, Repr

/-- What is asked of the advertiser and of the ISO manager. -/
inductive Request where
  | enable (enable : Bool)
  | createBig
  | terminateBig
  | setupIsoDataPath (connHandle : Nat)
  | removeIsoDataPath (connHandle : Nat)
deriving DecidableEq, Repr

/-- The connection handles of a BIG. There is one at least, and they differ. -/
structure Handles where
  first : Nat
  others : List Nat
  nodup : (first :: others).Nodup
deriving DecidableEq, Repr

namespace Handles

def toList (hs : Handles) : List Nat := hs.first :: hs.others

/-- A BIG of one BIS. -/
def single (h : Nat) : Handles := ⟨h, [], List.nodup_singleton h⟩

/-- The handle behind `h`, as `std::next` of what `std::find_if` finds; `none` if `h` is not
there, `some none` at the end. -/
def nextOf (hs : Handles) (h : Nat) : Option (Option Nat) :=
  match hs.toList.dropWhile (· ≠ h) with
  | [] => none
  | _ :: rest => some rest.head?

end Handles

structure Machine where
  state : State
  activeConfig : Option Handles
deriving DecidableEq, Repr

/-- The machine, and the requests that were issued. -/
abbrev Handled := Option (Machine × List Request)

namespace Machine

variable (m : Machine)

def setState (state : State) : Machine := { m with state := state }

/-- `EnableAnnouncement` and `DisableAnnouncement`. -/
def enableAnnouncement (enable : Bool) : Handled := some (m, [.enable enable])

/-- `CreateBig`. -/
def createBig : Handled := some (m, [.createBig])

/-- `TerminateBig`. -/
def terminateBig : Handled := some (m, [.terminateBig])

/-- `TriggerIsoDatapathSetup`. -/
def triggerIsoDatapathSetup (connHandle : Nat) : Handled :=
  if m.activeConfig = none then none else some (m, [.setupIsoDataPath connHandle])

/-- `TriggerIsoDatapathTeardown`. -/
def triggerIsoDatapathTeardown (connHandle : Nat) : Handled :=
  if m.activeConfig = none then none else some (m, [.removeIsoDataPath connHandle])

/-- `TriggerIsoDatapathTeardown(active_config_->connection_handles[0])`. -/
def teardownFirst : Handled :=
  match m.activeConfig with
  | none => none
  | some hs => m.triggerIsoDatapathTeardown hs.first

/-! ### Messages -/

/-- `start_msg_handlers`. -/
def start : Handled :=
  match m.state with
  | .stopped => (m.setState .configuring).enableAnnouncement true
  | .configured => (m.setState .enabling).createBig
  | .disabling => some (m.setState .enabling, [])
  | _ => some (m, [])

/-- `stop_msg_handlers`. -/
def stop : Handled :=
  match m.state with
  | .configured => (m.setState .stopping).enableAnnouncement false
  | .enabling => some (m.setState .stopping, [])
  | .streaming => (m.setState .stopping).teardownFirst
  | _ => some (m, [])

/-- `suspend_msg_handlers`. -/
def suspend : Handled :=
  match m.state with
  | .enabling =>
    let m := m.setState .disabling
    if m.activeConfig ≠ none then m.terminateBig else some (m, [])
  | .streaming => (m.setState .disabling).teardownFirst
  | _ => some (m, [])

/-- `ProcessMessage`. -/
def processMessage : Message → Handled
  | .start => m.start
  | .stop => m.stop
  | .suspend => m.suspend

/-! ### Completions -/

/-- `OnEnableAnnouncement`. -/
def onEnableAnnouncement (enable status : Bool) : Handled :=
  if status then
    -- the target is the streaming state
    if enable then (m.setState .configured).start else some (m.setState .stopped, [])
  else some (m.setState (if enable then .stopped else .configured), [])

/-- `OnSetupIsoDataPath`. -/
def onSetupIsoDataPath (status : Bool) (connHandle : Nat) : Handled :=
  match m.activeConfig with
  | none => none
  | some hs =>
    if !status then (m.setState .disabling).terminateBig
    else
      match hs.nextOf connHandle with
      | none => none
      | some none =>
        if m.state = .stopping then m.teardownFirst else some (m.setState .streaming, [])
      | some (some next) => m.triggerIsoDatapathSetup next

/-- `OnRemoveIsoDataPath`. -/
def onRemoveIsoDataPath (status : Bool) (connHandle : Nat) : Handled :=
  match m.activeConfig with
  | none => none
  | some hs =>
    if !status then m.terminateBig
    else
      match hs.nextOf connHandle with
      | none => none
      | some none => m.terminateBig
      | some (some next) => m.triggerIsoDatapathTeardown next

/-- `HandleHciEvent` for HCI_BLE_CREATE_BIG_CPL_EVT. -/
def onCreateBig (status : Bool) (hs : Handles) : Handled :=
  if status then
    let m := { m with activeConfig := some hs }
    if m.state = .disabling ∨ m.state = .stopping then m.terminateBig
    else m.triggerIsoDatapathSetup hs.first
  else some (m, [])

/-- `HandleHciEvent` for HCI_BLE_TERM_BIG_CPL_EVT. -/
def onTerminateBig : Handled :=
  let disabling := m.state = .disabling
  let m := { m with activeConfig := none }
  let m := if m.state ≠ .stopping then m.setState .configured else m
  if disabling then some (m, []) else m.enableAnnouncement false

/-- The completion of a request. A BIG whose termination is refused sends no event. -/
def complete (status : Bool) (hs : Handles) : Request → Handled
  | .enable enable => m.onEnableAnnouncement enable status
  | .createBig => m.onCreateBig status hs
  | .terminateBig => if status then m.onTerminateBig else some (m, [])
  | .setupIsoDataPath h => m.onSetupIsoDataPath status h
  | .removeIsoDataPath h => m.onRemoveIsoDataPath status h

end Machine

/-! ### The user and the controller -/

/-- A request that is not answered, and whether it was issued after the last message. -/
structure Issued where
  request : Request
  sinceMessage : Bool
deriving DecidableEq, Repr

structure Session where
  machine : Machine
  outstanding : List Issued
  dataPaths : List Nat
  /-- The BISes in the table of the ISO manager. -/
  bises : List Nat
  last : Option Message
  /-- A request that was issued after the last message has failed. -/
  failed : Bool
  /-- Disabling the announcement has failed since the last STOP. -/
  disableFailed : Bool
deriving DecidableEq, Repr

inductive Input where
  | message (msg : Message)
  /-- The answer to an outstanding request, with the handles of a new BIG. -/
  | answer (i : Nat) (status : Bool) (hs : Handles)
deriving DecidableEq, Repr

namespace Session

/-- After the creation of the announcement. -/
def init : Session := ⟨⟨.configured, none⟩, [], [], [], none, false, false⟩

variable (s : Session)

/-- The requests of a handler are outstanding. -/
def take (h : Handled) : Option Session :=
  h.map fun r =>
    { s with machine := r.1, outstanding := s.outstanding ++ r.2.map fun q => ⟨q, true⟩ }

/-- A message: the requests so far were issued before it. -/
def noteMessage (msg : Message) : Session :=
  { s with
    outstanding := s.outstanding.map fun q => ⟨q.request, false⟩
    last := some msg
    failed := false
    disableFailed := s.disableFailed && msg ≠ .stop }

/-- The data paths after a request succeeded. A new BIG has none. -/
def dataPathsAfter : Request → List Nat
  | .setupIsoDataPath h => h :: s.dataPaths
  | .removeIsoDataPath h => s.dataPaths.filter (· ≠ h)
  | .createBig => []
  | .terminateBig => []
  | .enable _ => s.dataPaths

/-- `conn_hdl_to_bis_map_` after a request succeeded. -/
def bisesAfter (hs : Handles) : Request → List Nat
  | .createBig => s.bises ++ hs.toList
  | .terminateBig => []
  | _ => s.bises

/-- What the controller and the ISO manager have after an answer. -/
def noteAnswer (i : Nat) (q : Issued) (status : Bool) (hs : Handles) : Session :=
  { s with
    outstanding := s.outstanding.eraseIdx i
    failed := s.failed || !status && q.sinceMessage
    disableFailed := s.disableFailed || !status && q.request = .enable false
    dataPaths := if status then s.dataPathsAfter q.request else s.dataPaths
    bises := if status then s.bisesAfter hs q.request else s.bises }

/-- A message or an answer; an answer to a request that is not outstanding does not come. -/
def step (s : Session) : Input → Option Session
  | .message msg => (s.noteMessage msg).take (s.machine.processMessage msg)
  | .answer i status hs =>
    match s.outstanding[i]? with
    | none => some s
    | some q => (s.noteAnswer i q status hs).take (s.machine.complete status hs q.request)

/-- The ISO manager drops a completion for a handle that is not in its table. -/
def dropped (s : Session) (q : Issued) : Bool :=
  match q.request with
  | .setupIsoDataPath h => h ∉ s.bises
  | .removeIsoDataPath h => h ∉ s.bises
  | _ => false

/-- The same behind the ISO manager. -/
def stepBehindIsoManager (s : Session) : Input → Option Session
  | .message msg => s.step (.message msg)
  | .answer i status hs =>
    match s.outstanding[i]? with
    | none => some s
    | some q =>
      if s.dropped q then some (s.noteAnswer i q status hs) else s.step (.answer i status hs)

end Session

end BluetoothStack.LeAudio
