import Mathlib

/-!
# BluetoothStack.ConnMgr.Manager

The LE connection manager (`connection_manager.cc`).

Applications ask for connections to a device in three ways: in the background, in the background
with targeted announcements, and directly. `bgconn_dev` records who asks for what, and the manager
keeps the accept list of the controller in step with it. The accept list is modelled as the set
that `ACL_AcceptLeConnectionFrom` adds to and `ACL_IgnoreLeConnectionFrom` removes from; its
entries are addresses with a type, which come from the security records.
-/

namespace BluetoothStack.ConnMgr

/-! ### Addresses -/

abbrev RawAddress := BitVec 48

/-- `tBLE_ADDR_TYPE`. -/
inductive AddrType where
  | publicAddr
  | randomAddr
  | publicId
  | randomId
  | anonymous
deriving DecidableEq, Repr

/-- `tBLE_BD_ADDR`. -/
structure LeAddr where
  type : AddrType
  bda : RawAddress
deriving DecidableEq, Repr

/-- The part of `tBTM_SEC_DEV_REC` that addresses are taken from. -/
structure DevRec where
  hasBle : Bool
  addressType : AddrType
  identityAddressWithType : LeAddr
deriving DecidableEq, Repr

/-- What the manager asks other modules for. -/
structure Env where
  btmFindDev : RawAddress → Option DevRec
  filterAcceptListSize : Nat
  /-- The flag `idempotent_direct_connect_add`. -/
  idempotentDirectConnectAdd : Bool

/-- The address of a device that is known to support LE. -/
def DevRec.leAddress (r : DevRec) (bdAddr : RawAddress) : LeAddr :=
  if r.identityAddressWithType.bda = 0 then ⟨r.addressType, bdAddr⟩ else r.identityAddressWithType

/-- `BTM_Sec_GetAddressWithType`. -/
def Env.btmSecGetAddressWithType (env : Env) (bdAddr : RawAddress) : LeAddr :=
  match env.btmFindDev bdAddr with
  | none => ⟨.publicAddr, bdAddr⟩
  | some r => if r.hasBle then r.leAddress bdAddr else ⟨.publicAddr, bdAddr⟩

/-- `find_in_device_record`: without a record the address stays as the caller gave it. -/
def Env.findInDeviceRecord (env : Env) (bdAddr : RawAddress) (given : LeAddr) : LeAddr :=
  match env.btmFindDev bdAddr with
  | none => given
  | some r => if r.hasBle then r.leAddress bdAddr else ⟨.publicAddr, bdAddr⟩

/-! ### State -/

/-- `tAPPS_CONNECTING`, without the alarms. -/
structure AppsConnecting where
  doingBgConn : Finset Nat
  doingTargetedAnnouncementsConn : Finset Nat
  isInAcceptList : Bool
  doingDirectConn : Finset Nat
deriving DecidableEq

/-- What `bgconn_dev[address]` creates. -/
def AppsConnecting.init : AppsConnecting := ⟨∅, ∅, false, ∅⟩

/-- `is_anyone_interested_to_use_accept_list`. -/
def AppsConnecting.isAnyoneInterestedToUseAcceptList (info : AppsConnecting) : Bool :=
  if info.doingTargetedAnnouncementsConn ≠ ∅ then info.doingDirectConn ≠ ∅
  else info.doingBgConn ≠ ∅ || info.doingDirectConn ≠ ∅

/-- `is_anyone_connecting`. -/
def AppsConnecting.isAnyoneConnecting (info : AppsConnecting) : Bool :=
  info.doingBgConn ≠ ∅ || info.doingDirectConn ≠ ∅ || info.doingTargetedAnnouncementsConn ≠ ∅

structure State where
  bgconnDev : AList fun _ : RawAddress => AppsConnecting
  /-- The accept list of the controller. -/
  acceptList : Finset LeAddr
  /-- Scanning for targeted announcements was asked for last. -/
  targetAnnouncementsFiltering : Bool

def State.init : State := ⟨∅, ∅, false⟩

namespace State

/-- `ACL_AcceptLeConnectionFrom`. -/
def acceptLeConnectionFrom (s : State) (a : LeAddr) : State :=
  { s with acceptList := insert a s.acceptList }

/-- `ACL_IgnoreLeConnectionFrom`. -/
def ignoreLeConnectionFrom (s : State) (a : LeAddr) : State :=
  { s with acceptList := s.acceptList.erase a }

/-- Change `bgconn_dev[address]`. -/
def modify (s : State) (address : RawAddress) (f : AppsConnecting → AppsConnecting) : State :=
  { s with bgconnDev := s.bgconnDev.insert address (f ((s.bgconnDev.lookup address).getD .init)) }

def erase (s : State) (address : RawAddress) : State :=
  { s with bgconnDev := s.bgconnDev.erase address }

@[simp] theorem lookup_modify (s : State) (address : RawAddress)
    (f : AppsConnecting → AppsConnecting) :
    (s.modify address f).bgconnDev.lookup address =
      some (f ((s.bgconnDev.lookup address).getD .init)) := AList.lookup_insert _

@[simp] theorem lookup_erase (s : State) (address : RawAddress) :
    (s.erase address).bgconnDev.lookup address = none := AList.lookup_erase _ _

@[simp] theorem lookup_accept (s : State) (a : LeAddr) (d : RawAddress) :
    (s.acceptLeConnectionFrom a).bgconnDev.lookup d = s.bgconnDev.lookup d := rfl

@[simp] theorem lookup_ignore (s : State) (a : LeAddr) (d : RawAddress) :
    (s.ignoreLeConnectionFrom a).bgconnDev.lookup d = s.bgconnDev.lookup d := rfl

/-- `num_of_targeted_announcements_users`. -/
def numOfTargetedAnnouncementsUsers (s : State) : Nat :=
  s.bgconnDev.entries.countP fun e =>
    !e.2.isInAcceptList && e.2.doingTargetedAnnouncementsConn ≠ ∅

/-- `accept_list_is_full`. -/
def acceptListIsFull (s : State) (env : Env) : Bool :=
  s.bgconnDev.entries.countP (fun e => e.2.isInAcceptList) ≥ env.filterAcceptListSize

end State

/-! ### Entry points -/

variable (env : Env) (s : State)

/-- `background_connect_targeted_announcement_add`. -/
def backgroundConnectTargetedAnnouncementAdd (appId : Nat) (address : RawAddress) : Bool × State :=
  let it := s.bgconnDev.lookup address
  if it.any fun info => appId ∈ info.doingTargetedAnnouncementsConn then (true, s)
  else
    let disableAcceptList := it.any fun info => info.doingDirectConn = ∅ ∧
      info.doingTargetedAnnouncementsConn = ∅ ∧ info.doingBgConn ≠ ∅
    let s := if disableAcceptList then
        (s.ignoreLeConnectionFrom (env.btmSecGetAddressWithType address)).modify address fun info =>
          { info with isInAcceptList := false }
      else s
    let s := s.modify address fun info =>
      { info with
        doingTargetedAnnouncementsConn := insert appId info.doingTargetedAnnouncementsConn }
    (true, if s.numOfTargetedAnnouncementsUsers = 1 then
      { s with targetAnnouncementsFiltering := true } else s)

/-- `background_connect_add`. -/
def backgroundConnectAdd (appId : Nat) (address : RawAddress) : Bool × State :=
  let it := s.bgconnDev.lookup address
  if it.any fun info => appId ∈ info.doingBgConn then (true, s)
  else
    let inAcceptlist := it.any fun info => info.isInAcceptList
    let isTargetedAnnouncementEnabled := it.any fun info =>
      !info.isInAcceptList && info.doingTargetedAnnouncementsConn ≠ ∅
    let addApp := fun info : AppsConnecting =>
      { info with doingBgConn := insert appId info.doingBgConn }
    if inAcceptlist || isTargetedAnnouncementEnabled then (true, s.modify address addApp)
    else if s.acceptListIsFull env then (false, s)
    else
      let s := (s.acceptLeConnectionFrom (env.btmSecGetAddressWithType address)).modify address
        fun info => { info with isInAcceptList := true }
      (true, s.modify address addApp)

/-- `remove_unconditional`. -/
def removeUnconditional (address : RawAddress) : Bool × State :=
  ((s.bgconnDev.lookup address).isSome,
    (s.erase address).ignoreLeConnectionFrom (env.btmSecGetAddressWithType address))

/-- `background_connect_remove`. -/
def backgroundConnectRemove (appId : Nat) (address : RawAddress) : Bool × State :=
  match s.bgconnDev.lookup address with
  | none => (false, s)
  | some info =>
    if appId ∉ info.doingBgConn ∧ appId ∉ info.doingTargetedAnnouncementsConn then (false, s)
    else
      let removed : AppsConnecting := { info with
        doingBgConn := info.doingBgConn.erase appId
        doingTargetedAnnouncementsConn := info.doingTargetedAnnouncementsConn.erase appId }
      if removed.isAnyoneConnecting then
        let s := s.modify address fun _ => removed
        if !info.isInAcceptList ∧ removed.doingTargetedAnnouncementsConn = ∅ ∧
            removed.doingBgConn ≠ ∅ then
          (true, (s.acceptLeConnectionFrom (env.btmSecGetAddressWithType address)).modify address
            fun info => { info with isInAcceptList := true })
        else (true, s)
      else
        let s := s.erase address
        if info.isInAcceptList then
          (true, s.ignoreLeConnectionFrom (env.btmSecGetAddressWithType address))
        else if info.doingTargetedAnnouncementsConn ≠ ∅ ∧ s.numOfTargetedAnnouncementsUsers = 0 then
          (true, { s with targetAnnouncementsFiltering := true })
        else (true, s)

/-- One turn of the loop in `on_app_deregistered`. -/
def deregister (appId : Nat) (s : State) (address : RawAddress) : State :=
  match s.bgconnDev.lookup address with
  | none => s
  | some info =>
    let info := { info with
      doingBgConn := info.doingBgConn.erase appId
      doingDirectConn := info.doingDirectConn.erase appId }
    if info.isAnyoneConnecting then s.modify address fun _ => info
    else (s.ignoreLeConnectionFrom (env.btmSecGetAddressWithType address)).erase address

/-- `on_app_deregistered`. -/
def onAppDeregistered (appId : Nat) : State := s.bgconnDev.keys.foldl (deregister env appId) s

/-- `direct_connect_add`. -/
def directConnectAdd (appId : Nat) (address : RawAddress) (addrType : AddrType) : Bool × State :=
  let addressWithType := env.findInDeviceRecord address ⟨addrType, address⟩
  let it := s.bgconnDev.lookup address
  if addressWithType.type = .anonymous then (false, s)
  else if it.any fun info => appId ∈ info.doingDirectConn then (env.idempotentDirectConnectAdd, s)
  else if it.any fun info => info.doingDirectConn ≠ ∅ then (true, s)
  else
    let addApp := fun info : AppsConnecting =>
      { info with doingDirectConn := insert appId info.doingDirectConn }
    if it.any fun info => info.isInAcceptList then
      (true, (s.acceptLeConnectionFrom addressWithType).modify address addApp)
    else if s.acceptListIsFull env then (false, s)
    else
      let s := (s.acceptLeConnectionFrom addressWithType).modify address fun info =>
        { info with isInAcceptList := true }
      (true, s.modify address addApp)

/-- `direct_connect_remove`. -/
def directConnectRemove (appId : Nat) (address : RawAddress) (connectionTimeout : Bool) :
    Bool × State :=
  match s.bgconnDev.lookup address with
  | none => (false, s)
  | some info =>
    if appId ∉ info.doingDirectConn then (false, s)
    else
      let removed := { info with doingDirectConn := info.doingDirectConn.erase appId }
      let s := s.modify address fun _ => removed
      if removed.isAnyoneInterestedToUseAcceptList then
        -- after a timeout the lower layer has removed the device
        (true, if connectionTimeout then
          s.acceptLeConnectionFrom (env.btmSecGetAddressWithType address) else s)
      else
        let s := s.ignoreLeConnectionFrom (env.btmSecGetAddressWithType address)
        if info.doingTargetedAnnouncementsConn = ∅ then (true, s.erase address)
        else (true, s.modify address fun info => { info with isInAcceptList := false })

/-- `remove_all_clients_with_pending_connections`; every turn removes an application. -/
def removeAllClientsWithPendingConnections (address : RawAddress) : Nat → State → State
  | 0, s => s
  | fuel + 1, s =>
    match s.bgconnDev.lookup address with
    | none => s
    | some info =>
      if h : info.doingDirectConn.Nonempty then
        removeAllClientsWithPendingConnections address fuel
          (directConnectRemove env s (info.doingDirectConn.min' h) address false).2
      else s

/-- `on_connection_complete`. -/
def onConnectionComplete (address : RawAddress) : State :=
  removeAllClientsWithPendingConnections env address
    ((s.bgconnDev.lookup address).elim 0 fun info => info.doingDirectConn.card) s

/-! ### Runs -/

inductive Call where
  | backgroundConnectAdd (appId : Nat) (address : RawAddress)
  | backgroundConnectTargetedAnnouncementAdd (appId : Nat) (address : RawAddress)
  | backgroundConnectRemove (appId : Nat) (address : RawAddress)
  | directConnectAdd (appId : Nat) (address : RawAddress) (addrType : AddrType)
  | directConnectRemove (appId : Nat) (address : RawAddress) (connectionTimeout : Bool)
  | onAppDeregistered (appId : Nat)
  | onConnectionComplete (address : RawAddress)
  | removeUnconditional (address : RawAddress)
deriving DecidableEq, Repr

def State.step (s : State) : Call → State
  | .backgroundConnectAdd appId address => (ConnMgr.backgroundConnectAdd env s appId address).2
  | .backgroundConnectTargetedAnnouncementAdd appId address =>
    (ConnMgr.backgroundConnectTargetedAnnouncementAdd env s appId address).2
  | .backgroundConnectRemove appId address =>
    (ConnMgr.backgroundConnectRemove env s appId address).2
  | .directConnectAdd appId address addrType =>
    (ConnMgr.directConnectAdd env s appId address addrType).2
  | .directConnectRemove appId address connectionTimeout =>
    (ConnMgr.directConnectRemove env s appId address connectionTimeout).2
  | .onAppDeregistered appId => ConnMgr.onAppDeregistered env s appId
  | .onConnectionComplete address => ConnMgr.onConnectionComplete env s address
  | .removeUnconditional address => (ConnMgr.removeUnconditional env s address).2

end BluetoothStack.ConnMgr
