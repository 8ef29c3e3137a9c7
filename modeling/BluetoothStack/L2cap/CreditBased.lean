import BluetoothStack.Lib.Words
import BluetoothStack.L2cap.Lcc

/-!
# BluetoothStack.L2cap.CreditBased

Requests on the LE signalling channel about enhanced credit based channels, as
`l2cble_process_sig_cmd` of `l2c_ble.cc` answers them.

A connection request asks for some channels at once, a reconfiguration request is about some
channels that exist. In both, the channels are the rest of the packet, and their number is kept in
eight bits.
-/

namespace BluetoothStack.L2cap.Ecoc

open BluetoothStack.Lib

/-! ### Link -/

/-- `tL2CAP_LE_RESULT_CODE` -/
inductive LeResult
  | connOk
  | noPsm
  | noResources
  | insufficientAuthentication
  | insufficientAuthorization
  | insufficientEncrypKeySize
  | insufficientEncryp
  | invalidSourceCid
  | sourceCidAlreadyAllocated
  | unacceptableParameters
  | invalidParameters
  | connPending
  | connPendingAuthentication
  | connPendingAuthorization
deriving DecidableEq, Repr

/-- `tL2CAP_RECONFIG_RESULT` -/
inductive ReconfigResult
  | succeed
  | reductionMtuNotAllowed
  | reductionMpsNotAllowed
  | invalidDcid
  | unacceptedParam
deriving DecidableEq, Repr

/-- `peer_conn_cfg` -/
structure ConnCfg where
  mtu : ℕ := 0
  mps : ℕ := 0
  credits : ℕ := 0
deriving DecidableEq, Repr

/-- A block of `ccb_pool`. -/
structure Ccb where
  inUse : Bool := false
  remoteCid : ℕ := 0
  peerConnCfg : ConnCfg := {}
  txMps : ℕ := 0
deriving DecidableEq, Repr

/-- Which callbacks of a registration are set. -/
structure Rcb where
  creditBasedConnectInd : Bool
  creditBasedCollisionInd : Bool
deriving DecidableEq, Repr

/-- `L2CAP_CREDIT_BASED_MAX_CIDS` -/
def creditBasedMaxCids : ℕ := 5

/-- `L2CAP_BASE_APPL_CID` and a place in the pool give the local CID. -/
def localCid (i : ℕ) : ℕ := l2capBaseApplCid + i

/-- A link, with what it shares with others: the pool of channels, the free ones, and the
registrations by their PSM. -/
structure Link where
  ccb : ℕ → Ccb := fun _ => {}
  /-- `ccb_queue`, by places in the pool -/
  queue : List ℕ := []
  free : List ℕ := []
  rcb : ℕ → Option Rcb := fun _ => none
  pendingEcocConnCnt : ℕ := 0
  pendingEcocConnectionCids : List ℕ := List.replicate creditBasedMaxCids 0
  pendingL2capResult : LeResult := .connOk
  pendingLeadCid : ℕ := 0

/-- `l2cu_find_ccb_by_remote_cid` -/
def Link.findCcb (l : Link) (rcid : ℕ) : Option ℕ :=
  l.queue.find? fun i => (l.ccb i).inUse && (l.ccb i).remoteCid == rcid

/-- What a command leads to. -/
inductive Outcome
  /-- nothing is answered -/
  | dropped
  /-- another command -/
  | other
  /-- `l2cu_reject_credit_based_conn_req`; `collision` if the registration is told of one -/
  | connRejected (id numOfChannels : ℕ) (result : LeResult) (collision : Bool)
  /-- `L2CEVT_L2CAP_CREDIT_BASED_CONNECT_REQ` for the lead channel -/
  | connectReq (lead : ℕ)
  /-- `l2cu_send_ble_reconfig_rsp`, behind `L2CEVT_L2CAP_CREDIT_BASED_RECONFIG_REQ` for some
  channels -/
  | reconfigRsp (id : ℕ) (result : ReconfigResult) (events : List ℕ)
deriving DecidableEq, Repr

/-- `validate_l2cap_params`; the least MTU and the least MPS are the same. -/
def validateL2capParams (mtu mps : ℕ) : Bool :=
  !(mtu < l2capLeMinMps || mps < l2capLeMinMps || mps > l2capLeMaxMps)

/-- The CIDs that a packet has from index `i` on. -/
def cidsFrom (p : List UInt8) (i : ℕ) : List ℕ :=
  (List.range ((p.length - i) / 2)).map fun k => rd16 p (i + 2 * k)

/-- `num_of_channels`, in eight bits -/
def numOfChannels (cids : List ℕ) : ℕ := u8 cids.length

/-! ### Connection request -/

/-- One turn of the loop over the CIDs: a channel is allocated for the `k`-th. With the link goes
the lead channel, once there is one. -/
def requestChannel (cfg : ConnCfg) (x : Link × Option ℕ) (k rcid : ℕ) : Link × Option ℕ :=
  let (l, lead) := x
  if (l.findCcb rcid).isSome then
    ({ l with
        pendingEcocConnectionCids := l.pendingEcocConnectionCids.set k 0
        pendingL2capResult := .sourceCidAlreadyAllocated }, lead)
  else
    match l.free with
    | [] =>
      ({ l with
          pendingEcocConnectionCids := l.pendingEcocConnectionCids.set k 0
          pendingL2capResult := .noResources }, lead)
    | i :: free =>
      let c : Ccb := { inUse := true, remoteCid := rcid, peerConnCfg := cfg, txMps := cfg.mps }
      ({ l with
          ccb := Function.update l.ccb i c
          queue := l.queue ++ [i]
          free
          pendingEcocConnectionCids := l.pendingEcocConnectionCids.set k (localCid i)
          pendingLeadCid := if lead.isSome then l.pendingLeadCid else localCid i },
            lead.or (some i))

/-- The loop over the CIDs from the `k`-th on. -/
def requestChannels (cfg : ConnCfg) (x : Link × Option ℕ) (k : ℕ) : List ℕ → Link × Option ℕ
  | [] => x
  | rcid :: rcids => requestChannels cfg (requestChannel cfg x k rcid) (k + 1) rcids

/-- `BT_PSM_EATT` -/
def btPsmEatt : ℕ := 0x27

/-- `L2CAP_CMD_CREDIT_BASED_CONN_REQ`, from its parameters on -/
def creditBasedConnReq (l : Link) (id : ℕ) (p : List UInt8) : Link × Outcome :=
  if p.length < 10 then (l, .dropped)
  else
    let psm := rd16 p 0
    let cfg : ConnCfg := { mtu := rd16 p 2, mps := rd16 p 4, credits := rd16 p 6 }
    let rcids := cidsFrom p 8
    let num := numOfChannels rcids
    if num > creditBasedMaxCids then
      (l, .connRejected id creditBasedMaxCids .invalidParameters false)
    else
      match l.rcb psm with
      | none => (l, .connRejected id num .noPsm false)
      | some rcb =>
        if l.pendingEcocConnCnt > 0 then
          (l, .connRejected id num .noResources (rcb.creditBasedCollisionInd && psm == btPsmEatt))
        else
          let l := { l with pendingEcocConnCnt := num }
          if !rcb.creditBasedConnectInd then (l, .connRejected id num .noPsm false)
          else if !validateL2capParams cfg.mtu cfg.mps then
            (l, .connRejected id num .invalidParameters false)
          else
            let (l, lead) := requestChannels cfg (l, none) 0 (rcids.take num)
            match lead with
            | none => (l, .connRejected id num l.pendingL2capResult false)
            | some lead => (l, .connectReq lead)

/-! ### Reconfiguration request -/

/-- The first pass over the CIDs: what is wrong with one of them. -/
def checkReconfig (l : Link) (mtu mps num : ℕ) : List ℕ → Option ReconfigResult
  | [] => none
  | rcid :: rcids =>
    match l.findCcb rcid with
    | none => some .invalidDcid
    | some i =>
      if (l.ccb i).peerConnCfg.mtu > mtu then some .reductionMtuNotAllowed
      else if (l.ccb i).peerConnCfg.mps > mps ∧ num > 1 then some .reductionMpsNotAllowed
      else checkReconfig l mtu mps num rcids

def Ccb.reconfigure (mtu mps : ℕ) (c : Ccb) : Ccb :=
  { c with peerConnCfg := { c.peerConnCfg with mtu, mps }, txMps := mps }

/-- The second pass: the new values are stored, and the channels are told; `none` if there is no
channel. -/
def applyReconfig (mtu mps : ℕ) : Link → List ℕ → Option (Link × List ℕ)
  | l, [] => some (l, [])
  | l, rcid :: rcids => do
    let i ← l.findCcb rcid
    let l := { l with ccb := Function.update l.ccb i ((l.ccb i).reconfigure mtu mps) }
    let (l, events) ← applyReconfig mtu mps l rcids
    pure (l, i :: events)

/-- `L2CAP_CMD_CREDIT_BASED_RECONFIG_REQ`, from its parameters on -/
def creditBasedReconfigReq (l : Link) (id : ℕ) (p : List UInt8) : Option (Link × Outcome) :=
  if p.length < 6 then some (l, .reconfigRsp id .unacceptedParam [])
  else
    let mtu := rd16 p 0
    let mps := rd16 p 2
    if !validateL2capParams mtu mps then some (l, .reconfigRsp id .unacceptedParam [])
    else
      let rcids := cidsFrom p 4
      let num := numOfChannels rcids
      match checkReconfig l mtu mps num (rcids.take num) with
      | some result => some (l, .reconfigRsp id result [])
      | none => do
        let (l, events) ← applyReconfig mtu mps l (rcids.take num)
        pure (l, .reconfigRsp id .succeed events)

/-! ### Commands -/

/-- `L2CAP_CMD_CREDIT_BASED_CONN_REQ` -/
def cmdCreditBasedConnReq : UInt8 := 0x17

/-- `L2CAP_CMD_CREDIT_BASED_RECONFIG_REQ` -/
def cmdCreditBasedReconfigReq : UInt8 := 0x19

/-- `l2cble_process_sig_cmd`; `none` if it reads through `NULL`. -/
def l2cbleProcessSigCmd (l : Link) : List UInt8 → Option (Link × Outcome)
  | code :: id :: lo :: hi :: p =>
    if rd16 [lo, hi] 0 > p.length then some (l, .dropped)
    else if code = cmdCreditBasedConnReq then some (creditBasedConnReq l id.toNat p)
    else if code = cmdCreditBasedReconfigReq then creditBasedReconfigReq l id.toNat p
    else some (l, .other)
  | _ => some (l, .dropped)

/-! ### Rejected requests -/

/-- The channels of the links and the free ones are the same. -/
structure Link.SameChannels (l l' : Link) : Prop where
  ccb : l'.ccb = l.ccb
  queue : l'.queue = l.queue
  free : l'.free = l.free

theorem requestChannel_pending (cfg : ConnCfg) (x : Link × Option ℕ) (k rcid : ℕ) :
    (requestChannel cfg x k rcid).1.pendingEcocConnCnt = x.1.pendingEcocConnCnt := by
  obtain ⟨l, lead⟩ := x
  unfold requestChannel
  dsimp only
  split
  · rfl
  · split
    · rfl
    · rfl

theorem requestChannels_pending (cfg : ConnCfg) (x : Link × Option ℕ) (k : ℕ) (rcids : List ℕ) :
    (requestChannels cfg x k rcids).1.pendingEcocConnCnt = x.1.pendingEcocConnCnt := by
  induction rcids generalizing x k with
  | nil => rfl
  | cons rcid rcids ih => rw [requestChannels, ih, requestChannel_pending]

/-- Without a lead channel, none has been allocated. -/
theorem requestChannel_noLead {cfg : ConnCfg} {x : Link × Option ℕ} {k rcid : ℕ}
    (h : (requestChannel cfg x k rcid).2 = none) :
    x.2 = none ∧ x.1.SameChannels (requestChannel cfg x k rcid).1 := by
  obtain ⟨l, lead⟩ := x
  unfold requestChannel at h ⊢
  dsimp only at h ⊢
  split at h
  next hfound =>
    rw [if_pos hfound]
    exact ⟨h, rfl, rfl, rfl⟩
  next hfound =>
    rw [if_neg hfound]
    split at h
    next => exact ⟨h, rfl, rfl, rfl⟩
    next => cases lead <;> cases h

variable {rcids : List ℕ} {l : Link} {p : List UInt8}

theorem requestChannels_noLead {cfg : ConnCfg} {x : Link × Option ℕ} {k : ℕ}
    (h : (requestChannels cfg x k rcids).2 = none) :
    x.2 = none ∧ x.1.SameChannels (requestChannels cfg x k rcids).1 := by
  induction rcids generalizing x k with
  | nil => exact ⟨h, rfl, rfl, rfl⟩
  | cons rcid rcids ih =>
    obtain ⟨hlead, hrest⟩ := ih h
    obtain ⟨hnone, hstep⟩ := requestChannel_noLead hlead
    exact ⟨hnone, hrest.ccb.trans hstep.ccb, hrest.queue.trans hstep.queue,
      hrest.free.trans hstep.free⟩

/-- What a rejected request leaves behind when none was pending: the channels as they were, and the
number of channels that it asked for, unless it was rejected before the number is stored. -/
theorem creditBasedConnReq_rejected {l' : Link} {id id' num : ℕ} {result : LeResult}
    {collision : Bool} (hpending : l.pendingEcocConnCnt = 0)
    (h : creditBasedConnReq l id p = (l', .connRejected id' num result collision)) :
    l.SameChannels l' ∧
      l'.pendingEcocConnCnt =
        if creditBasedMaxCids < numOfChannels (cidsFrom p 8) ∨ l.rcb (rd16 p 0) = none then 0
        else numOfChannels (cidsFrom p 8) := by
  unfold creditBasedConnReq at h
  split at h
  next => cases h
  next =>
  dsimp only at h
  split at h
  next hmany =>
    cases h
    exact ⟨⟨rfl, rfl, rfl⟩, by rw [if_pos (.inl hmany), hpending]⟩
  next hmany =>
  split at h
  next hrcb =>
    cases h
    exact ⟨⟨rfl, rfl, rfl⟩, by rw [if_pos (.inr hrcb), hpending]⟩
  next rcb hrcb =>
  -- From here on the number has been stored.
  have hstored : ¬ (creditBasedMaxCids < numOfChannels (cidsFrom p 8) ∨ l.rcb (rd16 p 0) =
      none) := by
    simp [hrcb, Nat.not_lt.mpr (Nat.not_lt.mp hmany)]
  rw [if_neg (by omega : ¬ l.pendingEcocConnCnt > 0)] at h
  rw [if_neg hstored]
  split at h
  next =>
    cases h
    exact ⟨⟨rfl, rfl, rfl⟩, rfl⟩
  next =>
  split at h
  next =>
    cases h
    exact ⟨⟨rfl, rfl, rfl⟩, rfl⟩
  next =>
  split at h
  next hlead =>
    cases h
    obtain ⟨-, hsame⟩ := requestChannels_noLead hlead
    exact ⟨⟨hsame.ccb, hsame.queue, hsame.free⟩, requestChannels_pending _ _ _ _⟩
  next => cases h

/-- **When a rejected request leaves the link able to accept the next one.** With no request
pending, one that is rejected leaves no request pending and no channel allocated if and only if it
asks for too many channels, its PSM is unknown, or the number of its channels wraps to zero. An
outgoing-only PSM, an invalid MTU or MPS, and channels that cannot be allocated leave the request
pending. -/
theorem rejected_request_leaves_none_pending_iff (l l' : Link) (id lo hi : UInt8) (p : List UInt8)
    (id' num : ℕ) (result : LeResult) (collision : Bool) (hpending : l.pendingEcocConnCnt = 0)
    (h : l2cbleProcessSigCmd l (cmdCreditBasedConnReq :: id :: lo :: hi :: p) =
      some (l', .connRejected id' num result collision)) :
    l'.pendingEcocConnCnt = 0 ∧ l.SameChannels l' ↔
      creditBasedMaxCids < numOfChannels (cidsFrom p 8) ∨ l.rcb (rd16 p 0) = none ∨
        numOfChannels (cidsFrom p 8) = 0 := by
  rw [l2cbleProcessSigCmd] at h
  split at h
  next => cases h
  next =>
  rw [if_pos rfl] at h
  obtain ⟨hsame, hcnt⟩ := creditBasedConnReq_rejected hpending (Option.some.inj h)
  rw [hcnt, ← or_assoc]
  split
  next hearly => simp [hsame, hearly]
  next hearly => simp [hsame, hearly]

/-- A request for one channel of the PSM of EATT. -/
def eattReq (id mtu : UInt8) : List UInt8 :=
  [cmdCreditBasedConnReq, id, 10, 0, 0x27, 0, mtu, 0, 64, 0, 1, 0, 0x40, 0]

theorem rejected_request_leaves_none_pending_iff_unknown_psm :
    l2cbleProcessSigCmd {} (eattReq 1 64) = some ({}, .connRejected 1 1 .noPsm false) ∧
      ({} : Link).pendingEcocConnCnt = 0 ∧ Link.SameChannels {} {} := by
  refine ⟨rfl, ?_⟩
  exact (rejected_request_leaves_none_pending_iff {} {} 1 10 0
    [0x27, 0, 64, 0, 64, 0, 1, 0, 0x40, 0] 1 1 .noPsm false rfl rfl).mpr (.inr (.inl rfl))

/-- A link with free channels and a registration for every PSM. -/
def eattLink : Link := { rcb := fun _ => some ⟨true, true⟩, free := [0, 1, 2] }

/-- A request with an MTU of 22 is rejected, and one with an MTU of 64 behind it too, as a
collision, although it is accepted alone. -/
theorem rejected_request_left_pending :
    (l2cbleProcessSigCmd eattLink (eattReq 1 22)).map (fun r => (r.2, r.1.pendingEcocConnCnt)) =
        some (.connRejected 1 1 .invalidParameters false, 1) ∧
      ((l2cbleProcessSigCmd eattLink (eattReq 1 22)).bind fun r =>
          l2cbleProcessSigCmd r.1 (eattReq 2 64)).map Prod.snd =
        some (.connRejected 2 1 .noResources true) ∧
      (l2cbleProcessSigCmd eattLink (eattReq 2 64)).map Prod.snd = some (.connectReq 0) := by
  decide

/-! ### Reconfiguration of all channels or of none -/

/-- The places of the channels that some CIDs name. -/
def Link.targets (l : Link) (rcids : List ℕ) : List ℕ := rcids.filterMap l.findCcb

/-- The link with the new values at some places. -/
def Link.reconfigure (l : Link) (mtu mps : ℕ) (places : List ℕ) : Link :=
  { l with ccb := fun i => if i ∈ places then (l.ccb i).reconfigure mtu mps else l.ccb i }

@[simp] theorem Ccb.reconfigure_reconfigure (mtu mps : ℕ) (c : Ccb) :
    (c.reconfigure mtu mps).reconfigure mtu mps = c.reconfigure mtu mps := rfl

/-- New values change neither the CID nor the use of a channel. -/
@[simp] theorem findCcb_reconfigure (l : Link) (mtu mps : ℕ) (places : List ℕ) (rcid : ℕ) :
    (l.reconfigure mtu mps places).findCcb rcid = l.findCcb rcid := by
  have hsame : ∀ i, ((l.reconfigure mtu mps places).ccb i).inUse = (l.ccb i).inUse ∧
      ((l.reconfigure mtu mps places).ccb i).remoteCid = (l.ccb i).remoteCid := by
    intro i
    unfold Link.reconfigure
    dsimp only
    split
    · exact ⟨rfl, rfl⟩
    · exact ⟨rfl, rfl⟩
  unfold Link.findCcb
  simp only [hsame]
  rfl

theorem reconfigure_cons (l : Link) (mtu mps i : ℕ) (places : List ℕ) :
    (l.reconfigure mtu mps [i]).reconfigure mtu mps places = l.reconfigure mtu mps
      (i :: places) := by
  unfold Link.reconfigure
  congr 1
  funext j
  by_cases hi : j = i
  · simp [hi]
  · simp [hi]

theorem update_eq_reconfigure (l : Link) (mtu mps i : ℕ) :
    { l with ccb := Function.update l.ccb i ((l.ccb i).reconfigure mtu mps) } =
      l.reconfigure mtu mps [i] := by
  unfold Link.reconfigure
  congr 1
  funext j
  by_cases hi : j = i
  · simp [hi]
  · simp [hi]

/-- The second pass, when all the channels are there. -/
theorem applyReconfig_eq (mtu mps : ℕ) (l : Link) (rcids : List ℕ)
    (hfound : ∀ rcid ∈ rcids, (l.findCcb rcid).isSome) :
    applyReconfig mtu mps l rcids =
      some (l.reconfigure mtu mps (l.targets rcids), l.targets rcids) := by
  induction rcids generalizing l with
  | nil => simp [applyReconfig, Link.targets, Link.reconfigure]
  | cons rcid rcids ih =>
    obtain ⟨i, hi⟩ := Option.isSome_iff_exists.mp (hfound rcid List.mem_cons_self)
    have hrest : ∀ r ∈ rcids, ((l.reconfigure mtu mps [i]).findCcb r).isSome := by
      intro r hr
      rw [findCcb_reconfigure]
      exact hfound r (List.mem_cons_of_mem _ hr)
    have htargets : (l.reconfigure mtu mps [i]).targets rcids = l.targets rcids := by
      simp [Link.targets]
    have hcons : l.targets (rcid :: rcids) = i :: l.targets rcids := by
      simp [Link.targets, hi]
    rw [applyReconfig, hi]
    simp only [Option.bind_eq_bind, Option.bind_some, update_eq_reconfigure]
    rw [ih _ hrest, htargets, hcons, reconfigure_cons]
    rfl

/-- What the first pass checks of a CID. -/
structure Reconfigurable (l : Link) (mtu mps num rcid i : ℕ) : Prop where
  found : l.findCcb rcid = some i
  mtu : (l.ccb i).peerConnCfg.mtu ≤ mtu
  mps : 1 < num → (l.ccb i).peerConnCfg.mps ≤ mps

theorem checkReconfig_eq_none {mtu mps num : ℕ} (h : checkReconfig l mtu mps num rcids = none) :
    ∀ rcid ∈ rcids, ∃ i, Reconfigurable l mtu mps num rcid i := by
  induction rcids with
  | nil => simp
  | cons rcid rcids ih =>
    rw [checkReconfig] at h
    split at h
    next => cases h
    next i hi =>
    split at h
    next => cases h
    next hmtu =>
    split at h
    next => cases h
    next hmps =>
    refine List.forall_mem_cons.mpr ⟨⟨i, hi, by omega, fun hnum => ?_⟩, ih h⟩
    by_contra hlt
    exact hmps ⟨by omega, hnum⟩

theorem checkReconfig_ne_succeed {mtu mps num : ℕ} {result : ReconfigResult}
    (h : checkReconfig l mtu mps num rcids = some result) : result ≠ .succeed := by
  induction rcids with
  | nil => cases h
  | cons rcid rcids ih =>
    rw [checkReconfig] at h
    split at h
    next =>
      cases h
      decide
    next =>
    split at h
    next =>
      cases h
      decide
    next =>
    split at h
    next =>
      cases h
      decide
    next => exact ih h

theorem mem_targets {i : ℕ} : i ∈ l.targets rcids ↔ ∃ rcid ∈ rcids, l.findCcb rcid = some i :=
  List.mem_filterMap

/-- What a successful response says: every channel of the list has the new values, its MTU has not
become smaller, nor its MPS if there are several, and all other channels are as they were. -/
structure Reconfigured (l l' : Link) (mtu mps : ℕ) (rcids : List ℕ) : Prop where
  listed : ∀ rcid ∈ rcids, ∃ i, Reconfigurable l mtu mps rcids.length rcid i ∧
    (l'.ccb i).peerConnCfg.mtu = mtu ∧ (l'.ccb i).peerConnCfg.mps = mps
  others : ∀ i, i ∉ l.targets rcids → l'.ccb i = l.ccb i

/-- The CIDs that are handled, since their number is kept in eight bits. -/
def handled (rcids : List ℕ) : List ℕ := rcids.take (numOfChannels rcids)

/-- A list too long to be handled as a whole, that is nevertheless done with: the channels that are
left over are among the handled ones or have the values already, and no MPS becomes smaller. -/
structure Covered (l : Link) (mtu mps : ℕ) (rcids : List ℕ) : Prop where
  left : ∀ rcid ∈ rcids.drop (numOfChannels rcids), ∃ i, l.findCcb rcid = some i ∧
    (i ∈ l.targets (handled rcids) ∨
      (l.ccb i).peerConnCfg.mtu = mtu ∧ (l.ccb i).peerConnCfg.mps = mps)
  mps : 1 < rcids.length → ∀ i ∈ l.targets (handled rcids), (l.ccb i).peerConnCfg.mps ≤ mps

section Passed

variable {l : Link} {mtu mps : ℕ} {rcids : List ℕ}
  (hcheck : checkReconfig l mtu mps (numOfChannels rcids) (handled rcids) = none)

include hcheck

theorem targets_reconfigurable {i : ℕ} (hi : i ∈ l.targets (handled rcids)) :
    (l.ccb i).peerConnCfg.mtu ≤ mtu ∧
      (1 < numOfChannels rcids → (l.ccb i).peerConnCfg.mps ≤ mps) := by
  obtain ⟨rcid, hmem, hfound⟩ := mem_targets.mp hi
  obtain ⟨j, hj⟩ := checkReconfig_eq_none hcheck rcid hmem
  have hij : j = i := Option.some.inj (hj.found.symm.trans hfound)
  subst hij
  exact ⟨hj.mtu, hj.mps⟩

theorem covered_of_lt (hlen : rcids.length < 256) : Covered l mtu mps rcids := by
  have hnum : numOfChannels rcids = rcids.length := Nat.mod_eq_of_lt hlen
  refine ⟨?_, fun hmany i hi => ?_⟩
  · simp [hnum]
  · exact (targets_reconfigurable hcheck hi).2 (by rwa [hnum])

/-- The first pass has found nothing: what the second one does is what the response says just if the
list is covered. -/
theorem reconfigured_iff_covered :
    Reconfigured l (l.reconfigure mtu mps (l.targets (handled rcids))) mtu mps rcids ↔
      Covered l mtu mps rcids := by
  constructor
  · intro h
    refine ⟨fun rcid hmem => ?_, fun hmany i hi => ?_⟩
    · obtain ⟨i, hi, hmtu, hmps⟩ := h.listed rcid (List.mem_of_mem_drop hmem)
      refine ⟨i, hi.found, ?_⟩
      by_cases htarget : i ∈ l.targets (handled rcids)
      · exact .inl htarget
      · simp only [Link.reconfigure, if_neg htarget] at hmtu hmps
        exact .inr ⟨hmtu, hmps⟩
    · obtain ⟨rcid, hmem, hfound⟩ := mem_targets.mp hi
      obtain ⟨j, hj, -⟩ := h.listed rcid (List.mem_of_mem_take hmem)
      have hij : j = i := Option.some.inj (hj.found.symm.trans hfound)
      exact hij ▸ hj.mps hmany
  · intro h
    have hvalues : ∀ i ∈ l.targets (handled rcids),
        ((l.reconfigure mtu mps (l.targets (handled rcids))).ccb i).peerConnCfg.mtu = mtu ∧
          ((l.reconfigure mtu mps (l.targets (handled rcids))).ccb i).peerConnCfg.mps = mps := by
      intro i hi
      simp [Link.reconfigure, if_pos hi, Ccb.reconfigure]
    have htarget : ∀ rcid i, l.findCcb rcid = some i → i ∈ l.targets (handled rcids) →
        Reconfigurable l mtu mps rcids.length rcid i := by
      intro rcid i hfound hi
      exact ⟨hfound, (targets_reconfigurable hcheck hi).1, fun hmany => h.mps hmany i hi⟩
    refine ⟨fun rcid hmem => ?_, fun i hi => ?_⟩
    · rw [← List.take_append_drop (numOfChannels rcids) rcids, List.mem_append] at hmem
      -- a channel of the first pass, or one that is left out by the count
      obtain hmem | hmem := hmem
      · obtain ⟨i, hi⟩ := checkReconfig_eq_none hcheck rcid hmem
        have hplace : i ∈ l.targets (handled rcids) := mem_targets.mpr ⟨rcid, hmem, hi.found⟩
        exact ⟨i, htarget rcid i hi.found hplace, hvalues i hplace⟩
      · obtain ⟨i, hfound, hplace | ⟨hmtu, hmps⟩⟩ := h.left rcid hmem
        · exact ⟨i, htarget rcid i hfound hplace, hvalues i hplace⟩
        · refine ⟨i, ⟨hfound, hmtu.le, fun _ => hmps.le⟩, ?_⟩
          by_cases hplace : i ∈ l.targets (handled rcids)
          · exact hvalues i hplace
          · simp [Link.reconfigure, if_neg hplace, hmtu, hmps]
    · have hnot : i ∉ l.targets (handled rcids) := by
        intro hmem
        obtain ⟨rcid, hrcid, hfound⟩ := mem_targets.mp hmem
        exact hi (mem_targets.mpr ⟨rcid, List.mem_of_mem_take hrcid, hfound⟩)
      simp [Link.reconfigure, if_neg hnot]

/-- The second pass finds every channel that the first one has found. -/
theorem applyReconfig_handled :
    applyReconfig mtu mps l (handled rcids) =
      some (l.reconfigure mtu mps (l.targets (handled rcids)), l.targets (handled rcids)) := by
  refine applyReconfig_eq mtu mps l (handled rcids) fun rcid hmem => ?_
  obtain ⟨i, hi⟩ := checkReconfig_eq_none hcheck rcid hmem
  rw [hi.found]
  rfl

end Passed

/-- All or nothing: the response is a success and what it says has happened, or it is an error and
no channel has changed. -/
def AllOrNothing (l : Link) (pkt : List UInt8) : Prop :=
  ∃ l' id result events,
    l2cbleProcessSigCmd l pkt = some (l', .reconfigRsp id result events) ∧
      (result = .succeed ∧
          Reconfigured l l' (rd16 (pkt.drop 4) 0) (rd16 (pkt.drop 4) 2) (cidsFrom (pkt.drop 4) 4) ∨
        result ≠ .succeed ∧ l'.ccb = l.ccb)

/-- A packet that has the header of a command, and the length that the header gives. -/
def HasCommand (pkt : List UInt8) : Prop := 4 ≤ pkt.length ∧ 4 + rd16 pkt 2 ≤ pkt.length

/-- Parameters that are not looked at any further than their values. -/
def Unaccepted (p : List UInt8) : Prop :=
  p.length < 6 ∨ validateL2capParams (rd16 p 0) (rd16 p 2) = false

theorem creditBasedReconfigReq_unaccepted {id : ℕ} (h : Unaccepted p) :
    creditBasedReconfigReq l id p = some (l, .reconfigRsp id .unacceptedParam []) := by
  unfold creditBasedReconfigReq
  split
  next => rfl
  next hlen =>
    have hparams := h.resolve_left hlen
    simp [hparams]

theorem creditBasedReconfigReq_accepted {id : ℕ} (h : ¬ Unaccepted p) :
    creditBasedReconfigReq l id p =
      match checkReconfig l (rd16 p 0) (rd16 p 2) (numOfChannels (cidsFrom p 4))
          (handled (cidsFrom p 4)) with
      | some result => some (l, .reconfigRsp id result [])
      | none =>
        some (l.reconfigure (rd16 p 0) (rd16 p 2) (l.targets (handled (cidsFrom p 4))),
          .reconfigRsp id .succeed (l.targets (handled (cidsFrom p 4)))) := by
  obtain ⟨hlen, hparams⟩ := not_or.mp h
  unfold creditBasedReconfigReq
  rw [if_neg hlen]
  dsimp only
  rw [if_neg (by simpa using hparams)]
  cases hcheck : checkReconfig l (rd16 p 0) (rd16 p 2) (numOfChannels (cidsFrom p 4))
      (handled (cidsFrom p 4)) with
  | some result =>
    rw [handled] at hcheck
    rw [hcheck]
  | none =>
    have happly := applyReconfig_handled hcheck
    rw [handled] at hcheck happly
    rw [hcheck]
    dsimp only
    rw [happly]
    rfl

/-- **When a reconfiguration is all or nothing.** For every link and every request, that is if and
only if the packet has the length that its header gives, and its parameters are not accepted, it
lists less than 256 channels, there is something wrong with one of those that are handled, or the
ones left over are covered. -/
theorem reconfig_all_or_nothing_iff (l : Link) (rest : List UInt8) :
    AllOrNothing l (cmdCreditBasedReconfigReq :: rest) ↔
      HasCommand (cmdCreditBasedReconfigReq :: rest) ∧
        (Unaccepted (rest.drop 3) ∨ (cidsFrom (rest.drop 3) 4).length < 256 ∨
          checkReconfig l (rd16 (rest.drop 3) 0) (rd16 (rest.drop 3) 2)
            (numOfChannels (cidsFrom (rest.drop 3) 4)) (handled (cidsFrom (rest.drop 3) 4)) ≠ none ∨
          Covered l (rd16 (rest.drop 3) 0) (rd16 (rest.drop 3) 2) (cidsFrom (rest.drop 3) 4)) := by
  obtain _ | ⟨id, _ | ⟨lo, _ | ⟨hi, p⟩⟩⟩ := rest
  · simp [AllOrNothing, HasCommand, l2cbleProcessSigCmd]
  · simp [AllOrNothing, HasCommand, l2cbleProcessSigCmd]
  · simp [AllOrNothing, HasCommand, l2cbleProcessSigCmd]
  · have hcommand : HasCommand (cmdCreditBasedReconfigReq :: id :: lo :: hi :: p) ↔
        rd16 [lo, hi] 0 ≤ p.length := by
      unfold HasCommand
      rw [show rd16 (cmdCreditBasedReconfigReq :: id :: lo :: hi :: p) 2 = rd16 [lo, hi] 0 from rfl]
      simp only [List.length_cons]
      omega
    have hrun : l2cbleProcessSigCmd l (cmdCreditBasedReconfigReq :: id :: lo :: hi :: p) =
        if rd16 [lo, hi] 0 > p.length then some (l, .dropped)
        else creditBasedReconfigReq l id.toNat p := rfl
    rw [hcommand]
    unfold AllOrNothing
    rw [hrun]
    simp only [List.drop_succ_cons, List.drop_zero]
    by_cases hfits : rd16 [lo, hi] 0 ≤ p.length
    · rw [if_neg (by omega)]
      simp only [hfits, true_and]
      by_cases hun : Unaccepted p
      · rw [creditBasedReconfigReq_unaccepted hun]
        simp [hun]
      · rw [creditBasedReconfigReq_accepted hun]
        cases hcheck : checkReconfig l (rd16 p 0) (rd16 p 2) (numOfChannels (cidsFrom p 4))
            (handled (cidsFrom p 4)) with
        | some result =>
          have hne := checkReconfig_ne_succeed hcheck
          simp [hne]
        | none =>
          -- the first pass accepts: all depends on what the second one reaches
          have hiff := reconfigured_iff_covered hcheck
          have hshort : (cidsFrom p 4).length < 256 ∨
              Covered l (rd16 p 0) (rd16 p 2) (cidsFrom p 4) ↔
                Covered l (rd16 p 0) (rd16 p 2) (cidsFrom p 4) :=
            or_iff_right_of_imp (covered_of_lt hcheck)
          simp [hun, hiff, hshort]
    · rw [if_pos (by omega)]
      simp [hfits]

/-- A link with one channel, of the remote CID `0x40`. -/
def oneChannel : Link :=
  { ccb := fun _ =>
      { inUse := true, remoteCid := 0x40, peerConnCfg := { mtu := 64, mps := 64 }, txMps := 64 }
    queue := [0] }

/-- A request for an MTU and an MPS of 128 that lists the CID `0x40` some times. -/
def repeatedReq (times : ℕ) : List UInt8 :=
  [cmdCreditBasedReconfigReq, 1, 4, 2, 128, 0, 128, 0] ++ (List.replicate times [0x40, 0]).flatten

/-- Listed 256 times, the channel is said to be reconfigured, and keeps its MTU and its MPS. -/
theorem reconfig_success_applies_nothing :
    oneChannel.findCcb 0x40 = some 0 ∧ 0x40 ∈ cidsFrom ((repeatedReq 256).drop 4) 4 ∧
      (l2cbleProcessSigCmd oneChannel (repeatedReq 256)).map
          (fun r => (r.2, (r.1.ccb 0).peerConnCfg)) =
        some (.reconfigRsp 1 .succeed [], { mtu := 64, mps := 64 }) := by
  decide +kernel

end BluetoothStack.L2cap.Ecoc
