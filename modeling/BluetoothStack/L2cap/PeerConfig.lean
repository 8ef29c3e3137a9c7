import BluetoothStack.L2cap.ConfigOptions
import BluetoothStack.L2cap.Segmentation

/-!
# BluetoothStack.L2cap.PeerConfig

What becomes of a configuration request of the peer: `l2cu_process_peer_cfg_req` and
`l2cu_adjust_out_mps` of `l2c_utils.cc`, and `l2c_fcr_process_peer_cfg_req` of `l2c_fcr.cc`.

The MPS of the request goes through two clamps, by the MTU and by the size of a buffer, and through
a rounding to whole packets of the controller. Only an upper bound is ever put on it.
-/

namespace BluetoothStack.L2cap.Config

open BluetoothStack.Lib

/-! ### Channel -/

/-- `L2CAP_PEER_CFG_*` -/
inductive PeerCfgStatus
  | unacceptable
  | ok
  | disconnect
deriving DecidableEq, Repr

/-- `tL2CAP_CFG_RESULT`, the members a request of the peer is answered with -/
inductive CfgResult
  | ok
  | unacceptableParams
  | failedNoReason
deriving DecidableEq, Repr

/-- `L2CAP_MIN_MTU` -/
def l2capMinMtu : ℕ := 48

/-- `L2CAP_DEFAULT_MTU` -/
def l2capDefaultMtu : ℕ := 672

/-- `L2CAP_MTU_SIZE` -/
def l2capMtuSize : ℕ := 1691

/-- `L2CAP_FCR_BASIC_MODE` -/
def fcrBasicMode : ℕ := 0

/-- `L2CAP_FCR_ERTM_MODE` -/
def fcrErtmMode : ℕ := 3

/-- `L2CAP_FCR_CHAN_OPT_ALL_MASK` -/
def fcrChanOptAllMask : ℕ := 1 <<< fcrBasicMode ||| 1 <<< fcrErtmMode

/-- `SVC_TYPE_BEST_EFFORT` -/
def svcTypeBestEffort : ℕ := 1

/-- `SVC_TYPE_GUARANTEED` -/
def svcTypeGuaranteed : ℕ := 2

/-- The part of `tL2C_CCB`, and of its registration and its link, that configuration by the peer
uses. An MTU of the peer is never below the least one: it starts as `L2CAP_DEFAULT_MTU`. -/
structure Ccb where
  /-- `p_rcb->ertm_info.preferred_mode` -/
  preferredMode : ℕ := fcrErtmMode
  /-- `p_rcb->required_remote_mtu` -/
  requiredRemoteMtu : ℕ := 0
  /-- `p_lcb->w4_info_rsp` -/
  w4InfoRsp : Bool := false
  ourCfg : CfgInfo := {}
  peerCfg : CfgInfo := { mtu := l2capDefaultMtu }
  /-- `IB_CFG_DONE` in `config_done` -/
  ibCfgDone : Bool := false
  peerCfgAlreadyRejected : Bool := false
  outCfgFcrPresent : Bool := false
  txMps : ℕ := 0
  minMtu : l2capMinMtu ≤ peerCfg.mtu := by decide

/-- The channel, and the request as it is rewritten into its response. -/
structure Exchange where
  ccb : Ccb
  cfg : CfgInfo
  result : CfgResult := .ok

/-! ### Retransmission and flow control -/

/-- `l2cu_get_fcs_len` -/
def l2cuGetFcsLen (c : Ccb) : ℕ :=
  if (c.peerCfg.fcsPresent ∧ c.peerCfg.fcs = 0) ∧ c.ourCfg.fcsPresent ∧ c.ourCfg.fcs = 0 then 0
  else l2capFcsLen

/-- The first part of `l2c_fcr_process_peer_cfg_req`: the modes are compared, and the request is
rewritten if they do not go together. -/
def compareModes (x : Exchange) : Exchange × Bool :=
  let fcr := x.cfg.fcr
  let our := x.ccb.ourCfg.fcr
  if fcr.mode ≠ x.ccb.preferredMode then
    if 1 <<< fcr.mode &&& fcrChanOptAllMask = 0 ∨
        (x.ccb.preferredMode = fcrErtmMode ∧ fcr.mode ≠ fcrBasicMode) then
      let fcr :=
        { fcr with mode := our.mode, txWinSz := our.txWinSz, maxTransmit := our.maxTransmit }
      ({ x with cfg := { x.cfg with fcr } }, false)
    else if x.ccb.preferredMode = fcrBasicMode then
      let our := { our with rtransTout := 0, monTout := 0, mps := 0 }
      ({ x with
          ccb := { x.ccb with ourCfg := { x.ccb.ourCfg with fcr := our } }
          cfg := { x.cfg with fcr := { mode := fcrBasicMode } } }, false)
    else (x, true)
  else (x, true)

/-- `BT_ERTM_BUFFER_SIZE` -/
def btErtmBufferSize : ℕ := 8080 + 26

/-- `BT_DEFAULT_BUFFER_SIZE` -/
def btDefaultBufferSize : ℕ := 4096 + 16

/-- `max_retrans_size`; `improve` is the flag `l2cap_improve_segmented_sdu`. -/
def maxRetransSize (improve : Bool) (mode fcsLen : ℕ) : ℕ :=
  (if improve ∧ mode = fcrErtmMode then btErtmBufferSize else btDefaultBufferSize) -
    btHdrSize - l2capMinOffset - l2capSduLenOffset - fcsLen

/-- The MPS within the MTU and the retransmission buffer, and whether it had to be changed. -/
def clampMps (mps mtu limit : ℕ) : ℕ × Bool :=
  let (mps, changed) := if mps = 0 ∨ mtu < mps then (mtu, true) else (mps, false)
  if limit < mps then (limit, true) else (mps, changed)

/-- The second part of `l2c_fcr_process_peer_cfg_req`, for modes that go together: adjustments for
the response. -/
def adjustFcr (improve : Bool) (x : Exchange) : Exchange :=
  let fcsLen := l2cuGetFcsLen x.ccb
  let ccb := { x.ccb with outCfgFcrPresent := false }
  if x.cfg.fcrPresent ∧ x.cfg.fcr.mode ≠ fcrBasicMode then
    let fcs := if x.cfg.fcsPresent then x.cfg.fcs else ccb.peerCfg.fcs
    let (mps, changed) :=
      clampMps x.cfg.fcr.mps ccb.peerCfg.mtu (maxRetransSize improve x.cfg.fcr.mode fcsLen)
    let fcr := { x.cfg.fcr with mps }
    { x with
      ccb :=
        { ccb with
          -- ERTM parameters are always in the response
          outCfgFcrPresent := changed || fcr.mode = fcrErtmMode
          peerCfg := { ccb.peerCfg with fcs, fcr }
          minMtu := ccb.minMtu }
      cfg := { x.cfg with fcr } }
  else
    { x with
      ccb := { ccb with peerCfg := { ccb.peerCfg with fcr := x.cfg.fcr }, minMtu := ccb.minMtu } }

/-- `l2c_fcr_process_peer_cfg_req` -/
def l2cFcrProcessPeerCfgReq (improve : Bool) (x : Exchange) : Exchange × PeerCfgStatus :=
  let (x, fcrOk) := compareModes { x with ccb := { x.ccb with w4InfoRsp := false } }
  if fcrOk then (adjustFcr improve x, .ok)
  -- one retry for the mode
  else if x.ccb.peerCfgAlreadyRejected then (x, .disconnect)
  else ({ x with ccb := { x.ccb with peerCfgAlreadyRejected := true } }, .unacceptable)

/-! ### The other options -/

/-- The FCR and FCS options at the start of `l2cu_process_peer_cfg_req`. -/
def takeFcs (x : Exchange) : Exchange :=
  let cfg :=
    if x.cfg.fcrPresent then x.cfg
    else { x.cfg with fcr := { x.cfg.fcr with mode := fcrBasicMode } }
  if cfg.fcsPresent then
    { x with
      ccb :=
        { x.ccb with
          peerCfg := { x.ccb.peerCfg with fcsPresent := true, fcs := cfg.fcs }
          minMtu := x.ccb.minMtu }
      cfg }
  else { x with cfg }

/-- `required_remote_mtu` -/
def requiredRemoteMtu (c : Ccb) : ℕ := max l2capMinMtu c.requiredRemoteMtu

/-- In basic mode, the MTU is limited to the buffer size. -/
def limitMtu (cfg : CfgInfo) : ℕ :=
  if !cfg.fcrPresent && l2capMtuSize < cfg.mtu then l2capMtuSize else cfg.mtu

theorem minMtu_limitMtu {c : Ccb} {cfg : CfgInfo} (h : requiredRemoteMtu c ≤ cfg.mtu) :
    l2capMinMtu ≤ limitMtu cfg := by
  rw [limitMtu]
  split
  · decide
  · exact (le_max_left _ _).trans h

/-- The MTU option, and `mtu_ok`. -/
def takeMtu (x : Exchange) : Exchange × Bool :=
  if !x.cfg.mtuPresent ∧ l2capDefaultMtu < requiredRemoteMtu x.ccb then
    ({ x with cfg := { x.cfg with mtu := requiredRemoteMtu x.ccb } }, false)
  else if x.cfg.mtuPresent then
    if h : requiredRemoteMtu x.ccb ≤ x.cfg.mtu then
      let mtu := limitMtu x.cfg
      ({ x with
          ccb :=
            { x.ccb with
              peerCfg := { x.ccb.peerCfg with mtu, mtuPresent := true }
              minMtu := minMtu_limitMtu h }
          cfg := { x.cfg with mtu } }, true)
    else ({ x with cfg := { x.cfg with mtu := requiredRemoteMtu x.ccb } }, false)
  else if x.ccb.peerCfg.mtuPresent ∧ !x.ccb.ibCfgDone then
    ({ x with cfg := { x.cfg with mtuPresent := true, mtu := x.ccb.peerCfg.mtu } }, true)
  else (x, true)

/-- The flush timeout option, and `flush_to_ok`. -/
def takeFlushTo (x : Exchange) : Exchange × Bool :=
  if x.cfg.flushToPresent then
    if x.cfg.flushTo = 0 then ({ x with cfg := { x.cfg with flushTo := 0xFFFF } }, false)
    else
      ({ x with
          ccb :=
            { x.ccb with
              peerCfg := { x.ccb.peerCfg with flushToPresent := true, flushTo := x.cfg.flushTo }
              minMtu := x.ccb.minMtu } }, true)
  else if x.ccb.peerCfg.flushToPresent ∧ !x.ccb.ibCfgDone then
    ({ x with
        cfg := { x.cfg with flushToPresent := true, flushTo := x.ccb.peerCfg.flushTo } }, true)
  else (x, true)

/-- The QoS option, and `qos_type_ok`. -/
def takeQos (x : Exchange) : Exchange × Bool :=
  if x.cfg.qosPresent then
    if x.cfg.qos.serviceType ≤ svcTypeGuaranteed then
      ({ x with
          ccb :=
            { x.ccb with
              peerCfg := { x.ccb.peerCfg with qos := x.cfg.qos, qosPresent := true }
              minMtu := x.ccb.minMtu } }, true)
    else
      ({ x with
          cfg := { x.cfg with qos := { x.cfg.qos with serviceType := svcTypeBestEffort } } }, false)
  else if x.ccb.peerCfg.qosPresent ∧ !x.ccb.ibCfgDone then
    ({ x with cfg := { x.cfg with qosPresent := true, qos := x.ccb.peerCfg.qos } }, true)
  else (x, true)

/-! ### The request -/

/-- The `tx_mps` that `l2cu_adjust_out_mps` finds for an MPS and a packet size of the controller. -/
def outMps (packetSize mps : ℕ) : ℕ :=
  let overhead := l2capPktOverhead + l2capFcrOverhead + l2capSduLenOverhead + l2capFcsLen
  if packetSize ≤ overhead then mps
  else
    -- whole packets
    let packetSize := packetSize - overhead
    if packetSize ≤ mps then mps / packetSize * packetSize else mps

/-- `l2cu_adjust_out_mps`; `packetSize` is what `BTM_GetMaxPacketSize` returns. -/
def l2cuAdjustOutMps (packetSize : ℕ) (c : Ccb) : Ccb :=
  { c with txMps := outMps packetSize c.peerCfg.fcr.mps }

/-- `l2cu_process_peer_cfg_req` -/
def l2cuProcessPeerCfgReq (improve : Bool) (packetSize : ℕ) (x : Exchange) :
    Exchange × PeerCfgStatus :=
  let (x, mtuOk) := takeMtu (takeFcs x)
  let (x, flushToOk) := takeFlushTo x
  let (x, qosTypeOk) := takeQos x
  let (x, fcrStatus) := l2cFcrProcessPeerCfgReq improve x
  match fcrStatus with
  | .disconnect =>
    ({ x with
        cfg := { x.cfg with mtuPresent := false, qosPresent := false, flushToPresent := false }
        result := .failedNoReason }, .disconnect)
  | _ =>
    let fcrOk := fcrStatus = .ok
    if mtuOk ∧ flushToOk ∧ qosTypeOk ∧ fcrOk then
      ({ x with ccb := l2cuAdjustOutMps packetSize x.ccb }, .ok)
    else
      ({ x with
          cfg :=
            { x.cfg with
              mtuPresent := x.cfg.mtuPresent && !mtuOk
              flushToPresent := x.cfg.flushToPresent && !flushToOk
              qosPresent := x.cfg.qosPresent && !qosTypeOk
              fcrPresent := x.cfg.fcrPresent && !fcrOk }
          result := .unacceptableParams }, .unacceptable)

/-! ### The MPS on its way -/

/-- The request asks for ERTM with an MPS. -/
def AsksErtm (mps : ℕ) (x : Exchange) : Prop :=
  x.cfg.fcrPresent = true ∧ x.cfg.fcr.mode = fcrErtmMode ∧ x.cfg.fcr.mps = mps

variable {mps : ℕ} {x x' : Exchange}

theorem AsksErtm.takeFcs (h : AsksErtm mps x) : AsksErtm mps (takeFcs x) := by
  unfold Config.takeFcs
  rw [if_pos h.1]
  dsimp only
  split
  · exact h
  · exact h

theorem AsksErtm.takeMtu (h : AsksErtm mps x) : AsksErtm mps (takeMtu x).1 := by
  unfold Config.takeMtu
  repeat' split
  all_goals exact h

theorem AsksErtm.takeFlushTo (h : AsksErtm mps x) : AsksErtm mps (takeFlushTo x).1 := by
  unfold Config.takeFlushTo
  repeat' split
  all_goals exact h

theorem AsksErtm.takeQos (h : AsksErtm mps x) : AsksErtm mps (takeQos x).1 := by
  unfold Config.takeQos
  repeat' split
  all_goals exact h

theorem compareModes_fst (h : compareModes x = (x', true)) : x' = x := by
  unfold compareModes at h
  dsimp only at h
  split at h
  · split at h
    · cases h
    · split at h
      · cases h
      · cases h
        rfl
  · cases h
    rfl

theorem clampMps_bounds {mtu limit : ℕ} (hmtu : l2capMinMtu ≤ mtu) (hlimit : l2capMinMtu ≤ limit) :
    (clampMps mps mtu limit).1 ≤ limit ∧
      ((clampMps mps mtu limit).1 = mps ∧ mps ≠ 0 ∨
        (mps = 0 ∨ l2capMinMtu < mps) ∧ l2capMinMtu ≤ (clampMps mps mtu limit).1) := by
  by_cases hchange : mps = 0 ∨ mtu < mps
  · have hasked : mps = 0 ∨ l2capMinMtu < mps := hchange.imp_right hmtu.trans_lt
    rw [clampMps, if_pos hchange]
    dsimp only
    split
    case isTrue hlong => exact ⟨le_rfl, .inr ⟨hasked, hlimit⟩⟩
    case isFalse hlong => exact ⟨not_lt.mp hlong, .inr ⟨hasked, hmtu⟩⟩
  · rw [clampMps, if_neg hchange]
    dsimp only
    split
    case isTrue hlong => exact ⟨le_rfl, .inr ⟨.inr (hlimit.trans_lt hlong), hlimit⟩⟩
    case isFalse hlong => exact ⟨not_lt.mp hlong, .inl ⟨rfl, fun hzero => hchange (.inl hzero)⟩⟩

theorem maxRetransSize_bounds (improve : Bool) (mode : ℕ) {fcsLen : ℕ} (h : fcsLen ≤ l2capFcsLen) :
    l2capMinMtu ≤ maxRetransSize improve mode fcsLen ∧ maxRetransSize improve mode fcsLen ≤
      btErtmBufferSize := by
  rw [l2capFcsLen] at h
  simp only [maxRetransSize, btErtmBufferSize, btDefaultBufferSize, btHdrSize, l2capMinOffset,
    l2capSduLenOffset, l2capMinMtu]
  split
  · omega
  · omega

theorem l2cuGetFcsLen_le (c : Ccb) : l2cuGetFcsLen c ≤ l2capFcsLen := by
  unfold l2cuGetFcsLen
  split
  · exact Nat.zero_le _
  · exact le_rfl

/-- What is left of the MPS of an accepted ERTM request: the MPS itself, or one that is no less than
the least MTU. -/
def Negotiated (asked mps : ℕ) : Prop :=
  mps ≤ btErtmBufferSize ∧
    (mps = asked ∧ asked ≠ 0 ∨ (asked = 0 ∨ l2capMinMtu < asked) ∧ l2capMinMtu ≤ mps)

theorem adjustFcr_mps (improve : Bool) (hx : AsksErtm mps x) :
    Negotiated mps (adjustFcr improve x).ccb.peerCfg.fcr.mps := by
  obtain ⟨hpresent, hmode, hmps⟩ := hx
  have hbasic : x.cfg.fcr.mode ≠ fcrBasicMode := by
    rw [hmode]
    decide
  have hlimit := maxRetransSize_bounds improve x.cfg.fcr.mode (l2cuGetFcsLen_le x.ccb)
  unfold adjustFcr
  dsimp only
  rw [if_pos ⟨hpresent, hbasic⟩, ← hmps]
  obtain ⟨hle, hcases⟩ := clampMps_bounds x.ccb.minMtu hlimit.1
  exact ⟨hle.trans hlimit.2, hcases⟩

theorem l2cFcrProcessPeerCfgReq_mps {improve : Bool} (hx : AsksErtm mps x)
    (h : l2cFcrProcessPeerCfgReq improve x = (x', .ok)) :
    Negotiated mps x'.ccb.peerCfg.fcr.mps := by
  unfold l2cFcrProcessPeerCfgReq at h
  generalize hmodes : compareModes { x with ccb := { x.ccb with w4InfoRsp := false } } = r at h
  obtain ⟨y, fcrOk⟩ := r
  dsimp only at h
  split at h
  case isTrue hok =>
    cases h
    rw [hok] at hmodes
    rw [compareModes_fst hmodes]
    exact adjustFcr_mps improve hx
  case isFalse =>
    split at h
    · cases h
    · cases h

theorem l2cuProcessPeerCfgReq_mps {improve : Bool} {packetSize : ℕ} (hx : AsksErtm mps x)
    (h : l2cuProcessPeerCfgReq improve packetSize x = (x', .ok)) :
    ∃ mps', Negotiated mps mps' ∧ x'.ccb.txMps = outMps packetSize mps' := by
  have hqos := hx.takeFcs.takeMtu.takeFlushTo.takeQos
  unfold l2cuProcessPeerCfgReq at h
  dsimp only at h
  generalize hfcr : l2cFcrProcessPeerCfgReq improve _ = r at h
  obtain ⟨y, fcrStatus⟩ := r
  dsimp only at h
  split at h
  case h_1 => cases h
  case h_2 =>
    split at h
    case isTrue hall =>
      cases h
      rw [hall.2.2.2] at hfcr
      exact ⟨_, l2cFcrProcessPeerCfgReq_mps hqos hfcr, rfl⟩
    case isFalse => cases h

/-! ### Rounding -/

theorem outMps_le (packetSize mps : ℕ) : outMps packetSize mps ≤ mps := by
  unfold outMps
  dsimp only
  split_ifs
  · exact le_rfl
  · exact Nat.div_mul_le_self _ _
  · exact le_rfl

/-- Rounding to whole packets takes less than half of an MPS: only of three bytes may two be left.
-/
theorem two_lt_outMps_iff (packetSize mps : ℕ) :
    2 < outMps packetSize mps ↔ 2 < mps ∧ ¬(mps = 3 ∧ packetSize = 12) := by
  simp only [outMps, l2capPktOverhead, l2capFcrOverhead, l2capSduLenOverhead, l2capFcsLen]
  split_ifs with hsmall hround
  · omega
  · generalize hp : packetSize - (4 + 2 + 2 + 2) = p at hround ⊢
    have hpos : 0 < p := by omega
    have hwhole : p ≤ mps / p * p := Nat.le_mul_of_pos_left p (Nat.div_pos hround hpos)
    have hsum := Nat.div_add_mod' mps p
    have hrest := Nat.mod_lt mps hpos
    constructor
    · intro habove
      refine ⟨by omega, fun hthree => ?_⟩
      obtain rfl : p = 2 := by omega
      rw [hthree.1] at habove
      exact absurd habove (by decide)
    · intro hcond
      omega
  · omega

theorem Negotiated.two_lt_iff {asked : ℕ} (h : Negotiated asked mps) (packetSize : ℕ) :
    2 < outMps packetSize mps ↔
      (asked = 0 ∨ 2 < asked) ∧ ¬(asked = 3 ∧ packetSize = 12) := by
  rw [two_lt_outMps_iff]
  obtain ⟨-, hcases⟩ := h
  rw [l2capMinMtu] at hcases
  omega

/-! ### Usable segments -/

/-- Segments can be cut with an MPS: it is above the SDU length, and the next segment of an SDU is
always copied from within it. -/
structure UsableMps (mps : ℕ) : Prop where
  above : l2capSduLenOverhead < mps
  returns : ∀ (c : ChanCfg) (n : Node) (b : SduBuf) (rest : List BtHdr), c.txMps = mps →
    c.peerCfg.mode = .ertm → n.fcrb.retransQ = [] → n.xmitHoldQ = b.toBtHdr :: rest →
    ∃ p, l2cFcrGetNextXmitSduSeg c n 0 = .ok p

theorem usableMps_iff (hle : mps ≤ 65510) : UsableMps mps ↔ l2capSduLenOverhead < mps := by
  refine ⟨UsableMps.above, fun habove => ⟨habove, ?_⟩⟩
  intro c n b rest hmps hc hq hb
  rw [← hmps] at habove hle
  exact nextSduSeg_returns c hc hq hb (b.ok.cuttable _) habove.le ((min_le_right _ _).trans hle)

/-- The MPS that an accepted ERTM request leads to is usable just if the request has none or one
above two, and not three with a controller that sends two bytes of data in a packet. -/
theorem negotiated_mps_usable_iff {improve : Bool} {packetSize : ℕ} {x x' : Exchange}
    (hpresent : x.cfg.fcrPresent = true) (hmode : x.cfg.fcr.mode = fcrErtmMode)
    (h : l2cuProcessPeerCfgReq improve packetSize x = (x', .ok)) :
    UsableMps x'.ccb.txMps ↔
      (x.cfg.fcr.mps = 0 ∨ 2 < x.cfg.fcr.mps) ∧ ¬(x.cfg.fcr.mps = 3 ∧ packetSize = 12) := by
  obtain ⟨mps, hmps, heq⟩ := l2cuProcessPeerCfgReq_mps ⟨hpresent, hmode, rfl⟩ h
  have hle : outMps packetSize mps ≤ 65510 :=
    (outMps_le packetSize mps).trans (hmps.1.trans (by decide))
  rw [heq, usableMps_iff hle]
  exact hmps.two_lt_iff packetSize

/-- A new channel, and a request for ERTM with an MPS. -/
def Exchange.ertm (mps : ℕ) : Exchange where
  ccb := {}
  cfg :=
    { fcrPresent := true, fcr := { mode := fcrErtmMode, txWinSz := 10, maxTransmit := 20, mps } }

theorem negotiated_mps_usable_iff_default :
    (l2cuProcessPeerCfgReq false 1021 (.ertm 1010)).2 = .ok ∧
      (UsableMps (l2cuProcessPeerCfgReq false 1021 (.ertm 1010)).1.ccb.txMps ↔
        (1010 = 0 ∨ 2 < 1010) ∧ ¬(1010 = 3 ∧ 1021 = 12)) :=
  ⟨by decide, negotiated_mps_usable_iff (x := .ertm 1010) rfl rfl (Prod.ext rfl (by decide))⟩

/-- An MPS of one is accepted. The first segment of two bytes is then copied with a length of 65535.
-/
theorem negotiated_mps_one_overruns :
    (l2cuProcessPeerCfgReq false 1021 (.ertm 1)).2 = .ok ∧
      (l2cuProcessPeerCfgReq false 1021 (.ertm 1)).1.ccb.txMps = 1 ∧
      l2cFcrGetNextXmitSduSeg { ChanCfg.default with txMps := 1 }
        { Node.init with xmitHoldQ := [(SduBuf.ofBytes [1, 2]).toBtHdr] } 0 = .error .overrun := by
  refine ⟨by decide, by decide, rfl⟩

end BluetoothStack.L2cap.Config
