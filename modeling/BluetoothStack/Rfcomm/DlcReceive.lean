import BluetoothStack.Rfcomm.DlcCredits

/-!
# BluetoothStack.Rfcomm.DlcReceive

The credits granted to the peer, against the room in the receive queue.

`credit_rx` counts the credits that the peer holds together with the buffers that wait to be
read. Each grant brings it up to `credit_rx_max`, so that the two together stay below it. The
exceptions are `PORT_FlowControl_MaxCredit`, which forgets what is outstanding before it
grants, and a negotiation while buffers wait or with more initial credits than there is room
for; `grantsFit` rules these out.
-/

namespace BluetoothStack.Rfcomm

/-! ### The ledger of the receiver -/

/-- What the peer was granted. -/
structure PeerLedger where
  /-- Credits that the peer still holds. -/
  held : Nat
  /-- The initial credits last sent in a PN message. -/
  initial : Nat
  /-- A frame was dropped because there were too many buffers. -/
  overrun : Bool
deriving DecidableEq, Repr

def PeerLedger.enter (l : PeerLedger) : Entry → PeerLedger
  | .initialCredits k => { l with held := k, initial := k }
  | .credit n => { l with held := l.held + n }
  | .data _ n _ => { l with held := l.held + n }
  | .received => { l with held := l.held - 1 }
  | .dropped true => { l with overrun := true }
  | _ => l

def peerLedger (log : List Entry) : PeerLedger := log.foldl PeerLedger.enter ⟨0, 0, false⟩

@[simp] theorem peerLedger_concat (log : List Entry) (e : Entry) :
    peerLedger (log ++ [e]) = (peerLedger log).enter e := by
  simp [peerLedger]

namespace Dlc

variable {s s' : Dlc}

/-- The credits that the peer holds and the buffers that wait. -/
def outstanding (s : Dlc) : Nat := (peerLedger s.log).held + s.rxQueue.length

/-- What the receiver may have outstanding. -/
def allowance (s : Dlc) : Nat := max s.creditRxMax (peerLedger s.log).initial

structure RxInv (s : Dlc) : Prop where
  counted : s.outstanding ≤ s.creditRx
  allowed : s.outstanding ≤ s.allowance
  watermarks : s.Watermarks
  initial : (peerLedger s.log).initial ≤ s.rxBufCritical
  stored : (peerLedger s.log).overrun = false

/-- Nothing happened to what the receiver counts. -/
structure SameRx (s s' : Dlc) : Prop where
  rxQueue : s'.rxQueue.length = s.rxQueue.length
  creditRx : s'.creditRx = s.creditRx
  mtu : s'.mtu = s.mtu
  creditRxMax : s'.creditRxMax = s.creditRxMax
  rxBufCritical : s'.rxBufCritical = s.rxBufCritical
  ledger : peerLedger s'.log = peerLedger s.log

theorem SameRx.refl (s : Dlc) : SameRx s s := ⟨rfl, rfl, rfl, rfl, rfl, rfl⟩

theorem SameRx.trans {s₁ s₂ s₃ : Dlc} (h : SameRx s₁ s₂) (h' : SameRx s₂ s₃) : SameRx s₁ s₃ :=
  ⟨h'.rxQueue.trans h.rxQueue, h'.creditRx.trans h.creditRx, h'.mtu.trans h.mtu,
    h'.creditRxMax.trans h.creditRxMax, h'.rxBufCritical.trans h.rxBufCritical,
    h'.ledger.trans h.ledger⟩

theorem SameRx.after {s₁ s₂ s₃ : Dlc} (h' : SameRx s₂ s₃) (h : SameRx s₁ s₂) : SameRx s₁ s₃ :=
  h.trans h'

theorem sameRx_note {e : Entry} (he : ∀ l : PeerLedger, l.enter e = l) : SameRx s (s.note e) :=
  ⟨rfl, rfl, rfl, rfl, rfl, by simp [note, he]⟩

theorem Watermarks.same (h : s.Watermarks) (same : SameRx s s') : s'.Watermarks := by
  obtain ⟨hle, hmax, hcrit⟩ := h
  refine ⟨?_, ?_, ?_⟩
  · rwa [same.creditRxMax, same.rxBufCritical]
  · rwa [same.creditRxMax, same.mtu]
  · rwa [same.rxBufCritical, same.mtu]

theorem RxInv.same (h : RxInv s) (same : SameRx s s') : RxInv s' := by
  have hout : s'.outstanding = s.outstanding := by
    rw [outstanding, outstanding, same.ledger, same.rxQueue]
  refine ⟨?_, ?_, h.watermarks.same same, ?_, ?_⟩
  · rw [hout, same.creditRx]
    exact h.counted
  · rw [hout, allowance, same.creditRxMax, same.ledger]
    exact h.allowed
  · rw [same.ledger, same.rxBufCritical]
    exact h.initial
  · rw [same.ledger]
    exact h.stored

/-! ### Granting -/

/-- A grant that brings `credit_rx` up to its maximum, by the given entry. -/
theorem RxInv.grant (h : RxInv s) {e : Entry} (hlt : s.creditRx < s.creditRxMax)
    (he : ∀ l : PeerLedger, l.enter e =
      { l with held := l.held + (s.creditRxMax - s.creditRx) % 256 })
    (hs : s'.log = s.log ++ [e]) (hq : s'.rxQueue = s.rxQueue) (hrx : s'.creditRx = s.creditRxMax)
    (hm : s'.mtu = s.mtu ∧ s'.creditRxMax = s.creditRxMax ∧ s'.rxBufCritical = s.rxBufCritical) :
    RxInv s' := by
  have hmax := h.watermarks.creditRxMax
  have hcount := h.counted
  -- the grant fits the byte it is sent in
  have hten : s.creditRxMax ≤ 10 := hmax.trans (min_le_right _ _)
  have hheld : (peerLedger s'.log).held =
      (peerLedger s.log).held + (s.creditRxMax - s.creditRx) := by
    rw [hs, peerLedger_concat, he, Nat.mod_eq_of_lt (by omega)]
  have hinit : (peerLedger s'.log).initial = (peerLedger s.log).initial := by
    rw [hs, peerLedger_concat, he]
  have hover : (peerLedger s'.log).overrun = (peerLedger s.log).overrun := by
    rw [hs, peerLedger_concat, he]
  have hout : s'.outstanding ≤ s.creditRxMax := by
    rw [outstanding] at hcount ⊢
    rw [hheld, hq]
    omega
  refine ⟨?_, ?_, ⟨?_, ?_, ?_⟩, ?_, ?_⟩
  · rwa [hrx]
  · rw [allowance, hm.2.1]
    exact hout.trans (le_max_left _ _)
  · rw [hm.2.1, hm.2.2]
    exact h.watermarks.le_critical
  · rw [hm.2.1, hm.1]
    exact hmax
  · rw [hm.2.2, hm.1]
    exact h.watermarks.rxBufCritical
  · rw [hinit, hm.2.2]
    exact h.initial
  · rw [hover]
    exact h.stored

theorem rfcDecCredit_sameRx (s : Dlc) : SameRx s s.rfcDecCredit := by
  rw [rfcDecCredit]
  split <;> exact ⟨rfl, rfl, rfl, rfl, rfl, rfl⟩

theorem RxInv.dataReq (h : RxInv s) (buf : List UInt8) : RxInv (s.rfcommDataReq buf) := by
  rw [rfcommDataReq]
  split
  · split
    next hpig =>
      simp only [piggybacks, Bool.and_eq_true, decide_eq_true_eq] at hpig
      refine RxInv.same ?_ (rfcDecCredit_sameRx _)
      exact h.grant hpig.2 (fun _ => rfl) rfl rfl rfl ⟨rfl, rfl, rfl⟩
    · refine RxInv.same (h.same (sameRx_note ?_)) (rfcDecCredit_sameRx _)
      intro l
      rfl
  · exact h

theorem rxInv_sendStable : SendStable RxInv where
  queue _ _ h := h.same ⟨rfl, rfl, rfl, rfl, rfl, rfl⟩
  accepted h := h.same (sameRx_note fun _ => rfl)
  data buf h _ := h.dataReq buf
  gate h := h.same ⟨rfl, rfl, rfl, rfl, rfl, rfl⟩

theorem RxInv.portFlowInd (h : RxInv s) (enable : Bool) : RxInv (s.portFlowInd enable) :=
  rxInv_sendStable.send (h.same ⟨rfl, rfl, rfl, rfl, rfl, rfl⟩)

theorem RxInv.rfcIncCredit (h : RxInv s) (credit : Nat) : RxInv (s.rfcIncCredit credit) := by
  rw [Dlc.rfcIncCredit]
  split
  · have h' : RxInv ({ s with creditTx := (s.creditTx + credit) % 65536 }.note
        (.granted credit)) :=
      h.same ((sameRx_note fun _ => rfl).after ⟨rfl, rfl, rfl, rfl, rfl, rfl⟩)
    simp only
    split
    · exact h'.portFlowInd true
    · exact h'
  · exact h

theorem rfcommFlowReq_sameRx (s : Dlc) (enable : Bool) : SameRx s (s.rfcommFlowReq enable) := by
  rw [rfcommFlowReq]
  split <;> exact ⟨rfl, rfl, rfl, rfl, rfl, rfl⟩

/-- What is no longer counted is not outstanding, and credits may be granted for it. -/
theorem RxInv.enablePeer {count : Nat} {left : List (List UInt8)} {size : Nat} {fc : Bool}
    (h : RxInv s) (hleft : left.length ≤ s.rxQueue.length)
    (hrest : (peerLedger s.log).held + left.length ≤ s.creditRx - count) :
    RxInv ({ s with rxQueue := left, rxQueueSize := size, rxUserFc := fc }.portFlowControlPeer
      true count) := by
  have hcount := h.counted
  have hallow := h.allowed
  simp only [outstanding] at hcount hallow
  rw [portFlowControlPeer]
  split
  · have h' : RxInv { s with
        rxQueue := left, rxQueueSize := size, rxUserFc := fc, creditRx := s.creditRx - count } := by
      refine ⟨hrest, ?_, ⟨h.watermarks.le_critical, h.watermarks.creditRxMax,
        h.watermarks.rxBufCritical⟩, h.initial, h.stored⟩
      exact (Nat.add_le_add_left hleft _).trans hallow
    simp only [if_true]
    split
    next hgrant => exact h'.grant hgrant.2.2 (fun _ => rfl) rfl rfl rfl ⟨rfl, rfl, rfl⟩
    · exact h'
  · have h' : RxInv { s with rxQueue := left, rxQueueSize := size, rxUserFc := fc } := by
      refine ⟨?_, ?_, ⟨h.watermarks.le_critical, h.watermarks.creditRxMax,
        h.watermarks.rxBufCritical⟩, h.initial, h.stored⟩
      · exact (Nat.add_le_add_left hleft _).trans hcount
      · exact (Nat.add_le_add_left hleft _).trans hallow
    simp only [if_true]
    split
    · split
      · exact h'.same ((rfcommFlowReq_sameRx _ true).after ⟨rfl, rfl, rfl, rfl, rfl, rfl⟩)
      · exact h'.same ⟨rfl, rfl, rfl, rfl, rfl, rfl⟩
    · exact h'

theorem disablePeer_sameRx (s : Dlc) : SameRx s (s.portFlowControlPeer false 0) := by
  rw [portFlowControlPeer]
  simp only [Bool.false_eq_true, if_false]
  split
  · split
    · exact ⟨rfl, rfl, rfl, rfl, rfl, rfl⟩
    · exact SameRx.refl s
  · split
    · exact (rfcommFlowReq_sameRx _ false).after ⟨rfl, rfl, rfl, rfl, rfl, rfl⟩
    · exact SameRx.refl s

/-- A data frame of a peer that holds a credit: it is stored, unless it brings too many bytes. -/
theorem RxInv.portSmUih (h : RxInv s) (hheld : 0 < (peerLedger s.log).held) (buf : List UInt8) :
    RxInv (s.portSmUih buf) := by
  have hcount := h.counted
  have hallow := h.allowed
  have hroom : s.allowance ≤ s.rxBufCritical := max_le h.watermarks.le_critical h.initial
  simp only [outstanding] at hcount hallow
  have h' : RxInv (s.note .received) := by
    refine ⟨?_, ?_, ⟨h.watermarks.le_critical, h.watermarks.creditRxMax,
      h.watermarks.rxBufCritical⟩, ?_, ?_⟩
    · simp only [outstanding, note, peerLedger_concat, PeerLedger.enter]
      omega
    · simp only [outstanding, allowance, note, peerLedger_concat, PeerLedger.enter]
      rw [allowance] at hallow
      omega
    · simpa [note, PeerLedger.enter] using h.initial
    · simpa [note, PeerLedger.enter] using h.stored
  rw [Dlc.portSmUih]
  split
  swap
  · exact h'
  rw [portDataInd]
  split
  -- the queue has room for every credit that is out, so only bytes can be too many
  · have hfit : ¬ (s.note .received).rxQueue.length + 1 > (s.note .received).rxBufCritical := by
      simp only [note]
      omega
    rw [decide_eq_false hfit]
    exact h'.same (sameRx_note fun _ => rfl)
  · refine RxInv.same ?_ (disablePeer_sameRx _)
    refine ⟨?_, ?_, ⟨h.watermarks.le_critical, h.watermarks.creditRxMax,
      h.watermarks.rxBufCritical⟩, h'.initial, h'.stored⟩
    · simp only [outstanding, note, peerLedger_concat, PeerLedger.enter, List.length_append,
        List.length_singleton]
      omega
    · simp only [outstanding, allowance, note, peerLedger_concat, PeerLedger.enter,
        List.length_append, List.length_singleton]
      rw [allowance] at hallow
      omega

theorem readLoop_length (q : List (List UInt8)) (maxLen : Nat) :
    (readLoop q maxLen).2.1.length + (readLoop q maxLen).2.2 = q.length := by
  induction q generalizing maxLen with
  | nil => rfl
  | cons buf rest ih =>
    rw [readLoop]
    split
    · rfl
    split
    · rfl
    · exact congrArg (· + 1) (ih (maxLen - buf.length))

theorem RxInv.portReadData (h : RxInv s) (maxLen : Nat) : RxInv (s.portReadData maxLen) := by
  rw [Dlc.portReadData]
  split
  · exact h
  · have hlen := readLoop_length s.rxQueue maxLen
    have hcount := h.counted
    rw [outstanding] at hcount
    refine h.enablePeer (Nat.le.intro hlen) (Nat.le_sub_of_add_le ?_)
    rwa [Nat.add_assoc, hlen]

/-! ### Negotiation -/

/-- The watermarks are only ever raised. -/
theorem RxInv.raise (h : RxInv s) (hq : s'.rxQueue = s.rxQueue) (hlog : s'.log = s.log)
    (hrx : s'.creditRx = s.creditRx) (hmax : s.creditRxMax ≤ s'.creditRxMax)
    (hcrit : s.rxBufCritical ≤ s'.rxBufCritical) (hw : s'.Watermarks) : RxInv s' := by
  have hout : s'.outstanding = s.outstanding := by rw [outstanding, outstanding, hlog, hq]
  refine ⟨?_, ?_, hw, ?_, ?_⟩
  · rw [hout, hrx]
    exact h.counted
  · rw [hout, allowance, hlog]
    exact h.allowed.trans (max_le_max_right _ hmax)
  · rw [hlog]
    exact h.initial.trans hcrit
  · rw [hlog]
    exact h.stored

theorem le_portSelectMtu (s : Dlc) (packetSize wm bufs : Nat) :
    min (wm / s.mtu) bufs ≤ min (wm / (s.portSelectMtu packetSize).mtu) bufs := by
  by_cases hmtu : s.mtu = 0
  · simp [hmtu]
  · simp [portSelectMtu, hmtu]

theorem RxInv.portSelectMtu (h : RxInv s) (packetSize : Nat) :
    RxInv (s.portSelectMtu packetSize) := by
  refine h.raise rfl rfl rfl ?_ ?_ ⟨?_, le_refl _, le_refl _⟩
  · exact h.watermarks.creditRxMax.trans (le_portSelectMtu s packetSize _ _)
  · exact h.watermarks.rxBufCritical.trans (le_portSelectMtu s packetSize _ _)
  · exact min_le_min (Nat.div_le_div_right (by decide)) (by decide)

theorem div_le_div_min (x m n : Nat) (hn : 0 < n) : x / m ≤ x / min m n := by
  rcases Nat.eq_zero_or_pos m with rfl | hm
  · simp
  · exact Nat.div_le_div_left (min_le_left m n) (lt_min hm hn)

theorem RxInv.takeMtu (h : RxInv s) {mtu : Nat} (hmtu : 0 < mtu) : RxInv (s.takeMtu mtu) := by
  refine h.raise rfl rfl rfl (le_refl _) (le_refl _) ⟨h.watermarks.le_critical, ?_, ?_⟩
  · exact h.watermarks.creditRxMax.trans (min_le_min_right _ (div_le_div_min _ _ _ hmtu))
  · exact h.watermarks.rxBufCritical.trans (min_le_min_right _ (div_le_div_min _ _ _ hmtu))

theorem pos_of_validPnMtu {mtu : Nat} (h : validPnMtu mtu) : 0 < mtu := by
  simp only [validPnMtu, Bool.and_eq_true, decide_eq_true_eq] at h
  exact lt_of_lt_of_le (by decide) h.1

theorem RxInv.settleFlow (h : RxInv s) (flow : Flow) : RxInv (s.settleFlow flow) := by
  rw [settleFlow_eq]
  exact h.same ⟨rfl, rfl, rfl, rfl, rfl, rfl⟩

theorem RxInv.portGetCredits (h : RxInv s) (k : Nat) : RxInv (s.portGetCredits k) :=
  h.same ((sameRx_note fun _ => rfl).after ⟨rfl, rfl, rfl, rfl, rfl, rfl⟩)

/-- The initial credits are counted anew: nothing waits to be read, and they can be buffered. -/
def initialFits (s : Dlc) : Bool := s.rxQueue.isEmpty && s.initialK ≤ s.rxBufCritical

theorem RxInv.initialCredits (h : RxInv s) (hfit : s.initialFits) :
    RxInv ({ s with creditRx := s.initialK }.note (.initialCredits s.initialK)) := by
  simp only [initialFits, Bool.and_eq_true, List.isEmpty_iff, decide_eq_true_eq] at hfit
  obtain ⟨hempty, hk⟩ := hfit
  refine ⟨?_, ?_, ⟨h.watermarks.le_critical, h.watermarks.creditRxMax,
    h.watermarks.rxBufCritical⟩, ?_, ?_⟩
  · simp [outstanding, note, PeerLedger.enter, hempty]
  · simp [outstanding, allowance, note, PeerLedger.enter, hempty]
  · simpa [note, PeerLedger.enter] using hk
  · simpa [note, PeerLedger.enter] using h.stored

theorem RxInv.negotiationRequest (h : RxInv s)
    (hfit : s.muxState = .connected → s.flow ≠ .ts710 → s.initialFits) :
    RxInv s.negotiationRequest := by
  rw [Dlc.negotiationRequest]
  split
  · exact h
  rename_i hmux
  split
  next hflow =>
    exact (h.initialCredits (hfit (not_not.mp hmux) hflow)).same ⟨rfl, rfl, rfl, rfl, rfl, rfl⟩
  · exact h.same ⟨rfl, rfl, rfl, rfl, rfl, rfl⟩

/-- The credits of a PN command. Where the multiplexer is not connected, no response is sent and
the peer keeps what it holds. -/
theorem RxInv.exchangeCredits (h : RxInv s) (k : Nat) (hfit : s.initialFits)
    (hheld : s.muxState ≠ .connected → (peerLedger s.log).held ≤ s.initialK) :
    RxInv (s.exchangeCredits k) := by
  have h' := h.portGetCredits k
  have hempty : s.rxQueue = [] := by
    simp only [initialFits, Bool.and_eq_true, List.isEmpty_iff] at hfit
    exact hfit.1
  rw [Dlc.exchangeCredits]
  simp only
  split
  · exact h'.initialCredits hfit
  next hmux =>
    refine ⟨?_, ?_, ⟨h.watermarks.le_critical, h.watermarks.creditRxMax,
      h.watermarks.rxBufCritical⟩, h'.initial, h'.stored⟩
    · simpa [outstanding, Dlc.portGetCredits, note, PeerLedger.enter, hempty] using hheld hmux
    · exact h'.allowed

/-! ### Steps -/

/-- A peer that sends data only with a credit. -/
def conforming (s : Dlc) : Event → Bool
  | .uih buf _ => buf.isEmpty || 0 < (peerLedger s.log).held
  | _ => true

/-- The step counts all that is outstanding before it grants. -/
def grantsFit (s : Dlc) : Event → Bool
  | .openContinue packetSize =>
    s.muxState != .connected || s.flow == .ts710 || (s.portSelectMtu packetSize).initialFits
  | .startCnf => s.muxState != .connected || s.flow == .ts710 || s.initialFits
  | .pnCommand mtu cl _ packetSize =>
    !validPnMtu mtu || s.muxState == .discWaitUa || cl == convLayerType1 || !s.creditFlow true ||
      (s.portSelectMtu packetSize).initialFits && (s.muxState == .connected ||
        (peerLedger s.log).held ≤ (s.portSelectMtu packetSize).initialK)
  | .flowControlMaxCredit enable =>
    !enable || s.state == .closed || s.flow != .credit || s.outstanding == 0
  | _ => true

section

variable (h : RxInv s)
include h

theorem RxInv.pnCommand {mtu cl k packetSize : Nat}
    (hok : s.grantsFit (.pnCommand mtu cl k packetSize)) :
    RxInv (s.pnCommand mtu cl (k % 8) packetSize) := by
  rw [Dlc.pnCommand]
  split
  swap
  · exact h
  rename_i hpn
  rw [Bool.and_eq_true, bne_iff_ne] at hpn
  have h₁ := ((h.portSelectMtu packetSize).takeMtu (pos_of_validPnMtu hpn.1)).settleFlow
    (if cl = convLayerType1 then .ts710 else .credit)
  rw [portParNegInd]
  by_cases hcl : cl = convLayerType1
  · rw [if_neg fun hc => hc.1 hcl]
    exact h₁
  by_cases hflow : (((s.portSelectMtu packetSize).takeMtu mtu).settleFlow
      (if cl = convLayerType1 then .ts710 else .credit)).flow = .credit
  swap
  · rw [if_neg fun hc => hflow hc.2]
    exact h₁
  rw [if_pos ⟨hcl, hflow⟩]
  have hundef : s.flow = .credit ∨ s.flow = .undefined := by
    cases hf : s.flow with
    | undefined => exact Or.inr rfl
    | ts710 =>
      rw [settleFlow_of_ne (by simp [Dlc.portSelectMtu, Dlc.takeMtu, hf])] at hflow
      simp [Dlc.portSelectMtu, Dlc.takeMtu, hf] at hflow
    | credit => exact Or.inl rfl
  have hfits : (s.portSelectMtu packetSize).initialFits ∧ (s.muxState = .connected ∨
      (peerLedger s.log).held ≤ (s.portSelectMtu packetSize).initialK) := by
    rcases hundef with hf | hf <;>
      simpa [grantsFit, creditFlow, hpn, hcl, hf] using hok
  -- neither the MTU nor the mechanism of the multiplexer matters for the initial credits
  refine h₁.exchangeCredits _ ?_ fun hmux => ?_
  · rw [settleFlow_eq]
    exact hfits.1
  · rw [settleFlow_eq] at hmux ⊢
    exact hfits.2.resolve_left hmux

theorem RxInv.pnResponse {mtu cl k : Nat} (hs : s.pnResponse mtu cl k = some s') : RxInv s' := by
  obtain rfl | ⟨hmtu, -, hs⟩ := pnResponse_cases hs
  · exact h
  have h₀ : RxInv { s with expectsPn := false } := h.same ⟨rfl, rfl, rfl, rfl, rfl, rfl⟩
  have h₁ : RxInv ({ s with expectsPn := false }.takeResponse mtu cl k) := by
    rw [takeResponse]
    generalize (if cl = convLayerCbfcR then Flow.credit else .ts710) = flow
    have h' := (h₀.settleFlow flow).takeMtu (pos_of_validPnMtu hmtu)
    split
    · exact h'.portGetCredits k
    · exact h'
  obtain rfl | rfl := hs
  · exact h₁
  · rw [portSmOpen]
    split
    · exact h₁.same ⟨rfl, rfl, rfl, rfl, rfl, rfl⟩
    · exact h₁

theorem RxInv.portFlowControlMaxCredit {enable : Bool}
    (hok : s.grantsFit (.flowControlMaxCredit enable)) :
    RxInv (s.portFlowControlMaxCredit enable) := by
  have h' : RxInv { s with rxUserFc := !enable } := h.same ⟨rfl, rfl, rfl, rfl, rfl, rfl⟩
  rw [Dlc.portFlowControlMaxCredit]
  split
  · exact h
  rename_i hstate
  simp only
  split
  next hflow =>
    split
    next hen =>
      have hen' : enable = true := by simpa using hen
      have hzero : s.outstanding = 0 := by simpa [grantsFit, hstate, hflow, hen'] using hok
      exact h.enablePeer (le_refl _) (hzero.trans_le (Nat.zero_le _))
    · exact h'
  · split
    · exact rxInv_sendStable.rfcommControlReq (h.same ⟨rfl, rfl, rfl, rfl, rfl, rfl⟩)
    · exact h.same ⟨rfl, rfl, rfl, rfl, rfl, rfl⟩

/-- The MTU of L2CAP is not what the watermarks go by. -/
theorem RxInv.opens : RxInv { s.takeL2capMtu with sm := .opened, state := .opened } := by
  rw [takeL2capMtu_eq]
  exact h.same ⟨rfl, rfl, rfl, rfl, rfl, rfl⟩

theorem RxInv.portSmUa (hs : s.portSmUa = some s') : RxInv s' := by
  obtain rfl | ⟨-, rfl | rfl⟩ := portSmUa_cases hs
  · exact h
  · exact h.opens
  · exact rxInv_sendStable.rfcommControlReq h.opens

theorem RxInv.openContinue {packetSize : Nat} (hok : s.grantsFit (.openContinue packetSize)) :
    RxInv (s.portOpenContinue packetSize) := by
  refine (h.portSelectMtu packetSize).negotiationRequest fun hmux hflow => ?_
  have hmux' : s.muxState = .connected := hmux
  have hflow' : s.flow ≠ .ts710 := hflow
  simpa [grantsFit, hmux', hflow'] using hok

theorem RxInv.startCnf (hok : s.grantsFit .startCnf) : RxInv s.negotiationRequest := by
  refine h.negotiationRequest fun hmux hflow => ?_
  simpa [grantsFit, hmux, hflow] using hok

theorem RxInv.uih {buf : List UInt8} {credit : Nat} (hpeer : s.conforming (.uih buf credit)) :
    RxInv (s.uih buf credit) := by
  have h' : RxInv (if buf ≠ [] then s.portSmUih buf else s) := by
    split
    next hbuf => exact h.portSmUih (by simpa [conforming, hbuf] using hpeer) buf
    · exact h
  rw [Dlc.uih]
  generalize (if buf ≠ [] then s.portSmUih buf else s) = s₁ at h'
  split
  · exact h'.rfcIncCredit credit
  · exact h'

theorem RxInv.mscCommand (fc : Bool) : RxInv (s.mscCommand fc) := by
  refine rxInv_sendStable.portControlInd ?_
  split
  · exact h.portFlowInd _
  · exact h

theorem RxInv.step {e : Event} (hpeer : s.conforming e) (hok : s.grantsFit e)
    (hs : s.step e = some s') : RxInv s' := by
  cases e with
  | write data => exact of_some hs (rxInv_sendStable.portWriteData h data)
  | readData maxLen => exact of_some hs (h.portReadData maxLen)
  | flowControlMaxCredit enable => exact of_some hs (h.portFlowControlMaxCredit hok)
  | controlReq fc =>
    exact of_some hs (rxInv_sendStable.rfcommControlReq (h.same ⟨rfl, rfl, rfl, rfl, rfl, rfl⟩))
  | removeConnection =>
    obtain rfl | rfl := removeConnection_cases hs
    · exact h.same ⟨rfl, rfl, rfl, rfl, rfl, rfl⟩
    · exact h.same ⟨rfl, rfl, rfl, rfl, rfl, rfl⟩
  | openContinue packetSize => exact of_some hs (h.openContinue hok)
  | startCnf => exact of_some hs (h.startCnf hok)
  | pnCommand mtu cl k packetSize => exact of_some hs (h.pnCommand hok)
  | pnResponse mtu cl k => exact h.pnResponse hs
  | portNegCnf =>
    refine of_some hs ?_
    rw [portPortNegCnf]
    split
    · exact rxInv_sendStable.rfcommControlReq h
    · exact h
  | sabme =>
    refine of_some hs ?_
    obtain heq | heq := portSmSabme_cases s <;> rw [heq]
    · exact h
    · exact h.same ⟨rfl, rfl, rfl, rfl, rfl, rfl⟩
  | secComplete =>
    obtain rfl | ⟨-, rfl⟩ | ⟨-, rfl⟩ := secComplete_cases hs
    · exact h
    · exact h.same ⟨rfl, rfl, rfl, rfl, rfl, rfl⟩
    · exact h.opens
  | ua => exact h.portSmUa hs
  | disc =>
    obtain rfl | rfl := portSmDisc_cases hs
    · exact h
    · exact h.same ⟨rfl, rfl, rfl, rfl, rfl, rfl⟩
  | uih buf credit => exact of_some hs (h.uih hpeer)
  | mscCommand fc => exact of_some hs (h.mscCommand fc)
  | mscResponse => exact of_some hs (rxInv_sendStable.mscResponse h)
  | lineStatusInd => exact of_some hs (h.same ⟨rfl, rfl, rfl, rfl, rfl, rfl⟩)
  | fcon => exact of_some hs (rxInv_sendStable.gateStable.rfcProcessFcon h)
  | fcoff => exact of_some hs (rxInv_sendStable.gateStable.rfcProcessFcoff h)
  | congestion isCongested =>
    exact of_some hs (rxInv_sendStable.gateStable.rfcProcessL2capCongestion h isCongested)
  | muxState state peerReady peerL2capMtu =>
    exact of_some hs (h.same ⟨rfl, rfl, rfl, rfl, rfl, rfl⟩)
  | muxFlow flow => exact of_some hs (h.settleFlow flow)

end

theorem Fresh.rxInv (h : Fresh s) : RxInv s := by
  have hzero : s.outstanding = 0 := by simp [outstanding, h.log, h.rxQueue, peerLedger]
  refine ⟨?_, ?_, h.watermarks, ?_, ?_⟩
  · rw [hzero]
    exact Nat.zero_le _
  · rw [hzero]
    exact Nat.zero_le _
  · simp [h.log, peerLedger]
  · simp [h.log, peerLedger]

theorem granted_fits_queue (s₀ s : Dlc) (es : List Event) (hfresh : Fresh s₀)
    (hrun : run s₀ es = some s)
    (hall : Lib.allSteps step (fun s e => s.conforming e && s.grantsFit e) s₀ es) :
    s.outstanding ≤ s.allowance ∧ (peerLedger s.log).overrun = false := by
  have h : RxInv s := Lib.run_invariant
    (fun _ _ _ h hok hs => h.step (Bool.and_eq_true_iff.mp hok).1 (Bool.and_eq_true_iff.mp hok).2
      hs) hfresh.rxInv hall hrun
  exact ⟨h.allowed, h.stored⟩

/-- A peer opens a port of 1000 bytes and gets seven credits. -/
def sevenCredits : List Event := [.pnCommand 1000 convLayerCbfcI 7 0, .sabme, .secComplete]

/-- Four frames arrive; the application reads them, and the credits are granted again. -/
theorem granted_fits_queue_four :
    ∃ s, run (init true 1000) (sevenCredits ++ List.replicate 4 (.uih [1] 0) ++
        [.readData 2, .readData 2]) = some s ∧
      (peerLedger s.log).held = 10 ∧ s.outstanding ≤ s.allowance ∧
      (peerLedger s.log).overrun = false := by
  obtain ⟨s, hrun, hs⟩ := (Option.any_eq_true _ _).mp (show (run (init true 1000) (sevenCredits ++
    List.replicate 4 (.uih [1] 0) ++ [.readData 2, .readData 2])).any (fun s =>
      decide ((peerLedger s.log).held = 10)) from by decide +kernel)
  exact ⟨s, hrun, of_decide_eq_true hs,
    granted_fits_queue _ s _ (fresh_init true 1000) hrun (by decide +kernel)⟩

/-- `PORT_FlowControl_MaxCredit` grants ten credits to a peer that holds seven. It uses sixteen of
them, and the last frame is dropped. -/
theorem max_credit_overruns :
    ∃ s, run (init true 1000) (sevenCredits ++ .flowControlMaxCredit true ::
        List.replicate 16 (.uih [1] 0)) = some s ∧
      Lib.allSteps step conforming (init true 1000) (sevenCredits ++ .flowControlMaxCredit true ::
        List.replicate 16 (.uih [1] 0)) ∧
      s.flow = .credit ∧ s.allowance = 10 ∧ s.outstanding = 16 ∧
      (peerLedger s.log).overrun = true := by
  obtain ⟨s, hrun, hs⟩ := (Option.any_eq_true _ _).mp (show (run (init true 1000) (sevenCredits ++
    .flowControlMaxCredit true :: List.replicate 16 (.uih [1] 0))).any (fun s =>
      decide (s.flow = .credit ∧ s.allowance = 10 ∧ s.outstanding = 16 ∧
        (peerLedger s.log).overrun = true)) from by decide +kernel)
  exact ⟨s, hrun, by decide +kernel, of_decide_eq_true hs⟩

end Dlc

end BluetoothStack.Rfcomm
