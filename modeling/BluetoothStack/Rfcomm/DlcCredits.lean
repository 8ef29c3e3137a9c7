import BluetoothStack.Rfcomm.DlcTx

/-!
# BluetoothStack.Rfcomm.DlcCredits

The credits of both directions, against ledgers that are read off the log.

For the transmitter, `credit_tx` is what the peer granted since the last negotiation less the
data frames sent since, and the port stops exactly when it is 0. A negotiation that grants
credits to a port that had stopped leaves it stopped, the counter can wrap, and a port that
opens without a negotiation sends without credits; `creditsKept` rules these out.
-/

namespace BluetoothStack.Rfcomm

/-! ### The ledger of the transmitter -/

/-- Credits granted and data frames sent since the last negotiation. -/
structure Ledger where
  negotiated : Bool
  granted : Nat
  spent : Nat
  /-- A frame was sent when no credit was left. -/
  overdrawn : Bool
deriving DecidableEq, Repr

def Ledger.enter (l : Ledger) : Entry → Ledger
  | .negotiated k => ⟨true, k, 0, false⟩
  | .granted n => { l with granted := l.granted + n }
  | .data _ _ _ => { l with spent := l.spent + 1, overdrawn := l.overdrawn || l.granted ≤ l.spent }
  | _ => l

def ledger (log : List Entry) : Ledger := log.foldl Ledger.enter ⟨false, 0, 0, false⟩

@[simp] theorem ledger_concat (log : List Entry) (e : Entry) :
    ledger (log ++ [e]) = (ledger log).enter e := by
  simp [ledger]

namespace Dlc

variable {s s' : Dlc}

/-- The transmit credits are tracked exactly. -/
structure CreditsExact (s : Dlc) : Prop where
  balance : s.creditTx + (ledger s.log).spent = (ledger s.log).granted
  stopped : s.txPeerFc ↔ s.creditTx = 0
  covered : (ledger s.log).overdrawn = false

/-- The states in which the port has negotiated before it goes on. -/
def establishing (s : Dlc) : Bool :=
  s.sm == .opened || s.sm == .origWaitSecCheck || s.sm == .sabmeWaitUa

structure CreditInv (s : Dlc) : Prop where
  exact : (ledger s.log).negotiated → s.flow = .credit ∧ s.CreditsExact
  negotiated : s.flow = .credit → s.establishing → (ledger s.log).negotiated
  settled : s.sm = .origWaitSecCheck ∨ s.sm = .sabmeWaitUa → s.flow ≠ .undefined

/-- Nothing happened to the credits, nor to the state machine. -/
structure SameCredits (s s' : Dlc) : Prop where
  flow : s'.flow = s.flow
  sm : s'.sm = s.sm
  creditTx : s'.creditTx = s.creditTx
  txPeerFc : s'.txPeerFc = s.txPeerFc
  ledger : ledger s'.log = ledger s.log

theorem SameCredits.refl (s : Dlc) : SameCredits s s := ⟨rfl, rfl, rfl, rfl, rfl⟩

theorem SameCredits.trans {s₁ s₂ s₃ : Dlc} (h : SameCredits s₁ s₂) (h' : SameCredits s₂ s₃) :
    SameCredits s₁ s₃ :=
  ⟨h'.flow.trans h.flow, h'.sm.trans h.sm, h'.creditTx.trans h.creditTx,
    h'.txPeerFc.trans h.txPeerFc, h'.ledger.trans h.ledger⟩

theorem CreditsExact.same (h : CreditsExact s) (same : SameCredits s s') : CreditsExact s' := by
  obtain ⟨hb, hs, hc⟩ := h
  refine ⟨?_, ?_, ?_⟩
  · rwa [same.ledger, same.creditTx]
  · rwa [same.txPeerFc, same.creditTx]
  · rwa [same.ledger]

theorem CreditInv.same (h : CreditInv s) (same : SameCredits s s') : CreditInv s' := by
  refine ⟨?_, ?_, ?_⟩
  · rw [same.ledger, same.flow]
    intro hn
    exact ⟨(h.exact hn).1, (h.exact hn).2.same same⟩
  · rw [same.flow, same.ledger, establishing, same.sm]
    exact h.negotiated
  · rw [same.sm, same.flow]
    exact h.settled

/-- The state machine moves to a state that asks for nothing. -/
theorem CreditInv.leave (h : CreditInv s) {sm : RfcState} {state : PortState} {l p m : Bool}
    (hsm : sm ≠ .opened ∧ sm ≠ .origWaitSecCheck ∧ sm ≠ .sabmeWaitUa) :
    CreditInv { s with sm := sm, state := state, lineStatus := l, expectsPn := p,
                       expectsMsc := m } := by
  refine ⟨fun hn => ⟨(h.exact hn).1, (h.exact hn).2.balance, (h.exact hn).2.stopped,
    (h.exact hn).2.covered⟩, ?_, ?_⟩
  · intro _ he
    simp [establishing, hsm] at he
  · rintro (h | h)
    · exact absurd h hsm.2.1
    · exact absurd h hsm.2.2

/-! ### Sending -/

theorem rfcommDataReq_closed {buf : List UInt8} (hsm : s.sm ≠ .opened) :
    s.rfcommDataReq buf = s := by
  rw [rfcommDataReq]
  split
  · contradiction
  · rfl

/-- The frame is in the log, and the credit for it is gone. -/
theorem rfcommDataReq_opened (buf : List UInt8) (hsm : s.sm = .opened) :
    (s.rfcommDataReq buf).flow = s.flow ∧ (s.rfcommDataReq buf).sm = s.sm ∧
      ledger (s.rfcommDataReq buf).log = (ledger s.log).enter (.data buf 0 0) ∧
      (s.flow = .credit → (s.rfcommDataReq buf).creditTx = s.creditTx - 1 ∧
        (s.rfcommDataReq buf).txPeerFc = (s.txPeerFc || s.creditTx - 1 == 0)) := by
  rw [rfcommDataReq]
  split
  · split <;>
    · rw [rfcDecCredit]
      split
      · simp [note, Ledger.enter]
      next hflow => exact ⟨rfl, rfl, by simp [note, Ledger.enter], fun hf => absurd hf hflow⟩
  · contradiction

/-- A frame is sent only while credits are left. -/
theorem CreditInv.dataReq (h : CreditInv s) (hfc : s.txPeerFc = false) (buf : List UInt8) :
    CreditInv (s.rfcommDataReq buf) := by
  by_cases hsm : s.sm = .opened
  swap
  · rw [rfcommDataReq_closed hsm]
    exact h
  obtain ⟨hflow, hsm', hledger, hcredit⟩ := rfcommDataReq_opened buf hsm
  refine ⟨?_, ?_, ?_⟩
  · intro hn
    rw [hledger] at hn
    obtain ⟨hf, hex⟩ := h.exact hn
    obtain ⟨htx, hstop⟩ := hcredit hf
    have hpos : s.creditTx ≠ 0 := by
      intro h0
      rw [hex.stopped.mpr h0] at hfc
      cases hfc
    have hbal := hex.balance
    refine ⟨hflow.trans hf, ?_, ?_, ?_⟩
    · rw [hledger, htx]
      simp only [Ledger.enter]
      omega
    · rw [hstop, htx, hfc]
      simp
    · rw [hledger]
      simp only [Ledger.enter, hex.covered, Bool.false_or, decide_eq_false_iff_not]
      omega
  · rw [hflow, hledger, establishing, hsm']
    exact h.negotiated
  · rw [hsm', hflow]
    exact h.settled

theorem sameCredits_note {e : Entry} (he : ∀ l : Ledger, l.enter e = l) :
    SameCredits s (s.note e) :=
  ⟨rfl, rfl, rfl, rfl, by simp [note, he]⟩

theorem sameCredits_recvStable (s : Dlc) : RecvStable (SameCredits s) where
  fields h := { h with }
  note := @fun _ e he h =>
    h.trans (sameCredits_note fun l => by cases e <;> first | rfl | cases he)

theorem creditInv_recvStable : RecvStable CreditInv where
  fields h := h.same ⟨rfl, rfl, rfl, rfl, rfl⟩
  note he h := h.same ((sameCredits_recvStable _).note he (.refl _))

theorem creditInv_sendStable : SendStable CreditInv where
  queue _ _ h := h.same ⟨rfl, rfl, rfl, rfl, rfl⟩
  accepted h := h.same (sameCredits_note fun _ => rfl)
  data buf h hfc := h.dataReq hfc buf
  gate h := h.same ⟨rfl, rfl, rfl, rfl, rfl⟩

/-! ### Credits and flow control of the peer -/

/-- The flow control of TS 07.10 does not touch the credits. -/
theorem CreditInv.portFlowInd (h : CreditInv s) (hflow : s.flow ≠ .credit) (enable : Bool) :
    CreditInv (s.portFlowInd enable) := by
  refine creditInv_sendStable.send { h with exact := ?_ }
  intro hn
  exact absurd (h.exact hn).1 hflow

theorem CreditInv.rfcIncCredit (h : CreditInv s) {credit : Nat} (hpos : credit ≠ 0)
    (hroom : s.flow = .credit → s.creditTx + credit < 65536) :
      CreditInv (s.rfcIncCredit credit) := by
  rw [Dlc.rfcIncCredit]
  split
  swap
  · exact h
  rename_i hflow
  simp only
  -- if the port had stopped it goes on; otherwise it had credits and has more now
  have h' : CreditInv { { s with creditTx := (s.creditTx + credit) % 65536 }.note
      (.granted credit) with txPeerFc := false } := by
    refine ⟨?_, ?_, h.settled⟩
    · intro hn
      simp only [note, ledger_concat, Ledger.enter] at hn
      have hex := (h.exact hn).2
      have hbal := hex.balance
      refine ⟨hflow, ?_, ?_, ?_⟩
      · simp only [note, ledger_concat, Ledger.enter, Nat.mod_eq_of_lt (hroom hflow)]
        omega
      · simp only [note, Nat.mod_eq_of_lt (hroom hflow), Bool.false_eq_true, false_iff]
        omega
      · simpa [note, Ledger.enter] using hex.covered
    · intro hf he
      simpa [note, Ledger.enter] using h.negotiated hf he
  split
  · exact creditInv_sendStable.send h'
  next hfc =>
    refine h'.same ⟨rfl, rfl, rfl, ?_, rfl⟩
    simpa [note] using hfc

/-! ### Negotiation and the other steps -/

/-- The credits of a negotiation are exact, if a port that gets some had not stopped. -/
theorem CreditInv.portGetCredits {k : Nat} (hflow : s.flow = .credit)
    (hgo : k ≠ 0 → s.txPeerFc = false) : CreditInv (s.portGetCredits k) := by
  refine ⟨?_, ?_, ?_⟩
  · intro _
    refine ⟨hflow, ?_, ?_, ?_⟩
    · simp [Dlc.portGetCredits, note, Ledger.enter]
    · by_cases hk : k = 0
      · simp [Dlc.portGetCredits, note, hk]
      · simp [Dlc.portGetCredits, note, hk, hgo hk]
    · simp [Dlc.portGetCredits, note, Ledger.enter]
  · intro _ _
    simp [Dlc.portGetCredits, note, Ledger.enter]
  · intro _ hu
    simp [Dlc.portGetCredits, note, hflow] at hu

/-- Another flow control mechanism than credits. -/
theorem CreditInv.settleFlow (h : CreditInv s) {flow : Flow}
    (hok : s.flow = .undefined → flow = .credit → s.establishing = false) :
    CreditInv (s.settleFlow flow) := by
  rw [Dlc.settleFlow]
  split
  swap
  · exact h
  rename_i hundef
  refine ⟨?_, ?_, ?_⟩
  · intro hn
    have hf := (h.exact hn).1
    rw [hundef] at hf
    cases hf
  · intro hf he
    have he' : s.establishing = true := he
    rw [hok hundef hf] at he'
    cases he'
  · intro hsm
    exact absurd hundef (h.settled hsm)

/-- The multiplexer uses credits once the PN message is processed. -/
def creditFlow (s : Dlc) (credits : Bool) : Bool :=
  s.flow == .credit || s.flow == .undefined && credits

/-- The step keeps the credits exact. -/
def creditsKept (s : Dlc) : Event → Bool
  | .pnCommand mtu cl k _ =>
    !validPnMtu mtu || s.muxState == .discWaitUa || cl == convLayerType1 || !s.creditFlow true ||
      k % 8 == 0 || !s.txPeerFc
  | .pnResponse mtu cl k =>
    !validPnMtu mtu || !s.expectsPn || !s.creditFlow (cl == convLayerCbfcR) || k % 8 == 0 ||
      !s.txPeerFc
  | .uih _ credit => s.flow != .credit || s.creditTx + credit < 65536
  | .secComplete =>
    s.sm != .termWaitSecCheck || s.flow != .credit || (ledger s.log).negotiated
  | .muxFlow flow => !(s.flow == .undefined && flow == .credit && s.sm == .opened)
  | _ => true

theorem settleFlow_of_ne {flow : Flow} (h : s.flow ≠ .undefined) : s.settleFlow flow = s := by
  rw [settleFlow, if_neg h]

theorem CreditInv.pnCommand (h : CreditInv s) {mtu cl k packetSize : Nat}
    (hok : s.creditsKept (.pnCommand mtu cl k packetSize)) :
    CreditInv (s.pnCommand mtu cl (k % 8) packetSize) := by
  rw [Dlc.pnCommand]
  split
  swap
  · exact h
  rename_i hpn
  simp only [Bool.and_eq_true, bne_iff_ne] at hpn
  have h₁ : CreditInv ((s.portSelectMtu packetSize).takeMtu mtu) :=
    h.same ⟨rfl, rfl, rfl, rfl, rfl⟩
  rw [portParNegInd]
  by_cases hcl : cl = convLayerType1
  · simp only [hcl, if_true, ne_eq, not_true_eq_false, false_and, if_false]
    exact h₁.settleFlow fun _ hf => by cases hf
  simp only [hcl, if_false, ne_eq, not_false_eq_true, true_and]
  -- a port that gets credits now must not have been stopped before
  have hgo : s.flow ≠ .ts710 → k % 8 ≠ 0 → s.txPeerFc = false := by
    intro hflow hk
    cases hf : s.flow <;> simp_all [creditsKept, creditFlow]
  split
  next hflow =>
    refine creditInv_recvStable.exchangeCredits (CreditInv.portGetCredits hflow fun hk => ?_)
    cases hf : s.flow with
    | undefined | credit =>
      rw [Dlc.settleFlow]
      split <;> exact hgo (by simp [hf]) hk
    | ts710 =>
      rw [settleFlow_of_ne (by simp [portSelectMtu, takeMtu, hf])] at hflow
      simp [portSelectMtu, takeMtu, hf] at hflow
  next hflow =>
    refine h₁.settleFlow fun hundef _ => ?_
    rw [Dlc.settleFlow, if_pos hundef] at hflow
    exact absurd rfl hflow

/-- The port goes on to open itself once the flow control mechanism is settled. -/
theorem CreditInv.portSmOpen (h : CreditInv s) (hflow : s.flow ≠ .undefined)
    (hn : s.flow = .credit → (ledger s.log).negotiated) : CreditInv s.portSmOpen := by
  rw [Dlc.portSmOpen]
  split
  · exact ⟨fun hn => ⟨(h.exact hn).1, (h.exact hn).2.balance, (h.exact hn).2.stopped,
      (h.exact hn).2.covered⟩, fun hf _ => hn hf, fun _ => hflow⟩
  · exact h

/-- What is true of the port when a PN response was taken. -/
structure Responded (s : Dlc) : Prop where
  inv : CreditInv s
  settled : s.flow ≠ .undefined
  negotiated : s.flow = .credit → (ledger s.log).negotiated

theorem Responded.take {k : Nat} (hinv : s.flow ≠ .credit → CreditInv s) (hne : s.flow ≠ .undefined)
    (hgo : s.flow = .credit → k ≠ 0 → s.txPeerFc = false) :
    Responded (if s.flow = .credit then s.portGetCredits k else s) := by
  split
  next hflow =>
    refine ⟨CreditInv.portGetCredits hflow (hgo hflow), hne, fun _ => ?_⟩
    simp [Dlc.portGetCredits, note, Ledger.enter]
  next hflow => exact ⟨hinv hflow, hne, fun hf => absurd hf hflow⟩

section

variable (h : CreditInv s)
include h

theorem CreditInv.takeResponse (mtu : Nat) {cl k : Nat}
    (hgo : s.creditFlow (cl == convLayerCbfcR) → k ≠ 0 → s.txPeerFc = false) :
    Responded (s.takeResponse mtu cl k) := by
  rw [Dlc.takeResponse]
  cases hf : s.flow with
  | undefined =>
    refine Responded.take (fun hflow => ?_) ?_ (fun hflow hk => ?_)
    · refine (h.settleFlow fun _ hcredit => ?_).same ⟨rfl, rfl, rfl, rfl, rfl⟩
      rw [Dlc.settleFlow, if_pos hf] at hflow
      exact absurd hcredit hflow
    · rw [Dlc.settleFlow, if_pos hf]
      by_cases hcl : cl = convLayerCbfcR <;> simp [takeMtu, hcl]
    · rw [Dlc.settleFlow, if_pos hf] at hflow ⊢
      have hcl : cl = convLayerCbfcR := by
        by_contra hcl
        simp [takeMtu, hcl] at hflow
      exact hgo (by simp [creditFlow, hf, hcl]) hk
  | ts710 =>
    rw [settleFlow_of_ne (by simp [hf])]
    refine Responded.take (fun _ => h.same ⟨rfl, rfl, rfl, rfl, rfl⟩) ?_ (fun hflow => ?_)
    · simp [takeMtu, hf]
    · simp [takeMtu, hf] at hflow
  | credit =>
    rw [settleFlow_of_ne (by simp [hf])]
    refine Responded.take (fun hflow => absurd hf hflow) ?_ (fun _ hk => ?_)
    · simp [takeMtu, hf]
    · exact hgo (by simp [creditFlow, hf]) hk

theorem CreditInv.pnResponse {mtu cl k : Nat} (hok : s.creditsKept (.pnResponse mtu cl k))
    (hs : s.pnResponse mtu cl (k % 8) = some s') : CreditInv s' := by
  obtain rfl | ⟨hmtu, hpn, hs⟩ := pnResponse_cases hs
  · exact h
  have h₁ : CreditInv { s with expectsPn := false } := h.same ⟨rfl, rfl, rfl, rfl, rfl⟩
  have hgo : s.creditFlow (cl == convLayerCbfcR) → k % 8 ≠ 0 → s.txPeerFc = false := by
    intro hcf hk
    simpa [creditsKept, hmtu, hpn, hcf, hk] using hok
  obtain ⟨h₂, hundef, hn⟩ := h₁.takeResponse mtu hgo
  obtain rfl | rfl := hs
  · exact h₂
  · exact h₂.portSmOpen hundef hn

/-- The port opens after it has negotiated. -/
theorem CreditInv.opens (hn : s.flow = .credit → (ledger s.log).negotiated) :
    CreditInv { s.takeL2capMtu with sm := .opened, state := .opened } := by
  have h' : CreditInv { s with sm := .opened, state := .opened } := by
    refine ⟨fun hn => ⟨(h.exact hn).1, (h.exact hn).2.balance, (h.exact hn).2.stopped,
      (h.exact hn).2.covered⟩, fun hf _ => hn hf, ?_⟩
    rintro (h | h) <;> cases h
  rw [takeL2capMtu_eq]
  exact h'.same ⟨rfl, rfl, rfl, rfl, rfl⟩

theorem CreditInv.secComplete (hok : s.creditsKept .secComplete) (hs : s.secComplete = some s') :
    CreditInv s' := by
  obtain rfl | ⟨hsm, rfl⟩ | ⟨hsm, rfl⟩ := secComplete_cases hs
  · exact h
  · refine ⟨fun hn => ⟨(h.exact hn).1, (h.exact hn).2.balance, (h.exact hn).2.stopped,
      (h.exact hn).2.covered⟩, fun hf _ => ?_, fun _ => h.settled (Or.inl hsm)⟩
    exact h.negotiated hf (by simp [establishing, hsm])
  · refine h.opens fun hf => ?_
    simpa [creditsKept, hsm, hf] using hok

theorem CreditInv.portSmUa (hs : s.portSmUa = some s') : CreditInv s' := by
  obtain rfl | ⟨hsm, hs⟩ := portSmUa_cases hs
  · exact h
  have h₁ := h.opens fun hf => h.negotiated hf (by simp [establishing, hsm])
  obtain rfl | rfl := hs
  · exact h₁
  · exact creditInv_sendStable.rfcommControlReq h₁

theorem CreditInv.uih {buf : List UInt8} {credit : Nat} (hok : s.creditsKept (.uih buf credit)) :
    CreditInv (s.uih buf credit) := by
  have same : SameCredits s (if buf ≠ [] then s.portSmUih buf else s) := by
    split
    · exact (sameCredits_recvStable s).portSmUih (.refl s) buf
    · exact .refl s
  rw [Dlc.uih]
  generalize (if buf ≠ [] then s.portSmUih buf else s) = s₁ at same
  split
  next hcredit =>
    refine (h.same same).rfcIncCredit hcredit fun hf => ?_
    rw [same.flow] at hf
    rw [same.creditTx]
    simpa [creditsKept, hf] using hok
  · exact h.same same

theorem CreditInv.mscCommand (fc : Bool) : CreditInv (s.mscCommand fc) := by
  refine creditInv_sendStable.portControlInd ?_
  split
  next hfc => exact h.portFlowInd hfc.1 _
  · exact h

/-- Credits may become the mechanism of the multiplexer before the port has negotiated, but not
while it is open. -/
theorem CreditInv.muxFlow {flow : Flow} (hok : s.creditsKept (.muxFlow flow)) :
    CreditInv (s.settleFlow flow) := by
  refine h.settleFlow fun hundef hf => ?_
  have hopen : s.sm ≠ .opened := by simpa [creditsKept, hundef, hf] using hok
  have hsettled := h.settled
  simp only [hundef, ne_eq, not_true_eq_false, imp_false, not_or] at hsettled
  simp [establishing, hopen, hsettled]

theorem CreditInv.step {e : Event} (hok : s.creditsKept e) (hs : s.step e = some s') :
    CreditInv s' := by
  cases e with
  | write data => exact of_some hs (creditInv_sendStable.portWriteData h data)
  | readData maxLen => exact of_some hs (creditInv_recvStable.portReadData h maxLen)
  | flowControlMaxCredit enable =>
    exact of_some hs (creditInv_recvStable.portFlowControlMaxCredit h enable)
  | controlReq fc =>
    exact of_some hs (creditInv_sendStable.rfcommControlReq (h.same ⟨rfl, rfl, rfl, rfl, rfl⟩))
  | removeConnection =>
    obtain rfl | rfl := removeConnection_cases hs
    · exact h.same ⟨rfl, rfl, rfl, rfl, rfl⟩
    · exact h.leave (by simp)
  | openContinue packetSize =>
    exact of_some hs (creditInv_recvStable.negotiationRequest (h.same ⟨rfl, rfl, rfl, rfl, rfl⟩))
  | startCnf => exact of_some hs (creditInv_recvStable.negotiationRequest h)
  | pnCommand mtu cl k packetSize => exact of_some hs (h.pnCommand hok)
  | pnResponse mtu cl k => exact h.pnResponse hok hs
  | portNegCnf => exact of_some hs (creditInv_recvStable.portPortNegCnf h)
  | sabme =>
    refine of_some hs ?_
    obtain heq | heq := portSmSabme_cases s <;> rw [heq]
    · exact h
    · exact h.leave (by simp)
  | secComplete => exact h.secComplete hok hs
  | ua => exact h.portSmUa hs
  | disc =>
    obtain rfl | rfl := portSmDisc_cases hs
    · exact h
    · exact h.leave (by simp)
  | uih buf credit => exact of_some hs (h.uih hok)
  | mscCommand fc => exact of_some hs (h.mscCommand fc)
  | mscResponse => exact of_some hs (creditInv_sendStable.mscResponse h)
  | lineStatusInd | muxState state peerReady peerL2capMtu =>
    exact of_some hs (h.same ⟨rfl, rfl, rfl, rfl, rfl⟩)
  | fcon => exact of_some hs (creditInv_sendStable.gateStable.rfcProcessFcon h)
  | fcoff => exact of_some hs (creditInv_sendStable.gateStable.rfcProcessFcoff h)
  | congestion isCongested =>
    exact of_some hs (creditInv_sendStable.gateStable.rfcProcessL2capCongestion h isCongested)
  | muxFlow flow => exact of_some hs (h.muxFlow hok)

end

theorem Fresh.creditInv (h : Fresh s) : CreditInv s where
  exact hn := by simp [h.log, ledger] at hn
  negotiated _ he := by simp [establishing, h.sm] at he
  settled hsm := by simp [h.sm] at hsm

theorem transmit_credits_exact (s₀ s : Dlc) (es : List Event) (hfresh : Fresh s₀)
    (hrun : run s₀ es = some s) (hall : Lib.allSteps step creditsKept s₀ es)
    (hflow : s.flow = .credit) (hopen : s.sm = .opened) : s.CreditsExact := by
  have h : CreditInv s :=
    Lib.run_invariant (fun _ _ _ h hok hs => h.step hok hs) hfresh.creditInv hall hrun
  exact (h.exact (h.negotiated hflow (by simp [establishing, hopen]))).2

/-- A peer opens a port and grants it one credit. -/
def openedServer : List Event :=
  [.pnCommand 30 convLayerCbfcI 1 0, .sabme, .secComplete, .mscCommand false]

/-- The credit is used, and two more are granted. -/
theorem transmit_credits_exact_three :
    ∃ s, run (init true 30) (openedServer ++ [.write [1, 2, 3], .uih [] 2]) = some s ∧
      s.creditTx = 2 ∧ s.CreditsExact := by
  obtain ⟨s, hrun, hs⟩ := (Option.any_eq_true _ _).mp (show (run (init true 30) (openedServer ++
    [.write [1, 2, 3], .uih [] 2])).any (fun s =>
      decide (s.creditTx = 2 ∧ s.flow = .credit ∧ s.sm = .opened)) from by decide +kernel)
  obtain ⟨htx, hflow, hopen⟩ := of_decide_eq_true hs
  exact ⟨s, hrun, htx, transmit_credits_exact _ s _ (fresh_init true 30) hrun (by decide +kernel)
    hflow hopen⟩

/-- The credit is used, and the peer grants seven more by another PN command: the port has
credits and stays stopped. -/
theorem renegotiation_leaves_stopped :
    ∃ s, run (init true 30) (openedServer ++
        [.write [1, 2, 3], .pnCommand 30 convLayerCbfcI 7 0]) = some s ∧
      s.flow = .credit ∧ s.sm = .opened ∧ s.creditTx = 7 ∧ s.txPeerFc = true ∧
      ¬ s.CreditsExact := by
  obtain ⟨s, hrun, hs⟩ := (Option.any_eq_true _ _).mp (show (run (init true 30) (openedServer ++
    [.write [1, 2, 3], .pnCommand 30 convLayerCbfcI 7 0])).any (fun s =>
      decide (s.flow = .credit ∧ s.sm = .opened ∧ s.creditTx = 7 ∧ s.txPeerFc = true))
      from by decide +kernel)
  obtain ⟨hflow, hopen, htx, hfc⟩ := of_decide_eq_true hs
  refine ⟨s, hrun, hflow, hopen, htx, hfc, ?_⟩
  intro hex
  rw [hex.stopped.mp hfc] at htx
  cases htx

end Dlc

end BluetoothStack.Rfcomm
