import BluetoothStack.Rfcomm.Dlc

/-!
# BluetoothStack.Rfcomm.DlcRules

Rules for invariants of a port.

A property that survives one data frame, and does not depend on the transmit queue and on what gates
it, survives every function that sends (`SendStable`); one that does not depend on the receive queue
and on what the peer was granted survives every function that receives (`RecvStable`). What the
other steps can do is said once, for the invariants of all modules.
-/

namespace BluetoothStack.Rfcomm

/-- The entry is about data from the peer, or the credits that the peer gets. -/
def Entry.isRx : Entry → Bool
  | .credit _ | .initialCredits _ | .received | .dropped _ => true
  | _ => false

namespace Dlc

variable {s : Dlc} {I : Dlc → Prop}

/-- What `port_write` does with a buffer: it refuses it, sends it or queues it. -/
theorem portWrite_cases (s : Dlc) (buf : List UInt8) :
    s.portWrite buf = (.closed, s) ∨ s.portWrite buf = (.txFull, s) ∨
      s.maySend ∧ s.portWrite buf = (.success, s.rfcommDataReq buf) ∨
      ¬ s.maySend ∧ s.portWrite buf = (.cmdPending,
        { s with txQueue := s.txQueue ++ [buf], txQueueSize := s.txQueueSize + buf.length }) := by
  rw [portWrite]
  split
  · exact Or.inl rfl
  · split
    next hsend =>
      split
      · exact Or.inr (Or.inl rfl)
      · exact Or.inr (Or.inr (Or.inr ⟨by simpa using hsend, rfl⟩))
    next hsend => exact Or.inr (Or.inr (Or.inl ⟨by simpa using hsend, rfl⟩))

/-- The property survives sending. -/
structure SendStable (I : Dlc → Prop) : Prop where
  queue : ∀ {s : Dlc} (q n), I s → I { s with txQueue := q, txQueueSize := n }
  accepted : ∀ {s : Dlc} {bytes}, I s → I (s.note (.accepted bytes))
  data : ∀ {s : Dlc} (buf), I s → s.txPeerFc = false → I (s.rfcommDataReq buf)
  gate : ∀ {s : Dlc} {ready sent conf ind msc fc cong dis}, I s →
    I { s with
      peerReady := ready, reqSent := sent, reqConfirmed := conf, indReceived := ind
      expectsMsc := msc, localFc := fc, l2capCongested := cong, peerRxDisabled := dis }

namespace SendStable

section

variable (hI : SendStable I) (h : I s)
include hI h

theorem sendLoop (fuel : Nat) : I (sendLoop fuel s) := by
  induction fuel generalizing s with
  | zero => exact h
  | succ fuel ih =>
    rw [Dlc.sendLoop]
    split
    · exact h
    next hblock =>
      have hgo : s.txPeerFc = false ∧ s.peerReady = true := by simpa using hblock
      split
      · exact h
      next buf rest _ =>
        have h' := hI.data buf (hI.queue rest (s.txQueueSize - buf.length) h) hgo.1
        simp only
        split
        · exact h'
        · exact ih h'

theorem send : I s.portRfcSendTxData := by
  rw [portRfcSendTxData]
  split
  · exact hI.sendLoop h _
  · exact h

theorem writeLoop (fuel length : Nat) (data : List UInt8) : I (writeLoop fuel length s data) := by
  induction fuel generalizing s length data with
  | zero => exact h
  | succ fuel ih =>
    rw [Dlc.writeLoop]
    split
    · exact h
    split
    · exact h
    simp only
    generalize min (min length s.peerMtu) data.length = n
    rcases portWrite_cases s (data.take n) with hr | hr | ⟨hsend, hr⟩ | ⟨-, hr⟩
    · rw [hr]
      exact h
    · rw [hr]
      exact h
    · have hfc : s.txPeerFc = false := by
        simp only [maySend, Bool.and_eq_true, Bool.not_eq_true'] at hsend
        exact hsend.1.1.1.1
      rw [hr]
      exact ih (hI.accepted (hI.data _ h hfc)) _ _
    · rw [hr]
      exact ih (hI.accepted (hI.queue _ _ h)) _ _

theorem portWriteData (data : List UInt8) : I (s.portWriteData data) := by
  rw [Dlc.portWriteData]
  split
  · exact h
  split
  · exact hI.accepted (hI.queue _ _ h)
  · exact hI.writeLoop h _ _ data

theorem rfcommControlReq : I s.rfcommControlReq := by
  rw [Dlc.rfcommControlReq]
  split
  · exact hI.gate h
  · exact h

theorem muxFlowInd (enable : Bool) : I (s.muxFlowInd enable) := by
  have h' : I { s with peerReady := enable } := hI.gate h
  rw [Dlc.muxFlowInd]
  simp only
  split
  · exact hI.send h'
  · exact h'

theorem portControlInd : I s.portControlInd := by
  have h' : I (if !s.reqSent then s.rfcommControlReq
      else if s.reqConfirmed then s.portRfcSendTxData else s) := by
    split
    · exact hI.rfcommControlReq h
    · split
      · exact hI.send h
      · exact h
  exact hI.gate h'

theorem mscResponse : I s.mscResponse := by
  rw [Dlc.mscResponse]
  split
  · have h' : I { s with expectsMsc := false, reqConfirmed := true } :=
      hI.gate h
    rw [portControlCnf]
    simp only
    split
    · exact hI.send h'
    · exact h'
  · exact h

end

end SendStable

/-! ### Flow control of the multiplexer -/

/-- The property survives flow control of the whole multiplexer. -/
structure GateStable (I : Dlc → Prop) : Prop where
  gate : ∀ {s : Dlc} {cong dis}, I s → I { s with l2capCongested := cong, peerRxDisabled := dis }
  mux : ∀ {s : Dlc} {enable}, I s → I (s.muxFlowInd enable)

theorem SendStable.gateStable (hI : SendStable I) : GateStable I :=
  ⟨hI.gate, fun h => hI.muxFlowInd h _⟩

namespace GateStable

theorem rfcProcessFcon (hI : GateStable I) (h : I s) : I s.rfcProcessFcon := by
  rw [Dlc.rfcProcessFcon]
  simp only
  split
  · exact hI.mux (hI.gate h)
  · exact hI.gate h

theorem rfcProcessFcoff (hI : GateStable I) (h : I s) : I s.rfcProcessFcoff := by
  rw [Dlc.rfcProcessFcoff]
  simp only
  split
  · exact hI.mux (hI.gate h)
  · exact hI.gate h

theorem rfcProcessL2capCongestion (hI : GateStable I) (h : I s) (isCongested : Bool) :
    I (s.rfcProcessL2capCongestion isCongested) := by
  rw [Dlc.rfcProcessL2capCongestion]
  simp only
  split
  · exact hI.mux (hI.gate h)
  · exact hI.gate h

end GateStable

/-! ### Receiving -/

/-- The property survives receiving. -/
structure RecvStable (I : Dlc → Prop) : Prop where
  fields : ∀ {s : Dlc} {q n peerFc userFc fc sent msc pn k}, I s →
    I { s with
      rxQueue := q, rxQueueSize := n, rxPeerFc := peerFc, rxUserFc := userFc, localFc := fc
      reqSent := sent, expectsMsc := msc, expectsPn := pn, creditRx := k }
  note : ∀ {s : Dlc} {e}, e.isRx = true → I s → I (s.note e)

namespace RecvStable

section

variable (hI : RecvStable I) (h : I s)
include hI h

theorem rfcommControlReq : I s.rfcommControlReq := by
  rw [Dlc.rfcommControlReq]
  split
  · exact hI.fields h
  · exact h

theorem rfcommFlowReq (enable : Bool) : I (s.rfcommFlowReq enable) := by
  rw [Dlc.rfcommFlowReq]
  split
  · exact hI.fields h
  · exact h

theorem portFlowControlPeer (enable : Bool) (count : Nat) :
    I (s.portFlowControlPeer enable count) := by
  rw [Dlc.portFlowControlPeer]
  split
  · -- credits: a credit frame may be sent
    split
    · simp only
      split
      · exact hI.note rfl (hI.fields h)
      · exact hI.fields h
    · split
      · exact hI.fields h
      · exact h
  · split
    · split
      · simp only
        split
        · exact hI.rfcommFlowReq (hI.fields h) true
        · exact hI.fields h
      · exact h
    · split
      · exact hI.rfcommFlowReq (hI.fields h) false
      · exact h

theorem portSmUih (buf : List UInt8) : I (s.portSmUih buf) := by
  have h' : I (s.note .received) := hI.note rfl h
  rw [Dlc.portSmUih]
  split
  · rw [portDataInd]
    split
    · exact hI.note rfl h'
    · exact hI.portFlowControlPeer (hI.fields h') false 0
  · exact h'

theorem portReadData (maxLen : Nat) : I (s.portReadData maxLen) := by
  rw [Dlc.portReadData]
  split
  · exact h
  · exact hI.portFlowControlPeer (hI.fields h) true _

theorem portFlowControlMaxCredit (enable : Bool) : I (s.portFlowControlMaxCredit enable) := by
  rw [Dlc.portFlowControlMaxCredit]
  split
  · exact h
  simp only
  split
  · split
    · exact hI.portFlowControlPeer (hI.fields h) true _
    · exact hI.fields h
  · split
    · exact hI.rfcommControlReq (hI.fields h)
    · exact hI.fields h

theorem negotiationRequest : I s.negotiationRequest := by
  rw [Dlc.negotiationRequest]
  split
  · exact h
  split
  · exact hI.note rfl (hI.fields h)
  · exact hI.fields h

end

theorem exchangeCredits (hI : RecvStable I) {k : Nat} (h : I (s.portGetCredits k)) :
    I (s.exchangeCredits k) := by
  rw [Dlc.exchangeCredits]
  simp only
  split
  · exact hI.note rfl (hI.fields h)
  · exact hI.fields h

/-- The modem signals are sent, unless they have been. -/
theorem portPortNegCnf (hI : RecvStable I) (h : I s) : I s.portPortNegCnf := by
  rw [Dlc.portPortNegCnf]
  split
  · exact hI.rfcommControlReq h
  · exact h

end RecvStable

/-! ### What the other steps can do -/

theorem takeL2capMtu_eq (s : Dlc) :
    s.takeL2capMtu = { s with peerMtu := s.takeL2capMtu.peerMtu } := by
  rw [takeL2capMtu]
  split <;> rfl

theorem settleFlow_eq (s : Dlc) (flow : Flow) :
    s.settleFlow flow = { s with flow := if s.flow = .undefined then flow else s.flow } := by
  rw [settleFlow]
  split <;> rfl

theorem removeConnection_cases {s' : Dlc} (hs : s.removeConnection = some s') :
    s' = { s with state := .closing, lineStatus := true } ∨
      s' = { s with
        state := .closing, lineStatus := true, sm := .discWaitUa, expectsPn := false
        expectsMsc := false } := by
  rw [removeConnection] at hs
  split at hs <;> cases hs
  · exact .inr rfl
  · exact .inr rfl
  · exact .inl rfl
  · exact .inl rfl

theorem portSmSabme_cases (s : Dlc) :
    s.portSmSabme = s ∨ s.portSmSabme = { s with sm := .termWaitSecCheck } := by
  rw [portSmSabme]
  split
  · exact .inr rfl
  · exact .inl rfl

theorem secComplete_cases {s' : Dlc} (hs : s.secComplete = some s') :
    s' = s ∨ s.sm = .origWaitSecCheck ∧ s' = { s with sm := .sabmeWaitUa } ∨
      s.sm = .termWaitSecCheck ∧ s' = { s.takeL2capMtu with sm := .opened, state := .opened } := by
  rw [secComplete] at hs
  split at hs
  next hsm =>
    split at hs <;> cases hs
    exact .inr (.inr ⟨hsm, rfl⟩)
  next hsm =>
    cases hs
    exact .inr (.inl ⟨hsm, rfl⟩)
  · cases hs
    exact .inl rfl

theorem portSmUa_cases {s' : Dlc} (hs : s.portSmUa = some s') :
    s' = s ∨ s.sm = .sabmeWaitUa ∧
      (s' = { s.takeL2capMtu with sm := .opened, state := .opened } ∨
        s' = { s.takeL2capMtu with sm := .opened, state := .opened }.rfcommControlReq) := by
  rw [portSmUa] at hs
  split at hs
  next hsm =>
    dsimp only at hs
    split at hs
    · split at hs <;> cases hs
      exact .inr ⟨hsm, .inl rfl⟩
    · cases hs
      exact .inr ⟨hsm, .inr rfl⟩
  · cases hs
  · cases hs
    exact .inl rfl

theorem portSmDisc_cases {s' : Dlc} (hs : s.portSmDisc = some s') :
    s' = s ∨ s' = { s with sm := .closed } := by
  rw [portSmDisc] at hs
  split at hs
  · split at hs <;> cases hs
    exact .inr rfl
  · cases hs
  · cases hs
  · cases hs
    exact .inl rfl

/-- A PN response is ignored, or taken, and then the port may go on to open itself. -/
theorem pnResponse_cases {s' : Dlc} {mtu cl k : Nat} (hs : s.pnResponse mtu cl k = some s') :
    s' = s ∨ validPnMtu mtu = true ∧ s.expectsPn = true ∧
      (s' = { s with expectsPn := false }.takeResponse mtu cl k ∨
        s' = ({ s with expectsPn := false }.takeResponse mtu cl k).portSmOpen) := by
  rw [pnResponse] at hs
  split at hs
  next hpn =>
    rw [Bool.and_eq_true] at hpn
    rw [portParNegCnf] at hs
    split at hs
    · split at hs <;> cases hs
      exact .inr ⟨hpn.1, hpn.2, .inr rfl⟩
    · cases hs
      exact .inr ⟨hpn.1, hpn.2, .inl rfl⟩
  · cases hs
    exact .inl rfl

theorem of_some {s s' : Dlc} (hs : some s = some s') (h : I s) : I s' := Option.some.inj hs ▸ h

end Dlc

end BluetoothStack.Rfcomm
