import BluetoothStack.Lib.Runs
import BluetoothStack.Rfcomm.DlcRules

/-!
# BluetoothStack.Rfcomm.DlcTx

The order of the bytes that a port sends.

What was accepted is what was sent followed by what waits in the queue (`TxInv`). Three kinds
of steps can break this: a write that is sent at once while older data waits, a drain of the
queue while the port is not open, which frees the buffers, and a smaller MTU while longer
buffers wait. `inOrder` is the condition that rules them out.
-/

namespace BluetoothStack.Rfcomm

/-! ### What was accepted and what was sent -/

def Entry.acceptedBytes : Entry → List UInt8
  | .accepted bytes => bytes
  | _ => []

def Entry.sentBytes : Entry → List UInt8
  | .data payload _ _ => payload
  | _ => []

/-- The payload of a data frame is at most the peer's MTU. -/
def Entry.withinMtu : Entry → Prop
  | .data payload _ peerMtu => payload.length ≤ peerMtu
  | _ => True

/-- The entry is about data to the peer. -/
def Entry.isTx : Entry → Bool
  | .accepted _ | .data _ _ _ => true
  | _ => false

def acceptedBytes (log : List Entry) : List UInt8 := log.flatMap Entry.acceptedBytes

def sentBytes (log : List Entry) : List UInt8 := log.flatMap Entry.sentBytes

@[simp] theorem acceptedBytes_append (l l' : List Entry) :
    acceptedBytes (l ++ l') = acceptedBytes l ++ acceptedBytes l' := by
  simp [acceptedBytes]

@[simp] theorem sentBytes_append (l l' : List Entry) :
    sentBytes (l ++ l') = sentBytes l ++ sentBytes l' := by
  simp [sentBytes]

theorem acceptedBytes_quiet {l : List Entry} (h : ∀ e ∈ l, e.isTx = false) :
    acceptedBytes l = [] := by
  simp only [acceptedBytes, List.flatMap_eq_nil_iff]
  intro e he
  have := h e he
  cases e <;> simp_all [Entry.isTx, Entry.acceptedBytes]

theorem sentBytes_quiet {l : List Entry} (h : ∀ e ∈ l, e.isTx = false) : sentBytes l = [] := by
  simp only [sentBytes, List.flatMap_eq_nil_iff]
  intro e he
  have := h e he
  cases e <;> simp_all [Entry.isTx, Entry.sentBytes]

theorem Entry.withinMtu_quiet {e : Entry} (h : e.isTx = false) : e.withinMtu := by
  cases e <;> simp_all [Entry.isTx, Entry.withinMtu]

theorem Entry.isTx_of_isRx {e : Entry} (h : e.isRx = true) : e.isTx = false := by
  cases e <;> first | rfl | cases h

namespace Dlc

variable {s s' : Dlc}

/-! ### The invariant -/

/-- What was accepted was sent or waits, in this order. -/
structure TxInv (s : Dlc) : Prop where
  bytes : acceptedBytes s.log = sentBytes s.log ++ s.txQueue.flatten
  size : s.txQueueSize = (s.txQueue.map List.length).sum
  fits : ∀ buf ∈ s.txQueue, buf.length ≤ s.peerMtu
  frames : ∀ e ∈ s.log, e.withinMtu

/-- Nothing that is noted here is about the data to the peer. -/
theorem TxInv.noted (h : TxInv s) {e : Entry} (he : e.isTx = false) : TxInv (s.note e) := by
  have hquiet : ∀ e' ∈ [e], e'.isTx = false := by simpa using he
  refine ⟨?_, h.size, h.fits, ?_⟩
  · rw [Dlc.note, acceptedBytes_append, sentBytes_append, acceptedBytes_quiet hquiet,
      sentBytes_quiet hquiet, List.append_nil, List.append_nil]
    exact h.bytes
  · intro e' he'
    rcases List.mem_append.mp he' with he' | he'
    · exact h.frames e' he'
    · exact Entry.withinMtu_quiet (hquiet e' he')

theorem txInv_recvStable : RecvStable TxInv where
  fields h := { h with }
  note he h := h.noted (Entry.isTx_of_isRx he)

/-! ### Sending -/

/-- What `RFCOMM_DataReq` does on an open port. -/
structure Sent (buf : List UInt8) (s s' : Dlc) : Prop where
  txQueue : s'.txQueue = s.txQueue
  txQueueSize : s'.txQueueSize = s.txQueueSize
  peerMtu : s'.peerMtu = s.peerMtu
  sm : s'.sm = s.sm
  log : ∃ credits, s'.log = s.log ++ [.data buf credits s.peerMtu]

theorem rfcDecCredit_same (s : Dlc) :
    s.rfcDecCredit.txQueue = s.txQueue ∧ s.rfcDecCredit.txQueueSize = s.txQueueSize ∧
      s.rfcDecCredit.peerMtu = s.peerMtu ∧ s.rfcDecCredit.sm = s.sm ∧
      s.rfcDecCredit.log = s.log := by
  rw [rfcDecCredit]
  split <;> exact ⟨rfl, rfl, rfl, rfl, rfl⟩

theorem rfcommDataReq_sent (buf : List UInt8) (hsm : s.sm = .opened) :
    Sent buf s (s.rfcommDataReq buf) := by
  rw [rfcommDataReq]
  split
  · split
    · obtain ⟨hq, hs, hm, hsm', hl⟩ := rfcDecCredit_same ({ s with creditRx := s.creditRxMax }.note
        (.data buf ((s.creditRxMax - s.creditRx) % 256) s.peerMtu))
      exact ⟨hq, hs, hm, hsm', _, hl⟩
    · obtain ⟨hq, hs, hm, hsm', hl⟩ := rfcDecCredit_same (s.note (.data buf 0 s.peerMtu))
      exact ⟨hq, hs, hm, hsm', _, hl⟩
  · contradiction

/-- The first buffer that waits is sent. -/
theorem TxInv.sendHead {buf : List UInt8} {rest : List (List UInt8)} (h : TxInv s)
    (hq : s.txQueue = buf :: rest)
    (hsent : Sent buf { s with txQueue := rest, txQueueSize := s.txQueueSize - buf.length } s') :
    TxInv s' := by
  obtain ⟨credits, hl⟩ := hsent.log
  have hfit : buf.length ≤ s.peerMtu := h.fits buf (by simp [hq])
  have hbytes := h.bytes
  have hsize := h.size
  rw [hq] at hbytes hsize
  refine ⟨?_, ?_, ?_, ?_⟩
  · rw [hl, hsent.txQueue, acceptedBytes_append, sentBytes_append]
    simpa [acceptedBytes, sentBytes, Entry.acceptedBytes, Entry.sentBytes] using hbytes
  · rw [hsent.txQueueSize, hsent.txQueue]
    simp only [List.map_cons, List.sum_cons] at hsize
    simp only
    omega
  · intro b hb
    rw [hsent.txQueue] at hb
    rw [hsent.peerMtu]
    exact h.fits b (by rw [hq]; exact List.mem_cons_of_mem _ hb)
  · intro e he
    rw [hl] at he
    rcases List.mem_append.mp he with he | he
    · exact h.frames e he
    · rw [List.mem_singleton.mp he]
      exact hfit

theorem TxInv.sendLoop (h : TxInv s) (hsm : s.sm = .opened) (fuel : Nat) :
    TxInv (sendLoop fuel s) := by
  induction fuel generalizing s with
  | zero => exact h
  | succ fuel ih =>
    rw [Dlc.sendLoop]
    split
    · exact h
    · split
      · exact h
      next buf rest hq =>
        have hsent := rfcommDataReq_sent buf
          (s := { s with txQueue := rest, txQueueSize := s.txQueueSize - buf.length }) hsm
        have h' := h.sendHead hq hsent
        simp only
        split
        · exact h'
        · exact ih h' (hsent.sm.trans hsm)

/-- The queue is drained while the port is open, or there is nothing to drain. -/
theorem TxInv.drain (h : TxInv s) (hok : s.sm = .opened ∨ s.txQueue = []) :
    TxInv s.portRfcSendTxData := by
  rw [portRfcSendTxData]
  split
  next hpos =>
    rcases hok with hsm | hnil
    · exact h.sendLoop hsm _
    · simp [h.size, hnil] at hpos
  · exact h

/-! ### Writing -/

/-- A buffer that is accepted enters the queue behind everything else. -/
theorem TxInv.enqueue {buf : List UInt8} (h : TxInv s) (hbuf : buf.length ≤ s.peerMtu) :
    TxInv ({ s with
      txQueue := s.txQueue ++ [buf]
      txQueueSize := s.txQueueSize + buf.length }.note (.accepted buf)) := by
  refine ⟨?_, ?_, ?_, ?_⟩
  · have hbytes := h.bytes
    simp only [note, acceptedBytes_append, sentBytes_append]
    simp [acceptedBytes, sentBytes, Entry.acceptedBytes, Entry.sentBytes] at hbytes ⊢
    rw [hbytes, List.append_assoc]
  · simp [note, h.size]
  · intro b hb
    rcases List.mem_append.mp hb with hb | hb
    · exact h.fits b hb
    · rw [List.mem_singleton.mp hb]
      exact hbuf
  · intro e he
    rcases List.mem_append.mp he with he | he
    · exact h.frames e he
    · rw [List.mem_singleton.mp he]
      trivial

/-- A buffer that is accepted is sent at once; nothing waits. -/
theorem TxInv.direct {buf : List UInt8} (h : TxInv s) (hbuf : buf.length ≤ s.peerMtu)
    (hq : s.txQueue = []) (hsent : Sent buf s s') : TxInv (s'.note (.accepted buf)) := by
  obtain ⟨credits, hl⟩ := hsent.log
  have hbytes := h.bytes
  rw [hq] at hbytes
  refine ⟨?_, ?_, ?_, ?_⟩
  · simp only [note, hl, hsent.txQueue, hq, acceptedBytes_append, sentBytes_append, hbytes]
    simp [acceptedBytes, sentBytes, Entry.acceptedBytes, Entry.sentBytes]
  · simp [note, hsent.txQueueSize, hsent.txQueue, h.size]
  · intro b hb
    simp [note, hsent.txQueue, hq] at hb
  · intro e he
    simp only [note, hl, List.mem_append, List.mem_singleton] at he
    rcases he with (he | rfl) | rfl
    · exact h.frames e he
    · exact hbuf
    · trivial

/-- A buffer may be sent at once only if none waits. -/
def Idle (s : Dlc) : Prop := s.maySend → s.txQueue = []

theorem TxInv.writeLoop (h : TxInv s) (idle : s.Idle) (fuel length : Nat) (data : List UInt8) :
    TxInv (writeLoop fuel length s data) := by
  induction fuel generalizing s length data with
  | zero => exact h
  | succ fuel ih =>
    rw [Dlc.writeLoop]
    split
    · exact h
    split
    · exact h
    simp only
    generalize hn : min (min length s.peerMtu) data.length = n
    have hbuf : (data.take n).length ≤ s.peerMtu := by
      rw [List.length_take]
      omega
    rcases portWrite_cases s (data.take n) with hr | hr | ⟨hsend, hr⟩ | ⟨hsend, hr⟩
    · rw [hr]
      exact h
    · rw [hr]
      exact h
    -- it is sent at once, and the queue stays empty
    · have hsm : s.sm = .opened := by
        simp only [maySend, Bool.and_eq_true, beq_iff_eq] at hsend
        exact hsend.1.1.2
      have hsent := rfcommDataReq_sent (data.take n) hsm
      rw [hr]
      refine ih (h.direct hbuf (idle hsend) hsent) ?_ _ _
      intro _
      exact hsent.txQueue.trans (idle hsend)
    · rw [hr]
      refine ih (h.enqueue hbuf) ?_ _ _
      intro hmay
      exact absurd hmay hsend

/-- Data that fits behind the last buffer is put there. -/
theorem TxInv.append {data : List UInt8} (h : TxInv s) (hfit : s.fitsLast data) :
    TxInv ({ s with
      txQueue := s.txQueue.dropLast ++ [s.txQueue.getLast?.getD [] ++ data]
      txQueueSize := s.txQueueSize + data.length }.note (.accepted data)) := by
  rw [fitsLast] at hfit
  split at hfit
  · cases hfit
  rename_i last hlast
  have hq : s.txQueue = s.txQueue.dropLast ++ [last] := (List.dropLast_append_getLast? _ hlast).symm
  have hbytes := h.bytes
  have hsize := h.size
  rw [hq] at hbytes hsize
  refine ⟨?_, ?_, ?_, ?_⟩
  · simp only [note, hlast, acceptedBytes_append, sentBytes_append, hbytes]
    simp [acceptedBytes, sentBytes, Entry.acceptedBytes, Entry.sentBytes]
  · simp only [List.map_append, List.sum_append, List.map_cons, List.map_nil, List.sum_cons,
      List.sum_nil] at hsize
    simp [note, hlast, hsize, Nat.add_assoc]
  · intro b hb
    simp only [note, hlast, Option.getD_some, List.mem_append, List.mem_singleton] at hb
    rcases hb with hb | rfl
    · exact h.fits b (List.mem_of_mem_dropLast hb)
    · rw [List.length_append]
      exact (of_decide_eq_true hfit).1
  · intro e he
    rcases List.mem_append.mp he with he | he
    · exact h.frames e he
    · rw [List.mem_singleton.mp he]
      trivial

theorem TxInv.portWriteData {data : List UInt8} (h : TxInv s)
    (hok : s.fitsLast data ∨ s.Idle) : TxInv (s.portWriteData data) := by
  rw [Dlc.portWriteData]
  split
  · exact h
  split
  next hfit => exact h.append hfit
  next hfit => exact h.writeLoop (hok.resolve_left hfit) _ _ _

/-! ### Steps that send no data -/

/-- The buffers that wait fit another MTU. -/
def queueFits (s : Dlc) (mtu : Nat) : Bool := s.txQueue.all fun buf => buf.length ≤ mtu

/-- Another MTU is no harm if the buffers that wait still fit. -/
theorem TxInv.resize (h : TxInv s) {mtu peerMtu : Nat} (hfits : s.queueFits peerMtu) :
    TxInv { s with mtu := mtu, peerMtu := peerMtu } := by
  refine { h with fits := ?_ }
  simpa [queueFits] using hfits

theorem TxInv.settleFlow (h : TxInv s) (flow : Flow) : TxInv (s.settleFlow flow) := by
  rw [settleFlow_eq]
  exact { h with }

theorem TxInv.portGetCredits (h : TxInv s) (k : Nat) : TxInv (s.portGetCredits k) := by
  refine TxInv.noted ?_ rfl
  exact { h with }

theorem TxInv.portSmOpen (h : TxInv s) : TxInv s.portSmOpen := by
  rw [Dlc.portSmOpen]
  split
  · exact { h with }
  · exact h

theorem TxInv.portParNegInd (h : TxInv s) {mtu packetSize : Nat} (cl k : Nat)
    (hfits : s.queueFits ((s.portSelectMtu packetSize).takeMtu mtu).peerMtu) :
    TxInv (s.portParNegInd mtu cl k packetSize) := by
  have hmtu : TxInv ((s.portSelectMtu packetSize).takeMtu mtu) := by
    have h' : TxInv (s.portSelectMtu packetSize) := { h with }
    exact h'.resize hfits
  rw [Dlc.portParNegInd]
  generalize (if cl = convLayerType1 then Flow.ts710 else .credit) = flow
  split
  · exact txInv_recvStable.exchangeCredits ((hmtu.settleFlow flow).portGetCredits k)
  · exact hmtu.settleFlow flow

theorem TxInv.takeResponse (h : TxInv s) {mtu : Nat} (cl k : Nat)
    (hfits : s.queueFits (s.takeMtu mtu).peerMtu) : TxInv (s.takeResponse mtu cl k) := by
  rw [Dlc.takeResponse]
  generalize (if cl = convLayerCbfcR then Flow.credit else .ts710) = flow
  have hmtu : TxInv ((s.settleFlow flow).takeMtu mtu) := by
    have h' := h.settleFlow flow
    rw [settleFlow_eq] at h' ⊢
    exact h'.resize hfits
  split
  · exact hmtu.portGetCredits k
  · exact hmtu

/-- The port opens, with the MTU of L2CAP if that is smaller. -/
theorem TxInv.opens (h : TxInv s) (hfits : s.queueFits s.takeL2capMtu.peerMtu) :
    TxInv { s.takeL2capMtu with sm := .opened, state := .opened } := by
  have h' : TxInv { s with mtu := s.mtu, peerMtu := s.takeL2capMtu.peerMtu } := h.resize hfits
  rw [takeL2capMtu_eq]
  exact { h' with }

/-- What gates the sender, and what waits, is as before. -/
structure SameGate (s s' : Dlc) : Prop where
  sm : s'.sm = s.sm
  flow : s'.flow = s.flow
  txPeerFc : s'.txPeerFc = s.txPeerFc
  peerReady : s'.peerReady = s.peerReady
  txQueue : s'.txQueue = s.txQueue

theorem sameGate_recvStable (s : Dlc) : RecvStable (SameGate s) where
  fields h := { h with }
  note _ h := { h with }

/-! ### Steps that drain the queue -/

theorem sendLoop_blocked (h : s.txPeerFc || !s.peerReady) (fuel : Nat) : sendLoop fuel s = s := by
  cases fuel with
  | zero => rfl
  | succ fuel => rw [Dlc.sendLoop, if_pos h]

theorem send_blocked (h : s.txPeerFc || !s.peerReady) : s.portRfcSendTxData = s := by
  rw [portRfcSendTxData, sendLoop_blocked h, ite_self]

theorem rfcommDataReq_sm (s : Dlc) (buf : List UInt8) : (s.rfcommDataReq buf).sm = s.sm := by
  rw [rfcommDataReq]
  split
  · split
    · exact (rfcDecCredit_same _).2.2.2.1
    · exact (rfcDecCredit_same _).2.2.2.1
  · rfl

theorem sendLoop_sm (fuel : Nat) (s : Dlc) : (sendLoop fuel s).sm = s.sm := by
  induction fuel generalizing s with
  | zero => rfl
  | succ fuel ih =>
    rw [Dlc.sendLoop]
    split
    · rfl
    · split
      · rfl
      · simp only
        split
        · exact rfcommDataReq_sm _ _
        · rw [ih]
          exact rfcommDataReq_sm _ _

theorem send_sm (s : Dlc) : s.portRfcSendTxData.sm = s.sm := by
  rw [portRfcSendTxData]
  split
  · exact sendLoop_sm _ s
  · rfl

theorem TxInv.send_nil (h : TxInv s) (hq : s.txQueue = []) : s.portRfcSendTxData = s := by
  rw [portRfcSendTxData, if_neg]
  simp [h.size, hq]

/-- Buffers that are taken from the queue now are not freed. -/
def DrainOk (s : Dlc) : Prop := s.sm = .opened ∨ s.txQueue = []

/-- A drain keeps the invariant, and what makes the next drain safe. -/
theorem TxInv.send (h : TxInv s) (hok : s.txPeerFc = false → s.peerReady → s.DrainOk) :
    TxInv s.portRfcSendTxData ∧ (s.DrainOk → s.portRfcSendTxData.DrainOk) := by
  by_cases hblock : s.txPeerFc || !s.peerReady
  · rw [send_blocked hblock]
    exact ⟨h, id⟩
  · simp only [Bool.or_eq_true, Bool.not_eq_true', not_or, Bool.not_eq_true, Bool.not_eq_false]
      at hblock
    refine ⟨h.drain (hok hblock.1 hblock.2), ?_⟩
    rintro (hsm | hq)
    · exact Or.inl ((send_sm s).trans hsm)
    · rw [h.send_nil hq]
      exact Or.inr hq

theorem TxInv.portFlowInd (h : TxInv s) (enable : Bool)
    (hok : enable → s.peerReady → s.DrainOk) :
    TxInv (s.portFlowInd enable) ∧ (s.DrainOk → (s.portFlowInd enable).DrainOk) := by
  have h' : TxInv { s with txPeerFc := !enable } := { h with }
  refine h'.send ?_
  intro hfc hready
  exact hok (by simpa using hfc) hready

theorem TxInv.muxFlowInd (h : TxInv s) (enable : Bool) : TxInv (s.muxFlowInd enable) := by
  have h' : TxInv { s with peerReady := enable } := { h with }
  rw [Dlc.muxFlowInd]
  simp only
  split
  next hsm => exact h'.drain (Or.inl hsm)
  · exact h'

theorem TxInv.rfcIncCredit (h : TxInv s) (credit : Nat)
    (hok : s.flow = .credit → s.txPeerFc → s.peerReady → s.DrainOk) :
    TxInv (s.rfcIncCredit credit) := by
  rw [Dlc.rfcIncCredit]
  split
  next hflow =>
    have hcredit : TxInv { s with creditTx := (s.creditTx + credit) % 65536 } :=
      { h with }
    have h' := hcredit.noted (e := .granted credit) rfl
    simp only
    split
    next hfc => exact (h'.portFlowInd true fun _ hready => hok hflow hfc hready).1
    · exact h'
  · exact h

theorem TxInv.portControlInd (h : TxInv s)
    (hok : s.reqSent → s.reqConfirmed → s.txPeerFc = false → s.peerReady → s.DrainOk) :
    TxInv s.portControlInd := by
  have h' : TxInv (if !s.reqSent then s.rfcommControlReq
      else if s.reqConfirmed then s.portRfcSendTxData else s) := by
    split
    · exact txInv_recvStable.rfcommControlReq h
    next hreq =>
      split
      next hconf => exact (h.send (hok (by simpa using hreq) hconf)).1
      · exact h
  exact { h' with }

/-! ### Steps and runs -/

/-- The step takes buffers from the queue, whether the port is open or not. -/
def drains (s : Dlc) : Event → Bool
  | .uih _ credit => credit != 0 && s.flow == .credit && s.txPeerFc && s.peerReady
  | .mscCommand fc =>
    s.peerReady &&
      (s.flow != .credit && s.txPeerFc && !fc ||
        s.reqSent && s.reqConfirmed && !(if s.flow = .credit then s.txPeerFc else fc))
  | .mscResponse => s.expectsMsc && s.indReceived && s.peerReady && !s.txPeerFc
  | _ => false

/-- The step keeps the order of the bytes. -/
def inOrder (s : Dlc) (e : Event) : Bool :=
  (!s.drains e || s.sm == .opened || s.txQueue.isEmpty) &&
    match e with
    | .write data => s.fitsLast data || !s.maySend || s.txQueue.isEmpty
    | .pnCommand mtu _ _ packetSize =>
      !validPnMtu mtu || s.muxState == .discWaitUa ||
        s.queueFits ((s.portSelectMtu packetSize).takeMtu mtu).peerMtu
    | .pnResponse mtu _ _ =>
      !validPnMtu mtu || !s.expectsPn || s.queueFits (s.takeMtu mtu).peerMtu
    | .secComplete => s.sm != .termWaitSecCheck || s.queueFits s.takeL2capMtu.peerMtu
    | .ua => s.sm != .sabmeWaitUa || s.queueFits s.takeL2capMtu.peerMtu
    | _ => true

section

variable (h : TxInv s)
include h

theorem TxInv.mscCommand (fc : Bool) (hok : s.drains (.mscCommand fc) → s.DrainOk) :
    TxInv (s.mscCommand fc) := by
  rw [Dlc.mscCommand]
  split
  next hfc =>
    cases fc with
    | true =>
      have hstop : s.portFlowInd (!true) = { s with txPeerFc := true } := send_blocked rfl
      have h' : TxInv { s with txPeerFc := true } := { h with }
      rw [hstop]
      exact h'.portControlInd fun _ _ hf => by cases hf
    | false =>
      have hpeer : s.txPeerFc = true := by simpa using hfc.2.symm
      by_cases hready : s.peerReady
      · have hdrain : s.DrainOk := hok (by simp [drains, hready, hpeer, hfc.1])
        obtain ⟨h', hok'⟩ := h.portFlowInd (!false) fun _ _ => hdrain
        exact h'.portControlInd fun _ _ _ _ => hok' hdrain
      · have hstop : s.portFlowInd (!false) = { s with txPeerFc := false } :=
          send_blocked (by simpa using hready)
        have h' : TxInv { s with txPeerFc := false } := { h with }
        rw [hstop]
        exact h'.portControlInd fun _ _ _ hr => absurd hr hready
  next hfc =>
    refine h.portControlInd fun hsent hconf hpeer hready => hok ?_
    rw [not_and_or, not_not, not_not] at hfc
    rcases hfc with hflow | heq
    · simp [drains, hready, hsent, hconf, hpeer, hflow]
    · rw [hpeer] at heq
      simp [drains, hready, hsent, hconf, hpeer, heq]

theorem TxInv.mscResponse (hok : s.drains .mscResponse → s.DrainOk) : TxInv s.mscResponse := by
  rw [Dlc.mscResponse]
  split
  next hexp =>
    have h' : TxInv { s with expectsMsc := false, reqConfirmed := true } :=
      { h with }
    rw [portControlCnf]
    simp only
    split
    next hind =>
      refine (h'.send fun hfc hready => hok ?_).1
      have hpeer : s.txPeerFc = false := hfc
      have hrdy : s.peerReady = true := hready
      simp [drains, hexp, show s.indReceived = true from hind, hpeer, hrdy]
    · exact h'
  · exact h

theorem TxInv.uih (buf : List UInt8) (credit : Nat) (hok : s.drains (.uih buf credit) → s.DrainOk) :
    TxInv (s.uih buf credit) := by
  have hgate : SameGate s s := ⟨rfl, rfl, rfl, rfl, rfl⟩
  have hrecv : TxInv (if buf ≠ [] then s.portSmUih buf else s) ∧
      SameGate s (if buf ≠ [] then s.portSmUih buf else s) := by
    split
    · exact ⟨txInv_recvStable.portSmUih h buf, (sameGate_recvStable s).portSmUih hgate buf⟩
    · exact ⟨h, hgate⟩
  rw [Dlc.uih]
  generalize (if buf ≠ [] then s.portSmUih buf else s) = s₁ at hrecv
  obtain ⟨h₁, keeps⟩ := hrecv
  split
  next hcredit =>
    refine h₁.rfcIncCredit credit fun hflow hfc hready => ?_
    rw [keeps.flow] at hflow
    rw [keeps.txPeerFc] at hfc
    rw [keeps.peerReady] at hready
    have hd := hok (by simp [drains, hcredit, hflow, hfc, hready])
    rwa [DrainOk, keeps.sm, keeps.txQueue]
  · exact h₁

theorem TxInv.pnCommand {mtu cl k packetSize : Nat}
    (hok : s.inOrder (.pnCommand mtu cl k packetSize)) :
    TxInv (s.pnCommand mtu cl (k % 8) packetSize) := by
  rw [Dlc.pnCommand]
  split
  next hpn =>
    simp only [Bool.and_eq_true, bne_iff_ne] at hpn
    exact h.portParNegInd cl (k % 8) (by simpa [inOrder, drains, hpn] using hok)
  · exact h

theorem TxInv.pnResponse {mtu cl k : Nat} (hok : s.inOrder (.pnResponse mtu cl k))
    (hs : s.pnResponse mtu cl (k % 8) = some s') : TxInv s' := by
  obtain rfl | ⟨hmtu, hpn, hs⟩ := pnResponse_cases hs
  · exact h
  have h₁ : TxInv { s with expectsPn := false } := { h with }
  have hfits : s.queueFits (s.takeMtu mtu).peerMtu := by
    simpa [inOrder, drains, hmtu, hpn] using hok
  have h₂ := h₁.takeResponse cl (k % 8) hfits
  obtain rfl | rfl := hs
  · exact h₂
  · exact h₂.portSmOpen

theorem TxInv.secComplete (hok : s.inOrder .secComplete) (hs : s.secComplete = some s') :
    TxInv s' := by
  obtain rfl | ⟨-, rfl⟩ | ⟨hsm, rfl⟩ := secComplete_cases hs
  · exact h
  · exact { h with }
  · exact h.opens (by simpa [inOrder, drains, hsm] using hok)

theorem TxInv.portSmUa (hok : s.inOrder .ua) (hs : s.portSmUa = some s') : TxInv s' := by
  obtain rfl | ⟨hsm, hs⟩ := portSmUa_cases hs
  · exact h
  have h₁ := h.opens (by simpa [inOrder, drains, hsm] using hok)
  obtain rfl | rfl := hs
  · exact h₁
  · exact txInv_recvStable.rfcommControlReq h₁

theorem TxInv.write {data : List UInt8} (hok : s.inOrder (.write data)) :
    TxInv (s.portWriteData data) := by
  refine h.portWriteData ?_
  simp only [inOrder, drains, Bool.not_false, Bool.true_or, Bool.true_and, Bool.or_eq_true,
    Bool.not_eq_true', List.isEmpty_iff] at hok
  rcases hok with (hfit | hsend) | hq
  · exact Or.inl hfit
  · exact Or.inr fun hmay => by simp [hmay] at hsend
  · exact Or.inr fun _ => hq

end

theorem txInv_gateStable : GateStable TxInv where
  gate h := { h with }
  mux h := h.muxFlowInd _

theorem TxInv.step {e : Event} (h : TxInv s) (hok : s.inOrder e) (hs : s.step e = some s') :
    TxInv s' := by
  have hdrain : s.drains e → s.DrainOk := by
    intro hd
    simp only [inOrder, hd, Bool.and_eq_true] at hok
    simpa [DrainOk] using hok.1
  -- the fields that the invariant mentions are untouched
  have hsame {s₁ : Dlc} (hlog : s₁.log = s.log) (hq : s₁.txQueue = s.txQueue)
      (hn : s₁.txQueueSize = s.txQueueSize) (hm : s₁.peerMtu = s.peerMtu) : TxInv s₁ :=
    ⟨hlog ▸ hq ▸ h.bytes, hq ▸ hn ▸ h.size, hq ▸ hm ▸ h.fits, hlog ▸ h.frames⟩
  cases e with
  | write data => exact of_some hs (h.write hok)
  | readData maxLen => exact of_some hs (txInv_recvStable.portReadData h maxLen)
  | flowControlMaxCredit enable =>
    exact of_some hs (txInv_recvStable.portFlowControlMaxCredit h enable)
  | controlReq fc => exact of_some hs (txInv_recvStable.rfcommControlReq (hsame rfl rfl rfl rfl))
  | removeConnection =>
    obtain rfl | rfl := removeConnection_cases hs
    · exact hsame rfl rfl rfl rfl
    · exact hsame rfl rfl rfl rfl
  | openContinue packetSize =>
    exact of_some hs (txInv_recvStable.negotiationRequest (hsame rfl rfl rfl rfl))
  | startCnf => exact of_some hs (txInv_recvStable.negotiationRequest h)
  | pnCommand mtu cl k packetSize => exact of_some hs (h.pnCommand hok)
  | pnResponse mtu cl k => exact h.pnResponse hok hs
  | portNegCnf => exact of_some hs (txInv_recvStable.portPortNegCnf h)
  | sabme =>
    refine of_some hs ?_
    obtain heq | heq := portSmSabme_cases s <;> rw [heq]
    · exact h
    · exact hsame rfl rfl rfl rfl
  | secComplete => exact h.secComplete hok hs
  | ua => exact h.portSmUa hok hs
  | disc =>
    obtain rfl | rfl := portSmDisc_cases hs
    · exact h
    · exact hsame rfl rfl rfl rfl
  | uih buf credit => exact of_some hs (h.uih buf credit hdrain)
  | mscCommand fc => exact of_some hs (h.mscCommand fc hdrain)
  | mscResponse => exact of_some hs (h.mscResponse hdrain)
  | lineStatusInd | muxState state peerReady peerL2capMtu =>
    exact of_some hs (hsame rfl rfl rfl rfl)
  | fcon => exact of_some hs (txInv_gateStable.rfcProcessFcon h)
  | fcoff => exact of_some hs (txInv_gateStable.rfcProcessFcoff h)
  | congestion isCongested =>
    exact of_some hs (txInv_gateStable.rfcProcessL2capCongestion h isCongested)
  | muxFlow flow => exact of_some hs (h.settleFlow flow)

theorem Fresh.txInv (h : Fresh s) : TxInv s where
  bytes := by simp [h.log, h.txQueue, acceptedBytes, sentBytes]
  size := by simp [h.txQueue, h.txQueueSize]
  fits buf hbuf := by simp [h.txQueue] at hbuf
  frames e he := by simp [h.log] at he

theorem bytes_sent_in_order (s₀ s : Dlc) (es : List Event) (hfresh : Fresh s₀)
    (hrun : run s₀ es = some s) (hall : Lib.allSteps step inOrder s₀ es) :
    sentBytes s.log <+: acceptedBytes s.log ∧
      (∀ payload credits peerMtu, Entry.data payload credits peerMtu ∈ s.log →
        payload.length ≤ peerMtu) ∧
      s.txQueueSize = (s.txQueue.map List.length).sum := by
  have h : TxInv s :=
    Lib.run_invariant (fun _ _ _ h hok hs => h.step hok hs) hfresh.txInv hall hrun
  refine ⟨?_, fun payload credits peerMtu he => h.frames _ he, h.size⟩
  rw [h.bytes]
  exact List.prefix_append _ _

/-- A client opens the port; the confirmation of its MSC command has not come yet. -/
def openedClient : List Event :=
  [.openContinue 0, .pnResponse 30 convLayerCbfcR 7, .secComplete, .ua]

/-- Twenty bytes wait until both sides have sent their modem signals. -/
theorem bytes_sent_in_order_twenty :
    ∃ s, run (init false 30) (openedClient ++
        [.write (List.replicate 20 1), .mscCommand false, .mscResponse,
          .write (List.replicate 20 2)]) = some s ∧
      sentBytes s.log = List.replicate 20 1 ++ List.replicate 20 2 ∧
      sentBytes s.log <+: acceptedBytes s.log ∧
      (∀ payload credits peerMtu, Entry.data payload credits peerMtu ∈ s.log →
        payload.length ≤ peerMtu) ∧
      s.txQueueSize = (s.txQueue.map List.length).sum := by
  obtain ⟨s, hrun, hsent⟩ := (Option.any_eq_true _ _).mp (show (run (init false 30) (openedClient ++
    [.write (List.replicate 20 1), .mscCommand false, .mscResponse,
      .write (List.replicate 20 2)])).any (fun s =>
        sentBytes s.log == List.replicate 20 1 ++ List.replicate 20 2) from by decide +kernel)
  exact ⟨s, hrun, by simpa using hsent,
    bytes_sent_in_order _ s _ (fresh_init false 30) hrun (by decide +kernel)⟩

/-- The peer's MSC command comes before the confirmation: the second write overtakes the
first. -/
theorem write_overtakes :
    ∃ s, run (init false 30) (openedClient ++
        [.write (List.replicate 20 1), .mscCommand false, .write (List.replicate 20 2)]) = some s ∧
      sentBytes s.log = List.replicate 20 2 ∧
      acceptedBytes s.log = List.replicate 20 1 ++ List.replicate 20 2 ∧
      ¬ sentBytes s.log <+: acceptedBytes s.log := by
  obtain ⟨s, hrun, hs⟩ := (Option.any_eq_true _ _).mp (show (run (init false 30) (openedClient ++
    [.write (List.replicate 20 1), .mscCommand false, .write (List.replicate 20 2)])).any (fun s =>
      decide (sentBytes s.log = List.replicate 20 2 ∧
        acceptedBytes s.log = List.replicate 20 1 ++ List.replicate 20 2 ∧
        ¬ sentBytes s.log <+: acceptedBytes s.log)) from by decide +kernel)
  exact ⟨s, hrun, of_decide_eq_true hs⟩

end Dlc

end BluetoothStack.Rfcomm
