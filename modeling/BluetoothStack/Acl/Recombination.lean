import BluetoothStack.Acl.Assembler
import BluetoothStack.Acl.Fragmenter
import BluetoothStack.Lib.Runs

/-!
# BluetoothStack.Acl.Recombination

Recombination is the inverse of fragmentation.

The fragments of a PDU are a first part of it until the last one comes, and a first part is always
shorter than its header says (`checkSize_of_pdu`). So a stream of PDUs that are cut into non-empty
fragments is delivered as it is.

For streams of any kind, what is delivered has the size that its header says. The only assertion
that a packet can run into is in `Append`: a first fragment without a payload leaves a stage
without a view, to which nothing can be appended.
-/

namespace BluetoothStack.Acl

open BluetoothStack.Lib

/-! ### What the functions compute -/

/-- The bytes of the payload. -/
def AclView.payload (packet : AclView) : List UInt8 :=
  (packet.bytes.drop 4).take (aclPayloadSize packet.bytes)

theorem AclView.getPayload_eq (packet : AclView) :
    ∃ view, packet.getPayload = some view ∧ view.bytes = packet.payload := by
  have hsize : (PacketView.mk [packet.bytes]).size = packet.bytes.length := by
    simp [PacketView.size]
  have hbounds : 4 ≤ 4 + aclPayloadSize packet.bytes ∧
      4 + aclPayloadSize packet.bytes ≤ (PacketView.mk [packet.bytes]).size :=
    ⟨Nat.le_add_right _ _, hsize ▸ packet.valid⟩
  obtain ⟨views, hviews⟩ : ∃ views, (PacketView.mk [packet.bytes]).getSubviewList 4
      (4 + aclPayloadSize packet.bytes) = some views := ⟨_, if_pos hbounds⟩
  refine ⟨⟨views⟩, by rw [AclView.getPayload, hviews, Option.map_some], ?_⟩
  have hflat := PacketView.getSubviewList_flatten _ hviews
  rw [Nat.add_sub_cancel_left] at hflat
  simpa [PacketView.bytes, AclView.payload] using hflat

/-- The size of the payload that the bytes so far announce. -/
def announced (bytes : List UInt8) : Nat :=
  if bytes.length < 2 then kL2capBasicFrameHeaderSize else rd16 bytes 0

theorem getL2capPduSize_eq (pdu : PacketView) :
    getL2capPduSize pdu = some (announced pdu.bytes) := by
  rw [getL2capPduSize, PacketView.size_eq, announced]
  split
  · rfl
  next hlen =>
    rw [PacketView.at?_eq, PacketView.at?_eq]
    match hb : pdu.bytes with
    | [] => simp [hb] at hlen
    | [_] => simp [hb] at hlen
    | low :: high :: rest => simp [rd16, Nat.mul_comm, Nat.add_comm]

namespace Assembler

variable (a : Assembler)

/-- `checkSize` in terms of the bytes. -/
theorem checkSize_eq :
    a.checkSize = some (
      let bytes := a.recombinationStage.view.bytes
      let expected := announced bytes + kL2capBasicFrameHeaderSize
      if expected < bytes.length then { a with recombinationStage := .init }
      else if expected > bytes.length then a
      else if a.incomingQueue.length > kMaxQueuedPacketsPerConnection then
        { a with recombinationStage := .init }
      else ⟨.init, true, a.incomingQueue ++ [a.recombinationStage.view]⟩) := by
  rw [checkSize, getL2capPduSize_eq]
  simp only [PacketView.size_eq, Option.bind_eq_bind, Option.bind_some]
  split
  · rfl
  split
  · rfl
  split <;> rfl

end Assembler

/-! ### Any stream -/

/-- A packet whose size is what its header says. -/
def PacketView.Sized (packet : PacketView) : Prop :=
  packet.size = kL2capBasicFrameHeaderSize + rd16 packet.bytes 0

structure Link.Inv (l : Link) : Prop where
  registered : l.assembler.enqueueRegistered = true ↔ l.assembler.incomingQueue ≠ []
  sized : ∀ packet ∈ l.delivered ++ l.assembler.incomingQueue, packet.Sized

/-- A fragment is appended to a stage that has a view. -/
def Link.appendable (l : Link) : LinkEvent → Bool
  | .packet packet =>
    !(decide (packet.getBroadcastFlag ≠ .activePeripheralBroadcast) &&
      decide (packet.getPacketBoundaryFlag = .continuingFragment) &&
      l.assembler.recombinationStage.receivedFirst &&
      decide (l.assembler.recombinationStage.view.fragments = []))
  | .dataReady => true

variable {l : Link}

/-- `checkSize` delivers a packet that is as long as it announces, or none. -/
theorem Link.Inv.checkSize (hi : l.Inv) (stage : Stage) :
    ∃ a, { l.assembler with recombinationStage := stage }.checkSize = some a ∧
      Link.Inv ⟨a, l.delivered⟩ := by
  refine ⟨_, Assembler.checkSize_eq _, ?_⟩
  dsimp only
  split
  · exact ⟨hi.registered, hi.sized⟩
  split
  · exact ⟨hi.registered, hi.sized⟩
  split
  · exact ⟨hi.registered, hi.sized⟩
  rename_i hlt hgt hroom
  have hsize : stage.view.bytes.length = kL2capBasicFrameHeaderSize +
      announced stage.view.bytes := by
    omega
  refine ⟨by simp, ?_⟩
  intro packet hpacket
  rw [← List.append_assoc] at hpacket
  rcases List.mem_append.mp hpacket with hold | hnew
  · exact hi.sized packet hold
  · rw [List.mem_singleton.mp hnew, PacketView.Sized, PacketView.size_eq, hsize]
    have hlen : ¬ stage.view.bytes.length < 2 := by
      simp only [kL2capBasicFrameHeaderSize] at hsize
      omega
    rw [announced, if_neg hlen]

theorem Link.Inv.dataReady (hi : l.Inv) : ∃ l', l.step .dataReady = some l' ∧ l'.Inv := by
  rw [Link.step]
  split
  next hreg =>
    have hqueue := hi.registered.mp hreg
    have hsized := hi.sized
    rw [Assembler.onDataReady]
    cases hq : l.assembler.incomingQueue with
    | nil => exact absurd hq hqueue
    | cons packet queue =>
      refine ⟨_, rfl, ?_, ?_⟩
      · by_cases hrest : queue = []
        · simp [hrest]
        · simp [hrest, hreg]
      · intro p hp
        rw [hq] at hsized
        exact hsized p (by simpa using hp)
  · exact ⟨l, rfl, hi⟩

/-- A packet runs into an assertion exactly if there is nothing to append to. -/
theorem Link.Inv.packet (hi : l.Inv) (packet : AclView) :
    if l.appendable (.packet packet) then ∃ l', l.step (.packet packet) = some l' ∧ l'.Inv
    else l.step (.packet packet) = none := by
  obtain ⟨payload, hpayload, -⟩ := packet.getPayload_eq
  have hchecked : ∀ stage, ∃ l', ((Assembler.checkSize
      { l.assembler with recombinationStage := stage }).map fun a => { l with assembler := a }) =
        some l' ∧ l'.Inv := by
    intro stage
    obtain ⟨a, ha, hinv⟩ := hi.checkSize stage
    exact ⟨⟨a, l.delivered⟩, by rw [ha, Option.map_some], hinv⟩
  simp only [Link.appendable, Link.step, Assembler.onIncomingPacket, hpayload, Option.bind_eq_bind,
    Option.bind_some]
  by_cases hbroadcast : packet.getBroadcastFlag = .activePeripheralBroadcast
  · simp [hbroadcast, hi]
  simp only [if_neg hbroadcast]
  cases hflag : packet.getPacketBoundaryFlag with
  | firstNonAutomaticallyFlushable => simp [hi]
  | firstAutomaticallyFlushable => simpa [hbroadcast] using hchecked ⟨payload, true⟩
  | reserved => simpa [hbroadcast] using hchecked l.assembler.recombinationStage
  | continuingFragment =>
    cases hfirst : l.assembler.recombinationStage.receivedFirst with
    | false => simp [hbroadcast, hi]
    | true =>
      by_cases hviews : l.assembler.recombinationStage.view.fragments = []
      · simp [hbroadcast, hviews, PacketView.append_eq_none _ hviews]
      · obtain ⟨view, hview, -⟩ := PacketView.append_bytes _ payload hviews
        simpa [hbroadcast, hviews, hview] using hchecked ⟨view, true⟩

/-! ### A stream of PDUs -/

/-- A header whose length field is the number of bytes behind it. -/
def IsPdu (bytes : List UInt8) : Prop := bytes.length = kL2capBasicFrameHeaderSize + rd16 bytes 0

instance (bytes : List UInt8) : Decidable (IsPdu bytes) :=
  inferInstanceAs (Decidable (bytes.length = kL2capBasicFrameHeaderSize + rd16 bytes 0))

/-- A PDU in non-empty pieces. -/
structure IsCut (pieces : List (List UInt8)) : Prop where
  nonempty : ∀ f ∈ pieces, f ≠ []
  pdu : IsPdu pieces.flatten

/-- What the assembler reads from a packet. -/
abbrev Fragment := BroadcastFlag × PacketBoundaryFlag × List UInt8

def AclView.fragment (packet : AclView) : Fragment :=
  (packet.getBroadcastFlag, packet.getPacketBoundaryFlag, packet.payload)

def continuing (piece : List UInt8) : Fragment := (.pointToPoint, .continuingFragment, piece)

/-- The fragments of a PDU: a first one, and continuing ones. -/
def fragmentsOf : List (List UInt8) → List Fragment
  | [] => []
  | piece :: pieces =>
    (.pointToPoint, .firstAutomaticallyFlushable, piece) :: pieces.map continuing

/-- The stage, the fragments that are to come and the PDUs that they complete. -/
inductive Expects : Stage → List Fragment → List (List UInt8) → Prop
  | between {cuts : List (List (List UInt8))} (hcuts : ∀ c ∈ cuts, IsCut c) :
      Expects .init (cuts.flatMap fragmentsOf) (cuts.map List.flatten)
  | within {view : PacketView} {pieces : List (List UInt8)} {cuts : List (List (List UInt8))}
      (hviews : view.fragments ≠ []) (hmore : pieces ≠ []) (hpieces : ∀ f ∈ pieces, f ≠ [])
      (hpdu : IsPdu (view.bytes ++ pieces.flatten)) (hcuts : ∀ c ∈ cuts, IsCut c) :
      Expects ⟨view, true⟩ (pieces.map continuing ++ cuts.flatMap fragmentsOf)
        ((view.bytes ++ pieces.flatten) :: cuts.map List.flatten)

/-- A first part of a PDU announces more than it has. -/
theorem announced_of_pdu {bytes rest : List UInt8} (hpdu : IsPdu (bytes ++ rest))
    (hrest : rest ≠ []) : bytes.length < announced bytes + kL2capBasicFrameHeaderSize := by
  rw [IsPdu, List.length_append] at hpdu
  have hpos := List.length_pos_iff.mpr hrest
  rw [announced]
  split
  · simp only [kL2capBasicFrameHeaderSize]
    omega
  next hlen =>
    rw [rd16_append_left (by omega)] at hpdu
    omega

/-- A PDU is as long as it announces. -/
theorem announced_eq_of_pdu {bytes : List UInt8} (hpdu : IsPdu bytes) :
    announced bytes + kL2capBasicFrameHeaderSize = bytes.length := by
  rw [IsPdu] at hpdu
  have hlen : ¬ bytes.length < 2 := by
    simp only [kL2capBasicFrameHeaderSize] at hpdu
    omega
  rw [announced, if_neg hlen, hpdu, Nat.add_comm]

/-- Behind a fragment of a PDU the assembler waits for the next one, or has the PDU. -/
theorem Assembler.checkSize_of_pdu {a : Assembler} {view : PacketView} {pieces : List (List UInt8)}
    {cuts : List (List (List UInt8))} (hstage : a.recombinationStage = ⟨view, true⟩)
    (hroom : a.incomingQueue.length ≤ kMaxQueuedPacketsPerConnection)
    (hviews : view.fragments ≠ []) (hpieces : ∀ f ∈ pieces, f ≠ [])
    (hpdu : IsPdu (view.bytes ++ pieces.flatten)) (hcuts : ∀ c ∈ cuts, IsCut c) :
    ∃ a' todo, a.checkSize = some a' ∧
      Expects a'.recombinationStage (pieces.map continuing ++ cuts.flatMap fragmentsOf) todo ∧
      a'.incomingQueue.map PacketView.bytes ++ todo = a.incomingQueue.map PacketView.bytes ++
        (view.bytes ++ pieces.flatten) :: cuts.map List.flatten := by
  rw [checkSize_eq, hstage]
  dsimp only
  by_cases hmore : pieces = []
  · subst hmore
    rw [List.flatten_nil, List.append_nil] at hpdu
    have hsize := announced_eq_of_pdu hpdu
    rw [if_neg (by omega), if_neg (by omega), if_neg (by omega)]
    exact ⟨_, _, rfl, .between hcuts, by simp⟩
  · obtain ⟨piece, rest, rfl⟩ := List.exists_cons_of_ne_nil hmore
    have hsize := announced_of_pdu hpdu (by simp [hpieces piece])
    rw [if_neg (by omega), if_pos hsize]
    exact ⟨_, _, rfl, hstage ▸ .within hviews hmore hpieces hpdu hcuts, rfl⟩

/-- All PDUs that were completed. -/
def Link.received (l : Link) : List (List UInt8) :=
  (l.delivered ++ l.assembler.incomingQueue).map PacketView.bytes

theorem Expects.checked {view : PacketView} {pieces : List (List UInt8)}
    {cuts : List (List (List UInt8))}
    (hroom : l.assembler.incomingQueue.length ≤ kMaxQueuedPacketsPerConnection)
    (hviews : view.fragments ≠ []) (hpieces : ∀ f ∈ pieces, f ≠ [])
    (hpdu : IsPdu (view.bytes ++ pieces.flatten)) (hcuts : ∀ c ∈ cuts, IsCut c) :
    ∃ l' todo', ((Assembler.checkSize { l.assembler with recombinationStage := ⟨view, true⟩ }).map
        fun a => { l with assembler := a }) = some l' ∧
      Expects l'.assembler.recombinationStage
        (pieces.map continuing ++ cuts.flatMap fragmentsOf) todo' ∧
      l'.received ++ todo' =
        l.received ++ (view.bytes ++ pieces.flatten) :: cuts.map List.flatten := by
  obtain ⟨a', todo', ha', hexpects, hqueue⟩ := Assembler.checkSize_of_pdu
    (a := { l.assembler with recombinationStage := ⟨view, true⟩ }) rfl hroom hviews hpieces hpdu
    hcuts
  refine ⟨_, todo', by rw [ha', Option.map_some], hexpects, ?_⟩
  simp only [Link.received, List.map_append, List.append_assoc, hqueue]

/-- The next fragment is taken, and what was received and what is to come stays the same. -/
theorem Expects.packet {packet : AclView} {fragments : List Fragment} {todo : List (List UInt8)}
    (h : Expects l.assembler.recombinationStage (packet.fragment :: fragments) todo)
    (hroom : l.assembler.incomingQueue.length ≤ kMaxQueuedPacketsPerConnection) :
    ∃ l' todo', l.step (.packet packet) = some l' ∧
      Expects l'.assembler.recombinationStage fragments todo' ∧
      l'.received ++ todo' = l.received ++ todo := by
  obtain ⟨payload, hpayload, hbytes⟩ := packet.getPayload_eq
  generalize hstage : l.assembler.recombinationStage = stage at h
  generalize hall : packet.fragment :: fragments = all at h
  simp only [Link.step, Assembler.onIncomingPacket, hpayload, Option.bind_eq_bind, Option.bind_some,
    hstage]
  -- the fragment is the first one of a PDU, or continues the PDU that is being put together
  cases h with
  | @between cuts hcuts =>
    obtain ⟨pieces, cuts, rfl⟩ : ∃ pieces cuts', cuts = pieces :: cuts' := by
      cases cuts with
      | nil => cases hall
      | cons pieces cuts => exact ⟨pieces, cuts, rfl⟩
    obtain ⟨hcut, hrest⟩ := List.forall_mem_cons.mp hcuts
    cases pieces with
    | nil =>
      have := hcut.pdu
      simp [IsPdu, kL2capBasicFrameHeaderSize] at this
      omega
    | cons piece pieces =>
      simp only [List.flatMap_cons, fragmentsOf, List.cons_append, List.cons.injEq,
        AclView.fragment, Prod.mk.injEq] at hall
      obtain ⟨⟨hbroadcast, hflag, hpiece⟩, rfl⟩ := hall
      rw [← hbytes] at hpiece
      have hviews : payload.fragments ≠ [] := by
        intro hnil
        refine hcut.nonempty piece List.mem_cons_self ?_
        rw [← hpiece, PacketView.bytes, hnil, List.flatten_nil]
      have hpdu := hcut.pdu
      rw [List.flatten_cons, ← hpiece] at hpdu
      simp only [hbroadcast, reduceCtorEq, if_false, hflag]
      rw [List.map_cons, List.flatten_cons, ← hpiece]
      exact Expects.checked hroom hviews (fun f hf => hcut.nonempty f (List.mem_cons_of_mem _ hf))
        hpdu hrest
  | @within view pieces cuts hviews hmore hpieces hpdu hcuts =>
    obtain ⟨piece, pieces, rfl⟩ := List.exists_cons_of_ne_nil hmore
    simp only [List.map_cons, continuing, List.cons_append, List.cons.injEq, AclView.fragment,
      Prod.mk.injEq] at hall
    obtain ⟨⟨hbroadcast, hflag, hpiece⟩, rfl⟩ := hall
    rw [← hbytes] at hpiece
    obtain ⟨view', hview', hbytes'⟩ := PacketView.append_bytes view payload hviews
    rw [hpiece] at hbytes'
    have hviews' : view'.fragments ≠ [] := by
      intro hnil
      refine hpieces piece List.mem_cons_self (List.append_eq_nil_iff.mp (hbytes'.symm.trans ?_)).2
      rw [PacketView.bytes, hnil, List.flatten_nil]
    have hsplit : view.bytes ++ (piece :: pieces).flatten = view'.bytes ++ pieces.flatten := by
      rw [hbytes', List.flatten_cons, List.append_assoc]
    rw [hsplit] at hpdu ⊢
    simp only [hbroadcast, reduceCtorEq, if_false, hflag, Bool.not_true, Bool.false_eq_true, hview',
      Option.bind_some]
    exact Expects.checked hroom hviews' (fun f hf => hpieces f (List.mem_cons_of_mem _ hf)) hpdu
      hcuts

/-- The upper layer takes a packet, which stays received. -/
theorem Link.Inv.received_dataReady {l' : Link} (hstep : l.step .dataReady = some l') :
    l'.received = l.received ∧
      l'.assembler.recombinationStage = l.assembler.recombinationStage := by
  rw [Link.step] at hstep
  split at hstep
  · obtain ⟨⟨packet, a⟩, ha, rfl⟩ := Option.map_eq_some_iff.mp hstep
    rw [Assembler.onDataReady] at ha
    split at ha
    · cases ha
    next queue hqueue =>
      cases ha
      simp [Link.received, hqueue]
  · cases hstep
    exact ⟨rfl, rfl⟩

/-- The packets among the events. -/
def LinkEvent.packet? : LinkEvent → Option AclView
  | .packet p => some p
  | .dataReady => none

/-- The queue is within its bound. -/
def Link.drained (l : Link) (_ : LinkEvent) : Bool :=
  decide (l.assembler.incomingQueue.length ≤ kMaxQueuedPacketsPerConnection)

theorem Expects.run (hi : l.Inv) {events : List LinkEvent} {todo : List (List UInt8)}
    (h : Expects l.assembler.recombinationStage
      ((events.filterMap LinkEvent.packet?).map AclView.fragment) todo)
    (hdrained : allSteps Link.step Link.drained l events) :
    ∃ l', events.foldlM Link.step l = some l' ∧ l'.received = l.received ++ todo := by
  induction events generalizing l todo with
  | nil =>
    refine ⟨l, rfl, ?_⟩
    -- nothing is to come, so the assembler is between two PDUs
    generalize hstage : l.assembler.recombinationStage = stage at h
    generalize hnone : (([] : List LinkEvent).filterMap LinkEvent.packet?).map AclView.fragment =
      fragments at h
    cases h with
    | @between cuts hcuts =>
      cases cuts with
      | nil => simp
      | cons pieces cuts =>
        have hpdu := (hcuts pieces List.mem_cons_self).pdu
        cases pieces with
        | nil =>
          simp [IsPdu, kL2capBasicFrameHeaderSize] at hpdu
          omega
        | cons piece pieces => simp [fragmentsOf] at hnone
    | @within view pieces cuts hviews hmore hpieces hpdu hcuts =>
      obtain ⟨piece, pieces, rfl⟩ := List.exists_cons_of_ne_nil hmore
      simp at hnone
  | cons e events ih =>
    simp only [allSteps, Bool.and_eq_true, Link.drained, decide_eq_true_eq] at hdrained
    obtain ⟨hroom, hdrained⟩ := hdrained
    cases e with
    | packet packet =>
      obtain ⟨l', todo', hstep, hexpects, hreceived⟩ := h.packet hroom
      have hinv := hi.packet packet
      rw [hstep] at hinv hdrained
      split at hinv
      · obtain ⟨l'', hl'', hinv⟩ := hinv
        cases hl''
        obtain ⟨l'', hrun, hall⟩ := ih hinv hexpects hdrained
        refine ⟨l'', ?_, hall.trans hreceived⟩
        rw [List.foldlM_cons, hstep]
        exact hrun
      · cases hinv
    | dataReady =>
      obtain ⟨l', hstep, hinv⟩ := hi.dataReady
      obtain ⟨hreceived, hstage⟩ := Link.Inv.received_dataReady hstep
      rw [hstep] at hdrained
      rw [← hstage] at h
      obtain ⟨l'', hrun, hall⟩ := ih hinv h hdrained
      refine ⟨l'', ?_, hall.trans (by rw [hreceived])⟩
      rw [List.foldlM_cons, hstep]
      exact hrun

theorem Link.Inv.init : Link.init.Inv := ⟨by simp [Link.init], by simp [Link.init]⟩

theorem Link.Inv.step {l' : Link} (e : LinkEvent) (hi : l.Inv) (hstep : l.step e = some l') :
    l'.Inv := by
  cases e with
  | packet packet =>
    have hpacket := hi.packet packet
    rw [hstep] at hpacket
    split at hpacket
    · obtain ⟨l'', hl'', hinv⟩ := hpacket
      cases hl''
      exact hinv
    · cases hpacket
  | dataReady =>
    obtain ⟨l'', hl'', hinv⟩ := hi.dataReady
    cases hl''.symm.trans hstep
    exact hinv

theorem Link.Inv.step_isSome_iff (e : LinkEvent) (hi : l.Inv) :
    (l.step e).isSome ↔ l.appendable e := by
  cases e with
  | packet packet =>
    have hpacket := hi.packet packet
    split at hpacket
    next happ =>
      obtain ⟨l', hl', -⟩ := hpacket
      simp [hl', happ]
    next happ => simp [hpacket, happ]
  | dataReady =>
    obtain ⟨l', hl', -⟩ := hi.dataReady
    simp [hl', Link.appendable]

/-- PDUs that are cut into a first and continuing fragments of any sizes, which the fragmenter
does, are delivered each once and in order, if the queue is drained in time. In a stream of any
kind the delivered packets have the size that their header says; it goes through without an
assertion exactly if every continuing fragment is appended to a stage with a view. -/
theorem recombination_exact (events : List LinkEvent) :
    (∀ cuts : List (List (List UInt8)), (∀ c ∈ cuts, IsCut c) →
      (events.filterMap LinkEvent.packet?).map AclView.fragment = cuts.flatMap fragmentsOf →
      allSteps Link.step Link.drained Link.init events →
      ∃ l, events.foldlM Link.step Link.init = some l ∧ l.received = cuts.map List.flatten) ∧
    (∀ mtu pdu, 1 ≤ mtu → IsPdu pdu →
      IsCut (getFragments mtu pdu) ∧ (getFragments mtu pdu).flatten = pdu) ∧
    ((events.foldlM Link.step Link.init).isSome ↔
      allSteps Link.step Link.appendable Link.init events) ∧
    ∀ l, events.foldlM Link.step Link.init = some l → ∀ packet ∈ l.delivered, packet.Sized := by
  have hgoes : (events.foldlM Link.step Link.init).isSome ↔
      allSteps Link.step Link.appendable Link.init events :=
    foldlM_isSome_iff (fun _ e _ hi hstep => hi.step e hstep) (fun _ e hi => hi.step_isSome_iff e)
      events Link.Inv.init
  refine ⟨?_, ?_, hgoes, ?_⟩
  · intro cuts hcuts hfragments hdrained
    exact Expects.run .init (hfragments ▸ .between hcuts) hdrained
  · intro mtu pdu hmtu hpdu
    obtain ⟨hflatten, hpieces⟩ := getFragments_spec hmtu pdu
    exact ⟨⟨fun f hf => (hpieces f hf).1, hflatten.symm ▸ hpdu⟩, hflatten⟩
  · intro l hl packet hpacket
    have hinv : l.Inv := run_invariant (fun _ e _ hi _ hstep => hi.step e hstep) Link.Inv.init
      (hgoes.mp (by rw [hl]; rfl)) hl
    exact hinv.sized packet (List.mem_append_left _ hpacket)

/-- Buffers from the controller. -/
def packetsOf (buffers : List (List UInt8)) : List LinkEvent :=
  (buffers.filterMap AclView.ofBytes?).map .packet

/-- Two PDUs: one in three fragments with its header cut, one in a single fragment. -/
theorem recombination_exact_two :
    let events := packetsOf [[1, 0x20, 1, 0, 2], [1, 0x10, 2, 0, 0, 4], [1, 0x10, 3, 0, 0, 7, 8],
      [1, 0x20, 4, 0, 0, 0, 4, 0]]
    ∃ l, events.foldlM Link.step Link.init = some l ∧
      l.received = [[2, 0, 4, 0, 7, 8], [0, 0, 4, 0]] := by
  refine (recombination_exact _).1 [[[2], [0, 4], [0, 7, 8]], [[0, 0, 4, 0]]] ?_ ?_ ?_
  · intro c hc
    simp only [List.mem_cons, List.not_mem_nil, or_false] at hc
    rcases hc with rfl | rfl
    · exact ⟨by decide, by decide⟩
    · exact ⟨by decide, by decide⟩
  · decide +kernel
  · decide +kernel

/-- A first fragment without a payload, and a continuing one. -/
theorem empty_first_fragment_aborts :
    (packetsOf [[1, 0x20, 0, 0], [1, 0x10, 1, 0, 7]]).foldlM Link.step Link.init = none := by
  decide +kernel

end BluetoothStack.Acl
