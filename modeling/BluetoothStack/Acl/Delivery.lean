import BluetoothStack.Acl.Recombination
import BluetoothStack.Acl.RoundRobinCredits

/-!
# BluetoothStack.Acl.Delivery

From the scheduler of one device to the assembler of the other. The scheduler of outgoing packets
serves all connections in turn, cuts the packets and sends the fragments as credits allow; the
assembler of a connection on the far side puts the fragments together again. What a connection
hands to the scheduler arrives there, packet by packet and in order, whatever the other
connections do in between: they may come, go, send and change their priority.
-/

namespace BluetoothStack.Acl

open BluetoothStack.Lib

/-- What arrives of a fragment: on the way into the other host a first fragment gets the flag of
an automatically flushable one. -/
def PacketFragment.onAir (f : PacketFragment) : Fragment :=
  (.pointToPoint,
    if f.packetBoundaryFlag = .continuingFragment then .continuingFragment
    else .firstAutomaticallyFlushable,
    f.payload)

namespace RoundRobinScheduler

variable {b : Buffers} {s s' : RoundRobinScheduler}

/-- The fragments of a connection. -/
def ofHandle (handle : Nat) (fragments : List PacketFragment) : List PacketFragment :=
  fragments.filter fun f => decide (f.handle = handle)

/-- The fragments of a connection that were sent or wait for it. -/
def stream (handle : Nat) (s : RoundRobinScheduler) : List PacketFragment :=
  ofHandle handle (s.sent ++ s.fragmentsToSend.items)

/-- The packet of a connection that the scheduler takes in a step. -/
def taken (handle : Nat) (s : RoundRobinScheduler) : SchedulerEvent → List (List UInt8)
  | .packet h packet =>
    if h = handle ∧ (s.find h).any AclQueueHandler.dequeueIsRegistered then [packet.bytes] else []
  | _ => []

/-- The packets of a connection that it takes in a run. -/
def takenAlong (handle : Nat) (s : RoundRobinScheduler) : List SchedulerEvent → List (List UInt8)
  | [] => []
  | e :: es => s.taken handle e ++ ((s.step e).map fun s' => takenAlong handle s' es).getD []

/-! ### What a step does to the fragments -/

/-- A change that is not about the fragments. -/
structure SameFragments (s s' : RoundRobinScheduler) : Prop where
  sent : s'.sent = s.sent
  queue : s'.fragmentsToSend = s.fragmentsToSend
  mtu : ∀ t, s'.mtu t = s.mtu t

theorem SameFragments.refl (s : RoundRobinScheduler) : SameFragments s s := ⟨rfl, rfl, fun _ => rfl⟩

theorem SameFragments.trans {s'' : RoundRobinScheduler} (h : SameFragments s s')
    (h' : SameFragments s' s'') : SameFragments s s'' :=
  ⟨h'.sent.trans h.sent, h'.queue.trans h.queue, fun t => (h'.mtu t).trans (h.mtu t)⟩

theorem SameFragments.stream (h : SameFragments s s') (handle : Nat) :
    s'.stream handle = s.stream handle := by
  rw [RoundRobinScheduler.stream, h.sent, h.queue, RoundRobinScheduler.stream]

theorem sameFragments_startRoundRobin (s : RoundRobinScheduler) :
    SameFragments s s.startRoundRobin := by
  unfold RoundRobinScheduler.startRoundRobin
  split
  · exact .refl s
  split
  · split
    · exact .refl s
    · exact ⟨rfl, rfl, fun t => by cases t <;> rfl⟩
  · split
    · exact .refl s
    · exact ⟨rfl, rfl, fun t => by cases t <;> rfl⟩

theorem sameFragments_register {t : ConnectionType} {handle : Nat}
    (hrun : s.register t handle = some s') : SameFragments s s' := by
  have hinsert (h : AclQueueHandler) : SameFragments s (s.insert h) :=
    ⟨rfl, rfl, fun t => by cases t <;> rfl⟩
  unfold RoundRobinScheduler.register at hrun
  split at hrun
  · cases hrun
  dsimp only at hrun
  split at hrun
  · cases hrun
    exact (hinsert _).trans (sameFragments_startRoundRobin _)
  · cases hrun
    exact hinsert _

theorem sameFragments_incomingAclCredits (s : RoundRobinScheduler) (handle n : Nat) :
    SameFragments s (s.incomingAclCredits handle n) := by
  unfold RoundRobinScheduler.incomingAclCredits
  split
  · exact .refl s
  dsimp only
  split
  · refine SameFragments.trans ?_ (sameFragments_startRoundRobin _)
    exact ⟨rfl, rfl, fun t => by cases t <;> rfl⟩
  · exact ⟨rfl, rfl, fun t => by cases t <;> rfl⟩

/-- A connection that goes takes its fragments with it, and no others. -/
theorem Inv.items_dropPacketFragments (hi : s.Inv b) (handle : Nat) :
    (s.dropPacketFragments handle).fragmentsToSend.items =
      s.fragmentsToSend.items.filter fun f => decide (f.handle ≠ handle) := by
  unfold RoundRobinScheduler.dropPacketFragments
  split
  next hempty =>
    rw [List.length_eq_zero_iff.mp hempty]
    rfl
  next hsome =>
    obtain ⟨first, rest, hitems⟩ :=
      List.exists_cons_of_ne_nil (fun hnil => hsome (congrArg List.length hnil))
    -- one packet has one priority, so the new queue keeps the order
    refine MultiPriorityQueue.items_foldl_push _ rfl (p := first.highPriority) fun f hf => ?_
    exact (hi.onePacket f (List.mem_filter.mp hf).1 first
      (hitems ▸ List.mem_cons_self)).highPriority

theorem Inv.stream_unregister (hi : s.Inv b) {handle other : Nat} (hne : other ≠ handle)
    (hrun : s.unregister other = some s') :
    s'.stream handle = s.stream handle ∧ ∀ t, s'.mtu t = s.mtu t := by
  have hdrop : (s.dropPacketFragments other).stream handle = s.stream handle ∧
      ∀ t, (s.dropPacketFragments other).mtu t = s.mtu t := by
    have hsent : (s.dropPacketFragments other).sent = s.sent := by
      unfold RoundRobinScheduler.dropPacketFragments
      split <;> rfl
    constructor
    · rw [stream, stream, hsent, hi.items_dropPacketFragments, ofHandle, ofHandle,
        List.filter_append, List.filter_append, List.filter_filter]
      refine congrArg _ (List.filter_congr fun f _ => ?_)
      rw [Bool.eq_iff_iff]
      simp only [Bool.and_eq_true, decide_eq_true_eq]
      exact ⟨fun h => h.1, fun h => ⟨h, fun heq => hne (heq.symm.trans h)⟩⟩
    · intro t
      unfold RoundRobinScheduler.dropPacketFragments
      cases t <;> split <;> rfl
  unfold RoundRobinScheduler.unregister at hrun
  split at hrun
  · cases hrun
  dsimp only at hrun
  generalize s.dropPacketFragments other = d at hdrop hrun
  obtain ⟨h, -, hrun⟩ := Option.map_eq_some_iff.mp hrun
  have hsame : SameFragments d s' := by
    split at hrun
    · rw [← hrun]
      refine SameFragments.trans ?_ (sameFragments_startRoundRobin _)
      exact ⟨rfl, rfl, fun t => by cases t <;> rfl⟩
    · rw [← hrun]
      exact ⟨rfl, rfl, fun t => by cases t <;> rfl⟩
  exact ⟨(hsame.stream handle).trans hdrop.1, fun t => (hsame.mtu t).trans (hdrop.2 t)⟩

theorem Inv.stream_enqueue (hi : s.Inv b) (hreg : s.enqueueRegistered)
    (hrun : s.handleEnqueueNextFragment = some s') (handle : Nat) :
    s'.stream handle = s.stream handle ∧ ∀ t, s'.mtu t = s.mtu t := by
  obtain ⟨f, hfront, hcredits⟩ := hi.enqueue hreg
  obtain ⟨rest, hitems⟩ := List.head?_eq_some_iff.mp hfront
  have hsend : (s.sendFront f).stream handle = s.stream handle ∧
      ∀ t, (s.sendFront f).mtu t = s.mtu t := by
    refine ⟨?_, fun t => by cases t <;> rfl⟩
    rw [stream, stream, items_sendFront hitems, hitems]
    exact congrArg (ofHandle handle) (List.append_assoc s.sent [f] rest)
  unfold RoundRobinScheduler.handleEnqueueNextFragment at hrun
  rw [show s.fragmentsToSend.front? = some f from hfront] at hrun
  dsimp only at hrun
  rw [if_neg hcredits.ne'] at hrun
  have hsame : SameFragments (s.sendFront f) s' := by
    split at hrun
    · cases hrun
      exact ⟨rfl, rfl, fun t => by cases t <;> rfl⟩
    · split at hrun
      · cases hrun
        exact ⟨rfl, rfl, fun t => by cases t <;> rfl⟩
      · cases hrun
        exact .refl _
  exact ⟨(hsame.stream handle).trans hsend.1, fun t => (hsame.mtu t).trans (hsend.2 t)⟩

/-- A packet is taken when nothing waits. -/
theorem Inv.stream_packet (hi : s.Inv b) {h : AclQueueHandler} {other : Nat}
    (hfind : s.find other = some h) (hreg : h.dequeueIsRegistered) {packet : OutgoingPacket}
    (hrun : s.bufferPacket other packet = some s') (handle : Nat) :
    s'.stream handle = s.stream handle ++ ofHandle handle (s.fragment h packet) ∧
      ∀ t, s'.mtu t = s.mtu t := by
  obtain ⟨hmem, -⟩ := mem_of_find hfind
  obtain ⟨hempty, -⟩ := hi.dequeue h hmem hreg
  obtain ⟨q, hitems, hbuffer⟩ := bufferPacket_eq hfind hempty packet
  cases hbuffer.symm.trans hrun
  refine ⟨?_, fun t => by cases t <;> rfl⟩
  rw [stream, stream, hempty, List.append_nil]
  change ofHandle handle (s.sent ++ q.items) = _
  rw [hitems, ofHandle, List.filter_append]
  rfl

/-- **One step.** Behind the fragments of a connection come those of the packet that was taken from
it, if one was; nothing else changes them. -/
theorem Inv.stream_step (hi : s.Inv b) {e : SchedulerEvent} {handle : Nat}
    (hkeep : e ≠ .unregister handle) (hrun : s.step e = some s') :
    (∀ t, s'.mtu t = s.mtu t) ∧
      (s'.stream handle = s.stream handle ∧ s.taken handle e = [] ∨
        ∃ h packet, s'.stream handle = s.stream handle ++ s.fragment h packet ∧
          s.taken handle e = [packet.bytes]) := by
  cases e with
  | register t other =>
    have hsame := sameFragments_register hrun
    exact ⟨hsame.mtu, Or.inl ⟨hsame.stream handle, rfl⟩⟩
  | unregister other =>
    obtain ⟨hstream, hmtu⟩ := hi.stream_unregister
      (fun heq => hkeep (congrArg SchedulerEvent.unregister heq)) hrun
    exact ⟨hmtu, Or.inl ⟨hstream, rfl⟩⟩
  | setLinkPriority other highPriority =>
    cases hrun
    exact ⟨fun t => by cases t <;> rfl, Or.inl ⟨rfl, rfl⟩⟩
  | packet other packet =>
    simp only [RoundRobinScheduler.step] at hrun
    split at hrun
    next hreg =>
      obtain ⟨h, hfind, hdequeue⟩ : ∃ h, s.find other = some h ∧ h.dequeueIsRegistered := by
        cases hfind : s.find other with
        | none => simp [hfind] at hreg
        | some h => exact ⟨h, rfl, by simpa [hfind] using hreg⟩
      obtain ⟨-, hkey⟩ := mem_of_find hfind
      obtain ⟨hstream, hmtu⟩ := hi.stream_packet hfind hdequeue hrun handle
      refine ⟨hmtu, ?_⟩
      by_cases hother : other = handle
      · -- the fragments have the handle of their connection
        refine Or.inr ⟨h, packet, ?_, if_pos ⟨hother, hreg⟩⟩
        rw [hstream, ofHandle, List.filter_eq_self.mpr]
        intro f hf
        exact decide_eq_true ((mem_fragment hf).2.1.trans (hkey.trans hother))
      · refine Or.inl ⟨?_, if_neg fun hand => hother hand.1⟩
        rw [hstream, ofHandle, List.filter_eq_nil_iff.mpr, List.append_nil]
        intro f hf heq
        exact hother (hkey.symm.trans ((mem_fragment hf).2.1.symm.trans (of_decide_eq_true heq)))
    next hreg =>
      cases hrun
      exact ⟨fun _ => rfl, Or.inl ⟨rfl, if_neg fun hand => hreg hand.2⟩⟩
  | enqueue =>
    simp only [RoundRobinScheduler.step] at hrun
    split at hrun
    next hreg =>
      obtain ⟨hstream, hmtu⟩ := hi.stream_enqueue hreg hrun handle
      exact ⟨hmtu, Or.inl ⟨hstream, rfl⟩⟩
    next =>
      cases hrun
      exact ⟨fun _ => rfl, Or.inl ⟨rfl, rfl⟩⟩
  | startRoundRobin =>
    simp only [RoundRobinScheduler.step] at hrun
    split at hrun
    · cases hrun
      have hsame := sameFragments_startRoundRobin { s with posted := s.posted - 1 }
      refine ⟨fun t => (hsame.mtu t).trans (by cases t <;> rfl), Or.inl ⟨?_, rfl⟩⟩
      exact hsame.stream handle
    · cases hrun
      exact ⟨fun _ => rfl, Or.inl ⟨rfl, rfl⟩⟩
  | completed other n =>
    cases hrun
    have hsame := sameFragments_incomingAclCredits s other n
    exact ⟨hsame.mtu, Or.inl ⟨hsame.stream handle, rfl⟩⟩

/-! ### The fragments of a packet on the air -/

/-- The fragments of a PDU arrive as a cut of it. -/
theorem onAir_fragment {h : AclQueueHandler} (hmtu : 1 ≤ s.mtu h.connectionType)
    {packet : OutgoingPacket} (hpdu : IsPdu packet.bytes) :
    ∃ pieces, IsCut pieces ∧ pieces.flatten = packet.bytes ∧
      (s.fragment h packet).map PacketFragment.onAir = fragmentsOf pieces := by
  have hne : packet.bytes ≠ [] := by
    intro hnil
    rw [IsPdu, hnil, kL2capBasicFrameHeaderSize, List.length_nil] at hpdu
    omega
  obtain ⟨pieces, hpieces, hcut⟩ : ∃ pieces,
      (if packet.bytes.length ≤ s.mtu h.connectionType then [packet.bytes]
        else getFragments (s.mtu h.connectionType) packet.bytes) = pieces ∧
      pieces.flatten = packet.bytes ∧ ∀ f ∈ pieces, f ≠ [] := by
    refine ⟨_, rfl, ?_⟩
    split
    · exact ⟨by simp, by simpa using hne⟩
    · obtain ⟨hflatten, hsome⟩ := getFragments_spec hmtu packet.bytes
      exact ⟨hflatten, fun f hf => (hsome f hf).1⟩
  refine ⟨pieces, ⟨hcut.2, hcut.1 ▸ hpdu⟩, hcut.1, ?_⟩
  unfold RoundRobinScheduler.fragment
  dsimp only
  rw [hpieces]
  cases pieces with
  | nil => rfl
  | cons piece pieces =>
    rw [List.mapIdx_cons, List.map_cons, fragmentsOf]
    refine congrArg₂ _ ?_ ?_
    · unfold PacketFragment.onAir
      cases packet.isFlushable <;> rfl
    · refine List.ext_getElem (by simp) fun i _ _ => ?_
      simp [PacketFragment.onAir, continuing]

/-! ### Runs -/

/-- **A run.** The fragments of a connection that is kept are cuts of the packets that were taken
from it, one after the other. -/
theorem Inv.stream_run (hi : s.Inv b) {events : List SchedulerEvent} {handle : Nat}
    (hmtu : ∀ t, 1 ≤ s.mtu t) (hproper : allSteps RoundRobinScheduler.step proper s events)
    (hkeep : ∀ e ∈ events, e ≠ .unregister handle)
    (hpdus : ∀ p ∈ takenAlong handle s events, IsPdu p)
    (hrun : events.foldlM RoundRobinScheduler.step s = some s') :
    ∃ cuts : List (List (List UInt8)), (∀ c ∈ cuts, IsCut c) ∧
      cuts.map List.flatten = takenAlong handle s events ∧
      (s'.stream handle).map PacketFragment.onAir =
        (s.stream handle).map PacketFragment.onAir ++ cuts.flatMap fragmentsOf := by
  induction events generalizing s with
  | nil =>
    cases hrun
    exact ⟨[], by simp, rfl, by simp⟩
  | cons e es ih =>
    simp only [List.foldlM_cons, Option.bind_eq_bind, Option.bind_eq_some_iff] at hrun
    obtain ⟨s₁, hs₁, hrest⟩ := hrun
    simp only [allSteps, hs₁, Bool.and_eq_true] at hproper
    have htaken : takenAlong handle s (e :: es) = s.taken handle e ++ takenAlong handle s₁ es := by
      rw [takenAlong, hs₁]
      rfl
    rw [htaken] at hpdus ⊢
    obtain ⟨hsame, hstep⟩ := hi.stream_step (hkeep e List.mem_cons_self) hs₁
    obtain ⟨cuts, hcuts, hflatten, hstream⟩ := ih (hi.step hproper.1 hs₁)
      (fun t => (hsame t).symm ▸ hmtu t) hproper.2
      (fun e' he' => hkeep e' (List.mem_cons_of_mem e he'))
      (fun p hp => hpdus p (List.mem_append_right _ hp)) hrest
    -- a step adds nothing to the stream, or the fragments of one packet
    rcases hstep with ⟨hnone, hempty⟩ | ⟨h, packet, hmore, hone⟩
    · refine ⟨cuts, hcuts, ?_, ?_⟩
      · rw [hempty, hflatten, List.nil_append]
      · rw [hstream, hnone]
    · rw [hone] at hpdus ⊢
      obtain ⟨pieces, hcut, hbytes, hair⟩ := onAir_fragment (hmtu h.connectionType)
        (hpdus packet.bytes (List.mem_append_left _ List.mem_cons_self))
      refine ⟨pieces :: cuts, ?_, ?_, ?_⟩
      · exact List.forall_mem_cons.mpr ⟨hcut, hcuts⟩
      · rw [List.map_cons, hbytes, hflatten]
        rfl
      · rw [hstream, hmore, List.map_append, hair, List.flatMap_cons, List.append_assoc]

/-- **Delivery.** Let the scheduler run in any way with proper steps, for any connections, where one
is registered and kept, and let nothing of it wait at the end. If the assembler on the other side
gets what was sent of this connection and is drained in time, then it has received the packets that
were taken from the connection: each once, whole, and in order. -/
theorem packets_delivered {events : List SchedulerEvent} {handle : Nat} {arrivals : List LinkEvent}
    (hlength : 1 ≤ b.aclPacketLength.toNat ∧ 1 ≤ b.leDataPacketLength.toNat)
    (hproper : allSteps RoundRobinScheduler.step proper (init b) events)
    (hkeep : ∀ e ∈ events, e ≠ .unregister handle)
    (hpdus : ∀ p ∈ takenAlong handle (init b) events, IsPdu p)
    (hrun : events.foldlM RoundRobinScheduler.step (init b) = some s) (hidle : s.queued handle = 0)
    (hair : (arrivals.filterMap LinkEvent.packet?).map AclView.fragment =
      (ofHandle handle s.sent).map PacketFragment.onAir)
    (hdrained : allSteps Link.step Link.drained Link.init arrivals) :
    ∃ l, arrivals.foldlM Link.step Link.init = some l ∧
      l.received = takenAlong handle (init b) events := by
  have hmtu (t : ConnectionType) : 1 ≤ (init b).mtu t := by
    cases t with
    | classic => exact hlength.1
    | le => exact hlength.2
  obtain ⟨cuts, hcuts, hflatten, hstream⟩ :=
    (inv_init b).stream_run hmtu hproper hkeep hpdus hrun
  have hsent : s.stream handle = ofHandle handle s.sent := by
    rw [queued_eq_length, List.length_eq_zero_iff] at hidle
    rw [stream, ofHandle, List.filter_append, hidle, List.append_nil]
    rfl
  rw [hsent, ← hair] at hstream
  have hexpects : Expects Link.init.assembler.recombinationStage
      ((arrivals.filterMap LinkEvent.packet?).map AclView.fragment) (cuts.map List.flatten) := by
    rw [hstream]
    exact Expects.between hcuts
  obtain ⟨l, hl, hreceived⟩ := hexpects.run Link.Inv.init hdrained
  exact ⟨l, hl, hreceived.trans hflatten⟩

/-- Two connections; the first sends a PDU in two fragments, and the second goes again. -/
def twoConnections : List SchedulerEvent :=
  [.register .classic 1, .register .le 2, .packet 1 ⟨[1, 0, 4, 0, 0xaa], false⟩, .enqueue, .enqueue,
    .startRoundRobin, .packet 2 ⟨[0, 0, 4, 0], false⟩, .enqueue, .unregister 2]

/-- What arrives of the first. -/
def firstArrivals : List LinkEvent :=
  [.packet ⟨[1, 0x20, 3, 0, 1, 0, 4], by decide⟩, .packet ⟨[1, 0x10, 2, 0, 0, 0xaa], by decide⟩,
    .dataReady]

theorem twoConnections_delivered :
    ∃ l, firstArrivals.foldlM Link.step Link.init = some l ∧ l.received = [[1, 0, 4, 0, 0xaa]] := by
  have hsent : (twoConnections.foldlM RoundRobinScheduler.step (init ⟨4, 3, 4, 27⟩)).map (fun s =>
      ((ofHandle 1 s.sent).map PacketFragment.onAir, s.queued 1)) =
        some ((firstArrivals.filterMap LinkEvent.packet?).map AclView.fragment, 0) := by
          decide +kernel
  obtain ⟨s, hrun, hpair⟩ := Option.map_eq_some_iff.mp hsent
  obtain ⟨hair, hidle⟩ := Prod.mk.inj hpair
  exact packets_delivered (by decide) (by decide +kernel) (by decide) (by decide +kernel)
    hrun hidle hair.symm (by decide +kernel)

end RoundRobinScheduler

end BluetoothStack.Acl
