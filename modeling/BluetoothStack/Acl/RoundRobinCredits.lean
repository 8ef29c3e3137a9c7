import BluetoothStack.Acl.RoundRobin
import BluetoothStack.Lib.Runs

/-!
# BluetoothStack.Acl.RoundRobinCredits

The credits of the scheduler over whole runs.

A credit is with the scheduler or stands for a fragment that the controller has. A connection's
`number_of_sent_packets_` counts the fragments from the moment they are buffered, so those that
still wait in `fragments_to_send_` are taken off again (`held`). The invariant `Inv` says that the
credits and what the connections hold add up to the buffers of the controller, and that the queue
holds the rest of one packet. Each step keeps it if no counter of 16 bits overflows and the
controller does not complete what the registered connection has not sent (`proper`).
-/

namespace BluetoothStack.Acl

open BluetoothStack.Lib

/-! ### The queue by its items -/

namespace MultiPriorityQueue

variable {α : Type} (q : MultiPriorityQueue α)

theorem items_pop : q.pop.items = q.items.tail := by
  unfold pop items
  split
  next hhigh => simp [hhigh]
  next hhigh => exact (List.tail_append_of_ne_nil hhigh).symm

theorem high_low_of_items (h : q.items = []) : q.high = [] ∧ q.low = [] := by
  simpa [items] using h

/-- Items of one priority, pushed into an empty queue, leave in the order they came. -/
theorem items_foldl_push {priority : α → Bool} {p : Bool} {l : List α} (hq : q.items = [])
    (hl : ∀ a ∈ l, priority a = p) :
    (l.foldl (fun q a => q.push a (priority a)) q).items = l := by
  have hfold : ∀ q : MultiPriorityQueue α, l.foldl (fun q a => q.push a (priority a)) q =
      if p then { q with high := q.high ++ l } else { q with low := q.low ++ l } := by
    induction l with
    | nil =>
      intro q
      simp
    | cons a l ih =>
      intro q
      rw [List.foldl_cons, ih fun b hb => hl b (List.mem_cons_of_mem a hb), hl a List.mem_cons_self]
      cases p <;> simp [push]
  obtain ⟨hhigh, hlow⟩ := q.high_low_of_items hq
  rw [hfold]
  cases p <;> simp [items, hhigh, hlow]

end MultiPriorityQueue

/-! ### Fragments of a packet -/

/-- Two fragments of the same packet. -/
structure PacketFragment.Same (f g : PacketFragment) : Prop where
  connectionType : f.connectionType = g.connectionType
  handle : f.handle = g.handle
  highPriority : f.highPriority = g.highPriority
  packetNumber : f.packetNumber = g.packetNumber

theorem getFragments_ne_nil (mtu : Nat) {packet : List UInt8} (h : packet ≠ []) :
    getFragments mtu packet ≠ [] := by
  cases mtu with
  | succ n =>
    intro hnil
    have hbytes := (getFragments_spec (Nat.le_add_left 1 n) packet).1
    rw [hnil] at hbytes
    exact h hbytes.symm
  | zero =>
    -- without room for a byte every byte gives an empty fragment
    have hgrow : ∀ (l : List UInt8) (it : FragmentingInserter), it.fragments ≠ [] →
        (l.foldl (fun it byte => it.insertBits byte 8) it).fragments ≠ [] := by
      intro l
      induction l with
      | nil => exact fun it hit => hit
      | cons byte l ih =>
        intro it hit
        refine ih _ ?_
        unfold FragmentingInserter.insertBits
        dsimp only
        split
        · split <;> simp [hit]
        · exact hit
    cases packet with
    | nil => exact absurd rfl h
    | cons byte l =>
      have hfirst := hgrow l ((FragmentingInserter.init 0).insertBits byte 8)
        (by simp [FragmentingInserter.insertBits, FragmentingInserter.init])
      unfold getFragments FragmentingInserter.finalize
      rw [List.foldl_cons]
      split
      · simp
      · exact hfirst

theorem Buffers.count_lt (b : Buffers) (t : ConnectionType) : b.count t < 65536 := by
  cases t with
  | classic => exact b.numAclPacketBuffers.toNat_lt
  | le => exact b.totalNumLePackets.toNat_lt.trans (by decide)

namespace RoundRobinScheduler

variable {s : RoundRobinScheduler} {b : Buffers}

theorem fragment_ne_nil (h : AclQueueHandler) (packet : OutgoingPacket) :
    s.fragment h packet ≠ [] := by
  unfold fragment
  dsimp only
  intro hnil
  rw [List.mapIdx_eq_nil_iff] at hnil
  split at hnil
  · cases hnil
  next hlong =>
    refine getFragments_ne_nil _ ?_ hnil
    intro hempty
    rw [hempty] at hlong
    exact hlong (Nat.zero_le _)

variable {h : AclQueueHandler} {packet : OutgoingPacket} {f : PacketFragment} {handle : Nat}
  {s' : RoundRobinScheduler}

theorem mem_fragment (hf : f ∈ s.fragment h packet) :
    f.connectionType = h.connectionType ∧ f.handle = h.handle ∧ f.highPriority = h.highPriority ∧
      f.packetNumber = s.buffered.length := by
  obtain ⟨i, hi, rfl⟩ := List.mem_mapIdx.mp hf
  exact ⟨rfl, rfl, rfl, rfl⟩

/-! ### The invariant -/

/-- The fragments of a connection that wait to be sent. -/
def queued (s : RoundRobinScheduler) (handle : Nat) : Nat :=
  s.fragmentsToSend.items.countP fun f => decide (f.handle = handle)

/-- The fragments of a connection of type `t` that the controller has. -/
def held (s : RoundRobinScheduler) (t : ConnectionType) (h : AclQueueHandler) : Nat :=
  if h.connectionType = t then h.numberOfSentPackets - s.queued h.handle else 0

/-- The packets leave one after the other, each from its first fragment on; what is queued is the
rest of the last one. -/
def InOrder (s : RoundRobinScheduler) : Prop :=
  ∃ blocks : List (List PacketFragment), s.sent = blocks.flatten ∧
    List.Forall₂ (· <+: ·) blocks s.buffered ∧
    (s.fragmentsToSend.items ≠ [] → ∃ earlier block packets,
      blocks = earlier ++ [block] ∧ s.buffered = packets ++ [block ++ s.fragmentsToSend.items])

structure Inv (b : Buffers) (s : RoundRobinScheduler) : Prop where
  nodup : (s.aclQueueHandlers.map AclQueueHandler.handle).Nodup
  max : ∀ t, s.maxCredits t = b.count t
  balance : ∀ t, s.credits t + (s.aclQueueHandlers.map (s.held t)).sum = b.count t
  unsent : ∀ h ∈ s.aclQueueHandlers, s.queued h.handle ≤ h.numberOfSentPackets
  small : ∀ h ∈ s.aclQueueHandlers, h.numberOfSentPackets < 65536
  owned : ∀ f ∈ s.fragmentsToSend.items, ∃ h ∈ s.aclQueueHandlers,
    h.handle = f.handle ∧ h.connectionType = f.connectionType
  onePacket : ∀ f ∈ s.fragmentsToSend.items, ∀ g ∈ s.fragmentsToSend.items, f.Same g
  enqueue : s.enqueueRegistered → ∃ f, s.fragmentsToSend.items.head? = some f ∧
    0 < s.credits f.connectionType
  dequeue : ∀ h ∈ s.aclQueueHandlers, h.dequeueIsRegistered →
    s.fragmentsToSend.items = [] ∧ 0 < s.credits h.connectionType
  inOrder : s.InOrder

theorem inv_init (b : Buffers) : (init b).Inv b where
  nodup := List.nodup_nil
  max t := by cases t <;> rfl
  balance t := by cases t <;> rfl
  unsent h hh := absurd hh List.not_mem_nil
  small h hh := absurd hh List.not_mem_nil
  owned f hf := absurd hf List.not_mem_nil
  onePacket f hf := absurd hf List.not_mem_nil
  enqueue h := absurd h Bool.false_ne_true
  dequeue h hh := absurd hh List.not_mem_nil
  inOrder := ⟨[], rfl, List.Forall₂.nil, fun h => absurd rfl h⟩

theorem Inv.frame (hi : s.Inv b) (startingPoint : Option Nat) (posted : Nat) :
    { s with startingPoint := startingPoint, posted := posted }.Inv b :=
  { hi with }

/-- What changes no handle, type and counter keeps the invariant. -/
theorem Inv.map_handlers (hi : s.Inv b) {g : AclQueueHandler → AclQueueHandler}
    (hhandle : ∀ h, (g h).handle = h.handle)
    (htype : ∀ h, (g h).connectionType = h.connectionType)
    (hsent : ∀ h, (g h).numberOfSentPackets = h.numberOfSentPackets)
    (hdequeue : ∀ h ∈ s.aclQueueHandlers, (g h).dequeueIsRegistered →
      s.fragmentsToSend.items = [] ∧ 0 < s.credits h.connectionType) :
    { s with aclQueueHandlers := s.aclQueueHandlers.map g }.Inv b := by
  refine { hi with
    nodup := ?_, balance := ?_, unsent := ?_, small := ?_, owned := ?_, dequeue := ?_ }
  · have hsame : AclQueueHandler.handle ∘ g = AclQueueHandler.handle := funext hhandle
    rw [List.map_map, hsame]
    exact hi.nodup
  · intro t
    have hsame : s.held t ∘ g = s.held t := by
      funext h
      simp only [Function.comp_apply, held, hhandle, htype, hsent]
    have hbalance := hi.balance t
    rw [← hsame, ← List.map_map] at hbalance
    exact hbalance
  · refine List.forall_mem_map.mpr fun h hmem => ?_
    rw [hhandle, hsent]
    exact hi.unsent h hmem
  · refine List.forall_mem_map.mpr fun h hmem => ?_
    rw [hsent]
    exact hi.small h hmem
  · intro f hf
    obtain ⟨h, hmem, hkey, hsame⟩ := hi.owned f hf
    exact ⟨g h, List.mem_map_of_mem hmem, (hhandle h).trans hkey, (htype h).trans hsame⟩
  · refine List.forall_mem_map.mpr fun h hmem hreg => ?_
    rw [htype]
    exact hdequeue h hmem hreg

theorem Inv.sendNextFragment (hi : s.Inv b) (hf : s.fragmentsToSend.items.head? = some f)
    (hcredits : 0 < s.credits f.connectionType) : s.sendNextFragment.Inv b :=
  { hi with enqueue := fun _ => ⟨f, hf, hcredits⟩ }

theorem Inv.startRoundRobin (hi : s.Inv b) : s.startRoundRobin.Inv b := by
  unfold RoundRobinScheduler.startRoundRobin
  split
  · exact hi
  · split
    next f hfront =>
      split
      · exact hi
      next hcredits => exact hi.sendNextFragment hfront (Nat.pos_of_ne_zero hcredits)
    next hfront =>
      split
      · exact hi
      · refine Inv.frame (Inv.map_handlers hi ?_ ?_ ?_ ?_) _ _
        · intro h
          split <;> rfl
        · intro h
          split <;> rfl
        · intro h
          split <;> rfl
        · intro h hmem hreg
          by_cases hcredits : s.credits h.connectionType = 0
          · rw [if_pos hcredits] at hreg
            exact hi.dequeue h hmem hreg
          · exact ⟨List.head?_eq_none_iff.mp hfront, Nat.pos_of_ne_zero hcredits⟩

/-! ### The steps -/

theorem Inv.queued_eq_zero (hi : s.Inv b) (hnone : s.find handle = none) :
    s.queued handle = 0 := by
  rw [queued, List.countP_eq_zero]
  intro f hf heq
  obtain ⟨h, hmem, hkey, -⟩ := hi.owned f hf
  exact find_eq_none.mp hnone h hmem (hkey.trans (of_decide_eq_true heq))

theorem Inv.insert (hi : s.Inv b) {new : AclQueueHandler} (hnone : s.find new.handle = none)
    (hsent : new.numberOfSentPackets = 0) (hreg : new.dequeueIsRegistered = false) :
    (s.insert new).Inv b := by
  have hperm : (s.insert new).aclQueueHandlers.Perm (new :: s.aclQueueHandlers) :=
    List.perm_orderedInsert _ _ _
  have hcases : ∀ h ∈ (s.insert new).aclQueueHandlers, h = new ∨ h ∈ s.aclQueueHandlers :=
    fun h hh => List.mem_cons.mp (hperm.mem_iff.mp hh)
  refine ⟨?_, hi.max, ?_, ?_, ?_, ?_, hi.onePacket, hi.enqueue, ?_, hi.inOrder⟩
  · rw [(hperm.map _).nodup_iff, List.map_cons, List.nodup_cons]
    refine ⟨?_, hi.nodup⟩
    intro hmem
    obtain ⟨h, hh, hkey⟩ := List.mem_map.mp hmem
    exact find_eq_none.mp hnone h hh hkey
  · intro t
    have hnew : s.held t new = 0 := by simp [held, hsent]
    have hsum := (hperm.map (s.held t)).sum_eq
    rw [List.map_cons, List.sum_cons, hnew, Nat.zero_add] at hsum
    exact (congrArg (s.credits t + ·) hsum).trans (hi.balance t)
  · intro h hh
    rcases hcases h hh with rfl | hmem
    · exact (hi.queued_eq_zero hnone).le.trans (Nat.zero_le _)
    · exact hi.unsent h hmem
  · intro h hh
    rcases hcases h hh with rfl | hmem
    · rw [hsent]
      exact Nat.zero_lt_succ _
    · exact hi.small h hmem
  · intro f hf
    obtain ⟨h, hmem, hsame⟩ := hi.owned f hf
    exact ⟨h, hperm.mem_iff.mpr (List.mem_cons_of_mem _ hmem), hsame⟩
  · intro h hh hdequeue
    rcases hcases h hh with rfl | hmem
    · rw [hreg] at hdequeue
      cases hdequeue
    · exact hi.dequeue h hmem hdequeue

theorem Inv.register (hi : s.Inv b) {t : ConnectionType} (hrun : s.register t handle = some s') :
    s'.Inv b := by
  unfold RoundRobinScheduler.register at hrun
  split at hrun
  · cases hrun
  rename_i hfree
  have hinserted : (s.insert ⟨handle, t, false, 0, false⟩).Inv b :=
    hi.insert (Option.not_isSome_iff_eq_none.mp hfree) rfl rfl
  dsimp only at hrun
  split at hrun
  · cases hrun
    exact hinserted.startRoundRobin
  · cases hrun
    exact hinserted

theorem Inv.setLinkPriority (hi : s.Inv b) (handle : Nat) (highPriority : Bool) :
    (s.setLinkPriority handle highPriority).Inv b := by
  refine Inv.map_handlers hi ?_ ?_ ?_ ?_
  · intro h
    split <;> rfl
  · intro h
    split <;> rfl
  · intro h
    split <;> rfl
  · intro h hmem hreg
    refine hi.dequeue h hmem ?_
    split at hreg <;> exact hreg

theorem Inv.nodup_update (hi : s.Inv b) {f : AclQueueHandler → AclQueueHandler}
    (hf : ∀ h, (f h).handle = h.handle) :
    ((s.update handle f).aclQueueHandlers.map AclQueueHandler.handle).Nodup := by
  rw [RoundRobinScheduler.update, map_key_update fun a ha => (hf a).trans ha]
  exact hi.nodup

theorem InOrder.buffer (ho : s.InOrder) (hsent : s'.sent = s.sent)
    (hbuffered : s'.buffered = s.buffered ++ [s'.fragmentsToSend.items]) : s'.InOrder := by
  obtain ⟨blocks, hflatten, hpre, -⟩ := ho
  refine ⟨blocks ++ [[]], ?_, ?_, fun _ => ⟨blocks, [], s.buffered, rfl, hbuffered⟩⟩
  · simp [hsent, hflatten]
  · rw [hbuffered]
    exact List.rel_append hpre (List.Forall₂.cons List.nil_prefix List.Forall₂.nil)

/-- The queue and the counter of one connection change alike, so that it holds what it did. -/
theorem Inv.recount (hi : s.Inv b) (hmem : h ∈ s.aclQueueHandlers) (count : Nat → Nat)
    {q : MultiPriorityQueue PacketFragment} {registered : Bool}
    {buffered : List (List PacketFragment)}
    (hothers : ∀ k ≠ h.handle, q.items.countP (fun f => decide (f.handle = k)) = s.queued k)
    (hown : q.items.countP (fun f => decide (f.handle = h.handle)) + (h.numberOfSentPackets -
      s.queued h.handle) = count h.numberOfSentPackets)
    (hsmall : count h.numberOfSentPackets < 65536)
    (howned : ∀ f ∈ q.items, ∃ x ∈ s.aclQueueHandlers,
      x.handle = f.handle ∧ x.connectionType = f.connectionType)
    (hone : ∀ f ∈ q.items, ∀ g ∈ q.items, f.Same g)
    (henqueue : registered → ∃ f, q.items.head? = some f ∧ 0 < s.credits f.connectionType)
    (hdequeue : ∀ x ∈ s.aclQueueHandlers, x.dequeueIsRegistered →
      q.items = [] ∧ 0 < s.credits x.connectionType) :
    let s' := { s.update h.handle fun x =>
        { x with numberOfSentPackets := count x.numberOfSentPackets } with
      fragmentsToSend := q, enqueueRegistered := registered, buffered := buffered }
    s'.InOrder → s'.Inv b := by
  intro s' horder
  refine ⟨Inv.nodup_update hi fun _ => rfl, hi.max, ?_, ?_, ?_, ?_, hone, henqueue, ?_, horder⟩
  · intro t
    -- every connection holds as many fragments as before
    refine (congrArg (fun l => s.credits t + List.sum l) ?_).trans (hi.balance t)
    refine List.map_map.trans (List.map_congr_left ?_)
    intro x hx
    simp only [Function.comp_apply, held]
    by_cases hkey : x.handle = h.handle
    · obtain rfl := eq_of_key hi.nodup hx hmem hkey
      simp only [if_true]
      exact if_congr Iff.rfl (Nat.sub_eq_of_eq_add' hown.symm) rfl
    · rw [if_neg hkey]
      exact if_congr Iff.rfl (congrArg _ (hothers _ hkey)) rfl
  · intro x hx
    rcases mem_update_of_key hi.nodup hmem rfl hx with rfl | ⟨hx, hkey⟩
    · exact Nat.le_of_add_right_le hown.le
    · exact (hothers _ hkey).le.trans (hi.unsent x hx)
  · intro x hx
    rcases mem_update_of_key hi.nodup hmem rfl hx with rfl | ⟨hx, -⟩
    · exact hsmall
    · exact hi.small x hx
  · intro f hf
    obtain ⟨x, hx, hkey, htype⟩ := howned f hf
    refine ⟨_, Lib.mem_update.mpr ⟨x, hx, rfl⟩, ?_, ?_⟩ <;> split <;> assumption
  · intro x hx hreg
    rcases mem_update_of_key hi.nodup hmem rfl hx with rfl | ⟨hx, -⟩
    · exact hdequeue h hmem hreg
    · exact hdequeue x hx hreg

/-- The fragments of a packet go into the empty queue, and the counter of its connection grows by
their number. -/
theorem Inv.buffer (hi : s.Inv b) (hempty : s.fragmentsToSend.items = [])
    (hreg : ∀ h ∈ s.aclQueueHandlers, h.dequeueIsRegistered = false)
    (hmem : h ∈ s.aclQueueHandlers) {q : MultiPriorityQueue PacketFragment} (hne : q.items ≠ [])
    (hfragments : ∀ f ∈ q.items, f.connectionType = h.connectionType ∧ f.handle = h.handle ∧
      f.highPriority = h.highPriority ∧ f.packetNumber = s.buffered.length)
    (hcredits : 0 < s.credits h.connectionType)
    (hsmall : h.numberOfSentPackets + q.items.length < 65536) :
    ({ s with fragmentsToSend := q, buffered := s.buffered ++ [q.items] }.update h.handle fun h =>
      { h with numberOfSentPackets := u16 (h.numberOfSentPackets + q.size) }).sendNextFragment.Inv
        b := by
  have hbefore : ∀ k, s.queued k = 0 := by
    intro k
    rw [queued, hempty]
    rfl
  have hcount : u16 (h.numberOfSentPackets + q.size) = h.numberOfSentPackets + q.items.length :=
    u16_of_lt hsmall
  refine hi.recount (q := q) hmem (fun n => u16 (n + q.size)) ?_ ?_ (hcount.trans_lt hsmall) ?_ ?_
    ?_ ?_ (hi.inOrder.buffer rfl rfl)
  · intro k hk
    rw [hbefore, List.countP_eq_zero]
    intro f hf heq
    exact hk ((of_decide_eq_true heq).symm.trans (hfragments f hf).2.1)
  · have hown : q.items.countP (fun f => decide (f.handle = h.handle)) = q.items.length :=
      List.countP_eq_length.mpr fun f hf => decide_eq_true (hfragments f hf).2.1
    rw [hown, hbefore, hcount, Nat.sub_zero, Nat.add_comm]
  · intro g hg
    exact ⟨h, hmem, (hfragments g hg).2.1.symm, (hfragments g hg).1.symm⟩
  · intro g hg g' hg'
    obtain ⟨htype, hhandle, hprio, hnumber⟩ := hfragments g hg
    obtain ⟨htype', hhandle', hprio', hnumber'⟩ := hfragments g' hg'
    exact ⟨htype.trans htype'.symm, hhandle.trans hhandle'.symm, hprio.trans hprio'.symm,
      hnumber.trans hnumber'.symm⟩
  · intro _
    refine ⟨_, List.head?_eq_some_head hne, ?_⟩
    rw [(hfragments _ (List.head_mem hne)).1]
    exact hcredits
  · intro x hx hdequeue
    exact absurd ((hreg x hx).symm.trans hdequeue) Bool.false_ne_true

/-- What `buffer_packet` needs: the counter of the connection does not overflow. -/
def fits (s : RoundRobinScheduler) (h : AclQueueHandler) (packet : OutgoingPacket) : Bool :=
  decide (h.numberOfSentPackets + (s.fragment h packet).length < 65536)

theorem bufferPacket_eq (hfind : s.find handle = some h) (hempty : s.fragmentsToSend.items = [])
    (packet : OutgoingPacket) :
    ∃ q : MultiPriorityQueue PacketFragment, q.items = s.fragment h packet ∧
      s.bufferPacket handle packet = some ({ s.unregisterAllConnections with
        fragmentsToSend := q, buffered := s.buffered ++ [q.items] }.update handle fun h =>
          { h with
            numberOfSentPackets := u16 (h.numberOfSentPackets + q.size) }).sendNextFragment := by
  have hitems : ((s.fragment h packet).foldl (fun q f => q.push f f.highPriority)
      s.fragmentsToSend).items = s.fragment h packet :=
    s.fragmentsToSend.items_foldl_push hempty fun f hf => (mem_fragment hf).2.2.1
  refine ⟨_, hitems, ?_⟩
  unfold RoundRobinScheduler.bufferPacket
  rw [hfind]
  dsimp only
  rw [if_neg (by
    rw [MultiPriorityQueue.size, hitems, List.length_eq_zero_iff]
    exact fragment_ne_nil h packet), hitems]
  rfl

theorem Inv.bufferPacket (hi : s.Inv b) (hfind : s.find handle = some h)
    (hreg : h.dequeueIsRegistered) (hfits : s.fits h packet) :
    ∃ s', s.bufferPacket handle packet = some s' ∧ s'.Inv b := by
  obtain ⟨hmem, rfl⟩ := mem_of_find hfind
  obtain ⟨hempty, hcredits⟩ := hi.dequeue h hmem hreg
  obtain ⟨q, hitems, hrun⟩ := bufferPacket_eq hfind hempty packet
  have hunreg : s.unregisterAllConnections.Inv b :=
    Inv.map_handlers hi (fun _ => rfl) (fun _ => rfl) (fun _ => rfl)
      fun _ _ hdequeue => absurd hdequeue Bool.false_ne_true
  refine ⟨_, hrun, hunreg.buffer (h := { h with dequeueIsRegistered := false }) hempty ?_
    (List.mem_map_of_mem hmem) ?_ ?_ hcredits ?_⟩
  · intro x hx
    obtain ⟨y, hy, rfl⟩ := List.mem_map.mp hx
    rfl
  · rw [hitems]
    exact fragment_ne_nil h packet
  · rw [hitems]
    exact fun f hf => mem_fragment hf
  · rw [hitems]
    exact of_decide_eq_true hfits

theorem credits_setCredits (s : RoundRobinScheduler) (t t' : ConnectionType) (n : Nat) :
    (s.setCredits t n).credits t' = if t' = t then n else s.credits t' := by
  cases t <;> cases t' <;> rfl

theorem InOrder.send (ho : s.InOrder)
    (hitems : s.fragmentsToSend.items = f :: s'.fragmentsToSend.items)
    (hsent : s'.sent = s.sent ++ [f]) (hbuffered : s'.buffered = s.buffered) : s'.InOrder := by
  obtain ⟨blocks, hflatten, hpre, hlast⟩ := ho
  obtain ⟨earlier, block, packets, rfl, hpackets⟩ := hlast (by simp [hitems])
  rw [hitems, List.append_cons block] at hpackets
  refine ⟨earlier ++ [block ++ [f]], ?_, ?_, fun _ => ⟨earlier, _, packets, rfl, ?_⟩⟩
  · simp [hsent, hflatten]
  · rw [hpackets, ← List.forall₂_reverse_iff, List.reverse_concat, List.reverse_concat,
      List.forall₂_cons] at hpre
    rw [hbuffered, hpackets]
    exact List.rel_append (List.forall₂_reverse_iff.mp hpre.2)
      (List.Forall₂.cons (List.prefix_append _ _) List.Forall₂.nil)
  · rw [hbuffered, hpackets]

theorem items_sendFront {rest : List PacketFragment}
    (hitems : s.fragmentsToSend.items = f :: rest) :
    (s.sendFront f).fragmentsToSend.items = rest := by
  refine s.fragmentsToSend.items_pop.trans ?_
  rw [hitems, List.tail_cons]

theorem Inv.sendFront (hi : s.Inv b) {rest : List PacketFragment}
    (hitems : s.fragmentsToSend.items = f :: rest) (hcredits : 0 < s.credits f.connectionType)
    (registered : Bool) (henqueue : registered → ∃ g, rest.head? = some g ∧
      0 < (s.sendFront f).credits g.connectionType) :
    { s.sendFront f with enqueueRegistered := registered }.Inv b := by
  have hrest := items_sendFront hitems
  have hqueued : ∀ k, s.queued k = (s.sendFront f).queued k + if f.handle = k then 1 else 0 := by
    intro k
    rw [queued, queued, hitems, hrest, List.countP_cons]
    simp only [decide_eq_true_eq]
  obtain ⟨h, hmem, hkey, htype⟩ := hi.owned f (by simp [hitems])
  have hfront : 0 < s.queued f.handle := by
    rw [hqueued, if_pos rfl]
    exact Nat.succ_pos _
  refine ⟨hi.nodup, hi.max, ?_, ?_, hi.small, ?_, ?_, ?_, ?_, hi.inOrder.send ?_ rfl rfl⟩
  · intro t
    -- a fragment leaves the queue and the credit count, and its connection holds one more
    have hsum := sum_change (s.held t) ((s.sendFront f).held t) hi.nodup hmem hkey ?_
    · have hown : (s.sendFront f).held t h =
          s.held t h + if t = f.connectionType then 1 else 0 := by
        have hunsent := hi.unsent h hmem
        have hcount := hqueued h.handle
        rw [hkey, if_pos rfl] at hcount
        simp only [held, htype, hkey, eq_comm] at hunsent ⊢
        split
        · omega
        · rfl
      have hbalance := hi.balance t
      have hnow := credits_setCredits s f.connectionType t (s.credits f.connectionType - 1)
      change (s.sendFront f).credits t = _ at hnow
      change (s.sendFront f).credits t + (s.aclQueueHandlers.map ((s.sendFront f).held t)).sum = _
      rw [hnow]
      split at hown
      next heq =>
        rw [if_pos heq]
        rw [heq] at hbalance hsum hown ⊢
        omega
      next hne =>
        rw [if_neg hne]
        omega
    · intro x _ hx
      have hcount := hqueued x.handle
      rw [if_neg (Ne.symm hx), Nat.add_zero] at hcount
      rw [held, held, hcount]
  · intro x hx
    have hcount := hqueued x.handle
    exact (Nat.le_of_add_right_le (hcount.symm.le)).trans (hi.unsent x hx)
  · intro g hg
    exact hi.owned g (by rw [hitems]; exact List.mem_cons_of_mem f (hrest ▸ hg))
  · intro g hg g' hg'
    exact hi.onePacket g (by rw [hitems]; exact List.mem_cons_of_mem f (hrest ▸ hg)) g'
      (by rw [hitems]; exact List.mem_cons_of_mem f (hrest ▸ hg'))
  · intro hr
    obtain ⟨g, hg, hnext⟩ := henqueue hr
    exact ⟨g, hrest.symm ▸ hg, hnext⟩
  · intro x hx hdequeue
    exact absurd (hi.dequeue x hx hdequeue).1 (by simp [hitems])
  · rw [hitems]
    exact congrArg _ hrest.symm

/-- The credit assertion of `handle_enqueue_next_fragment` holds whenever it is called. -/
theorem Inv.handleEnqueueNextFragment (hi : s.Inv b) (hreg : s.enqueueRegistered) :
    ∃ s', s.handleEnqueueNextFragment = some s' ∧ s'.Inv b := by
  obtain ⟨f, hfront, hcredits⟩ := hi.enqueue hreg
  obtain ⟨rest, hitems⟩ := List.head?_eq_some_iff.mp hfront
  have hstop : { s.sendFront f with enqueueRegistered := false }.Inv b :=
    hi.sendFront hitems hcredits false fun h => absurd h Bool.false_ne_true
  unfold RoundRobinScheduler.handleEnqueueNextFragment
  rw [show s.fragmentsToSend.front? = some f from hfront]
  dsimp only
  rw [if_neg hcredits.ne']
  split
  · exact ⟨_, rfl, hstop.frame _ _⟩
  next next hnext =>
    split
    · exact ⟨_, rfl, hstop⟩
    next hne =>
      refine ⟨_, rfl, hi.sendFront hitems hcredits _ fun _ => ⟨next, ?_, Nat.pos_of_ne_zero hne⟩⟩
      rw [← items_sendFront hitems]
      exact hnext

/-- A connection gives back credits for fragments that the controller has. -/
theorem Inv.giveBack (hi : s.Inv b) (hmem : h ∈ s.aclQueueHandlers) {n : Nat}
    (hn : n + s.queued h.handle ≤ h.numberOfSentPackets) :
    s.credits h.connectionType + n ≤ b.count h.connectionType ∧
    ((s.update h.handle fun h =>
      { h with numberOfSentPackets := h.numberOfSentPackets - n }).setCredits
      h.connectionType (s.credits h.connectionType + n)).Inv b := by
  have hheld : ∀ t, s.held t { h with numberOfSentPackets := h.numberOfSentPackets - n } +
      (if t = h.connectionType then n else 0) = s.held t h := by
    intro t
    simp only [held, eq_comm]
    split <;> omega
  -- what the connection no longer holds is what its buffer type has more
  have hbalance : ∀ t, s.credits t + (if t = h.connectionType then n else 0) +
      ((s.update h.handle fun h => { h with numberOfSentPackets := h.numberOfSentPackets - n }
        ).aclQueueHandlers.map (s.held t)).sum = b.count t := by
    intro t
    have hsum := sum_update (s.held t) hi.nodup hmem rfl
      (f := fun h => { h with numberOfSentPackets := h.numberOfSentPackets - n })
    have hbalance := hi.balance t
    have hown := hheld t
    simp only [RoundRobinScheduler.update]
    omega
  have hmore : ∀ t, s.credits t ≤ ((s.update h.handle fun h =>
      { h with numberOfSentPackets := h.numberOfSentPackets - n }).setCredits h.connectionType
        (s.credits h.connectionType + n)).credits t := by
    intro t
    rw [credits_setCredits]
    split
    next heq =>
      rw [heq]
      exact Nat.le_add_right _ _
    · exact Nat.le_refl _
  refine ⟨?_, Inv.nodup_update hi fun _ => rfl, hi.max, ?_, ?_, ?_, ?_, hi.onePacket, ?_, ?_,
    hi.inOrder⟩
  · have hown := hbalance h.connectionType
    rw [if_pos rfl] at hown
    omega
  · intro t
    rw [credits_setCredits]
    have hown := hbalance t
    split at hown
    next heq =>
      rw [if_pos heq, ← heq]
      exact hown
    next hne =>
      rw [if_neg hne]
      exact hown
  · intro x hx
    rcases mem_update_of_key hi.nodup hmem rfl hx with rfl | ⟨hx, -⟩
    · exact Nat.le_sub_of_add_le (by rw [Nat.add_comm]; exact hn)
    · exact hi.unsent x hx
  · intro x hx
    rcases mem_update_of_key hi.nodup hmem rfl hx with rfl | ⟨hx, -⟩
    · exact (Nat.sub_le _ _).trans_lt (hi.small h hmem)
    · exact hi.small x hx
  · intro f hf
    obtain ⟨x, hx, hkey, htype⟩ := hi.owned f hf
    refine ⟨_, Lib.mem_update.mpr ⟨x, hx, rfl⟩, ?_, ?_⟩ <;> split <;> assumption
  · intro hreg
    obtain ⟨f, hf, hcredits⟩ := hi.enqueue hreg
    exact ⟨f, hf, hcredits.trans_le (hmore _)⟩
  · intro x hx hreg
    rcases mem_update_of_key hi.nodup hmem rfl hx with rfl | ⟨hx, -⟩
    · exact ⟨(hi.dequeue h hmem hreg).1, (hi.dequeue h hmem hreg).2.trans_le (hmore _)⟩
    · exact ⟨(hi.dequeue x hx hreg).1, (hi.dequeue x hx hreg).2.trans_le (hmore _)⟩

theorem Inv.incomingAclCredits (hi : s.Inv b) {n : Nat} (hfind : s.find handle = some h)
    (hn : n + s.queued handle ≤ h.numberOfSentPackets) :
    (s.incomingAclCredits handle n).Inv b := by
  obtain ⟨hmem, rfl⟩ := mem_of_find hfind
  obtain ⟨hle, hback⟩ := hi.giveBack hmem hn
  have htotal : min (u16 (s.credits h.connectionType + n)) (s.maxCredits h.connectionType) =
      s.credits h.connectionType + n := by
    rw [u16_of_lt (hle.trans_lt (b.count_lt _)), hi.max, Nat.min_eq_left hle]
  unfold RoundRobinScheduler.incomingAclCredits
  rw [hfind]
  dsimp only
  rw [show ((s.update h.handle fun h =>
    { h with numberOfSentPackets := h.numberOfSentPackets - n }).maxCredits h.connectionType) =
      s.maxCredits h.connectionType from rfl, htotal]
  split
  · exact hback.startRoundRobin
  · exact hback

theorem foldl_sub16 (l : List PacketFragment) {n : Nat} (hl : l.length ≤ n) (hn : n < 65536) :
    l.foldl (fun n _ => sub16 n 1) n = n - l.length := by
  induction l generalizing n with
  | nil => rfl
  | cons f l ih =>
    rw [List.length_cons] at hl ⊢
    have hone : sub16 n 1 = n - 1 := by
      rw [sub16]
      omega
    rw [List.foldl_cons, hone, ih (by omega) (by omega)]
    omega

theorem queued_eq_length (s : RoundRobinScheduler) (handle : Nat) :
    s.queued handle =
      (s.fragmentsToSend.items.filter fun f => decide (f.handle = handle)).length :=
  List.countP_eq_length_filter

/-- The queue holds fragments of one connection: all are dropped or none. -/
theorem Inv.kept (hi : s.Inv b) (handle : Nat) :
    (s.fragmentsToSend.items.filter fun f => decide (f.handle ≠ handle)) = [] ∨
      (s.fragmentsToSend.items.filter fun f => decide (f.handle ≠ handle)) =
        s.fragmentsToSend.items := by
  by_cases hany : ∃ f ∈ s.fragmentsToSend.items, f.handle = handle
  · obtain ⟨f, hf, rfl⟩ := hany
    refine Or.inl (List.filter_eq_nil_iff.mpr ?_)
    intro g hg hne
    exact of_decide_eq_true hne (hi.onePacket g hg f hf).handle
  · refine Or.inr (List.filter_eq_self.mpr ?_)
    intro g hg
    exact decide_eq_true fun heq => hany ⟨g, hg, heq⟩

theorem InOrder.drop (ho : s.InOrder) (hsent : s'.sent = s.sent)
    (hbuffered : s'.buffered = s.buffered) (hitems : s'.fragmentsToSend.items = [] ∨
      s'.fragmentsToSend.items = s.fragmentsToSend.items) : s'.InOrder := by
  obtain ⟨blocks, hflatten, hpre, hlast⟩ := ho
  refine ⟨blocks, hsent.trans hflatten, hbuffered ▸ hpre, ?_⟩
  intro hne
  rcases hitems with hnil | hsame
  · exact absurd hnil hne
  · rw [hsame] at hne ⊢
    rw [hbuffered]
    exact hlast hne

theorem countP_kept (items : List PacketFragment) (handle k : Nat) :
    (items.filter fun f => decide (f.handle ≠ handle)).countP (fun f => decide (f.handle = k)) =
      if k = handle then 0 else items.countP fun f => decide (f.handle = k) := by
  rw [List.countP_filter]
  split
  next heq =>
    rw [List.countP_eq_zero]
    intro f _
    simp [heq]
  next hne =>
    refine List.countP_congr ?_
    intro f _
    simp only [Bool.and_eq_true, decide_eq_true_eq]
    exact ⟨fun hf => hf.1, fun hf => ⟨hf, fun heq => hne (hf.symm.trans heq)⟩⟩

theorem Inv.dropPacketFragments (hi : s.Inv b) (hfind : s.find handle = some h) :
    (s.dropPacketFragments handle).Inv b ∧ (s.dropPacketFragments handle).queued handle = 0 := by
  obtain ⟨hmem, rfl⟩ := mem_of_find hfind
  unfold RoundRobinScheduler.dropPacketFragments
  split
  next hempty =>
    refine ⟨hi, ?_⟩
    rw [queued, List.length_eq_zero_iff.mp hempty]
    rfl
  dsimp only
  have hkept := hi.kept h.handle
  -- the fragments that stay have one priority, so they are queued again in the same order
  obtain ⟨p, hp⟩ : ∃ p, ∀ f ∈ s.fragmentsToSend.items.filter fun f => decide (f.handle ≠ h.handle),
      f.highPriority = p := by
    cases hitems : s.fragmentsToSend.items with
    | nil => exact ⟨false, fun f hf => absurd hf List.not_mem_nil⟩
    | cons g rest =>
      refine ⟨g.highPriority, fun f hf => ?_⟩
      rw [← hitems] at hf
      exact (hi.onePacket f (List.mem_of_mem_filter hf) g (by simp [hitems])).highPriority
  have hq := MultiPriorityQueue.items_foldl_push MultiPriorityQueue.nil rfl hp
  generalize List.foldl (fun q (f : PacketFragment) => MultiPriorityQueue.push q f f.highPriority)
    MultiPriorityQueue.nil _ = q at hq
  have hqueued : ∀ k, q.items.countP (fun f : PacketFragment => decide (f.handle = k)) =
      if k = h.handle then 0 else s.queued k := by
    intro k
    rw [hq, countP_kept]
    rfl
  have hcount : List.foldl (fun n _ => sub16 n 1) h.numberOfSentPackets
      (s.fragmentsToSend.items.filter fun f => decide (f.handle = h.handle)) =
        h.numberOfSentPackets - s.queued h.handle := by
    rw [queued_eq_length]
    refine foldl_sub16 _ ?_ (hi.small h hmem)
    rw [← queued_eq_length]
    exact hi.unsent h hmem
  rw [← hq] at hkept
  have hunsent := hi.unsent h hmem
  have hsmall := hi.small h hmem
  refine ⟨hi.recount (q := q) hmem (fun n => List.foldl (fun n _ => sub16 n 1) n _) ?_ ?_ ?_ ?_ ?_
    ?_ ?_ (hi.inOrder.drop rfl rfl hkept), (hqueued _).trans (if_pos rfl)⟩
  · exact fun k hk => (hqueued k).trans (if_neg hk)
  · rw [hqueued, if_pos rfl, hcount, Nat.zero_add]
  · rw [hcount]
    omega
  · exact fun f hf => hi.owned f (List.mem_of_mem_filter (hq ▸ hf))
  · intro f hf g hg
    exact hi.onePacket f (List.mem_of_mem_filter (hq ▸ hf)) g (List.mem_of_mem_filter (hq ▸ hg))
  · intro hreg
    split at hreg
    · cases hreg
    next hsize =>
      rcases hkept with hnil | hsame
      · exact absurd (List.length_eq_zero_iff.mpr hnil) hsize
      · obtain ⟨f, hf, hcredits⟩ := hi.enqueue hreg
        exact ⟨f, hsame.symm ▸ hf, hcredits⟩
  · intro x hx hreg
    obtain ⟨hnil, hcredits⟩ := hi.dequeue x hx hreg
    refine ⟨?_, hcredits⟩
    rw [hq, hnil]
    rfl

theorem Inv.remove (hi : s.Inv b) (hmem : h ∈ s.aclQueueHandlers)
    (hsent : h.numberOfSentPackets = 0) (hqueued : s.queued h.handle = 0) :
    { s with aclQueueHandlers :=
      Lib.remove AclQueueHandler.handle h.handle s.aclQueueHandlers }.Inv b where
  nodup := nodup_remove hi.nodup
  max := hi.max
  balance t := by
    have hsum := sum_remove (s.held t) hi.nodup hmem rfl
    have hown : s.held t h = 0 := by simp [held, hsent]
    rw [hown, Nat.add_zero] at hsum
    exact (congrArg (s.credits t + ·) hsum).trans (hi.balance t)
  unsent x hx := hi.unsent x (mem_remove.mp hx).1
  small x hx := hi.small x (mem_remove.mp hx).1
  owned f hf := by
    obtain ⟨x, hx, hkey, htype⟩ := hi.owned f hf
    refine ⟨x, mem_remove.mpr ⟨hx, ?_⟩, hkey, htype⟩
    intro heq
    exact List.countP_eq_zero.mp hqueued f hf (decide_eq_true (hkey.symm.trans heq))
  onePacket := hi.onePacket
  enqueue := hi.enqueue
  dequeue x hx := hi.dequeue x (mem_remove.mp hx).1
  inOrder := hi.inOrder

theorem Inv.unregister (hi : s.Inv b) (hrun : s.unregister handle = some s') : s'.Inv b := by
  unfold RoundRobinScheduler.unregister at hrun
  cases hfind : s.find handle with
  | none =>
    rw [hfind] at hrun
    cases hrun
  | some h =>
    rw [hfind] at hrun
    obtain ⟨hdrop, hqueued⟩ := hi.dropPacketFragments hfind
    dsimp only [Option.isNone] at hrun
    rw [if_neg Bool.false_ne_true] at hrun
    generalize s.dropPacketFragments handle = s at hdrop hqueued hrun
    obtain ⟨h, hfind, hrun⟩ := Option.map_eq_some_iff.mp hrun
    obtain ⟨hmem, rfl⟩ := mem_of_find hfind
    -- the connection gives back all that it holds and goes then
    obtain ⟨hle, hback⟩ := hdrop.giveBack hmem (n := h.numberOfSentPackets) (by rw [hqueued]; rfl)
    have hgone := (hback.remove (h := { h with numberOfSentPackets :=
      h.numberOfSentPackets - h.numberOfSentPackets })
      (Lib.mem_update.mpr ⟨h, hmem, if_pos rfl⟩) (Nat.sub_self _) hqueued).frame
        ((Lib.remove AclQueueHandler.handle h.handle s.aclQueueHandlers).head?.map
          AclQueueHandler.handle) s.posted
    have hsame : Lib.remove AclQueueHandler.handle h.handle ((s.update h.handle fun x =>
        { x with numberOfSentPackets := x.numberOfSentPackets - h.numberOfSentPackets }).setCredits
          h.connectionType (s.credits h.connectionType + h.numberOfSentPackets)).aclQueueHandlers =
        Lib.remove AclQueueHandler.handle h.handle s.aclQueueHandlers :=
      remove_update fun _ => rfl
    rw [hsame] at hgone
    rw [u16_of_lt (hle.trans_lt (b.count_lt _))] at hrun
    split at hrun
    · rw [← hrun]
      exact hgone.startRoundRobin
    · rw [← hrun]
      exact hgone

/-! ### Runs -/

/-- What a step needs: a packet does not make the counter of its connection overflow, and the
controller completes fragments only that the registered connection has sent. -/
def proper (s : RoundRobinScheduler) : SchedulerEvent → Bool
  | .packet handle packet =>
    (s.find handle).all fun h => !h.dequeueIsRegistered || s.fits h packet
  | .completed handle credits =>
    (s.find handle).all fun h => decide (credits + s.queued handle ≤ h.numberOfSentPackets)
  | _ => true

theorem Inv.step (hi : s.Inv b) {e : SchedulerEvent} (hproper : s.proper e)
    (hrun : s.step e = some s') : s'.Inv b := by
  cases e with
  | register connectionType handle => exact hi.register hrun
  | unregister handle => exact hi.unregister hrun
  | setLinkPriority handle highPriority =>
    cases hrun
    exact hi.setLinkPriority handle highPriority
  | packet handle packet =>
    simp only [RoundRobinScheduler.step] at hrun
    split at hrun
    -- packets are only taken while the queue end is registered
    next hreg =>
      cases hfind : s.find handle with
      | none => simp [hfind] at hreg
      | some h =>
        simp only [hfind, Option.any_some] at hreg
        simp only [proper, hfind, Option.all_some, hreg, Bool.not_true, Bool.false_or] at hproper
        obtain ⟨s₁, hs₁, hinv⟩ := hi.bufferPacket hfind hreg hproper
        rw [hs₁] at hrun
        cases hrun
        exact hinv
    · cases hrun
      exact hi
  | enqueue =>
    simp only [RoundRobinScheduler.step] at hrun
    split at hrun
    next hreg =>
      obtain ⟨s₁, hs₁, hinv⟩ := hi.handleEnqueueNextFragment hreg
      rw [hs₁] at hrun
      cases hrun
      exact hinv
    · cases hrun
      exact hi
  | startRoundRobin =>
    simp only [RoundRobinScheduler.step] at hrun
    split at hrun
    · cases hrun
      exact (hi.frame _ _).startRoundRobin
    · cases hrun
      exact hi
  | completed handle credits =>
    cases hrun
    cases hfind : s.find handle with
    | none =>
      unfold RoundRobinScheduler.incomingAclCredits
      rw [hfind]
      exact hi
    | some h =>
      simp only [proper, hfind, Option.all_some, decide_eq_true_eq] at hproper
      exact hi.incomingAclCredits hfind hproper

/-- The fragments out at the controller, as the invariant counts them. -/
theorem Inv.sum_held (hi : s.Inv b) (t : ConnectionType) :
    ((s.aclQueueHandlers.filter fun h => decide (h.connectionType = t)).map fun h =>
      (h.numberOfSentPackets : ℤ) - s.queued h.handle).sum =
        ((s.aclQueueHandlers.map (s.held t)).sum : ℕ) := by
  have hunsent := hi.unsent
  generalize s.aclQueueHandlers = handlers at hunsent
  induction handlers with
  | nil => rfl
  | cons h handlers ih =>
    have hrest := ih fun x hx => hunsent x (List.mem_cons_of_mem h hx)
    have hle := hunsent h List.mem_cons_self
    rw [List.map_cons, List.sum_cons, Nat.cast_add, ← hrest, held]
    by_cases ht : h.connectionType = t
    · rw [List.filter_cons_of_pos (by simpa using ht), List.map_cons, List.sum_cons, if_pos ht,
        Nat.cast_sub hle]
    · rw [List.filter_cons_of_neg (by simpa using ht), if_neg ht, Nat.cast_zero, zero_add]

/-- In a run of proper steps no credit is lost or made, no credit assertion fires, and the packets
go out one after the other. -/
theorem credits_conserved {events : List SchedulerEvent}
    (hproper : allSteps RoundRobinScheduler.step proper (init b) events)
    (hrun : events.foldlM RoundRobinScheduler.step (init b) = some s) :
    (∀ t, (s.credits t : ℤ) +
      ((s.aclQueueHandlers.filter fun h => decide (h.connectionType = t)).map fun h =>
        (h.numberOfSentPackets : ℤ) - s.queued h.handle).sum = b.count t) ∧
    (s.enqueueRegistered → s.handleEnqueueNextFragment.isSome) ∧
    (∀ f ∈ s.fragmentsToSend.items, ∀ g ∈ s.fragmentsToSend.items,
      f.packetNumber = g.packetNumber) ∧
    ∃ blocks : List (List PacketFragment),
      s.sent = blocks.flatten ∧ List.Forall₂ (· <+: ·) blocks s.buffered := by
  have hi : s.Inv b := run_invariant (I := RoundRobinScheduler.Inv b)
    (fun _ _ _ hi hp hs => hi.step hp hs) (inv_init b) hproper hrun
  refine ⟨?_, ?_, ?_, ?_⟩
  · intro t
    rw [hi.sum_held t]
    exact_mod_cast hi.balance t
  · intro hreg
    obtain ⟨s', hs', -⟩ := hi.handleEnqueueNextFragment hreg
    rw [hs']
    rfl
  · intro f hf g hg
    exact (hi.onePacket f hf g hg).packetNumber
  · obtain ⟨blocks, hflatten, hpre, -⟩ := hi.inOrder
    exact ⟨blocks, hflatten, hpre⟩

/-- One connection sends a packet in two fragments through a single buffer. -/
theorem credits_conserved_two_fragments :
    let events : List SchedulerEvent :=
      [.register .classic 1, .packet 1 ⟨[1, 2, 3], false⟩, .enqueue, .completed 1 1, .enqueue]
    ∃ s, events.foldlM RoundRobinScheduler.step (init ⟨1, 2, 1, 27⟩) = some s ∧
      s.sent.map PacketFragment.payload = [[1, 2], [3]] ∧
      (s.credits .classic : ℤ) +
        ((s.aclQueueHandlers.filter fun h => decide (h.connectionType = .classic)).map fun h =>
          (h.numberOfSentPackets : ℤ) - s.queued h.handle).sum = 1 := by
  intro events
  have hsent : (events.foldlM RoundRobinScheduler.step (init ⟨1, 2, 1, 27⟩)).map
      (fun s => s.sent.map PacketFragment.payload) = some [[1, 2], [3]] := by decide +kernel
  obtain ⟨s, hrun, hsent⟩ := Option.map_eq_some_iff.mp hsent
  exact ⟨s, hrun, hsent, (credits_conserved (by decide +kernel) hrun).1 .classic⟩

theorem length_fragment_of_mtu_one (hmtu : s.mtu h.connectionType = 1)
    (hlong : 1 < packet.bytes.length) : (s.fragment h packet).length = packet.bytes.length := by
  obtain ⟨hflatten, hpieces⟩ := getFragments_spec (Nat.le_refl 1) packet.bytes
  have hone : ∀ l : List (List UInt8), (∀ f ∈ l, f ≠ [] ∧ f.length ≤ 1) →
      l.flatten.length = l.length := by
    intro l hl
    induction l with
    | nil => rfl
    | cons f l ih =>
      have hf : f.length = 1 := Nat.le_antisymm (hl f List.mem_cons_self).2
        (List.length_pos_iff.mpr (hl f List.mem_cons_self).1)
      rw [List.flatten_cons, List.length_append, hf,
        ih fun g hg => hl g (List.mem_cons_of_mem f hg), List.length_cons, Nat.add_comm]
  simp only [fragment, hmtu, if_neg (Nat.not_le.mpr hlong), List.length_mapIdx]
  rw [← hone _ hpieces, hflatten]

/-- A packet of 65536 fragments: the counter of its connection is back at zero. -/
theorem fragment_count_overflows :
    ∃ s, [.register .classic 1, .packet 1 ⟨List.replicate 65536 0, false⟩].foldlM
        RoundRobinScheduler.step (init ⟨1, 1, 0, 0⟩) = some s ∧
      (s.credits .classic : ℤ) +
        ((s.aclQueueHandlers.filter fun h => decide (h.connectionType = .classic)).map fun h =>
          (h.numberOfSentPackets : ℤ) - s.queued h.handle).sum = -65535 := by
  obtain ⟨s₁, hregister, hhandlers, hqueue, hmtu, hcredits⟩ : ∃ s₁,
      (init ⟨1, 1, 0, 0⟩).step (.register .classic 1) = some s₁ ∧
      s₁.aclQueueHandlers = [⟨1, .classic, true, 0, false⟩] ∧ s₁.fragmentsToSend.items = [] ∧
      s₁.mtu .classic = 1 ∧ s₁.aclPacketCredits = 1 := ⟨_, rfl, rfl, rfl, rfl, rfl⟩
  have hfind : s₁.find 1 = some ⟨1, .classic, true, 0, false⟩ := by
    rw [find, hhandlers]
    rfl
  have hlength : (s₁.fragment ⟨1, .classic, true, 0, false⟩
      ⟨List.replicate 65536 0, false⟩).length = 65536 := by
    rw [length_fragment_of_mtu_one hmtu] <;> rw [List.length_replicate]
    decide
  obtain ⟨q, hitems, hrun⟩ := bufferPacket_eq hfind hqueue ⟨List.replicate 65536 0, false⟩
  have hsize : q.items.length = 65536 := by rw [hitems, hlength]
  have hown : q.items.countP (fun f => decide (f.handle = 1)) = 65536 := by
    rw [← hsize, List.countP_eq_length]
    intro f hf
    rw [hitems] at hf
    exact decide_eq_true (mem_fragment hf).2.1
  have hevents : [.register .classic 1, .packet 1 ⟨List.replicate 65536 0, false⟩].foldlM
      RoundRobinScheduler.step (init ⟨1, 1, 0, 0⟩) =
        s₁.bufferPacket 1 ⟨List.replicate 65536 0, false⟩ := by
    rw [List.foldlM_cons, hregister]
    simp only [Option.bind_eq_bind, Option.bind_some, List.foldlM_cons, List.foldlM_nil,
      RoundRobinScheduler.step, hfind, Option.any_some, if_true, Option.pure_def,
        Option.bind_fun_some]
  refine ⟨_, hevents.trans hrun, ?_⟩
  simp [sendNextFragment, RoundRobinScheduler.update, unregisterAllConnections, hhandlers,
    Lib.update, queued, hown, MultiPriorityQueue.size, hsize, u16, credits, hcredits]

/-- What runs that are not proper do to the balance. A handle is unregistered while a fragment of
it is out, and registered again: the completion of that fragment is credited a second time, and
the scheduler counts three buffers of two. Or the counter of a connection overflows. -/
theorem completion_credited_twice :
    (∃ s, [.register .classic 1, .packet 1 ⟨[1], false⟩, .enqueue, .register .classic 2,
          .packet 2 ⟨[2], false⟩, .enqueue, .unregister 1, .register .classic 1,
          .completed 1 1].foldlM RoundRobinScheduler.step (init ⟨2, 27, 0, 0⟩) = some s ∧
      (s.credits .classic : ℤ) +
        ((s.aclQueueHandlers.filter fun h => decide (h.connectionType = .classic)).map fun h =>
          (h.numberOfSentPackets : ℤ) - s.queued h.handle).sum = 3) ∧
    ∃ s, [.register .classic 1, .packet 1 ⟨List.replicate 65536 0, false⟩].foldlM
        RoundRobinScheduler.step (init ⟨1, 1, 0, 0⟩) = some s ∧
      (s.credits .classic : ℤ) +
        ((s.aclQueueHandlers.filter fun h => decide (h.connectionType = .classic)).map fun h =>
          (h.numberOfSentPackets : ℤ) - s.queued h.handle).sum = -65535 :=
  ⟨Option.map_eq_some_iff.mp (by decide +kernel), fragment_count_overflows⟩

end RoundRobinScheduler

end BluetoothStack.Acl
