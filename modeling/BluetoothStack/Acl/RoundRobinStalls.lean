import BluetoothStack.Acl.RoundRobinCredits

/-!
# BluetoothStack.Acl.RoundRobinStalls

Whether the scheduler goes on by itself.

While a packet is cut up and sent, no connection is asked for the next one. The connections are
asked again when the last fragment leaves, when credits of a transport come back that had none, and
when a connection registers. A connection that is unregistered takes its fragments with it, and then
no one is asked, unless its credits were the ones that the others waited for.
-/

namespace BluetoothStack.Acl

open BluetoothStack.Lib

namespace MultiPriorityQueue

variable {α : Type}

theorem size_foldl_push (priority : α → Bool) (l : List α) (q : MultiPriorityQueue α) :
    (l.foldl (fun q a => q.push a (priority a)) q).size = q.size + l.length := by
  induction l generalizing q with
  | nil => rfl
  | cons a l ih =>
    have hpush : (q.push a (priority a)).size = q.size + 1 := by
      unfold push size items
      split <;> simp only [List.length_append, List.length_singleton] <;> omega
    rw [List.foldl_cons, ih, hpush, List.length_cons]
    omega

theorem size_eq_zero {q : MultiPriorityQueue α} : q.size = 0 ↔ q.items = [] :=
  List.length_eq_zero_iff

end MultiPriorityQueue

namespace RoundRobinScheduler

variable {s s' : RoundRobinScheduler}

/-! ### What is expected -/

/-- With nothing to do and with credits of its type, a connection is asked for its packets. -/
def Serves (s : RoundRobinScheduler) : Prop :=
  s.posted = 0 → s.fragmentsToSend.items = [] →
    ∀ h ∈ s.aclQueueHandlers, 0 < s.credits h.connectionType → h.dequeueIsRegistered = true

/-- What a connection holds of the controller's buffers once its waiting fragments are dropped. -/
def reclaimed (s : RoundRobinScheduler) (h : AclQueueHandler) : Nat :=
  s.fragmentsToSend.items.foldl (fun n _ => sub16 n 1) h.numberOfSentPackets

/-- The credits of a type once a connection is unregistered that has all waiting fragments. -/
def creditsWithout (s : RoundRobinScheduler) (h : AclQueueHandler) (t : ConnectionType) : Nat :=
  if t = h.connectionType then u16 (s.credits t + s.reclaimed h) else s.credits t

/-- A connection goes and takes all waiting fragments with it, nothing else is going to ask for
packets, the credits of its type do not come back from zero, and there is another connection with
credits. -/
def Strands (s : RoundRobinScheduler) (e : SchedulerEvent) : Prop :=
  ∃ h, e = .unregister h.handle ∧ s.find h.handle = some h ∧ s.posted = 0 ∧
    s.fragmentsToSend.items ≠ [] ∧ (∀ f ∈ s.fragmentsToSend.items, f.handle = h.handle) ∧
    ¬ (0 < s.reclaimed h ∧ s.credits h.connectionType = 0) ∧
    ∃ other ∈ s.aclQueueHandlers, other.handle ≠ h.handle ∧
      0 < s.creditsWithout h other.connectionType

/-- While fragments wait, no connection is asked. -/
def Quiet (s : RoundRobinScheduler) : Prop :=
  s.fragmentsToSend.items ≠ [] → ∀ h ∈ s.aclQueueHandlers, h.dequeueIsRegistered = false

theorem serves_of_items (h : s.fragmentsToSend.items ≠ []) : s.Serves :=
  fun _ hempty => absurd hempty h

theorem quiet_of_items (h : s.fragmentsToSend.items = []) : s.Quiet :=
  fun hne => absurd h hne

/-! ### Asking the connections -/

theorem items_startRoundRobin : s.startRoundRobin.fragmentsToSend = s.fragmentsToSend := by
  unfold startRoundRobin
  split
  · rfl
  split
  · split <;> rfl
  · split <;> rfl

theorem serves_startRoundRobin : s.startRoundRobin.Serves := by
  intro _ hempty
  rw [items_startRoundRobin] at hempty
  have hfront : s.fragmentsToSend.front? = none := by
    rw [MultiPriorityQueue.front?, hempty]
    rfl
  unfold startRoundRobin
  rw [hfront]
  split
  next hzero =>
    intro h _ hpos
    cases ht : h.connectionType <;> rw [ht] at hpos
    · exact absurd hzero.1 hpos.ne'
    · exact absurd hzero.2 hpos.ne'
  dsimp only
  split
  next hnil =>
    rw [hnil]
    exact fun h hmem => absurd hmem List.not_mem_nil
  · intro h' hmem hpos
    obtain ⟨h, -, rfl⟩ := List.mem_map.mp hmem
    split
    next hzero =>
      rw [if_pos hzero] at hpos
      exact absurd hzero hpos.ne'
    · rfl

theorem quiet_startRoundRobin (hq : s.Quiet) : s.startRoundRobin.Quiet := by
  intro hne
  rw [items_startRoundRobin] at hne
  unfold startRoundRobin
  split
  · exact hq hne
  obtain ⟨f, rest, hf⟩ := List.exists_cons_of_ne_nil hne
  have hfront : s.fragmentsToSend.front? = some f := by
    rw [MultiPriorityQueue.front?, hf]
    rfl
  rw [hfront]
  dsimp only
  split
  · exact hq hne
  · exact hq hne

/-! ### Steps -/

theorem quiet_of_same (hq : s.Quiet) (hitems : s'.fragmentsToSend = s.fragmentsToSend)
    (hhandlers : ∀ h' ∈ s'.aclQueueHandlers, ∃ h ∈ s.aclQueueHandlers,
      h'.dequeueIsRegistered = h.dequeueIsRegistered) : s'.Quiet := by
  intro hne h' hmem
  rw [hitems] at hne
  obtain ⟨h, hmem, hsame⟩ := hhandlers h' hmem
  rw [hsame]
  exact hq hne h hmem

variable {handle : Nat} {h : AclQueueHandler}

/-- A change of a connection that leaves its registration alone. -/
theorem mem_update_dequeue {l : List AclQueueHandler} {f : AclQueueHandler → AclQueueHandler}
    {h' : AclQueueHandler} (hmem : h' ∈ Lib.update AclQueueHandler.handle handle f l)
    (hf : ∀ h, (f h).dequeueIsRegistered = h.dequeueIsRegistered ∧
      (f h).connectionType = h.connectionType ∧ (f h).handle = h.handle) :
    ∃ h ∈ l, h'.dequeueIsRegistered = h.dequeueIsRegistered ∧
      h'.connectionType = h.connectionType ∧ h'.handle = h.handle := by
  obtain ⟨h, hh, rfl⟩ := mem_update.mp hmem
  refine ⟨h, hh, ?_⟩
  split
  · exact hf h
  · exact ⟨rfl, rfl, rfl⟩

theorem quiet_register (hq : s.Quiet) {t : ConnectionType} (hrun : s.register t handle = some s') :
    s'.Quiet ∧ s'.Serves := by
  unfold register at hrun
  split at hrun
  · cases hrun
  · dsimp only at hrun
    generalize hs₁ : s.insert ⟨handle, t, false, 0, false⟩ = s₁ at hrun
    have hquiet : s₁.Quiet := by
      intro hne h hmem
      rw [← hs₁] at hne hmem
      rcases (List.mem_orderedInsert _).mp hmem with rfl | hmem
      · rfl
      · exact hq hne h hmem
    split at hrun
    · cases hrun
      exact ⟨quiet_startRoundRobin hquiet, serves_startRoundRobin⟩
    next hsize =>
      cases hrun
      exact ⟨hquiet, serves_of_items fun hempty =>
        hsize (MultiPriorityQueue.size_eq_zero.mpr hempty)⟩

theorem quiet_bufferPacket (hq : s.Quiet) (hs : s.Serves) {packet : OutgoingPacket}
    (hrun : s.bufferPacket handle packet = some s') : s'.Quiet ∧ s'.Serves := by
  unfold bufferPacket at hrun
  split at hrun
  · cases hrun
    exact ⟨hq, hs⟩
  · dsimp only at hrun
    split at hrun
    · cases hrun
    next hsize =>
      cases hrun
      refine ⟨?_, serves_of_items fun hempty =>
        hsize (MultiPriorityQueue.size_eq_zero.mpr hempty)⟩
      intro _ h' hmem
      obtain ⟨h₁, hmem₁, hsame, -⟩ := mem_update_dequeue hmem fun _ => ⟨rfl, rfl, rfl⟩
      obtain ⟨h, -, rfl⟩ := List.mem_map.mp hmem₁
      exact hsame

theorem quiet_handleEnqueueNextFragment (hq : s.Quiet)
    (hrun : s.handleEnqueueNextFragment = some s') : s'.Quiet ∧ s'.Serves := by
  unfold handleEnqueueNextFragment at hrun
  split at hrun
  · cases hrun
  next f hfront =>
    have hne : s.fragmentsToSend.items ≠ [] := by
      intro hempty
      rw [MultiPriorityQueue.front?, hempty] at hfront
      cases hfront
    split at hrun
    · cases hrun
    · dsimp only at hrun
      split at hrun
      · cases hrun
        refine ⟨fun _ => hq hne, fun hposted => ?_⟩
        exact absurd hposted (Nat.succ_ne_zero _)
      next next hnext =>
        have hne' : (s.sendFront f).fragmentsToSend.items ≠ [] := by
          intro hempty
          rw [MultiPriorityQueue.front?, hempty] at hnext
          cases hnext
        split at hrun
        · cases hrun
          exact ⟨fun _ => hq hne, serves_of_items hne'⟩
        · cases hrun
          exact ⟨fun _ => hq hne, serves_of_items hne'⟩

theorem quiet_incomingAclCredits (hq : s.Quiet) (hs : s.Serves) (handle credits : Nat) :
    (s.incomingAclCredits handle credits).Quiet ∧ (s.incomingAclCredits handle credits).Serves := by
  unfold incomingAclCredits
  split
  · exact ⟨hq, hs⟩
  next h hfind =>
    dsimp only
    generalize hs₁ : (s.update handle fun h =>
      { h with numberOfSentPackets := h.numberOfSentPackets - credits }).setCredits h.connectionType
        (min (u16 (s.credits h.connectionType + credits))
          ((s.update handle fun h => { h with
            numberOfSentPackets := h.numberOfSentPackets - credits }).maxCredits
              h.connectionType)) = s₁
    have hhandlers : ∀ h' ∈ s₁.aclQueueHandlers, ∃ h ∈ s.aclQueueHandlers,
        h'.dequeueIsRegistered = h.dequeueIsRegistered ∧ h'.connectionType = h.connectionType ∧
          h'.handle = h.handle := by
      rw [← hs₁]
      exact fun h' hmem => mem_update_dequeue hmem fun _ => ⟨rfl, rfl, rfl⟩
    have hitems : s₁.fragmentsToSend = s.fragmentsToSend := by
      rw [← hs₁]
      rfl
    have hquiet : s₁.Quiet := quiet_of_same hq hitems fun h' hmem =>
      let ⟨h, hh, hsame⟩ := hhandlers h' hmem
      ⟨h, hh, hsame.1⟩
    split
    · exact ⟨quiet_startRoundRobin hquiet, serves_startRoundRobin⟩
    -- there were credits before, so the connections are registered already
    next hnonzero =>
      refine ⟨hquiet, ?_⟩
      intro hposted hempty h' hmem hpos
      obtain ⟨h₀, hh₀, hsame, htype, -⟩ := hhandlers h' hmem
      rw [hsame]
      refine hs (by rw [← hposted, ← hs₁]; rfl) (by rw [← hempty, hitems]) h₀ hh₀ ?_
      rw [htype, ← hs₁, credits_setCredits] at hpos
      split at hpos
      next hsametype =>
        rw [hsametype]
        exact Nat.pos_of_ne_zero hnonzero
      · exact hpos

/-! ### A connection goes -/

/-- `Unregister` once the fragments are dropped. -/
def release (s : RoundRobinScheduler) (h : AclQueueHandler) : RoundRobinScheduler :=
  let handlers := remove AclQueueHandler.handle h.handle s.aclQueueHandlers
  { s.setCredits h.connectionType (u16 (s.credits h.connectionType + h.numberOfSentPackets)) with
    aclQueueHandlers := handlers
    startingPoint := handlers.head?.map AclQueueHandler.handle }

theorem unregister_inv (hrun : s.unregister handle = some s') :
    ∃ h, (s.dropPacketFragments handle).find handle = some h ∧
      s' = if 0 < h.numberOfSentPackets ∧
          (s.dropPacketFragments handle).credits h.connectionType = 0
        then ((s.dropPacketFragments handle).release h).startRoundRobin
        else (s.dropPacketFragments handle).release h := by
  unfold unregister at hrun
  split at hrun
  · cases hrun
  · dsimp only at hrun
    rw [Option.map_eq_some_iff] at hrun
    obtain ⟨h, hfind, rfl⟩ := hrun
    refine ⟨h, hfind, ?_⟩
    have hhandle : h.handle = handle := (mem_of_find hfind).2
    simp only [release, hhandle]
    rfl

/-- The connection whose waiting fragments are dropped. -/
def withoutFragments (s : RoundRobinScheduler) (h : AclQueueHandler) : AclQueueHandler :=
  let dropped := s.fragmentsToSend.items.filter fun f => decide (f.handle = h.handle)
  { h with numberOfSentPackets := dropped.foldl (fun n _ => sub16 n 1) h.numberOfSentPackets }

theorem drop_of_empty (hempty : s.fragmentsToSend.items = []) (handle : Nat) :
    s.dropPacketFragments handle = s :=
  if_pos (MultiPriorityQueue.size_eq_zero.mpr hempty)

theorem items_drop (hne : s.fragmentsToSend.items ≠ []) (handle : Nat) :
    (s.dropPacketFragments handle).fragmentsToSend.items = [] ↔
      ∀ f ∈ s.fragmentsToSend.items, f.handle = handle := by
  have hsize : s.fragmentsToSend.size ≠ 0 := fun h => hne (MultiPriorityQueue.size_eq_zero.mp h)
  rw [dropPacketFragments, if_neg hsize]
  dsimp only
  rw [← MultiPriorityQueue.size_eq_zero, MultiPriorityQueue.size_foldl_push]
  have hnil : (MultiPriorityQueue.nil : MultiPriorityQueue PacketFragment).size = 0 := rfl
  rw [hnil, Nat.zero_add, List.length_eq_zero_iff, List.filter_eq_nil_iff]
  simp only [ne_eq, decide_not, Bool.not_eq_eq_eq_not, Bool.not_true, decide_eq_false_iff_not,
    not_not]

theorem find_drop (hne : s.fragmentsToSend.items ≠ [])
    (hfind : (s.dropPacketFragments handle).find handle = some h) :
    ∃ h₀, s.find handle = some h₀ ∧ h = s.withoutFragments h₀ := by
  have hsize : s.fragmentsToSend.size ≠ 0 := fun h => hne (MultiPriorityQueue.size_eq_zero.mp h)
  rw [dropPacketFragments, if_neg hsize] at hfind
  change Lib.find AclQueueHandler.handle handle (Lib.update AclQueueHandler.handle handle _ _) = _
    at hfind
  rw [find_update (by exact fun _ hkey => hkey), if_pos rfl, Option.map_eq_some_iff] at hfind
  obtain ⟨h₀, hfind, rfl⟩ := hfind
  refine ⟨h₀, hfind, ?_⟩
  rw [withoutFragments, (mem_of_find hfind).2]

theorem credits_drop (handle : Nat) (t : ConnectionType) :
    (s.dropPacketFragments handle).credits t = s.credits t := by
  unfold dropPacketFragments
  split
  · rfl
  · cases t <;> rfl

theorem posted_drop (handle : Nat) : (s.dropPacketFragments handle).posted = s.posted := by
  unfold dropPacketFragments
  split <;> rfl

theorem mem_drop {h' : AclQueueHandler}
    (hmem : h' ∈ (s.dropPacketFragments handle).aclQueueHandlers) :
    ∃ h ∈ s.aclQueueHandlers, h'.dequeueIsRegistered = h.dequeueIsRegistered ∧
      h'.connectionType = h.connectionType ∧ h'.handle = h.handle := by
  unfold dropPacketFragments at hmem
  split at hmem
  · exact ⟨h', hmem, rfl, rfl, rfl⟩
  · exact mem_update_dequeue hmem fun _ => ⟨rfl, rfl, rfl⟩

theorem mem_drop_of_ne (hmem : h ∈ s.aclQueueHandlers) (hne : h.handle ≠ handle) :
    h ∈ (s.dropPacketFragments handle).aclQueueHandlers := by
  unfold dropPacketFragments
  split
  · exact hmem
  · exact mem_update.mpr ⟨h, hmem, if_neg hne⟩

theorem credits_release (h : AclQueueHandler) (t : ConnectionType) :
    (s.release h).credits t =
      if t = h.connectionType then u16 (s.credits t + h.numberOfSentPackets) else s.credits t := by
  have hset : (s.release h).credits t = (s.setCredits h.connectionType
      (u16 (s.credits h.connectionType + h.numberOfSentPackets))).credits t := by
    cases t <;> rfl
  rw [hset, credits_setCredits]
  split
  next htype => rw [htype]
  · rfl

/-- Without a waiting fragment the credits that come back are those that were waited for, or come to
connections that are asked. -/
theorem serves_release_of_empty (hs : s.Serves) (hempty : s.fragmentsToSend.items = [])
    (hrestart : ¬ (0 < h.numberOfSentPackets ∧ s.credits h.connectionType = 0)) :
    (s.release h).Serves := by
  intro hposted _ other hmem hpos
  refine hs hposted hempty other (mem_remove.mp hmem).1 ?_
  rw [credits_release] at hpos
  split at hpos
  next htype =>
    by_contra hzero
    rw [Nat.pos_iff_ne_zero, not_not] at hzero
    have hsent : h.numberOfSentPackets = 0 := by
      by_contra hsent
      exact hrestart ⟨Nat.pos_of_ne_zero hsent, htype ▸ hzero⟩
    rw [hzero, hsent] at hpos
    exact absurd hpos (by decide)
  · exact hpos

theorem quiet_release (hq : s.Quiet) (h : AclQueueHandler) : (s.release h).Quiet :=
  quiet_of_same hq rfl fun h' hmem => ⟨h', (mem_remove.mp hmem).1, rfl⟩

theorem quiet_drop (hq : s.Quiet) (handle : Nat) : (s.dropPacketFragments handle).Quiet := by
  by_cases hempty : s.fragmentsToSend.items = []
  · rw [drop_of_empty hempty]
    exact hq
  · intro _ h' hmem
    obtain ⟨h, hh, hsame, -⟩ := mem_drop hmem
    rw [hsame]
    exact hq hempty h hh

theorem quiet_unregister (hq : s.Quiet) (hrun : s.unregister handle = some s') : s'.Quiet := by
  obtain ⟨h, -, rfl⟩ := unregister_inv hrun
  split
  · exact quiet_startRoundRobin (quiet_release (quiet_drop hq handle) h)
  · exact quiet_release (quiet_drop hq handle) h

/-- All waiting fragments go with the connection. -/
theorem serves_release_iff (hq : s.Quiet) (hne : s.fragmentsToSend.items ≠ [])
    {h₀ : AclQueueHandler} (hfind : s.find h₀.handle = some h₀)
    (hall : ∀ f ∈ s.fragmentsToSend.items, f.handle = h₀.handle)
    (hrestart : ¬ (0 < s.reclaimed h₀ ∧ s.credits h₀.connectionType = 0))
    (hsent : (s.withoutFragments h₀).numberOfSentPackets = s.reclaimed h₀) :
    ((s.dropPacketFragments h₀.handle).release (s.withoutFragments h₀)).Serves ↔
      ¬ s.Strands (.unregister h₀.handle) := by
  have hcredits : ∀ t, ((s.dropPacketFragments h₀.handle).release (s.withoutFragments h₀)).credits
      t = s.creditsWithout h₀ t := by
    intro t
    rw [credits_release, credits_drop, hsent]
    rfl
  constructor
  · rintro hserves ⟨h, he, hfind', hposted, -, -, -, other, hmem, hother, hpos⟩
    have hsame : h = h₀ := by
      have hhandle : h₀.handle = h.handle := SchedulerEvent.unregister.inj he
      rw [hhandle] at hfind
      exact Option.some.inj (hfind'.symm.trans hfind)
    subst hsame
    have hposted' : ((s.dropPacketFragments h.handle).release (s.withoutFragments h)).posted = 0 :=
      (posted_drop h.handle).trans hposted
    have hregistered := hserves hposted' ((items_drop hne h.handle).mpr hall) other
      (mem_remove.mpr ⟨mem_drop_of_ne hmem hother, hother⟩) (by rw [hcredits]; exact hpos)
    -- while fragments waited nobody was registered
    rw [hq hne other hmem] at hregistered
    cases hregistered
  · intro hstrands hposted _ other' hmem hpos
    obtain ⟨hmem', hother'⟩ := mem_remove.mp hmem
    obtain ⟨other, hmem₀, -, htype, hhandle⟩ := mem_drop hmem'
    refine absurd ⟨h₀, rfl, hfind, (posted_drop h₀.handle).symm.trans hposted, hne, hall, hrestart,
      other, hmem₀, ?_, ?_⟩ hstrands
    · rw [← hhandle]
      exact hother'
    · rw [← htype, ← hcredits]
      exact hpos

theorem serves_unregister_iff (hq : s.Quiet) (hs : s.Serves)
    (hrun : s.unregister handle = some s') : s'.Serves ↔ ¬ s.Strands (.unregister handle) := by
  obtain ⟨h, hfind, rfl⟩ := unregister_inv hrun
  by_cases hempty : s.fragmentsToSend.items = []
  · have hnot : ¬ s.Strands (.unregister handle) := by
      rintro ⟨-, -, -, -, hne, -⟩
      exact hne hempty
    refine iff_of_true ?_ hnot
    rw [drop_of_empty hempty]
    split
    · exact serves_startRoundRobin
    next hrestart => exact serves_release_of_empty hs hempty hrestart
  · obtain ⟨h₀, hfind₀, rfl⟩ := find_drop hempty hfind
    have hhandle : h₀.handle = handle := (mem_of_find hfind₀).2
    subst hhandle
    by_cases hall : ∀ f ∈ s.fragmentsToSend.items, f.handle = h₀.handle
    · have hsent : (s.withoutFragments h₀).numberOfSentPackets = s.reclaimed h₀ := by
        have hdropped : (s.fragmentsToSend.items.filter fun f => decide (f.handle = h₀.handle)) =
            s.fragmentsToSend.items := List.filter_eq_self.mpr fun f hf => by simpa using hall f hf
        rw [withoutFragments, reclaimed, hdropped]
      rw [hsent, credits_drop]
      split
      next hrestart =>
        refine iff_of_true serves_startRoundRobin ?_
        rintro ⟨h, he, hfind', -, -, -, hnot, -⟩
        have hsame : h₀.handle = h.handle := SchedulerEvent.unregister.inj he
        rw [hsame] at hfind₀
        cases hfind'.symm.trans hfind₀
        exact hnot hrestart
      next hrestart => exact serves_release_iff hq hempty hfind₀ hall hrestart hsent
    · -- fragments of another connection are left
      refine iff_of_true ?_ ?_
      · have hleft : (s.dropPacketFragments h₀.handle).fragmentsToSend.items ≠ [] :=
          fun hnil => hall ((items_drop hempty h₀.handle).mp hnil)
        split
        · exact serves_startRoundRobin
        · exact serves_of_items hleft
      · rintro ⟨h, he, -, -, -, hall', -⟩
        rw [← SchedulerEvent.unregister.inj he] at hall'
        exact hall hall'

/-! ### Whole runs -/

theorem not_strands {e : SchedulerEvent} (he : ∀ handle, e ≠ .unregister handle) :
    ¬ s.Strands e := by
  rintro ⟨h, heq, -⟩
  exact he h.handle heq

theorem step_serves (hq : s.Quiet) (hs : s.Serves) {e : SchedulerEvent}
    (hrun : s.step e = some s') : s'.Quiet ∧ (s'.Serves ↔ ¬ s.Strands e) := by
  cases e with
  | register t handle =>
    obtain ⟨hquiet, hserves⟩ := quiet_register hq hrun
    exact ⟨hquiet, iff_of_true hserves (not_strands (by simp))⟩
  -- only a connection that goes may leave the others stranded
  | unregister handle => exact ⟨quiet_unregister hq hrun, serves_unregister_iff hq hs hrun⟩
  | setLinkPriority handle highPriority =>
    cases hrun
    have hhandlers : ∀ h' ∈ (s.setLinkPriority handle highPriority).aclQueueHandlers,
        ∃ h ∈ s.aclQueueHandlers, h'.dequeueIsRegistered = h.dequeueIsRegistered ∧
          h'.connectionType = h.connectionType ∧ h'.handle = h.handle :=
      fun h' hmem => mem_update_dequeue hmem fun _ => ⟨rfl, rfl, rfl⟩
    refine ⟨quiet_of_same hq rfl fun h' hmem => ?_, iff_of_true ?_ (not_strands (by simp))⟩
    · obtain ⟨h, hh, hsame, -⟩ := hhandlers h' hmem
      exact ⟨h, hh, hsame⟩
    · intro hposted hempty h' hmem hpos
      obtain ⟨h, hh, hsame, htype, -⟩ := hhandlers h' hmem
      rw [hsame]
      rw [htype] at hpos
      exact hs hposted hempty h hh hpos
  | packet handle packet =>
    simp only [step] at hrun
    split at hrun
    · obtain ⟨hquiet, hserves⟩ := quiet_bufferPacket hq hs hrun
      exact ⟨hquiet, iff_of_true hserves (not_strands (by simp))⟩
    · cases hrun
      exact ⟨hq, iff_of_true hs (not_strands (by simp))⟩
  | enqueue =>
    simp only [step] at hrun
    split at hrun
    · obtain ⟨hquiet, hserves⟩ := quiet_handleEnqueueNextFragment hq hrun
      exact ⟨hquiet, iff_of_true hserves (not_strands (by simp))⟩
    · cases hrun
      exact ⟨hq, iff_of_true hs (not_strands (by simp))⟩
  | startRoundRobin =>
    simp only [step] at hrun
    split at hrun
    · cases hrun
      exact ⟨quiet_startRoundRobin hq, iff_of_true serves_startRoundRobin (not_strands (by simp))⟩
    · cases hrun
      exact ⟨hq, iff_of_true hs (not_strands (by simp))⟩
  | completed handle credits =>
    cases hrun
    obtain ⟨hquiet, hserves⟩ := quiet_incomingAclCredits hq hs handle credits
    exact ⟨hquiet, iff_of_true hserves (not_strands (by simp))⟩

/-- In every state of a run in which no task is posted and no fragment waits, each connection with
credits is asked for its packets, exactly if no connection is unregistered that takes the last
waiting fragments with it while another has credits and no one asks it. -/
theorem never_stalls_iff (b : Buffers) (events : List SchedulerEvent) :
    Along step Serves (init b) events ↔ Avoids step Strands (init b) events :=
  along_iff (fun _ _ _ hq hs hrun => step_serves hq hs hrun) events (quiet_of_items rfl)
    (fun _ _ _ hmem => absurd hmem List.not_mem_nil)

/-- Of two connections the one whose packet waits for the HCI queue is unregistered: the other has
all credits, but it is not asked for its packets, and nothing is going to happen. -/
theorem unregister_stalls :
    let s := [SchedulerEvent.register .classic 1, .register .classic 2, .packet 1 ⟨[1], false⟩,
      .unregister 1].foldlM step (init ⟨2, 10, 2, 10⟩)
    s.map (fun s => (s.posted, s.fragmentsToSend.items, s.credits .classic, s.enqueueRegistered)) =
        some (0, [], 2, false) ∧
      s.map (fun s => s.aclQueueHandlers) = some [⟨2, .classic, false, 0, false⟩] := by
  decide +kernel

end RoundRobinScheduler

end BluetoothStack.Acl
