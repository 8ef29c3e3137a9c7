import BluetoothStack.Acl.Scheduler

/-!
# BluetoothStack.Acl.SchedulerOrder

Which operations the connection scheduler starts and which one it knows to be running.

The operations that were started and those that wait form one line, in which a call adds an
operation at the end or takes out one that waits (`call_line`).
-/

namespace BluetoothStack.Acl

open BluetoothStack.Lib

namespace AclScheduler

variable {s : AclScheduler}

theorem tryDequeue_cases (s : AclScheduler) (calls : List Callback) :
    s.tryDequeueNextOperation calls = (s, calls) ∨
    ∃ front rest, s.pendingOutgoingOperations = front :: rest ∧ s.readyToSendNextOperation ∧
      s.tryDequeueNextOperation calls =
        ({ s with pendingOutgoingOperations := rest, outgoingEntry := some front },
          calls ++ [.start front]) := by
  unfold tryDequeueNextOperation
  split
  · exact Or.inl rfl
  next front rest hpending =>
    split
    next hready => exact Or.inr ⟨front, rest, hpending, hready, rfl⟩
    · exact Or.inl rfl

/-! ### Order -/

/-- The effect of a call on the operations that wait: `added` come in at the end, the first ones
may be started, and one may be cancelled. -/
def Line (s : AclScheduler) (added : List QueueEntry) (result : AclScheduler × List Callback) :
    Prop :=
  (result.2.filterMap Callback.started? ++ result.1.pendingOutgoingOperations =
      s.pendingOutgoingOperations ++ added ∧ result.2.filterMap Callback.cancelled? = []) ∨
    ∃ front entry back, s.pendingOutgoingOperations = front ++ entry :: back ∧
      result.1.pendingOutgoingOperations = front ++ back ∧ added = [] ∧
      result.2.filterMap Callback.started? = [] ∧ result.2.filterMap Callback.cancelled? = [entry]

variable {calls : List Callback} {call : AclCall}

theorem Line.tryDequeue {s' : AclScheduler} {added : List QueueEntry}
    (hpending : s'.pendingOutgoingOperations = s.pendingOutgoingOperations ++ added)
    (hstarted : calls.filterMap Callback.started? = [])
    (hcancelled : calls.filterMap Callback.cancelled? = []) :
    s.Line added (s'.tryDequeueNextOperation calls) := by
  rcases s'.tryDequeue_cases calls with hrun | ⟨front, rest, hline, -, hrun⟩
  · rw [hrun]
    exact Or.inl ⟨by simp [hstarted, hpending], hcancelled⟩
  · rw [hrun]
    refine Or.inl ⟨?_, by simp [hcancelled, Callback.cancelled?]⟩
    rw [← hpending, hline]
    simp [hstarted, Callback.started?]

theorem Line.unchanged {s' : AclScheduler}
    (hpending : s'.pendingOutgoingOperations = s.pendingOutgoingOperations)
    (hstarted : calls.filterMap Callback.started? = [])
    (hcancelled : calls.filterMap Callback.cancelled? = []) : s.Line [] (s', calls) :=
  Or.inl ⟨by simp [hstarted, hpending], hcancelled⟩

theorem Line.cancel (s : AclScheduler) (matcher : QueueEntry → Bool) {cancelOutgoing : Callback}
    {cancelledQueued : QueueEntry → Callback} (hstarted : cancelOutgoing.started? = none)
    (hcancelled : cancelOutgoing.cancelled? = none)
    (hstarted' : ∀ entry, (cancelledQueued entry).started? = none)
    (hcancelled' : ∀ entry, (cancelledQueued entry).cancelled? = some entry) :
    s.Line [] (s.cancelOutgoingOrQueuedConnection matcher cancelOutgoing cancelledQueued) := by
  unfold cancelOutgoingOrQueuedConnection
  split
  · exact Line.unchanged rfl (by simp [hstarted]) (by simp [hcancelled])
  · split
    · exact Line.unchanged rfl rfl rfl
    next entry hfind =>
      obtain ⟨hmatch, front, back, hline, hothers⟩ := List.find?_eq_some_iff_append.mp hfind
      refine Or.inr ⟨front, entry, back, hline, ?_, rfl, by simp [hstarted'], by simp [hcancelled']⟩
      dsimp only
      rw [hline, List.eraseP_append_right _ (by simpa using hothers),
        List.eraseP_cons_of_pos hmatch]

theorem call_line (s : AclScheduler) (fix : Bool) (callback : Nat) (call : AclCall) :
    s.Line (call.added callback) (s.call fix callback call) := by
  cases call with
  | enqueueOutgoingAclConnection address | enqueueRemoteNameRequest address =>
    exact Line.tryDequeue rfl rfl rfl
  | registerPendingIncomingConnection address | stop => exact Line.unchanged rfl rfl rfl
  | reportAclConnectionCompletion address =>
    simp only [AclScheduler.call, reportAclConnectionCompletion]
    split
    · exact Line.tryDequeue (List.append_nil _).symm rfl rfl
    · split
      · exact Line.tryDequeue (List.append_nil _).symm rfl rfl
      · exact Line.tryDequeue (List.append_nil _).symm rfl rfl
  | reportOutgoingAclConnectionFailure =>
    simp only [AclScheduler.call, reportOutgoingAclConnectionFailure]
    split
    · exact Line.tryDequeue (List.append_nil _).symm rfl rfl
    · exact Line.unchanged rfl rfl rfl
  | cancelAclConnection address | cancelRemoteNameRequest address =>
    exact Line.cancel s _ rfl rfl (fun _ => rfl) fun _ => rfl
  | reportRemoteNameRequestCompletion address =>
    simp only [AclScheduler.call, reportRemoteNameRequestCompletion]
    split
    · exact Line.unchanged rfl rfl rfl
    · exact Line.tryDequeue (List.append_nil _).symm rfl rfl

/-! ### The running operation -/

/-- A remote name request to a peer that connects would be started although an operation runs. -/
def overtakes (s : AclScheduler) (pending : List QueueEntry) (incoming : Finset Address) : Bool :=
  s.outgoingEntry.isSome && !s.stopped && pending.head?.any fun front =>
    decide (front.operation = .remoteNameRequest) && decide (front.address ∈ incoming)

/-- What the record of the running operation needs: no request overtakes it, and a remote name
request is reported as completed only if it is the one that runs. -/
def proper (s : AclScheduler) : AclCall → Bool
  | .enqueueOutgoingAclConnection _ =>
    !s.overtakes s.pendingOutgoingOperations s.incomingConnectingAddressSet
  | .enqueueRemoteNameRequest address =>
    !s.overtakes (s.pendingOutgoingOperations ++ [⟨.remoteNameRequest, address, 0⟩])
      s.incomingConnectingAddressSet
  | .reportAclConnectionCompletion address =>
    s.outgoingEntry.any (fun entry => entry.is .createConnection address) ||
      !s.overtakes s.pendingOutgoingOperations (s.incomingConnectingAddressSet.erase address)
  | .reportRemoteNameRequestCompletion address =>
    s.outgoingEntry.all fun entry => entry.is .remoteNameRequest address
  | _ => true

theorem outgoingEntry_of_ready (hready : s.readyToSendNextOperation)
    (hproper : s.overtakes s.pendingOutgoingOperations s.incomingConnectingAddressSet = false) :
    s.outgoingEntry = none := by
  unfold readyToSendNextOperation at hready
  unfold overtakes at hproper
  split at hready
  · cases hready
  rename_i hstopped
  split at hready
  · cases hready
  rename_i front rest hpending
  split at hready
  next hbypass => simpa [hpending, hbypass.1, hbypass.2, hstopped] using hproper
  · rw [Bool.and_eq_true, Option.isNone_iff_eq_none] at hready
    exact hready.2

/-- The outgoing entry is left in place, or a started operation takes an empty one. -/
theorem tryDequeue_recorded
    (hproper : s.overtakes s.pendingOutgoingOperations s.incomingConnectingAddressSet = false)
    (hstarted : calls.filterMap Callback.started? = []) :
    s.outgoingEntry.toList ++ (s.tryDequeueNextOperation calls).2.filterMap Callback.started? =
      (s.tryDequeueNextOperation calls).1.outgoingEntry.toList := by
  rcases s.tryDequeue_cases calls with hrun | ⟨front, rest, hline, hready, hrun⟩
  · rw [hrun]
    simp [hstarted]
  · rw [hrun, outgoingEntry_of_ready hready hproper]
    simp [hstarted, Callback.started?]

theorem tryDequeue_recorded_of_none (hnone : s.outgoingEntry = none)
    (hstarted : calls.filterMap Callback.started? = []) :
    (s.tryDequeueNextOperation calls).2.filterMap Callback.started? =
      (s.tryDequeueNextOperation calls).1.outgoingEntry.toList := by
  have hrecorded := tryDequeue_recorded (s := s) (by simp [overtakes, hnone]) hstarted
  rw [hnone] at hrecorded
  exact hrecorded

/-- What a finished operation leaves of the outgoing entry. -/
def settled (s : AclScheduler) (call : AclCall) : List QueueEntry :=
  s.outgoingEntry.toList.filter fun entry => !call.finishes entry

theorem settled_of_finishes_none (h : ∀ entry ∈ s.outgoingEntry, call.finishes entry = false) :
    s.settled call = s.outgoingEntry.toList := by
  refine List.filter_eq_self.mpr ?_
  intro entry hentry
  rw [h entry (Option.mem_toList.mp hentry)]
  rfl

theorem settled_of_finishes (h : ∀ entry ∈ s.outgoingEntry, call.finishes entry) :
    s.settled call = [] := by
  refine List.filter_eq_nil_iff.mpr ?_
  intro entry hentry
  rw [h entry (Option.mem_toList.mp hentry)]
  exact Bool.false_ne_true

theorem enqueue_recorded {entry : QueueEntry}
    (hproper : s.overtakes (s.pendingOutgoingOperations ++ [entry])
      s.incomingConnectingAddressSet = false) :
    s.outgoingEntry.toList ++ (s.enqueue entry).2.filterMap Callback.started? =
      (s.enqueue entry).1.outgoingEntry.toList :=
  tryDequeue_recorded (s := { s with
    pendingOutgoingOperations := s.pendingOutgoingOperations ++ [entry] }) hproper rfl

theorem cancel_recorded (s : AclScheduler) (matcher : QueueEntry → Bool) {cancelOutgoing : Callback}
    {cancelledQueued : QueueEntry → Callback} (hstarted : cancelOutgoing.started? = none)
    (hstarted' : ∀ entry, (cancelledQueued entry).started? = none) :
    s.outgoingEntry.toList ++ (s.cancelOutgoingOrQueuedConnection matcher cancelOutgoing
        cancelledQueued).2.filterMap Callback.started? =
      (s.cancelOutgoingOrQueuedConnection matcher cancelOutgoing
        cancelledQueued).1.outgoingEntry.toList := by
  unfold cancelOutgoingOrQueuedConnection
  split
  · simp [hstarted]
  · split <;> simp [hstarted']

theorem call_recorded (s : AclScheduler) (fix : Bool) (callback : Nat) (hproper : s.proper call) :
    s.settled call ++ (s.call fix callback call).2.filterMap Callback.started? =
      (s.call fix callback call).1.outgoingEntry.toList := by
  cases call with
  | enqueueOutgoingAclConnection address =>
    rw [settled_of_finishes_none fun _ _ => rfl]
    refine enqueue_recorded ?_
    rw [proper, Bool.not_eq_true'] at hproper
    cases hpending : s.pendingOutgoingOperations with
    | nil => simp [overtakes]
    | cons front rest =>
      rw [hpending] at hproper
      exact hproper
  | registerPendingIncomingConnection address | stop =>
    rw [settled_of_finishes_none fun _ _ => rfl]
    exact List.append_nil _
  | reportAclConnectionCompletion address =>
    simp only [AclScheduler.call, reportAclConnectionCompletion]
    split
    -- the operation that runs is the one that is completed
    next hout =>
      rw [settled_of_finishes]
      · exact tryDequeue_recorded_of_none rfl rfl
      · intro entry hentry
        rw [Option.mem_def.mp hentry, Option.any_some] at hout
        exact hout
    -- another one runs: its entry stays, and no request overtakes it
    next hout =>
      have hother : ∀ entry ∈ s.outgoingEntry, entry.is .createConnection address = false := by
        intro entry hentry
        rw [Option.mem_def.mp hentry, Option.any_some, Bool.not_eq_true] at hout
        exact hout
      rw [settled_of_finishes_none hother]
      rw [Bool.not_eq_true] at hout
      rw [proper, hout, Bool.false_or, Bool.not_eq_true'] at hproper
      split
      · exact @tryDequeue_recorded { s with
          incomingConnectingAddressSet := (s.incomingConnectingAddressSet.erase address) }
          [.handleIncomingConnection address] hproper rfl
      next hunknown =>
        rw [Finset.erase_eq_of_notMem hunknown] at hproper
        exact tryDequeue_recorded hproper rfl
  | reportOutgoingAclConnectionFailure =>
    simp only [AclScheduler.call, reportOutgoingAclConnectionFailure]
    split
    next hout =>
      rw [settled_of_finishes]
      · exact tryDequeue_recorded_of_none rfl rfl
      · intro entry hentry
        rw [Option.mem_def.mp hentry, Option.any_some] at hout
        exact hout
    next hout =>
      rw [settled_of_finishes_none]
      · exact List.append_nil _
      · intro entry hentry
        rw [Option.mem_def.mp hentry, Option.any_some, Bool.not_eq_true] at hout
        exact hout
  | cancelAclConnection address | cancelRemoteNameRequest address =>
    rw [settled_of_finishes_none fun _ _ => rfl]
    exact cancel_recorded s _ rfl fun _ => rfl
  | enqueueRemoteNameRequest address =>
    rw [settled_of_finishes_none fun _ _ => rfl]
    refine enqueue_recorded ?_
    rw [proper, Bool.not_eq_true'] at hproper
    cases hpending : s.pendingOutgoingOperations with
    | nil | cons front rest =>
      rw [hpending] at hproper
      exact hproper
  | reportRemoteNameRequestCompletion address =>
    have hown : ∀ entry ∈ s.outgoingEntry, entry.is .remoteNameRequest address := by
      intro entry hentry
      rw [proper, Option.mem_def.mp hentry, Option.all_some] at hproper
      exact hproper
    rw [settled_of_finishes hown]
    simp only [AclScheduler.call, reportRemoteNameRequestCompletion]
    split
    next hnone =>
      rw [Option.isNone_iff_eq_none.mp hnone]
      rfl
    · exact tryDequeue_recorded_of_none rfl rfl

theorem handleOutgoingConnection_mem {entry : QueueEntry} (hout : s.outgoingEntry = some entry)
    (hcreate : entry.operation = .createConnection) (fix : Bool) :
    .handleOutgoingConnection entry.address ∈
      (s.reportAclConnectionCompletion fix entry.address).2 := by
  unfold reportAclConnectionCompletion
  rw [if_pos (by simp [hout, QueueEntry.is, hcreate])]
  rcases tryDequeue_cases _ [.handleOutgoingConnection entry.address] with
    hrun | ⟨front, rest, -, -, hrun⟩
  · rw [hrun]
    exact List.mem_cons_self
  · rw [hrun]
    exact List.mem_append_left _ List.mem_cons_self

end AclScheduler

namespace History

/-- The places of the operations that were started and of those that wait. -/
def line (h : History) : List Nat :=
  (h.started ++ h.scheduler.pendingOutgoingOperations).map QueueEntry.callback

structure OrderInv (h : History) : Prop where
  sorted : h.line.Pairwise (· < ·)
  below : ∀ n ∈ h.line, n < h.enqueued
  gone : ∀ entry ∈ h.cancelled, entry.callback ∉ h.line ∧ entry.callback < h.enqueued

theorem OrderInv.init : History.init.OrderInv :=
  ⟨List.Pairwise.nil, fun _ hn => absurd hn List.not_mem_nil,
    fun _ hentry => absurd hentry List.not_mem_nil⟩

variable {h : History} {fix : Bool}

theorem added_cases (n : Nat) (call : AclCall) :
    call.added n = [] ∨ ∃ entry, call.added n = [entry] ∧ entry.callback = n := by
  cases call <;> simp [AclCall.added]

theorem OrderInv.step (hi : h.OrderInv) (fix : Bool) (call : AclCall) :
    (h.step fix call).OrderInv := by
  rcases h.scheduler.call_line fix h.enqueued call with
    ⟨hline, hcancelled⟩ | ⟨front, entry, back, hpending, hpending', hadded, hstarted, hcancelled⟩
  · have hsame : (h.step fix call).line = h.line ++ (call.added h.enqueued).map
        QueueEntry.callback := by
      simp only [line, History.step, List.append_assoc, hline, List.map_append]
    have hgone : (h.step fix call).cancelled = h.cancelled := by
      simp only [History.step, hcancelled, List.append_nil]
    rcases added_cases h.enqueued call with hnone | ⟨entry, hentry, hplace⟩
    · have hcount : (h.step fix call).enqueued = h.enqueued := by
        simp only [History.step, hnone, List.length_nil, Nat.add_zero]
      rw [hnone, List.map_nil, List.append_nil] at hsame
      refine ⟨?_, ?_, ?_⟩
      · rw [hsame]
        exact hi.sorted
      · rw [hsame, hcount]
        exact hi.below
      · rw [hsame, hcount, hgone]
        exact hi.gone
    · have hcount : (h.step fix call).enqueued = h.enqueued + 1 := by
        simp only [History.step, hentry, List.length_singleton]
      rw [hentry, List.map_singleton, hplace] at hsame
      refine ⟨?_, ?_, ?_⟩
      · rw [hsame, List.pairwise_append]
        refine ⟨hi.sorted, List.pairwise_singleton _ _, ?_⟩
        intro n hn m hm
        rw [List.mem_singleton.mp hm]
        exact hi.below n hn
      · intro n hn
        rw [hsame, List.mem_append, List.mem_singleton] at hn
        rw [hcount]
        rcases hn with hn | rfl
        · exact Nat.lt_succ_of_lt (hi.below n hn)
        · exact Nat.lt_succ_self _
      · intro c hc
        rw [hgone] at hc
        obtain ⟨hout, hlt⟩ := hi.gone c hc
        rw [hsame, hcount, List.mem_append, List.mem_singleton]
        exact ⟨fun hin => hin.elim hout fun heq => hlt.ne heq, Nat.lt_succ_of_lt hlt⟩
  · have hcount : (h.step fix call).enqueued = h.enqueued := by
      simp only [History.step, hadded, List.length_nil, Nat.add_zero]
    have hgone : (h.step fix call).cancelled = h.cancelled ++ [entry] := by
      simp only [History.step, hcancelled]
    have hbefore : h.line = (h.started ++ front).map QueueEntry.callback ++
        entry.callback :: back.map QueueEntry.callback := by
      simp [line, hpending]
    have hafter : (h.step fix call).line =
        (h.started ++ front).map QueueEntry.callback ++ back.map QueueEntry.callback := by
      simp [line, History.step, hstarted, hpending']
    have hsub : List.Sublist (h.step fix call).line h.line := by
      rw [hafter, hbefore]
      exact List.Sublist.append_left (List.sublist_cons_self _ _) _
    refine ⟨hi.sorted.sublist hsub, ?_, ?_⟩
    · rw [hcount]
      exact fun n hn => hi.below n (hsub.subset hn)
    · intro c hc
      rw [hgone, List.mem_append, List.mem_singleton] at hc
      rw [hcount]
      rcases hc with hc | rfl
      · exact ⟨fun hin => (hi.gone c hc).1 (hsub.subset hin), (hi.gone c hc).2⟩
      · -- places are different, so the one that was taken out is not in the line any more
        have hnodup : h.line.Nodup := hi.sorted.imp fun hlt => Nat.ne_of_lt hlt
        rw [hbefore, List.nodup_middle, List.nodup_cons] at hnodup
        rw [hafter]
        refine ⟨hnodup.1, hi.below _ ?_⟩
        rw [hbefore]
        exact List.mem_append_right _ List.mem_cons_self

/-- The scheduler records what runs. -/
def Recorded (h : History) : Prop := h.running = h.scheduler.outgoingEntry.toList

theorem Recorded.step (hr : h.Recorded) {call : AclCall} (hproper : h.scheduler.proper call) :
    (h.step fix call).Recorded := by
  have hcall := h.scheduler.call_recorded fix h.enqueued hproper
  rw [AclScheduler.settled, ← hr] at hcall
  exact hcall

/-- Operations are started in the order of their enqueuing, each at most once and none that was
cancelled while it waited. If the calls are proper, the outgoing entry is all that runs, and the
completion of a running connection is dispatched as such. -/
theorem operations_recorded (fix : Bool) (calls : List AclCall) :
    ((calls.foldl (step fix) init).started.map QueueEntry.callback).Pairwise (· < ·) ∧
    (∀ entry ∈ (calls.foldl (step fix) init).cancelled,
      entry.callback ∉ (calls.foldl (step fix) init).started.map QueueEntry.callback) ∧
    (allAlong (step fix) (fun h => h.scheduler.proper) init calls →
      (calls.foldl (step fix) init).running =
        (calls.foldl (step fix) init).scheduler.outgoingEntry.toList ∧
      ∀ entry ∈ (calls.foldl (step fix) init).running, entry.operation = .createConnection →
        .handleOutgoingConnection entry.address ∈ ((calls.foldl (step fix) init
          ).scheduler.reportAclConnectionCompletion fix entry.address).2) := by
  have horder : (calls.foldl (step fix) init).OrderInv := by
    induction calls using List.reverseRecOn with
    | nil => exact OrderInv.init
    | append_singleton calls call ih =>
      rw [List.foldl_append]
      exact ih.step fix call
  refine ⟨?_, ?_, ?_⟩
  · have hsorted := horder.sorted
    rw [line, List.map_append] at hsorted
    exact (List.pairwise_append.mp hsorted).1
  · intro entry hentry hstarted
    refine (horder.gone entry hentry).1 ?_
    rw [line, List.map_append]
    exact List.mem_append_left _ hstarted
  · intro hall
    have hrecorded : (calls.foldl (step fix) init).Recorded :=
      foldl_invariant (I := Recorded) (fun _ _ hr hproper => hr.step hproper) rfl hall
    refine ⟨hrecorded, ?_⟩
    intro entry hentry hcreate
    rw [hrecorded, Option.mem_toList] at hentry
    exact AclScheduler.handleOutgoingConnection_mem hentry hcreate fix

/-- A connection is made while another comes in; a name request waits for both. -/
theorem operations_recorded_three :
    let calls : List AclCall := [.enqueueOutgoingAclConnection 1,
      .registerPendingIncomingConnection 2, .enqueueRemoteNameRequest 3,
      .reportAclConnectionCompletion 2]
    (calls.foldl (step false) init).running = [⟨.createConnection, 1, 0⟩] ∧
      .handleOutgoingConnection 1 ∈ ((calls.foldl (step false) init
        ).scheduler.reportAclConnectionCompletion false 1).2 := by
  intro calls
  have hrunning : (calls.foldl (step false) init).running = [⟨.createConnection, 1, 0⟩] := by
    decide +kernel
  obtain ⟨-, -, hrecorded⟩ := operations_recorded false calls
  refine ⟨hrunning, (hrecorded (by decide +kernel)).2 ⟨.createConnection, 1, 0⟩ ?_ rfl⟩
  rw [hrunning]
  exact List.mem_cons_self

/-- A name request to a peer that connects takes the place of a running connection, whose
completion is unknown then. -/
theorem name_request_overwrites :
    let h := [.enqueueOutgoingAclConnection 1, .registerPendingIncomingConnection 2,
      .enqueueRemoteNameRequest 2].foldl (step false) init
    h.running = [⟨.createConnection, 1, 0⟩, ⟨.remoteNameRequest, 2, 1⟩] ∧
      h.scheduler.outgoingEntry = some ⟨.remoteNameRequest, 2, 1⟩ ∧
      (h.scheduler.reportAclConnectionCompletion false 1).2 =
        [.handleUnknownConnection 1 {2}] := by
  decide +kernel

end History

end BluetoothStack.Acl
