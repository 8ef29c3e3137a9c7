import BluetoothStack.Lib.FairMutex
import BluetoothStack.Lib.Runs

/-!
# BluetoothStack.Gatt.AttMtu

The MTU of an unenhanced ATT bearer (`AttMtu` in `mtu.rs`), with the events that are snooped and the
futures of `snapshot()`.

The mutex around the stable MTU is also what says that an exchange is pending. A bearer counts its
futures; those that were created and have not completed are `futures`. That the mutex is dropped,
which lets every future complete with `None`, is left out.
-/

namespace BluetoothStack.Gatt

open BluetoothStack.Lib

/-! ### The source -/

/-- `MtuEvent`. -/
inductive MtuEvent
  | outgoingRequest
  | incomingResponse (mtu : Nat)
  | incomingRequest (mtu : Nat)
  deriving DecidableEq, Repr

structure AttMtu where
  previousMtu : Nat
  stableMtu : FairMutex Nat
  /-- The guard of the mutex is in `pending_exchange`. -/
  pendingExchange : Bool
  deriving DecidableEq

namespace AttMtu

def defaultAttMtu : Nat := 23

def new : AttMtu := ⟨defaultAttMtu, .new defaultAttMtu, false⟩

/-- `snapshot_or_default`; its guard goes away at once. -/
def snapshotOrDefault (a : AttMtu) : Nat :=
  match a.stableMtu.tryLock with
  | some stableMtu => stableMtu.value
  | none => a.previousMtu

/-- `on_outgoing_request`. -/
def onOutgoingRequest (a : AttMtu) : Option AttMtu :=
  a.stableMtu.tryLock.map fun stableMtu => { a with stableMtu, pendingExchange := true }

/-- `on_incoming_response`. -/
def onIncomingResponse (a : AttMtu) (mtu : Nat) : Option AttMtu :=
  if a.pendingExchange then
    some
      { previousMtu := mtu, stableMtu := (a.stableMtu.set mtu).release, pendingExchange := false }
  else none

/-- `on_incoming_request`. -/
def onIncomingRequest (a : AttMtu) (mtu : Nat) : AttMtu :=
  match a.stableMtu.tryLock with
  | some stableMtu => { a with previousMtu := mtu, stableMtu := (stableMtu.set mtu).release }
  | none => { a with previousMtu := mtu }

/-- `handle_event`. -/
def handleEvent (a : AttMtu) : MtuEvent → Option AttMtu
  | .outgoingRequest => a.onOutgoingRequest
  | .incomingResponse mtu => a.onIncomingResponse mtu
  | .incomingRequest mtu => some (a.onIncomingRequest mtu)

/-- A future of `snapshot` is polled: with the lock it reads the MTU and lets the lock go. -/
def pollSnapshot (a : AttMtu) (id : Nat) : Option Nat × AttMtu :=
  match a.stableMtu.poll id with
  | (true, stableMtu) => (some stableMtu.value, { a with stableMtu := stableMtu.release })
  | (false, stableMtu) => (none, { a with stableMtu })

/-- A future of `snapshot` is dropped. -/
def dropSnapshot (a : AttMtu) (id : Nat) : AttMtu := { a with stableMtu := a.stableMtu.cancel id }

end AttMtu

/-! ### The bearer -/

inductive BearerEvent
  | mtu (event : MtuEvent)
  | snapshot
  | poll (id : Nat)
  | drop (id : Nat)
  deriving DecidableEq, Repr

structure Bearer where
  mtu : AttMtu
  futures : List Nat
  nextFuture : Nat
  /-- The MTU of the response or request that was handled last. -/
  lastHandled : Nat
  /-- An outgoing request failed although no exchange was pending. -/
  refused : Bool
  deriving DecidableEq

namespace Bearer

def new : Bearer := ⟨.new, [], 0, AttMtu.defaultAttMtu, false⟩

def handled (lastHandled : Nat) : MtuEvent → Nat
  | .outgoingRequest => lastHandled
  | .incomingResponse mtu => mtu
  | .incomingRequest mtu => mtu

def refuses (a : AttMtu) (event : MtuEvent) : Bool :=
  event = .outgoingRequest && !a.pendingExchange

/-- An event; only futures that have not completed are polled and dropped. -/
def step (b : Bearer) : BearerEvent → Option Bearer
  | .mtu event =>
    match b.mtu.handleEvent event with
    | some mtu => some { b with mtu, lastHandled := handled b.lastHandled event }
    | none => some { b with refused := b.refused || refuses b.mtu event }
  | .snapshot =>
    some { b with futures := b.futures ++ [b.nextFuture], nextFuture := b.nextFuture + 1 }
  | .poll id =>
    if id ∈ b.futures then
      match b.mtu.pollSnapshot id with
      | (some _, mtu) => some { b with mtu, futures := b.futures.erase id }
      | (none, mtu) => some { b with mtu }
    else none
  | .drop id =>
    if id ∈ b.futures then
      some { b with mtu := b.mtu.dropSnapshot id, futures := b.futures.erase id }
    else none

/-- No exchange is pending, and no future waits for the lock or was handed it. -/
def Quiet (b : Bearer) : Prop := b.mtu.pendingExchange = false ∧ ¬ b.mtu.stableMtu.InLine

/-- The MTU is not stale, and no request was refused without a reason. -/
structure Fresh (b : Bearer) : Prop where
  mtu : b.Quiet → b.mtu.snapshotOrDefault = b.lastHandled
  refused : b.refused = false

/-- What leaves the MTU stale: a request goes out while the lock is handed on after an exchange, or
the last future in line completes after the MTU of a request was not stored. -/
def Breaks (b : Bearer) : BearerEvent → Prop
  | .mtu .outgoingRequest => b.mtu.pendingExchange = false ∧ b.mtu.stableMtu.InLine
  | .poll id | .drop id =>
    b.mtu.stableMtu.owner = some (.task id) ∧ b.mtu.stableMtu.waiters = [] ∧
      b.mtu.stableMtu.value ≠ b.lastHandled
  | _ => False

/-- What begins it: a request of either side comes while the lock is handed on after an exchange,
and the one of the peer has another MTU than the lock. -/
def Misses (b : Bearer) : BearerEvent → Prop
  | .mtu .outgoingRequest => b.mtu.pendingExchange = false ∧ b.mtu.stableMtu.InLine
  | .mtu (.incomingRequest mtu) =>
    b.mtu.pendingExchange = false ∧ b.mtu.stableMtu.InLine ∧ mtu ≠ b.mtu.stableMtu.value
  | _ => False

/-! ### What every event keeps -/

/-- The guard is where the flag says, and the previous MTU is the one handled last. -/
structure Kept (b : Bearer) : Prop where
  guard : b.mtu.stableMtu.owner = some .guard ↔ b.mtu.pendingExchange = true
  previous : b.mtu.previousMtu = b.lastHandled

variable {b : Bearer} {m : FairMutex Nat} {b' : Bearer}

/-- Between the exchanges the lock is free exactly if nobody is in line. -/
theorem Kept.quiet_iff (h : b.Kept) : b.Quiet ↔ b.mtu.stableMtu.owner = none := by
  have hguard := h.guard
  have hfree := b.mtu.stableMtu.free
  rw [Quiet, FairMutex.InLine]
  cases howner : b.mtu.stableMtu.owner with
  | none =>
    rw [howner] at hguard hfree
    simp_all
  | some o => cases o <;> simp_all

/-- A bearer that nobody waits for is fresh if the stable MTU is the one handled last. -/
theorem Kept.fresh_iff (h : b.Kept) (hrefused : b.refused = false) :
    b.Fresh ↔ (b.mtu.stableMtu.owner = none → b.mtu.stableMtu.value = b.lastHandled) := by
  have hsnapshot : b.mtu.stableMtu.owner = none →
      b.mtu.snapshotOrDefault = b.mtu.stableMtu.value := by
    intro hfree
    rw [AttMtu.snapshotOrDefault, FairMutex.tryLock, if_pos hfree]
    rfl
  constructor
  · intro hfresh hfree
    rw [← hsnapshot hfree]
    exact hfresh.mtu (h.quiet_iff.mpr hfree)
  · intro hvalue
    refine ⟨fun hquiet => ?_, hrefused⟩
    have hfree := h.quiet_iff.mp hquiet
    rw [hsnapshot hfree]
    exact hvalue hfree

theorem kept_new : new.Kept := ⟨by decide, rfl⟩

theorem fresh_new : new.Fresh := ⟨fun _ => by decide, rfl⟩

/-! ### One event -/

theorem not_inLine_of_free (h : m.owner = none) : ¬ m.InLine := by
  rw [FairMutex.InLine, m.free h, h]
  simp

section

variable (hkept : b.Kept) (hfresh : b.Fresh)
include hkept hfresh

theorem step_outgoingRequest (hstep : b.step (.mtu .outgoingRequest) = some b') :
    b'.Kept ∧ (b'.Fresh ↔ ¬ b.Breaks (.mtu .outgoingRequest)) := by
  rw [step, AttMtu.handleEvent, AttMtu.onOutgoingRequest, FairMutex.tryLock] at hstep
  split at hstep
  next a ha =>
    cases hstep
    split at ha
    next hfree =>
      cases ha
      have hkept' : Kept { b with
          mtu := ⟨b.mtu.previousMtu, b.mtu.stableMtu.taken, true⟩
          lastHandled := b.lastHandled } := ⟨iff_of_true rfl rfl, hkept.previous⟩
      refine ⟨hkept', iff_of_true ?_ ?_⟩
      · exact (hkept'.fresh_iff hfresh.refused).mpr fun hfree' =>
          absurd hfree' (Option.some_ne_none _)
      · exact fun hbreaks => not_inLine_of_free hfree hbreaks.2
    · cases ha
  next ha =>
    cases hstep
    refine ⟨⟨hkept.guard, hkept.previous⟩, ?_⟩
    split at ha
    · cases ha
    rename_i hheld
    cases hpending : b.mtu.pendingExchange with
    | true =>
      refine iff_of_true ⟨hfresh.mtu, ?_⟩ ?_
      · simp [refuses, hfresh.refused, hpending]
      · rintro ⟨hfalse, -⟩
        rw [hpending] at hfalse
        cases hfalse
    | false =>
      refine iff_of_false ?_ ?_
      · intro hfresh'
        have hrefused := hfresh'.refused
        simp [refuses, hpending] at hrefused
      · rw [not_not]
        refine ⟨hpending, .inl ?_⟩
        -- The lock is held and there is no guard.
        have hguard : b.mtu.stableMtu.owner ≠ some .guard := by
          rw [Ne, hkept.guard, hpending]
          exact Bool.false_ne_true
        cases howner : b.mtu.stableMtu.owner with
        | none => exact absurd howner hheld
        | some o =>
          cases o with
          | guard => exact absurd howner hguard
          | task id => exact ⟨id, rfl⟩

theorem step_incomingResponse {mtu : Nat}
    (hstep : b.step (.mtu (.incomingResponse mtu)) = some b') : b'.Kept ∧ b'.Fresh := by
  rw [step, AttMtu.handleEvent, AttMtu.onIncomingResponse] at hstep
  split at hstep
  next a ha =>
    cases hstep
    split at ha
    · cases ha
      have hkept' : Kept { b with
          mtu := ⟨mtu, (b.mtu.stableMtu.set mtu).release, false⟩, lastHandled := mtu } :=
        ⟨iff_of_false FairMutex.owner_release_ne_guard Bool.false_ne_true, rfl⟩
      refine ⟨hkept', (hkept'.fresh_iff hfresh.refused).mpr fun _ => ?_⟩
      exact FairMutex.value_release
    · cases ha
  · cases hstep
    refine ⟨⟨hkept.guard, hkept.previous⟩, hfresh.mtu, ?_⟩
    simp [refuses, hfresh.refused]

theorem step_incomingRequest {mtu : Nat} (hstep : b.step (.mtu (.incomingRequest mtu)) = some b') :
    b'.Kept ∧ b'.Fresh := by
  cases hstep
  rw [AttMtu.onIncomingRequest, FairMutex.tryLock]
  by_cases hfree : b.mtu.stableMtu.owner = none
  · rw [if_pos hfree]
    have hpending : b.mtu.pendingExchange ≠ true := by
      rw [Ne, ← hkept.guard, hfree]
      simp
    dsimp only
    have hkept' : Kept { b with
        mtu := { b.mtu with
          previousMtu := mtu
          stableMtu := (b.mtu.stableMtu.taken.set mtu).release }
        lastHandled := mtu } :=
      ⟨iff_of_false FairMutex.owner_release_ne_guard hpending, rfl⟩
    refine ⟨hkept', (hkept'.fresh_iff hfresh.refused).mpr fun _ => ?_⟩
    exact FairMutex.value_release
  · rw [if_neg hfree]
    have hkept' : Kept { b with mtu := { b.mtu with previousMtu := mtu }, lastHandled := mtu } :=
      ⟨hkept.guard, rfl⟩
    exact ⟨hkept', (hkept'.fresh_iff hfresh.refused).mpr fun hfree' => absurd hfree' hfree⟩

/-- A future lets the lock go that was free or handed to it. -/
theorem fresh_release {id : Nat}
    (howner : b.mtu.stableMtu.owner = none ∨ b.mtu.stableMtu.owner = some (.task id))
    (hvalue : m.value = b.mtu.stableMtu.value) (hwaiters : m.waiters = b.mtu.stableMtu.waiters)
    (futures : List Nat) :
    let b' : Bearer := { b with mtu := { b.mtu with stableMtu := m.release }, futures }
    b'.Kept ∧
      (b'.Fresh ↔ ¬ (b.mtu.stableMtu.owner = some (.task id) ∧ b.mtu.stableMtu.waiters = [] ∧
      b.mtu.stableMtu.value ≠ b.lastHandled)) := by
  intro b'
  have hpending : b.mtu.pendingExchange ≠ true := by
    rw [Ne, ← hkept.guard]
    rcases howner with howner | howner
    · rw [howner]
      simp
    · rw [howner]
      simp
  have hkept' : b'.Kept := ⟨iff_of_false FairMutex.owner_release_ne_guard hpending, hkept.previous⟩
  have hstored : b.mtu.stableMtu.owner = none → b.mtu.stableMtu.value = b.lastHandled :=
    (hkept.fresh_iff hfresh.refused).mp hfresh
  refine ⟨hkept', ?_⟩
  rw [hkept'.fresh_iff hfresh.refused]
  change (m.release.owner = none → m.release.value = b.lastHandled) ↔ _
  rw [FairMutex.owner_release, FairMutex.value_release, hvalue, hwaiters]
  rcases howner with howner | howner
  · refine iff_of_true (fun _ => hstored howner) ?_
    rintro ⟨hhanded, -⟩
    rw [howner] at hhanded
    cases hhanded
  · simp [howner]

theorem fresh_same_owner (howner : m.owner = b.mtu.stableMtu.owner)
    (hvalue : m.value = b.mtu.stableMtu.value) (futures : List Nat) :
    let b' : Bearer := { b with mtu := { b.mtu with stableMtu := m }, futures }
    b'.Kept ∧ b'.Fresh := by
  intro b'
  have hkept' : b'.Kept := ⟨by rw [← hkept.guard, ← howner], hkept.previous⟩
  refine ⟨hkept', (hkept'.fresh_iff hfresh.refused).mpr fun hfree => ?_⟩
  change m.value = b.lastHandled
  rw [hvalue]
  refine (hkept.fresh_iff hfresh.refused).mp hfresh ?_
  rw [← howner]
  exact hfree

theorem step_poll {id : Nat} (hstep : b.step (.poll id) = some b') :
    b'.Kept ∧ (b'.Fresh ↔ ¬ b.Breaks (.poll id)) := by
  rw [step, AttMtu.pollSnapshot] at hstep
  split at hstep
  · have hvalue := FairMutex.value_poll (m := b.mtu.stableMtu) id
    cases hgets : (b.mtu.stableMtu.poll id).1 with
    | true =>
      obtain ⟨hwaiters, howner⟩ := FairMutex.waiters_poll hgets
      rw [← Prod.eta (b.mtu.stableMtu.poll id), hgets] at hstep
      cases hstep
      exact fresh_release hkept hfresh howner hvalue hwaiters (b.futures.erase id)
    | false =>
      obtain ⟨howner, hheld⟩ := FairMutex.owner_poll hgets
      rw [← Prod.eta (b.mtu.stableMtu.poll id), hgets] at hstep
      cases hstep
      obtain ⟨hkept', hfresh'⟩ := fresh_same_owner hkept hfresh howner hvalue b.futures
      refine ⟨hkept', iff_of_true hfresh' ?_⟩
      rintro ⟨hhanded, -⟩
      rw [FairMutex.poll, dif_pos (.inr hhanded)] at hgets
      cases hgets
  · cases hstep

theorem step_drop {id : Nat} (hstep : b.step (.drop id) = some b') :
    b'.Kept ∧ (b'.Fresh ↔ ¬ b.Breaks (.drop id)) := by
  rw [step, AttMtu.dropSnapshot, FairMutex.cancel] at hstep
  split at hstep
  · by_cases hhanded : b.mtu.stableMtu.owner = some (.task id)
    · rw [if_pos hhanded] at hstep
      cases hstep
      exact fresh_release hkept hfresh (.inr hhanded) rfl rfl (b.futures.erase id)
    · rw [if_neg hhanded] at hstep
      cases hstep
      obtain ⟨hkept', hfresh'⟩ :=
        fresh_same_owner (m := ⟨b.mtu.stableMtu.value, b.mtu.stableMtu.owner,
        b.mtu.stableMtu.waiters.erase id, fun h => by rw [b.mtu.stableMtu.free h]; rfl⟩)
        hkept hfresh rfl rfl (b.futures.erase id)
      exact ⟨hkept', iff_of_true hfresh' fun hbreaks => hhanded hbreaks.1⟩
  · cases hstep

end

theorem step_fresh_iff (b : Bearer) (e : BearerEvent) (b' : Bearer) (hkept : b.Kept)
    (hfresh : b.Fresh) (hstep : b.step e = some b') : b'.Kept ∧ (b'.Fresh ↔ ¬ b.Breaks e) := by
  cases e with
  | mtu event =>
    cases event with
    | outgoingRequest => exact step_outgoingRequest hkept hfresh hstep
    | incomingResponse mtu =>
      obtain ⟨hkept', hfresh'⟩ := step_incomingResponse hkept hfresh hstep
      exact ⟨hkept', iff_of_true hfresh' not_false⟩
    | incomingRequest mtu =>
      obtain ⟨hkept', hfresh'⟩ := step_incomingRequest hkept hfresh hstep
      exact ⟨hkept', iff_of_true hfresh' not_false⟩
  | snapshot =>
    cases hstep
    obtain ⟨hkept', hfresh'⟩ :=
      fresh_same_owner hkept hfresh (m := b.mtu.stableMtu) rfl rfl (b.futures ++ [b.nextFuture])
    exact ⟨⟨hkept'.guard, hkept'.previous⟩, iff_of_true ⟨hfresh'.mtu, hfresh'.refused⟩ not_false⟩
  | poll id => exact step_poll hkept hfresh hstep
  | drop id => exact step_drop hkept hfresh hstep

/-! ### What begins it -/

/-- Between the exchanges the lock has the MTU handled last, whoever is in line. -/
structure Current (b : Bearer) : Prop where
  kept : b.Kept
  value : b.mtu.pendingExchange = false → b.mtu.stableMtu.value = b.lastHandled
  refused : b.refused = false

theorem Current.pendingExchange (h : b.Current) (howner : b.mtu.stableMtu.owner ≠ some .guard) :
    b.mtu.pendingExchange = false :=
  Bool.eq_false_iff.mpr fun hpending => howner (h.kept.guard.mpr hpending)

theorem Current.fresh (h : b.Current) : b.Fresh := by
  refine (h.kept.fresh_iff h.refused).mpr fun hfree => h.value (h.pendingExchange ?_)
  rw [hfree]
  exact Option.some_ne_none _ |>.symm

theorem Current.not_breaks (h : b.Current) {e : BearerEvent} (hgood : ¬ b.Misses e) :
    ¬ b.Breaks e := by
  have hhanded {id : Nat} (howner : b.mtu.stableMtu.owner = some (.task id)) :
      b.mtu.stableMtu.value = b.lastHandled :=
    h.value (h.pendingExchange (by rw [howner]; simp))
  cases e with
  | mtu event =>
    cases event with
    | outgoingRequest => exact hgood
    | incomingResponse mtu | incomingRequest mtu => exact not_false
  | snapshot => exact not_false
  | poll id | drop id => exact fun hbreaks => hbreaks.2.2 (hhanded hbreaks.1)

theorem Current.step_mtu (h : b.Current) {event : MtuEvent}
    (hstep : b.step (.mtu event) = some b') (hgood : ¬ b.Misses (.mtu event))
    (hpending : b'.mtu.pendingExchange = false) : b'.mtu.stableMtu.value = b'.lastHandled := by
  cases event with
  | outgoingRequest =>
    rw [step, AttMtu.handleEvent, AttMtu.onOutgoingRequest, FairMutex.tryLock] at hstep
    split at hstep
    next a ha =>
      obtain ⟨m, -, rfl⟩ := Option.map_eq_some_iff.mp ha
      cases hstep
      cases hpending
    · cases hstep
      exact h.value hpending
  | incomingResponse mtu =>
    rw [step, AttMtu.handleEvent, AttMtu.onIncomingResponse] at hstep
    split at hstep
    next a ha =>
      obtain ⟨-, ha⟩ := Option.ite_none_right_eq_some.mp ha
      cases ha
      cases hstep
      exact FairMutex.value_release
    · cases hstep
      exact h.value hpending
  | incomingRequest mtu =>
    cases hstep
    rw [AttMtu.onIncomingRequest, FairMutex.tryLock] at hpending ⊢
    by_cases hfree : b.mtu.stableMtu.owner = none
    · rw [if_pos hfree]
      exact FairMutex.value_release
    · rw [if_neg hfree] at hpending ⊢
      -- The lock was handed on: the MTU is not stored, but it is the one that is there.
      by_contra hne
      refine hgood ⟨hpending, .inl ?_, fun heq => hne heq.symm⟩
      cases howner : b.mtu.stableMtu.owner with
      | none => exact absurd howner hfree
      | some o =>
        cases o with
        | guard => exact absurd (h.kept.guard.mp howner) (Bool.eq_false_iff.mp hpending)
        | task id => exact ⟨id, rfl⟩

theorem Current.step (h : b.Current) {e : BearerEvent} (hstep : b.step e = some b')
    (hgood : ¬ b.Misses e) : b'.Current := by
  obtain ⟨hkept, hfresh⟩ := step_fresh_iff b e b' h.kept h.fresh hstep
  refine ⟨hkept, ?_, (hfresh.mpr (h.not_breaks hgood)).refused⟩
  cases e with
  | mtu event => exact h.step_mtu hstep hgood
  | snapshot =>
    cases hstep
    exact h.value
  | poll id =>
    have hvalue := FairMutex.value_poll (m := b.mtu.stableMtu) id
    rw [Bearer.step, AttMtu.pollSnapshot] at hstep
    split at hstep
    · rw [← Prod.eta (b.mtu.stableMtu.poll id)] at hstep
      cases hgets : (b.mtu.stableMtu.poll id).1 with
      | true =>
        rw [hgets] at hstep
        cases hstep
        exact fun hpending => (FairMutex.value_release.trans hvalue).trans (h.value hpending)
      | false =>
        rw [hgets] at hstep
        cases hstep
        exact fun hpending => hvalue.trans (h.value hpending)
    · cases hstep
  | drop id =>
    obtain ⟨-, hstep⟩ := Option.ite_none_right_eq_some.mp hstep
    cases hstep
    exact fun hpending => (FairMutex.value_cancel id).trans (h.value hpending)

/-! ### Every interleaving -/

/-- The MTU is never stale and no request is refused between exchanges, exactly if no event finds
the lock on its way along the line; it is enough that no request comes while the lock is handed on.
-/
theorem mtu_fresh_iff (es : List BearerEvent) :
    (Along step Fresh new es ↔ Avoids step Breaks new es) ∧
      (Avoids step Misses new es → Along step Fresh new es) := by
  refine ⟨along_iff step_fresh_iff es kept_new fresh_new, fun havoids => ?_⟩
  exact havoids.along (I := Current) (fun _ _ _ h hstep hgood => h.step hstep hgood)
    (fun _ h => h.fresh) ⟨kept_new, fun _ => rfl, rfl⟩

/-- The peer asks for an MTU of 60 after its response of 50 and before the future that waited has
run: 50 is kept. A request that goes out there is refused. -/
theorem handed_lock_loses_mtu :
    (∃ b, List.foldlM step new [.mtu .outgoingRequest, .snapshot, .poll 0,
      .mtu (.incomingResponse 50),
        .mtu (.incomingRequest 60), .poll 0] = some b ∧ b.mtu.pendingExchange = false ∧
        b.futures = [] ∧ b.lastHandled = 60 ∧ b.mtu.snapshotOrDefault = 50) ∧
      ∃ b, List.foldlM step new [.mtu .outgoingRequest, .snapshot, .poll 0,
        .mtu (.incomingResponse 50)] = some b ∧ b.mtu.pendingExchange = false ∧
        b.mtu.handleEvent .outgoingRequest = none :=
  ⟨⟨_, rfl, by decide⟩, ⟨_, rfl, by decide⟩⟩

end Bearer

end BluetoothStack.Gatt
