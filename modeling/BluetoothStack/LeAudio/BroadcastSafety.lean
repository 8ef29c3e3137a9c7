import BluetoothStack.LeAudio.Broadcast

/-!
# BluetoothStack.LeAudio.BroadcastSafety

When the state machine of a broadcast does not abort.

A data path is requested for a handle of the BIG that exists. A suspension in the enabling state
terminates the BIG without waiting for the data path that is being set up, so the completion may
come after the end of its BIG. The machine alone would abort there; it does not in the stack,
because the ISO manager drops a completion for a handle that is not in its table any more.
-/

namespace BluetoothStack.LeAudio

open BluetoothStack.Lib

/-- The handle that a request for a data path is about. -/
def Request.handle? : Request → Option Nat
  | .setupIsoDataPath h => some h
  | .removeIsoDataPath h => some h
  | _ => none

/-- A request for a data path is about a handle of the BIG. -/
def Request.InBig (r : Request) (activeConfig : Option Handles) : Prop :=
  ∀ h, r.handle? = some h → ∃ hs, activeConfig = some hs ∧ h ∈ hs.toList

theorem Handles.nextOf_of_mem {hs : Handles} {h : Nat} (hmem : h ∈ hs.toList) :
    ∃ next, hs.nextOf h = some next ∧ ∀ x, next = some x → x ∈ hs.toList := by
  rw [nextOf]
  cases hd : hs.toList.dropWhile (· ≠ h) with
  | nil =>
    have hall := List.dropWhile_eq_nil_iff.mp hd h hmem
    simp at hall
  | cons y rest =>
    refine ⟨rest.head?, rfl, fun x hx => ?_⟩
    have hsub : (y :: rest).Sublist hs.toList := hd ▸ List.dropWhile_sublist _
    exact hsub.subset (List.mem_cons_of_mem y (List.mem_of_mem_head? hx))

namespace Machine

/-- In the streaming state there is a BIG. -/
def Good (m : Machine) : Prop := m.state = .streaming → m.activeConfig ≠ none

/-- A handler goes through, with this configuration afterwards, and asks for data paths of that BIG
only. -/
def Sound (activeConfig : Option Handles) (h : Handled) : Prop :=
  ∃ m rs, h = some (m, rs) ∧ m.activeConfig = activeConfig ∧ m.Good ∧
    ∀ r ∈ rs, r.InBig activeConfig

variable {m : Machine}

/-- A state other than streaming, and a request that is not about a data path. -/
theorem sound_of_request {n : Machine} {r : Request} (hstate : n.Good) (hr : r.handle? = none) :
    Sound n.activeConfig (some (n, [r])) := by
  refine ⟨n, [r], rfl, rfl, hstate, List.forall_mem_singleton.mpr fun h hh => ?_⟩
  rw [hr] at hh
  cases hh

theorem sound_of_nothing {n : Machine} (hstate : n.Good) : Sound n.activeConfig (some (n, [])) :=
  ⟨n, [], rfl, rfl, hstate, List.forall_mem_nil _⟩

theorem good_setState {state : State} (h : state ≠ .streaming) : (m.setState state).Good :=
  fun heq => absurd heq h

variable {hs : Handles} {h : Nat}

theorem good_of_active (h : m.activeConfig = some hs) : m.Good :=
  fun _ hnone => by rw [h] at hnone; cases hnone

theorem sound_setup (hactive : m.activeConfig = some hs) (hmem : h ∈ hs.toList) :
    Sound (some hs) (m.triggerIsoDatapathSetup h) := by
  rw [triggerIsoDatapathSetup, if_neg (by rw [hactive]; exact Option.some_ne_none hs)]
  refine ⟨m, _, rfl, hactive, good_of_active hactive, List.forall_mem_singleton.mpr ?_⟩
  rintro _ ⟨⟩
  exact ⟨hs, rfl, hmem⟩

theorem sound_teardown (hactive : m.activeConfig = some hs) (hmem : h ∈ hs.toList) :
    Sound (some hs) (m.triggerIsoDatapathTeardown h) := by
  rw [triggerIsoDatapathTeardown, if_neg (by rw [hactive]; exact Option.some_ne_none hs)]
  refine ⟨m, _, rfl, hactive, good_of_active hactive, List.forall_mem_singleton.mpr ?_⟩
  rintro _ ⟨⟩
  exact ⟨hs, rfl, hmem⟩

theorem sound_teardownFirst (hactive : m.activeConfig = some hs) :
    Sound (some hs) m.teardownFirst := by
  simp only [teardownFirst, hactive]
  exact sound_teardown hactive List.mem_cons_self

theorem sound_start (hg : m.Good) : Sound m.activeConfig m.start := by
  rw [start]
  split
  · exact sound_of_request (good_setState (by decide)) rfl
  · exact sound_of_request (good_setState (by decide)) rfl
  · exact sound_of_nothing (good_setState (by decide))
  · exact sound_of_nothing hg

theorem sound_onSetupIsoDataPath (hactive : m.activeConfig = some hs) (hmem : h ∈ hs.toList)
    (status : Bool) : Sound (some hs) (m.onSetupIsoDataPath status h) := by
  obtain ⟨next, hnext, hin⟩ := Handles.nextOf_of_mem hmem
  simp only [onSetupIsoDataPath, hactive, hnext]
  split
  · rw [← hactive]
    exact sound_of_request (n := m.setState .disabling) (good_setState (by decide)) rfl
  cases next with
  | none =>
    simp only
    split
    · exact sound_teardownFirst hactive
    · rw [← hactive]
      exact sound_of_nothing (n := m.setState .streaming) (good_of_active hactive)
  | some next => exact sound_setup hactive (hin next rfl)

theorem sound_onRemoveIsoDataPath (hactive : m.activeConfig = some hs) (hmem : h ∈ hs.toList)
    (status : Bool) : Sound (some hs) (m.onRemoveIsoDataPath status h) := by
  obtain ⟨next, hnext, hin⟩ := Handles.nextOf_of_mem hmem
  simp only [onRemoveIsoDataPath, hactive, hnext]
  split
  · rw [← hactive]
    exact sound_of_request (good_of_active hactive) rfl
  cases next with
  | none =>
    rw [← hactive]
    exact sound_of_request (good_of_active hactive) rfl
  | some next => exact sound_teardown hactive (hin next rfl)

theorem sound_onEnableAnnouncement (enable status : Bool) :
    Sound m.activeConfig (m.onEnableAnnouncement enable status) := by
  rw [onEnableAnnouncement]
  split
  · split
    · exact sound_start (good_setState (by decide))
    · exact sound_of_nothing (good_setState (by decide))
  · refine sound_of_nothing (good_setState ?_)
    split <;> decide

theorem sound_onCreateBig (hs : Handles) : Sound (some hs) (m.onCreateBig true hs) := by
  rw [onCreateBig, if_pos rfl]
  simp only
  split
  · exact sound_of_request (n := { m with activeConfig := some hs }) (good_of_active rfl) rfl
  · exact sound_setup rfl List.mem_cons_self

theorem sound_onTerminateBig : Sound none m.onTerminateBig := by
  have hgood (m' : Machine) (h : m'.state = .stopping ∨ m'.state = .configured) : m'.Good := by
    intro hstate
    rw [hstate] at h
    rcases h with h | h <;> cases h
  rw [onTerminateBig]
  by_cases hstop : m.state = .stopping
  · simp only [hstop, ne_eq, not_true, if_false, reduceCtorEq]
    exact sound_of_request (n := Machine.mk .stopping none) (hgood _ (Or.inl rfl)) rfl
  · simp only [ne_eq, hstop, not_false_iff, if_true]
    split
    · exact sound_of_nothing (n := Machine.mk .configured none) (hgood _ (Or.inr rfl))
    · exact sound_of_request (n := Machine.mk .configured none) (hgood _ (Or.inr rfl)) rfl

end Machine

/-- The configuration after the completion of a request. -/
def configAfter (activeConfig : Option Handles) (status : Bool) (hs : Handles) :
    Request → Option Handles
  | .createBig => if status then some hs else activeConfig
  | .terminateBig => if status then none else activeConfig
  | _ => activeConfig

theorem Machine.sound_complete {m : Machine} (hg : m.Good) {r : Request}
    (hr : r.InBig m.activeConfig) (status : Bool) (hs : Handles) :
    Sound (configAfter m.activeConfig status hs r) (m.complete status hs r) := by
  cases r with
  | enable enable => exact sound_onEnableAnnouncement enable status
  | createBig =>
    cases status with
    | true => exact sound_onCreateBig hs
    | false => exact sound_of_nothing hg
  | terminateBig =>
    cases status with
    | true => exact sound_onTerminateBig
    | false => exact sound_of_nothing hg
  | setupIsoDataPath h =>
    obtain ⟨hs', hactive, hmem⟩ := hr h rfl
    change Sound m.activeConfig _
    rw [hactive]
    exact sound_onSetupIsoDataPath hactive hmem status
  | removeIsoDataPath h =>
    obtain ⟨hs', hactive, hmem⟩ := hr h rfl
    change Sound m.activeConfig _
    rw [hactive]
    exact sound_onRemoveIsoDataPath hactive hmem status

/-! ### Runs -/

namespace Session

/-- The data paths that are asked for belong to the BIG. -/
structure Safe (s : Session) : Prop where
  good : s.machine.Good
  inBig : ∀ q ∈ s.outstanding, q.request.InBig s.machine.activeConfig

variable {s : Session}

/-- SUSPEND while a data path is set up: the BIG is terminated, and the completion comes then. -/
def suspendedSetup : List Input :=
  [.message .start, .answer 0 true (.single 1), .message .suspend, .answer 1 true (.single 1),
    .answer 0 true (.single 1)]

/-- The machine relies on the ISO manager here: this completion must not reach it. -/
theorem late_completion_aborts : suspendedSetup.foldlM step init = none := by
  decide

/-! ### Behind the ISO manager -/

/-- The table of the ISO manager has the handles of the BIG. -/
structure Known (s : Session) : Prop where
  good : s.machine.Good
  bises : s.bises = (s.machine.activeConfig.map Handles.toList).getD []

/-- Condition: the controller does not create a second BIG with the handle of the first. -/
def oneBig (s : Session) : Input → Bool
  | .message _ => true
  | .answer i status _ =>
    match s.outstanding[i]? with
    | none => true
    | some q => !(status && q.request = .createBig) || s.bises.isEmpty

theorem Known.inBig {s : Session} (h : s.Known) {q : Issued} (hq : s.dropped q = false) :
    q.request.InBig s.machine.activeConfig := by
  intro handle hh
  have hmem : handle ∈ s.bises := by
    rw [dropped] at hq
    cases hr : q.request <;> rw [hr] at hh hq <;> cases hh <;> simpa using hq
  rw [h.bises] at hmem
  cases hactive : s.machine.activeConfig with
  | none => simp [hactive] at hmem
  | some hs => exact ⟨hs, rfl, by simpa [hactive] using hmem⟩

theorem Known.take {activeConfig : Option Handles} {h : Handled}
    (hsound : Machine.Sound activeConfig h)
    (hbises : s.bises = (activeConfig.map Handles.toList).getD []) :
    ∃ s', s.take h = some s' ∧ s'.Known := by
  obtain ⟨m, rs, rfl, hconfig, hgood, -⟩ := hsound
  exact ⟨_, rfl, hgood, hconfig ▸ hbises⟩

/-- The table follows the configuration. -/
theorem Known.bises_noteAnswer (h : s.Known) {i : Nat} {status : Bool} {hs : Handles} {q : Issued}
    (hq : s.outstanding[i]? = some q) (hone : s.oneBig (.answer i status hs)) :
    (s.noteAnswer i q status hs).bises =
      ((configAfter s.machine.activeConfig status hs q.request).map Handles.toList).getD [] := by
  simp only [oneBig, hq] at hone
  cases status with
  | false => cases hr : q.request <;> simp [noteAnswer, configAfter, h.bises]
  | true =>
    cases hr : q.request with
    | createBig => simp_all [noteAnswer, bisesAfter, configAfter]
    | _ => simp [noteAnswer, bisesAfter, configAfter, hr, h.bises]

theorem Known.answer (h : s.Known) {i : Nat} {status : Bool} {hs : Handles}
    (hone : s.oneBig (.answer i status hs)) :
    ∃ s', s.stepBehindIsoManager (.answer i status hs) = some s' ∧ s'.Known := by
  rw [stepBehindIsoManager]
  cases hq : s.outstanding[i]? with
  | none => exact ⟨s, rfl, h⟩
  | some q =>
    have hbises := h.bises_noteAnswer hq hone
    cases hdropped : s.dropped q with
    | true =>
      -- only the completion of a data path is dropped, and that leaves the configuration
      refine ⟨s.noteAnswer i q status hs, if_pos hdropped, h.good, ?_⟩
      rw [hbises]
      rw [dropped] at hdropped
      cases hr : q.request <;> rw [hr] at hdropped <;> first | rfl | cases hdropped
    | false =>
      have hsound := Machine.sound_complete h.good (h.inBig hdropped) status hs
      simpa only [step, hq, hdropped, Bool.false_eq_true, if_false] using Known.take hsound hbises

/-- A failure to disable the announcement while a BIG is created lets START ask for another. -/
def createdTwice : List Input :=
  [.message .start, .answer 0 true (.single 1), .answer 0 true (.single 1), .message .suspend,
    .message .start, .answer 0 true (.single 1), .answer 0 true (.single 1), .message .start,
    .answer 0 false (.single 1), .message .start, .answer 0 true (.single 1),
    .answer 0 true (.single 2), .answer 0 true (.single 1)]

/-- The condition on the controller is needed: if it created this second BIG, the completion of the
first one's data path would abort. -/
theorem second_big_aborts : createdTwice.foldlM stepBehindIsoManager init = none := by
  decide

end Session

end BluetoothStack.LeAudio
