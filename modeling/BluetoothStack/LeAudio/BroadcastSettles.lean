import BluetoothStack.LeAudio.Broadcast

/-!
# BluetoothStack.LeAudio.BroadcastSettles

Where the state machine of a broadcast comes to rest.

A run goes through phases with one request at most outstanding (`Phase`). Beside the phase, the
state is one that leads to what the last message asked for (`State.leadsTo`), unless a request has
failed since. A message that is ignored or only renames the state in a phase that goes on to
something else breaks the second part, and so does a failure that no message is left to make up for.
-/

namespace BluetoothStack.LeAudio

open BluetoothStack.Lib

/-- The handles that come after the ones that are done. -/
theorem Handles.nextOf_eq {hs : Handles} {h : Nat} {done rest : List Nat}
    (hsplit : hs.toList = done ++ h :: rest) : hs.nextOf h = some rest.head? := by
  have hnodup : (done ++ h :: rest).Nodup := hsplit ▸ hs.nodup
  have hdone : ∀ d ∈ done, decide (d ≠ h) = true := by
    intro d hd
    have hne := (List.nodup_append.mp hnodup).2.2 d hd h List.mem_cons_self
    exact decide_eq_true hne
  rw [nextOf, hsplit, List.dropWhile_append_of_pos hdone]
  simp

/-- A state on the way to what the message asked for. -/
def State.leadsTo (st : State) : Message → Bool
  | .start => st = .configuring || st = .enabling || st = .streaming
  | .stop => st = .stopped || st = .stopping
  | .suspend => st = .stopped || st = .configured || st = .disabling || st = .stopping

/-- The phases of a broadcast, with the requests that are outstanding. -/
inductive Phase (dataPaths : List Nat) : Machine → List Request → Prop
  | idle {st : State} (hst : st = .stopped ∨ st = .configured) : Phase dataPaths ⟨st, none⟩ []
  | configuring : Phase dataPaths ⟨.configuring, none⟩ [.enable true]
  | creating {st : State} (hst : st = .enabling ∨ st = .disabling ∨ st = .stopping) :
      Phase dataPaths ⟨st, none⟩ [.createBig]
  | settingUp {st : State} {hs : Handles} {done rest : List Nat} {h : Nat}
      (hst : st = .enabling ∨ st = .stopping) (hsplit : hs.toList = done ++ h :: rest)
      (hdone : ∀ d ∈ done, d ∈ dataPaths) : Phase dataPaths ⟨st, some hs⟩ [.setupIsoDataPath h]
  | streaming {hs : Handles} (hall : ∀ h ∈ hs.toList, h ∈ dataPaths) :
      Phase dataPaths ⟨.streaming, some hs⟩ []
  | removing {st : State} {hs : Handles} {done rest : List Nat} {h : Nat}
      (hst : st = .disabling ∨ st = .stopping) (hsplit : hs.toList = done ++ h :: rest) :
      Phase dataPaths ⟨st, some hs⟩ [.removeIsoDataPath h]
  | terminating {st : State} {hs : Handles} (hst : st = .disabling ∨ st = .stopping) :
      Phase dataPaths ⟨st, some hs⟩ [.terminateBig]
  | disablingAnnouncement : Phase dataPaths ⟨.stopping, none⟩ [.enable false]

variable {dataPaths : List Nat}

/-- The teardown starts with the first handle. -/
theorem Phase.removing_first {st : State} {hs : Handles} (hst : st = .disabling ∨ st = .stopping) :
    Phase dataPaths ⟨st, some hs⟩ [.removeIsoDataPath hs.first] :=
  @Phase.removing _ st hs [] hs.others hs.first hst rfl

theorem Phase.length_le_one {m : Machine} {rs : List Request} (hphase : Phase dataPaths m rs) :
    rs.length ≤ 1 := by
  cases hphase <;> simp

/-- In the configured state nothing is outstanding. -/
theorem Phase.state_ne_configured {m : Machine} {r : Request} (hphase : Phase dataPaths m [r]) :
    m.state ≠ .configured := by
  cases hphase with
  | configuring => decide
  | creating hst => rcases hst with rfl | rfl | rfl <;> decide
  | settingUp hst => rcases hst with rfl | rfl <;> simp
  | removing hst => rcases hst with rfl | rfl <;> simp
  | terminating hst => rcases hst with rfl | rfl <;> simp
  | disablingAnnouncement => decide

namespace Session

/-- The property of a session at rest. -/
structure Settled (s : Session) : Prop where
  state : s.machine.state = .stopped ∨ s.machine.state = .configured ∨ s.machine.state = .streaming
  streaming : s.machine.state = .streaming ↔
    ∃ hs, s.machine.activeConfig = some hs ∧ ∀ h ∈ hs.toList, h ∈ s.dataPaths
  stop : s.last = some .stop → s.machine.activeConfig = none ∧
    (s.machine.state = .stopped ∨ s.machine.state = .configured ∧ s.disableFailed)
  suspend : s.last = some .suspend → s.machine.activeConfig = none
  start : s.last = some .start → s.failed = false → s.machine.state = .streaming

/-- The messages that are not lost in this state. -/
def heeded (m : Machine) : Message → Bool
  | .start => m.state ≠ .stopping && !(m.state = .disabling && m.activeConfig.isSome)
  | .stop => m.state ≠ .configuring && m.state ≠ .disabling
  | .suspend => m.state ≠ .configuring && !(m.state = .enabling && m.activeConfig.isSome)

/-- The failures that the machine can cope with. -/
def bearable (last : Option Message) (q : Issued) : Bool :=
  match q.request with
  | .enable false => true
  | .removeIsoDataPath _ => true
  | .createBig => false
  | .terminateBig => false
  | .enable true => last = some .suspend || last = some .start && q.sinceMessage
  | .setupIsoDataPath _ => last = some .suspend || last = some .start && q.sinceMessage

/-- Condition: no message is lost, and a request that fails is one the machine can cope with. -/
def orderly (s : Session) : Input → Bool
  | .message msg => heeded s.machine msg
  | .answer i status _ =>
    match s.outstanding[i]? with
    | none => true
    | some q => status || bearable s.last q

/-- The state leads to what the last message asked for, or something has failed since. -/
structure Steered (s : Session) : Prop where
  phase : Phase s.dataPaths s.machine (s.outstanding.map Issued.request)
  leads : ∀ msg, s.last = some msg → s.machine.state.leadsTo msg ∨ msg = .start ∧ s.failed ∨
    msg = .stop ∧ s.machine.state = .configured ∧ s.disableFailed

variable {s : Session}

/-! ### One step -/

variable {dataPaths : List Nat} {msg : Message} {hs : Handles}

/-- A message that is not lost leads to what it asks for. -/
theorem phase_message {m : Machine} {rs : List Request} (hphase : Phase dataPaths m rs)
    (hheeded : heeded m msg) :
    ∃ m' rs', m.processMessage msg = some (m', rs') ∧ Phase dataPaths m' (rs ++ rs') ∧
      m'.state.leadsTo msg := by
  cases hphase with
  | idle hst =>
    rcases hst with rfl | rfl <;> cases msg
    · exact ⟨_, _, rfl, .configuring, rfl⟩
    · exact ⟨_, _, rfl, .idle (.inl rfl), rfl⟩
    · exact ⟨_, _, rfl, .idle (.inl rfl), rfl⟩
    · exact ⟨_, _, rfl, .creating (.inl rfl), rfl⟩
    · exact ⟨_, _, rfl, .idle (.inr rfl), rfl⟩
    · exact ⟨_, _, rfl, .disablingAnnouncement, rfl⟩
  | configuring =>
    cases msg with
    | start => exact ⟨_, _, rfl, .configuring, rfl⟩
    | _ => cases hheeded
  | creating hst =>
    rcases hst with rfl | rfl | rfl <;> cases msg <;> try (exact absurd hheeded (by decide))
    · exact ⟨_, _, rfl, .creating (.inl rfl), rfl⟩
    · exact ⟨_, _, rfl, .creating (.inr (.inl rfl)), rfl⟩
    · exact ⟨_, _, rfl, .creating (.inr (.inr rfl)), rfl⟩
    · exact ⟨_, _, rfl, .creating (.inl rfl), rfl⟩
    · exact ⟨_, _, rfl, .creating (.inr (.inl rfl)), rfl⟩
    · exact ⟨_, _, rfl, .creating (.inr (.inr rfl)), rfl⟩
    · exact ⟨_, _, rfl, .creating (.inr (.inr rfl)), rfl⟩
  | settingUp hst hsplit hdone =>
    rcases hst with rfl | rfl <;> cases msg <;> try (cases hheeded; done)
    · exact ⟨_, _, rfl, .settingUp (.inl rfl) hsplit hdone, rfl⟩
    · exact ⟨_, _, rfl, .settingUp (.inr rfl) hsplit hdone, rfl⟩
    · exact ⟨_, _, rfl, .settingUp (.inr rfl) hsplit hdone, rfl⟩
    · exact ⟨_, _, rfl, .settingUp (.inr rfl) hsplit hdone, rfl⟩
  -- only a message to a stream starts the removal of its data paths
  | streaming hall =>
    cases msg with
    | start => exact ⟨_, _, rfl, .streaming hall, rfl⟩
    | suspend => exact ⟨_, _, rfl, .removing_first (.inl rfl), rfl⟩
    | stop => exact ⟨_, _, rfl, .removing_first (.inr rfl), rfl⟩
  | removing hst hsplit =>
    rcases hst with rfl | rfl <;> cases msg <;> try (cases hheeded; done)
    · exact ⟨_, _, rfl, .removing (.inl rfl) hsplit, rfl⟩
    · exact ⟨_, _, rfl, .removing (.inr rfl) hsplit, rfl⟩
    · exact ⟨_, _, rfl, .removing (.inr rfl) hsplit, rfl⟩
  | terminating hst =>
    rcases hst with rfl | rfl <;> cases msg <;> try (cases hheeded; done)
    · exact ⟨_, _, rfl, .terminating (.inl rfl), rfl⟩
    · exact ⟨_, _, rfl, .terminating (.inr rfl), rfl⟩
    · exact ⟨_, _, rfl, .terminating (.inr rfl), rfl⟩
  | disablingAnnouncement =>
    cases msg with
    | start => cases hheeded
    | suspend | stop => exact ⟨_, _, rfl, .disablingAnnouncement, rfl⟩

/-- What a completion may do to the last message `msg`: the state still leads to it, or the failure
is one that excuses it. -/
def Reached (q : Issued) (status : Bool) (msg : Message) (st : State) : Prop :=
  st.leadsTo msg ∨ msg = .start ∧ status = false ∧ q.sinceMessage ∨
    msg = .stop ∧ st = .configured ∧ status = false ∧ q.request = .enable false

/-- The completion of the data path `h` when it succeeds. -/
theorem phase_setup_succeeded {st : State} {done rest : List Nat} {h : Nat}
    (hst : st = .enabling ∨ st = .stopping) (hsplit : hs.toList = done ++ h :: rest)
    (hdone : ∀ d ∈ done, d ∈ dataPaths) :
    ∃ m' rs', (Machine.mk st (some hs)).onSetupIsoDataPath true h = some (m', rs') ∧
      Phase (h :: dataPaths) m' rs' ∧ ∀ msg, st.leadsTo msg → m'.state.leadsTo msg := by
  have hnext := Handles.nextOf_eq hsplit
  have hdone' : ∀ d ∈ done ++ [h], d ∈ h :: dataPaths := by
    intro d hd
    rcases List.mem_append.mp hd with hd | hd
    · exact List.mem_cons_of_mem h (hdone d hd)
    · exact List.mem_cons.mpr (.inl (List.mem_singleton.mp hd))
  cases rest with
  | nil =>
    simp only [Machine.onSetupIsoDataPath, hnext, List.head?_nil, Bool.not_true, Bool.false_eq_true,
      if_false]
    rcases hst with rfl | rfl
    · refine ⟨_, _, rfl, .streaming (hsplit ▸ hdone'), fun msg hmsg => ?_⟩
      cases msg with
      | start => rfl
      | _ => cases hmsg
    · exact ⟨_, _, rfl, .removing_first (.inr rfl), fun _ => id⟩
  | cons next rest =>
    simp only [Machine.onSetupIsoDataPath, hnext, List.head?_cons, Bool.not_true,
      Bool.false_eq_true, if_false]
    have hsplit' : hs.toList = (done ++ [h]) ++ next :: rest :=
      hsplit.trans (List.append_cons _ _ _)
    exact ⟨_, _, rfl, .settingUp hst hsplit' hdone', fun _ => id⟩

/-- The completion of a removal, also when it fails. -/
theorem phase_removed {st : State} {done rest : List Nat} {h : Nat}
    (hst : st = .disabling ∨ st = .stopping) (hsplit : hs.toList = done ++ h :: rest)
    (status : Bool) :
    ∃ rs', (Machine.mk st (some hs)).onRemoveIsoDataPath status h = some (⟨st, some hs⟩, rs') ∧
      Phase dataPaths ⟨st, some hs⟩ rs' := by
  have hnext := Handles.nextOf_eq hsplit
  cases status with
  | false => exact ⟨_, rfl, .terminating hst⟩
  | true =>
    cases rest with
    | nil =>
      simp only [Machine.onRemoveIsoDataPath, hnext, List.head?_nil, Bool.not_true,
        Bool.false_eq_true, if_false]
      exact ⟨_, rfl, .terminating hst⟩
    | cons next rest =>
      simp only [Machine.onRemoveIsoDataPath, hnext, List.head?_cons, Bool.not_true,
        Bool.false_eq_true, if_false]
      have hsplit' : hs.toList = (done ++ [h]) ++ next :: rest :=
        hsplit.trans (List.append_cons _ _ _)
      exact ⟨_, rfl, .removing hst hsplit'⟩

/-- What the failure of a request on the way to the stream is excused by. -/
theorem excused {last : Option Message} {since : Bool}
    (hok : last = some .suspend || last = some .start && since) (hlast : last = some msg) :
    msg = .suspend ∨ msg = .start ∧ since := by
  rw [hlast] at hok
  simpa using hok

/-- A completion, if it is not a failure the machine cannot cope with. -/
theorem phase_complete {m : Machine} {q : Issued} {status : Bool}
    (hphase : Phase s.dataPaths m [q.request]) (hok : status || bearable s.last q) (i : Nat)
    (hs : Handles) :
    ∃ m' rs', m.complete status hs q.request = some (m', rs') ∧
      Phase (s.noteAnswer i q status hs).dataPaths m' rs' ∧
      ∀ msg, s.last = some msg → m.state.leadsTo msg → Reached q status msg m'.state := by
  obtain ⟨r, since⟩ := q
  -- what the completion leads to depends on the request that was out
  cases hphase with
  | configuring =>
    refine match status with
      | true => ⟨_, _, rfl, .creating (.inl rfl), fun msg _ hmsg => .inl ?_⟩
      | false => ⟨_, _, rfl, .idle (.inl rfl), fun msg hlast hmsg => ?_⟩
    · cases msg <;> first | rfl | cases hmsg
    · rcases excused hok hlast with rfl | ⟨rfl, hsince⟩
      · exact .inl rfl
      · exact .inr (.inl ⟨rfl, rfl, hsince⟩)
  | creating hst =>
    cases status with
    | false => cases hok
    | true =>
      rcases hst with rfl | rfl | rfl
      · exact ⟨_, _, rfl, @Phase.settingUp _ _ hs [] hs.others hs.first (.inl rfl) rfl
          (List.forall_mem_nil _), fun _ _ => .inl⟩
      · exact ⟨_, _, rfl, .terminating (.inl rfl), fun _ _ => .inl⟩
      · exact ⟨_, _, rfl, .terminating (.inr rfl), fun _ _ => .inl⟩
  | settingUp hst hsplit hdone =>
    cases status with
    | true =>
      obtain ⟨m', rs', heq, hphase, hleads⟩ := phase_setup_succeeded hst hsplit hdone
      exact ⟨m', rs', heq, hphase, fun msg _ hmsg => .inl (hleads msg hmsg)⟩
    | false =>
      refine ⟨_, _, rfl, .terminating (.inl rfl), fun msg hlast _ => ?_⟩
      rcases excused hok hlast with rfl | ⟨rfl, hsince⟩
      · exact .inl rfl
      · exact .inr (.inl ⟨rfl, rfl, hsince⟩)
  | removing hst hsplit =>
    obtain ⟨rs', heq, hphase⟩ := phase_removed hst hsplit status
    exact ⟨_, rs', heq, hphase, fun msg _ hmsg => .inl hmsg⟩
  | terminating hst =>
    cases status with
    | false => cases hok
    | true =>
      rcases hst with rfl | rfl
      · refine ⟨_, _, rfl, .idle (.inr rfl), fun msg _ hmsg => .inl ?_⟩
        cases msg <;> first | rfl | cases hmsg
      · exact ⟨_, _, rfl, .disablingAnnouncement, fun _ _ => .inl⟩
  | disablingAnnouncement =>
    refine match status with
      | true => ⟨_, _, rfl, .idle (.inl rfl), fun msg _ hmsg => .inl ?_⟩
      | false => ⟨_, _, rfl, .idle (.inr rfl), fun msg _ hmsg => ?_⟩
    · cases msg <;> first | rfl | cases hmsg
    · cases msg with
      | start => cases hmsg
      | suspend => exact .inl rfl
      | stop => exact .inr (.inr ⟨rfl, rfl, rfl, rfl⟩)

/-! ### Runs -/

theorem Steered.message (h : s.Steered) (hheeded : heeded s.machine msg) :
    ∃ s', s.step (.message msg) = some s' ∧ s'.Steered := by
  obtain ⟨m', rs', heq, hphase, hleads⟩ := phase_message h.phase hheeded
  refine ⟨_, congrArg (s.noteMessage msg).take heq, ?_, ?_⟩
  · simpa [noteMessage, Function.comp_def] using hphase
  · rintro msg' ⟨rfl⟩
    exact .inl hleads

theorem eq_single_of_getElem? {outstanding : List Issued} {i : Nat} {q : Issued}
    (hlength : outstanding.length ≤ 1) (hq : outstanding[i]? = some q) :
    outstanding = [q] ∧ i = 0 := by
  match outstanding, i, hlength with
  | [_], 0, _ => exact ⟨congrArg (fun x => [x]) (Option.some.inj hq), rfl⟩

theorem Steered.answer (h : s.Steered) {i : Nat} {status : Bool}
    (horderly : s.orderly (.answer i status hs)) :
    ∃ s', s.step (.answer i status hs) = some s' ∧ s'.Steered := by
  rw [step]
  cases hq : s.outstanding[i]? with
  | none => exact ⟨s, rfl, h⟩
  | some q =>
    simp only [orderly, hq] at horderly
    have hphase := h.phase
    have hlength := hphase.length_le_one
    rw [List.length_map] at hlength
    obtain ⟨houtstanding, rfl⟩ := eq_single_of_getElem? hlength hq
    rw [houtstanding] at hphase
    obtain ⟨m', rs', heq, hphase', hreached⟩ := phase_complete hphase horderly 0 hs
    refine ⟨_, congrArg (s.noteAnswer 0 q status hs).take heq, ?_, fun msg hlast => ?_⟩
    · simpa [noteAnswer, houtstanding, Function.comp_def] using hphase'
    · rcases h.leads msg hlast with hleads | ⟨rfl, hfailed⟩ | ⟨rfl, hconfigured, -⟩
      · rcases hreached msg hlast hleads with hr | ⟨rfl, rfl, hsince⟩ | ⟨rfl, hst, rfl, hr⟩
        · exact .inl hr
        · exact .inr (.inl ⟨rfl, by simp [noteAnswer, hsince]⟩)
        · exact .inr (.inr ⟨rfl, hst, by simp [noteAnswer, hr]⟩)
      · exact .inr (.inl ⟨rfl, by simp [noteAnswer, hfailed]⟩)
      · exact absurd hconfigured hphase.state_ne_configured

theorem steered_init : init.Steered := ⟨.idle (.inr rfl), fun _ h => by cases h⟩

/-- At rest a broadcast is idle or streams. -/
theorem Steered.settled (h : s.Steered) (hrest : s.outstanding = []) : s.Settled := by
  obtain ⟨⟨st, active⟩, outstanding, dataPaths, bises, last, failed, disableFailed⟩ := s
  obtain ⟨hphase, hleads⟩ := h
  subst hrest
  cases hphase with
  | idle hst =>
    refine ⟨?_, ?_, fun hlast => ⟨rfl, ?_⟩, fun _ => rfl, fun hlast hfailed => ?_⟩
    · exact hst.imp id .inl
    · rcases hst with rfl | rfl <;> simp
    · rcases hst with rfl | rfl
      · exact .inl rfl
      · simpa [State.leadsTo] using hleads .stop hlast
    · rcases hst with rfl | rfl <;> simp_all [State.leadsTo]
  | streaming hall =>
    refine ⟨.inr (.inr rfl), ⟨fun _ => ⟨_, rfl, hall⟩, fun _ => rfl⟩, fun hlast => ?_, fun hlast =>
      ?_, fun _ _ => rfl⟩
    · simpa [State.leadsTo] using hleads .stop hlast
    · simpa [State.leadsTo] using hleads .suspend hlast

/-- In a run in which no message is lost and no request fails that must not, every state at rest is
where the user asked for. -/
theorem settles_where_asked (inputs : List Input) (horderly : allSteps step orderly init inputs) :
    ∃ s, inputs.foldlM step init = some s ∧ (s.outstanding = [] → s.Settled) := by
  have hstep (s : Session) (input : Input) (h : s.Steered) (hp : s.orderly input) :
      ∃ s', s.step input = some s' ∧ s'.Steered := by
    cases input with
    | message msg => exact h.message hp
    | answer i status hs => exact h.answer hp
  obtain ⟨s, hrun, h⟩ := run_exists hstep steered_init horderly
  exact ⟨s, hrun, h.settled⟩

/-- A stream of two BISes that is stopped, with a removal and the disabling that fail. -/
theorem settles_where_asked_stop :
    ∃ s, [.message .start, .answer 0 true ⟨1, [2], by decide⟩, .answer 0 true (.single 1),
        .answer 0 true (.single 1), .message .stop, .answer 0 false (.single 1),
        .answer 0 true (.single 1), .answer 0 false (.single 1)].foldlM step init = some s ∧
      (s.outstanding = [] → s.Settled) :=
  settles_where_asked _ (by decide)

/-! ### Runs that settle elsewhere -/

/-- The creation of the BIG fails. -/
def creationFails : List Input := [.message .start, .answer 0 false (.single 1)]

/-- START while the stream is suspended, and everything succeeds. -/
def restarted : List Input :=
  [.message .start, .answer 0 true (.single 1), .answer 0 true (.single 1), .message .suspend,
    .message .start, .answer 0 true (.single 1), .answer 0 true (.single 1),
    .answer 0 true (.single 1)]

/-- STOP while the announcement is enabled again, and everything succeeds. -/
def stoppedEarly : List Input :=
  [.message .stop, .answer 0 true (.single 1), .message .start, .message .stop,
    .answer 0 true (.single 1), .answer 0 true (.single 1), .answer 0 true (.single 1)]

/-- The run comes to rest where the user did not ask for. -/
def RestsElsewhere (inputs : List Input) : Prop :=
  ∃ s, inputs.foldlM step init = some s ∧ s.outstanding = [] ∧ ¬s.Settled

/-- They come to rest in ENABLING, in STOPPED after a START, and in STREAMING after a STOP. -/
theorem settles_elsewhere :
    RestsElsewhere creationFails ∧ RestsElsewhere restarted ∧ RestsElsewhere stoppedEarly := by
  refine ⟨⟨_, rfl, rfl, fun h => ?_⟩, ⟨_, rfl, rfl, fun h => ?_⟩, ⟨_, rfl, rfl, fun h => ?_⟩⟩
  · exact absurd h.state (by decide)
  · exact absurd (h.start rfl rfl) (by decide)
  · exact absurd (h.stop rfl).1 (by decide)

end Session

end BluetoothStack.LeAudio
