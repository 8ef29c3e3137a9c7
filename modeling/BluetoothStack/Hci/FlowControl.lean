import BluetoothStack.Hci.Commands
import BluetoothStack.Lib.Runs

/-!
# BluetoothStack.Hci.FlowControl

One command at a time, within the controller's grants.

Between two inputs the layer is either idle, with all that was sent answered and its credits those
of the last event, or waits for the command at the front of the queue. `send_next_command` leaves an
idle layer with a grant only if the queue is empty; every input ends with it.
-/

namespace BluetoothStack.Hci

open BluetoothStack.Lib

/-- The kinds of event that answer a command. -/
def WaitingFor.expects : WaitingFor → ResponseKind → Bool
  | .status, kind => kind.isStatus
  | .complete, kind => !kind.isStatus
  | .statusOrComplete, _ => true

theorem HciLayer.answer_of_expects {entry : CommandQueueEntry} {r : CommandResponse}
    (h : entry.waitingFor.expects r.kind) : answer entry r = some r.kind := by
  obtain ⟨opCode, waitingFor, callback⟩ := entry
  cases waitingFor <;> cases hk : r.kind <;>
    simp_all [answer, WaitingFor.expects, ResponseKind.isStatus]

section

variable {s : HciLayer}

theorem HciLayer.sendNextCommand_of_credits (h : s.commandCredits = 0) :
    s.sendNextCommand = (s, []) := if_pos h

theorem HciLayer.sendNextCommand_of_waiting (h : s.waitingCommand ≠ .NONE) :
    s.sendNextCommand = (s, []) := by
  simp [sendNextCommand, h]

theorem HciLayer.sendNextCommand_of_nil (h : s.commandQueue = []) :
    s.sendNextCommand = (s, []) := by
  simp [sendNextCommand, h]

theorem HciLayer.sendNextCommand_of_cons {front : CommandQueueEntry} {rest : List CommandQueueEntry}
    (hcredits : s.commandCredits ≠ 0) (hwaiting : s.waitingCommand = .NONE)
    (hqueue : s.commandQueue = front :: rest) :
    s.sendNextCommand = ({ s with waitingCommand := front.opCode, commandCredits := 0 },
      [.sendHciCommand front]) := by
  rw [sendNextCommand, if_neg hcredits, if_neg (not_not_intro hwaiting), hqueue]

end

namespace Exchange

/-- The controller's part: an event that is no NOP answers a command that was sent, with an event of
the kind that the command expects. -/
def answers (x : Exchange) : HciInput → Bool
  | .enqueueCommand _ _ => true
  | .event r => decide (r.opCode = .NONE) ||
      x.unanswered.any fun entry =>
        decide (entry.opCode = r.opCode) && entry.waitingFor.expects r.kind

/-- The users' part: `NONE` is no command. -/
def namesCommand : HciInput → Bool
  | .enqueueCommand opCode _ => decide (opCode ≠ .NONE)
  | .event _ => true

def proper (x : Exchange) (input : HciInput) : Bool := x.answers input && namesCommand input

/-! ### The invariant -/

/-- What passed so far, with the commands that were answered. -/
structure Records (x : Exchange) (answered : List CommandQueueEntry) : Prop where
  named : ∀ entry ∈ x.layer.commandQueue, entry.opCode ≠ .NONE
  enqueued : x.enqueued = answered ++ x.layer.commandQueue
  length : answered.length = x.responses.length
  invoked : x.invoked = answered.zip (x.responses.map (·.kind))
  sent : x.sent.map (·.entry) = answered ++ x.unanswered
  granted : ∀ c ∈ x.sent, c.granted ≠ 0 ∧ c.unanswered = []

inductive Phase (x : Exchange) : Prop where
  | idle (hwaiting : x.layer.waitingCommand = .NONE) (hunanswered : x.unanswered = [])
      (hcredits : x.layer.commandCredits = x.granted)
  | waiting (front : CommandQueueEntry) (rest : List CommandQueueEntry)
      (hqueue : x.layer.commandQueue = front :: rest)
      (hwaiting : x.layer.waitingCommand = front.opCode) (hunanswered : x.unanswered = [front])

structure Inv (x : Exchange) : Prop where
  records : ∃ answered, Records x answered
  phase : Phase x
  drained : x.granted ≠ 0 → x.unanswered = [] → x.layer.commandQueue = []

theorem init_inv : Inv init where
  records := ⟨[], by simp [init, HciLayer.init], rfl, rfl, rfl, rfl, by simp [init]⟩
  phase := .idle rfl rfl rfl
  drained _ _ := rfl

theorem Records.inv_sendNextCommand {x : Exchange} {answered : List CommandQueueEntry}
    (h : Records x answered) (hphase : Phase x) : Inv (x.put x.layer.sendNextCommand) := by
  cases hphase with
  | waiting front rest hqueue hwaiting hunanswered =>
    have hnamed : front.opCode ≠ .NONE := h.named front (by simp [hqueue])
    rw [HciLayer.sendNextCommand_of_waiting (hwaiting ▸ hnamed)]
    refine ⟨⟨answered, h⟩, .waiting front rest hqueue hwaiting hunanswered, fun _ hu => ?_⟩
    have hu : [front] = [] := hunanswered.symm.trans hu
    cases hu
  | idle hwaiting hunanswered hc =>
    by_cases hcredits : x.layer.commandCredits = 0
    · rw [HciLayer.sendNextCommand_of_credits hcredits]
      exact ⟨⟨answered, h⟩, .idle hwaiting hunanswered hc,
        fun hgranted _ => absurd (hc.symm.trans hcredits) hgranted⟩
    cases hqueue : x.layer.commandQueue with
    | nil =>
      rw [HciLayer.sendNextCommand_of_nil hqueue]
      exact ⟨⟨answered, h⟩, .idle hwaiting hunanswered hc, fun _ _ => hqueue⟩
    | cons front rest =>
      -- the front goes to the controller and stays in the queue
      rw [HciLayer.sendNextCommand_of_cons hcredits hwaiting hqueue]
      have hsent : x.sent.map (·.entry) = answered := by simpa [hunanswered] using h.sent
      refine ⟨⟨answered, h.named, h.enqueued, h.length, h.invoked, ?_, ?_⟩,
        .waiting front rest hqueue rfl ?_, ?_⟩
      · simp [put, output, hsent, hunanswered]
      · simp only [put, output, List.foldl_cons, List.foldl_nil, List.mem_append,
          List.mem_singleton]
        rintro c (hmem | rfl)
        · exact h.granted c hmem
        · exact ⟨hc ▸ hcredits, hunanswered⟩
      · simp [put, output, hunanswered]
      · simp [put, output]

/-! ### One step -/

variable {x : Exchange}

theorem Inv.enqueueCommand (h : Inv x) {entry : CommandQueueEntry} (hnamed : entry.opCode ≠ .NONE) :
    Inv ({ x with enqueued := x.enqueued ++ [entry] }.put (x.layer.enqueueCommand entry)) := by
  obtain ⟨answered, hr⟩ := h.records
  have hrecords : Records
      { x with
        enqueued := x.enqueued ++ [entry]
        layer := { x.layer with commandQueue := x.layer.commandQueue ++ [entry] } } answered := by
    refine { hr with named := ?_, enqueued := ?_ }
    · intro e he
      rcases List.mem_append.mp he with he | he
      · exact hr.named e he
      · exact List.mem_singleton.mp he ▸ hnamed
    · show x.enqueued ++ [entry] = answered ++ (x.layer.commandQueue ++ [entry])
      rw [hr.enqueued, List.append_assoc]
  refine hrecords.inv_sendNextCommand ?_
  cases h.phase with
  | idle hwaiting hunanswered hcredits => exact .idle hwaiting hunanswered hcredits
  | waiting front rest hqueue hwaiting hunanswered =>
    refine .waiting front (rest ++ [entry]) ?_ hwaiting hunanswered
    show x.layer.commandQueue ++ [entry] = _
    rw [hqueue, List.cons_append]

theorem Inv.nop (h : Inv x) (credits : BitVec 8) :
    Inv ({ x with granted := credits }.put
      { x.layer with commandCredits := credits }.sendNextCommand) := by
  obtain ⟨answered, hr⟩ := h.records
  have hrecords : Records
      { x with granted := credits, layer := { x.layer with commandCredits := credits } }
      answered :=
    { hr with }
  refine hrecords.inv_sendNextCommand ?_
  cases h.phase with
  | idle hwaiting hunanswered _ => exact .idle hwaiting hunanswered rfl
  | waiting front rest hqueue hwaiting hunanswered =>
    exact .waiting front rest hqueue hwaiting hunanswered

theorem Inv.answered (h : Inv x) {front : CommandQueueEntry} {rest : List CommandQueueEntry}
    {r : CommandResponse} (hqueue : x.layer.commandQueue = front :: rest)
    (hunanswered : x.unanswered = [front]) :
    Inv ({ x with
        granted := r.numHciCommandPackets
        responses := x.responses ++ [r]
        unanswered := []
        invoked := x.invoked ++ [(front, r.kind)] }.put
      (HciLayer.sendNextCommand ⟨rest, .NONE, r.numHciCommandPackets⟩)) := by
  obtain ⟨answered, hr⟩ := h.records
  have hrecords : Records
      { x with
        granted := r.numHciCommandPackets
        responses := x.responses ++ [r]
        unanswered := []
        invoked := x.invoked ++ [(front, r.kind)]
        layer := ⟨rest, .NONE, r.numHciCommandPackets⟩ } (answered ++ [front]) := by
    refine ⟨fun e he => hr.named e (by simp [hqueue, he]), ?_, ?_, ?_, ?_, hr.granted⟩
    · simpa [hqueue] using hr.enqueued
    · simpa using hr.length
    · have hlen : answered.length = (x.responses.map (·.kind)).length := by
        simpa using hr.length
      simp only [List.map_append, List.zip_append hlen, hr.invoked]
      rfl
    · simpa [hunanswered] using hr.sent
  exact hrecords.inv_sendNextCommand (.idle rfl rfl rfl)

theorem Inv.event (h : Inv x) {r : CommandResponse} (hanswers : x.answers (.event r)) :
    ∃ x', x.step (.event r) = some x' ∧ Inv x' := by
  by_cases hnone : r.opCode = .NONE
  · refine ⟨_, ?_, h.nop r.numHciCommandPackets⟩
    simp [step, HciLayer.onHciEvent, HciLayer.handleCommandResponse, receive, hnone]
  · simp only [answers, hnone, decide_false, Bool.false_or, List.any_eq_true, Bool.and_eq_true,
      decide_eq_true_eq] at hanswers
    obtain ⟨entry, hmem, hop, hexpects⟩ := hanswers
    cases h.phase with
    | idle _ hunanswered _ =>
      rw [hunanswered] at hmem
      cases hmem
    | waiting front rest hqueue hwaiting hunanswered =>
      rw [hunanswered, List.mem_singleton] at hmem
      subst hmem
      refine ⟨_, ?_, h.answered (r := r) hqueue hunanswered⟩
      have hdebug : ¬(x.layer.waitingCommand = .CONTROLLER_DEBUG_INFO ∧
          r.opCode ≠ .CONTROLLER_DEBUG_INFO) := by
        rintro ⟨hdebug, hother⟩
        exact hother (hop.symm.trans (hwaiting.symm.trans hdebug))
      have hsame : ¬ x.layer.waitingCommand ≠ r.opCode :=
        not_not_intro (hwaiting.trans hop)
      simp only [step, HciLayer.onHciEvent, HciLayer.handleCommandResponse, hqueue, hnone,
        if_neg hdebug, if_neg hsame, HciLayer.answer_of_expects hexpects, receive, hunanswered,
        List.eraseP_cons, hop, decide_true]
      rfl

theorem Inv.step (h : Inv x) (input : HciInput) (hproper : x.proper input) :
    ∃ x', x.step input = some x' ∧ Inv x' := by
  rw [proper, Bool.and_eq_true] at hproper
  cases input with
  | enqueueCommand opCode waitingFor =>
    exact ⟨_, rfl, h.enqueueCommand (of_decide_eq_true hproper.2)⟩
  | event r => exact h.event hproper.1

/-! ### Every run -/

/-- With a controller that answers each command once, with an event that the command expects, and
grants whatever it likes, and with commands that have an opcode: no assertion fails; the commands
are sent in the order they were enqueued, each on a grant of the last event and with none
unanswered; the i-th answer runs the callback of the i-th command; and no command waits without a
reason. -/
theorem one_command_at_a_time (inputs : List HciInput)
    (hproper : allSteps step proper init inputs) :
    ∃ x, inputs.foldlM step init = some x ∧
      x.sent.map (·.entry) <+: x.enqueued ∧
      (∀ c ∈ x.sent, c.granted ≠ 0 ∧ c.unanswered = []) ∧
      x.responses.length ≤ x.enqueued.length ∧
      x.invoked = (x.enqueued.take x.responses.length).zip (x.responses.map (·.kind)) ∧
      (x.granted ≠ 0 → x.unanswered = [] → x.layer.commandQueue = []) := by
  obtain ⟨x, hrun, hinv⟩ := run_exists (fun _ input h => h.step input) init_inv hproper
  obtain ⟨answered, hr⟩ := hinv.records
  refine ⟨x, hrun, ?_, hr.granted, ?_, ?_, hinv.drained⟩
  · rw [hr.sent, hr.enqueued, List.prefix_append_right_inj]
    cases hinv.phase with
    | idle _ hunanswered _ => exact hunanswered ▸ List.nil_prefix
    | waiting front rest hqueue _ hunanswered =>
      rw [hqueue, hunanswered]
      exact ⟨rest, rfl⟩
  · rw [hr.enqueued, List.length_append, hr.length]
    exact Nat.le_add_right _ _
  · rw [hr.invoked, hr.enqueued, ← hr.length, List.take_left]

/-- Two commands; the grant for the second comes with a NOP. -/
theorem one_command_at_a_time_two : ∃ x,
    [.enqueueCommand 0x0c03 .complete, .enqueueCommand 0x0405 .status,
      .event ⟨.complete, 0, 0x0c03⟩, .event ⟨.complete, 1, .NONE⟩,
      .event ⟨.status 0, 1, 0x0405⟩].foldlM step init = some x ∧
    (∀ c ∈ x.sent, c.granted ≠ 0 ∧ c.unanswered = []) :=
  let ⟨x, hrun, _, hsent, _⟩ := one_command_at_a_time _ (by decide +kernel)
  ⟨x, hrun, hsent⟩

/-- The answer to a command with the opcode `NONE` is taken for a NOP: the command is sent again and
its callback is not run. -/
theorem none_is_sent_again :
    allSteps step answers init
      [.enqueueCommand .NONE .complete, .event ⟨.complete, 1, .NONE⟩] ∧
    ([.enqueueCommand .NONE .complete, .event ⟨.complete, 1, .NONE⟩].foldlM step init).map
        (fun x => (x.enqueued.length, x.sent.map (·.entry.callback), x.invoked)) =
      some (1, [0, 0], []) := by
  decide +kernel

end Exchange

end BluetoothStack.Hci
