import Mathlib
import BluetoothStack.Lib.Runs

/-!
# BluetoothStack.Avrc.CommandQueue

The queue of vendor commands of a handle (`cmd_q` in `avrc_api.cc`), with the flag
`AVRC_CB_FLAGS_RSP_PENDING`, the alarm that all commands share and the commands the peer has not
answered.

A command is outstanding from when it is sent until its response comes or its alarm expires. Of a
packet only what decides about the queue is kept. Whether AVCTP takes a packet is part of the event.
-/

namespace BluetoothStack.Avrc.CommandQueue

open BluetoothStack.Lib

/-! ### The source -/

def pduRequestContinuationRsp : UInt8 := 0x40

def pduAbortContinuationRsp : UInt8 := 0x41

/-- What is known of the device and of the connection. -/
structure Config where
  /-- `btif_av_src_sink_coexist_enabled`. -/
  coexist : Bool
  /-- The property bluetooth.profile.avrcp.target.enabled. -/
  targetEnabled : Bool
  /-- `AVRC_CT_CONTROL` in `control`. -/
  ctControl : Bool
deriving DecidableEq, Repr

/-- The format that `AVRC_MsgReq` goes by. -/
def Config.isNewAvrcp (c : Config) (isNewAvrcp : Bool) : Bool :=
  if c.coexist then c.targetEnabled else isNewAvrcp

/-- The opcodes of the commands. -/
inductive Opcode
  | vendor
  | passThru
  | browse
  deriving DecidableEq, Repr

/-- `tAVRC_PARAM` of the alarm, with the command it is for. -/
structure Alarm where
  opcode : Opcode
  /-- `AVRC_MSG_MASK_IS_VENDOR_CMD`. -/
  isVendorCmd : Bool
  deriving DecidableEq, Repr

structure Handle where
  /-- The labels of the commands in `cmd_q`. -/
  cmdQ : List Nat
  rspPending : Bool
  alarm : Option Alarm
  outstanding : List Opcode
  deriving DecidableEq, Repr

/-- A command for `AVRC_MsgReq`. -/
inductive Request
  | vendor (isNewAvrcp : Bool) (pdu : UInt8)
  | passThru
  | browse
  deriving DecidableEq, Repr

/-- What `avrc_msg_cback` makes of a vendor response. -/
inductive VendorRsp
  /-- Too short for its header. -/
  | short
  | complete
  /-- More is to be asked for: drop code 2. -/
  | fragment
  /-- Too long to be put together. -/
  | overflow
  deriving DecidableEq, Repr

inductive Response
  | vendor (rsp : VendorRsp)
  | passThru
  | browse
  /-- Another opcode, or too short for one. -/
  | other
  deriving DecidableEq, Repr

def Response.opcode? : Response → Option Opcode
  | .vendor _ => some .vendor
  | .passThru => some .passThru
  | .browse => some .browse
  | .other => none

inductive Event
  | msgReq (label : Nat) (request : Request) (taken : Bool)
  | passCmd (taken : Bool)
  | response (label : Nat) (response : Response) (taken : Bool) (fails : Nat)
  | timeout (fails : Nat)
  deriving DecidableEq, Repr

namespace Handle

def new : Handle := ⟨[], false, none, []⟩

/-- A command is on its way, and `avrc_start_cmd_timer`. -/
def sent (h : Handle) (opcode : Opcode) (isVendorCmd : Bool) : Handle :=
  { h with outstanding := opcode :: h.outstanding, alarm := some ⟨opcode, isVendorCmd⟩ }

/-- `avrc_send_next_vendor_cmd`; the first commands may not be taken. -/
def avrcSendNextVendorCmd (fails : Nat) (h : Handle) : Handle :=
  match h.cmdQ.drop fails with
  | [] => { h with cmdQ := [], rspPending := false }
  | _ :: cmdQ => sent { h with cmdQ } .vendor true

/-- The end of `AVRC_MsgReq`. -/
def sendCmd (h : Handle) (opcode : Opcode) (isVendorCmd taken : Bool) : Handle :=
  if taken then sent { h with rspPending := true } opcode isVendorCmd else h

/-- `AVRC_MSG_MASK_IS_CONTINUATION_RSP`. -/
def isContinuationRsp (isNewAvrcp : Bool) (pdu : UInt8) : Bool :=
  !isNewAvrcp && (pdu == pduRequestContinuationRsp || pdu == pduAbortContinuationRsp)

/-- `AVRC_MsgReq` for a command. -/
def avrcMsgReq (c : Config) (h : Handle) (label : Nat) (request : Request) (taken : Bool) :
    Handle :=
  match request with
  | .vendor isNewAvrcp pdu =>
    let isNewAvrcp := c.isNewAvrcp isNewAvrcp
    if h.rspPending && !isContinuationRsp isNewAvrcp pdu then { h with cmdQ := h.cmdQ ++ [label] }
    else h.sendCmd .vendor (!isNewAvrcp) taken
  | .passThru => h.sendCmd .passThru false taken
  | .browse => h.sendCmd .browse false taken

/-- `AVRC_PassCmd`. -/
def avrcPassCmd (h : Handle) (taken : Bool) : Handle := if taken then h.sent .passThru false else h

/-- A response stops the alarm, whatever it is for. -/
def answered (h : Handle) (opcode? : Option Opcode) : Handle :=
  { h with outstanding := opcode?.elim h.outstanding h.outstanding.erase, alarm := none }

/-- `avrc_msg_cback` for a response. -/
def avrcMsgCback (c : Config) (h : Handle) (label : Nat) (response : Response) (taken : Bool)
    (fails : Nat) : Handle :=
  let h := h.answered response.opcode?
  if c.ctControl then
    match response with
    | .vendor .short => h
    | .vendor .complete => h.avrcSendNextVendorCmd fails
    | .vendor .fragment => h.avrcMsgReq c label (.vendor false pduRequestContinuationRsp) taken
    | .vendor .overflow =>
      (h.avrcMsgReq c label (.vendor false pduAbortContinuationRsp) taken).avrcSendNextVendorCmd
        fails
    | .browse => h.avrcSendNextVendorCmd fails
    | .passThru => h
    | .other => h
  else h

/-- `avrc_process_timeout`. -/
def avrcProcessTimeout (h : Handle) (alarm : Alarm) (fails : Nat) : Handle :=
  let h := h.answered (some alarm.opcode)
  if alarm.isVendorCmd then h.avrcSendNextVendorCmd fails else h

def step (c : Config) (h : Handle) : Event → Option Handle
  | .msgReq label request taken => some (h.avrcMsgReq c label request taken)
  | .passCmd taken => some (h.avrcPassCmd taken)
  | .response label response taken fails => some (h.avrcMsgCback c label response taken fails)
  | .timeout fails => h.alarm.map fun alarm => h.avrcProcessTimeout alarm fails

/-! ### What is expected -/

/-- A vendor or browse command is outstanding after which the queue is looked at: when its response
comes, which takes `AVRC_CT_CONTROL`, or when its alarm expires, which takes
`AVRC_MSG_MASK_IS_VENDOR_CMD`. -/
def Awaited (c : Config) (h : Handle) : Prop :=
  ∃ opcode ∈ h.outstanding, opcode ≠ .passThru ∧
    (c.ctControl = true ∨ h.alarm = some ⟨opcode, true⟩)

structure Moving (c : Config) (h : Handle) : Prop where
  queued : h.cmdQ ≠ [] → h.Awaited c
  pending : ¬ h.Awaited c → h.rspPending = false

/-- A response after which the queue is not looked at. -/
def Silent (c : Config) (response : Response) (taken : Bool) : Prop :=
  c.ctControl = false ∨ response = .vendor .short ∨
    response = .vendor .fragment ∧ (c.isNewAvrcp false = true ∨ taken = false)

/-- What leaves the flag set with no command outstanding that would clear it. -/
def Strands (c : Config) (h : Handle) : Event → Prop
  -- without AVRC_CT_CONTROL only the alarm of a vendor command of the old format looks at the queue
  | .msgReq _ (.vendor isNewAvrcp _) taken =>
    taken = true ∧ c.ctControl = false ∧ c.isNewAvrcp isNewAvrcp = true ∧ h.rspPending = false
  | .msgReq _ .browse taken => taken = true ∧ c.ctControl = false
  | .msgReq _ .passThru taken => taken = true ∧ ¬ (c.ctControl = true ∧ h.Awaited c)
  -- the alarm of the vendor command is replaced
  | .passCmd taken => taken = true ∧ c.ctControl = false ∧ h.rspPending = true
  | .response _ response taken _ =>
    h.rspPending = true ∧ ¬ (h.answered response.opcode?).Awaited c ∧ Silent c response taken
  | .timeout _ => h.rspPending = true ∧
      ∃ alarm, h.alarm = some alarm ∧ alarm.isVendorCmd = false ∧
        ¬ (h.answered (some alarm.opcode)).Awaited c

/-! ### The flag and the queue -/

/-- Commands only wait while the flag is set. -/
def Kept (h : Handle) : Prop := h.cmdQ ≠ [] → h.rspPending = true

variable {c : Config} {h : Handle}

theorem moving_iff (hkept : h.Kept) : h.Moving c ↔ (h.rspPending = true → h.Awaited c) := by
  constructor
  · intro hmoving hpending
    by_contra hnot
    rw [hmoving.pending hnot] at hpending
    cases hpending
  · intro hawaited
    refine ⟨fun hqueue => hawaited (hkept hqueue), fun hnot => ?_⟩
    exact Bool.eq_false_iff.mpr fun hpending => hnot (hawaited hpending)

theorem kept_answered (hkept : h.Kept) (opcode? : Option Opcode) : (h.answered opcode?).Kept :=
  hkept

/-- A new vendor or browse command is waited for, if something is done when it ends. -/
theorem awaited_sent_iff {opcode : Opcode} (hopcode : opcode ≠ .passThru) (mask : Bool) :
    (h.sent opcode mask).Awaited c ↔ c.ctControl = true ∨ mask = true := by
  constructor
  · rintro ⟨opcode', -, -, hcontrol | halarm⟩
    · exact .inl hcontrol
    · cases halarm
      exact .inr rfl
  · intro hends
    refine ⟨opcode, List.mem_cons_self, hopcode, hends.imp_right fun hmask => ?_⟩
    rw [hmask]
    rfl

/-- A pass-through command is not waited for, and its alarm is in the place of an earlier one. -/
theorem awaited_sent_passThru :
    (h.sent .passThru false).Awaited c ↔ c.ctControl = true ∧ h.Awaited c := by
  constructor
  · rintro ⟨opcode, hmem, hopcode, hcontrol | halarm⟩
    · have hmem' := (List.mem_cons.mp hmem).resolve_left hopcode
      exact ⟨hcontrol, opcode, hmem', hopcode, .inl hcontrol⟩
    · cases halarm
  · rintro ⟨hcontrol, opcode, hmem, hopcode, -⟩
    exact ⟨opcode, List.mem_cons_of_mem _ hmem, hopcode, .inl hcontrol⟩

/-- The next command is sent with the mask, or the flag is cleared. -/
theorem moving_sendNext (c : Config) (hkept : h.Kept) (fails : Nat) :
    (h.avrcSendNextVendorCmd fails).Kept ∧ (h.avrcSendNextVendorCmd fails).Moving c := by
  unfold avrcSendNextVendorCmd
  cases hqueue : h.cmdQ.drop fails with
  | nil =>
    have hkept' : Kept { h with cmdQ := [], rspPending := false } := fun hne => absurd rfl hne
    refine ⟨hkept', (moving_iff hkept').mpr fun hpending => ?_⟩
    cases hpending
  | cons label cmdQ =>
    have hne : h.cmdQ ≠ [] := by
      intro hempty
      rw [hempty, List.drop_nil] at hqueue
      cases hqueue
    have hkept' : (sent { h with cmdQ } .vendor true).Kept := fun _ => hkept hne
    exact ⟨hkept', (moving_iff hkept').mpr fun _ => (awaited_sent_iff (by decide) _).mpr (.inr rfl)⟩

theorem kept_sendCmd (hkept : h.Kept) (opcode : Opcode) (mask taken : Bool) :
    (h.sendCmd opcode mask taken).Kept := by
  unfold sendCmd
  split
  · exact fun _ => rfl
  · exact hkept

theorem kept_avrcMsgReq (hkept : h.Kept) (label : Nat) (request : Request) (taken : Bool) :
    (h.avrcMsgReq c label request taken).Kept := by
  unfold avrcMsgReq
  split
  · dsimp only
    split
    next hpending =>
      rw [Bool.and_eq_true] at hpending
      exact fun _ => hpending.1
    · exact kept_sendCmd hkept _ _ _
  · exact kept_sendCmd hkept _ _ _
  · exact kept_sendCmd hkept _ _ _

/-- A command that is taken sets the flag, so what matters is whether it is waited for. -/
theorem sendCmd_moving_iff (hkept : h.Kept) (hmoving : h.Moving c) (opcode : Opcode)
    (mask taken : Bool) :
    (h.sendCmd opcode mask taken).Moving c ↔
      (taken = true → (sent { h with rspPending := true } opcode mask).Awaited c) := by
  rw [moving_iff (kept_sendCmd hkept _ _ _), sendCmd]
  cases taken with
  | true =>
    rw [if_pos rfl]
    exact ⟨fun hawaited _ => hawaited rfl, fun hawaited _ => hawaited rfl⟩
  | false =>
    rw [if_neg Bool.false_ne_true]
    exact iff_of_true ((moving_iff hkept).mp hmoving) fun htaken => by cases htaken

/-! ### One event -/

/-- A command in the old format has the mask, and one in the new format is sent only if the flag is
not set. -/
theorem vendor_moving_iff (hkept : h.Kept) (hmoving : h.Moving c) (label : Nat) (isNewAvrcp : Bool)
    (pdu : UInt8) (taken : Bool) :
    (h.avrcMsgReq c label (.vendor isNewAvrcp pdu) taken).Moving c ↔
      ¬ Strands c h (.msgReq label (.vendor isNewAvrcp pdu) taken) := by
  have hkept' := kept_avrcMsgReq (c := c) hkept label (.vendor isNewAvrcp pdu) taken
  unfold avrcMsgReq at hkept' ⊢
  rw [Strands]
  dsimp only at hkept' ⊢
  split
  · -- the command waits, and what it waits for has not changed
    rename_i hqueued
    rw [if_pos hqueued] at hkept'
    rw [Bool.and_eq_true] at hqueued
    refine iff_of_true ((moving_iff hkept').mpr ((moving_iff hkept).mp hmoving)) fun hstrands => ?_
    rw [hstrands.2.2.2] at hqueued
    cases hqueued.1
  next hsent =>
    rw [sendCmd_moving_iff hkept hmoving, awaited_sent_iff (by decide)]
    cases hnew : c.isNewAvrcp isNewAvrcp with
    | true =>
      have hflag : h.rspPending = false := by simpa [hnew, isContinuationRsp] using hsent
      simp [hflag]
    | false => simp

theorem msgReq_moving_iff (hkept : h.Kept) (hmoving : h.Moving c) (label : Nat) (request : Request)
    (taken : Bool) :
    (h.avrcMsgReq c label request taken).Moving c ↔
      ¬ Strands c h (.msgReq label request taken) := by
  cases request with
  | vendor isNewAvrcp pdu => exact vendor_moving_iff hkept hmoving label isNewAvrcp pdu taken
  | passThru =>
    rw [avrcMsgReq, sendCmd_moving_iff hkept hmoving, awaited_sent_passThru, Strands, not_and,
      not_not]
    exact Iff.rfl
  | browse =>
    rw [avrcMsgReq, sendCmd_moving_iff hkept hmoving, awaited_sent_iff (by decide), Strands]
    simp

theorem passCmd_moving_iff (hkept : h.Kept) (hmoving : h.Moving c) (taken : Bool) :
    (h.avrcPassCmd taken).Kept ∧
      ((h.avrcPassCmd taken).Moving c ↔ ¬ Strands c h (.passCmd taken)) := by
  have hawaited := (moving_iff hkept).mp hmoving
  rw [avrcPassCmd, Strands]
  cases taken with
  | false =>
    rw [if_neg Bool.false_ne_true]
    exact ⟨hkept, iff_of_true hmoving fun hstrands => by cases hstrands.1⟩
  | true =>
    rw [if_pos rfl]
    have hkept' : (h.sent .passThru false).Kept := hkept
    refine ⟨hkept', ?_⟩
    rw [moving_iff hkept', awaited_sent_passThru]
    have hsame : (h.sent .passThru false).rspPending = h.rspPending := rfl
    rw [hsame]
    constructor
    · rintro hmoves ⟨-, hcontrol, hpending⟩
      rw [(hmoves hpending).1] at hcontrol
      cases hcontrol
    · intro hnot hpending
      refine ⟨?_, hawaited hpending⟩
      by_contra hcontrol
      exact hnot ⟨rfl, Bool.eq_false_iff.mpr hcontrol, hpending⟩

theorem awaited_answered (hcontrol : c.ctControl = true) {opcode? : Option Opcode}
    (hvendor : opcode? ≠ some .vendor) (hbrowse : opcode? ≠ some .browse) (hawaited : h.Awaited c) :
    (h.answered opcode?).Awaited c := by
  obtain ⟨opcode, hmem, hopcode, -⟩ := hawaited
  refine ⟨opcode, ?_, hopcode, .inl hcontrol⟩
  cases opcode? with
  | none => exact hmem
  | some other =>
    have hne : opcode ≠ other := by
      rintro rfl
      cases opcode with
      | vendor => exact hvendor rfl
      | passThru => exact hopcode rfl
      | browse => exact hbrowse rfl
    exact (List.mem_erase_of_ne hne).mpr hmem

/-- With nothing done about the queue, it moves on if another command is waited for. -/
theorem answered_moving_iff (hkept : h.Kept) (opcode? : Option Opcode) :
    (h.answered opcode?).Moving c ↔
      ¬ (h.rspPending = true ∧ ¬ (h.answered opcode?).Awaited c) := by
  rw [moving_iff (kept_answered hkept opcode?), not_and, not_not]
  rfl

theorem fragment_moving_iff (hcontrol : c.ctControl = true) (hkept : h.Kept) (label : Nat)
    (taken : Bool) :
    (h.avrcMsgReq c label (.vendor false pduRequestContinuationRsp) taken).Moving c ↔
      ¬ (h.rspPending = true ∧ ¬ h.Awaited c ∧ (c.isNewAvrcp false = true ∨ taken = false)) := by
  have hsent (h : Handle) (mask : Bool) : (h.sent .vendor mask).Awaited c :=
    (awaited_sent_iff (by decide) mask).mpr (.inl hcontrol)
  rw [moving_iff (kept_avrcMsgReq hkept _ _ _), avrcMsgReq]
  cases hnew : c.isNewAvrcp false with
  | true =>
    have hmask : isContinuationRsp true pduRequestContinuationRsp = false := rfl
    simp only [hmask, Bool.not_false, Bool.and_true, true_or, and_true, not_and, not_not]
    split
    · exact Iff.rfl
    next hpending =>
      refine iff_of_true ?_ fun hset => absurd hset hpending
      unfold sendCmd
      split
      · exact fun _ => hsent _ _
      · exact fun hset => absurd hset hpending
  | false =>
    have hmask : isContinuationRsp false pduRequestContinuationRsp = true := rfl
    simp only [hmask, Bool.not_true, Bool.and_false, Bool.false_eq_true, if_false, false_or,
      sendCmd]
    cases taken with
    | true => exact iff_of_true (fun _ => hsent _ _) fun hnot => by cases hnot.2.2
    | false => simp only [Bool.false_eq_true, if_false, and_true, not_and, not_not]

theorem response_kept_moving_iff (hkept : h.Kept) (hmoving : h.Moving c) (label : Nat)
    (response : Response) (taken : Bool) (fails : Nat) :
    (h.avrcMsgCback c label response taken fails).Kept ∧
      ((h.avrcMsgCback c label response taken fails).Moving c ↔
        ¬ Strands c h (.response label response taken fails)) := by
  have hkept' := kept_answered hkept response.opcode?
  have hawaited := (moving_iff hkept).mp hmoving
  unfold avrcMsgCback
  rw [Strands, Silent]
  dsimp only
  cases hcontrol : c.ctControl with
  | false =>
    simp only [Bool.false_eq_true, if_false, true_or, and_true]
    exact ⟨hkept', answered_moving_iff hkept response.opcode?⟩
  | true =>
    simp only [if_true, Bool.true_eq_false, false_or]
    cases response with
    | vendor rsp =>
      cases rsp with
      | short =>
        refine ⟨hkept', ?_⟩
        simp only [true_or, and_true]
        exact answered_moving_iff hkept _
      | complete =>
        obtain ⟨hnext, hmoves⟩ := moving_sendNext c hkept' fails
        exact ⟨hnext, iff_of_true hmoves (by simp)⟩
      | fragment =>
        refine ⟨kept_avrcMsgReq hkept' _ _ _, ?_⟩
        simp only [Response.vendor.injEq, reduceCtorEq, false_or, true_and]
        exact fragment_moving_iff hcontrol hkept' label taken
      -- the request to abort is sent before the next command
      | overflow =>
        obtain ⟨hnext, hmoves⟩ := moving_sendNext c (kept_avrcMsgReq (c := c) hkept' label
          (.vendor false pduAbortContinuationRsp) taken) fails
        exact ⟨hnext, iff_of_true hmoves (by simp)⟩
    | browse =>
      obtain ⟨hnext, hmoves⟩ := moving_sendNext c hkept' fails
      exact ⟨hnext, iff_of_true hmoves (by simp)⟩
    | passThru | other =>
      refine ⟨hkept', iff_of_true ((moving_iff hkept').mpr fun hpending => ?_) (by simp)⟩
      exact awaited_answered hcontrol (by simp [Response.opcode?]) (by simp [Response.opcode?])
        (hawaited hpending)

theorem timeout_kept_moving_iff (hkept : h.Kept) {alarm : Alarm} (halarm : h.alarm = some alarm)
    (fails : Nat) :
    (h.avrcProcessTimeout alarm fails).Kept ∧
      ((h.avrcProcessTimeout alarm fails).Moving c ↔ ¬ Strands c h (.timeout fails)) := by
  have hkept' := kept_answered hkept (some alarm.opcode)
  have hstrands : Strands c h (.timeout fails) ↔ h.rspPending = true ∧ alarm.isVendorCmd = false ∧
      ¬ (h.answered (some alarm.opcode)).Awaited c := by
    simp [Strands, halarm]
  rw [hstrands, avrcProcessTimeout]
  cases hmask : alarm.isVendorCmd with
  | true =>
    obtain ⟨hnext, hmoves⟩ := moving_sendNext c hkept' fails
    simp only [if_true]
    exact ⟨hnext, iff_of_true hmoves (by simp)⟩
  | false =>
    simp only [Bool.false_eq_true, if_false, true_and]
    exact ⟨hkept', answered_moving_iff hkept _⟩

theorem step_moving_iff (c : Config) (h : Handle) (e : Event) (h' : Handle) (hkept : h.Kept)
    (hmoving : h.Moving c) (hstep : h.step c e = some h') :
    h'.Kept ∧ (h'.Moving c ↔ ¬ Strands c h e) := by
  cases e with
  | msgReq label request taken =>
    cases hstep
    exact ⟨kept_avrcMsgReq hkept _ _ _, msgReq_moving_iff hkept hmoving label request taken⟩
  | passCmd taken =>
    cases hstep
    exact passCmd_moving_iff hkept hmoving taken
  | response label response taken fails =>
    cases hstep
    exact response_kept_moving_iff hkept hmoving label response taken fails
  | timeout fails =>
    rw [step, Option.map_eq_some_iff] at hstep
    obtain ⟨alarm, halarm, rfl⟩ := hstep
    exact timeout_kept_moving_iff hkept halarm fails

/-! ### Every interleaving -/

theorem kept_new : new.Kept := fun hne => absurd rfl hne

theorem moving_new (c : Config) : new.Moving c := ⟨fun hne => absurd rfl hne, fun _ => rfl⟩

/-- The queue moves on all along a run exactly if no event leaves the flag behind. -/
theorem queue_moves_iff (c : Config) (es : List Event) :
    Along (step c) (Moving c) new es ↔ Avoids (step c) (Strands c) new es :=
  along_iff (step_moving_iff c) es kept_new (moving_new c)

/-- A pass-through command sets the flag and its response stops the alarm: the vendor command behind
it waits for nothing. -/
theorem vendor_command_stuck :
    List.foldlM (step ⟨false, false, true⟩) new
      [.msgReq 1 .passThru true, .response 1 .passThru true 0,
        .msgReq 2 (.vendor false 0x10) true] =
      some ⟨[2], true, none, []⟩ := by
  decide

end Handle

end BluetoothStack.Avrc.CommandQueue
