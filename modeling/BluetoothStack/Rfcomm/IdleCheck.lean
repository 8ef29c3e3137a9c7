import BluetoothStack.Rfcomm.Ports

/-!
# BluetoothStack.Rfcomm.IdleCheck

The check for idle multiplexers, which reads the tables of port handles: a multiplexer without an
open port is disconnected, or gets a timer.
-/

namespace BluetoothStack.Rfcomm

/-! ### Control blocks -/

/-- `tRFC_MCB`: the multiplexer to one peer, with its table of port handles by DLCI. -/
structure Mcb where
  state : MxState
  isDiscInitiator : Bool
  /-- `cmd_q` is allocated. -/
  cmdQ : Bool
  /-- `mcb_timer`, in seconds. -/
  mcbTimer : Option Nat
  portHandles : Nat → Nat

/-- The multiplexers of the global control block. -/
structure Rfc where
  mcb : Nat → Mcb
  /-- The DISC frames handed to the command queues: the multiplexer and the DLCI. -/
  discs : List (Nat × Nat)

/-- A crash: a frame is queued on an MCB that has no command queue. -/
inductive Fault where
  | noCmdQueue
deriving DecidableEq, Repr

def Rfc.setMcb (s : Rfc) (m : Nat) (q : Mcb) : Rfc := { s with mcb := Function.update s.mcb m q }

/-- `RFC_DISC_TIMEOUT`. -/
def rfcDiscTimeout : Nat := 3

/-- `RFC_MCB_RELEASE_INACT_TIMER`. -/
def rfcMcbReleaseInactTimer : Nat := 20

/-- `rfc_timer_start`. -/
def rfcTimerStart (q : Mcb) (timeout : Nat) : Mcb := { q with mcbTimer := some timeout }

/-- `rfc_send_disc`. -/
def rfcSendDisc (s : Rfc) (m dlci : Nat) : Except Fault Rfc :=
  if (s.mcb m).cmdQ then .ok { s with discs := s.discs ++ [(m, dlci)] } else .error .noCmdQueue

/-- `RFC_MX_EVENT_CLOSE_REQ` in the multiplexer state machine. -/
def rfcMxCloseReq (s : Rfc) (m : Nat) : Except Fault Rfc :=
  match (s.mcb m).state with
  | .connected =>
    let q := rfcTimerStart (s.mcb m) rfcDiscTimeout
    rfcSendDisc (s.setMcb m { q with state := .discWaitUa }) m 0
  | _ => .ok s

/-! ### The check -/

/-- What `rfc_check_mcb_active` decides. -/
inductive IdleCheck where
  | active | closeReq | inactTimer
deriving DecidableEq, Repr

/-- The scan ends before `RFCOMM_MAX_DLCI`, but the table has an entry for it. -/
def Mcb.idleCheck (q : Mcb) : IdleCheck :=
  if (List.range rfcommMaxDlci).any (fun i => q.portHandles i != 0) then .active
  else if q.isDiscInitiator then .closeReq
  else .inactTimer

/-- `rfc_check_mcb_active`. -/
def rfcCheckMcbActive (s : Rfc) (m : Nat) : Except Fault Rfc :=
  match (s.mcb m).idleCheck with
  | .active => .ok (s.setMcb m { s.mcb m with isDiscInitiator := false })
  | .closeReq => rfcMxCloseReq (s.setMcb m { s.mcb m with isDiscInitiator := false }) m
  | .inactTimer => .ok (s.setMcb m (rfcTimerStart (s.mcb m) rfcMcbReleaseInactTimer))

theorem Mcb.idleCheck_eq_active (q : Mcb) :
    q.idleCheck = .active ↔ ∃ d < rfcommMaxDlci, q.portHandles d ≠ 0 := by
  rw [Mcb.idleCheck]
  split
  next hany => simpa using hany
  next hnone =>
    refine ⟨?_, fun hsome => absurd (by simpa using hsome) hnone⟩
    split <;> intro h <;> cases h

/-- A multiplexer with a port on a DLCI is left alone exactly if that is not the last DLCI, or if
there is another port. -/
theorem open_port_keeps_mcb_iff (s : Rfc) (m : Nat) {dlci : Nat}
    (hdlci : 2 ≤ dlci ∧ dlci ≤ rfcommMaxDlci) (hport : (s.mcb m).portHandles dlci ≠ 0) :
    (s.mcb m).idleCheck = .active ↔
      dlci ≠ rfcommMaxDlci ∨ ∃ d < rfcommMaxDlci, (s.mcb m).portHandles d ≠ 0 := by
  rw [Mcb.idleCheck_eq_active]
  refine ⟨.inr, ?_⟩
  rintro (hne | hother)
  · exact ⟨dlci, lt_of_le_of_ne hdlci.2 hne, hport⟩
  · exact hother

/-- A multiplexer that has a port on one DLCI only. -/
def oneOpen (dlci : Nat) : Rfc :=
  ⟨fun _ => ⟨.connected, true, true, none, fun d => if d = dlci then 1 else 0⟩, []⟩

theorem open_port_keeps_mcb_iff_sixty :
    ((oneOpen 60).mcb 0).idleCheck = .active ∧ ((oneOpen 61).mcb 0).idleCheck ≠ .active := by
  have hnext : 2 ≤ 60 ∧ 60 ≤ rfcommMaxDlci := by decide
  have hlast : 2 ≤ 61 ∧ 61 ≤ rfcommMaxDlci := by decide
  constructor
  · exact (open_port_keeps_mcb_iff (oneOpen 60) 0 hnext (by decide)).mpr (.inl (by decide))
  · rw [Ne, open_port_keeps_mcb_iff (oneOpen 61) 0 hlast (by decide)]
    decide

/-- The port on the last DLCI is overlooked, and the multiplexer is disconnected. -/
theorem last_dlci_disconnected :
    ∃ s', rfcCheckMcbActive (oneOpen 61) 0 = .ok s' ∧ (s'.mcb 0).portHandles 61 = 1 ∧
      s'.discs = [(0, 0)] :=
  ⟨_, rfl, rfl, rfl⟩

end BluetoothStack.Rfcomm
