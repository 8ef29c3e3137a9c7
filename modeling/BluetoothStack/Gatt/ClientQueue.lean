import Mathlib.Tactic
import BluetoothStack.Gatt.Discovery
import BluetoothStack.Gatt.Notifications

/-!
# BluetoothStack.Gatt.ClientQueue

The commands of a GATT client that wait for their responses (`gatt_cl.cc`, `gatt_utils.cc`).

Each bearer of a connection, the ATT channel and the EATT channels, has a queue. The command at the
head of a queue has been sent; what comes from the server on that bearer is its response.
`gatt_client_handle_server_rsp` takes the command out of the queue before it compares the opcode.

What the handler of a response does to the queues is a parameter: an operation that goes on puts its
next command into one.
-/

namespace BluetoothStack.Gatt

open BluetoothStack.Lib

namespace Op

/-- The requests of a client that have a response. -/
def requests : List Nat :=
  [reqMtu, reqFindInfo, reqFindTypeValue, reqReadByType, reqRead, reqReadBlob, reqReadMulti,
    reqReadByGrpType, reqWrite, reqPrepareWrite, reqExecWrite, reqReadMultiVar]

/-- The opcodes that `gatt_process_notification` is called for. -/
def notifications : List Nat := [handleValueInd, handleValueNotif, handleMultiValueNotif]

end Op

/-! ### Queues -/

/-- `tGATT_CMD_Q`. -/
structure ClCmd where
  /-- The operation; `none` once its client has gone. -/
  clcb : Option Nat
  opCode : Nat
  toSend : Bool
  /-- `p_cmd` is not `NULL`. -/
  hasCmd : Bool
deriving DecidableEq, Repr

/-- The queues of a connection, by the channel; the first is that of the ATT channel. -/
structure Bearers where
  queues : List (Nat × List ClCmd)
deriving DecidableEq, Repr

namespace Bearers

def queue (t : Bearers) (cid : Nat) : Option (List ClCmd) := t.queues.lookup cid

def setQueue (t : Bearers) (cid : Nat) (q : List ClCmd) : Bearers :=
  ⟨t.queues.map fun b => if b.1 = cid then (b.1, q) else b⟩

/-- `gatt_cmd_dequeue`; nothing for a channel that is gone or has no command. -/
def gattCmdDequeue (t : Bearers) (cid : Nat) : Option (ClCmd × Bearers) :=
  match t.queue cid with
  | some (cmd :: rest) => some (cmd, t.setQueue cid rest)
  | _ => none

end Bearers

inductive ClEvent where
  | sent (opCode : Nat)
  | startRspTimer (clcb : Option Nat)
  | stopRspTimer (clcb : Nat)
  | endOperation (clcb : Nat) (status : Status)
  | notification (opCode : Nat) (p : List UInt8)
  /-- The handler of a response, for the operation it is given to. -/
  | process (clcb opCode : Nat) (p : List UInt8)
deriving DecidableEq, Repr

/-- The loop of `gatt_cl_send_next_cmd_inq`; `lower` is what L2CAP answers each time. -/
def sendNextLoop (lower : Nat → Status) : Nat → Nat → Bearers → Bearers × List ClEvent
  | 0, _, t => (t, [])
  | fuel + 1, n, t =>
    match t.queues.find? fun b => (b.2.head?.map ClCmd.toSend).getD false with
    | some (cid, cmd :: rest) =>
      if !cmd.hasCmd then (t, [])
      else if lower n ≠ .success ∧ lower n ≠ .congested then
        sendNextLoop lower fuel (n + 1) (t.setQueue cid rest)
      else if cmd.opCode = Op.cmdWrite ∨ cmd.opCode = Op.signCmdWrite then
        let ended := cmd.clcb.toList.map fun clcb => ClEvent.endOperation clcb (lower n)
        if lower n = .success then
          let (t, events) := sendNextLoop lower fuel (n + 1) (t.setQueue cid rest)
          (t, .sent cmd.opCode :: ended ++ events)
        else (t.setQueue cid rest, .sent cmd.opCode :: ended)
      else
        (t.setQueue cid ({ cmd with toSend := false, hasCmd := false } :: rest),
          [.sent cmd.opCode, .startRspTimer cmd.clcb])
    | _ => (t, [])

/-- `gatt_cl_send_next_cmd_inq`: each round but the last takes a command out. -/
def gattClSendNextCmdInq (lower : Nat → Status) (t : Bearers) : Bearers × List ClEvent :=
  sendNextLoop lower ((t.queues.map fun b => b.2.length).sum + 1) 0 t

section Handling

variable (handler : Nat → Nat → List UInt8 → Bearers → Bearers) (lower : Nat → Status)
  (payloadSize : Nat)

/-- `gatt_client_handle_server_rsp`. -/
def gattClientHandleServerRsp (t : Bearers) (cid opCode : Nat) (p : List UInt8) :
    Bearers × List ClEvent :=
  if opCode ∈ Op.notifications then
    (t, if p.length ≥ payloadSize then [] else [.notification opCode p])
  else
    match t.gattCmdDequeue cid with
    | none => gattClSendNextCmdInq lower t
    | some (⟨none, _, _, _⟩, t) => gattClSendNextCmdInq lower t
    | some (⟨some clcb, cmdCode, _, _⟩, t) =>
      if Disc.gattCmdToRspCode cmdCode ≠ opCode ∧ opCode ≠ Op.rspError then (t, [])
      else if p.length ≥ payloadSize then
        let (t, events) := gattClSendNextCmdInq lower t
        (t, .stopRspTimer clcb :: .endOperation clcb .error :: events)
      else
        let (t, events) := gattClSendNextCmdInq lower (handler clcb opCode p t)
        (t, .stopRspTimer clcb :: .process clcb opCode p :: events)

/-! ### A response that does not match -/

section Ignored

variable {t : Bearers} {cid opCode clcb n : Nat} {p : List UInt8} {cmd : ClCmd}
  {rest q : List ClCmd}

theorem queue_setQueue (h : t.queue cid = some q) (q' : List ClCmd) :
    (t.setQueue cid q').queue cid = some q' := by
  obtain ⟨queues⟩ := t
  simp only [Bearers.queue, Bearers.setQueue] at h ⊢
  induction queues with
  | nil => cases h
  | cons b bs ih =>
    rw [List.map_cons, List.lookup_cons]
    by_cases hb : b.1 = cid
    · simp [hb]
    · have hne : (cid == b.1) = false := beq_false_of_ne (Ne.symm hb)
      rw [List.lookup_cons, hne] at h
      simp only [if_neg hb, hne]
      exact ih h

theorem dequeue_of_queue (h : t.queue cid = some (cmd :: rest)) :
    t.gattCmdDequeue cid = some (cmd, t.setQueue cid rest) := by
  rw [Bearers.gattCmdDequeue, h]

/-- A response that does not match takes the command out of the queue, and does nothing else. -/
theorem handle_ignored (hq : t.queue cid = some (cmd :: rest)) (hclcb : cmd.clcb = some clcb)
    (hnotif : opCode ∉ Op.notifications) (hrsp : Disc.gattCmdToRspCode cmd.opCode ≠ opCode)
    (herr : opCode ≠ Op.rspError) :
    gattClientHandleServerRsp handler lower payloadSize t cid opCode p =
      (t.setQueue cid rest, []) := by
  obtain ⟨c, code, toSend, hasCmd⟩ := cmd
  cases hclcb
  rw [gattClientHandleServerRsp, if_neg hnotif, dequeue_of_queue hq]
  exact if_pos ⟨hrsp, herr⟩

/-- The response that matches is given to the operation at the head of the queue. -/
theorem handle_matching (hq : t.queue cid = some (cmd :: rest)) (hclcb : cmd.clcb = some clcb)
    (hnotif : Disc.gattCmdToRspCode cmd.opCode ∉ Op.notifications) (hp : p.length < payloadSize) :
    .process clcb (Disc.gattCmdToRspCode cmd.opCode) p ∈
      (gattClientHandleServerRsp handler lower payloadSize t cid
        (Disc.gattCmdToRspCode cmd.opCode) p).2 := by
  obtain ⟨c, code, toSend, hasCmd⟩ := cmd
  cases hclcb
  rw [gattClientHandleServerRsp, if_neg hnotif, dequeue_of_queue hq]
  simp only [if_neg (not_le.mpr hp)]
  rw [if_neg (fun h => h.1 rfl)]
  simp

/-- After a message from the server the command at the head of the queue still waits for its
response, and the response that comes next is given to its operation. -/
structure StillAnswered (t : Bearers) (cid : Nat) (cmd : ClCmd) (clcb opCode : Nat)
    (p : List UInt8) : Prop where
  pending : (gattClientHandleServerRsp handler lower payloadSize t cid opCode p).1.queue cid =
    t.queue cid
  answered : ∀ p' : List UInt8, p'.length < payloadSize →
    .process clcb (Disc.gattCmdToRspCode cmd.opCode) p' ∈
      (gattClientHandleServerRsp handler lower payloadSize
        (gattClientHandleServerRsp handler lower payloadSize t cid opCode p).1 cid
        (Disc.gattCmdToRspCode cmd.opCode) p').2

/-- The response to a request is no notification. -/
theorem rspCode_not_notification {code : Nat} (h : code ∈ Op.requests) :
    Disc.gattCmdToRspCode code ∉ Op.notifications := by
  revert code
  decide

/-- A message that is neither the response nor an error leaves the request in the queue exactly if
it is a notification or an indication. -/
theorem still_answered_iff (hq : t.queue cid = some (cmd :: rest)) (hclcb : cmd.clcb = some clcb)
    (hreq : cmd.opCode ∈ Op.requests) (hrsp : Disc.gattCmdToRspCode cmd.opCode ≠ opCode)
    (herr : opCode ≠ Op.rspError) :
    StillAnswered handler lower payloadSize t cid cmd clcb opCode p ↔
      opCode ∈ Op.notifications := by
  constructor
  · intro h
    by_contra hnotif
    have hpending := h.pending
    rw [handle_ignored handler lower payloadSize hq hclcb hnotif hrsp herr, queue_setQueue hq, hq,
      Option.some.injEq] at hpending
    exact List.cons_ne_self cmd rest hpending.symm
  · intro hnotif
    have hsame : (gattClientHandleServerRsp handler lower payloadSize t cid opCode p).1 = t := by
      rw [gattClientHandleServerRsp, if_pos hnotif]
    refine ⟨by rw [hsame], fun p' hp' => ?_⟩
    rw [hsame]
    exact handle_matching handler lower payloadSize hq hclcb (rspCode_not_notification hreq) hp'

end Ignored

end Handling

/-- A connection with one Read request that waits for its response. -/
def oneRead : Bearers := ⟨[(4, [⟨some 7, Op.reqRead, false, false⟩])]⟩

theorem still_answered_iff_one_read :
    ¬ StillAnswered (fun _ _ _ t => t) (fun _ => .success) 23 oneRead 4
        ⟨some 7, Op.reqRead, false, false⟩ 7 Op.rspWrite [] := by
  rw [still_answered_iff (fun _ _ _ t => t) (fun _ => .success) 23 rfl rfl (by decide) (by decide)
    (by decide)]
  decide

/-- A Write response is ignored, and the Read response behind it goes to no one. -/
theorem ignored_response_drops_request :
    gattClientHandleServerRsp (fun _ _ _ t => t) (fun _ => .success) 23 oneRead 4 Op.rspWrite [] =
      (⟨[(4, [])]⟩, []) ∧
    gattClientHandleServerRsp (fun _ _ _ t => t) (fun _ => .success) 23 ⟨[(4, [])]⟩ 4 Op.rspRead
      [1] = (⟨[(4, [])]⟩, []) ∧
    ¬ StillAnswered (fun _ _ _ t => t) (fun _ => .success) 23 oneRead 4
        ⟨some 7, Op.reqRead, false, false⟩ 7 Op.rspWrite [] := by
  refine ⟨by decide, by decide, fun h => ?_⟩
  exact absurd h.pending (by decide)

end BluetoothStack.Gatt
