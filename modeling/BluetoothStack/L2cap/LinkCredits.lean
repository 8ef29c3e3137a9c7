import Mathlib
import BluetoothStack.Lib.Words

/-!
# Controller buffers

The controller has a number of buffers for BR/EDR packets and one for LE packets. The stack counts
the free ones in `controller_xmit_window` and `controller_le_xmit_window`, and on each link the
packets that were sent and not yet acknowledged. A buffer is taken when a packet is sent
(`l2c_link_send_to_lower`), comes back when the controller reports it (`l2c_packets_completed`) or
when the link is released (`l2cu_release_lcb`).

`l2c_link_check_send_pkts` calls back into the layers above, and these may call it again before the
first call has returned. A state therefore has a stack of the calls that are under way, and one
event advances the topmost one to its next decision. What is not modelled is which packets there
are: the length of a link's own queue is kept, and whether a channel has a packet is an input.
-/

namespace BluetoothStack.L2cap.Link

open BluetoothStack.Lib

inductive Transport where
  | brEdr
  | le
deriving DecidableEq

/-- What there is once for BR/EDR and once for LE. -/
def Transport.pick {α : Type} (brEdr le : α) : Transport → α
  | .brEdr => brEdr
  | .le => le

/-- A link control block, by its place in `lcb_pool` of `MAX_L2CAP_LINKS`. -/
abbrev LcbId := Fin 16

/-- What a link control block has about controller buffers. -/
structure LinkCb where
  inUse : Bool := false
  transport : Transport := .brEdr
  /-- `none` is `HCI_INVALID_HANDLE` -/
  handle : Option Nat := none
  /-- `link_state` is `LST_CONNECTED` -/
  connected : Bool := false
  /-- `acl_priority` is `L2CAP_PRIORITY_HIGH` -/
  highPriority : Bool := false
  linkXmitQuota : Nat := 0
  sentNotAcked : Nat := 0
  /-- the number of buffers in `link_xmit_data_q` -/
  linkXmitDataQ : Nat := 0

/-- A call that is under way. -/
inductive Frame where
  /-- `l2c_link_check_send_pkts` at the head of the loop over the link's own queue -/
  | linkLoop (c : LcbId) (singleWrite : Bool)
  /-- at the head of the loop over the link's channels -/
  | chanLoop (c : LcbId)
  /-- in `l2cu_get_next_buffer_to_send`, which calls back before the packet is sent -/
  | chanSend (c : LcbId)
  /-- at the head of the round robin loop, with `left` more links to look at; `place` is that
  of `p_lcb` in the pool, 16 being past its end -/
  | rrLoop (left : Nat) (place : Nat) (singleWrite : Bool)
  | rrSend (left : Nat) (c : LcbId) (singleWrite : Bool)
  /-- `l2c_packets_completed` before it gives `n` packets back to the window -/
  | completed (c : LcbId) (n : Nat)
  /-- `l2c_packets_completed` after the link itself has been served -/
  | served (c : LcbId)
  /-- `l2cu_release_lcb` before the link is no longer counted -/
  | releasing (t : Transport)
deriving DecidableEq

/-- `tL2C_CB`; what there is once for BR/EDR and once for LE is a function of the transport. -/
structure Credits where
  lcb : LcbId → LinkCb := fun _ => {}
  /-- `controller_xmit_window`, `controller_le_xmit_window` -/
  window : Transport → Nat
  /-- `num_lm_acl_bufs`, `num_lm_ble_bufs` -/
  bufs : Transport → Nat
  /-- `num_used_lcbs`, `num_ble_links_active`; there are never more than the pool has blocks -/
  links : Transport → Nat := fun _ => 0
  roundRobinQuota : Transport → Nat := fun _ => 0
  roundRobinUnacked : Transport → Nat := fun _ => 0
  checkRoundRobin : Transport → Bool := fun _ => false
  stack : List Frame := []

/-- `L2C_DEF_NUM_BLE_BUF_SHARED` -/
def l2cDefNumBleBufShared : Nat := 1

/-- `l2c_link_init` and then `l2c_link_process_ble_num_bufs`, with what the controller reports. -/
def Credits.init (aclBufs leBufs : UInt16) : Credits :=
  if leBufs = 0 then
    { window := Transport.pick aclBufs.toNat l2cDefNumBleBufShared
      bufs := Transport.pick (sub16 aclBufs.toNat l2cDefNumBleBufShared) l2cDefNumBleBufShared }
  else
    { window := Transport.pick aclBufs.toNat leBufs.toNat
      bufs := Transport.pick aclBufs.toNat leBufs.toNat }

namespace Credits

def setLcb (s : Credits) (c : LcbId) (l : LinkCb) : Credits :=
  { s with lcb := Function.update s.lcb c l }

def setWindow (s : Credits) (t : Transport) (n : Nat) : Credits :=
  { s with window := Function.update s.window t n }

def setLinks (s : Credits) (t : Transport) (n : Nat) : Credits :=
  { s with links := Function.update s.links t n }

def setUnacked (s : Credits) (t : Transport) (n : Nat) : Credits :=
  { s with roundRobinUnacked := Function.update s.roundRobinUnacked t n }

def setCheck (s : Credits) (t : Transport) (b : Bool) : Credits :=
  { s with checkRoundRobin := Function.update s.checkRoundRobin t b }

end Credits

/-! ### Quotas -/

/-- The loop that lowers the quota of the high priority links from `q` until all of them and one
other link fit; it does not end if not even a quota of zero does. -/
def hiPriQuota (hi low xmitQuota : Nat) : Nat → Option Nat
  | 0 => if low > xmitQuota then none else some 0
  | q + 1 => if hi * (q + 1) + low > xmitQuota then hiPriQuota hi low xmitQuota q else some (q + 1)

/-- The quota that one link gets, and what is left to be given to later ones. -/
def assignQuota (t : Transport) (counts : LinkCb → Bool) (hiQuota qq : Nat) :
    Credits × Nat → LcbId → Credits × Nat
  | (s, remainder), c =>
    let l := s.lcb c
    if counts l then
      if l.highPriority then (s.setLcb c { l with linkXmitQuota := hiQuota }, remainder)
      else
        let s := if l.linkXmitQuota > 0 && qq == 0
          then s.setUnacked t (u16 (s.roundRobinUnacked t + l.sentNotAcked)) else s
        if remainder > 0 then (s.setLcb c { l with linkXmitQuota := u16 (qq + 1) }, remainder - 1)
        else (s.setLcb c { l with linkXmitQuota := qq }, remainder)
    else (s, remainder)

/-- `l2c_link_adjust_allocation` and `l2c_ble_link_adjust_allocation`: how many packets each link
may have outstanding. `counts` says which links take part, `few` what a link gets if there is not
one buffer for each. -/
def adjustAllocation (t : Transport) (counts : LinkCb → Bool) (few : Nat) (s : Credits) :
    Option Credits := do
  if s.links t = 0 then
    return { (s.setWindow t (s.bufs t)).setUnacked t 0 with
      roundRobinQuota := Function.update s.roundRobinQuota t 0 }
  let pool := List.finRange 16
  let hi := (pool.filter fun c => counts (s.lcb c) && (s.lcb c).highPriority).length
  let low := (pool.filter fun c => counts (s.lcb c) && !(s.lcb c).highPriority).length
  let hiQuota ← hiPriQuota hi (if low = 0 then 0 else 1) (s.bufs t) 5
  let lowQuota := if hi * hiQuota < s.bufs t then s.bufs t - hi * hiQuota else 1
  let (rrQuota, unacked, qq, remainder) :=
    if low > lowQuota then (lowQuota, s.roundRobinUnacked t, few, few)
    else if low > 0 then (0, 0, lowQuota / low, lowQuota % low)
    else (0, 0, few, few)
  let s := { s.setUnacked t unacked with
    roundRobinQuota := Function.update s.roundRobinQuota t rrQuota }
  return (pool.foldl (assignQuota t counts hiQuota qq) (s, remainder)).1

def l2cLinkAdjustAllocation (s : Credits) : Option Credits :=
  let isShareBuffer := s.bufs .le == l2cDefNumBleBufShared
  adjustAllocation .brEdr (fun l => l.inUse && (isShareBuffer || l.transport != .le)) 1 s

def l2cBleLinkAdjustAllocation (s : Credits) : Option Credits :=
  adjustAllocation .le (fun l => l.inUse && l.transport == .le) 0 s

/-- The one for the transport of a link. -/
def adjustFor : Transport → Credits → Option Credits
  | .brEdr => l2cLinkAdjustAllocation
  | .le => l2cBleLinkAdjustAllocation

/-! ### Links -/

/-- `l2cu_allocate_lcb`: the first free block of the pool. -/
def l2cuAllocateLcb (s : Credits) (t : Transport) : Option Credits :=
  match (List.finRange 16).find? fun c => !(s.lcb c).inUse with
  | none => some s
  | some c =>
    adjustFor t ((s.setLcb c { inUse := true, transport := t }).setLinks t (s.links t + 1))

/-- `l2cu_release_lcb` up to its callbacks. -/
def l2cuReleaseLcb (s : Credits) (c : LcbId) : Credits :=
  let l := s.lcb c
  let t := l.transport
  let window :=
    if l.sentNotAcked > 0 then
      let w := u16 (s.window t + l.sentNotAcked)
      if w > s.bufs t then s.bufs t else w
    else s.window t
  { (s.setLcb c { l with inUse := false, linkXmitDataQ := 0 }).setWindow t window with
    stack := .releasing t :: s.stack }

/-- `l2cu_release_lcb` after its callbacks. -/
def releaseFinish (s : Credits) (t : Transport) : Option Credits :=
  adjustFor t (if s.links t ≥ 1 then s.setLinks t (s.links t - 1) else s)

/-! ### Sending -/

/-- `l2c_link_send_to_lower_br_edr` and `l2c_link_send_to_lower_ble`. -/
def l2cLinkSendToLower (s : Credits) (c : LcbId) : Credits :=
  let l := s.lcb c
  let t := l.transport
  let s := if l.linkXmitQuota = 0 then s.setUnacked t (u16 (s.roundRobinUnacked t + 1)) else s
  let s := s.setLcb c { l with sentNotAcked := u16 (l.sentNotAcked + 1) }
  s.setWindow t (sub16 (s.window t) 1)

/-- Append the buffer that `l2c_link_check_send_pkts` was given. -/
def queueOnLink (s : Credits) (c : LcbId) : Credits :=
  let l := s.lcb c
  let s := s.setLcb c { l with linkXmitDataQ := l.linkXmitDataQ + 1 }
  if l.linkXmitQuota = 0 then s.setCheck l.transport true else s

/-- `l2c_link_check_send_pkts` up to its loops. `p` is `p_lcb`; `buf` says whether a buffer comes
with the call, and `cong` is `is_cong_cback_context`. -/
def l2cLinkCheckSendPkts (s : Credits) (p : Option LcbId) (buf : Bool) (localCid : Nat)
    (cong : Bool) : Credits :=
  let singleWrite := buf && localCid != 0
  match p with
  | none => if cong then s else { s with stack := .rrLoop 16 0 singleWrite :: s.stack }
  | some c =>
    let s := if buf then queueOnLink s c else s
    if cong then s
    else if (s.lcb c).linkXmitQuota = 0 then
      { s with stack := .rrLoop 16 (if singleWrite then c.val else c.val + 1) singleWrite ::
        s.stack }
    else if (s.lcb c).connected then { s with stack := .linkLoop c singleWrite :: s.stack }
    else s

/-- The test at the head of the two loops of the direct service. -/
def mayServe (s : Credits) (c : LcbId) : Bool :=
  s.window (s.lcb c).transport != 0 && (s.lcb c).sentNotAcked < (s.lcb c).linkXmitQuota

/-- Take the first buffer of a link's own queue and send it. -/
def sendQueued (s : Credits) (c : LcbId) : Credits :=
  let l := s.lcb c
  l2cLinkSendToLower (s.setLcb c { l with linkXmitDataQ := l.linkXmitDataQ - 1 }) c

/-- What follows the round robin loop; `t` is the transport that is read at `p_lcb`. -/
def rrFinish (s : Credits) : Option Transport → Credits
  | some t =>
    if s.window t > 0 && s.roundRobinUnacked t < s.roundRobinQuota t then s.setCheck t false else s
  | none => s

/-- One turn of the round robin loop for the link `c`. `offer` says whether
`l2cu_get_next_buffer_to_send` finds a packet. -/
def rrTurn (s : Credits) (left : Nat) (c : LcbId) (singleWrite offer : Bool)
    (rest : List Frame) : Credits :=
  let l := s.lcb c
  let t := l.transport
  let next : List Frame := .rrLoop left (c.val + 1) singleWrite :: rest
  if s.window t = 0 || s.roundRobinUnacked t ≥ s.roundRobinQuota t then { s with stack := next }
  else if !l.inUse || !l.connected || l.linkXmitQuota != 0 then { s with stack := next }
  else if l.linkXmitDataQ > 0 then { sendQueued s c with stack := next }
  else if singleWrite then { s with stack := .rrLoop 0 c.val singleWrite :: rest }
  else if offer then { s with stack := .rrSend left c singleWrite :: rest }
  else { s with stack := next }

/-! ### Acknowledgement -/

/-- `l2cu_find_lcb_by_handle` -/
def l2cuFindLcbByHandle (s : Credits) (handle : Nat) : Option LcbId :=
  (List.finRange 16).find? fun c => (s.lcb c).inUse && (s.lcb c).handle == some handle

/-- `l2c_packets_completed` up to the callbacks of `l2cu_update_outstanding_packets_lcb`. -/
def l2cPacketsCompleted (s : Credits) (handle n : Nat) : Credits :=
  match l2cuFindLcbByHandle s handle with
  | none => s
  | some c =>
    let l := s.lcb c
    { s.setLcb c { l with sentNotAcked := l.sentNotAcked - n } with
      stack := .completed c n :: s.stack }

/-- `l2c_packets_completed` after these callbacks, up to the first call of
`l2c_link_check_send_pkts`. -/
def creditWindow (s : Credits) (c : LcbId) (n : Nat) : Credits :=
  let l := s.lcb c
  let t := l.transport
  let s := s.setWindow t (u16 (s.window t + n))
  if l.linkXmitQuota = 0 then s.setUnacked t (s.roundRobinUnacked t - n) else s

/-! ### Runs -/

/-- The topmost call goes on. `offer` answers whether a channel has a packet, and `past` is what a
read of `transport` past the end of the pool finds. -/
def tick (s : Credits) (offer : Bool) (past : Option Transport) : Option Credits :=
  match s.stack with
  | [] => some s
  | .linkLoop c singleWrite :: rest =>
    some <|
      if mayServe s c && (s.lcb c).linkXmitDataQ > 0 then sendQueued s c
      else { s with stack := if singleWrite then rest else .chanLoop c :: rest }
  | .chanLoop c :: rest =>
    some { s with stack := if mayServe s c && offer then .chanSend c :: rest else rest }
  | .chanSend c :: rest => some { l2cLinkSendToLower s c with stack := .chanLoop c :: rest }
  | .rrLoop 0 place _ :: rest =>
    some <| rrFinish { s with stack := rest }
      (if h : place < 16 then some (s.lcb ⟨place, h⟩).transport else past)
  | .rrLoop (left + 1) place singleWrite :: rest =>
    -- past the end of the pool, the loop goes on at its beginning
    some (rrTurn s left (if h : place < 16 then ⟨place, h⟩ else 0) singleWrite offer rest)
  | .rrSend left c singleWrite :: rest =>
    some { l2cLinkSendToLower s c with stack := .rrLoop left (c.val + 1) singleWrite :: rest }
  | .completed c n :: rest =>
    some (l2cLinkCheckSendPkts { creditWindow s c n with stack := .served c :: rest } (some c)
      false 0 false)
  | .served c :: rest =>
    let t := (s.lcb c).transport
    let s := { s with stack := rest }
    some <|
      if (s.lcb c).highPriority && s.checkRoundRobin t && s.roundRobinUnacked t <
        s.roundRobinQuota t then l2cLinkCheckSendPkts s none false 0 false else s
  | .releasing t :: rest => releaseFinish { s with stack := rest } t

inductive CreditEvent where
  /-- a link is allocated -/
  | alloc (t : Transport)
  /-- a link's state or handle changes -/
  | setState (c : LcbId) (connected : Bool) (handle : Option Nat)
  /-- a link's priority changes, and all quotas with it -/
  | setPriority (c : LcbId) (high : Bool)
  | release (c : LcbId)
  /-- the controller has sent `n` packets of a handle -/
  | completed (handle n : Nat)
  /-- `l2c_link_check_send_pkts` is called -/
  | checkSend (p : Option LcbId) (buf : Bool) (localCid : Nat) (cong : Bool)
  /-- the topmost call goes on -/
  | tick (offer : Bool) (past : Option Transport)

/-- One event; `none` if it cannot happen, or does not end. The main loop takes releases and
acknowledgements one after the other, only calls of `l2c_link_check_send_pkts` are nested; all of
them are about links that are in use. -/
def creditStep (s : Credits) : CreditEvent → Option Credits
  | .alloc t => l2cuAllocateLcb s t
  | .setState c connected handle =>
    some (s.setLcb c { s.lcb c with connected := connected, handle := handle })
  | .setPriority c high =>
    if (s.lcb c).highPriority = high then some s
    else l2cLinkAdjustAllocation (s.setLcb c { s.lcb c with highPriority := high })
  | .release c => if s.stack = [] ∧ (s.lcb c).inUse then some (l2cuReleaseLcb s c) else none
  | .completed handle n => if s.stack = [] then some (l2cPacketsCompleted s handle n) else none
  | .checkSend p buf localCid cong =>
    if ∀ c, p = some c → (s.lcb c).inUse then some (l2cLinkCheckSendPkts s p buf localCid cong)
    else none
  | .tick offer past => tick s offer past

def creditRun : Credits → List CreditEvent → Option Credits
  | s, [] => some s
  | s, e :: es => do
    let s ← creditStep s e
    creditRun s es

end BluetoothStack.L2cap.Link
