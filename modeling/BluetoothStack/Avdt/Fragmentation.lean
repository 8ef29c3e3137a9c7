import Mathlib
import BluetoothStack.Lib.Window

/-!
# BluetoothStack.Avdt.Fragmentation

Fragmentation and reassembly of AVDTP signalling messages (`avdt_msg.cc`).

`avdt_msg_send` stops whenever the channel is congested and is called again for what is left of the
message. A header is written right in front of the data it belongs to, so a packet is its header
followed by its data, whichever buffer they are in. The two halves of the round trip meet at `Tail`,
which describes the packets behind a START packet.

The START packet announces the number of packets. The formula for it is exact unless what is behind
the START packet fills its packets to the last byte: then it announces one too many.
-/

namespace BluetoothStack.Avdt

open BluetoothStack.Lib

/-! ### Messages and packets -/

/-- `AVDT_PKT_TYPE_SINGLE` and so on. -/
inductive PktType where
  | single
  | start
  | cont
  | last
deriving DecidableEq, Repr

namespace PktType

def toByte : PktType → UInt8
  | single => 0
  | start => 1
  | cont => 2
  | last => 3

/-- `AVDT_MSG_PRS_PKT_TYPE`. -/
def ofHeader (b : UInt8) : PktType :=
  if (b >>> 2) &&& 3 = 0 then single
  else if (b >>> 2) &&& 3 = 1 then start
  else if (b >>> 2) &&& 3 = 2 then cont
  else last

/-- `AVDT_LEN_TYPE_SINGLE` and so on, and `avdt_msg_pkt_type_len`. -/
def hdrLen : PktType → Nat
  | single => 2
  | start => 3
  | cont => 1
  | last => 1

end PktType

/-- The header of a message. A signal identifier has six bits. -/
structure Header where
  label : Fin 16
  msg : Fin 4
  sig : Fin 64
deriving DecidableEq, Repr

/-- `AVDT_MSG_BLD_HDR`. -/
def bldHdr (label : Fin 16) (pkt : PktType) (msg : Fin 4) : UInt8 :=
  (UInt8.ofNat label <<< 4) ||| (pkt.toByte <<< 2) ||| UInt8.ofNat msg

/-- The first byte of a packet. -/
def Header.byte (h : Header) (pkt : PktType) : UInt8 := bldHdr h.label pkt h.msg

/-- `AVDT_MSG_BLD_SIG`. -/
def Header.bldSig (h : Header) : UInt8 := UInt8.ofNat h.sig

/-- `AVDT_MSG_PRS_HDR` and `AVDT_MSG_PRS_SIG`. -/
def Header.prs (b s : UInt8) : Header :=
  ⟨⟨((b >>> 4) &&& 0x0F).toNat % 16, Nat.mod_lt _ (by decide)⟩,
    ⟨(b &&& 3).toNat % 4, Nat.mod_lt _ (by decide)⟩,
    ⟨(s &&& 0x3F).toNat % 64, Nat.mod_lt _ (by decide)⟩⟩

@[simp] theorem ofHeader_byte (h : Header) (pkt : PktType) :
    PktType.ofHeader (h.byte pkt) = pkt := by
  have hbits : ∀ label msg, PktType.ofHeader (bldHdr label pkt msg) = pkt := by
    cases pkt <;> decide +kernel
  exact hbits h.label h.msg

@[simp] theorem prs_byte_bldSig (h : Header) (pkt : PktType) :
    Header.prs (h.byte pkt) h.bldSig = h := by
  have hbits : ∀ label msg, ((bldHdr label pkt msg >>> 4) &&& 0x0F).toNat % 16 = label.val ∧
      (bldHdr label pkt msg &&& 3).toNat % 4 = msg.val := by
    cases pkt <;> decide +kernel
  have hsig : ∀ sig : Fin 64, (UInt8.ofNat sig &&& 0x3F).toNat % 64 = sig.val := by
    decide +kernel
  obtain ⟨label, msg, sig⟩ := h
  simp only [Header.prs, Header.byte, (hbits label msg).1, (hbits label msg).2, Header.bldSig,
    hsig sig]

/-! ### Sending -/

/-- `sizeof(BT_HDR)`. -/
def btHdrSize : Nat := 8

/-- `AVDT_CMD_BUF_SIZE`. -/
def cmdBufSize : Nat := 660

/-- `L2CAP_MIN_OFFSET`. -/
def l2capMinOffset : Nat := 13

/-- `AVDT_NUM_SEPS`. -/
def numSeps : Nat := 12

/-- `AVDT_MSG_OFFSET`. -/
def msgOffset : Nat := l2capMinOffset + numSeps + PktType.start.hdrLen

/-- `p_curr_msg`: what has not been sent of a message. -/
structure Msg where
  hdr : Header
  offset : Nat
  data : List UInt8
deriving DecidableEq, Repr

/-- A message that has not been sent yet. -/
def Msg.new (hdr : Header) (payload : List UInt8) : Msg := ⟨hdr, msgOffset, payload⟩

/-- What is left once `n` bytes are in a packet. -/
def Msg.sent (m : Msg) (n : Nat) : Option Msg :=
  if m.data.length - n = 0 then none
  else some { m with offset := m.offset + n, data := m.data.drop n }

/-- A new buffer with the first bytes of the message, all that fits a packet of this type. `none` is
a copy beyond the end of the buffer. -/
def Msg.fragment (m : Msg) (mtu : Nat) (pkt : PktType) : Option (List UInt8) :=
  let offset := l2capMinOffset + pkt.hdrLen
  let len := mtu - pkt.hdrLen
  if btHdrSize + offset + len ≤ cmdBufSize then some (m.data.take len) else none

/-- The announced number of packets. -/
def nosp (mtu len : Nat) : UInt8 :=
  UInt8.ofNat ((len + PktType.start.hdrLen - mtu) / (mtu - 1) + 2)

/-- One round of the loop of `avdt_msg_send`: the packet, and what is left of the message. -/
def Msg.sendPacket (m : Msg) (mtu : Nat) : Option (List UInt8 × Option Msg) :=
  if m.offset = msgOffset ∧ m.data.length ≤ mtu - PktType.single.hdrLen then
    some (m.hdr.byte .single :: m.hdr.bldSig :: m.data, m.sent m.data.length)
  else if m.offset = msgOffset ∧ m.data.length > mtu - PktType.single.hdrLen then do
    let part ← m.fragment mtu .start
    return (m.hdr.byte .start :: nosp mtu m.data.length :: m.hdr.bldSig :: part,
      m.sent (mtu - PktType.start.hdrLen))
  else if m.offset > msgOffset ∧ m.data.length > mtu - PktType.cont.hdrLen then do
    let part ← m.fragment mtu .cont
    return (m.hdr.byte .cont :: part, m.sent (mtu - PktType.cont.hdrLen))
  else some (m.hdr.byte .last :: m.data, m.sent m.data.length)

/-- `avdt_msg_send`, when the channel is congested after `n` packets. -/
def avdtMsgSend (mtu : Nat) : Nat → Option Msg → Option (List (List UInt8) × Option Msg)
  | 0, curr => some ([], curr)
  | _ + 1, none => some ([], none)
  | n + 1, some m => do
    let (packet, curr) ← m.sendPacket mtu
    let (packets, curr) ← avdtMsgSend mtu n curr
    return (packet :: packets, curr)

/-- The calls of `avdt_msg_send` for one message, each up to the next congestion. -/
def sendCalls (mtu : Nat) : List Nat → Option Msg → Option (List (List UInt8) × Option Msg)
  | [], curr => some ([], curr)
  | n :: ns, curr => do
    let (packets, curr) ← avdtMsgSend mtu n curr
    let (rest, curr) ← sendCalls mtu ns curr
    return (packets ++ rest, curr)

/-! ### Receiving -/

/-- A `BT_HDR` with what is allocated behind it. -/
abbrev BtHdr := Window UInt8

/-- `BT_DEFAULT_BUFFER_SIZE` without the `BT_HDR`. -/
def rxBufLen : Nat := 4096 + 16 - btHdrSize

/-- A START packet in a buffer large enough for the message, with the header byte over the number of
packets. The window is behind the packet, its length that of the message. -/
def startRx (buf : BtHdr) : Option BtHdr := do
  let bytes ← Window.read? ⟨buf.data, 0, 0⟩ 0 (buf.offset + buf.len)
  let rx : BtHdr := ⟨bytes ++ List.replicate (rxBufLen - bytes.length) 0, buf.offset, buf.len⟩
  let b ← rx.item? 0
  let rx ← rx.write? 1 [b]
  return ⟨rx.data, rx.offset + rx.len, rx.len - 1⟩

/-- `avdt_msg_asmbl`: `p_rx_msg` afterwards, and the message that is complete. -/
def avdtMsgAsmbl (rx : Option BtHdr) (buf : BtHdr) : Option (Option BtHdr × Option BtHdr) :=
  if buf.len < 1 then some (rx, none)
  else do
    let b ← buf.item? 0
    let pkt := PktType.ofHeader b
    if buf.len < pkt.hdrLen then return (rx, none)
    else match pkt, rx with
      | .single, _ => return (none, some buf)
      | .start, _ =>
        if buf.offset + buf.len > rxBufLen then return (none, none)
        else do
          let rx ← startRx buf
          return (some rx, none)
      | _, none => return (none, none)
      | _, some rx =>
        let len := buf.len - PktType.cont.hdrLen
        if rx.offset + len > rxBufLen then return (none, none)
        else do
          let part ← buf.read? PktType.cont.hdrLen len
          let rx ← rx.write? 0 part
          if pkt = .last then return (none, some ⟨rx.data, rx.offset - rx.len, rx.len + len⟩)
          else return (some ⟨rx.data, rx.offset + len, rx.len + len⟩, none)

/-- The messages that a row of packets completes. -/
def asmblAll : Option BtHdr → List BtHdr → Option (Option BtHdr × List BtHdr)
  | rx, [] => some (rx, [])
  | rx, buf :: bufs => do
    let (rx, msg) ← avdtMsgAsmbl rx buf
    let (rx, msgs) ← asmblAll rx bufs
    return (rx, msg.toList ++ msgs)

/-- The header and the payload of a message, as `avdt_msg_ind` reads them. -/
def received (msg : BtHdr) : Option (Header × List UInt8) := do
  match ← msg.items? with
  | b :: s :: payload => return (Header.prs b s, payload)
  | _ => none

/-! ### What is sent

The calls of one message are one call without congestion. -/

section Sending

variable {mtu : Nat} {h : Header} {curr : Option Msg} {m : Msg} {ps : List (List UInt8)}

theorem avdtMsgSend_none (mtu n : Nat) : avdtMsgSend mtu n none = some ([], none) := by
  cases n with
  | zero => rfl
  | succ n => rfl

theorem avdtMsgSend_add (mtu n k : Nat) (curr : Option Msg) :
    avdtMsgSend mtu (n + k) curr = (do
      let (packets, curr) ← avdtMsgSend mtu n curr
      let (rest, curr) ← avdtMsgSend mtu k curr
      return (packets ++ rest, curr)) := by
  induction n generalizing curr with
  | zero =>
    rw [Nat.zero_add, avdtMsgSend]
    cases hk : avdtMsgSend mtu k curr <;> simp [hk]
  | succ n ih =>
    rw [Nat.succ_add]
    cases curr with
    | none => simp [avdtMsgSend, avdtMsgSend_none]
    | some m =>
      simp only [avdtMsgSend, ih]
      cases m.sendPacket mtu with
      | none => rfl
      | some r => cases hn : avdtMsgSend mtu n r.2 <;> simp [hn, Option.bind_assoc]

theorem sendCalls_eq (mtu : Nat) (ns : List Nat) (curr : Option Msg) :
    sendCalls mtu ns curr = avdtMsgSend mtu ns.sum curr := by
  induction ns generalizing curr with
  | nil => rfl
  | cons n ns ih =>
    rw [List.sum_cons, avdtMsgSend_add, sendCalls]
    simp only [ih]

/-- However the calls are interrupted, these packets are sent and nothing is left. -/
def SentAs (mtu : Nat) (curr : Option Msg) (ps : List (List UInt8)) : Prop :=
  ∀ ns : List Nat, ps.length ≤ ns.sum → sendCalls mtu ns curr = some (ps, none)

theorem SentAs.nil (mtu : Nat) : SentAs mtu none [] := by
  intro ns _
  rw [sendCalls_eq, avdtMsgSend_none]

theorem SentAs.cons {packet : List UInt8} (hp : m.sendPacket mtu = some (packet, curr))
    (h : SentAs mtu curr ps) : SentAs mtu (some m) (packet :: ps) := by
  intro ns hns
  obtain ⟨n, hn⟩ : ∃ n, ns.sum = n + 1 := by
    rw [List.length_cons] at hns
    exact ⟨ns.sum - 1, by omega⟩
  have hrest := h [n] (by rw [List.length_cons] at hns; simp only [List.sum_singleton]; omega)
  rw [sendCalls_eq, List.sum_singleton] at hrest
  simp [sendCalls_eq, hn, avdtMsgSend, hp, hrest]

theorem SentAs.unique {qs : List (List UInt8)} (hp : SentAs mtu curr ps)
    (hq : SentAs mtu curr qs) : ps = qs := by
  have hps := hp [ps.length + qs.length] (by simp)
  rw [hq [ps.length + qs.length] (by simp)] at hps
  cases hps
  rfl

/-- The packets for what is behind a START packet: CONT packets, which are full, and an END packet.
-/
inductive Tail (mtu : Nat) (h : Header) : List UInt8 → List (List UInt8) → Prop where
  | last {d : List UInt8} : 0 < d.length → d.length ≤ mtu - 1 → Tail mtu h d [h.byte .last :: d]
  | more {part d : List UInt8} {ps : List (List UInt8)} : part.length = mtu - 1 → Tail mtu h d ps →
      Tail mtu h (part ++ d) ((h.byte .cont :: part) :: ps)

/-- A fragment fits its buffer for these MTUs only. -/
def maxFragmentMtu : Nat := 639

theorem fragment_cont (hbuf : mtu ≤ maxFragmentMtu) (hmtu : 1 ≤ mtu) (m : Msg) :
    m.fragment mtu .cont = some (m.data.take (mtu - 1)) := by
  refine if_pos ?_
  simp only [btHdrSize, l2capMinOffset, cmdBufSize, PktType.hdrLen, maxFragmentMtu] at hbuf ⊢
  omega

theorem fragment_start (hmtu : 3 ≤ mtu) (m : Msg) :
    m.fragment mtu .start =
      if mtu ≤ maxFragmentMtu then some (m.data.take (mtu - 3)) else none := by
  refine if_congr ?_ rfl rfl
  simp only [btHdrSize, l2capMinOffset, cmdBufSize, PktType.hdrLen, maxFragmentMtu]
  omega

theorem sent_all (m : Msg) : m.sent m.data.length = none := by
  rw [Msg.sent, Nat.sub_self, if_pos rfl]

theorem sent_part {n : Nat} (hn : n < m.data.length) :
    m.sent n = some { m with offset := m.offset + n, data := m.data.drop n } :=
  if_neg (by omega)

theorem sendPacket_last (hoff : msgOffset < m.offset) (hlen : m.data.length ≤ mtu - 1) :
    m.sendPacket mtu = some (m.hdr.byte .last :: m.data, none) := by
  rw [Msg.sendPacket, if_neg (by omega), if_neg (by omega), if_neg, sent_all]
  rintro ⟨-, hlong⟩
  exact absurd hlong (by simp only [PktType.hdrLen]; omega)

theorem sendPacket_cont (hbuf : mtu ≤ maxFragmentMtu) (hmtu : 1 ≤ mtu) (hoff : msgOffset < m.offset)
    (hlen : mtu - 1 < m.data.length) :
    m.sendPacket mtu = some (m.hdr.byte .cont :: m.data.take (mtu - 1),
      some { m with offset := m.offset + (mtu - 1), data := m.data.drop (mtu - 1) }) := by
  rw [Msg.sendPacket, if_neg (by omega), if_neg (by omega), if_pos ⟨hoff, hlen⟩,
    fragment_cont hbuf hmtu]
  simp only [PktType.hdrLen, sent_part hlen]
  rfl

/-- Once a message is being fragmented, what is left goes out as CONT packets and an END packet. -/
theorem exists_tail (hbuf : mtu ≤ maxFragmentMtu) (hmtu : 2 ≤ mtu) {d : List UInt8}
    (hd : 0 < d.length) {offset : Nat} (hoff : msgOffset < offset) :
    ∃ ps, Tail mtu h d ps ∧ SentAs mtu (some ⟨h, offset, d⟩) ps := by
  induction hn : d.length using Nat.strong_induction_on generalizing d offset with
  | _ n ih =>
    by_cases hlen : d.length ≤ mtu - 1
    · have hp := sendPacket_last (m := ⟨h, offset, d⟩) hoff hlen
      exact ⟨_, .last hd hlen, .cons hp (.nil mtu)⟩
    · rw [not_le] at hlen
      have hrest : (d.drop (mtu - 1)).length = d.length - (mtu - 1) := List.length_drop
      obtain ⟨ps, htail, hsent⟩ : ∃ ps, Tail mtu h (d.drop (mtu - 1)) ps ∧
          SentAs mtu (some ⟨h, offset + (mtu - 1), d.drop (mtu - 1)⟩) ps :=
        ih (d.length - (mtu - 1)) (by omega) (by omega) (by omega) hrest
      have hp := sendPacket_cont (m := ⟨h, offset, d⟩) hbuf (by omega) hoff hlen
      have hpart : (d.take (mtu - 1)).length = mtu - 1 := by
        rw [List.length_take, Nat.min_eq_left hlen.le]
      refine ⟨_, ?_, .cons hp hsent⟩
      have hmore := Tail.more hpart htail
      rwa [List.take_append_drop] at hmore

end Sending

/-! ### What is received -/

section Receiving

variable {mtu : Nat} {h : Header} {pkt : PktType} {rx buf : BtHdr} {front items part : List UInt8}

/-- `p_rx_msg` while a message is being put together: what there is of the message ends at the
offset of the window. -/
structure Collected (rx : BtHdr) (front items : List UInt8) : Prop where
  size : rx.data.length = rxBufLen
  data : ∃ back, rx.data = front ++ (items ++ back)
  offset : rx.offset = front.length + items.length
  len : rx.len = items.length

theorem Collected.message (hc : Collected rx front items) :
    Window.items? ⟨rx.data, rx.offset - rx.len, rx.len⟩ = some items := by
  obtain ⟨back, hdata⟩ := hc.data
  have hoff : rx.offset - rx.len = front.length := by
    rw [hc.offset, hc.len, Nat.add_sub_cancel]
  have hholds : Window.Holds ⟨rx.data, rx.offset - rx.len, rx.len⟩ front items back :=
    ⟨hdata, hoff, hc.len⟩
  exact hholds.all

/-- More of the message is copied behind what there is. -/
theorem Collected.append (hc : Collected rx front items)
    (hroom : front.length + items.length + part.length ≤ rxBufLen) :
    ∃ data, rx.write? 0 part = some ⟨data, rx.offset, rx.len⟩ ∧
      Collected ⟨data, rx.offset + part.length, rx.len + part.length⟩ front (items ++ part) := by
  obtain ⟨back, hdata⟩ := hc.data
  have hsize := hc.size
  rw [hdata] at hsize
  simp only [List.length_append] at hsize
  have hover : (back.take part.length).length = part.length := by
    rw [List.length_take]
    omega
  have hsplit : rx.data =
      (front ++ items) ++ (back.take part.length ++ back.drop part.length) := by
    rw [hdata, List.take_append_drop, List.append_assoc]
  have hwrite := Window.write?_eq (p := 0) hsplit (by rw [hc.offset, List.length_append]; rfl)
    part hover.symm
  refine ⟨_, hwrite, ?_, ⟨back.drop part.length, ?_⟩, ?_, ?_⟩
  · simp only [List.length_append, List.length_drop]
    omega
  · simp only [List.append_assoc]
  · simp only [hc.offset, List.length_append, Nat.add_assoc]
  · simp only [hc.len, List.length_append]

/-- A CONT or END packet is added to the message. -/
theorem asmbl_part (hpkt : pkt = .cont ∨ pkt = .last)
    (hbuf : buf.items? = some (h.byte pkt :: part)) (hc : Collected rx front items)
    (hroom : front.length + items.length + part.length ≤ rxBufLen) :
    ∃ rx', Collected rx' front (items ++ part) ∧ avdtMsgAsmbl (some rx) buf =
      some (if pkt = .last then (none, some ⟨rx'.data, rx'.offset - rx'.len, rx'.len⟩)
        else (some rx', none)) := by
  obtain ⟨before, back, hholds⟩ := Window.exists_holds hbuf
  obtain ⟨data, hwrite, hc'⟩ := hc.append hroom
  have hlen : buf.len = part.length + 1 := Window.len_of_items hbuf
  have hitem : buf.item? 0 = some (h.byte pkt) := Window.item_of_items hbuf
  have hread : buf.read? 1 part.length = some part := by
    have hsplit : buf.Holds before ([h.byte pkt] ++ (part ++ [])) back := by
      rwa [List.append_nil, List.singleton_append]
    exact hsplit.read rfl rfl
  have hfits : ¬ (rx.offset + part.length > rxBufLen) := by
    rw [hc.offset]
    omega
  refine ⟨_, hc', ?_⟩
  obtain rfl | rfl := hpkt
  · simp [avdtMsgAsmbl, hlen, hitem, PktType.hdrLen, hfits, hread, hwrite]
  · simp [avdtMsgAsmbl, hlen, hitem, PktType.hdrLen, hfits, hread, hwrite, Nat.add_sub_add_right]

/-- The buffer of a new message, from a START packet that fits it. -/
theorem startRx_collected {b n s : UInt8} (hbuf : buf.items? = some (b :: n :: s :: part))
    (hroom : buf.offset + 3 + part.length ≤ rxBufLen) :
    ∃ rx front, front.length = buf.offset + 1 ∧ Collected rx front (b :: s :: part) ∧
      startRx buf = some rx := by
  obtain ⟨before, back, hholds⟩ := Window.exists_holds hbuf
  have hlen : buf.len = part.length + 3 := hholds.len
  have hcopy : Window.read? ⟨buf.data, 0, 0⟩ 0 (buf.offset + buf.len) =
      some (before ++ (b :: n :: s :: part)) := by
    have hdata : buf.data = [] ++ ((before ++ (b :: n :: s :: part)) ++ back) := by
      rw [hholds.data, List.nil_append, List.append_assoc]
    exact Window.read?_eq hdata rfl (by simp [hholds.offset, hlen])
  obtain ⟨fill, hfill, hsize⟩ : ∃ fill : List UInt8,
      List.replicate (rxBufLen - (before ++ (b :: n :: s :: part)).length) 0 = fill ∧
      before.length + part.length + 3 + fill.length = rxBufLen := by
    have hoff := hholds.offset
    refine ⟨_, rfl, ?_⟩
    simp only [List.length_replicate, List.length_append, List.length_cons]
    omega
  -- the buffer before the header byte is repeated
  have hnew : Window.Holds ⟨before ++ (b :: n :: s :: part) ++ fill, buf.offset, buf.len⟩ before
      ([b] ++ ([n] ++ (s :: part))) fill :=
    ⟨List.append_assoc _ _ _, hholds.offset, hholds.len⟩
  have hitem : Window.item? ⟨before ++ (b :: n :: s :: part) ++ fill, buf.offset, buf.len⟩ 0 =
      some b := hnew.item (by simp)
  obtain ⟨w, hwrite, hw⟩ := hnew.write [b] (p := 1) rfl rfl
  have hlen' : w.len = part.length + 3 := by simp [hw.len]
  refine ⟨⟨w.data, w.offset + w.len, w.len - 1⟩, before ++ [b], by simp [hholds.offset],
    ⟨?_, ⟨fill, ?_⟩, ?_, ?_⟩, ?_⟩
  · simp only [hw.data, List.length_append, List.length_cons, List.length_nil]
    omega
  · simp [hw.data]
  · simp only [hw.offset, hlen', List.length_append, List.length_cons, List.length_nil]
    omega
  · simp [hlen']
  · rw [startRx, hcopy, Option.bind_eq_bind, Option.bind_some, hfill]
    simp only [hitem, Option.bind_eq_bind, Option.bind_some, hwrite]
    rfl

/-- A START packet begins a message, whatever was being put together. -/
theorem asmbl_start {n s : UInt8} (hbuf : buf.items? = some (h.byte .start :: n :: s :: part))
    (hroom : buf.offset + 3 + part.length ≤ rxBufLen) (old : Option BtHdr) :
    ∃ rx front, front.length = buf.offset + 1 ∧ Collected rx front (h.byte .start :: s :: part) ∧
      avdtMsgAsmbl old buf = some (some rx, none) := by
  obtain ⟨rx, front, hfront, hc, hstart⟩ := startRx_collected hbuf hroom
  have hlen : buf.len = part.length + 3 := Window.len_of_items hbuf
  have hitem : buf.item? 0 = some (h.byte .start) := Window.item_of_items hbuf
  have hfits : ¬ (rxBufLen < buf.offset + (part.length + 3)) := by omega
  refine ⟨rx, front, hfront, hc, ?_⟩
  simp [avdtMsgAsmbl, hlen, hitem, PktType.hdrLen, hfits, hstart]

/-- What a packet is when it arrives. -/
def Arrives (bufs : List BtHdr) (ps : List (List UInt8)) : Prop :=
  List.Forall₂ (fun buf packet => Window.items? buf = some packet) bufs ps

/-- The packets behind a START packet complete its message. -/
theorem Tail.assembles {d : List UInt8} {ps : List (List UInt8)} {bufs : List BtHdr}
    (ht : Tail mtu h d ps) (hc : Collected rx front items)
    (hroom : front.length + items.length + d.length ≤ rxBufLen) (hb : Arrives bufs ps) :
    ∃ msg, asmblAll (some rx) bufs = some (none, [msg]) ∧ msg.items? = some (items ++ d) := by
  induction ht generalizing rx items bufs with
  | last hd hlen =>
    cases hb with
    | cons hbuf hnil =>
      cases hnil
      obtain ⟨rx', hc', hasm⟩ := asmbl_part (.inr rfl) hbuf hc hroom
      refine ⟨_, ?_, hc'.message⟩
      simp [asmblAll, hasm]
  | more hpart htail ih =>
    cases hb with
    | cons hbuf hbufs =>
      rw [List.length_append] at hroom
      obtain ⟨rx', hc', hasm⟩ := asmbl_part (.inl rfl) hbuf hc (by omega)
      obtain ⟨msg, hall, hmsg⟩ := ih hc' (by rw [List.length_append]; omega) hbufs
      refine ⟨msg, ?_, by rw [hmsg, List.append_assoc]⟩
      simp [asmblAll, hasm, hall]

end Receiving

/-! ### The round trip -/

/-- The type of a packet. -/
def kind (packet : List UInt8) : Option PktType := packet.head?.map PktType.ofHeader

/-- One SINGLE packet, or START, CONT packets and END. -/
def WellSequenced (ps : List (List UInt8)) : Prop :=
  ps.map kind = [some .single] ∨
    ∃ n, ps.map kind = some .start :: (List.replicate n (some .cont) ++ [some .last])

/-- A START packet announces this number of packets. -/
def Announces (ps : List (List UInt8)) : Prop :=
  ∀ packet ∈ ps, kind packet = some .start → packet[1]?.map UInt8.toNat = some ps.length

/-- The packets complete one message, with this header and payload, from whatever state they find
the receiver in. -/
def Assembles (h : Header) (payload : List UInt8) (ps : List (List UInt8)) : Prop :=
  ∀ (rx : Option BtHdr) (bufs : List BtHdr), Arrives bufs ps →
    (∀ buf ∈ bufs.head?, buf.offset + PktType.start.hdrLen + payload.length ≤ rxBufLen) →
    ∃ msg, asmblAll rx bufs = some (none, [msg]) ∧ received msg = some (h, payload)

/-- A message goes out in packets that the peer takes and puts together again. -/
def Transmits (mtu : Nat) (h : Header) (payload : List UInt8) : Prop :=
  ∃ ps, SentAs mtu (some (.new h payload)) ps ∧ (∀ packet ∈ ps, packet.length ≤ mtu) ∧
    WellSequenced ps ∧ Announces ps ∧ Assembles h payload ps

section RoundTrip

variable {mtu : Nat} {h : Header} {payload d : List UInt8} {ps : List (List UInt8)}

theorem received_of_items (pkt : PktType) {msg : BtHdr}
    (hmsg : msg.items? = some (h.byte pkt :: h.bldSig :: payload)) :
    received msg = some (h, payload) := by
  simp [received, hmsg]

theorem transmits_single (hmtu : 2 ≤ mtu) (hlen : payload.length ≤ mtu - 2) :
    Transmits mtu h payload := by
  have hsend : (Msg.new h payload).sendPacket mtu =
      some (h.byte .single :: h.bldSig :: payload, none) := by
    rw [Msg.sendPacket, if_pos ⟨rfl, hlen⟩, sent_all]
    rfl
  refine ⟨_, .cons hsend (.nil mtu), ?_, .inl (by simp [kind]), ?_, ?_⟩
  · simp only [List.mem_singleton, forall_eq, List.length_cons]
    omega
  · simp [Announces, kind]
  · intro rx bufs hb _
    cases hb with
    | @cons buf _ _ _ hbuf hnil =>
      cases hnil
      have hlen : buf.len = payload.length + 2 := Window.len_of_items hbuf
      have hitem : buf.item? 0 = some (h.byte .single) := Window.item_of_items hbuf
      refine ⟨buf, ?_, received_of_items .single hbuf⟩
      simp [asmblAll, avdtMsgAsmbl, hlen, hitem, PktType.hdrLen]

theorem Tail.packet_length (hmtu : 1 ≤ mtu) (ht : Tail mtu h d ps) :
    ∀ packet ∈ ps, packet.length ≤ mtu := by
  induction ht with
  | last hd hlen =>
    simp only [List.mem_singleton, forall_eq, List.length_cons]
    omega
  | more hpart _ ih =>
    simp only [List.mem_cons, forall_eq_or_imp, List.length_cons]
    exact ⟨by omega, ih⟩

theorem Tail.kinds (ht : Tail mtu h d ps) :
    ∃ n, ps.map kind = List.replicate n (some .cont) ++ [some .last] := by
  induction ht with
  | last hd hlen => exact ⟨0, by simp [kind]⟩
  | more hpart _ ih =>
    obtain ⟨n, hn⟩ := ih
    exact ⟨n + 1, by simp [kind, hn, List.replicate_succ]⟩

/-- All packets but the last are full. -/
theorem Tail.count (ht : Tail mtu h d ps) :
    (ps.length - 1) * (mtu - 1) < d.length ∧ d.length ≤ ps.length * (mtu - 1) := by
  induction ht with
  | last hd hlen => simp [hd, hlen]
  | @more part d ps hpart htail ih =>
    have hpos : 0 < ps.length := by cases htail <;> simp
    obtain ⟨n, hn⟩ : ∃ n, ps.length = n + 1 := ⟨ps.length - 1, by omega⟩
    simp only [List.length_cons, List.length_append, hpart, hn, Nat.add_sub_cancel,
      Nat.succ_mul] at ih ⊢
    omega

/-- The announced number is that of the packets unless the last one is full. -/
theorem Tail.announced_iff (hmtu : 2 ≤ mtu) (ht : Tail mtu h d ps) :
    d.length / (mtu - 1) + 2 = ps.length + 1 ↔ ¬ (mtu - 1) ∣ d.length := by
  obtain ⟨hlow, hhigh⟩ := ht.count
  have hpos : 0 < ps.length := by cases ht <;> simp
  obtain ⟨n, hn⟩ : ∃ n, ps.length = n + 1 := ⟨ps.length - 1, by omega⟩
  rw [hn, Nat.add_sub_cancel] at hlow
  rw [hn] at hhigh ⊢
  have hw : 0 < mtu - 1 := by omega
  constructor
  · rintro hdiv ⟨c, hc⟩
    have hq : d.length / (mtu - 1) = n := by omega
    rw [hc, Nat.mul_div_cancel_left c hw] at hq
    rw [hc, hq, Nat.mul_comm] at hlow
    exact lt_irrefl _ hlow
  · intro hdvd
    have hne : d.length ≠ (n + 1) * (mtu - 1) := fun heq => hdvd ⟨n + 1, by rw [heq, Nat.mul_comm]⟩
    have hq : d.length / (mtu - 1) = n :=
      Nat.div_eq_of_lt_le hlow.le (lt_of_le_of_ne hhigh hne)
    omega

/-- The START packet of a message. -/
def startPacket (mtu : Nat) (h : Header) (payload : List UInt8) : List UInt8 :=
  h.byte .start :: nosp mtu payload.length :: h.bldSig :: payload.take (mtu - 3)

theorem sendPacket_start (hmtu : 3 ≤ mtu) (hlen : mtu - 2 < payload.length) :
    (Msg.new h payload).sendPacket mtu = if mtu ≤ maxFragmentMtu then
      some (startPacket mtu h payload, some ⟨h, msgOffset + (mtu - 3), payload.drop (mtu - 3)⟩)
    else none := by
  have hlong : ¬ ((Msg.new h payload).offset = msgOffset ∧
      (Msg.new h payload).data.length ≤ mtu - PktType.single.hdrLen) :=
    fun hshort => Nat.not_le.mpr hlen hshort.2
  have hrest : mtu - 3 < (Msg.new h payload).data.length := by
    show mtu - 3 < payload.length
    omega
  rw [Msg.sendPacket, if_neg hlong, if_pos ⟨rfl, hlen⟩, fragment_start hmtu]
  split
  · simp only [PktType.hdrLen, sent_part hrest]
    rfl
  · rfl

/-- A message that does not fit a packet goes out behind a START packet. -/
theorem exists_start (hbuf : mtu ≤ maxFragmentMtu) (hmtu : 4 ≤ mtu)
    (hlen : mtu - 2 < payload.length) :
    ∃ ps, Tail mtu h (payload.drop (mtu - 3)) ps ∧
      SentAs mtu (some (.new h payload)) (startPacket mtu h payload :: ps) := by
  obtain ⟨ps, htail, hsent⟩ : ∃ ps, Tail mtu h (payload.drop (mtu - 3)) ps ∧
      SentAs mtu (some ⟨h, msgOffset + (mtu - 3), payload.drop (mtu - 3)⟩) ps :=
    exists_tail hbuf (by omega) (by rw [List.length_drop]; omega) (by omega)
  have hsend := sendPacket_start (h := h) (by omega) hlen
  rw [if_pos hbuf] at hsend
  exact ⟨ps, htail, .cons hsend hsent⟩

/-- No packet behind the START packet is another one. -/
theorem Tail.kind_ne_start (ht : Tail mtu h d ps) : ∀ packet ∈ ps, kind packet ≠ some .start := by
  induction ht with
  | last hd hlen => simp [kind]
  | more hpart _ ih =>
    simp only [List.mem_cons, forall_eq_or_imp]
    exact ⟨by simp [kind], ih⟩

theorem announces_startPacket_iff (ht : Tail mtu h d ps) :
    Announces (startPacket mtu h payload :: ps) ↔
      (nosp mtu payload.length).toNat = ps.length + 1 := by
  rw [Announces, List.forall_mem_cons]
  have hrest : ∀ packet ∈ ps, kind packet = some .start →
      packet[1]?.map UInt8.toNat = some (startPacket mtu h payload :: ps).length :=
    fun packet hp hk => absurd hk (ht.kind_ne_start packet hp)
  rw [and_iff_left hrest]
  simp [startPacket, kind]

theorem nosp_toNat {len : Nat} (hmtu : 48 ≤ mtu) (hfit : PktType.start.hdrLen + len ≤ rxBufLen) :
    (nosp mtu len).toNat = (len + 3 - mtu) / (mtu - 1) + 2 := by
  simp only [PktType.hdrLen, rxBufLen, btHdrSize] at hfit
  have hdiv : (len + 3 - mtu) / (mtu - 1) ≤ 4104 / 47 :=
    Nat.div_le_div (by omega) (by omega) (by decide)
  rw [nosp, UInt8.toNat_ofNat']
  refine Nat.mod_eq_of_lt (?_ : (len + 3 - mtu) / (mtu - 1) + 2 < 256)
  omega

theorem Tail.assembles_start (hmtu : 3 ≤ mtu) (ht : Tail mtu h (payload.drop (mtu - 3)) ps)
    (hlen : mtu - 2 < payload.length) : Assembles h payload (startPacket mtu h payload :: ps) := by
  intro rx bufs hb hroom
  cases hb with
  | @cons buf _ bufs _ hbuf hbufs =>
    have hfit : buf.offset + 3 + payload.length ≤ rxBufLen := hroom buf rfl
    have hpart : (payload.take (mtu - 3)).length = mtu - 3 := by
      rw [List.length_take]
      omega
    obtain ⟨rx', front, hfront, hc, hasm⟩ := asmbl_start hbuf (by omega) rx
    obtain ⟨msg, hall, hmsg⟩ := ht.assembles hc
      (by simp only [List.length_cons, List.length_drop, hpart]; omega) hbufs
    refine ⟨msg, by simp [asmblAll, hasm, hall], received_of_items .start ?_⟩
    rw [hmsg, List.cons_append, List.cons_append, List.take_append_drop]

/-- A fragmented message reaches the peer, and the announced number is right unless the packets
behind the START packet are all full. -/
theorem fragmented_transmits_iff (hbuf : mtu ≤ maxFragmentMtu) (hmtu : 48 ≤ mtu)
    (hfit : PktType.start.hdrLen + payload.length ≤ rxBufLen) (hlen : mtu - 2 < payload.length) :
    Transmits mtu h payload ↔ ¬ (mtu - 1) ∣ payload.length + 3 - mtu := by
  obtain ⟨ps, htail, hsent⟩ := exists_start (h := h) hbuf (by omega) hlen
  have hd : (payload.drop (mtu - 3)).length = payload.length + 3 - mtu := by
    rw [List.length_drop]
    omega
  have hcount := htail.announced_iff (by omega)
  rw [hd, ← nosp_toNat hmtu hfit] at hcount
  rw [← hcount, ← announces_startPacket_iff htail]
  constructor
  · rintro ⟨qs, hqs, -, -, hann, -⟩
    rwa [hqs.unique hsent] at hann
  · intro hann
    refine ⟨_, hsent, ?_, ?_, hann, htail.assembles_start (by omega) hlen⟩
    · rw [List.forall_mem_cons]
      refine ⟨?_, htail.packet_length (by omega)⟩
      simp only [startPacket, List.length_cons, List.length_take]
      omega
    · obtain ⟨n, hn⟩ := htail.kinds
      exact .inr ⟨n, by simp [hn, startPacket, kind]⟩

/-- Nothing reaches the peer when the fragments do not fit their buffers. -/
theorem not_transmits (hbuf : maxFragmentMtu < mtu) (hlen : mtu - 2 < payload.length) :
    ¬ Transmits mtu h payload := by
  rintro ⟨ps, hsent, -⟩
  have hnone := sendPacket_start (h := h) (by rw [maxFragmentMtu] at hbuf; omega) hlen
  rw [if_neg (by omega)] at hnone
  have hone := hsent [ps.length + 1] (by simp)
  rw [sendCalls_eq] at hone
  simp [avdtMsgSend, hnone] at hone

/-- A message that fits the receive buffer is sent and put together again as it should be exactly if
it fits one packet, or the fragments fit their buffers and do not fill the last packet. -/
theorem transmits_iff (hmtu : 48 ≤ mtu) (hfit : PktType.start.hdrLen + payload.length ≤ rxBufLen) :
    Transmits mtu h payload ↔ payload.length ≤ mtu - 2 ∨
      mtu ≤ maxFragmentMtu ∧ ¬ (mtu - 1) ∣ payload.length + 3 - mtu := by
  by_cases hlen : payload.length ≤ mtu - 2
  · exact iff_of_true (transmits_single (by omega) hlen) (.inl hlen)
  · rw [or_iff_right hlen]
    rw [not_le] at hlen
    by_cases hbuf : mtu ≤ maxFragmentMtu
    · rw [and_iff_right hbuf]
      exact fragmented_transmits_iff hbuf hmtu hfit hlen
    · exact iff_of_false (not_transmits (by omega) hlen) (fun hand => hbuf hand.1)

end RoundTrip

theorem transmits_iff_ninety_three : Transmits 48 ⟨1, 0, 2⟩ (List.replicate 93 7) :=
  (transmits_iff (by decide) (by decide)).mpr (.inr (by decide))

/-- A payload of ninety-two bytes goes out in two packets, and the first of them announces three. -/
theorem full_last_packet_miscounted :
    (sendCalls 48 [1, 1] (some (.new ⟨1, 0, 2⟩ (List.replicate 92 7)))).map
      (fun r => (r.1.map List.length, (r.1.map fun packet => packet[1]?).head?)) =
        some ([48, 48], some (some 3)) ∧
    ¬ Transmits 48 ⟨1, 0, 2⟩ (List.replicate 92 7) := by
  refine ⟨by decide +kernel, ?_⟩
  rw [fragmented_transmits_iff (by decide) (by decide) (by decide) (by simp), List.length_replicate]
  decide

end BluetoothStack.Avdt
