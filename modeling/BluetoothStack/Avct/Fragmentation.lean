import Mathlib
import BluetoothStack.Lib.Words
import BluetoothStack.Avdt.Fragmentation

/-!
# BluetoothStack.Avct.Fragmentation

Fragmentation and reassembly of AVCTP messages (`avct_lcb_act.cc`).

AVCTP and AVDTP have the same packet types, the same first byte and the same reassembly but for the
lengths of the headers and one check, so what is behind a START packet is described by the `Tail` of
AVDTP and put together by its lemmas. `avct_lcb_send_msg` sends all packets in one call; those that
the channel does not take are queued.
-/

namespace BluetoothStack.Avct

open BluetoothStack.Lib
open BluetoothStack.Avdt (PktType BtHdr rxBufLen startRx Tail Collected Arrives Announces)

/-! ### Sending -/

/-- `AVCT_HDR_LEN_SINGLE` and so on, and `avct_lcb_pkt_type_len`. -/
def hdrLen : PktType → Nat
  | .single => 3
  | .start => 4
  | .cont => 1
  | .last => 1

/-- What a message carries apart from its payload. -/
structure MsgHdr where
  label : Fin 16
  cr : Fin 4
  pid : UInt16
deriving DecidableEq, Repr

/-- `AVCT_BUILD_HDR`. -/
def MsgHdr.byte (h : MsgHdr) (pkt : PktType) : UInt8 := Avdt.bldHdr h.label pkt h.cr

/-- The header of a packet. -/
def MsgHdr.packetHdr (h : MsgHdr) (nosp : UInt8) (pkt : PktType) : List UInt8 :=
  h.byte pkt :: match pkt with
    | .single => be16 h.pid.toNat
    | .start => nosp :: be16 h.pid.toNat
    | .cont => []
    | .last => []

/-- `nosp`, computed before the first packet is sent. -/
def nospOf (mtu len : Nat) : UInt8 :=
  let temp := u16 (len + hdrLen .start - mtu)
  UInt8.ofNat (temp / (mtu - 1) + 1 + if temp % (mtu - 1) ≠ 0 then 1 else 0)

/-- A new buffer with the first bytes of the message; `none` is a copy beyond the end of the buffer,
whose size is a `uint16_t`. -/
def fragment (mtu : Nat) (pkt : PktType) (data : List UInt8) : Option (List UInt8) :=
  let bufSize := u16 (mtu + Avdt.l2capMinOffset + Avdt.btHdrSize)
  let len := mtu - hdrLen pkt
  if Avdt.btHdrSize + (Avdt.l2capMinOffset + hdrLen pkt) + len ≤ bufSize then some (data.take len)
  else none

/-- The packet type behind a packet that leaves `curr` bytes. -/
def nextType (mtu curr : Nat) : PktType := if curr > mtu - hdrLen .last then .cont else .last

/-- The loop of `avct_lcb_send_msg`, with `curr_msg_len` and what is in the buffer of the message.
What it builds does not depend on the congestion. -/
def sendLoop (mtu : Nat) (h : MsgHdr) (nosp : UInt8) :
    Nat → PktType → Nat → List UInt8 → Option (List (List UInt8))
  | 0, _, curr, _ => if curr = 0 then some [] else none
  | fuel + 1, pkt, curr, data =>
    if curr = 0 then some []
    else if data.length > mtu - hdrLen pkt then do
      let part ← fragment mtu pkt data
      let curr := curr - part.length
      let rest ← sendLoop mtu h nosp fuel (nextType mtu curr) curr (data.drop part.length)
      return (h.packetHdr nosp pkt ++ part) :: rest
    else do
      let curr := curr - data.length
      let rest ← sendLoop mtu h nosp fuel (nextType mtu curr) curr data
      return (h.packetHdr nosp pkt ++ data) :: rest

/-- The packets of a message. -/
def packets (mtu : Nat) (h : MsgHdr) (payload : List UInt8) : Option (List (List UInt8)) :=
  if payload.length ≤ mtu - hdrLen .single then
    sendLoop mtu h 0 payload.length .single payload.length payload
  else sendLoop mtu h (nospOf mtu payload.length) payload.length .start payload.length payload

/-- `tAVCT_LCB`: the congestion, `tx_q`, and what `L2CA_DataWrite` was called with. -/
structure LcbTx where
  cong : Bool
  txQ : List (List UInt8)
  sent : List (List UInt8)
deriving DecidableEq, Repr

/-- A packet is queued or sent; `congested n` says whether L2CAP calls the channel congested after
the packet number `n`. -/
def LcbTx.emit (congested : Nat → Bool) (lcb : LcbTx) (packet : List UInt8) : LcbTx :=
  if lcb.cong then { lcb with txQ := lcb.txQ ++ [packet] }
  else { lcb with sent := lcb.sent ++ [packet], cong := congested lcb.sent.length }

/-- `avct_lcb_send_msg`. -/
def avctLcbSendMsg (congested : Nat → Bool) (lcb : LcbTx) (mtu : Nat) (h : MsgHdr)
    (payload : List UInt8) : Option LcbTx := do
  let ps ← packets mtu h payload
  return ps.foldl (LcbTx.emit congested) lcb

/-! ### Receiving -/

/-- `avct_lcb_msg_asmbl`: `p_rx_msg` afterwards, and the message that is complete. -/
def avctLcbMsgAsmbl (rx : Option BtHdr) (buf : BtHdr) : Option (Option BtHdr × Option BtHdr) :=
  if buf.len < 1 then some (rx, none)
  else do
    let b ← buf.item? 0
    let pkt := PktType.ofHeader b
    if buf.len < hdrLen pkt ∨ buf.offset + buf.len > rxBufLen then return (rx, none)
    else match pkt, rx with
      | .single, _ => return (none, some buf)
      | .start, _ =>
        if buf.offset + buf.len > rxBufLen then return (none, none)
        else do
          let rx ← startRx buf
          return (some rx, none)
      | _, none => return (none, none)
      | _, some rx =>
        let len := buf.len - hdrLen .cont
        if rx.offset + len > rxBufLen then return (none, none)
        else do
          let part ← buf.read? (hdrLen .cont) len
          let rx ← rx.write? 0 part
          if pkt = .last then return (none, some ⟨rx.data, rx.offset - rx.len, rx.len + len⟩)
          else return (some ⟨rx.data, rx.offset + len, rx.len + len⟩, none)

/-- The messages that a row of packets completes. -/
def asmblAll : Option BtHdr → List BtHdr → Option (Option BtHdr × List BtHdr)
  | rx, [] => some (rx, [])
  | rx, buf :: bufs => do
    let (rx, msg) ← avctLcbMsgAsmbl rx buf
    let (rx, msgs) ← asmblAll rx bufs
    return (rx, msg.toList ++ msgs)

theorem label_lt (n : Nat) : n % 16 < 16 := Nat.mod_lt _ (by decide)

theorem cr_lt (n : Nat) : n % 4 < 4 := Nat.mod_lt _ (by decide)

/-- A label from the bits of a byte. -/
def labelOf (n : Nat) : Fin 16 := ⟨n % 16, label_lt n⟩

/-- A command or response type from the bits of a byte. -/
def crOf (n : Nat) : Fin 4 := ⟨n % 4, cr_lt n⟩

/-- The header and the payload of a message, as `avct_lcb_msg_ind` reads them. -/
def received (msg : BtHdr) : Option (MsgHdr × List UInt8) := do
  match ← msg.items? with
  | b :: hi :: lo :: payload =>
    return (⟨labelOf (b >>> 4).toNat, crOf (b &&& 3).toNat,
      UInt16.ofNat (256 * hi.toNat + lo.toNat)⟩, payload)
  | _ => none

/-! ### What is sent -/

theorem zero_lt_signals : 0 < 64 := by decide

/-- The header of an AVDTP packet with the same first byte. -/
def MsgHdr.avdt (h : MsgHdr) : Avdt.Header := ⟨h.label, h.cr, ⟨0, zero_lt_signals⟩⟩

theorem byte_avdt (h : MsgHdr) (pkt : PktType) : h.avdt.byte pkt = h.byte pkt := rfl

@[simp] theorem ofHeader_byte (h : MsgHdr) (pkt : PktType) : PktType.ofHeader (h.byte pkt) = pkt :=
  Avdt.ofHeader_byte h.avdt pkt

section Sending

variable {mtu : Nat} {h : MsgHdr} {nosp : UInt8} {pkt : PktType}

/-- A fragment fits its buffer if the size of the buffer is not cut. -/
theorem fragment_eq (hmtu : 4 ≤ mtu) (hsize : mtu + 21 < 65536) (data : List UInt8) :
    fragment mtu pkt data = some (data.take (mtu - hdrLen pkt)) := by
  have hhdr : hdrLen pkt ≤ 4 := by cases pkt <;> decide
  refine if_pos ?_
  simp only [Avdt.btHdrSize, Avdt.l2capMinOffset, u16_of_lt (show mtu + 13 + 8 < 65536 by omega)]
  omega

@[simp] theorem sendLoop_zero (fuel : Nat) (data : List UInt8) :
    sendLoop mtu h nosp fuel pkt 0 data = some [] := by
  cases fuel with
  | zero => rfl
  | succ fuel => rfl

theorem sendLoop_whole {fuel : Nat} {data : List UInt8} (hpos : 0 < data.length)
    (hlen : data.length ≤ mtu - hdrLen pkt) :
    sendLoop mtu h nosp (fuel + 1) pkt data.length data = some [h.packetHdr nosp pkt ++ data] := by
  rw [sendLoop, if_neg (by omega), if_neg (by omega)]
  simp

theorem sendLoop_part {fuel : Nat} {data : List UInt8} (hmtu : 4 ≤ mtu) (hsize : mtu + 21 < 65536)
    (hlen : mtu - hdrLen pkt < data.length) :
    sendLoop mtu h nosp (fuel + 1) pkt data.length data =
      (sendLoop mtu h nosp fuel (nextType mtu (data.drop (mtu - hdrLen pkt)).length)
        (data.drop (mtu - hdrLen pkt)).length (data.drop (mtu - hdrLen pkt))).map
        ((h.packetHdr nosp pkt ++ data.take (mtu - hdrLen pkt)) :: ·) := by
  have hpart : (data.take (mtu - hdrLen pkt)).length = mtu - hdrLen pkt := by
    rw [List.length_take, Nat.min_eq_left hlen.le]
  rw [sendLoop, if_neg (by omega), if_pos hlen, fragment_eq hmtu hsize]
  simp only [Option.bind_eq_bind, Option.bind_some, hpart, List.length_drop]
  cases sendLoop mtu h nosp fuel _ _ _ <;> rfl

/-- What is behind a START packet goes out as CONT packets and an END packet. -/
theorem sendLoop_tail (hmtu : 4 ≤ mtu) (hsize : mtu + 21 < 65536) {d : List UInt8}
    (hd : 0 < d.length) :
    ∃ ps, Tail mtu h.avdt d ps ∧
      ∀ fuel, d.length ≤ fuel → sendLoop mtu h nosp fuel (nextType mtu d.length) d.length d =
        some ps := by
  induction hn : d.length using Nat.strong_induction_on generalizing d with
  | _ n ih =>
    subst hn
    by_cases hlen : d.length ≤ mtu - 1
    · refine ⟨_, .last hd hlen, fun fuel hfuel => ?_⟩
      obtain ⟨fuel, rfl⟩ : ∃ k, fuel = k + 1 := ⟨fuel - 1, by omega⟩
      have hnext : nextType mtu d.length = .last := if_neg (not_lt.mpr hlen)
      rw [hnext, sendLoop_whole hd hlen]
      rfl
    · rw [not_le] at hlen
      have hrest : (d.drop (mtu - 1)).length = d.length - (mtu - 1) := List.length_drop
      obtain ⟨ps, htail, hsend⟩ := ih _ (by omega) (by omega : 0 < (d.drop (mtu - 1)).length) rfl
      have hpart : (d.take (mtu - 1)).length = mtu - 1 := by
        rw [List.length_take, Nat.min_eq_left hlen.le]
      have hmore := Tail.more hpart htail
      rw [List.take_append_drop] at hmore
      refine ⟨_, hmore, fun fuel hfuel => ?_⟩
      obtain ⟨fuel, rfl⟩ : ∃ k, fuel = k + 1 := ⟨fuel - 1, by omega⟩
      have hnext : nextType mtu d.length = .cont := if_pos hlen
      have hcont : mtu - hdrLen .cont < d.length := hlen
      rw [hnext, sendLoop_part hmtu hsize hcont]
      have hgo := hsend fuel (by omega)
      simp only [hdrLen] at hgo ⊢
      rw [hgo]
      rfl

/-- The packets are sent or queued in order, those that are sent first. -/
theorem foldl_emit (congested : Nat → Bool) (lcb : LcbTx) (ps : List (List UInt8)) :
    ∃ k, (ps.foldl (LcbTx.emit congested) lcb).sent = lcb.sent ++ ps.take k ∧
      (ps.foldl (LcbTx.emit congested) lcb).txQ = lcb.txQ ++ ps.drop k ∧
      (lcb.cong → k = 0) := by
  induction ps generalizing lcb with
  | nil => exact ⟨0, by simp⟩
  | cons packet ps ih =>
    rw [List.foldl_cons]
    obtain ⟨k, hsent, hq, hcong⟩ := ih (lcb.emit congested packet)
    by_cases hc : lcb.cong
    · rw [LcbTx.emit, if_pos hc] at hsent hq hcong
      obtain rfl := hcong hc
      refine ⟨0, ?_, ?_, fun _ => rfl⟩
      · rw [LcbTx.emit, if_pos hc, hsent]
        simp
      · rw [LcbTx.emit, if_pos hc, hq]
        simp
    · rw [LcbTx.emit, if_neg hc] at hsent hq
      refine ⟨k + 1, ?_, ?_, fun h => absurd h hc⟩
      · rw [LcbTx.emit, if_neg hc, hsent]
        simp
      · rw [LcbTx.emit, if_neg hc, hq]
        simp

end Sending

/-! ### What is received -/

section Receiving

variable {h : MsgHdr} {rx : Option BtHdr} {buf : BtHdr} {bufs : List BtHdr} {b : UInt8}
  {items payload : List UInt8} {ps : List (List UInt8)}

/-- A packet with its whole header, in a buffer of the usual size, is taken as AVDTP takes it. -/
theorem avctLcbMsgAsmbl_eq (hbuf : buf.items? = some (b :: items))
    (hlen : hdrLen (PktType.ofHeader b) ≤ items.length + 1)
    (hfits : buf.offset + buf.len ≤ rxBufLen) :
    avctLcbMsgAsmbl rx buf = Avdt.avdtMsgAsmbl rx buf := by
  have hbuflen : buf.len = items.length + 1 := Window.len_of_items hbuf
  have hitem : buf.item? 0 = some b := Window.item_of_items hbuf
  have hshort : ¬ (buf.len < hdrLen (PktType.ofHeader b) ∨ buf.offset + buf.len > rxBufLen) := by
    omega
  have hhdr : (PktType.ofHeader b).hdrLen ≤ hdrLen (PktType.ofHeader b) := by
    cases PktType.ofHeader b <;> decide
  have hshort' : ¬ buf.len < (PktType.ofHeader b).hdrLen := by omega
  have hpos : ¬ buf.len < 1 := by omega
  simp only [avctLcbMsgAsmbl, Avdt.avdtMsgAsmbl, if_neg hpos, hitem, Option.bind_eq_bind,
    Option.bind_some, if_neg hshort, if_neg hshort']
  -- the header lengths of the other packet types are the same
  cases PktType.ofHeader b <;> cases rx <;> rfl

theorem asmblAll_eq (hb : Arrives bufs ps) (hfits : ∀ buf ∈ bufs, buf.offset + buf.len ≤ rxBufLen)
    (hps : ∀ packet ∈ ps, ∃ b items, packet = b :: items ∧
      hdrLen (PktType.ofHeader b) ≤ items.length + 1) :
    asmblAll rx bufs = Avdt.asmblAll rx bufs := by
  induction hb generalizing rx with
  | nil => rfl
  | cons hbuf hbufs ih =>
    rw [List.forall_mem_cons] at hfits hps
    obtain ⟨b, items, rfl, hlen⟩ := hps.1
    rw [asmblAll, Avdt.asmblAll, avctLcbMsgAsmbl_eq hbuf hlen hfits.1]
    simp only [ih hfits.2 hps.2]

/-- The packets behind a START packet have their headers. -/
theorem tail_headers {mtu : Nat} {hdr : Avdt.Header} {d : List UInt8} (ht : Tail mtu hdr d ps) :
    ∀ packet ∈ ps, ∃ b items, packet = b :: items ∧
      hdrLen (PktType.ofHeader b) ≤ items.length + 1 := by
  induction ht with
  | last hd hlen =>
    rw [List.forall_mem_singleton]
    exact ⟨_, _, rfl, by simp [hdrLen]⟩
  | more hpart _ ih =>
    rw [List.forall_mem_cons]
    exact ⟨⟨_, _, rfl, by simp [hdrLen]⟩, ih⟩

theorem pid_be16 (pid : UInt16) :
    UInt16.ofNat (256 * (UInt8.ofNat (pid.toNat / 256)).toNat + (UInt8.ofNat pid.toNat).toNat) =
      pid := by
  have hlt := pid.toNat_lt
  rw [UInt8.toNat_ofNat', UInt8.toNat_ofNat']
  have hval : 256 * (pid.toNat / 256 % 2 ^ 8) + pid.toNat % 2 ^ 8 = pid.toNat := by omega
  rw [hval, UInt16.ofNat_toNat]

/-- The header of a message is read as it was built. -/
theorem received_of_items (pkt : PktType) {msg : BtHdr}
    (hmsg : msg.items? = some (h.byte pkt :: (be16 h.pid.toNat ++ payload))) :
    received msg = some (h, payload) := by
  have hbits : ∀ label cr, (Avdt.bldHdr label pkt cr >>> 4).toNat % 16 = label.val ∧
      (Avdt.bldHdr label pkt cr &&& 3).toNat % 4 = cr.val := by
    cases pkt <;> decide +kernel
  obtain ⟨label, cr, pid⟩ := h
  have hpid := pid_be16 pid
  simp only [received, hmsg, be16, List.cons_append, List.nil_append, Option.bind_eq_bind,
    Option.bind_some, MsgHdr.byte, labelOf, crOf, (hbits label cr).1, (hbits label cr).2, hpid]
  rfl

end Receiving

/-! ### The round trip -/

/-- The packets complete one message, with this header and payload, from whatever state they find
the receiver in. Each packet comes in a buffer of the usual size, and a message of several packets
fits behind the first of them. -/
def Assembles (h : MsgHdr) (payload : List UInt8) (ps : List (List UInt8)) : Prop :=
  ∀ (rx : Option BtHdr) (bufs : List BtHdr), Arrives bufs ps →
    (∀ buf ∈ bufs, buf.offset + buf.len ≤ rxBufLen) →
    (1 < ps.length → ∀ buf ∈ bufs.head?, buf.offset + hdrLen .start + payload.length ≤ rxBufLen) →
    ∃ msg, asmblAll rx bufs = some (none, [msg]) ∧ received msg = some (h, payload)

section RoundTrip

variable {mtu : Nat} {h : MsgHdr} {payload d : List UInt8} {ps : List (List UInt8)}

theorem packets_single (hpos : 0 < payload.length) (hlen : payload.length ≤ mtu - 3) :
    packets mtu h payload = some [h.byte .single :: (be16 h.pid.toNat ++ payload)] := by
  obtain ⟨fuel, hfuel⟩ : ∃ k, payload.length = k + 1 := ⟨payload.length - 1, by omega⟩
  have hloop := @sendLoop_whole mtu h 0 .single fuel payload hpos hlen
  rw [← hfuel] at hloop
  exact (if_pos hlen).trans hloop

theorem assembles_single :
    Assembles h payload [h.byte .single :: (be16 h.pid.toNat ++ payload)] := by
  intro rx bufs hb hfits _
  cases hb with
  | @cons buf _ _ _ hbuf hnil =>
    cases hnil
    have hlen : buf.len = payload.length + 3 := by
      rw [Window.len_of_items hbuf, List.length_cons, List.length_append, be16_length]
      omega
    have hitem : buf.item? 0 = some (h.byte .single) := Window.item_of_items hbuf
    have hroom : ¬ rxBufLen < buf.offset + (payload.length + 3) := by
      rw [← hlen]
      exact not_lt.mpr (hfits buf List.mem_cons_self)
    refine ⟨buf, ?_, received_of_items .single hbuf⟩
    simp [asmblAll, avctLcbMsgAsmbl, hlen, hitem, hdrLen, hroom]

/-- The START packet of a message. -/
def startPacket (mtu : Nat) (h : MsgHdr) (payload : List UInt8) : List UInt8 :=
  h.byte .start :: nospOf mtu payload.length :: (be16 h.pid.toNat ++ payload.take (mtu - 4))

theorem packets_start (hmtu : 48 ≤ mtu) (hsize : mtu + 21 < 65536)
    (hlen : mtu - 3 < payload.length) : ∃ ps, Tail mtu h.avdt (payload.drop (mtu - 4)) ps ∧
      packets mtu h payload = some (startPacket mtu h payload :: ps) := by
  have hd : (payload.drop (mtu - 4)).length = payload.length - (mtu - 4) := List.length_drop
  obtain ⟨ps, htail, hsend⟩ := @sendLoop_tail mtu h (nospOf mtu payload.length) (by omega) hsize
    (payload.drop (mtu - 4)) (by omega)
  obtain ⟨fuel, hfuel⟩ : ∃ k, payload.length = k + 1 := ⟨payload.length - 1, by omega⟩
  have hlong : mtu - hdrLen .start < payload.length := by
    simp only [hdrLen]
    omega
  have hloop := @sendLoop_part mtu h (nospOf mtu payload.length) .start fuel payload
    (by omega) hsize hlong
  have hrest := hsend fuel (by omega)
  simp only [hdrLen] at hloop hrest
  rw [hrest, ← hfuel] at hloop
  exact ⟨ps, htail, (if_neg (not_le.mpr hlen)).trans hloop⟩

theorem tail_pos {hdr : Avdt.Header} (ht : Tail mtu hdr d ps) : 0 < ps.length := by
  cases ht <;> simp

theorem nosp_eq (hmtu : 2 ≤ mtu) (ht : Tail mtu h.avdt d ps) :
    d.length / (mtu - 1) + (if d.length % (mtu - 1) ≠ 0 then 1 else 0) = ps.length := by
  obtain ⟨hlow, hhigh⟩ := ht.count
  have hpos := tail_pos ht
  obtain ⟨n, hn⟩ : ∃ n, ps.length = n + 1 := ⟨ps.length - 1, by omega⟩
  rw [hn, Nat.add_sub_cancel] at hlow
  rw [hn] at hhigh ⊢
  have hw : 0 < mtu - 1 := by omega
  by_cases hrem : d.length % (mtu - 1) = 0
  · obtain ⟨q, hq⟩ := Nat.dvd_of_mod_eq_zero hrem
    rw [hq, Nat.mul_comm] at hlow hhigh
    have hle : q ≤ n + 1 := Nat.le_of_mul_le_mul_right hhigh hw
    have hlt : n < q := Nat.lt_of_mul_lt_mul_left hlow
    rw [if_neg (not_not.mpr hrem), hq, Nat.mul_div_cancel_left q hw]
    omega
  · have hne : d.length ≠ (n + 1) * (mtu - 1) := by
      intro heq
      exact hrem (by rw [heq, Nat.mul_mod_left])
    rw [if_pos hrem, Nat.div_eq_of_lt_le hlow.le (lt_of_le_of_ne hhigh hne)]

theorem nospOf_toNat (hmtu : 48 ≤ mtu) (hfit : payload.length + 3 ≤ rxBufLen)
    (ht : Tail mtu h.avdt (payload.drop (mtu - 4)) ps) :
    (nospOf mtu payload.length).toNat = ps.length + 1 := by
  have hd : (payload.drop (mtu - 4)).length = payload.length + 4 - mtu := by
    rw [List.length_drop]
    omega
  have hcount := nosp_eq (by omega) ht
  rw [hd] at hcount
  simp only [rxBufLen, Avdt.btHdrSize] at hfit
  have hdiv : (payload.length + 4 - mtu) / (mtu - 1) ≤ 4104 / 47 :=
    Nat.div_le_div (by omega) (by omega) (by decide)
  have hu16 : u16 (payload.length + hdrLen .start - mtu) = payload.length + 4 - mtu :=
    u16_of_lt (by simp only [hdrLen]; omega)
  simp only [nospOf, hu16, UInt8.toNat_ofNat']
  split at hcount <;> rename_i hrem
  · rw [if_pos hrem]
    omega
  · rw [if_neg hrem]
    omega

theorem assembles_start (hmtu : 4 ≤ mtu) (hlen : mtu - 3 < payload.length)
    (ht : Tail mtu h.avdt (payload.drop (mtu - 4)) ps) :
    Assembles h payload (startPacket mtu h payload :: ps) := by
  intro rx bufs hb hfits hroom
  have hheaders : ∀ packet ∈ startPacket mtu h payload :: ps, ∃ b items, packet = b :: items ∧
      hdrLen (PktType.ofHeader b) ≤ items.length + 1 := by
    rw [List.forall_mem_cons]
    exact ⟨⟨_, _, rfl, by simp [hdrLen, be16]⟩, tail_headers ht⟩
  have hpos := tail_pos ht
  rw [asmblAll_eq hb hfits hheaders]
  cases hb with
  | @cons buf _ bufs _ hbuf hbufs =>
    have hfit : buf.offset + 4 + payload.length ≤ rxBufLen := hroom (by simpa using hpos) buf rfl
    have hpart : (payload.take (mtu - 4)).length = mtu - 4 := by
      rw [List.length_take]
      omega
    have hstart : buf.items? = some (h.avdt.byte .start :: nospOf mtu payload.length ::
        UInt8.ofNat (h.pid.toNat / 256) :: (UInt8.ofNat h.pid.toNat :: payload.take (mtu - 4))) :=
          hbuf
    obtain ⟨rx', front, hfront, hc, hasm⟩ := Avdt.asmbl_start hstart
      (by simp only [List.length_cons, hpart]; omega) rx
    obtain ⟨msg, hall, hmsg⟩ := ht.assembles hc
      (by simp only [List.length_cons, List.length_drop, hpart]; omega) hbufs
    refine ⟨msg, by simp [Avdt.asmblAll, hasm, hall], received_of_items .start ?_⟩
    rw [hmsg, byte_avdt, be16]
    simp [List.take_append_drop]

/-- Every message that is not empty and fits the receive buffer goes out in packets that fit the
MTU, sent or queued in order; the first of several announces their number; and they are put together
to the message whatever was being put together before. -/
theorem avct_messages_round_trip (congested : Nat → Bool) (lcb : LcbTx) (hmtu : 48 ≤ mtu)
    (hmax : mtu < 65536) (hne : payload ≠ []) (hfit : payload.length + 3 ≤ rxBufLen) :
    ∃ lcb' ps k, avctLcbSendMsg congested lcb mtu h payload = some lcb' ∧
      lcb'.sent = lcb.sent ++ ps.take k ∧ lcb'.txQ = lcb.txQ ++ ps.drop k ∧
      (∀ packet ∈ ps, packet.length ≤ mtu) ∧ Announces ps ∧ Assembles h payload ps := by
  obtain ⟨ps, hps, hlens, hann, hasm⟩ : ∃ ps, packets mtu h payload = some ps ∧
      (∀ packet ∈ ps, packet.length ≤ mtu) ∧ Announces ps ∧ Assembles h payload ps := by
    have hpos := List.length_pos_iff.mpr hne
    by_cases hlen : payload.length ≤ mtu - 3
    · refine ⟨_, packets_single hpos hlen, ?_, ?_, assembles_single⟩
      · simp only [List.mem_singleton, forall_eq, List.length_cons, List.length_append, be16_length]
        omega
      · simp [Announces, Avdt.kind]
    · rw [not_le] at hlen
      have hsize : mtu + 21 < 65536 := by
        simp only [rxBufLen, Avdt.btHdrSize] at hfit
        omega
      obtain ⟨ps, htail, hps⟩ := packets_start (h := h) hmtu hsize hlen
      refine ⟨_, hps, ?_, ?_, assembles_start (by omega) hlen htail⟩
      · rw [List.forall_mem_cons]
        refine ⟨?_, htail.packet_length (by omega)⟩
        simp only [startPacket, List.length_cons, List.length_append, be16_length, List.length_take]
        omega
      · rw [Announces, List.forall_mem_cons]
        refine ⟨fun _ => ?_, fun packet hp hk => absurd hk (htail.kind_ne_start packet hp)⟩
        simp [startPacket, nospOf_toNat hmtu hfit htail]
  obtain ⟨k, hsent, hq, -⟩ := foldl_emit congested lcb ps
  exact ⟨_, ps, k, by rw [avctLcbSendMsg, hps]; rfl, hsent, hq, hlens, hann, hasm⟩

end RoundTrip

theorem avct_messages_round_trip_ninety_two :
    ∃ lcb' ps k, avctLcbSendMsg (fun n => n == 1) ⟨false, [], []⟩ 48 ⟨2, 0, 0x110e⟩
        (List.replicate 92 7) = some lcb' ∧
      lcb'.sent = [] ++ ps.take k ∧ lcb'.txQ = [] ++ ps.drop k ∧
      (∀ packet ∈ ps, packet.length ≤ 48) ∧ Announces ps ∧
      Assembles ⟨2, 0, 0x110e⟩ (List.replicate 92 7) ps :=
  avct_messages_round_trip (fun n => n == 1) ⟨false, [], []⟩ (by decide) (by decide) (by simp)
    (by decide)

end BluetoothStack.Avct
