import Mathlib
import BluetoothStack.Avct.Fragmentation

/-!
# BluetoothStack.Avct.ReassemblySafety

Reassembly of AVCTP and AVDTP messages from packets of any kind.

What a receiver holds after some packets is said in terms of these packets: `Open` lists those that
the message under construction is made of. One step keeps that, for AVDTP by the lemmas of the round
trip and for AVCTP because it takes a packet that it does not drop as AVDTP does.

A packet that is too short for its header, or in AVCTP too long for a buffer, is dropped without an
effect on the message under construction.
-/

namespace BluetoothStack.Avct

open BluetoothStack.Lib
open BluetoothStack.Avdt (PktType BtHdr rxBufLen Collected avdtMsgAsmbl)

/-! ### Packets and messages -/

/-- The packets that AVDTP drops for their length. -/
def avdtDropped (buf : BtHdr) : Bool :=
  match buf.items? with
  | some (b :: items) => items.length + 1 < (PktType.ofHeader b).hdrLen
  | _ => true

/-- The packets that AVCTP drops for their length. -/
def avctDropped (buf : BtHdr) : Bool :=
  match buf.items? with
  | some (b :: items) =>
    items.length + 1 < hdrLen (PktType.ofHeader b) || rxBufLen < buf.offset + buf.len
  | _ => true

section Messages

variable (dropped : BtHdr → Bool)

/-- What there is of a message after these packets: a START packet without its second byte, and the
payloads of the CONT packets behind it. -/
inductive Open : List BtHdr → List UInt8 → Prop where
  | start {hist : List BtHdr} {buf : BtHdr} {b n : UInt8} {rest : List UInt8} :
      dropped buf = false → buf.items? = some (b :: n :: rest) → PktType.ofHeader b = .start →
      Open (hist ++ [buf]) (b :: rest)
  | skip {hist : List BtHdr} {buf : BtHdr} {c : List UInt8} :
      Open hist c → dropped buf → Open (hist ++ [buf]) c
  | cont {hist : List BtHdr} {buf : BtHdr} {b : UInt8} {c part : List UInt8} :
      Open hist c → dropped buf = false → buf.items? = some (b :: part) →
      PktType.ofHeader b = .cont → Open (hist ++ [buf]) (c ++ part)

/-- The message that a packet completes, if it is not dropped: a SINGLE packet is one, an END packet
is the end of one. -/
inductive Completes (hist : List BtHdr) (buf : BtHdr) : List UInt8 → Prop where
  | single {b : UInt8} {rest : List UInt8} :
      dropped buf = false → buf.items? = some (b :: rest) → PktType.ofHeader b = .single →
      Completes hist buf (b :: rest)
  | last {b : UInt8} {c part : List UInt8} :
      Open dropped hist c → dropped buf = false → buf.items? = some (b :: part) →
      PktType.ofHeader b = .last → Completes hist buf (c ++ part)

/-- The offsets of the message under construction are right. -/
def Consistent (hist : List BtHdr) (rx : Option BtHdr) : Prop :=
  ∀ w ∈ rx, ∃ front c, Open dropped hist c ∧ Collected w front c

/-- A packet is taken without a read or write outside a buffer, the offsets stay right, and a
message comes from its packets. A packet that is dropped changes nothing and completes nothing. -/
def Takes (asm : Option BtHdr → BtHdr → Option (Option BtHdr × Option BtHdr)) (hist : List BtHdr)
    (rx : Option BtHdr) (buf : BtHdr) : Prop :=
  ∃ rx' msg, asm rx buf = some (rx', msg) ∧ Consistent dropped (hist ++ [buf]) rx' ∧
    (dropped buf = true → rx' = rx ∧ msg = none) ∧
    ∀ m ∈ msg, ∃ bytes, Window.items? m = some bytes ∧ Completes dropped hist buf bytes

/-- From the state without a message under construction every row of packets is taken, and what is
under construction stays inside its buffer. -/
def ReassemblySafe (asm : Option BtHdr → BtHdr → Option (Option BtHdr × Option BtHdr))
    (asmAll : Option BtHdr → List BtHdr → Option (Option BtHdr × List BtHdr)) : Prop :=
  ∀ bufs : List BtHdr, (∀ buf ∈ bufs, (Window.items? buf).isSome) →
    ∃ rx msgs, asmAll none bufs = some (rx, msgs) ∧
      (∀ w ∈ rx, ∃ front c, Open dropped bufs c ∧ Collected w front c ∧ w.offset ≤ rxBufLen) ∧
      ∀ buf : BtHdr, (Window.items? buf).isSome → Takes dropped asm bufs rx buf

end Messages

/-! ### One packet -/

section Step

variable {dropped : BtHdr → Bool} {hist : List BtHdr} {rx : Option BtHdr} {buf : BtHdr}

theorem consistent_none (hist : List BtHdr) : Consistent dropped hist none := by
  intro w hw
  cases hw

variable {asm : Option BtHdr → BtHdr → Option (Option BtHdr × Option BtHdr)}

/-- A packet that is not dropped is taken as the function says. -/
theorem takes_kept {rx' msg : Option BtHdr} (hd : dropped buf = false)
    (hasm : asm rx buf = some (rx', msg)) (hcons : Consistent dropped (hist ++ [buf]) rx')
    (hmsg : ∀ m ∈ msg, ∃ bytes, Window.items? m = some bytes ∧ Completes dropped hist buf bytes) :
    Takes dropped asm hist rx buf := by
  refine ⟨rx', msg, hasm, hcons, fun htrue => ?_, hmsg⟩
  rw [hd] at htrue
  exact absurd htrue Bool.false_ne_true

/-- A packet that is not dropped ends the message under construction without completing it. -/
theorem takes_abandoned (hd : dropped buf = false) (hasm : asm rx buf = some (none, none)) :
    Takes dropped asm hist rx buf :=
  takes_kept hd hasm (consistent_none _) (by simp)

/-- A packet that is dropped leaves the message under construction as it is. -/
theorem takes_dropped (hd : dropped buf = true) (hcons : Consistent dropped hist rx)
    (hasm : asm rx buf = some (rx, none)) : Takes dropped asm hist rx buf := by
  refine ⟨rx, none, hasm, ?_, fun _ => ⟨rfl, rfl⟩, by simp⟩
  intro w hw
  obtain ⟨front, c, hopen, hc⟩ := hcons w hw
  exact ⟨front, c, .skip hopen hd, hc⟩

/-- Every byte is the first byte of a packet. -/
theorem byte_prs (b : UInt8) : (Avdt.Header.prs b 0).byte (PktType.ofHeader b) = b := by
  have hall : ∀ n : Fin 256, (Avdt.Header.prs (UInt8.ofNat n) 0).byte
      (PktType.ofHeader (UInt8.ofNat n)) = UInt8.ofNat n := by
    decide +kernel
  have hb := hall ⟨b.toNat, b.toNat_lt⟩
  rwa [UInt8.ofNat_toNat] at hb

theorem takes_part {pkt : PktType} {b : UInt8} {part : List UInt8}
    (hpkt : pkt = .cont ∨ pkt = .last)
    (hb : PktType.ofHeader b = pkt) (hbuf : buf.items? = some (b :: part))
    (hd : dropped buf = false) (hcons : Consistent dropped hist rx) :
    Takes dropped avdtMsgAsmbl hist rx buf := by
  have hlen : buf.len = part.length + 1 := Window.len_of_items hbuf
  have hitem : buf.item? 0 = some b := Window.item_of_items hbuf
  cases rx with
  | none =>
    refine takes_abandoned hd ?_
    obtain rfl | rfl := hpkt
    · simp [avdtMsgAsmbl, hlen, hitem, hb, PktType.hdrLen]
    · simp [avdtMsgAsmbl, hlen, hitem, hb, PktType.hdrLen]
  | some w =>
    obtain ⟨front, c, hopen, hc⟩ := hcons w rfl
    by_cases hroom : front.length + c.length + part.length ≤ rxBufLen
    · have hbyte : buf.items? = some ((Avdt.Header.prs b 0).byte pkt :: part) := by
        rw [hbuf, ← hb, byte_prs]
      obtain ⟨rx', hc', hasm⟩ := Avdt.asmbl_part hpkt hbyte hc hroom
      obtain rfl | rfl := hpkt
      · refine takes_kept hd hasm ?_ (by simp)
        rintro w' ⟨⟩
        exact ⟨front, c ++ part, .cont hopen hd hbuf hb, hc'⟩
      · refine takes_kept hd hasm (consistent_none _) ?_
        rintro m ⟨⟩
        exact ⟨c ++ part, hc'.message, .last hopen hd hbuf hb⟩
    · have hover : rxBufLen < w.offset + part.length := by
        rw [hc.offset]
        omega
      refine takes_abandoned hd ?_
      obtain rfl | rfl := hpkt
      · simp [avdtMsgAsmbl, hlen, hitem, hb, PktType.hdrLen, hover]
      · simp [avdtMsgAsmbl, hlen, hitem, hb, PktType.hdrLen, hover]

theorem takes_start {b n s : UInt8} {part : List UInt8} (hb : PktType.ofHeader b = .start)
    (hbuf : buf.items? = some (b :: n :: s :: part)) (hd : dropped buf = false) :
    Takes dropped avdtMsgAsmbl hist rx buf := by
  by_cases hroom : buf.offset + 3 + part.length ≤ rxBufLen
  · have hbyte : buf.items? = some ((Avdt.Header.prs b 0).byte .start :: n :: s :: part) := by
      rw [hbuf, ← hb, byte_prs]
    obtain ⟨w, front, -, hc, hasm⟩ := Avdt.asmbl_start hbyte hroom rx
    refine takes_kept hd hasm ?_ (by simp)
    rintro w' ⟨⟩
    rw [← hb, byte_prs] at hc
    exact ⟨front, b :: s :: part, .start hd hbuf hb, hc⟩
  · have hlen : buf.len = part.length + 3 := Window.len_of_items hbuf
    have hitem : buf.item? 0 = some b := Window.item_of_items hbuf
    have hover : rxBufLen < buf.offset + (part.length + 3) := by omega
    refine takes_abandoned hd ?_
    simp [avdtMsgAsmbl, hlen, hitem, hb, PktType.hdrLen, hover]

theorem avdt_takes {b : UInt8} {items : List UInt8} (hbuf : buf.items? = some (b :: items))
    (hlen : (PktType.ofHeader b).hdrLen ≤ items.length + 1) (hd : dropped buf = false)
    (hcons : Consistent dropped hist rx) : Takes dropped avdtMsgAsmbl hist rx buf := by
  cases hb : PktType.ofHeader b with
  | single =>
    have hbuflen : buf.len = items.length + 1 := Window.len_of_items hbuf
    have hitem : buf.item? 0 = some b := Window.item_of_items hbuf
    rw [hb] at hlen
    refine takes_kept hd (show _ = some (none, some buf) from ?_) (consistent_none _) ?_
    · simp only [PktType.hdrLen] at hlen
      have hlong : ¬ items.length + 1 < 2 := by omega
      simp [avdtMsgAsmbl, hbuflen, hitem, hb, PktType.hdrLen, hlong]
    · rintro m ⟨⟩
      exact ⟨_, hbuf, .single hd hbuf hb⟩
  | start =>
    rw [hb] at hlen
    -- a start packet has a count of packets and a signal identifier behind its first byte
    cases items with
    | nil => exact absurd hlen (by decide)
    | cons n items =>
      cases items with
      | nil => exact absurd hlen (by simp [PktType.hdrLen])
      | cons s part => exact takes_start hb hbuf hd
  | cont => exact takes_part (.inl rfl) hb hbuf hd hcons
  | last => exact takes_part (.inr rfl) hb hbuf hd hcons

theorem avdtMsgAsmbl_takes (hbuf : (Window.items? buf).isSome)
    (hcons : Consistent avdtDropped hist rx) : Takes avdtDropped avdtMsgAsmbl hist rx buf := by
  obtain ⟨items, hitems⟩ := Option.isSome_iff_exists.mp hbuf
  cases hd : avdtDropped buf with
  | true =>
    refine takes_dropped hd hcons ?_
    cases items with
    | nil =>
      have hlen : buf.len = 0 := Window.len_of_items hitems
      exact if_pos (by omega)
    | cons b items =>
      have hlen : buf.len = items.length + 1 := Window.len_of_items hitems
      have hitem : buf.item? 0 = some b := Window.item_of_items hitems
      simp only [avdtDropped, hitems, decide_eq_true_eq] at hd
      simp [avdtMsgAsmbl, hlen, hitem, hd]
  | false =>
    cases items with
    | nil => simp [avdtDropped, hitems] at hd
    | cons b items =>
      have hlong : (PktType.ofHeader b).hdrLen ≤ items.length + 1 := by
        simpa [avdtDropped, hitems] using hd
      exact avdt_takes hitems hlong hd hcons

theorem avctLcbMsgAsmbl_takes (hbuf : (Window.items? buf).isSome)
    (hcons : Consistent avctDropped hist rx) : Takes avctDropped avctLcbMsgAsmbl hist rx buf := by
  obtain ⟨items, hitems⟩ := Option.isSome_iff_exists.mp hbuf
  cases hd : avctDropped buf with
  | true =>
    refine takes_dropped hd hcons ?_
    cases items with
    | nil =>
      have hlen : buf.len = 0 := Window.len_of_items hitems
      exact if_pos (by omega)
    | cons b items =>
      have hlen : buf.len = items.length + 1 := Window.len_of_items hitems
      have hitem : buf.item? 0 = some b := Window.item_of_items hitems
      simp only [avctDropped, hitems, Bool.or_eq_true, decide_eq_true_eq, hlen] at hd
      simp [avctLcbMsgAsmbl, hlen, hitem, hd]
  | false =>
    cases items with
    | nil => simp [avctDropped, hitems] at hd
    | cons b items =>
      have hkept : hdrLen (PktType.ofHeader b) ≤ items.length + 1 ∧
          buf.offset + buf.len ≤ rxBufLen := by
        simpa [avctDropped, hitems] using hd
      have hhdr : (PktType.ofHeader b).hdrLen ≤ hdrLen (PktType.ofHeader b) := by
        cases PktType.ofHeader b <;> decide
      have htakes := avdt_takes hitems (hhdr.trans hkept.1) hd hcons
      rw [Takes] at htakes ⊢
      rwa [avctLcbMsgAsmbl_eq hitems hkept.1 hkept.2]

end Step

/-! ### Any row of packets -/

section Run

variable {dropped : BtHdr → Bool} {asm : Option BtHdr → BtHdr →
  Option (Option BtHdr × Option BtHdr)}
  {asmAll : Option BtHdr → List BtHdr → Option (Option BtHdr × List BtHdr)}

/-- What each packet keeps, a row of packets keeps. -/
theorem consistent_run (hnil : ∀ rx, asmAll rx [] = some (rx, []))
    (hcons : ∀ rx buf bufs, asmAll rx (buf :: bufs) = (do
      let (rx, msg) ← asm rx buf
      let (rx, msgs) ← asmAll rx bufs
      return (rx, msg.toList ++ msgs)))
    (hstep : ∀ {hist rx buf}, (Window.items? buf).isSome → Consistent dropped hist rx →
      Takes dropped asm hist rx buf) {hist : List BtHdr} {rx : Option BtHdr} {bufs : List BtHdr}
    (hbufs : ∀ buf ∈ bufs, (Window.items? buf).isSome) (h : Consistent dropped hist rx) :
    ∃ rx' msgs, asmAll rx bufs = some (rx', msgs) ∧ Consistent dropped (hist ++ bufs) rx' := by
  induction bufs generalizing hist rx with
  | nil => exact ⟨rx, [], hnil rx, by rwa [List.append_nil]⟩
  | cons buf bufs ih =>
    rw [List.forall_mem_cons] at hbufs
    obtain ⟨rx₁, msg, hasm, hnext, -, -⟩ := hstep hbufs.1 h
    obtain ⟨rx₂, msgs, hall, hend⟩ := ih hbufs.2 hnext
    refine ⟨rx₂, msg.toList ++ msgs, ?_, ?_⟩
    · rw [hcons, hasm, Option.bind_eq_bind, Option.bind_some]
      simp only [hall, Option.bind_eq_bind, Option.bind_some]
      rfl
    · rwa [List.append_assoc, List.singleton_append] at hend

/-- A message under construction ends inside its buffer. -/
theorem Collected.offset_le {w : BtHdr} {front items : List UInt8} (hc : Collected w front items) :
    w.offset ≤ rxBufLen := by
  obtain ⟨back, hdata⟩ := hc.data
  have hsize := hc.size
  rw [hdata, List.length_append, List.length_append] at hsize
  rw [hc.offset]
  omega

theorem reassemblySafe_of_step (hnil : ∀ rx, asmAll rx [] = some (rx, []))
    (hcons : ∀ rx buf bufs, asmAll rx (buf :: bufs) = (do
      let (rx, msg) ← asm rx buf
      let (rx, msgs) ← asmAll rx bufs
      return (rx, msg.toList ++ msgs)))
    (hstep : ∀ {hist rx buf}, (Window.items? buf).isSome → Consistent dropped hist rx →
      Takes dropped asm hist rx buf) : ReassemblySafe dropped asm asmAll := by
  intro bufs hbufs
  obtain ⟨rx, msgs, hall, hend⟩ :=
    consistent_run hnil hcons hstep hbufs (consistent_none [])
  rw [List.nil_append] at hend
  refine ⟨rx, msgs, hall, fun w hw => ?_, fun buf hbuf => hstep hbuf hend⟩
  obtain ⟨front, c, hopen, hc⟩ := hend w hw
  exact ⟨front, c, hopen, hc, Collected.offset_le hc⟩

end Run

/-- Reassembly is safe for both protocols, whatever packets come. -/
theorem reassembly_safe :
    ReassemblySafe avctDropped avctLcbMsgAsmbl asmblAll ∧
      ReassemblySafe avdtDropped avdtMsgAsmbl Avdt.asmblAll :=
  ⟨reassemblySafe_of_step (fun _ => rfl) (fun _ _ _ => rfl) avctLcbMsgAsmbl_takes,
    reassemblySafe_of_step (fun _ => rfl) (fun _ _ _ => rfl) avdtMsgAsmbl_takes⟩

/-- A START packet, a SINGLE packet that is too short, and an END packet: the message of the first
and the last is delivered. -/
theorem short_packet_between :
    (Avdt.asmblAll none [⟨[4, 2, 1, 7], 0, 4⟩, ⟨[0], 0, 1⟩, ⟨[12, 9], 0, 2⟩]).map
        (fun r => r.2.map Window.items?) = some [some [4, 1, 7, 9]] ∧
      PktType.ofHeader 0 = .single := by
  decide +kernel

end BluetoothStack.Avct
