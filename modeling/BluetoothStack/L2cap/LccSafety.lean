import BluetoothStack.Lib.Ensures
import BluetoothStack.L2cap.Lcc

/-!
# BluetoothStack.L2cap.LccSafety

Reassembly on LE credit-based channels, from a peer that sends anything.

A call of `l2c_lcc_proc_pdu` drops the PDU, throws the SDU away, or copies the PDU into the SDU's
block (`lccAppend_spec`). Every one of them leaves `is_first_seg` and `ble_sdu` in step (`Safe`), so
the next copy finds the block it expects.
-/

namespace BluetoothStack.L2cap

open BluetoothStack.Lib

/-- A received buffer: its payload is inside its block, and there is room in its fields to step over
the SDU length. -/
structure LccPdu extends BtHdr where
  inside : offset + len ≤ data.length
  lenFits : len < 65536
  offsetFits : offset + l2capLccSduLength < 65536

/-- Calls of `l2c_lcc_proc_pdu`, one for each PDU. -/
def lccRun (c : LccRxCfg) (r : LccRx) (pdus : List LccPdu) : Result LccRx :=
  pdus.foldlM (fun r p => l2cLccProcPdu c r p.toBtHdr) r

/-- A block allocated for an SDU of `n` bytes. -/
structure SduBlock (n : ℕ) (d : BtHdr) : Prop where
  offset : d.offset = 0
  size : d.data.length = n
  fits : n < 65536

namespace LccRx

/-- The part of an SDU that `ble_sdu` holds. -/
def held (r : LccRx) : List UInt8 := (r.bleSdu.map BtHdr.bytes).getD []

/-- How long the SDU is that a PDU belongs to: its first PDU says so. -/
def declared (r : LccRx) (b : BtHdr) : ℕ :=
  if r.isFirstSeg then b.getU16 b.offset else r.bleSduLength

/-- What a PDU has of its SDU. -/
def payload (r : LccRx) (b : BtHdr) : List UInt8 :=
  if r.isFirstSeg then b.bytes.drop l2capLccSduLength else b.bytes

/-- There is a block just if the next PDU is not a first one, and it is not full. -/
structure Safe (c : LccRxCfg) (r : LccRx) : Prop where
  first_iff : r.isFirstSeg = true ↔ r.bleSdu = none
  block : ∀ d, r.bleSdu = some d → SduBlock r.bleSduLength d
  short : ∀ d, r.bleSdu = some d → d.len < r.bleSduLength ∧ r.bleSduLength ≤ c.mtu

/-- What a PDU leads to: at most one SDU is delivered, of the length that was declared. -/
structure Takes (c : LccRxCfg) (r : LccRx) (b : BtHdr) (r' : LccRx) : Prop where
  safe : r'.Safe c
  pending : ∀ d, r'.bleSdu = some d →
    r'.bleSduLength = r.declared b ∧ (d.bytes = r.held ++ r.payload b ∨ r.bleSdu = some d)
  delivered : r'.delivered = r.delivered ∨
    r'.delivered = r.delivered ++ [r.held ++ r.payload b] ∧
      (r.held ++ r.payload b).length = r.declared b ∧ r.declared b ≤ c.mtu

end LccRx

/-! ### One PDU -/

variable {c : LccRxCfg} {r r' : LccRx}

/-- The block of an SDU with the bytes of another buffer behind its own. -/
def BtHdr.copyBehind (d b : BtHdr) : BtHdr :=
  { d with data := blit d.data (d.offset + d.len) b.bytes, len := d.len + b.len }

variable {d b : BtHdr}

theorem BtHdr.copyBehind_bytes (hoff : d.offset = 0) (hroom : d.len + b.len ≤ d.data.length)
    (hb : b.offset + b.len ≤ b.data.length) : (d.copyBehind b).bytes = d.bytes ++ b.bytes := by
  have hbytes : b.bytes.length = b.len := BtHdr.bytes_length hb
  have htake : (d.copyBehind b).bytes = (blit d.data d.len b.bytes).take
      (d.len + b.bytes.length) := by
    rw [copyBehind, hbytes, bytes]
    simp only [hoff, List.drop_zero, Nat.zero_add]
  have hown : d.bytes = d.data.take d.len := by rw [bytes, hoff, List.drop_zero]
  rw [htake, take_blit (by omega), hown]

theorem SduBlock.copyBehind {n : ℕ} (hd : SduBlock n d) (hfit : d.len + b.len ≤ n)
    (hb : b.offset + b.len ≤ b.data.length) : SduBlock n (d.copyBehind b) := by
  refine ⟨hd.offset, ?_, hd.fits⟩
  have hsize := hd.size
  have hoff := hd.offset
  have hbytes : b.bytes.length = b.len := BtHdr.bytes_length hb
  rw [← hsize]
  exact blit_length (by omega)

/-- The copy: the SDU is complete and delivered, or its block is still not full. -/
theorem lccAppend_spec (hd : SduBlock r.bleSduLength d) (hb : b.offset + b.len ≤ b.data.length)
    (hfit : d.len + b.len ≤ r.bleSduLength) : lccAppend r d b = .ok
      (if d.len + b.len = r.bleSduLength then
        { r with
          delivered := r.delivered ++ [(d.copyBehind b).bytes], isFirstSeg := true, bleSdu := none
          bleSduLength := 0 }
      else { r with bleSdu := some (d.copyBehind b), isFirstSeg := false }) := by
  obtain ⟨hoff, hsize, hshort⟩ := hd
  have hlen : u16 (d.len + b.len) = d.len + b.len := u16_of_lt (by omega)
  unfold lccAppend
  rw [if_pos ⟨by omega, hb⟩]
  dsimp only
  rw [hlen]
  split
  · rfl
  · rw [if_pos (by omega)]
    rfl

/-- A PDU is copied into the SDU that `r` is at, or that has just been started. -/
theorem LccRx.Takes.append {r₀ : LccRx} {b₀ : BtHdr} (hd : SduBlock r.bleSduLength d)
    (hb : b.offset + b.len ≤ b.data.length) (hfit : d.len + b.len ≤ r.bleSduLength)
    (hmtu : r.bleSduLength ≤ c.mtu) (hdelivered : r.delivered = r₀.delivered)
    (hdeclared : r.bleSduLength = r₀.declared b₀)
    (hbytes : d.bytes ++ b.bytes = r₀.held ++ r₀.payload b₀) :
    ∃ r', lccAppend r d b = .ok r' ∧ LccRx.Takes c r₀ b₀ r' := by
  have hoff := hd.offset
  have hsize := hd.size
  have hcopy := BtHdr.copyBehind_bytes hoff (by omega) hb
  refine ⟨_, lccAppend_spec hd hb hfit, ?_⟩
  split
  case isTrue hfull =>
    refine ⟨⟨by simp, by simp, by simp⟩, by simp, .inr ?_⟩
    have hlength : (r₀.held ++ r₀.payload b₀).length = r.bleSduLength := by
      rw [← hbytes, List.length_append, BtHdr.bytes_length hb, BtHdr.bytes_length (by omega), hfull]
    rw [← hdeclared, hlength]
    refine ⟨?_, rfl, hmtu⟩
    rw [← hbytes, ← hcopy, ← hdelivered]
  case isFalse hpart =>
    refine ⟨⟨by simp, ?_, ?_⟩, ?_, .inl hdelivered⟩
    · rintro _ ⟨⟩
      exact hd.copyBehind hfit hb
    · rintro _ ⟨⟩
      exact ⟨lt_of_le_of_ne hfit hpart, hmtu⟩
    · rintro _ ⟨⟩
      exact ⟨hdeclared, .inl (hcopy.trans hbytes)⟩

theorem LccRx.Takes.dropped (h : r.Safe c) : LccRx.Takes c r b r := by
  refine ⟨h, fun d hd => ⟨?_, .inr hd⟩, .inl rfl⟩
  have hnext : r.isFirstSeg ≠ true := fun hfirst => by
    rw [h.first_iff.mp hfirst] at hd
    cases hd
  rw [LccRx.declared, if_neg hnext]

theorem LccRx.Takes.disconnect (h : LccRx.Takes c r b r') : LccRx.Takes c r b r'.disconnect :=
  ⟨⟨h.safe.first_iff, h.safe.block, h.safe.short⟩, h.pending, h.delivered⟩

theorem lccNext_takes (h : r.Safe c) (hnext : r.isFirstSeg = false) (b : BtHdr)
    (hb : b.offset + b.len ≤ b.data.length) : ∃ r', lccNext r b = .ok r' ∧
      LccRx.Takes c r b r' := by
  have hdeclared : r.bleSduLength = r.declared b := by
    rw [LccRx.declared, hnext]
    rfl
  unfold lccNext
  split
  case h_1 => exact ⟨r, rfl, .dropped h⟩
  case h_2 d hd =>
    split
    case isTrue =>
      -- the fragments are thrown away
      exact ⟨_, rfl, LccRx.Takes.disconnect ⟨⟨by simp, by simp, by simp⟩, by simp, .inl rfl⟩⟩
    case isFalse hfit =>
      refine LccRx.Takes.append (h.block d hd) hb (not_lt.mp hfit) (h.short d hd).2 rfl hdeclared ?_
      rw [LccRx.held, hd, LccRx.payload, hnext]
      rfl

theorem lccStart_takes (h : r.Safe c) (hfirst : r.isFirstSeg = true) {b₀ : BtHdr} {n : ℕ}
    (hb : b.offset + b.len ≤ b.data.length) (hn : n = r.declared b₀) (hfits : n < 65536)
    (hmtu : n ≤ c.mtu) (hbytes : b.bytes = r.payload b₀) :
    ∃ r', lccStart r n b = .ok r' ∧ LccRx.Takes c r b₀ r' := by
  unfold lccStart
  split
  case isTrue => exact ⟨r, rfl, .dropped h⟩
  case isFalse hlen =>
    refine LccRx.Takes.append ⟨rfl, List.length_replicate, hfits⟩ hb ?_ hmtu rfl hn ?_
    · exact (Nat.zero_add _).trans_le (not_lt.mp hlen)
    · rw [LccRx.held, h.first_iff.mp hfirst, hbytes]
      rfl

theorem lccFirst_takes (h : r.Safe c) (hfirst : r.isFirstSeg = true) (b : LccPdu) :
    ∃ r', lccFirst c r b.toBtHdr = .ok r' ∧ LccRx.Takes c r b.toBtHdr r' := by
  have hinside := b.inside
  have hlen := b.lenFits
  have hoff := b.offsetFits
  have hdeclared : b.getU16 b.offset = r.declared b.toBtHdr := by
    rw [LccRx.declared, if_pos hfirst]
  unfold lccFirst
  split
  case isTrue => exact ⟨r, rfl, .dropped h⟩
  case isFalse hlong =>
    have hlong : 2 ≤ b.len := not_lt.mp hlong
    split
    case isTrue => exact ⟨_, rfl, .disconnect (.dropped h)⟩
    case isFalse hmtu =>
      have hlen' : sub16 b.len l2capLccSduLength = b.len - 2 := sub16_of_le hlen hlong
      have hoff' : u16 (b.offset + l2capLccSduLength) = b.offset + 2 := u16_of_lt hoff
      refine lccStart_takes h hfirst ?_ hdeclared (rd16_lt _ _) (not_lt.mp hmtu) ?_
      · dsimp only
        omega
      · rw [LccRx.payload, if_pos hfirst, BtHdr.bytes, BtHdr.bytes]
        dsimp only
        rw [hlen', hoff', List.drop_take, List.drop_drop]

theorem l2cLccProcPdu_takes (h : r.Safe c) (b : LccPdu) :
    ∃ r', l2cLccProcPdu c r b.toBtHdr = .ok r' ∧ LccRx.Takes c r b.toBtHdr r' := by
  unfold l2cLccProcPdu
  generalize (if c.fixFirst && r.isFirstSeg then u16 (c.mps + l2capLccSduLength) else c.mps) =
    localMps
  dsimp only
  split
  case isTrue => exact ⟨_, rfl, .disconnect (.dropped h)⟩
  case isFalse =>
    split
    case isTrue hfirst => exact lccFirst_takes h hfirst b
    case isFalse hnext => exact lccNext_takes h (Bool.eq_false_of_not_eq_true hnext) _ b.inside

/-! ### Every sequence of PDUs -/

theorem lccRun_safe (h : r.Safe c) (pdus : List LccPdu) :
    ∃ r', lccRun c r pdus = .ok r' ∧ r'.Safe c := by
  induction pdus generalizing r with
  | nil => exact ⟨r, rfl, h⟩
  | cons p pdus ih =>
    obtain ⟨r₁, hr₁, htakes⟩ := l2cLccProcPdu_takes h p
    obtain ⟨r', hr', hsafe⟩ := ih htakes.safe
    refine ⟨r', ?_, hsafe⟩
    rw [lccRun, List.foldlM_cons, hr₁, ok_bind]
    exact hr'

/-- From a receiver between SDUs, every sequence of PDUs is processed without an overrun, and what
each of them leads to is safe. -/
theorem lcc_reassembly_safe {c : LccRxCfg} {r₀ : LccRx} (hfirst : r₀.isFirstSeg = true)
    (hnone : r₀.bleSdu = none) (pdus : List LccPdu) (p : LccPdu) :
    ∃ r r', lccRun c r₀ pdus = .ok r ∧ l2cLccProcPdu c r p.toBtHdr = .ok r' ∧ r.Safe c ∧
      LccRx.Takes c r p.toBtHdr r' := by
  have hsafe : r₀.Safe c := by
    refine ⟨iff_of_true hfirst hnone, ?_, ?_⟩
    all_goals
      intro d hd
      rw [hnone] at hd
      cases hd
  obtain ⟨r, hr, hr_safe⟩ := lccRun_safe hsafe pdus
  obtain ⟨r', hr', htakes⟩ := l2cLccProcPdu_takes hr_safe p
  exact ⟨r, r', hr, hr', hr_safe, htakes⟩

/-- A PDU that declares three bytes and has two of them. -/
def LccPdu.twoOfThree : LccPdu where
  len := 4
  offset := 8
  data := [0, 0, 0, 0, 4, 0, 0x41, 0, 3, 0, 7, 8]
  inside := by decide
  lenFits := by decide
  offsetFits := by decide

theorem lcc_reassembly_safe_two_of_three :
    ∃ r r', lccRun ⟨0x41, 23, 100, true⟩ (.idle []) [.twoOfThree] = .ok r ∧
      l2cLccProcPdu ⟨0x41, 23, 100, true⟩ r LccPdu.twoOfThree.toBtHdr = .ok r' ∧
      r.Safe ⟨0x41, 23, 100, true⟩ ∧
      LccRx.Takes ⟨0x41, 23, 100, true⟩ r LccPdu.twoOfThree.toBtHdr r' :=
  lcc_reassembly_safe rfl rfl [.twoOfThree] .twoOfThree

end BluetoothStack.L2cap
