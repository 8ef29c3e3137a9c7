import BluetoothStack.Lib.Ensures
import BluetoothStack.L2cap.Fcr

/-!
# BluetoothStack.L2cap.Frames

What the frames built by `l2c_fcr.cc` contain.

A frame on the link is a list of bytes; the receiver sees its control word and its
information field. This module proves, once for each function that builds or copies a
frame, which TxSeq, ReqSeq and segment the result carries:

* `prepareIFrame_spec` for the final step of every I-frame, sent first or sent again;
* `cutSegment_spec` and `addHeader_spec` for segmentation, against `cutSeg`, the same step
  on byte lists;
* `cloneBuf_spec` for the copies kept in `waiting_for_ack_q` and `retrans_q`;
* `sFrame_isSFrame` for S-frames.

Later modules use these facts and no byte position.
-/

namespace BluetoothStack.L2cap

open BluetoothStack.Lib

/-- The only fault that specifications leave open. -/
def IsOverrun (e : Fault) : Prop := e = .overrun

/-! ### Fields of the control word -/

variable {b : BtHdr} {n : Nat} {b' : BtHdr} {maxPdu : Nat} (x : Nat)

theorem txSeqOf_val : (txSeqOf x).val = x / 2 % 64 := by
  change (x &&& 0x7E) >>> 1 = _
  rw [Nat.shiftRight_and_distrib, show 0x7E >>> 1 = 2 ^ 6 - 1 from rfl,
    Nat.and_two_pow_sub_one_eq_mod, Nat.shiftRight_eq_div_pow]

theorem reqSeqOf_val : (reqSeqOf x).val = x / 256 % 64 := by
  change (x &&& 0x3F00) >>> 8 = _
  rw [Nat.shiftRight_and_distrib, show 0x3F00 >>> 8 = 2 ^ 6 - 1 from rfl,
    Nat.and_two_pow_sub_one_eq_mod, Nat.shiftRight_eq_div_pow]

theorem hasBit_sFrameBit : hasBit x sFrameBit = decide (x % 2 = 1) := by
  have h : x &&& sFrameBit = x % 2 := Nat.and_two_pow_sub_one_eq_mod x 1
  rw [hasBit, h]
  rcases Nat.mod_two_eq_zero_or_one x with h | h <;> simp [h]

theorem and_sarBits : x &&& sarBits = 16384 * (x / 16384 % 4) := by
  apply Nat.eq_of_testBit_eq
  intro i
  have h : x / 2 ^ 14 % 4 = (x >>> 14) &&& 3 := by
    rw [show 3 = 2 ^ 2 - 1 from rfl, Nat.and_two_pow_sub_one_eq_mod, Nat.shiftRight_eq_div_pow]
  rw [show sarBits = 2 ^ 14 * 3 from rfl, show 16384 = 2 ^ 14 from rfl, h, Nat.testBit_and,
    Nat.testBit_two_pow_mul, Nat.testBit_two_pow_mul, Nat.testBit_and, Nat.testBit_shiftRight]
  by_cases hi : 14 ≤ i
  · rw [show 14 + (i - 14) = i by omega]
    simp [hi]
  · simp [hi]

/-- The segmentation type with the given two-bit code. -/
def Sar.ofCode : Nat → Sar
  | 0 => .unseg
  | 1 => .start
  | 2 => .final
  | _ => .cont

theorem sarOf_eq : sarOf x = Sar.ofCode (x / 16384 % 4) := by
  have h : (x &&& sarBits) >>> 14 = x / 16384 % 4 := by
    rw [and_sarBits, Nat.shiftRight_eq_div_pow, show (2 : Nat) ^ 14 = 16384 from rfl,
      Nat.mul_div_cancel_left _ (by decide)]
  rw [sarOf, h]
  rfl

theorem sarOf_congr {x y : Nat} (h : x / 16384 % 4 = y / 16384 % 4) : sarOf x = sarOf y := by
  rw [sarOf_eq, sarOf_eq, h]

theorem sarOf_or_code {flags : Nat} (h : flags < 4) (s : Sar) : sarOf (flags ||| s.code) = s := by
  have hv : flags ||| s.code = 16384 * (s.code / 16384) + flags := by
    rw [Nat.or_comm]
    have hs : s.code = 2 ^ 14 * (s.code / 16384) := by cases s <;> rfl
    rw [hs, ← Nat.two_pow_add_eq_or_of_lt (by omega : flags < 2 ^ 14)]
    omega
  have hd : (flags ||| s.code) / 16384 % 4 = s.code / 16384 := by
    have : s.code / 16384 < 4 := by cases s <;> decide
    omega
  rw [sarOf_eq, hd]
  cases s <;> rfl

/-! ### Control words as sums of fields -/

/-- A word in the low eight bits, with a ReqSeq above it. -/
theorem or_reqSeq {q e r : Nat} (he : e < 64) (hr : r < 256) :
    (16384 * q ||| r) ||| (e <<< 8) = 16384 * q + 256 * e + r := by
  have h₁ : r ||| e <<< 8 = 256 * e + r := by
    rw [Nat.or_comm, Nat.shiftLeft_eq, Nat.mul_comm]
    exact (Nat.two_pow_add_eq_or_of_lt (i := 8) hr e).symm
  rw [Nat.or_assoc, h₁, show (16384 : Nat) = 2 ^ 14 from rfl,
    ← Nat.two_pow_add_eq_or_of_lt (by omega : 256 * e + r < 2 ^ 14)]
  omega

theorem or_fBit {q r : Nat} (hr : r < 128) :
    (16384 * q ||| r) ||| fBit = 16384 * q ||| (128 + r) := by
  have h : r ||| fBit = 128 + r := by
    rw [Nat.or_comm]
    exact (Nat.two_pow_add_eq_or_of_lt (i := 7) hr 1).symm
  rw [Nat.or_assoc, h]

/-- Clearing ReqSeq and F keeps the segmentation type and the low seven bits. -/
theorem and_not_reqSeq :
    x &&& not16 (reqSeqBits + fBit) = 16384 * (x / 16384 % 4) ||| (x % 128) := by
  rw [show not16 (reqSeqBits + fBit) = sarBits ||| (2 ^ 7 - 1) from rfl, Nat.and_or_distrib_left,
    and_sarBits, Nat.and_two_pow_sub_one_eq_mod]

/-- The word `prepare_I_frame` writes, from the part it keeps. -/
theorem prepared_ctrl {q r : Nat} {e : SeqNum} (hr : r < 128) (setF : Bool) :
    ∃ fin ≤ 1, (if setF then (16384 * q ||| r) ||| fBit else 16384 * q ||| r) ||| (e.val <<< 8)
      = 16384 * q + 256 * e.val + 128 * fin + r := by
  cases setF with
  | true =>
    refine ⟨1, le_rfl, ?_⟩
    rw [if_pos rfl, or_fBit hr, or_reqSeq e.isLt (by omega)]
    omega
  | false =>
    refine ⟨0, by omega, ?_⟩
    rw [if_neg (by decide), or_reqSeq e.isLt (by omega)]
    omega

/-! ### Buffers -/

/-- The control word of a buffer that starts at its L2CAP header. -/
def BtHdr.ctrl (b : BtHdr) : Nat := b.getU16 (b.offset + l2capPktOverhead)

/-- The channel id in a buffer that starts at its L2CAP header. -/
def BtHdr.cid (b : BtHdr) : Nat := b.getU16 (b.offset + 2)

/-- The information field of a buffer that starts at its L2CAP header. -/
def BtHdr.info (b : BtHdr) : List UInt8 := (b.data.drop (b.offset + 6)).take (b.len - 6)

/-- A segment of an SDU, as it travels in the information field of an I-frame. -/
structure Seg where
  sar : Sar
  info : List UInt8

/-- The segment in a buffer that starts at its L2CAP header. -/
def BtHdr.seg (b : BtHdr) : Seg := ⟨sarOf b.ctrl, b.info⟩

/-- A buffer that holds an I-frame: long enough for its header and control word, inside its
allocation, and short enough for an FCS to be added. -/
structure HoldsIFrame (b : BtHdr) : Prop where
  long : 6 ≤ b.len
  inside : b.offset + b.len ≤ b.data.length
  short : b.len + 2 < 65536
  even : b.ctrl % 2 = 0

/-- A buffer of `waiting_for_ack_q` or `retrans_q`: an I-frame for the channel `cid`, with room for
an FCS, in a block that is small enough to be cloned. -/
structure KeptFrame (cid : Nat) (b : BtHdr) : Prop extends HoldsIFrame b where
  room : b.offset + b.len + 2 ≤ b.data.length
  size : b.len + b.offset + 10 < 65536
  cid : b.cid = cid

theorem putU16_spec (b : BtHdr) (i v : Nat) :
    Ensures IsOverrun (b.putU16 i v) fun b' =>
      i + 2 ≤ b.data.length ∧ b' = { b with data := wr16 b.data i v } := by
  unfold BtHdr.putU16
  split
  · next h => exact ⟨h, rfl⟩
  · rfl

/-- A clone carries the bytes it was asked for, in a block whose size did not wrap. -/
theorem cloneBuf_spec (b : BtHdr) (newOffset n : Nat) :
    Ensures IsOverrun (l2cFcrCloneBuf b newOffset n) fun b' =>
      n + newOffset + 10 < 65536 ∧ b.offset + n ≤ b.data.length ∧
      b' = { len := n, offset := newOffset,
             data := List.replicate newOffset 0 ++ (b.data.drop b.offset).take n ++ [0, 0] } := by
  simp only [l2cFcrCloneBuf, btHdrSize, l2capFcsLen]
  by_cases h : 8 + newOffset + n ≤ u16 (n + 8 + newOffset + 2) ∧ b.offset + n ≤ b.data.length
  · rw [if_pos h]
    obtain ⟨h₁, h₂⟩ := h
    have hlt : n + 8 + newOffset + 2 < 65536 := by
      by_contra hge
      have : u16 (n + 8 + newOffset + 2) < n + 8 + newOffset := by
        unfold u16
        omega
      omega
    rw [u16_of_lt hlt]
    refine ⟨by omega, h₂, ?_⟩
    rw [show n + 8 + newOffset + 2 - 8 - newOffset - n = 2 by omega]
    rfl
  · rw [if_neg h]
    rfl

theorem clone_data_length {newOffset : Nat} (h : b.offset + n ≤ b.data.length) :
    (List.replicate newOffset 0 ++ (b.data.drop b.offset).take n ++ [0, 0]).length
      = newOffset + n + 2 := by
  simp only [List.length_append, List.length_replicate, List.length_take, List.length_drop,
    List.length_cons, List.length_nil]
  omega

/-- Indexing into a cloned block, behind its new offset. -/
theorem drop_clone_data {newOffset : Nat} (k : Nat) (h : b.offset + n ≤ b.data.length)
    (hk : k ≤ n) :
    (List.replicate newOffset 0 ++ (b.data.drop b.offset).take n ++ [0, 0]).drop (newOffset + k)
      = (b.data.drop (b.offset + k)).take (n - k) ++ [0, 0] := by
  have hl : ((b.data.drop b.offset).take n).length = n := by
    rw [List.length_take, List.length_drop]
    omega
  rw [List.append_assoc, List.drop_append, List.length_replicate, List.drop_replicate,
    Nat.sub_eq_zero_of_le (Nat.le_add_right _ _), List.replicate_zero, List.nil_append,
    Nat.add_sub_cancel_left, List.drop_append_of_le_length (by omega), List.drop_take,
    List.drop_drop]

/-- A clone of a frame, or of a frame and the FCS behind it, holds the same I-frame. -/
theorem clone_same (hb : HoldsIFrame b) (n newOffset ls ev : Nat) (hn : b.len ≤ n)
    (hin : b.offset + n ≤ b.data.length)
    (h : b' = { event := ev, len := b.len, offset := newOffset, layerSpecific := ls,
                data := List.replicate newOffset 0 ++ (b.data.drop b.offset).take n ++ [0, 0] }) :
    HoldsIFrame b' ∧ b'.txSeq = b.txSeq ∧ b'.seg = b.seg ∧ b'.cid = b.cid := by
  have hlong := hb.long
  have hlen : ∀ k ≤ n, ((b.data.drop (b.offset + k)).take (n - k)).length = n - k := by
    intro k hk
    rw [List.length_take, List.length_drop]
    omega
  -- every word of the frame is read at its new place
  have hword : ∀ k, k + 2 ≤ b.len → b'.getU16 (b'.offset + k) = b.getU16 (b.offset + k) := by
    intro k hk
    subst h
    change rd16 _ (newOffset + k) = rd16 b.data (b.offset + k)
    have hk' := hlen k (by omega)
    rw [← Nat.add_zero (newOffset + k), ← rd16_drop, drop_clone_data k hin (by omega),
      rd16_append_left (by omega), rd16_take (by omega), rd16_drop, Nat.add_zero]
  have hctrl : b'.ctrl = b.ctrl := hword 4 hlong
  have hinfo : b'.info = b.info := by
    subst h
    have h6 := hlen 6 (by omega)
    change List.take (b.len - 6) (List.drop (newOffset + 6) _) = _
    rw [drop_clone_data 6 hin (by omega), List.take_append_of_le_length (by omega),
      List.take_take, min_eq_left (by omega), BtHdr.info]
  refine ⟨⟨?_, ?_, ?_, ?_⟩, ?_, ?_, hword 2 (by omega)⟩
  · rw [h]
    exact hlong
  · subst h
    rw [clone_data_length hin]
    change newOffset + b.len ≤ _
    omega
  · rw [h]
    exact hb.short
  · rw [hctrl]
    exact hb.even
  · change txSeqOf b'.ctrl = txSeqOf b.ctrl
    rw [hctrl]
  · rw [BtHdr.seg, hctrl, hinfo, BtHdr.seg]

/-! ### `prepare_I_frame` -/

variable (c : ChanCfg)

theorem fcsLen_le : l2cuGetFcsLen c ≤ 2 := by
  unfold l2cuGetFcsLen
  split <;> decide

theorem l2cFcrUpdcrc_lt {icrc : Nat} (h : icrc < 65536) (bytes : List UInt8) :
    l2cFcrUpdcrc icrc bytes < 65536 := by
  have htab : ∀ v ∈ crctab, v < 2 ^ 16 := by decide +kernel
  induction bytes generalizing icrc with
  | nil => exact h
  | cons b bytes ih =>
    refine ih (Nat.xor_lt_two_pow (n := 16) ?_ ?_)
    · exact Nat.and_lt_two_pow _ (by decide)
    · rw [List.getD_eq_getElem?_getD]
      cases hv : crctab[(icrc &&& 0xff) ^^^ b.toNat]? with
      | none => decide
      | some v => exact htab v (List.mem_of_getElem? hv)

/-- What `sealFrame` leaves behind: the frame `b` with the control word `ctrl` and an FCS. -/
structure Sealed (b : BtHdr) (ctrl : Nat) (b' : BtHdr) : Prop where
  offset : b'.offset = b.offset
  len : b'.len = b.len + l2cuGetFcsLen c
  layer : b'.layerSpecific = b.layerSpecific
  inside : b.offset + b'.len ≤ b'.data.length
  ctrl : b'.ctrl = ctrl
  info : (b'.data.drop (b.offset + 6)).take (b.len - 6) = b.info
  length : b'.getU16 b.offset = b'.len - l2capPktOverhead
  cid : b'.cid = b.cid
  fcs : l2cuGetFcsLen c ≠ 0 →
    b'.getU16 (b.offset + b.len) =
      l2cFcrUpdcrc l2capFcrInitCrc ((b'.data.drop b.offset).take b.len)

theorem sealFrame_spec {ctrl : Nat} (hlong : 6 ≤ b.len) (hin : b.offset + b.len ≤ b.data.length)
    (hshort : b.len + 2 < 65536) (hctrl : ctrl < 65536) :
    Ensures IsOverrun (sealFrame c b ctrl) (Sealed c b ctrl) := by
  have hfcs := fcsLen_le c
  unfold sealFrame
  refine Ensures.bind (putU16_spec _ _ _) ?_
  rintro _ ⟨-, rfl⟩
  refine Ensures.bind (putU16_spec _ _ _) ?_
  rintro _ ⟨-, rfl⟩
  -- the two header words, written over `b`
  have hread : ∀ v, rd16 (wr16 (wr16 b.data (b.offset + 4) ctrl) b.offset v) (b.offset + 4) =
      ctrl := by
    intro v
    rw [rd16_wr16_of_ne (by omega), rd16_wr16_self (by omega) hctrl]
  have hdrop : ∀ v, (wr16 (wr16 b.data (b.offset + 4) ctrl) b.offset v).drop (b.offset + 6)
      = b.data.drop (b.offset + 6) := by
    intro v
    rw [drop_wr16_of_le (by omega), drop_wr16_of_le (by omega)]
  have hlength : rd16 (wr16 (wr16 b.data (b.offset + 4) ctrl) b.offset
      (sub16 (b.len + l2cuGetFcsLen c) 4)) b.offset = b.len + l2cuGetFcsLen c - 4 := by
    rw [sub16_of_le (by omega) (by omega), rd16_wr16_self (by rw [wr16_length]; omega) (by omega)]
  have hcid : ∀ v, rd16 (wr16 (wr16 b.data (b.offset + 4) ctrl) b.offset v) (b.offset + 2)
      = rd16 b.data (b.offset + 2) := by
    intro v
    rw [rd16_wr16_of_ne (by omega), rd16_wr16_of_ne (by omega)]
  by_cases h0 : l2cuGetFcsLen c ≠ 0
  · rw [if_pos h0]
    refine Ensures.bind (putU16_spec _ _ _) ?_
    rintro _ ⟨hroom, rfl⟩
    simp only [wr16_length] at hroom
    have hlen : u16 (b.len + l2cuGetFcsLen c) = b.len + l2cuGetFcsLen c := u16_of_lt (by omega)
    refine ⟨rfl, hlen, rfl, ?_, ?_, ?_, ?_, ?_, fun _ => ?_⟩
    · simp only [wr16_length]
      rw [u16_of_lt (by omega)]
      omega
    · change rd16 (wr16 _ (b.offset + b.len) _) (b.offset + 4) = ctrl
      rw [rd16_wr16_of_ne (by omega), hread]
    · change List.take _ (List.drop _ (wr16 _ (b.offset + b.len) _)) = _
      rw [drop_wr16 (by omega), hdrop, take_wr16_of_le (by omega), BtHdr.info]
    · change rd16 (wr16 _ (b.offset + b.len) _) b.offset = u16 (b.len + l2cuGetFcsLen c) - 4
      rw [rd16_wr16_of_ne (by omega), hlen, ← hlength]
    · change rd16 (wr16 _ (b.offset + b.len) _) (b.offset + 2) = _
      rw [rd16_wr16_of_ne (by omega), hcid]
      rfl
    · -- the FCS is over the bytes in front of it, which it leaves as they are
      change rd16 (wr16 _ (b.offset + b.len) _) (b.offset + b.len) = l2cFcrUpdcrc l2capFcrInitCrc
        (List.take b.len (List.drop b.offset (wr16 _ (b.offset + b.len) _)))
      have hword : ∀ x, l2cFcrTxGetFcs x < 65536 := fun x => l2cFcrUpdcrc_lt (by decide) x.bytes
      rw [rd16_wr16_self (by simp only [wr16_length]; omega) (hword _), drop_wr16 (by omega),
        take_wr16_of_le (by omega)]
      rfl
  · rw [if_neg h0]
    rw [not_not] at h0
    refine ⟨rfl, ?_, rfl, ?_, hread _, ?_, ?_, hcid _, fun hne => absurd h0 hne⟩
    · simp only [h0, Nat.add_zero]
    · simpa only [wr16_length] using hin
    · simp only [hdrop, BtHdr.info]
    · refine hlength.trans ?_
      rw [h0]
      rfl

/-- The fields of the control word `prepare_I_frame` computes in retransmission mode. -/
theorem prepareCtrl_fields (hc : c.peerCfg.mode = .ertm) (f : Fcrb) (b : BtHdr) (again : Bool)
    (he : again → b.ctrl % 2 = 0) :
    prepareCtrl c f b again < 65536 ∧
      txSeqOf (prepareCtrl c f b again) = (if again then txSeqOf b.ctrl else f.nextTxSeq) ∧
      reqSeqOf (prepareCtrl c f b again) = f.nextSeqExpected ∧
      sarOf (prepareCtrl c f b again) = (if again then sarOf b.ctrl else sarOf b.layerSpecific) ∧
      prepareCtrl c f b again % 2 = 0 := by
  have hexp := f.nextSeqExpected.isLt
  cases again with
  | true =>
    have heven := he rfl
    simp only [prepareCtrl, hc, if_true, and_not_reqSeq]
    obtain ⟨fin, hfin, hctrl⟩ := prepared_ctrl (q := b.ctrl / 16384 % 4) (r := b.ctrl % 128)
      (e := f.nextSeqExpected) (Nat.mod_lt _ (by decide)) f.sendFRsp
    rw [show b.getU16 (b.offset + l2capPktOverhead) = b.ctrl from rfl, hctrl]
    refine ⟨by omega, Fin.ext ?_, Fin.ext ?_, sarOf_congr (by omega), by omega⟩
    · rw [txSeqOf_val, txSeqOf_val]
      omega
    · rw [reqSeqOf_val]
      omega
  | false =>
    have htx := f.nextTxSeq.isLt
    simp only [prepareCtrl, hc, if_true, Bool.false_eq_true, if_false, and_sarBits,
      Nat.shiftLeft_eq f.nextTxSeq.val]
    obtain ⟨fin, hfin, hctrl⟩ := prepared_ctrl (q := b.layerSpecific / 16384 % 4)
      (r := f.nextTxSeq.val * 2 ^ 1) (e := f.nextSeqExpected) (by omega) f.sendFRsp
    rw [hctrl]
    refine ⟨by omega, Fin.ext ?_, Fin.ext ?_, sarOf_congr (by omega), by omega⟩
    · rw [txSeqOf_val]
      omega
    · rw [reqSeqOf_val]
      omega

theorem prepareIFrame_spec (f : Fcrb) (again : Bool) (hlong : 6 ≤ b.len)
    (hin : b.offset + b.len ≤ b.data.length) (hshort : b.len + 2 < 65536)
    (hctrl : prepareCtrl c f b again < 65536) :
    Ensures IsOverrun (prepareIFrame c f b again) fun p =>
      p.1 = prepareFcrb c f again ∧ Sealed c b (prepareCtrl c f b again) p.2 := by
  unfold prepareIFrame
  refine Ensures.bind (sealFrame_spec c hlong hin hshort hctrl) ?_
  intro b' hb'
  exact ⟨rfl, hb'⟩

/-! ### Frames on the link -/

/-- The control word of a frame. -/
def frameCtrl (g : List UInt8) : Nat := rd16 g 4

/-- The segment in a frame that ends in `fcsLen` bytes of FCS. -/
def frameSeg (fcsLen : Nat) (g : List UInt8) : Seg :=
  ⟨sarOf (frameCtrl g), (g.drop 6).take (g.length - 6 - fcsLen)⟩

/-- `g` is an I-frame with these fields. -/
structure IsIFrame (fcsLen : Nat) (g : List UInt8) (tx req : SeqNum) (seg : Seg) : Prop where
  even : frameCtrl g % 2 = 0
  txSeq : txSeqOf (frameCtrl g) = tx
  reqSeq : reqSeqOf (frameCtrl g) = req
  seg : frameSeg fcsLen g = seg

/-- `g` is an S-frame with this ReqSeq. -/
structure IsSFrame (g : List UInt8) (req : SeqNum) : Prop where
  odd : frameCtrl g % 2 = 1
  reqSeq : reqSeqOf (frameCtrl g) = req

theorem Sealed.bytes_length {ctrl : Nat} (h : Sealed c b ctrl b') :
    b'.bytes.length = b.len + l2cuGetFcsLen c := by
  have h₁ := h.inside
  have h₂ := h.offset
  have h₃ := h.len
  rw [BtHdr.bytes_length (by omega), h₃]

/-- A sealed buffer, sent, is the I-frame that its control word says. -/
theorem Sealed.isIFrame {ctrl : Nat} (h : Sealed c b ctrl b') (hlong : 6 ≤ b.len)
    (heven : ctrl % 2 = 0) :
    IsIFrame (l2cuGetFcsLen c) b'.bytes (txSeqOf ctrl) (reqSeqOf ctrl) ⟨sarOf ctrl, b.info⟩ := by
  have hctrl : frameCtrl b'.bytes = ctrl := by
    rw [frameCtrl, BtHdr.bytes, rd16_take (by have := h.len; omega), rd16_drop]
    exact h.ctrl
  refine ⟨by rw [hctrl]; exact heven, by rw [hctrl], by rw [hctrl], ?_⟩
  have hk : b.len + l2cuGetFcsLen c - 6 - l2cuGetFcsLen c = b.len - 6 := by omega
  rw [frameSeg, hctrl, h.bytes_length, hk, ← h.info, BtHdr.bytes, List.drop_take, List.drop_drop,
    List.take_take, h.len, h.offset, min_eq_left (by omega)]

/-- What a receiver checks of a frame before it reads the control word. -/
structure FrameOk (fcsLen cid : Nat) (g : List UInt8) : Prop where
  long : 6 + fcsLen ≤ g.length
  length : rd16 g 0 = g.length - l2capPktOverhead
  cid : rd16 g 2 = cid
  fcs : fcsLen ≠ 0 → rd16 g (g.length - fcsLen) =
    l2cFcrUpdcrc l2capFcrInitCrc (g.take (g.length - fcsLen))

/-- A sealed buffer, sent, passes these checks. -/
theorem Sealed.frameOk {ctrl : Nat} (h : Sealed c b ctrl b') (hlong : 6 ≤ b.len) :
    FrameOk (l2cuGetFcsLen c) b.cid b'.bytes := by
  have hlen := h.bytes_length
  have hread : ∀ i, i + 2 ≤ b'.len → rd16 b'.bytes i = b'.getU16 (b.offset + i) := by
    intro i hi
    rw [BtHdr.bytes, rd16_take hi, rd16_drop, h.offset]
    rfl
  have htotal := h.len
  refine ⟨by omega, ?_, ?_, fun h0 => ?_⟩
  · rw [hread 0 (by omega), hlen, ← htotal]
    exact h.length
  · rw [hread 2 (by omega), ← h.cid, BtHdr.cid, h.offset]
  · have hfcs : l2cuGetFcsLen c = 2 := by
      unfold l2cuGetFcsLen at h0 ⊢
      split at h0
      next => exact absurd rfl h0
      next hcfg => exact if_neg hcfg
    rw [hlen, Nat.add_sub_cancel, hread b.len (by omega), h.fcs h0, BtHdr.bytes, List.take_take,
      min_eq_left (by omega), h.offset]

/-- The copy kept for retransmission holds the same I-frame, without the FCS. -/
theorem Sealed.clone {w : BtHdr} {ctrl : Nat} (h : Sealed c b ctrl b') (hlong : 6 ≤ b.len)
    (hshort : b.len + 2 < 65536) (heven : ctrl % 2 = 0) (newOffset ls ev : Nat)
    (hw : w = { event := ev, len := b.len, offset := newOffset, layerSpecific := ls,
                data := List.replicate newOffset 0 ++ (b'.data.drop b'.offset).take b'.len
                  ++ [0, 0] }) :
    HoldsIFrame w ∧ w.txSeq = txSeqOf ctrl ∧ w.seg = ⟨sarOf ctrl, b.info⟩ ∧ w.cid = b.cid := by
  have hin := h.inside
  have hlen := h.len
  -- the frame without its FCS
  let t : BtHdr := { b' with len := b.len }
  have ht : HoldsIFrame t := by
    refine ⟨hlong, ?_, hshort, ?_⟩
    · change b'.offset + b.len ≤ b'.data.length
      rw [h.offset]
      omega
    · change b'.ctrl % 2 = 0
      rw [h.ctrl, heven]
  have htseg : t.seg = ⟨sarOf ctrl, b.info⟩ := by
    change (⟨sarOf b'.ctrl, List.take (b.len - 6) (List.drop (b'.offset + 6) b'.data)⟩ : Seg) = _
    rw [h.ctrl, h.offset, h.info]
  have httx : t.txSeq = txSeqOf ctrl := by
    change txSeqOf b'.ctrl = _
    rw [h.ctrl]
  rw [← htseg, ← httx, ← h.cid]
  refine clone_same ht b'.len newOffset ls ev ?_ ?_ hw
  · change b.len ≤ b'.len
    omega
  · change b'.offset + b'.len ≤ b'.data.length
    rw [h.offset]
    exact hin

/-! ### Segmentation -/

/-- One segmentation step on the bytes `d` that are left of an SDU: the segment, and what is
left behind it. `started` tells whether a segment of the SDU went before. -/
def cutSeg (mps : Nat) (started : Bool) (d : List UInt8) : Seg × Option (List UInt8) :=
  if mps < d.length then
    if started then (⟨.cont, d.take mps⟩, some (d.drop mps))
    else (⟨.start, le16 d.length ++ d.take (mps - 2)⟩, some (d.drop (mps - 2)))
  else (⟨if started then .final else .unseg, d⟩, none)

/-- An SDU on `xmit_hold_q`: whether its segmentation has started, and its remaining bytes. -/
def BtHdr.pending (b : BtHdr) : Bool × List UInt8 := (b.event != 0, b.bytes)

/-- A buffer from which a segment can be cut: there is room for the headers and the FCS, and if
nothing is left behind the segment, its length with the headers fits sixteen bits. -/
structure Cuttable (b : BtHdr) (maxPdu : Nat) : Prop where
  headroom : 6 ≤ b.offset
  tailroom : b.offset + b.len + 2 ≤ b.data.length
  fields : b.offset < 65536 ∧ b.len < 65536
  last : b.len ≤ maxPdu → b.len + 10 < 65536
  flags : b.layerSpecific < 4

/-- A buffer on `xmit_hold_q`: an SDU as it was written, or what is left of one. -/
structure SduOk (b : BtHdr) : Prop where
  headroom : l2capMinOffset ≤ b.offset
  tailroom : b.offset + b.len + l2capFcsLen ≤ b.data.length
  addressable : b.data.length ≤ 65535
  flags : b.layerSpecific < 4

theorem SduBuf.ok (b : SduBuf) : SduOk b.toBtHdr := ⟨b.headroom, b.tailroom, b.addressable, b.flags⟩

theorem SduOk.room (h : SduOk b) :
    13 ≤ b.offset ∧ b.offset + b.len + 2 ≤ b.data.length ∧ b.data.length ≤ 65535 :=
  ⟨h.headroom, h.tailroom, h.addressable⟩

theorem SduOk.cuttable (h : SduOk b) (maxPdu : Nat) : Cuttable b maxPdu := by
  have hroom := h.room
  exact ⟨by omega, hroom.2.1, by omega, fun _ => by omega, h.flags⟩

theorem SduOk.bytes_length (h : SduOk b) : b.bytes.length = b.len := by
  have hroom := h.room
  exact BtHdr.bytes_length (by omega)

/-- How far a segment that is not the last takes the buffer. -/
def BtHdr.cutLen (b : BtHdr) (maxPdu : Nat) : Nat := if b.event == 0 then maxPdu - 2 else maxPdu

/-- The buffer that is left when a segment has been cut off. -/
def BtHdr.left (b : BtHdr) (maxPdu cid : Nat) : Option BtHdr :=
  if maxPdu < b.len then some (b.advance (b.cutLen maxPdu) cid) else none

theorem BtHdr.cutLen_le (h : maxPdu < b.len) : b.cutLen maxPdu ≤ b.len := by
  rw [cutLen]
  split <;> omega

theorem ChanCfg.localCid_ne_zero (c : ChanCfg) : c.localCid ≠ 0 := by
  have hdynamic : 64 ≤ c.localCid := c.dynamic
  omega

/-- If the offset does not wrap around, the bytes behind the segment are left. -/
theorem BtHdr.advance_pending {cid : Nat} (hn : n ≤ b.len) (hlen : b.len < 65536)
    (hoffset : b.offset + n < 65536) (hcid : cid ≠ 0) :
    (b.advance n cid).pending = (true, b.bytes.drop n) := by
  have he : (cid != 0) = true := bne_iff_ne.mpr hcid
  have hb : List.take (sub16 b.len n) (List.drop (u16 (b.offset + n)) b.data) = b.bytes.drop n := by
    rw [u16_of_lt hoffset, sub16_of_le hlen hn, BtHdr.bytes, List.drop_take, List.drop_drop]
  exact Prod.ext he hb

theorem SduOk.advance (h : SduOk b) (hn : n ≤ b.len) (cid : Nat) : SduOk (b.advance n cid) := by
  have hroom := h.room
  have hoffset : u16 (b.offset + n) = b.offset + n := u16_of_lt (by omega)
  have hlen : sub16 b.len n = b.len - n := sub16_of_le (by omega) hn
  refine ⟨?_, ?_, h.addressable, h.flags⟩
  · show 13 ≤ u16 (b.offset + n)
    omega
  · show u16 (b.offset + n) + sub16 b.len n + 2 ≤ b.data.length
    omega

/-- What is left of an SDU on `xmit_hold_q` when a segment has been cut off. -/
theorem SduOk.left (h : SduOk b) (maxPdu cid : Nat) : ∀ b' ∈ b.left maxPdu cid, SduOk b' := by
  intro b' hb'
  rw [BtHdr.left] at hb'
  split at hb'
  · cases hb'
    exact h.advance (BtHdr.cutLen_le (by assumption)) cid
  · cases hb'

theorem BtHdr.left_pending {cid : Nat} (hcid : cid ≠ 0) (hb : Cuttable b maxPdu)
    (hcursor : maxPdu < b.len → b.offset + b.cutLen maxPdu < 65536) :
    (b.left maxPdu cid).toList.map BtHdr.pending =
      ((cutSeg maxPdu b.pending.1 b.pending.2).2.map (Prod.mk true)).toList := by
  have hbytes : b.bytes.length = b.len := BtHdr.bytes_length (by have := hb.tailroom; omega)
  simp only [left, cutSeg, pending, hbytes]
  by_cases hlen : maxPdu < b.len
  · rw [if_pos hlen, if_pos hlen, Option.toList_some, List.map_cons, List.map_nil,
      advance_pending (cutLen_le hlen) hb.fields.2 (hcursor hlen) hcid, cutLen]
    by_cases hev : b.event = 0
    · simp [hev]
    · simp [hev]
  · rw [if_neg hlen, if_neg hlen]
    rfl

/-- What `cutSegment` guarantees about the buffer it cuts off. -/
structure CutOk (s : CutSegment) : Prop where
  headroom : (if s.sar = .start then 8 else 6) ≤ s.xmit.offset
  tailroom : s.xmit.offset + s.xmit.len + 2 ≤ s.xmit.data.length
  short : s.xmit.offset < 65536 ∧ s.xmit.len + 10 < 65536
  flags : s.xmit.layerSpecific < 4
  sduLen : s.sduLen < 65536

/-- The segment that a cut will send. -/
def CutSegment.seg (s : CutSegment) : Seg :=
  ⟨s.sar, (if s.sar = .start then le16 s.sduLen else []) ++ s.xmit.bytes⟩

/-- A cut made by cloning the first `n` bytes of an SDU. -/
theorem cutOk_clone (n sduLen cid : Nat) (sar : Sar) (hold : List BtHdr)
    (hflags : b.layerSpecific < 4) (hin : b.offset + n ≤ b.data.length) (hn : n ≤ b.len)
    (hsize : n + 15 + 10 < 65536) (hs : sduLen < 65536) {s : CutSegment} (h : s =
      { xmit :=
          { event := cid, len := n, offset := 15, layerSpecific := b.layerSpecific
            data := List.replicate 15 0 ++ (b.data.drop b.offset).take n ++ [0, 0] }
        hold := hold, sar := sar, sduLen := sduLen }) :
    CutOk s ∧ s.xmit.bytes = b.bytes.take n := by
  subst h
  refine ⟨⟨?_, ?_, ⟨?_, ?_⟩, hflags, hs⟩, ?_⟩
  · dsimp only
    split <;> decide
  · dsimp only
    rw [clone_data_length hin]
  · dsimp only
    omega
  · dsimp only
    omega
  · have hl : ((b.data.drop (b.offset + 0)).take (n - 0)).length = n := by
      rw [List.length_take, List.length_drop]
      omega
    change List.take n (List.drop (15 + 0) _) = _
    rw [drop_clone_data 0 hin (Nat.zero_le _), List.take_append_of_le_length hl.ge,
      List.take_take, BtHdr.bytes, List.take_take, min_eq_left (by omega), min_eq_left hn,
      Nat.add_zero]

/-- Segmentation of a buffer is segmentation of its bytes, whatever becomes of its offset. -/
theorem cutSegment_spec (rest : List BtHdr) (hb : Cuttable b maxPdu) :
    Ensures IsOverrun (cutSegment c b rest maxPdu) fun s =>
      CutOk s ∧
      s.seg = (cutSeg maxPdu b.pending.1 b.pending.2).1 ∧
      s.hold = (b.left maxPdu c.localCid).toList ++ rest := by
  have htail := hb.tailroom
  have hfields := hb.fields
  have hbytes : b.bytes.length = b.len := BtHdr.bytes_length (by omega)
  simp only [cutSegment, BtHdr.pending, BtHdr.left, BtHdr.cutLen, cutSeg, hbytes,
    l2capSduLenOverhead]
  by_cases hlen : b.len > maxPdu
  · rw [if_pos hlen, if_pos hlen, if_pos hlen]
    refine Ensures.bind (cloneBuf_spec _ _ _) ?_
    rintro _ ⟨hsize, hin, rfl⟩
    simp only [l2capMinOffset, l2capSduLenOffset] at hsize hin ⊢
    by_cases hev : b.event = 0
    · simp only [hev, BEq.rfl, if_true, bne_self_eq_false, Bool.false_eq_true, if_false]
        at hsize hin ⊢
      -- an MPS below two would have made the clone overrun
      have h2 : 2 ≤ maxPdu := by
        by_contra hlt
        have : sub16 maxPdu 2 + 10 ≥ 65536 - 2 := by
          unfold sub16
          omega
        omega
      have hsub : sub16 maxPdu 2 = maxPdu - 2 := sub16_of_le (by omega) h2
      rw [hsub] at hsize hin ⊢
      obtain ⟨hok, hcut⟩ := cutOk_clone (maxPdu - 2) b.len c.localCid .start
        (b.advance (maxPdu - 2) c.localCid :: rest) hb.flags hin (by omega) hsize hfields.2 rfl
      refine ⟨hok, ?_, rfl⟩
      rw [CutSegment.seg, hcut, if_pos rfl]
    · have hbeq : (b.event == 0) = false := beq_eq_false_iff_ne.mpr hev
      have hbne : (b.event != 0) = true := bne_iff_ne.mpr hev
      simp only [hbeq, hbne, Bool.false_eq_true, if_false, if_true] at hsize hin ⊢
      obtain ⟨hok, hcut⟩ := cutOk_clone maxPdu 0 c.localCid .cont
        (b.advance maxPdu c.localCid :: rest) hb.flags hin (by omega) hsize (by omega) rfl
      exact ⟨hok, congrArg (Seg.mk .cont) hcut, rfl⟩
  · rw [if_neg hlen, if_neg hlen, if_neg hlen]
    have hsar : (if b.event ≠ 0 then Sar.final else Sar.unseg) ≠ .start := by
      split <;> decide
    refine ⟨⟨?_, htail, ⟨hfields.1, hb.last (not_lt.mp hlen)⟩, hb.flags, Nat.zero_lt_succ _⟩, ?_,
      rfl⟩
    · dsimp only
      rw [if_neg hsar]
      exact hb.headroom
    · rw [CutSegment.seg]
      dsimp only
      rw [if_neg hsar, List.nil_append]
      simp only [bne_iff_ne, ne_eq]
      rfl

/-- The frame with its header, before `prepare_I_frame`. -/
structure Headed (s : CutSegment) (b : BtHdr) : Prop where
  long : 6 ≤ b.len
  inside : b.offset + b.len + 2 ≤ b.data.length
  short : b.len + 2 < 65536
  sar : sarOf b.layerSpecific = s.sar
  info : b.info = s.seg.info
  cid : c.remoteCid < 65536 → b.cid = c.remoteCid

theorem addHeader_spec {s : CutSegment} (hs : CutOk s) :
    Ensures IsOverrun (addHeader c s) (Headed c s) := by
  obtain ⟨hhead, htail, hshort, hflags, hsdu⟩ := hs
  simp only [addHeader, l2capPktOverhead, l2capFcrOverhead, l2capSduLenOverhead]
  by_cases hst : s.sar = .start
  · rw [if_pos hst] at hhead
    have ho : sub16 (sub16 s.xmit.offset (4 + 2)) 2 = s.xmit.offset - 8 := by
      rw [sub16_of_le (a := s.xmit.offset) (by omega) (by omega), sub16_of_le (by omega) (by omega)]
      omega
    have hl : u16 (u16 (s.xmit.len + (4 + 2)) + 2) = s.xmit.len + 8 := by
      rw [u16_of_lt (n := s.xmit.len + (4 + 2)) (by omega), u16_of_lt (by omega)]
    simp only [hst, if_true, ho, hl]
    refine Ensures.bind (putU16_spec _ _ _) ?_
    rintro _ ⟨-, rfl⟩
    refine Ensures.bind (putU16_spec _ _ _) ?_
    rintro _ ⟨-, rfl⟩
    refine Ensures.bind (putU16_spec _ _ _) ?_
    rintro _ ⟨-, rfl⟩
    refine ⟨?_, ?_, ?_, ?_, ?_, fun hcid => ?_⟩
    · dsimp only
      omega
    · simp only [wr16_length]
      omega
    · dsimp only
      omega
    · exact (sarOf_or_code hflags .start).trans hst.symm
    · -- the SDU length is written just before the payload
      have hlen : 2 ≤ (s.xmit.data.drop (s.xmit.offset - 8 + 6)).length := by
        rw [List.length_drop]
        omega
      change List.take (s.xmit.len + 8 - 6) (List.drop (s.xmit.offset - 8 + 6)
        (wr16 (wr16 (wr16 s.xmit.data (s.xmit.offset - 8) _) (s.xmit.offset - 8 + 2) _)
          (s.xmit.offset - 8 + 6) s.sduLen)) = _
      rw [drop_wr16 le_rfl, Nat.sub_self, drop_wr16_of_le (by omega), drop_wr16_of_le (by omega),
        wr16_zero hlen, List.drop_drop, show s.xmit.len + 8 - 6 = 2 + s.xmit.len by omega,
        List.take_append, List.take_of_length_le (by simp), le16_length,
        Nat.add_sub_cancel_left, CutSegment.seg, if_pos hst, BtHdr.bytes,
        show s.xmit.offset - 8 + 6 + 2 = s.xmit.offset by omega]
    · change rd16 (wr16 (wr16 (wr16 s.xmit.data (s.xmit.offset - 8) _) (s.xmit.offset - 8 + 2) _)
        (s.xmit.offset - 8 + 6) _) (s.xmit.offset - 8 + 2) = _
      rw [rd16_wr16_of_ne (by omega), rd16_wr16_self (by rw [wr16_length]; omega) hcid]
  · rw [if_neg hst] at hhead
    have ho : sub16 s.xmit.offset (4 + 2) = s.xmit.offset - 6 := sub16_of_le (by omega) (by omega)
    have hl : u16 (s.xmit.len + (4 + 2)) = s.xmit.len + 6 := u16_of_lt (by omega)
    simp only [hst, if_false, ho, hl]
    refine Ensures.bind (putU16_spec _ _ _) ?_
    rintro _ ⟨-, rfl⟩
    refine Ensures.bind (putU16_spec _ _ _) ?_
    rintro _ ⟨-, rfl⟩
    refine ⟨?_, ?_, ?_, ?_, ?_, fun hcid => ?_⟩
    · dsimp only
      omega
    · simp only [wr16_length]
      omega
    · dsimp only
      omega
    · exact sarOf_or_code hflags s.sar
    · change List.take (s.xmit.len + 6 - 6) (List.drop (s.xmit.offset - 6 + 6)
        (wr16 (wr16 s.xmit.data (s.xmit.offset - 6) _) (s.xmit.offset - 6 + 2) _)) = _
      rw [drop_wr16_of_le (by omega), drop_wr16_of_le (by omega), CutSegment.seg, if_neg hst,
        List.nil_append, BtHdr.bytes, Nat.add_sub_cancel,
        show s.xmit.offset - 6 + 6 = s.xmit.offset by omega]
    · change rd16 (wr16 (wr16 s.xmit.data (s.xmit.offset - 6) _) (s.xmit.offset - 6 + 2) _)
        (s.xmit.offset - 6 + 2) = _
      rw [rd16_wr16_self (by rw [wr16_length]; omega) hcid]

/-! ### S-frames -/

theorem sFrameCtrl_fields (sup : Sup) (e : SeqNum) {pf : Nat}
    (hpf : pf = 0 ∨ pf = pBit ∨ pf = fBit) :
    let ctrl := (sup.code <<< 2) ||| sFrameBit ||| (e.val <<< 8) ||| pf
    ctrl < 65536 ∧ ctrl % 2 = 1 ∧ reqSeqOf ctrl = e := by
  have he := e.isLt
  -- the function code, the S bit and the P/F bit fill the low byte
  have hlow : ∃ r < 256, r % 2 = 1 ∧ (sup.code <<< 2) ||| sFrameBit ||| pf = r := by
    rcases hpf with rfl | rfl | rfl <;> cases sup <;> exact ⟨_, by decide, by decide, rfl⟩
  obtain ⟨r, hr, hodd, hlow⟩ := hlow
  have hctrl : (sup.code <<< 2) ||| sFrameBit ||| (e.val <<< 8) ||| pf = 256 * e.val + r := by
    rw [Nat.or_assoc, Nat.or_comm (e.val <<< 8), ← Nat.or_assoc, hlow]
    have := or_reqSeq (q := 0) he hr
    simpa using this
  dsimp only
  rw [hctrl]
  refine ⟨by omega, by omega, Fin.ext ?_⟩
  rw [reqSeqOf_val]
  omega

end BluetoothStack.L2cap
