import BluetoothStack.Lib.Chunks
import BluetoothStack.L2cap.Frames
import BluetoothStack.L2cap.Lcc

/-!
# BluetoothStack.L2cap.LccTransfer

Segmentation and reassembly on LE credit-based channels.

The receiver puts together exactly the bytes that the sender takes out of the SDU's buffer,
for every MPS and every list of SDUs (`lccTransfer_sdu`). Those bytes are the SDU unless a
sixteen-bit field of the sender wraps around, which happens in two places.

* `l2c_fcr_clone_buf` computes the size of a PDU's block in sixteen bits. If it wraps, the
  block is too small and the copy runs over its end.
* The position of the next PDU is `p_buf->offset`. If it wraps, the PDU is cut from the
  front of the buffer.

`lccFits` says that neither happens, and `lcc_transparent_iff` that the transfer is
transparent exactly then.
-/

namespace BluetoothStack.L2cap

open BluetoothStack.Lib

/-- A PDU on the link. -/
def lccFrame (cid : Nat) (payload : List UInt8) : List UInt8 :=
  le16 payload.length ++ le16 cid ++ payload

/-! ### The sender -/

variable {b : BtHdr} {n : Nat} {s : List UInt8} {L k : Nat} {q : List BtHdr} (r : LccRx)

theorem cloneBuf_ok {newOffset : Nat} (hsize : n + newOffset + 10 < 65536)
    (hin : b.offset + n ≤ b.data.length) : l2cFcrCloneBuf b newOffset n = .ok
      { len := n, offset := newOffset
        data := List.replicate newOffset 0 ++ slice b.data b.offset n ++ [0, 0] } := by
  have hu : u16 (n + btHdrSize + newOffset + l2capFcsLen) = n + 8 + newOffset + 2 :=
    u16_of_lt (by simp only [btHdrSize, l2capFcsLen]; omega)
  simp only [l2cFcrCloneBuf, hu, btHdrSize, l2capFcsLen]
  rw [if_pos ⟨by omega, hin⟩, show n + 8 + newOffset + 2 - 8 - newOffset - n = 2 by omega]
  rfl

/-- A clone whose size wraps around. -/
theorem cloneBuf_overrun {newOffset : Nat} (hsize : 65536 ≤ n + newOffset + 10) :
    l2cFcrCloneBuf b newOffset n = .error .overrun := by
  have hu : ¬ btHdrSize + newOffset + n ≤ u16 (n + btHdrSize + newOffset + l2capFcsLen) := by
    simp only [btHdrSize, l2capFcsLen, u16]
    omega
  simp only [l2cFcrCloneBuf]
  rw [if_neg fun h => hu h.1]

theorem putU16_ok {i v : Nat} (h : i + 2 ≤ b.data.length) :
    b.putU16 i v = .ok { b with data := wr16 b.data i v } := by
  rw [BtHdr.putU16, if_pos h]

variable {ct : LccTxCfg} {cr : LccRxCfg}

/-- A PDU's block before its header is written. -/
def lccBlock (event layerSpecific : Nat) (payload : List UInt8) : BtHdr where
  event := event
  len := payload.length
  offset := 13
  layerSpecific := layerSpecific
  data := List.replicate 13 0 ++ payload ++ [0, 0]

/-- The header goes into the bytes in front of the payload. -/
theorem addLccHeader_ok (ct : LccTxCfg) (event layerSpecific : Nat) (hs : s.length + 4 < 65536) :
    ∃ x, addLccHeader ct (lccBlock event layerSpecific s) = .ok x ∧
      x.bytes = lccFrame ct.remoteCid s := by
  have hlong : 13 ≤ (List.replicate 13 (0 : UInt8) ++ s ++ [0, 0]).length := by
    rw [List.append_assoc, List.length_append, List.length_replicate]
    exact Nat.le_add_right _ _
  simp only [addLccHeader, lccBlock, l2capPktOverhead, u16_of_lt hs, show sub16 13 4 = 9 from rfl]
  rw [putU16_ok (by dsimp only; omega), ok_bind, putU16_ok (by dsimp only; rw [wr16_length]; omega)]
  refine ⟨_, rfl, ?_⟩
  simp only [BtHdr.bytes, Nat.add_sub_cancel]
  rw [drop_wr16 (by decide), drop_wr16 (by decide)]
  change (le16 s.length ++ le16 ct.remoteCid ++ (s ++ [0, 0])).take (s.length + 4) = _
  rw [← List.append_assoc, lccFrame]
  refine List.take_left' ?_
  rw [List.length_append, List.length_append, le16_length, le16_length]
  omega

/-- The SDU length goes in front of the bytes of the first PDU. -/
theorem addSduLength_ok (L : Nat) (hn : n = s.length) (hs : s.length + 2 < 65536) :
    addSduLength { len := n, offset := 15, data := List.replicate 15 0 ++ s ++ [0, 0] } L
      = .ok (lccBlock 0 0 (le16 L ++ s)) := by
  have hlong : 15 ≤ (List.replicate 15 (0 : UInt8) ++ s ++ [0, 0]).length := by
    rw [List.append_assoc, List.length_append, List.length_replicate]
    exact Nat.le_add_right _ _
  have hlen : u16 (n + 2) = (le16 L ++ s).length := by
    rw [hn, u16_of_lt hs, List.length_append, le16_length, Nat.add_comm]
  simp only [addSduLength, l2capLccSduLength, show sub16 15 2 = 13 from rfl]
  rw [putU16_ok (by dsimp only; omega), ok_bind, hlen]
  rfl

/-- How many bytes of an SDU the first and every further PDU can carry. -/
abbrev LccTxCfg.firstWidth (ct : LccTxCfg) : Nat := ct.peerMps - 6

abbrev LccTxCfg.nextWidth (ct : LccTxCfg) : Nat := ct.peerMps - 4

/-- The rest of an SDU of which `n` bytes have been sent. -/
def BtHdr.sentOn (b : BtHdr) (cid n : Nat) : BtHdr :=
  { b with event := cid, len := b.len - n, offset := u16 (b.offset + n) }

/-- The peer's MPS is in the range that `validate_l2cap_params` allows. -/
structure LccTxCfg.Valid (ct : LccTxCfg) : Prop where
  min : l2capLeMinMps ≤ ct.peerMps
  max : ct.peerMps ≤ l2capLeMaxMps

/-- An SDU in its buffer. -/
structure SduIn (b : BtHdr) : Prop where
  len : b.len < 65536
  inside : b.offset + b.len ≤ b.data.length

/-- What is left of an SDU is still in its buffer. -/
theorem SduIn.sentOn (hb : SduIn b) (cid : Nat) (hn : n ≤ b.len) : SduIn (b.sentOn cid n) := by
  have hlen := hb.len
  have hin := hb.inside
  have hle : u16 (b.offset + n) ≤ b.offset + n := Nat.mod_le _ _
  refine ⟨?_, ?_⟩ <;> simp only [BtHdr.sentOn] <;> omega

theorem LccTxCfg.Valid.widths (h : ct.Valid) :
    sub16 ct.peerMps 4 = ct.nextWidth ∧ sub16 (sub16 ct.peerMps 4) 2 = ct.firstWidth ∧
      17 ≤ ct.firstWidth ∧ ct.nextWidth = ct.firstWidth + 2 ∧ ct.nextWidth < 65530 := by
  have hmin := h.min
  have hmax := h.max
  rw [l2capLeMinMps] at hmin
  rw [l2capLeMaxMps] at hmax
  have h₁ : sub16 ct.peerMps 4 = ct.peerMps - 4 := sub16_of_le (by omega) (by omega)
  have h₂ : sub16 (ct.peerMps - 4) 2 = ct.peerMps - 6 := by
    rw [sub16_of_le (by omega) (by omega)]
    omega
  refine ⟨h₁, by rw [h₁, h₂], ?_, ?_, ?_⟩ <;> simp only [LccTxCfg.firstWidth, LccTxCfg.nextWidth]
    <;> omega

theorem nextSeg_first (hv : ct.Valid) (hb : SduIn b) (hev : b.event = 0) (rest : List BtHdr)
    (hn : n = min b.len ct.firstWidth) (hsize : n + 25 < 65536) :
    ∃ x last, l2cLccGetNextXmitSduSeg ct (b :: rest)
        = .ok (x, last, if n = b.len then rest else b.sentOn ct.localCid n :: rest) ∧
      x.bytes = lccFrame ct.remoteCid (le16 b.len ++ slice b.data b.offset n) := by
  obtain ⟨hnext, hfirst, -, -, -⟩ := hv.widths
  have hle : n ≤ b.len := hn ▸ min_le_left _ _
  have hin := hb.inside
  have hs : (slice b.data b.offset n).length = n := slice_length (by omega)
  obtain ⟨x, hx, hbytes⟩ := addLccHeader_ok ct ct.localCid b.layerSpecific
    (s := le16 b.len ++ slice b.data b.offset n)
      (by rw [List.length_append, le16_length, hs]; omega)
  refine ⟨x, n == b.len, ?_, hbytes⟩
  simp only [l2cLccGetNextXmitSduSeg, hev, beq_self_eq_true, if_true, l2capPktOverhead,
    l2capLccSduLength, l2capLccOffset, l2capMinOffset, hfirst, ← hn]
  rw [cloneBuf_ok (by omega) (by omega), ok_bind, addSduLength_ok b.len hs.symm (by omega), ok_bind]
  simp only [lccBlock] at hx ⊢
  simp only [hx, ok_bind, sub16_of_le hb.len hle, beq_iff_eq]
  rfl

theorem nextSeg_next (hv : ct.Valid) (hb : SduIn b) (hev : b.event = ct.localCid)
    (rest : List BtHdr) (hn : n = min b.len ct.nextWidth) (hsize : n + 23 < 65536) :
    ∃ x last, l2cLccGetNextXmitSduSeg ct (b :: rest)
        = .ok (x, last, if n = b.len then rest else b.sentOn ct.localCid n :: rest) ∧
      x.bytes = lccFrame ct.remoteCid (slice b.data b.offset n) := by
  obtain ⟨hnext, -, -, -, -⟩ := hv.widths
  have hle : n ≤ b.len := hn ▸ min_le_left _ _
  have hin := hb.inside
  have hs : (slice b.data b.offset n).length = n := slice_length (by omega)
  have hcid : (b.event == 0) = false := by
    have hdyn : 64 ≤ ct.localCid := ct.dynamic
    rw [beq_eq_false_iff_ne, hev]
    omega
  obtain ⟨x, hx, hbytes⟩ := addLccHeader_ok ct ct.localCid b.layerSpecific
    (s := slice b.data b.offset n) (by omega)
  refine ⟨x, n == b.len, ?_, hbytes⟩
  simp only [l2cLccGetNextXmitSduSeg, hcid, Bool.false_eq_true, if_false, l2capPktOverhead,
    l2capMinOffset, hnext, ← hn]
  rw [cloneBuf_ok (by omega) (by omega), ok_bind]
  simp only [lccBlock, hs] at hx
  simp only [pure_bind, hx, ok_bind, sub16_of_le hb.len hle, beq_iff_eq]
  rfl

/-- The first PDU of an SDU, when the size of its block wraps around. -/
theorem nextSeg_overrun (hv : ct.Valid) (hev : b.event = 0) (rest : List BtHdr)
    (hsize : 65536 ≤ min b.len ct.firstWidth + 25) :
    l2cLccGetNextXmitSduSeg ct (b :: rest) = .error .overrun := by
  obtain ⟨-, hfirst, -, -, -⟩ := hv.widths
  simp only [l2cLccGetNextXmitSduSeg, hev, beq_self_eq_true, if_true, l2capPktOverhead,
    l2capLccSduLength, l2capLccOffset, l2capMinOffset, hfirst]
  rw [cloneBuf_overrun (by omega), error_bind]

/-! ### The receiver -/

/-- A receiver that has `acc` of an SDU of `L` bytes. -/
def LccRx.inside (ds : List (List UInt8)) (L : Nat) (acc : List UInt8) : LccRx where
  isOpen := true
  isFirstSeg := false
  bleSdu := some
    { len := acc.length, offset := 0, data := acc ++ List.replicate (L - acc.length) 0 }
  bleSduLength := L
  delivered := ds

/-- A receiver that has `acc` of an SDU of `L` bytes, if these are not all. -/
def LccRx.collected (ds : List (List UInt8)) (L : Nat) (acc : List UInt8) : LccRx :=
  if acc.length = L then .idle (ds ++ [acc]) else .inside ds L acc

theorem blit_room {acc : List UInt8} (hfit : acc.length + s.length ≤ L) :
    blit (acc ++ List.replicate (L - acc.length) 0) (0 + acc.length) s
      = (acc ++ s) ++ List.replicate (L - (acc ++ s).length) 0 := by
  rw [blit, Nat.zero_add, List.take_left, List.drop_append, List.drop_eq_nil_of_le (by omega),
    List.nil_append, List.drop_replicate, List.length_append]
  congr 2
  omega

theorem lccAppend_ok (acc : List UInt8) {r : LccRx} (hopen : r.isOpen = true)
    (hin : b.offset + b.len ≤ b.data.length) (hfit : acc.length + b.len ≤ r.bleSduLength)
    (hL : r.bleSduLength < 65536) :
    lccAppend r { len := acc.length, offset := 0,
                  data := acc ++ List.replicate (r.bleSduLength - acc.length) 0 } b
      = .ok (.collected r.delivered r.bleSduLength (acc ++ b.bytes)) := by
  have hlen : b.bytes.length = b.len := BtHdr.bytes_length hin
  have hroom : (acc ++ List.replicate (r.bleSduLength - acc.length) (0 : UInt8)).length
      = r.bleSduLength := by
    rw [List.length_append, List.length_replicate]
    omega
  have hu : u16 (acc.length + b.len) = (acc ++ b.bytes).length := by
    rw [List.length_append, hlen, u16_of_lt (by omega)]
  have hall : (acc ++ b.bytes).length ≤ r.bleSduLength := by
    rw [List.length_append, hlen]
    exact hfit
  simp only [lccAppend]
  rw [if_pos ⟨by omega, hin⟩, blit_room (hlen ▸ hfit), hu, LccRx.collected]
  obtain ⟨isOpen, isFirstSeg, bleSdu, bleSduLength, delivered⟩ := r
  dsimp only at hopen hall ⊢
  subst hopen
  by_cases hfull : (acc ++ b.bytes).length = bleSduLength
  · rw [if_pos hfull, if_pos hfull]
    simp only [BtHdr.bytes, List.drop_zero, LccRx.idle]
    rw [List.take_left]
  · rw [if_neg hfull, if_neg hfull, if_pos (by omega)]
    rfl

/-- The buffer in which a PDU reaches `l2c_lcc_proc_pdu`. -/
theorem rcv_lccFrame (s : List UInt8) (hcid : cr.localCid < 65536) (hs : s.length < 65536) :
    ∃ b : BtHdr, lccRcvAclData cr r (lccFrame cr.localCid s) = l2cLccProcPdu cr r b ∧
      b.len = s.length ∧ b.offset = 8 ∧ b.data.length = 8 + s.length ∧ b.data.drop 8 = s := by
  have hlen : (lccFrame cr.localCid s).length = s.length + 4 := by
    simp only [lccFrame, List.length_append, le16_length]
    omega
  have hdrop : (lccFrame cr.localCid s).drop 2 = le16 cr.localCid ++ s := rfl
  have h₂ : rd16 (lccFrame cr.localCid s) 2 = cr.localCid := rd16_of_drop hdrop hcid
  have h₀ : rd16 (lccFrame cr.localCid s) 0 = s.length := by
    rw [lccFrame, List.append_assoc, rd16_le16_append hs]
  refine ⟨{ len := s.length, offset := 8, data := List.replicate 4 0 ++ lccFrame cr.localCid s },
    ?_, rfl, rfl, ?_, rfl⟩
  · simp only [lccRcvAclData, l2capPktOverhead, hlen, h₂, h₀, Nat.add_sub_cancel]
    rw [if_neg (by omega), if_neg (by simp), if_neg (by simp)]
  · simp only [List.length_append, List.length_replicate, hlen]
    omega

/-- What the receiver needs: its ids and limits, and its MPS is what the sender was told. -/
structure LccRxCfg.Accepts (cr : LccRxCfg) (ct : LccTxCfg) : Prop where
  cid : ct.remoteCid = cr.localCid
  cidLt : cr.localCid < 65536
  mps : cr.mps = ct.peerMps
  mtu : cr.mtu < 65536

theorem lccRcv_first (hv : ct.Valid) (hacc : cr.Accepts ct) (ds : List (List UInt8))
    (hL : L ≤ cr.mtu) (hs : s.length ≤ L) (hw : s.length ≤ ct.firstWidth) :
    lccRcvAclData cr (.idle ds) (lccFrame ct.remoteCid (le16 L ++ s)) =
      .ok (.collected ds L s) := by
  obtain ⟨-, -, hmin, hnext, hmax⟩ := hv.widths
  have hmtu := hacc.mtu
  have hlen2 : (le16 L ++ s).length = s.length + 2 := by
    rw [List.length_append, le16_length, Nat.add_comm]
  obtain ⟨b, hrcv, hlen, hoff, hdata, hdrop⟩ :=
    rcv_lccFrame (.idle ds) (le16 L ++ s) hacc.cidLt (by omega)
  have hsmall : ¬ b.len > if cr.fixFirst && (LccRx.idle ds).isFirstSeg
      then u16 (cr.mps + l2capLccSduLength) else cr.mps := by
    have hfit : b.len ≤ cr.mps := by
      rw [hlen, hlen2, hacc.mps]
      simp only [LccTxCfg.firstWidth] at hw hmin
      omega
    rw [not_lt]
    split
    · rw [l2capLccSduLength,
        u16_of_lt (by rw [hacc.mps]; simp only [LccTxCfg.nextWidth] at hmax; omega)]
      omega
    · exact hfit
  have hsdu : b.getU16 b.offset = L := by
    rw [BtHdr.getU16, hoff, rd16_of_drop hdrop (by omega)]
  have hpay : sub16 b.len 2 = s.length ∧ u16 (b.offset + 2) = 10 := by
    rw [hlen, hlen2, hoff, sub16_of_le (by omega) (by omega)]
    exact ⟨rfl, rfl⟩
  rw [hacc.cid, hrcv, l2cLccProcPdu]
  rw [if_neg hsmall, if_pos (show (LccRx.idle ds).isFirstSeg = true from rfl)]
  simp only [lccFirst, lccStart, l2capLccSduLength, hsdu, hpay.1, hpay.2]
  rw [if_neg (by omega), if_neg (by omega), if_neg (by omega)]
  -- the rest of the buffer, behind the SDU length
  have hbytes : ({ b with len := s.length, offset := 10 } : BtHdr).bytes = s := by
    change (b.data.drop 10).take s.length = s
    rw [show 10 = 8 + 2 from rfl, ← List.drop_drop, hdrop]
    exact List.take_length
  have happ := lccAppend_ok []
    (r := { LccRx.idle ds with
      bleSdu := some { len := 0, offset := 0, data := List.replicate L 0 }, bleSduLength := L })
    (b := { b with len := s.length, offset := 10 }) rfl (by dsimp only; omega)
    (by simpa using hs) (by dsimp only; omega)
  rw [hbytes] at happ
  exact happ

theorem lccRcv_next (hacc : cr.Accepts ct) (ds : List (List UInt8)) (acc : List UInt8)
    (hL : L ≤ cr.mtu) (hs : acc.length + s.length ≤ L) (hw : s.length ≤ ct.nextWidth) :
    lccRcvAclData cr (.inside ds L acc) (lccFrame ct.remoteCid s)
      = .ok (.collected ds L (acc ++ s)) := by
  have hmtu := hacc.mtu
  obtain ⟨b, hrcv, hlen, hoff, hdata, hdrop⟩ :=
    rcv_lccFrame (.inside ds L acc) s hacc.cidLt (by omega)
  have hsmall : ¬ b.len > cr.mps := by
    rw [hlen, hacc.mps]
    simp only [LccTxCfg.nextWidth] at hw
    omega
  have hbytes : b.bytes = s := by
    rw [BtHdr.bytes, hoff, hdrop, hlen, List.take_length]
  rw [hacc.cid, hrcv, l2cLccProcPdu]
  simp only [LccRx.inside, Bool.and_false, Bool.false_eq_true, if_false, hsmall]
  simp only [lccNext]
  rw [if_neg (by omega)]
  have happ := lccAppend_ok acc (r := .inside ds L acc) (b := b) rfl (by omega)
    (by rw [hlen]; exact hs) (by simp only [LccRx.inside]; omega)
  rw [hbytes] at happ
  exact happ

/-! ### One SDU -/

theorem lccTransfer_succ {q' : List BtHdr} {r r' : LccRx} {x : BtHdr} {last : Bool}
    (hseg : l2cLccGetNextXmitSduSeg ct q = .ok (x, last, q'))
    (hrcv : lccRcvAclData cr r x.bytes = .ok r') :
    lccTransfer ct cr (k + 1) q r = lccTransfer ct cr k q' r' := by
  rw [lccTransfer, hseg, ok_bind]
  dsimp only
  rw [hrcv, ok_bind]

/-- The rest of an SDU, from its second PDU on. -/
theorem lccTransfer_rest (hv : ct.Valid) (hacc : cr.Accepts ct) (ds : List (List UInt8))
    (hL : L ≤ cr.mtu) (rest : List BtHdr) (hsize : ct.nextWidth + 23 < 65536 ∨ L + 23 < 65536)
    (acc : List UInt8) {m : Nat} (hb : SduIn b) (hev : b.event = ct.localCid) (hm : b.len = m)
    (hpos : 0 < m) (htotal : acc.length + m = L) :
    ∃ k, lccTransfer ct cr k (b :: rest) (.inside ds L acc) = .ok (rest,
      .idle (ds ++ [acc ++ readChunks ct.nextWidth ct.nextWidth b.data b.offset m])) := by
  obtain ⟨-, -, hmin, hnext, -⟩ := hv.widths
  induction m using Nat.strong_induction_on generalizing b acc with
  | _ m ih =>
    have hin := hb.inside
    have hlen := hb.len
    obtain ⟨n, hn⟩ : ∃ n, n = min b.len ct.nextWidth := ⟨_, rfl⟩
    have hs : (slice b.data b.offset n).length = n := slice_length (by omega)
    obtain ⟨x, last, hseg, hx⟩ := nextSeg_next hv hb hev rest hn (by omega)
    have hrcv := lccRcv_next hacc ds acc (s := slice b.data b.offset n) hL (by omega)
      (by omega)
    rw [← hx] at hrcv
    by_cases hlast : m ≤ ct.nextWidth
    · -- the last PDU completes the SDU
      have hnm : n = m := by omega
      refine ⟨1, ?_⟩
      rw [lccTransfer_succ hseg hrcv, if_pos (by omega), readChunks_le hlast, hnm, LccRx.collected,
        if_pos (by rw [List.length_append, ← hnm, hs]; omega)]
      rfl
    · have hnm : n = ct.nextWidth := by omega
      have hb' : SduIn (b.sentOn ct.localCid n) := hb.sentOn _ (by omega)
      have hlen' : (acc ++ slice b.data b.offset n).length = acc.length + n := by
        rw [List.length_append, hs]
      obtain ⟨k, hk⟩ := ih (m - n) (by omega) (acc ++ slice b.data b.offset n) hb' rfl
        (by simp only [BtHdr.sentOn]; omega) (by omega) (by omega)
      have hread : readChunks ct.nextWidth ct.nextWidth b.data b.offset m
          = slice b.data b.offset n
            ++ readChunks ct.nextWidth ct.nextWidth b.data (u16 (b.offset + n)) (m - n) := by
        rw [hnm]
        exact readChunks_gt (by omega) (by omega)
      refine ⟨k + 1, ?_⟩
      rw [lccTransfer_succ hseg hrcv, if_neg (by omega), LccRx.collected, if_neg (by omega), hk,
        hread, List.append_assoc]
      rfl

/-- The bytes that the sender takes out of the buffer of an SDU. -/
def lccSent (ct : LccTxCfg) (b : BtHdr) : List UInt8 :=
  readChunks ct.firstWidth ct.nextWidth b.data b.offset b.len

/-- The blocks of all PDUs of an SDU of `L` bytes are of the size asked for. -/
def LccTxCfg.blocksFit (ct : LccTxCfg) (L : Nat) : Prop := ct.peerMps ≤ 65516 ∨ L ≤ 65510

/-- A whole SDU: the receiver gets what the sender took. -/
theorem lccTransfer_sdu (hv : ct.Valid) (hacc : cr.Accepts ct) (ds : List (List UInt8))
    (hb : SduIn b) (hev : b.event = 0) (hmtu : b.len ≤ cr.mtu) (hfit : ct.blocksFit b.len)
    (rest : List BtHdr) : ∃ k, lccTransfer ct cr k (b :: rest) (.idle ds)
      = .ok (rest, .idle (ds ++ [lccSent ct b])) := by
  obtain ⟨-, -, hmin, hnext, -⟩ := hv.widths
  have hin := hb.inside
  have hlen := hb.len
  have hwidth : ct.nextWidth + 23 < 65536 ∨ b.len + 25 < 65536 := by
    rcases hfit with h | h
    · left
      simp only [LccTxCfg.nextWidth]
      omega
    · right
      omega
  obtain ⟨n, hn⟩ : ∃ n, n = min b.len ct.firstWidth := ⟨_, rfl⟩
  have hs : (slice b.data b.offset n).length = n := slice_length (by omega)
  obtain ⟨x, last, hseg, hx⟩ := nextSeg_first hv hb hev rest hn (by omega)
  have hrcv := lccRcv_first hv hacc ds (s := slice b.data b.offset n) hmtu (by omega) (by omega)
  rw [← hx] at hrcv
  -- the first PDU is shorter by the SDU length it carries
  by_cases hone : b.len ≤ ct.firstWidth
  · have hnb : n = b.len := by omega
    refine ⟨1, ?_⟩
    rw [lccTransfer_succ hseg hrcv, if_pos hnb, lccSent, readChunks_le hone, hnb, LccRx.collected,
      if_pos (hnb ▸ hs)]
    rfl
  · have hnb : n = ct.firstWidth := by omega
    have hb' : SduIn (b.sentOn ct.localCid n) := hb.sentOn _ (by omega)
    obtain ⟨k, hk⟩ := lccTransfer_rest hv hacc ds hmtu rest (by omega) (slice b.data b.offset n) hb'
      rfl rfl (by simp only [BtHdr.sentOn]; omega) (by simp only [BtHdr.sentOn]; omega)
    have hread : lccSent ct b = slice b.data b.offset n
        ++ readChunks ct.nextWidth ct.nextWidth b.data (u16 (b.offset + n)) (b.len - n) := by
      rw [hnb]
      exact readChunks_gt (by omega) (by omega)
    refine ⟨k + 1, ?_⟩
    rw [lccTransfer_succ hseg hrcv, if_neg (by omega), LccRx.collected, if_neg (by omega), hk,
      hread]
    rfl

/-! ### Lists of SDUs -/

theorem lccTransfer_add (j k : Nat) (q : List BtHdr) (r : LccRx) :
    lccTransfer ct cr (j + k) q r
      = lccTransfer ct cr j q r >>= fun p => lccTransfer ct cr k p.1 p.2 := by
  induction j generalizing q r with
  | zero => rw [Nat.zero_add]; rfl
  | succ j ih =>
    rw [Nat.succ_add, lccTransfer, lccTransfer]
    cases l2cLccGetNextXmitSduSeg ct q with
    | error e => rfl
    | ok p =>
      simp only [ok_bind]
      cases lccRcvAclData cr r p.1.bytes with
      | error e => rfl
      | ok r' => simp only [ok_bind, ih]

theorem lccTransfer_nil {r : LccRx} {p : List BtHdr × LccRx}
    (h : lccTransfer ct cr k [] r = .ok p) : k = 0 ∧ p = ([], r) := by
  cases k with
  | zero => cases h; exact ⟨rfl, rfl⟩
  | succ k => cases h

/-- A transfer that empties the queue goes through every state that another transfer reaches. -/
theorem lccTransfer_through {j : Nat} {q' : List BtHdr} {r r' r'' : LccRx}
    (hj : lccTransfer ct cr j q r = .ok (q', r')) (hk : lccTransfer ct cr k q r = .ok ([], r'')) :
    ∃ i, lccTransfer ct cr i q' r' = .ok ([], r'') := by
  rcases le_total j k with hle | hle
  · obtain ⟨i, rfl⟩ := Nat.exists_eq_add_of_le hle
    rw [lccTransfer_add, hj, ok_bind] at hk
    exact ⟨i, hk⟩
  · obtain ⟨i, rfl⟩ := Nat.exists_eq_add_of_le hle
    rw [lccTransfer_add, hk, ok_bind] at hj
    obtain ⟨-, hend⟩ := lccTransfer_nil hj
    cases hend
    exact ⟨0, rfl⟩

theorem lccAppend_delivered (d b : BtHdr) :
    Ensures (fun _ => True) (lccAppend r d b) fun r' => r.delivered <+: r'.delivered := by
  unfold lccAppend
  split
  · dsimp only
    split
    · exact List.prefix_append _ _
    · split <;> exact List.prefix_rfl
  · trivial

theorem lccStart_delivered (L : Nat) (b : BtHdr) :
    Ensures (fun _ => True) (lccStart r L b) fun r' => r.delivered <+: r'.delivered := by
  unfold lccStart
  split
  · exact List.prefix_rfl
  · exact lccAppend_delivered _ _ _

theorem lccFirst_delivered (b : BtHdr) :
    Ensures (fun _ => True) (lccFirst cr r b) fun r' => r.delivered <+: r'.delivered := by
  unfold lccFirst
  split
  · exact List.prefix_rfl
  · split
    · exact List.prefix_rfl
    · generalize BtHdr.mk _ _ _ _ _ = b₁
      exact lccStart_delivered r _ b₁

theorem lccNext_delivered (b : BtHdr) :
    Ensures (fun _ => True) (lccNext r b) fun r' => r.delivered <+: r'.delivered := by
  unfold lccNext
  cases r.bleSdu with
  | none => exact List.prefix_rfl
  | some d =>
    dsimp only
    split
    · exact List.prefix_rfl
    · exact lccAppend_delivered _ _ _

theorem lccRcvAclData_delivered (g : List UInt8) :
    Ensures (fun _ => True) (lccRcvAclData cr r g) fun r' => r.delivered <+: r'.delivered := by
  unfold lccRcvAclData l2cLccProcPdu
  dsimp only
  generalize (if cr.fixFirst && r.isFirstSeg then u16 (cr.mps + l2capLccSduLength) else cr.mps) =
    mps
  split
  · exact List.prefix_rfl
  · split
    · exact List.prefix_rfl
    · split
      · exact List.prefix_rfl
      · split
        · exact List.prefix_rfl
        · split
          · exact lccFirst_delivered _ _
          · exact lccNext_delivered _ _

theorem lccTransfer_delivered {r : LccRx} {p : List BtHdr × LccRx}
    (h : lccTransfer ct cr k q r = .ok p) : r.delivered <+: p.2.delivered := by
  induction k generalizing q r with
  | zero => cases h; exact List.prefix_rfl
  | succ k ih =>
    obtain ⟨⟨x, last, q'⟩, -, h'⟩ := bind_eq_ok h
    obtain ⟨r', hrcv, hrest⟩ := bind_eq_ok h'
    exact ((lccRcvAclData_delivered r x.bytes).of_ok hrcv).trans (ih hrest)

/-- The place of an SDU in its buffer. -/
structure SduShape where
  offset : Nat
  len : Nat

/-- `b` holds an SDU of this shape that has not been started. -/
structure HasShape (b : BtHdr) (s : SduShape) : Prop where
  event : b.event = 0
  offset : b.offset = s.offset
  len : b.len = s.len
  inside : s.offset + s.len ≤ b.data.length

variable (ct cr) in
/-- Whatever the bytes of SDUs of these shapes, a receiver between SDUs delivers exactly them and
is between SDUs again. -/
def LccTransparent (shapes : List SduShape) : Prop :=
  ∀ bufs, List.Forall₂ HasShape bufs shapes → ∀ ds, ∃ k,
    lccTransfer ct cr k bufs (.idle ds) = .ok ([], .idle (ds ++ bufs.map BtHdr.bytes))

/-- No sixteen-bit field of the sender wraps around while an SDU of this shape is sent. -/
structure LccFits (ct : LccTxCfg) (s : SduShape) : Prop where
  blocks : ct.blocksFit s.len
  cursor : s.offset + lastChunk ct.firstWidth ct.nextWidth s.len < 65536

/-- Without wrap-around the sender takes the SDU out of its buffer. -/
theorem lccSent_eq (hv : ct.Valid)
    (h : b.offset + lastChunk ct.firstWidth ct.nextWidth b.len < 65536) :
    lccSent ct b = b.bytes := by
  obtain ⟨-, -, hmin, hnext, -⟩ := hv.widths
  exact readChunks_eq (by omega) (by omega) h

/-- An SDU of zeros, except at one position of the buffer. -/
def SduShape.marked (s : SduShape) (q : Nat) : BtHdr where
  len := s.len
  offset := s.offset
  data := (List.replicate (s.offset + s.len) 0).set q 1

theorem SduShape.marked_hasShape (s : SduShape) (q : Nat) : HasShape (s.marked q) s :=
  ⟨rfl, rfl, rfl, by simp [SduShape.marked]⟩

/-- With wrap-around some SDU of the shape is sent wrong. -/
theorem lccSent_ne (hv : ct.Valid) {s : SduShape} (hoff : s.offset < 65536)
    (h : 65536 ≤ s.offset + lastChunk ct.firstWidth ct.nextWidth s.len) :
    ∃ b, HasShape b s ∧ lccSent ct b ≠ b.bytes := by
  obtain ⟨-, -, hmin, hnext, hmax⟩ := hv.widths
  obtain ⟨q, hq, hend, hne⟩ := readChunks_ne (α := UInt8) (by omega) (by omega) (by omega)
    (by omega) hoff h
  refine ⟨s.marked q, s.marked_hasShape q, hne _ (by simp [SduShape.marked]) ?_⟩
  rw [SduShape.marked, List.getElem?_set_self (by simpa using hend),
    List.getElem?_set_ne (by omega), List.getElem?_replicate, if_pos (by omega)]
  decide

theorem HasShape.sduIn {s : SduShape} (h : HasShape b s) (hlen : s.len < 65536) : SduIn b :=
  ⟨h.len ▸ hlen, by rw [h.offset, h.len]; exact h.inside⟩

theorem marked_shapes (shapes : List SduShape) :
    List.Forall₂ HasShape (shapes.map (·.marked 0)) shapes := by
  induction shapes with
  | nil => exact .nil
  | cons s shapes ih => exact .cons (s.marked_hasShape 0) ih

/-- If no field wraps around, everything arrives. -/
theorem lccTransfer_all (hv : ct.Valid) (hacc : cr.Accepts ct) {shapes : List SduShape}
    (hlen : ∀ s ∈ shapes, s.len ≤ cr.mtu) (hfits : ∀ s ∈ shapes, LccFits ct s) {bufs : List BtHdr}
    (hbufs : List.Forall₂ HasShape bufs shapes) (ds : List (List UInt8)) :
    ∃ k, lccTransfer ct cr k bufs (.idle ds) = .ok ([], .idle (ds ++ bufs.map BtHdr.bytes)) := by
  induction hbufs generalizing ds with
  | nil => exact ⟨0, by rw [List.map_nil, List.append_nil]; rfl⟩
  | @cons b s bufs shapes hb _ ih =>
    have hs := hlen s List.mem_cons_self
    have hmtu := hacc.mtu
    have hf := hfits s List.mem_cons_self
    obtain ⟨j, hj⟩ := lccTransfer_sdu hv hacc ds (hb.sduIn (by omega)) hb.event (hb.len ▸ hs)
      (hb.len ▸ hf.blocks) bufs
    obtain ⟨k, hk⟩ := ih (fun t ht => hlen t (List.mem_cons_of_mem _ ht))
      (fun t ht => hfits t (List.mem_cons_of_mem _ ht)) (ds ++ [lccSent ct b])
    refine ⟨j + k, ?_⟩
    rw [lccTransfer_add, hj, ok_bind, hk,
      lccSent_eq hv (by rw [hb.offset, hb.len]; exact hf.cursor), List.map_cons, List.append_assoc]
    rfl

/-- An SDU whose blocks do not fit stops the sender with an overrun. -/
theorem blocksFit_of_transfer (hv : ct.Valid) (hev : b.event = 0) {rest : List BtHdr}
    {r r' : LccRx} (h : lccTransfer ct cr k (b :: rest) r = .ok ([], r')) :
    ct.blocksFit b.len := by
  by_contra hfit
  rw [LccTxCfg.blocksFit, not_or, not_le, not_le] at hfit
  cases k with
  | zero => cases h
  | succ k =>
    rw [lccTransfer, nextSeg_overrun hv hev rest (by simp only [LccTxCfg.firstWidth]; omega)] at h
    cases h

/-- If every SDU of these shapes arrives, no field wraps around. -/
theorem lccFits_of_transfer (hv : ct.Valid) (hacc : cr.Accepts ct) {shapes : List SduShape}
    (hshapes : ∀ s ∈ shapes, s.offset < 65536 ∧ s.len ≤ cr.mtu) {ds : List (List UInt8)}
    (h : ∀ bufs, List.Forall₂ HasShape bufs shapes → ∃ k,
      lccTransfer ct cr k bufs (.idle ds) = .ok ([], .idle (ds ++ bufs.map BtHdr.bytes))) :
    ∀ s ∈ shapes, LccFits ct s := by
  induction shapes generalizing ds with
  | nil => exact fun s hs => by cases hs
  | cons s shapes ih =>
    obtain ⟨hoff, hlen⟩ := hshapes s List.mem_cons_self
    have hmtu := hacc.mtu
    -- what the first SDU does, whatever follows
    have hfirst : ∀ b, HasShape b s → ∀ bufs, List.Forall₂ HasShape bufs shapes →
        ct.blocksFit s.len ∧ lccSent ct b = b.bytes ∧ ∃ k,
          lccTransfer ct cr k bufs (.idle (ds ++ [b.bytes]))
            = .ok ([], .idle (ds ++ [b.bytes] ++ bufs.map BtHdr.bytes)) := by
      intro b hb bufs hbufs
      obtain ⟨k, hk⟩ := h (b :: bufs) (.cons hb hbufs)
      have hfit : ct.blocksFit s.len := hb.len ▸ blocksFit_of_transfer hv hb.event hk
      obtain ⟨j, hj⟩ := lccTransfer_sdu hv hacc ds (hb.sduIn (by omega)) hb.event (hb.len ▸ hlen)
        (hb.len.symm ▸ hfit) bufs
      obtain ⟨i, hi⟩ := lccTransfer_through hj hk
      have hpre : ds ++ [lccSent ct b] <+: ds ++ (b :: bufs).map BtHdr.bytes :=
        lccTransfer_delivered hi
      rw [List.prefix_append_right_inj, List.map_cons, List.cons_prefix_cons] at hpre
      refine ⟨hfit, hpre.1, i, ?_⟩
      rw [hpre.1, List.map_cons] at hi
      rw [hi, List.append_assoc]
      rfl
    have hrest : ∀ t ∈ shapes, LccFits ct t :=
      ih (fun t ht => hshapes t (List.mem_cons_of_mem _ ht))
        fun bufs hbufs => (hfirst _ (s.marked_hasShape 0) bufs hbufs).2.2
    intro t ht
    rcases List.mem_cons.mp ht with rfl | ht
    · refine ⟨(hfirst _ (t.marked_hasShape 0) _ (marked_shapes shapes)).1, ?_⟩
      by_contra hwrap
      obtain ⟨b, hb, hne⟩ := lccSent_ne hv hoff (not_lt.mp hwrap)
      exact hne (hfirst b hb _ (marked_shapes shapes)).2.1
    · exact hrest t ht

/-- SDUs of the given shapes all arrive, in order and unchanged, exactly if no sixteen-bit field of
the sender wraps around. -/
theorem lcc_transparent_iff (hv : ct.Valid) (hacc : cr.Accepts ct) (shapes : List SduShape)
    (hshapes : ∀ s ∈ shapes, s.offset < 65536 ∧ s.len ≤ cr.mtu) :
    LccTransparent ct cr shapes ↔ ∀ s ∈ shapes, LccFits ct s := by
  constructor
  · intro h
    exact lccFits_of_transfer hv hacc hshapes fun bufs hbufs => h bufs hbufs []
  · intro h bufs hbufs ds
    exact lccTransfer_all hv hacc (fun s hs => (hshapes s hs).2) h hbufs ds

/-- The two ends of a channel with this MPS. -/
def lccTx (mps : Nat) : LccTxCfg := ⟨mps, 0x40, 0x41, Nat.le_refl _⟩

def lccRx (mps : Nat) : LccRxCfg := ⟨0x41, mps, 65535, true⟩

theorem lccRx_accepts (mps : Nat) : (lccRx mps).Accepts (lccTx mps) :=
  ⟨rfl, (by decide : 0x41 < 65536), rfl, (by decide : 65535 < 65536)⟩

/-- SDUs of 40, 0 and 17 bytes in PDUs of 23. -/
theorem lcc_transparent_three :
    LccTransparent (lccTx 23) (lccRx 23) [⟨13, 40⟩, ⟨13, 0⟩, ⟨13, 17⟩] := by
  refine (lcc_transparent_iff ⟨by decide, by decide⟩ (lccRx_accepts 23) _ ?_).mpr ?_
  · simp [lccRx]
  · intro s hs
    fin_cases hs <;> exact ⟨.inl (by decide), by decide⟩

/-- An SDU of 65535 bytes: the first PDU does not fit its block if the MPS is the largest, and the
last bytes are taken from the front of the buffer if it is the least. -/
theorem lcc_large_sdu_fails :
    ((lccTx 65533).Valid ∧ (lccRx 65533).Accepts (lccTx 65533) ∧
      l2cLccGetNextXmitSduSeg (lccTx 65533) [SduShape.marked ⟨13, 65535⟩ 0] = .error .overrun ∧
      ¬ LccTransparent (lccTx 65533) (lccRx 65533) [⟨13, 65535⟩]) ∧
    ((lccTx 23).Valid ∧ (lccRx 23).Accepts (lccTx 23) ∧
      ¬ LccTransparent (lccTx 23) (lccRx 23) [⟨13, 65535⟩]) := by
  have hmax : (lccTx 65533).Valid := ⟨by decide, by decide⟩
  have hmin : (lccTx 23).Valid := ⟨by decide, by decide⟩
  have hshape (mps : Nat) : ∀ s ∈ [(⟨13, 65535⟩ : SduShape)],
      s.offset < 65536 ∧ s.len ≤ (lccRx mps).mtu := by
    intro s hs
    rw [List.mem_singleton] at hs
    rw [hs]
    exact ⟨(by decide : 13 < 65536), le_rfl⟩
  refine ⟨⟨hmax, lccRx_accepts _, nextSeg_overrun hmax rfl [] (by decide), ?_⟩,
    hmin, lccRx_accepts _, ?_⟩
  · intro h
    have hfit := lccFits_of_transfer hmax (lccRx_accepts _) (hshape _)
      (fun bufs hbufs => h bufs hbufs []) _ List.mem_cons_self
    rcases hfit.blocks with hblock | hblock
    · exact absurd hblock (by decide)
    · exact absurd hblock (by decide)
  · intro h
    have hfit := lccFits_of_transfer hmin (lccRx_accepts _) (hshape _)
      (fun bufs hbufs => h bufs hbufs []) _ List.mem_cons_self
    exact absurd hfit.cursor (by decide)

end BluetoothStack.L2cap
