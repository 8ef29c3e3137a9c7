import BluetoothStack.L2cap.ErtmStream

/-!
# BluetoothStack.L2cap.Segmentation

One SDU, cut into I-frames until it is sent and put together again at the other end.

The specifications of `Frames` and `ErtmCore` say what the code does when it returns. Here
are the conditions under which it does return: with an MPS above `L2CAP_SDU_LEN_OVERHEAD`
no length goes below zero, and with at most 65510 bytes in a frame no block size wraps
around in `l2c_fcr_clone_buf`. The segments are those of the SDU as long as the offset at which
they are read does not wrap around either (`SegmentsFit`). On the other side,
`do_sar_reassembly` accepts whatever `sarStep` accepts.
-/

namespace BluetoothStack.L2cap

open BluetoothStack.Lib

variable (c : ChanCfg)

/-! ### The two loops -/

/-- Calls of `l2c_fcr_get_next_xmit_sdu_seg` until `xmit_hold_q` is empty, `k` at most. -/
def xmitSegs : Nat → Node → Result (Node × List BtHdr)
  | 0, n => .ok (n, [])
  | k + 1, n =>
    if n.xmitHoldQ.isEmpty then .ok (n, [])
    else do
      let (n, b) ← l2cFcrGetNextXmitSduSeg c n 0
      let (n, bs) ← xmitSegs k n
      pure (n, b :: bs)

/-- Calls of `do_sar_reassembly` on received buffers with their control words, up to the first
that is refused. -/
def reassemble : Node → List (BtHdr × Nat) → Result (Node × Bool)
  | n, [] => .ok (n, true)
  | n, (b, ctrl) :: rest => do
    let (n, ok) ← doSarReassembly c n b ctrl
    if ok then reassemble n rest else pure (n, false)

/-! ### Segments of one SDU -/

/-- The part of the SDU in a segment: all of it but the SDU length of a start segment. -/
def Seg.payload (s : Seg) : List UInt8 :=
  if s.sar = .start then s.info.drop l2capSduLenOverhead else s.info

/-- The segments that finish an SDU of which `d` is left. -/
inductive TailSegs (mps : Nat) : List UInt8 → List Seg → Prop
  | final {d : List UInt8} (h : d.length ≤ mps) : TailSegs mps d [⟨.final, d⟩]
  | cont {d : List UInt8} {segs : List Seg} (h : mps < d.length)
      (ht : TailSegs mps (d.drop mps) segs) : TailSegs mps d (⟨.cont, d.take mps⟩ :: segs)

/-- The segments of an SDU `d`. -/
inductive SduSegs (mps : Nat) (d : List UInt8) : List Seg → Prop
  | unseg (h : d.length ≤ mps) : SduSegs mps d [⟨.unseg, d⟩]
  | start {segs : List Seg} (h : mps < d.length) (ht : TailSegs mps (d.drop (mps - 2)) segs) :
      SduSegs mps d (⟨.start, le16 d.length ++ d.take (mps - 2)⟩ :: segs)

/-- What a segmentation of `d` has to be: in one piece or start, continuation and end, each
within the MPS, and together the SDU. -/
structure IsSegmentation (mps : Nat) (d : List UInt8) (segs : List Seg) : Prop where
  order : segs.map Seg.sar = [.unseg] ∨
    ∃ k, segs.map Seg.sar = .start :: (List.replicate k .cont ++ [.final])
  payload : (segs.map Seg.payload).flatten = d
  fits : ∀ s ∈ segs, s.info.length ≤ mps

variable {mps : Nat} {d : List UInt8} {segs : List Seg} {b : BtHdr} {n : Node}

theorem TailSegs.order (h : TailSegs mps d segs) :
    ∃ k, segs.map Seg.sar = List.replicate k .cont ++ [.final] := by
  induction h with
  | final _ => exact ⟨0, rfl⟩
  | cont _ _ ih =>
    obtain ⟨k, hk⟩ := ih
    refine ⟨k + 1, ?_⟩
    rw [List.map_cons, hk]
    rfl

theorem TailSegs.payload (h : TailSegs mps d segs) : (segs.map Seg.payload).flatten = d := by
  induction h with
  | final _ => simp [Seg.payload]
  | cont _ _ ih =>
    rw [List.map_cons, List.flatten_cons, ih]
    exact List.take_append_drop _ _

theorem TailSegs.fits (h : TailSegs mps d segs) : ∀ s ∈ segs, s.info.length ≤ mps := by
  induction h with
  | final hd =>
    intro s hs
    rw [List.mem_singleton.mp hs]
    exact hd
  | cont _ _ ih =>
    intro s hs
    rcases List.mem_cons.mp hs with rfl | hs
    · rw [List.length_take]
      exact Nat.min_le_left _ _
    · exact ih s hs

theorem SduSegs.isSegmentation (hmps : 2 ≤ mps) (h : SduSegs mps d segs) :
    IsSegmentation mps d segs := by
  cases h with
  | unseg hd =>
    refine ⟨Or.inl rfl, by simp [Seg.payload], ?_⟩
    intro s hs
    rw [List.mem_singleton.mp hs]
    exact hd
  | start _ ht =>
    obtain ⟨k, hk⟩ := ht.order
    refine ⟨Or.inr ⟨k, by rw [List.map_cons, hk]⟩, ?_, ?_⟩
    · rw [List.map_cons, List.flatten_cons, ht.payload]
      exact List.take_append_drop _ _
    · intro s hs
      rcases List.mem_cons.mp hs with rfl | hs
      · rw [List.length_append, le16_length, List.length_take]
        omega
      · exact ht.fits s hs

/-! ### The sender returns -/

theorem putU16_returns {i : Nat} (v : Nat) (h : i + 2 ≤ b.data.length) :
    b.putU16 i v = .ok { b with data := wr16 b.data i v } := if_pos h

theorem cloneBuf_returns (b : BtHdr) (newOffset : Nat) {n : Nat}
    (hsize : n + newOffset + 10 < 65536)
    (hin : b.offset + n ≤ b.data.length) : ∃ b', l2cFcrCloneBuf b newOffset n = .ok b' := by
  refine ⟨_, if_pos ⟨?_, hin⟩⟩
  rw [btHdrSize, l2capFcsLen, u16_of_lt (by omega)]
  omega

theorem cutSegment_returns (rest : List BtHdr) {maxPdu : Nat} (hb : Cuttable b maxPdu)
    (h2 : 2 ≤ maxPdu) (hmax : min b.len maxPdu ≤ 65510) :
    ∃ s, cutSegment c b rest maxPdu = .ok s := by
  have htail := hb.tailroom
  unfold cutSegment
  by_cases hlen : b.len > maxPdu
  · rw [if_pos hlen]
    have hsub : sub16 maxPdu l2capSduLenOverhead = maxPdu - 2 := sub16_of_le (by omega) h2
    have hn : (if b.event == 0 then sub16 maxPdu l2capSduLenOverhead else maxPdu) ≤ maxPdu := by
      split
      · omega
      · exact le_rfl
    obtain ⟨x, hx⟩ := cloneBuf_returns b (l2capMinOffset + l2capSduLenOffset)
      (n := if b.event == 0 then sub16 maxPdu l2capSduLenOverhead else maxPdu)
      (by rw [l2capMinOffset, l2capSduLenOffset]; omega) (by omega)
    simp only [hx, ok_bind]
    exact ⟨_, rfl⟩
  · rw [if_neg hlen]
    exact ⟨_, rfl⟩

theorem addHeader_returns {s : CutSegment} (hs : CutOk s) : ∃ b, addHeader c s = .ok b := by
  obtain ⟨hhead, htail, hshort, -, -⟩ := hs
  simp only [addHeader, l2capPktOverhead, l2capFcrOverhead, l2capSduLenOverhead]
  by_cases hst : s.sar = .start
  · rw [if_pos hst] at hhead
    have ho : sub16 (sub16 s.xmit.offset (4 + 2)) 2 = s.xmit.offset - 8 := by
      rw [sub16_of_le (a := s.xmit.offset) (by omega) (by omega), sub16_of_le (by omega) (by omega)]
      omega
    simp only [hst, if_true, ho]
    rw [putU16_returns _ (by dsimp only; omega), ok_bind,
      putU16_returns _ (by simp only [wr16_length]; omega), ok_bind,
      putU16_returns _ (by simp only [wr16_length]; omega), ok_bind]
    exact ⟨_, rfl⟩
  · rw [if_neg hst] at hhead
    have ho : sub16 s.xmit.offset (4 + 2) = s.xmit.offset - 6 := sub16_of_le (by omega) (by omega)
    simp only [hst, if_false, ho]
    rw [putU16_returns _ (by dsimp only; omega), ok_bind,
      putU16_returns _ (by simp only [wr16_length]; omega), ok_bind]
    exact ⟨_, rfl⟩

theorem prepareIFrame_returns (f : Fcrb) (again : Bool) (hlong : 6 ≤ b.len)
    (hin : b.offset + b.len + 2 ≤ b.data.length) : ∃ p, prepareIFrame c f b again = .ok p := by
  simp only [prepareIFrame, sealFrame, l2capPktOverhead]
  rw [putU16_returns _ (by omega), ok_bind, putU16_returns _ (by simp only [wr16_length]; omega),
    ok_bind]
  by_cases h0 : l2cuGetFcsLen c ≠ 0
  · rw [if_pos h0, putU16_returns _ (by simp only [wr16_length]; omega)]
    exact ⟨_, rfl⟩
  · rw [if_neg h0]
    exact ⟨_, rfl⟩

theorem BtHdr.info_length (h : b.offset + b.len ≤ b.data.length) : b.info.length = b.len - 6 := by
  rw [BtHdr.info, List.length_take, List.length_drop]
  omega

theorem cutSeg_info_length (h2 : 2 ≤ mps) (started : Bool) (d : List UInt8) :
    (cutSeg mps started d).1.info.length ≤ min d.length mps := by
  unfold cutSeg
  by_cases hlong : mps < d.length
  · rw [if_pos hlong]
    cases started with
    | true => simp
    | false =>
      rw [if_neg (by decide), List.length_append, le16_length, List.length_take]
      omega
  · rw [if_neg hlong]
    dsimp only
    omega

/-- With nothing to send again, the next segment of the oldest SDU is cut off without an overrun
if its size in a block fits sixteen bits. -/
theorem nextSduSeg_returns (hc : c.peerCfg.mode = .ertm) (hq : n.fcrb.retransQ = [])
    {rest : List BtHdr} (hb : n.xmitHoldQ = b :: rest) (hok : Cuttable b c.txMps)
    (h2 : 2 ≤ c.txMps) (hmax : min b.len c.txMps ≤ 65510) :
    ∃ p, l2cFcrGetNextXmitSduSeg c n 0 = .ok p := by
  have hfcs := fcsLen_le c
  have htail := hok.tailroom
  simp only [l2cFcrGetNextXmitSduSeg, hq, hb, Nat.not_lt_zero, false_and, if_false, gt_iff_lt]
  obtain ⟨s, hs⟩ := cutSegment_returns c rest hok h2 hmax
  obtain ⟨hcut, hseg, -⟩ := (cutSegment_spec c rest hok).of_ok hs
  obtain ⟨x, hx⟩ := addHeader_returns c hcut
  have hhead := (addHeader_spec c hcut).of_ok hx
  have hin := hhead.inside
  obtain ⟨⟨f, x'⟩, hp⟩ := prepareIFrame_returns c n.fcrb false hhead.long hin
  obtain ⟨hlt, -⟩ := prepareCtrl_fields c hc n.fcrb x false fun hf => by cases hf
  obtain ⟨-, hx'⟩ := (prepareIFrame_spec c n.fcrb false hhead.long (by omega) hhead.short hlt).of_ok
    hp
  dsimp only at hx'
  -- the frame is the segment, its header and the FCS
  have hlen : x.len ≤ 65510 + 6 := by
    have hinfo := BtHdr.info_length (b := x) (by omega)
    have hle := cutSeg_info_length h2 b.pending.1 b.pending.2
    rw [← hseg, ← hhead.info, hinfo, BtHdr.pending, BtHdr.bytes_length (by omega)] at hle
    omega
  have hlen' := hx'.len
  have hin' := hx'.inside
  have hoff := hx'.offset
  obtain ⟨w, hw⟩ := cloneBuf_returns x' hciDataPreambleSize (n := x'.len)
    (by rw [hciDataPreambleSize]; omega) (by rw [hoff]; exact hin')
  rw [hs, ok_bind, hx, ok_bind, hp, ok_bind]
  dsimp only
  rw [if_pos hc, hw]
  exact ⟨_, rfl⟩

/-- The segment in a frame, and that it is an I-frame. -/
def Carries (f : BtHdr) (s : Seg) : Prop :=
  frameCtrl f.bytes % 2 = 0 ∧ frameSeg (l2cuGetFcsLen c) f.bytes = s

/-- One call: the frame carries the next segment, and the rest of the buffer stays queued. -/
theorem nextSduSeg_step (hc : c.peerCfg.mode = .ertm) (h2 : 2 ≤ c.txMps)
    (hq : n.fcrb.retransQ = []) (hb : n.xmitHoldQ = [b]) (hok : Cuttable b c.txMps)
    (hmax : min b.len c.txMps ≤ 65510) :
    ∃ n' f, l2cFcrGetNextXmitSduSeg c n 0 = .ok (n', f) ∧ n'.fcrb.retransQ = [] ∧
      Carries c f (cutSeg c.txMps b.pending.1 b.bytes).1 ∧
      n'.xmitHoldQ = (b.left c.txMps c.localCid).toList := by
  obtain ⟨⟨n', f⟩, hp⟩ := nextSduSeg_returns c hc hq hb hok h2 hmax
  obtain ⟨w, -, -, hn', hframe, -⟩ := (nextSduSeg_spec hc hq hb hok).of_ok hp
  dsimp only at hn'
  refine ⟨n', f, hp, ?_, ⟨hframe.even, hframe.seg⟩, ?_⟩
  · rw [hn', prepareFcrb_ertm hc]
    exact hq
  · rw [hn', List.append_nil]

/-! ### The offset of the last segment -/

/-- Where the last segment starts in what is left of an SDU. -/
def lastCut (mps len : Nat) : Nat := (len - 1) / mps * mps

/-- Where the last segment of an SDU starts: the first one is two bytes shorter than the others. -/
def lastSegment (mps len : Nat) : Nat :=
  if len ≤ mps then 0 else mps - 2 + lastCut mps (len - (mps - 2))

/-- No sixteen-bit field wraps around while an SDU is segmented, neither the size of the block for a
segment nor the offset at which the last one is read. -/
structure SegmentsFit (mps : Nat) (b : BtHdr) : Prop where
  headroom : l2capMinOffset ≤ b.offset
  tailroom : b.offset + b.len + l2capFcsLen ≤ b.data.length
  len : b.len < 65536
  blocks : min b.len mps ≤ 65510
  cursor : b.offset + lastSegment mps b.len < 65536
  flags : b.layerSpecific < 4

/-- The same for what is left of an SDU when its first segment has been sent. -/
structure TailFits (mps : Nat) (b : BtHdr) : Prop where
  headroom : 6 ≤ b.offset
  tailroom : b.offset + b.len + 2 ≤ b.data.length
  len : b.len < 65536
  blocks : min b.len mps ≤ 65510
  cursor : b.offset + lastCut mps b.len < 65536
  flags : b.layerSpecific < 4

theorem lastCut_of_lt {len : Nat} (hmps : 0 < mps) (h : mps < len) :
    lastCut mps len = lastCut mps (len - mps) + mps := by
  have hlen : len - 1 = len - mps - 1 + mps := by omega
  rw [lastCut, lastCut, hlen, Nat.add_div_right _ hmps, Nat.succ_mul]

theorem TailFits.cuttable (h : TailFits mps b) : Cuttable b mps := by
  have hcursor := h.cursor
  have hblocks := h.blocks
  exact ⟨h.headroom, h.tailroom, ⟨by omega, h.len⟩, fun _ => by omega, h.flags⟩

theorem SegmentsFit.cuttable (h : SegmentsFit mps b) : Cuttable b mps := by
  have hhead : 13 ≤ b.offset := h.headroom
  have hcursor := h.cursor
  have hblocks := h.blocks
  exact ⟨by omega, h.tailroom, ⟨by omega, h.len⟩, fun _ => by omega, h.flags⟩

/-- A buffer whose offset is moved without wrapping around. -/
theorem tailFits_advance {n cid : Nat} (hoffset : 6 ≤ b.offset)
    (htail : b.offset + b.len + 2 ≤ b.data.length) (hlen : b.len < 65536)
    (hblocks : min b.len mps ≤ 65510) (hflags : b.layerSpecific < 4) (hn : n ≤ b.len)
    (hcursor : b.offset + n + lastCut mps (b.len - n) < 65536) :
    TailFits mps (b.advance n cid) := by
  have hadvance : u16 (b.offset + n) = b.offset + n := u16_of_lt (by omega)
  have hsub : sub16 b.len n = b.len - n := sub16_of_le hlen hn
  simp only [BtHdr.advance, hadvance, hsub]
  exact ⟨by dsimp only; omega, by dsimp only; omega, by dsimp only; omega, by dsimp only; omega,
    hcursor, hflags⟩

theorem TailFits.advance (h : TailFits mps b) (hmps : 0 < mps) (hlong : mps < b.len) (cid : Nat) :
    TailFits mps (b.advance mps cid) := by
  have hcursor := h.cursor
  rw [lastCut_of_lt hmps hlong] at hcursor
  exact tailFits_advance h.headroom h.tailroom h.len h.blocks h.flags hlong.le (by omega)

theorem SegmentsFit.advance (h : SegmentsFit mps b) (hlong : mps < b.len) (cid : Nat) :
    TailFits mps (b.advance (mps - 2) cid) := by
  have hhead : 13 ≤ b.offset := h.headroom
  have hcursor := h.cursor
  rw [lastSegment, if_neg (not_le.mpr hlong)] at hcursor
  exact tailFits_advance (by omega) h.tailroom h.len h.blocks h.flags (by omega) (by omega)

/-! ### Whole SDUs -/

theorem xmitSegs_nil (k : Nat) (h : n.xmitHoldQ = []) : xmitSegs c k n = .ok (n, []) := by
  cases k with
  | zero => rfl
  | succ k =>
    rw [xmitSegs, h]
    rfl

/-- The rest of an SDU, once its first segment has been sent. -/
theorem xmitSegs_tail (hc : c.peerCfg.mode = .ertm) (h2 : 2 ≤ c.txMps) (k : Nat)
    (hq : n.fcrb.retransQ = []) (hb : n.xmitHoldQ = [b]) (hev : b.pending.1 = true)
    (hfits : TailFits c.txMps b) (hk : b.len < k) :
    ∃ n' frames segs, xmitSegs c k n = .ok (n', frames) ∧ n'.xmitHoldQ = [] ∧
      TailSegs c.txMps b.bytes segs ∧ List.Forall₂ (Carries c) frames segs := by
  induction k generalizing n b with
  | zero => omega
  | succ k ih =>
    obtain ⟨n₁, f, hstep, hq₁, hf, hrest⟩ :=
      nextSduSeg_step c hc h2 hq hb hfits.cuttable hfits.blocks
    have htail := hfits.tailroom
    have hlen : b.bytes.length = b.len := BtHdr.bytes_length (by omega)
    have hevent : (b.event == 0) = false := by
      rw [BtHdr.pending, bne_iff_ne] at hev
      exact beq_eq_false_iff_ne.mpr hev
    rw [hev] at hf
    simp only [xmitSegs, hb, List.isEmpty_cons, Bool.false_eq_true, if_false, hstep, ok_bind]
    by_cases hlong : c.txMps < b.len
    · simp only [cutSeg, hlen, hlong, if_true] at hf
      rw [BtHdr.left, if_pos hlong, Option.toList_some, BtHdr.cutLen, hevent,
        if_neg Bool.false_ne_true] at hrest
      have hfits₁ := hfits.advance (by omega) hlong c.localCid
      have hcursor := hfits₁.cursor
      -- the offset does not wrap before the last cut
      have hoffset : b.offset + c.txMps < 65536 := by
        have hcursor := hfits.cursor
        rw [lastCut_of_lt (by omega) hlong] at hcursor
        omega
      have hpend := BtHdr.advance_pending hlong.le hfits.len hoffset c.localCid_ne_zero
      have hlen₁ : (b.advance c.txMps c.localCid).len = b.len - c.txMps :=
        sub16_of_le hfits.len hlong.le
      obtain ⟨n', frames, segs, hrun, hempty, ht, hall⟩ :=
        ih hq₁ hrest (congrArg Prod.fst hpend) hfits₁ (by omega)
      rw [show (b.advance c.txMps c.localCid).bytes = b.bytes.drop c.txMps from
        congrArg Prod.snd hpend] at ht
      rw [hrun]
      exact ⟨n', f :: frames, _ :: segs, rfl, hempty, .cont (hlen.symm ▸ hlong) ht, .cons hf hall⟩
    · simp only [cutSeg, hlen, hlong, if_false, if_true] at hf
      rw [BtHdr.left, if_neg hlong, Option.toList_none] at hrest
      rw [xmitSegs_nil c k hrest]
      exact ⟨n₁, [f], _, rfl, hrest, .final (hlen.symm ▸ not_lt.mp hlong), .cons hf .nil⟩

/-- A whole SDU is sent in its segments. -/
theorem xmitSegs_sdu (hc : c.peerCfg.mode = .ertm) (h2 : 2 < c.txMps) (hq : n.fcrb.retransQ = [])
    (hb : n.xmitHoldQ = [b]) (hev : b.event = 0) (hfits : SegmentsFit c.txMps b) :
    ∃ n' frames segs, xmitSegs c (b.len + 1) n = .ok (n', frames) ∧ n'.xmitHoldQ = [] ∧
      SduSegs c.txMps b.bytes segs ∧ List.Forall₂ (Carries c) frames segs := by
  obtain ⟨n₁, f, hstep, hq₁, hf, hrest⟩ :=
    nextSduSeg_step c hc h2.le hq hb hfits.cuttable hfits.blocks
  have htail := hfits.cuttable.tailroom
  have hlen : b.bytes.length = b.len := BtHdr.bytes_length (by omega)
  have hst : b.pending.1 = false := by rw [BtHdr.pending, hev]; rfl
  rw [hst] at hf
  simp only [xmitSegs, hb, List.isEmpty_cons, Bool.false_eq_true, if_false, hstep, ok_bind]
  by_cases hlong : c.txMps < b.len
  · simp only [cutSeg, hlen, hlong, if_true, Bool.false_eq_true, if_false] at hf
    rw [BtHdr.left, if_pos hlong, Option.toList_some, BtHdr.cutLen, hev, if_pos (by rfl)] at hrest
    have hfits₁ := hfits.advance hlong c.localCid
    -- two bytes of the first segment are taken by the SDU length
    have hoffset : b.offset + (c.txMps - 2) < 65536 := by
      have hcursor := hfits.cursor
      rw [lastSegment, if_neg (not_le.mpr hlong)] at hcursor
      omega
    have hpend := BtHdr.advance_pending (n := c.txMps - 2) (by omega) hfits.len hoffset
      c.localCid_ne_zero
    have hlen₁ : (b.advance (c.txMps - 2) c.localCid).len = b.len - (c.txMps - 2) :=
      sub16_of_le hfits.len (by omega)
    obtain ⟨n', frames, segs, hrun, hempty, ht, hall⟩ :=
      xmitSegs_tail c hc h2.le b.len hq₁ hrest (congrArg Prod.fst hpend) hfits₁ (by omega)
    rw [show (b.advance (c.txMps - 2) c.localCid).bytes = b.bytes.drop (c.txMps - 2) from
      congrArg Prod.snd hpend] at ht
    rw [hrun]
    refine ⟨n', f :: frames, _ :: segs, rfl, hempty, .start (hlen.symm ▸ hlong) ht, .cons ?_ hall⟩
    rw [hlen]
    exact hf
  · simp only [cutSeg, hlen, hlong, if_false, Bool.false_eq_true] at hf
    rw [BtHdr.left, if_neg hlong, Option.toList_none] at hrest
    rw [xmitSegs_nil c b.len hrest]
    exact ⟨n₁, [f], _, rfl, hrest, .unseg (hlen.symm ▸ not_lt.mp hlong), .cons hf .nil⟩

/-- The last segment is read where the offset is then, whether it has wrapped around or not. -/
theorem xmitSegs_last (hc : c.peerCfg.mode = .ertm) (h2 : 2 ≤ c.txMps) (hmps : c.txMps ≤ 65510)
    {j k r : Nat} (hq : n.fcrb.retransQ = []) (hb : n.xmitHoldQ = [b]) (hev : b.event ≠ 0)
    (hlen : b.len = j * c.txMps + r) (hr : 0 < r ∧ r ≤ c.txMps) (hshort : b.len < 65536)
    (hflags : b.layerSpecific < 4) (hoffset : b.offset < 65536)
    (htail : b.offset + b.len + 2 ≤ b.data.length)
    (hhead : ∀ i ≤ j, 6 ≤ u16 (b.offset + i * c.txMps)) (hk : j < k) :
    ∃ n' frames f, xmitSegs c k n = .ok (n', frames ++ [f]) ∧
      Carries c f ⟨.final, (b.data.drop (u16 (b.offset + j * c.txMps))).take r⟩ := by
  induction j generalizing n b k with
  | zero =>
    have hhead₀ := hhead 0 le_rfl
    rw [Nat.zero_mul, Nat.add_zero, u16_of_lt hoffset] at hhead₀
    obtain ⟨k, rfl⟩ := Nat.exists_eq_succ_of_ne_zero hk.ne'
    obtain ⟨n₁, f, hstep, -, hf, hrest⟩ := nextSduSeg_step c hc h2 hq hb
      ⟨hhead₀, htail, ⟨hoffset, hshort⟩, fun _ => by omega, hflags⟩ (by omega)
    have hbytes : b.bytes.length = b.len := BtHdr.bytes_length (by omega)
    have hbne : (b.event != 0) = true := bne_iff_ne.mpr hev
    have hlast : ¬ c.txMps < b.len := by omega
    simp only [cutSeg, BtHdr.pending, hbytes, hlast, hbne, if_false, if_true] at hf
    rw [BtHdr.left, if_neg hlast, Option.toList_none] at hrest
    refine ⟨n₁, [], f, ?_, ?_⟩
    · simp only [xmitSegs, hb, List.isEmpty_cons, Bool.false_eq_true, if_false, hstep, ok_bind]
      rw [xmitSegs_nil c k hrest]
      rfl
    · rw [Nat.zero_mul, Nat.zero_add] at hlen
      rw [Nat.zero_mul, Nat.add_zero, u16_of_lt hoffset, ← hlen]
      exact hf
  | succ j ih =>
    have hhead₀ := hhead 0 (Nat.zero_le _)
    rw [Nat.zero_mul, Nat.add_zero, u16_of_lt hoffset] at hhead₀
    obtain ⟨k, rfl⟩ := Nat.exists_eq_succ_of_ne_zero (Nat.ne_of_gt (Nat.zero_lt_of_lt hk))
    obtain ⟨n₁, f, hstep, hq₁, -, hrest⟩ := nextSduSeg_step c hc h2 hq hb
      ⟨hhead₀, htail, ⟨hoffset, hshort⟩, fun _ => by omega, hflags⟩ (by omega)
    rw [Nat.succ_mul] at hlen
    have hlong : c.txMps < b.len := by omega
    have hbeq : (b.event == 0) = false := beq_eq_false_iff_ne.mpr hev
    rw [BtHdr.left, if_pos hlong, Option.toList_some, BtHdr.cutLen, hbeq,
      if_neg Bool.false_ne_true] at hrest
    -- the offset of the rest, modulo the width of the field
    have hu16 (i : Nat) : u16 (u16 (b.offset + c.txMps) + i * c.txMps) =
        u16 (b.offset + (i + 1) * c.txMps) := by
      rw [u16, u16, u16, Nat.mod_add_mod, Nat.succ_mul]
      congr 1
      omega
    have hlen₁ : (b.advance c.txMps c.localCid).len = b.len - c.txMps :=
      sub16_of_le hshort hlong.le
    have hoffset₁ : (b.advance c.txMps c.localCid).offset = u16 (b.offset + c.txMps) := rfl
    have hle : u16 (b.offset + c.txMps) ≤ b.offset + c.txMps := Nat.mod_le _ _
    obtain ⟨n', frames, f', hrun, hf'⟩ := ih (n := n₁) (b := b.advance c.txMps c.localCid) (k := k)
      hq₁ hrest c.localCid_ne_zero (by omega) (by omega) hflags
      (Nat.mod_lt _ (by decide)) (by rw [hoffset₁, hlen₁]; show _ ≤ b.data.length; omega)
      (fun i hi => by rw [hoffset₁, hu16]; exact hhead (i + 1) (by omega)) (by omega)
    refine ⟨n', f :: frames, f', ?_, ?_⟩
    · simp only [xmitSegs, hb, List.isEmpty_cons, Bool.false_eq_true, if_false, hstep, ok_bind,
        hrun]
      rfl
    · rw [hoffset₁, hu16] at hf'
      exact hf'

/-! ### The receiver accepts -/

/-- What follows an accepted segment in an open channel. -/
def handOver (n : Node) : Option (List UInt8) → Result (Node × Bool)
  | none => .ok (n, true)
  | some d => do
    let n ← callOut c { n with delivered := n.delivered ++ [d] }
    pure (n, true)

theorem passOn_open (ho : n.isOpen = true) (d : Option (List UInt8)) :
    passOn c n d = handOver c n d := by
  cases d with
  | none => rfl
  | some d => rw [passOn, csmSdu, if_pos ho, handOver]

/-- A received buffer and control word with the segment `s`. -/
def Received (s : Seg) (p : BtHdr × Nat) : Prop :=
  RxBuf p.1 ∧ (⟨sarOf p.2, p.1.bytes⟩ : Seg) = s

/-- A segment in the middle: reassembly goes on with the next one. -/
theorem reassemble_middle (hn : RxOk n) {s : Seg} {p : BtHdr × Nat} (hp : Received s p)
    {rx : Option (Nat × List UInt8)} (h : sarStep c.maxRxMtu n.core.rx s = some (rx, none))
    (rest : List (BtHdr × Nat)) :
    ∃ len sdu, RxOk (n.setRx len sdu) ∧ (n.setRx len sdu).core.rx = rx ∧
      reassemble c n (p :: rest) = reassemble c (n.setRx len sdu) rest := by
  have houtcome := doSarReassembly_outcome c hn hp.1 p.2
  rw [hp.2, h] at houtcome
  obtain ⟨len, sdu, hok, hrx, heq⟩ := houtcome
  refine ⟨len, sdu, hok, hrx, ?_⟩
  rw [reassemble, heq]
  rfl

/-- The last segment: the SDU is handed over and nothing is left of it. -/
theorem reassemble_last (ho : n.isOpen = true) (hn : RxOk n) {s : Seg} {p : BtHdr × Nat}
    (hp : Received s p) (h : sarStep c.maxRxMtu n.core.rx s = some (none, some d)) :
    ∃ len, reassemble c n [p] = handOver c (n.setRx len none) (some d) := by
  have houtcome := doSarReassembly_outcome c hn hp.1 p.2
  rw [hp.2, h] at houtcome
  obtain ⟨len, sdu, -, hrx, heq⟩ := houtcome
  have hnone : sdu = none := Option.map_eq_none_iff.mp hrx
  subst hnone
  refine ⟨len, ?_⟩
  rw [reassemble, heq, passOn_open c (n := n.setRx len none) ho, handOver]
  generalize callOut c _ = r
  cases r with
  | ok n' => rfl
  | error e => rfl

theorem reassemble_tail (ht : TailSegs mps d segs) (ho : n.isOpen = true) (hn : RxOk n)
    {acc : List UInt8} (hacc : n.core.rx = some (acc.length + d.length, acc))
    {rx : List (BtHdr × Nat)} (hall : List.Forall₂ Received segs rx) :
    ∃ len, reassemble c n rx = handOver c (n.setRx len none) (some (acc ++ d)) := by
  induction ht generalizing n acc rx with
  | @final d h =>
    obtain ⟨p, rest, hp, hnil, rfl⟩ := List.forall₂_cons_left_iff.mp hall
    cases hnil
    have hstep := sarStep_cutSeg_next c.maxRxMtu mps acc d
    simp only [cutSeg, not_lt.mpr h, if_false, if_true] at hstep
    rw [← hacc] at hstep
    exact reassemble_last c ho hn hp hstep
  | @cont d segs h _ ih =>
    obtain ⟨p, rest, hp, hrest, rfl⟩ := List.forall₂_cons_left_iff.mp hall
    have hstep := sarStep_cutSeg_next c.maxRxMtu mps acc d
    simp only [cutSeg, h, if_true] at hstep
    rw [← hacc] at hstep
    obtain ⟨len, sdu, hok, hrx, heq⟩ := reassemble_middle c hn hp hstep rest
    rw [← length_take_add_length_drop mps d, ← Nat.add_assoc, ← List.length_append] at hrx
    obtain ⟨len', heq'⟩ := ih (n := n.setRx len sdu) ho hok hrx hrest
    refine ⟨len', ?_⟩
    rw [heq, heq', List.append_assoc, List.take_append_drop]
    rfl

/-- Reassembly of the segments of an SDU hands over the SDU. -/
theorem reassemble_sdu (hs : SduSegs mps d segs) (hd : d.length < 65536)
    (hmtu : d.length ≤ c.maxRxMtu) (ho : n.isOpen = true) (hn : n.fcrb.pRxSdu = none)
    {rx : List (BtHdr × Nat)} (hall : List.Forall₂ Received segs rx) :
    ∃ len, reassemble c n rx = handOver c (n.setRx len none) (some d) := by
  have hcore : n.core.rx = none := by simp only [Node.core, hn, Option.map_none]
  have hok : RxOk n := fun x hx => by
    rw [hn] at hx
    cases hx
  have hstep := sarStep_cutSeg_first c.maxRxMtu mps hd hmtu
  cases hs with
  | unseg h =>
    obtain ⟨p, rest, hp, hnil, rfl⟩ := List.forall₂_cons_left_iff.mp hall
    cases hnil
    simp only [cutSeg, not_lt.mpr h, if_false, Bool.false_eq_true] at hstep
    exact reassemble_last c ho hok hp (by rw [hcore]; exact hstep)
  | start h ht =>
    obtain ⟨p, rest, hp, hrest, rfl⟩ := List.forall₂_cons_left_iff.mp hall
    simp only [cutSeg, h, if_true, if_false, Bool.false_eq_true] at hstep
    obtain ⟨len, sdu, hok', hrx, heq⟩ :=
      reassemble_middle c hok hp (by rw [hcore]; exact hstep) rest
    rw [← length_take_add_length_drop (mps - 2) d] at hrx
    obtain ⟨len', heq'⟩ := reassemble_tail c ht (n := n.setRx len sdu) ho hok' hrx hrest
    refine ⟨len', ?_⟩
    rw [heq, heq', List.take_append_drop]
    rfl

/-! ### Calling out leaves reassembly alone -/

/-- Neither the SDU being received nor the SDUs delivered change. -/
def SameRxSdu (n n' : Node) : Prop :=
  n'.delivered = n.delivered ∧ n'.fcrb.pRxSdu = n.fcrb.pRxSdu

theorem prepareFcrb_pRxSdu (f : Fcrb) (again : Bool) :
    (prepareFcrb c f again).pRxSdu = f.pRxSdu := by
  by_cases h : c.peerCfg.mode = .ertm
  · rw [prepareFcrb, if_pos h]
    rfl
  · rw [prepareFcrb, if_neg h]

theorem prepareIFrame_pRxSdu {f f' : Fcrb} {b' : BtHdr} {again : Bool}
    (h : prepareIFrame c f b again = .ok (f', b')) : f'.pRxSdu = f.pRxSdu := by
  obtain ⟨x, -, hx⟩ := bind_eq_ok h
  cases hx
  exact prepareFcrb_pRxSdu c f again

theorem nextSduSeg_sameRxSdu {k : Nat} {p : Node × BtHdr}
    (h : l2cFcrGetNextXmitSduSeg c n k = .ok p) : SameRxSdu n p.1 := by
  unfold l2cFcrGetNextXmitSduSeg at h
  split at h
  · obtain ⟨⟨f, b⟩, hprep, h⟩ := bind_eq_ok h
    cases h
    have hf := prepareIFrame_pRxSdu c hprep
    exact ⟨rfl, hf⟩
  · dsimp only at h
    split at h
    · cases h
    · obtain ⟨s, -, h⟩ := bind_eq_ok h
      obtain ⟨x, -, h⟩ := bind_eq_ok h
      obtain ⟨⟨f, b⟩, hprep, h⟩ := bind_eq_ok h
      dsimp only at h
      have hf := prepareIFrame_pRxSdu c hprep
      split at h
      · obtain ⟨w, -, h⟩ := bind_eq_ok h
        cases h
        exact ⟨rfl, hf⟩
      · cases h
        exact ⟨rfl, hf⟩

theorem linkAct_sameRxSdu {n' : Node} {a : LinkAct} (h : linkAct c n a = .ok n') :
    SameRxSdu n n' := by
  cases a with
  | toLower =>
    simp only [linkAct] at h
    split at h <;> cases h <;> exact ⟨rfl, rfl⟩
  | serve =>
    simp only [linkAct] at h
    split at h
    · obtain ⟨p, hp, h⟩ := bind_eq_ok h
      cases h
      exact nextSduSeg_sameRxSdu c hp
    · cases h
      exact ⟨rfl, rfl⟩
  | write sdu | disconnectReq =>
    simp only [linkAct] at h
    split at h <;> cases h <;> exact ⟨rfl, rfl⟩

theorem runActs_sameRxSdu {acts : List LinkAct} {n' : Node} (h : runActs c n acts = .ok n') :
    SameRxSdu n n' := by
  induction acts generalizing n with
  | nil =>
    cases h
    exact ⟨rfl, rfl⟩
  | cons a acts ih =>
    obtain ⟨n₁, h₁, h⟩ := bind_eq_ok h
    have hfirst := linkAct_sameRxSdu c h₁
    have hrest := ih h
    exact ⟨hrest.1.trans hfirst.1, hrest.2.trans hfirst.2⟩

theorem callOut_sameRxSdu {n' : Node} (h : callOut c n = .ok n') : SameRxSdu n n' := by
  unfold callOut at h
  split at h
  · cases h
    exact ⟨rfl, rfl⟩
  · have hacts := runActs_sameRxSdu c h
    exact hacts

/-! ### Segmentation and reassembly -/

/-- An SDU put on an empty `xmit_hold_q` is sent in I-frames that segment it, none longer than the
MPS, and whoever receives them in order, with an MTU that allows the SDU and none half received,
delivers that SDU once and is then waiting for a new one. The state in which the SDU is handed to
the upper layer is `m₁`; whatever that does, `m₂`, is not about reassembly. -/
theorem segmentation_reassembly_inverse (hc : c.peerCfg.mode = .ertm)
    (hmps : l2capSduLenOverhead < c.txMps) {n : Node} (hq : n.fcrb.retransQ = []) {b : BtHdr}
    (hhold : n.xmitHoldQ = [b]) (hb : b.event = 0) (hfits : SegmentsFit c.txMps b) :
    ∃ n' frames, xmitSegs c (b.len + 1) n = .ok (n', frames) ∧ n'.xmitHoldQ = [] ∧
      (∀ f ∈ frames, frameCtrl f.bytes % 2 = 0) ∧
      IsSegmentation c.txMps b.bytes
        (frames.map fun f => frameSeg (l2cuGetFcsLen c) f.bytes) ∧
      ∀ (r : ChanCfg) (m : Node) (rx : List (BtHdr × Nat)),
        b.len ≤ r.maxRxMtu → m.isOpen = true → m.fcrb.pRxSdu = none →
        List.Forall₂ Received (frames.map fun f => frameSeg (l2cuGetFcsLen c) f.bytes) rx →
        ∃ m₁ : Node, m₁.delivered = m.delivered ++ [b.bytes] ∧ m₁.fcrb.pRxSdu = none ∧
          m₁.env = m.env ∧
          reassemble r m rx = (callOut r m₁ >>= fun m₂ => pure (m₂, true)) ∧
          ∀ m₂, callOut r m₁ = .ok m₂ →
            m₂.delivered = m.delivered ++ [b.bytes] ∧ m₂.fcrb.pRxSdu = none := by
  obtain ⟨n', frames, segs, hrun, hempty, hsegs, hall⟩ := xmitSegs_sdu c hc hmps hq hhold hb hfits
  have hmap : frames.map (fun f => frameSeg (l2cuGetFcsLen c) f.bytes) = segs := by
    have heq := List.forall₂_map_left_iff.mpr (hall.imp fun _ _ h => h.2)
    rwa [List.forall₂_eq_eq_eq] at heq
  have heven : ∀ f ∈ frames, frameCtrl f.bytes % 2 = 0 := by
    intro f hf
    clear hrun hsegs hmap
    induction hall with
    | nil => cases hf
    | cons hhead _ ih =>
      rcases List.mem_cons.mp hf with rfl | hf
      · exact hhead.1
      · exact ih hf
  have hshort := hfits.len
  have htail := hfits.cuttable.tailroom
  have hlen : b.bytes.length = b.len := BtHdr.bytes_length (by omega)
  refine ⟨n', frames, hrun, hempty, heven, ?_, ?_⟩
  · rw [hmap]
    exact hsegs.isSegmentation hmps.le
  · intro r m rx hmtu ho hm hrx
    rw [hmap] at hrx
    -- the callback runs with the SDU already taken out of the buffer
    obtain ⟨len, heq⟩ := reassemble_sdu r hsegs (hlen.trans_lt hshort) (hlen.trans_le hmtu) ho hm
      hrx
    refine ⟨{ m.setRx len none with delivered := m.delivered ++ [b.bytes] }, rfl, rfl, rfl, heq, ?_⟩
    intro m₂ hm₂
    exact callOut_sameRxSdu r hm₂

/-- The default channel with another MPS. -/
def ChanCfg.withMps (mps : Nat) : ChanCfg := { ChanCfg.default with txMps := mps }

/-- A channel that has only the SDU `b` to send. -/
def Node.holding (b : BtHdr) : Node := { Node.init with xmitHoldQ := [b] }

/-- Nine bytes with an MPS of four. -/
theorem segmentation_reassembly_nine :
    ∃ n' frames,
      xmitSegs (.withMps 4) 10 (.holding (SduBuf.ofBytes [1, 2, 3, 4, 5, 6, 7, 8, 9]).toBtHdr)
        = .ok (n', frames) ∧
      IsSegmentation 4 [1, 2, 3, 4, 5, 6, 7, 8, 9]
        (frames.map fun f => frameSeg (l2cuGetFcsLen (.withMps 4)) f.bytes) := by
  obtain ⟨n', frames, hrun, -, -, hseg, -⟩ :=
    segmentation_reassembly_inverse (.withMps 4) rfl (by decide)
      (n := .holding (SduBuf.ofBytes [1, 2, 3, 4, 5, 6, 7, 8, 9]).toBtHdr) rfl
      (b := (SduBuf.ofBytes [1, 2, 3, 4, 5, 6, 7, 8, 9]).toBtHdr) rfl rfl
      ⟨by decide, by decide, by decide, by decide, by decide, by decide⟩
  exact ⟨n', frames, hrun, hseg⟩

/-- An SDU of zeros with a one at its end, and the least room in front and behind. -/
def sduEndingInOne (len : Nat) : BtHdr where
  len := len + 1
  offset := 13
  data := List.replicate (13 + len) 0 ++ [1, 0, 0]

theorem sduEndingInOne_bytes (len : Nat) :
    (sduEndingInOne len).bytes = List.replicate len 0 ++ [1] := by
  have hdrop : List.drop 13 (List.replicate (13 + len) (0 : UInt8) ++ [1, 0, 0]) =
      List.replicate len 0 ++ [1, 0, 0] := by
    rw [List.drop_append_of_le_length (by rw [List.length_replicate]; omega), List.drop_replicate,
      Nat.add_sub_cancel_left]
  show List.take (len + 1) (List.drop 13 (List.replicate (13 + len) 0 ++ [1, 0, 0])) = _
  rw [hdrop, List.take_append, List.length_replicate, List.take_of_length_le (by simp),
    Nat.add_sub_cancel_left]
  rfl

/-- A buffer for the first segment of 65513 bytes would take more than 65535 bytes. -/
theorem long_segment_overruns :
    xmitSegs (.withMps 65515) 65521 (.holding (sduEndingInOne 65519)) = .error .overrun := by
  have hcut : cutSegment (.withMps 65515) (sduEndingInOne 65519) [] 65515 = .error .overrun := by
    have hclone : l2cFcrCloneBuf (sduEndingInOne 65519) 15 65513 = .error .overrun := by
      rw [l2cFcrCloneBuf]
      exact if_neg fun h => absurd h.1 (by decide)
    rw [cutSegment, if_pos (by decide)]
    exact congrArg (· >>= _) hclone
  have hnext : l2cFcrGetNextXmitSduSeg (.withMps 65515) (.holding (sduEndingInOne 65519)) 0 =
      .error .overrun :=
    congrArg (· >>= _) hcut
  rw [xmitSegs, if_neg (by decide), hnext]
  rfl

/-- With an MPS of 2048 the last byte of the longest SDU is read at offset 11, in front of it. -/
theorem long_sdu_misread :
    ∃ n' frames f,
      xmitSegs (.withMps 2048) 65536 (.holding (sduEndingInOne 65534)) = .ok (n', frames ++ [f]) ∧
      Carries (.withMps 2048) f ⟨.final, [0]⟩ := by
  have htail : 13 + 65535 + 2 ≤ (sduEndingInOne 65534).data.length := by
    rw [sduEndingInOne, List.length_append, List.length_replicate]
    decide
  have hok : Cuttable (sduEndingInOne 65534) 2048 :=
    ⟨by decide, htail, by decide, fun hlast => absurd hlast (by decide), by decide⟩
  obtain ⟨n₁, f₁, hstep, hq₁, -, hrest⟩ := nextSduSeg_step (.withMps 2048) rfl (by decide)
    (n := .holding (sduEndingInOne 65534)) rfl rfl hok (by decide)
  -- behind the first segment, 31 full ones and one byte are left
  obtain ⟨n', frames, f, hrun, hf⟩ := xmitSegs_last (.withMps 2048) rfl (by decide) (by decide)
    (j := 31) (k := 65535) (r := 1) (b := (sduEndingInOne 65534).advance 2046 0x40) hq₁ hrest
    (by decide) (by decide) (by decide) (by decide) (by decide) (by decide)
    (le_trans (by decide) htail)
    (fun i hi => by
      show 6 ≤ (2059 + i * 2048) % 65536
      omega)
    (by decide)
  refine ⟨n', f₁ :: frames, f, ?_, ?_⟩
  · rw [xmitSegs, if_neg (by decide), hstep, ok_bind]
    dsimp only
    rw [hrun]
    rfl
  · have hread : List.take 1 (List.drop 11 (List.replicate (13 + 65534) (0 : UInt8) ++ [1, 0, 0])) =
        [0] := by
      rw [List.drop_append_of_le_length (by rw [List.length_replicate]; decide),
        List.drop_replicate,
        List.take_append_of_le_length (by rw [List.length_replicate]; decide), List.take_replicate]
      rfl
    rw [← hread]
    exact hf

/-- Neither bound of `SegmentsFit` can be left out: an SDU of 65520 bytes with an MPS of 65515
overruns a block, and one of 65535 bytes with an MPS of 2048 is not the one that is sent. -/
theorem long_sdus_not_inverse :
    xmitSegs (.withMps 65515) 65521 (.holding (sduEndingInOne 65519)) = .error .overrun ∧
      ∃ n' frames,
        xmitSegs (.withMps 2048) 65536 (.holding (sduEndingInOne 65534)) = .ok (n', frames) ∧
        ¬ IsSegmentation 2048 (sduEndingInOne 65534).bytes
          (frames.map fun f => frameSeg (l2cuGetFcsLen (.withMps 2048)) f.bytes) := by
  obtain ⟨n', frames, f, hrun, hf⟩ := long_sdu_misread
  refine ⟨long_segment_overruns, n', frames ++ [f], hrun, fun hseg => ?_⟩
  have hpayload := hseg.payload
  rw [sduEndingInOne_bytes, List.map_append, List.map_append, List.flatten_append, List.map_cons,
    List.map_nil, hf.2] at hpayload
  obtain ⟨-, hbyte⟩ := List.append_inj' hpayload rfl
  exact absurd hbyte (by decide)

end BluetoothStack.L2cap
