import BluetoothStack.Rfcomm.Ports
import BluetoothStack.Lib.Window

/-!
# BluetoothStack.Rfcomm.Frames

The frames of RFCOMM, `rfc_ts_frames.cc`: UIH frames as they are written in front of a payload and
read by the other end, and the TEST messages that go in them on DLCI 0.

A buffer is a window onto what is allocated. Reads that the source guards by the length of the
packet are patterns on the bytes in the window; `none` is `RFC_EVENT_BAD_FRAME`, or a write outside
the allocation.
-/

namespace BluetoothStack.Rfcomm

open BluetoothStack.Lib

/-! ### Frame check sequence -/

/-- `rfc_crctable`. -/
def rfcCrctable : List UInt8 :=
  [0x00, 0x91, 0xE3, 0x72, 0x07, 0x96, 0xE4, 0x75, 0x0E, 0x9F, 0xED, 0x7C, 0x09, 0x98, 0xEA, 0x7B,
    0x1C, 0x8D, 0xFF, 0x6E, 0x1B, 0x8A, 0xF8, 0x69, 0x12, 0x83, 0xF1, 0x60, 0x15, 0x84, 0xF6, 0x67,
    0x38, 0xA9, 0xDB, 0x4A, 0x3F, 0xAE, 0xDC, 0x4D, 0x36, 0xA7, 0xD5, 0x44, 0x31, 0xA0, 0xD2, 0x43,
    0x24, 0xB5, 0xC7, 0x56, 0x23, 0xB2, 0xC0, 0x51, 0x2A, 0xBB, 0xC9, 0x58, 0x2D, 0xBC, 0xCE, 0x5F,
    0x70, 0xE1, 0x93, 0x02, 0x77, 0xE6, 0x94, 0x05, 0x7E, 0xEF, 0x9D, 0x0C, 0x79, 0xE8, 0x9A, 0x0B,
    0x6C, 0xFD, 0x8F, 0x1E, 0x6B, 0xFA, 0x88, 0x19, 0x62, 0xF3, 0x81, 0x10, 0x65, 0xF4, 0x86, 0x17,
    0x48, 0xD9, 0xAB, 0x3A, 0x4F, 0xDE, 0xAC, 0x3D, 0x46, 0xD7, 0xA5, 0x34, 0x41, 0xD0, 0xA2, 0x33,
    0x54, 0xC5, 0xB7, 0x26, 0x53, 0xC2, 0xB0, 0x21, 0x5A, 0xCB, 0xB9, 0x28, 0x5D, 0xCC, 0xBE, 0x2F,
    0xE0, 0x71, 0x03, 0x92, 0xE7, 0x76, 0x04, 0x95, 0xEE, 0x7F, 0x0D, 0x9C, 0xE9, 0x78, 0x0A, 0x9B,
    0xFC, 0x6D, 0x1F, 0x8E, 0xFB, 0x6A, 0x18, 0x89, 0xF2, 0x63, 0x11, 0x80, 0xF5, 0x64, 0x16, 0x87,
    0xD8, 0x49, 0x3B, 0xAA, 0xDF, 0x4E, 0x3C, 0xAD, 0xD6, 0x47, 0x35, 0xA4, 0xD1, 0x40, 0x32, 0xA3,
    0xC4, 0x55, 0x27, 0xB6, 0xC3, 0x52, 0x20, 0xB1, 0xCA, 0x5B, 0x29, 0xB8, 0xCD, 0x5C, 0x2E, 0xBF,
    0x90, 0x01, 0x73, 0xE2, 0x97, 0x06, 0x74, 0xE5, 0x9E, 0x0F, 0x7D, 0xEC, 0x99, 0x08, 0x7A, 0xEB,
    0x8C, 0x1D, 0x6F, 0xFE, 0x8B, 0x1A, 0x68, 0xF9, 0x82, 0x13, 0x61, 0xF0, 0x85, 0x14, 0x66, 0xF7,
    0xA8, 0x39, 0x4B, 0xDA, 0xAF, 0x3E, 0x4C, 0xDD, 0xA6, 0x37, 0x45, 0xD4, 0xA1, 0x30, 0x42, 0xD3,
    0xB4, 0x25, 0x57, 0xC6, 0xB3, 0x22, 0x50, 0xC1, 0xBA, 0x2B, 0x59, 0xC8, 0xBD, 0x2C, 0x5E, 0xCF]

/-- One byte goes into the check sequence. -/
def fcsStep (fcs b : UInt8) : UInt8 := rfcCrctable.getD (fcs ^^^ b).toNat 0

/-- `rfc_calc_fcs`. -/
def rfcCalcFcs (p : List UInt8) : UInt8 := 0xFF - p.foldl fcsStep 0xFF

/-- `rfc_check_fcs`. -/
def rfcCheckFcs (p : List UInt8) (receivedFcs : UInt8) : Bool :=
  fcsStep (p.foldl fcsStep 0xFF) receivedFcs == 0xCF

theorem xor_complement : ∀ fcs : UInt8, fcs ^^^ (0xFF - fcs) = 0xFF := by
  decide +kernel

/-- The check sequence and its complement meet at the last entry of the table, whatever went before.
-/
theorem rfcCheckFcs_calc (p : List UInt8) : rfcCheckFcs p (rfcCalcFcs p) = true := by
  rw [rfcCheckFcs, rfcCalcFcs, fcsStep, xor_complement]
  rfl

/-! ### Writing a frame -/

/-- `BT_HDR`. -/
abbrev BtHdr := Window UInt8

def rfcommCtrlFrameLen : Nat := 3
def rfcommMinOffset : Nat := 5
def rfcommUih : UInt8 := 0xEF
def rfcommPf : UInt8 := 0x10
def rfcommMxDlci : UInt8 := 0

/-- `RFCOMM_CR` of a command. -/
def commandCr (isInitiator : Bool) : UInt8 := if isInitiator then 0x02 else 0x00

/-- The first byte of a UIH frame. -/
def uihAddress (isInitiator : Bool) (dlci : UInt8) : UInt8 :=
  (0x01 : UInt8) ||| commandCr isInitiator ||| (dlci <<< 2)

/-- The length of a payload, in one byte or in two. -/
def lengthField (len : Nat) : List UInt8 :=
  if len ≤ 127 then [0x01 ||| UInt8.ofNat (len * 2)]
  else [UInt8.ofNat (len % 128 * 2), UInt8.ofNat (len / 128)]

/-- The bytes in front of the payload. -/
def uihHeader (isInitiator : Bool) (dlci credits : UInt8) (len : Nat) : List UInt8 :=
  [uihAddress isInitiator dlci, rfcommUih ||| if credits ≠ 0 then rfcommPf else 0] ++ lengthField
    len ++ if credits ≠ 0 then [credits] else []

/-- `rfc_send_buf_uih`: the packet that is handed on. -/
def rfcSendBufUih (isInitiator : Bool) (dlci : UInt8) (layerSpecific : Nat) (b : BtHdr) :
    Option BtHdr := do
  let credits := if dlci ≠ 0 then UInt8.ofNat layerSpecific else 0
  let space := rfcommCtrlFrameLen + (if b.len > 127 then 1 else 0) + if credits ≠ 0 then 1 else 0
  let header := uihHeader isInitiator dlci credits b.len
  let w ← Window.write? { b with offset := sub16 b.offset space } 0 header
  let w := { w with len := u16 (b.len + header.length) }
  let w ← w.write? w.len [rfcCalcFcs (← w.read? 0 2)]
  return { w with len := u16 (w.len + 1) }

/-! ### Reading a frame -/

/-- The frames that `rfc_parse_data` knows, by their codes. -/
inductive FrameType
  | sabme | ua | dm | disc | uih
deriving DecidableEq, Repr

def FrameType.ofCode (code : UInt8) : Option FrameType :=
  if code = 0x2F then some .sabme
  else if code = 0x63 then some .ua
  else if code = 0x0F then some .dm
  else if code = 0x43 then some .disc
  else if code = rfcommUih then some .uih
  else none

/-- What `rfc_parse_data` reads of the multiplexer. -/
structure Receiver where
  isInitiator : Bool
  /-- `flow == PORT_FC_CREDIT` -/
  creditFlow : Bool

/-- `MX_FRAME`, and how much of the packet is in front of the payload. -/
structure Parsed where
  event : FrameType
  dlci : UInt8
  credit : UInt8
  headerLen : Nat
  payload : List UInt8
deriving DecidableEq, Repr

/-- A control frame is accepted: of the right direction, with the P/F bit where it must be, empty
and with a valid check sequence. -/
def controlOk (p : List UInt8) (fcs : UInt8) (dlci : UInt8) (fromPeer pf : Bool) (len : Nat) :
    Bool :=
  fromPeer && pf && len == 0 && validDlci dlci.toNat && rfcCheckFcs (p.take rfcommCtrlFrameLen) fcs

/-- The last part of `rfc_parse_data`: which event the frame is. -/
def acceptsFrame (rx : Receiver) (p : List UInt8) (fcs : UInt8) (type : FrameType) (cr pf : Bool)
    (dlci : UInt8) (len : Nat) : Bool :=
  -- `RFCOMM_FRAME_IS_CMD`
  let isCmd := rx.isInitiator != cr
  match type with
  | .sabme | .disc => controlOk p fcs dlci isCmd pf len
  | .ua => controlOk p fcs dlci (!isCmd) pf len
  | .dm => controlOk p fcs dlci (!isCmd) true len
  | .uih => validDlci dlci.toNat && rfcCheckFcs (p.take 2) fcs

/-- The declared length, and the bytes behind it. -/
def readLength : List UInt8 → Option (Nat × List UInt8)
  | [] => none
  | len1 :: rest =>
    if len1 &&& 0x01 ≠ 0 then some (len1.toNat / 2, rest)
    else
      match rest with
      | [] => none
      | len2 :: rest => some (len1.toNat / 2 + len2.toNat * 128, rest)

/-- The credit, if the frame has one, and the bytes behind it; the last one is the check sequence.
-/
def readCredit (hasCredit : Bool) (body : List UInt8) : Option (UInt8 × List UInt8) :=
  match hasCredit, body with
  | _, [] => none
  | false, body => some (0, body)
  | true, [_] => none
  | true, credit :: body => some (credit, body)

/-- A UIH frame on a DLCI other than that of the multiplexer has a credit if its P/F bit is set. -/
def hasCredit (rx : Receiver) (addr ctrl : UInt8) : Bool :=
  rx.creditFlow && ctrl &&& 0xEF == rfcommUih && addr >>> 2 != rfcommMxDlci && ctrl &&& 0x10 != 0

/-- The end of `rfc_parse_data`, once the header of the packet `p` is read. -/
def parseBody (rx : Receiver) (p : List UInt8) (addr ctrl : UInt8) (len : Nat) (credit : UInt8)
    (body : List UInt8) : Option Parsed :=
  if body.length - 1 ≠ len then none
  else
    match FrameType.ofCode (ctrl &&& 0xEF) with
    | none => none
    | some type =>
      if acceptsFrame rx p (body.getD len 0) type (addr &&& 0x02 != 0) (ctrl &&& 0x10 != 0)
        (addr >>> 2) len then
        some ⟨type, addr >>> 2, credit, p.length - body.length, body.take len⟩
      else none

/-- `rfc_parse_data`, on the bytes of the packet. -/
def parseBytes (rx : Receiver) : List UInt8 → Option Parsed
  | addr :: ctrl :: rest =>
    if addr &&& 0x01 = 0 then none
    else do
      let (len, body) ← readLength rest
      let (credit, body) ← readCredit (hasCredit rx addr ctrl) body
      parseBody rx (addr :: ctrl :: rest) addr ctrl len credit body
  | _ => none

/-- `rfc_parse_data`: the frame, and the window on its payload. -/
def rfcParseData (rx : Receiver) (b : BtHdr) : Option (Parsed × BtHdr) := do
  let f ← parseBytes rx (← b.items?)
  return (f, ⟨b.data, b.offset + f.headerLen, f.payload.length⟩)

/-! ### The two fit together -/

theorem lengthByte : ∀ n < 128,
    (0x01 ||| UInt8.ofNat (n * 2)) &&& 0x01 ≠ (0 : UInt8) ∧ (0x01 ||| UInt8.ofNat (n * 2)).toNat /
      2 = n ∧ UInt8.ofNat (n * 2) &&& 0x01 = 0 ∧ (UInt8.ofNat (n * 2)).toNat / 2 = n := by
  decide

theorem readLength_lengthField {len : Nat} (hlen : len ≤ 32767) (rest : List UInt8) :
    readLength (lengthField len ++ rest) = some (len, rest) := by
  rw [lengthField]
  split
  next hshort =>
    obtain ⟨hodd, hval, -⟩ := lengthByte len (by omega)
    simp only [List.singleton_append, readLength, if_pos hodd, hval]
  · obtain ⟨-, -, heven, hval⟩ := lengthByte (len % 128) (Nat.mod_lt _ (by decide))
    have hsecond : (UInt8.ofNat (len / 128)).toNat = len / 128 := by
      rw [UInt8.toNat_ofNat']
      exact Nat.mod_eq_of_lt (by omega)
    simp only [List.cons_append, List.nil_append, readLength, if_neg (not_not.mpr heven), hval,
      hsecond]
    rw [Nat.mul_comm, Nat.mod_add_div]

/-- The address byte of a frame, read again. -/
theorem addressByte : ∀ (isInitiator : Bool) (dlci : UInt8), dlci.toNat ≤ 61 →
    uihAddress isInitiator dlci &&& 0x01 ≠ 0 ∧ uihAddress isInitiator dlci >>> 2 = dlci := by
  decide +kernel

theorem validDlci_le {dlci : Nat} (h : validDlci dlci = true) : dlci ≤ 61 := by
  simp only [validDlci, Bool.or_eq_true, beq_iff_eq, Bool.and_eq_true, decide_eq_true_eq] at h
  rcases h with rfl | ⟨-, h⟩
  · decide
  · exact h

/-- A frame as it is on the air. -/
def uihFrame (isInitiator : Bool) (dlci credits : UInt8) (payload : List UInt8) : List UInt8 :=
  let header := uihHeader isInitiator dlci credits payload.length
  header ++ (payload ++ [rfcCalcFcs (header.take 2)])

variable {dlci credits : UInt8} {p payload : List UInt8} {w : BtHdr} {front back : List UInt8}
  {y : UInt8} {body : List UInt8} (isInitiator isCommand : Bool)

/-- The type byte of a frame, read again. -/
theorem readCredit_uih (rx : Receiver) (hrx : rx.creditFlow = true) {addr : UInt8}
    (haddr : addr >>> 2 = dlci) (hmx : dlci = 0 → credits = 0) (payload : List UInt8)
    (fcs : UInt8) :
    readCredit (hasCredit rx addr (rfcommUih ||| if credits ≠ 0 then rfcommPf else 0))
      ((if credits ≠ 0 then [credits] else []) ++ (payload ++ [fcs])) =
        some (credits, payload ++ [fcs]) := by
  have hcons : ∃ x l, payload ++ [fcs] = x :: l := by
    cases payload with
    | nil => exact ⟨fcs, [], rfl⟩
    | cons x l => exact ⟨x, l ++ [fcs], rfl⟩
  obtain ⟨x, l, hbody⟩ := hcons
  rw [hbody, hasCredit, hrx, haddr]
  by_cases hc : credits = 0
  · subst hc
    rw [show ((rfcommUih ||| if (0 : UInt8) ≠ 0 then rfcommPf else 0) &&& 0x10 != 0) =
      false from rfl, Bool.and_false]
    rfl
  · have hdlci : dlci ≠ rfcommMxDlci := fun h => hc (hmx h)
    rw [if_pos hc, if_pos hc, bne_iff_ne.mpr hdlci]
    rfl

theorem parseBody_uih (rx : Receiver) {addr ctrl credit : UInt8}
    (htype : ctrl &&& 0xEF = rfcommUih) (hdlci : validDlci (addr >>> 2).toNat = true) :
    parseBody rx p addr ctrl payload.length credit (payload ++ [rfcCalcFcs (p.take 2)]) =
      some ⟨.uih, addr >>> 2, credit, p.length - (payload.length + 1), payload⟩ := by
  have hfcs : (payload ++ [rfcCalcFcs (p.take 2)]).getD payload.length 0 =
      rfcCalcFcs (p.take 2) := by
    simp
  have haccept : acceptsFrame rx p (rfcCalcFcs (p.take 2)) .uih (addr &&& 0x02 != 0)
    (ctrl &&& 0x10 != 0) (addr >>> 2) payload.length = true := by
    rw [acceptsFrame, hdlci, rfcCheckFcs_calc]
    rfl
  rw [parseBody, if_neg (by simp), htype, hfcs, show FrameType.ofCode rfcommUih =
    some .uih from rfl]
  dsimp only
  rw [if_pos haccept, List.length_append, List.take_left]
  rfl

theorem parseBytes_uihFrame (hdlci : validDlci dlci.toNat = true) (hmx : dlci = 0 → credits = 0)
    (hlen : payload.length ≤ 32767) :
    parseBytes ⟨!isInitiator, true⟩ (uihFrame isInitiator dlci credits payload) =
      some ⟨.uih, dlci, credits, (uihHeader isInitiator dlci credits payload.length).length,
        payload⟩ := by
  obtain ⟨hea, haddr⟩ := addressByte isInitiator dlci (validDlci_le hdlci)
  have htype : (rfcommUih ||| if credits ≠ 0 then rfcommPf else 0) &&& 0xEF = rfcommUih := by
    split <;> rfl
  have hcredit := readCredit_uih ⟨!isInitiator, true⟩ rfl haddr hmx payload
  rw [uihFrame, uihHeader]
  generalize (rfcommUih ||| if credits ≠ 0 then rfcommPf else 0) = ctrl at *
  simp only [List.cons_append, List.nil_append, List.append_assoc, parseBytes, if_neg hea,
    readLength_lengthField hlen, hcredit, Option.bind_eq_bind, Option.bind_some]
  refine (parseBody_uih _ htype (haddr.symm ▸ hdlci)).trans ?_
  rw [haddr]
  simp only [List.length_cons, List.length_append, List.length_nil]
  congr 2
  omega

theorem uihHeader_length (dlci credits : UInt8) (len : Nat) :
    (uihHeader isInitiator dlci credits len).length =
      rfcommCtrlFrameLen + (if len > 127 then 1 else 0) + if credits ≠ 0 then 1 else 0 := by
  have hlength : (lengthField len).length = 1 + if len > 127 then 1 else 0 := by
    rw [lengthField]
    split
    · rw [if_neg (by omega)]
      rfl
    · rw [if_pos (by omega)]
      rfl
  have hcredits : (if credits ≠ 0 then [credits] else []).length = if credits ≠ 0 then 1
      else 0 := by
    split <;> rfl
  rw [uihHeader, List.length_append, List.length_append, hlength, hcredits]
  simp only [List.length_cons, List.length_nil, rfcommCtrlFrameLen]
  omega

/-- The credits that go with a packet. -/
def creditsOf (dlci : UInt8) (layerSpecific : Nat) : UInt8 :=
  if dlci ≠ 0 then UInt8.ofNat layerSpecific else 0

/-- The frame takes the space in front of the payload and one byte behind it. -/
theorem rfcSendBufUih_spec {x : List UInt8} (dlci : UInt8) (layerSpecific : Nat)
    (h : w.Holds (front ++ x) payload (y :: back)) (hx : x.length =
      (uihHeader isInitiator dlci (creditsOf dlci layerSpecific) payload.length).length)
    (hoffset : w.offset < 65536) (hlen : payload.length ≤ 32767) :
    ∃ w', rfcSendBufUih isInitiator dlci layerSpecific w = some w' ∧
      w'.Holds front (uihFrame isInitiator dlci (creditsOf dlci layerSpecific) payload) back := by
  set credits := creditsOf dlci layerSpecific with hcredits
  set header := uihHeader isInitiator dlci credits payload.length with hheader
  have hsize : header.length ≤ 5 := by
    rw [hheader, uihHeader_length]
    simp only [rfcommCtrlFrameLen]
    split <;> split <;> omega
  -- the source moves the offset back by the size of the header it is about to write
  have hspace : rfcommCtrlFrameLen + (if w.len > 127 then 1 else 0) +
      (if credits ≠ 0 then 1 else 0) = header.length := by
    rw [h.len, hheader, uihHeader_length]
  have hoff := h.offset
  rw [List.length_append, hx] at hoff
  have hsub : sub16 w.offset header.length = front.length := by
    rw [sub16_of_le hoffset (by omega)]
    omega
  have hdata : w.data = front ++ (x ++ (payload ++ y :: back)) := by
    rw [h.data, List.append_assoc]
  have hwrite : Window.write? { w with offset := front.length } 0 header =
      some ⟨front ++ (header ++ (payload ++ y :: back)), front.length, w.len⟩ :=
    Window.write?_eq (w := { w with offset := front.length }) hdata rfl header hx.symm
  have hu16 : u16 (w.len + header.length) = payload.length + header.length := by
    rw [h.len]
    exact u16_of_lt (by omega)
  have hread : Window.read? ⟨front ++ (header ++ (payload ++ y :: back)), front.length,
      payload.length + header.length⟩ 0 2 = some (header.take 2) :=
    Window.read?_eq rfl rfl rfl
  have hfcs : Window.write? ⟨front ++ (header ++ (payload ++ y :: back)), front.length,
      payload.length + header.length⟩ (payload.length + header.length)
        [rfcCalcFcs (header.take 2)] =
      some ⟨front ++ (header ++ payload) ++ ([rfcCalcFcs (header.take 2)] ++ back), front.length,
        payload.length + header.length⟩ := by
    refine Window.write?_eq (x := [y]) ?_ ?_ _ rfl
    · simp
    · simp only [List.length_append]
      omega
  have hu16' : u16 (payload.length + header.length + 1) = payload.length + header.length + 1 :=
    u16_of_lt (by omega)
  refine ⟨⟨front ++ (header ++ payload) ++ ([rfcCalcFcs (header.take 2)] ++ back), front.length,
    payload.length + header.length + 1⟩, ?_, ?_, rfl, ?_⟩
  · rw [rfcSendBufUih]
    dsimp only
    rw [show (if dlci ≠ 0 then UInt8.ofNat layerSpecific else 0) = credits from rfl, hspace, hsub,
      show uihHeader isInitiator dlci credits w.len = header by rw [hheader, h.len], hwrite]
    simp only [Option.bind_eq_bind, Option.bind_some, hu16, hread, hfcs, hu16']
    rfl
  · simp [uihFrame, ← hheader]
  · simp only [uihFrame, ← hheader, List.length_append, List.length_singleton]
    omega

/-- Five bytes are enough for any header. -/
theorem rfcSendBufUih_room (dlci : UInt8) (layerSpecific : Nat)
    (h : w.Holds front payload (y :: back)) (hlen : payload.length ≤ 32767)
    (hfront : rfcommMinOffset ≤ w.offset) (hoffset : w.offset < 65536) :
    ∃ front' w', rfcSendBufUih isInitiator dlci layerSpecific w = some w' ∧
      w'.Holds front' (uihFrame isInitiator dlci (creditsOf dlci layerSpecific) payload) back := by
  set header := uihHeader isInitiator dlci (creditsOf dlci layerSpecific) payload.length
    with hheader
  have hsize : header.length ≤ rfcommMinOffset := by
    rw [hheader, uihHeader_length]
    simp only [rfcommCtrlFrameLen, rfcommMinOffset]
    split <;> split <;> omega
  -- The header goes over the last bytes in front of the payload.
  have hx : (front.drop (front.length - header.length)).length = header.length := by
    rw [List.length_drop, ← h.offset, Nat.sub_sub_self (hsize.trans hfront)]
  rw [← List.take_append_drop (front.length - header.length) front] at h
  obtain ⟨w', hsend, h'⟩ := rfcSendBufUih_spec isInitiator dlci layerSpecific h hx hoffset hlen
  exact ⟨_, w', hsend, h'⟩

/-- A byte is left behind the window. -/
theorem exists_behind (hitems : w.items? = some payload)
    (hback : w.offset + w.len < w.data.length) :
    ∃ front y back, w.Holds front payload (y :: back) := by
  obtain ⟨front, back, h⟩ := Window.exists_holds hitems
  cases back with
  | nil =>
    have hdata := congrArg List.length h.data
    rw [List.append_nil, List.length_append, ← h.offset, ← h.len] at hdata
    exact absurd hdata hback.ne'
  | cons y back => exact ⟨front, y, back, h⟩

/-- The frame is read by the other end, and the window moves to its payload. -/
theorem rfcParseData_uihFrame {isInitiator : Bool}
    (h : w.Holds front (uihFrame isInitiator dlci credits payload) back)
    (hdlci : validDlci dlci.toNat = true) (hmx : dlci = 0 → credits = 0)
    (hlen : payload.length ≤ 32767) :
    ∃ f w', rfcParseData ⟨!isInitiator, true⟩ w = some (f, w') ∧ f.event = .uih ∧ f.dlci = dlci ∧
      f.credit = credits ∧
      w'.Holds (front ++ uihHeader isInitiator dlci credits payload.length) payload
        (rfcCalcFcs ((uihHeader isInitiator dlci credits payload.length).take 2) :: back) := by
  have hparse := parseBytes_uihFrame isInitiator hdlci hmx hlen
  set header := uihHeader isInitiator dlci credits payload.length with hheader
  refine ⟨⟨.uih, dlci, credits, header.length, payload⟩,
    ⟨w.data, w.offset + header.length, payload.length⟩, ?_, rfl, rfl, rfl, ?_⟩
  · rw [rfcParseData, h.all]
    simp only [Option.bind_eq_bind, Option.bind_some, hparse]
    rfl
  · refine ⟨?_, ?_, rfl⟩
    · rw [h.data]
      simp [uihFrame, ← hheader]
    · rw [h.offset, List.length_append]

/-- The length that the header of a packet gives it: the header itself, the credit, the payload and
the check sequence. -/
def declaredSize (rx : Receiver) : List UInt8 → Option Nat
  | addr :: ctrl :: rest =>
    (readLength rest).map fun (len, body) =>
      2 + (rest.length - body.length) + (if hasCredit rx addr ctrl then 1 else 0) + len + 1
  | _ => none

theorem readLength_length {len : Nat} (h : readLength p = some (len, body)) :
    body.length < p.length := by
  cases p with
  | nil => cases h
  | cons len1 rest =>
    simp only [readLength] at h
    split at h
    · cases h
      exact Nat.lt_succ_self _
    · cases rest with
      | nil => cases h
      | cons len2 rest =>
        cases h
        exact (Nat.lt_succ_self _).trans (Nat.lt_succ_self _)

theorem readCredit_length {hasCredit : Bool} {credit : UInt8}
    (h : readCredit hasCredit p = some (credit, body)) :
    p.length = (if hasCredit then 1 else 0) + body.length ∧ body ≠ [] := by
  match hasCredit, p, h with
  | false, x :: l, h =>
    cases h
    exact ⟨(Nat.zero_add _).symm, List.cons_ne_nil x l⟩
  | true, x :: y :: l, h =>
    cases h
    exact ⟨Nat.add_comm _ _, List.cons_ne_nil y l⟩

theorem parseBytes_size {rx : Receiver} {f : Parsed} (h : parseBytes rx p = some f) :
    declaredSize rx p = some p.length := by
  match p, h with
  | addr :: ctrl :: rest, h =>
    simp only [parseBytes] at h
    split at h
    · cases h
    obtain ⟨⟨len, body⟩, hlen, h⟩ := Option.bind_eq_some_iff.mp h
    obtain ⟨⟨credit, body'⟩, hcredit, h⟩ := Option.bind_eq_some_iff.mp h
    simp only [parseBody] at h hcredit
    split at h
    · cases h
    rename_i hsize
    have hshorter := readLength_length hlen
    obtain ⟨hbody, hne⟩ := readCredit_length hcredit
    have hpos := List.length_pos_of_ne_nil hne
    simp only [declaredSize, hlen, Option.map_some, List.length_cons]
    congr 1
    omega

/-- **Data frames round-trip.** A payload of up to 32767 bytes, with space for the header in front
of it and for the check sequence behind it, is read by the other end as it was, with its DLCI and
its credits. And a packet is only accepted if it has the length that its header gives it. -/
theorem uih_frames_round_trip {w : BtHdr} {payload : List UInt8} {dlci : UInt8} {credit : Nat}
    (isInitiator : Bool) (hdlci : validDlci dlci.toNat = true) (hmx : dlci ≠ rfcommMxDlci)
    (hcredit : credit ≤ 255) (hlen : payload.length ≤ 32767) (hitems : w.items? = some payload)
    (hfront : rfcommMinOffset ≤ w.offset) (hoffset : w.offset < 65536)
    (hback : w.offset + w.len < w.data.length) :
    (∃ w' f w'', rfcSendBufUih isInitiator dlci credit w = some w' ∧
      rfcParseData ⟨!isInitiator, true⟩ w' = some (f, w'') ∧ f.event = .uih ∧ f.dlci = dlci ∧
      f.credit.toNat = credit ∧ w''.items? = some payload) ∧
    ∀ rx v f v', rfcParseData rx v = some (f, v') →
      ∃ p, v.items? = some p ∧ declaredSize rx p = some p.length := by
  refine ⟨?_, ?_⟩
  · obtain ⟨front, y, back, h⟩ := exists_behind hitems hback
    obtain ⟨front', w', hsend, h⟩ :=
      rfcSendBufUih_room isInitiator dlci credit h hlen hfront hoffset
    have hcredits : creditsOf dlci credit = UInt8.ofNat credit := if_pos hmx
    rw [hcredits] at h
    obtain ⟨f, w'', hparse, hevent, hdlci', hcredit', h'⟩ :=
      rfcParseData_uihFrame h hdlci (fun h0 => absurd h0 hmx) hlen
    refine ⟨w', f, w'', hsend, hparse, hevent, hdlci', ?_, h'.all⟩
    rw [hcredit', UInt8.toNat_ofNat']
    exact Nat.mod_eq_of_lt (by omega)
  · intro rx v f v' h
    obtain ⟨p, hp, h⟩ := Option.bind_eq_some_iff.mp h
    obtain ⟨g, hg, -⟩ := Option.bind_eq_some_iff.mp h
    exact ⟨p, hp, parseBytes_size hg⟩

/-- Two bytes of data with three credits, on DLCI 4. -/
theorem uih_frames_round_trip_two_bytes :
    ∃ w' f w'', rfcSendBufUih true 4 3 ⟨[0, 0, 0, 0, 0, 7, 8, 0], 5, 2⟩ = some w' ∧
      rfcParseData ⟨false, true⟩ w' = some (f, w'') ∧ f.event = .uih ∧ f.dlci = 4 ∧ f.credit.toNat =
        3 ∧ w''.items? = some [7, 8] :=
  (uih_frames_round_trip (w := ⟨[0, 0, 0, 0, 0, 7, 8, 0], 5, 2⟩) true (by decide) (by decide)
    (by decide) (by decide) rfl (by decide) (by decide) (by decide)).1

/-! ### Test messages -/

def rfcommMxTest : UInt8 := 0x20
def l2capMinOffset : Nat := 13

/-- `RFCOMM_I_CR`. -/
def rfcommICr (isCommand : Bool) : UInt8 := if isCommand then 0x02 else 0x00

/-- A message on the control channel of the multiplexer. -/
structure MxMessage where
  isCommand : Bool
  type : UInt8
  body : List UInt8
deriving DecidableEq, Repr

/-- `mx_len`, and the bytes behind it. The length is in a byte, also when it comes in two. -/
def readMxLength : List UInt8 → Option (UInt8 × List UInt8)
  | [] => none
  | len1 :: rest =>
    if len1 &&& 0x01 ≠ 0 then some (len1 >>> 1, rest)
    else
      match rest with
      | [] => none
      | len2 :: rest => some ((len1 >>> 1) + (len2 <<< 7), rest)

/-- The first part of `rfc_process_mx_message`; `none` is a message that is dropped. -/
def readMx : List UInt8 → Option MxMessage
  | [] => none
  | first :: rest =>
    if first &&& 0x01 = 0 then none
    else do
      let (mxLen, body) ← readMxLength rest
      if mxLen.toNat ≠ body.length then none else some ⟨first &&& 0x02 != 0, first &&& 0xFC, body⟩

/-- Space for the headers is made in a new buffer. Its bytes around the message are never read. -/
def shiftBuffer (b : BtHdr) : Option BtHdr :=
  if b.offset < l2capMinOffset + rfcommMinOffset + 2 then do
    let items ← b.items?
    return ⟨List.replicate (l2capMinOffset + rfcommMinOffset + 2) 0 ++ (items ++ [0]),
      l2capMinOffset + rfcommMinOffset + 2, b.len⟩
  else some b

/-- `rfc_send_test`. -/
def rfcSendTest (isInitiator isCommand : Bool) (b : BtHdr) : Option BtHdr := do
  let b ← shiftBuffer b
  let w ← Window.write? { b with offset := sub16 b.offset 2 } 0
    [0x01 ||| rfcommICr isCommand ||| rfcommMxTest, 0x01 ||| UInt8.ofNat (b.len * 2)]
  rfcSendBufUih isInitiator rfcommMxDlci 0 { w with len := u16 (b.len + 2) }

/-- What becomes of a message. -/
inductive MxOutcome
  | dropped
  | sent (b : BtHdr)
  /-- `rfc_process_test_rsp`, with the pattern that is in `rx_frame` then -/
  | testRsp (pattern : List UInt8)
  | other (m : MxMessage)
deriving DecidableEq, Repr

/-- `rfc_process_mx_message`, with the branch of the TEST messages. -/
def rfcProcessMxMessage (isInitiator : Bool) (b : BtHdr) : Option MxOutcome := do
  match readMx (← b.items?) with
  | none => return .dropped
  | some m =>
    if m.type ≠ rfcommMxTest then return .other m
    else if m.body = [] then return .dropped
    else if m.isCommand then
      -- Two bytes are taken off, however long the header was.
      return .sent (← rfcSendTest isInitiator false ⟨b.data, u16 (b.offset + 2), b.len - 2⟩)
    else return .testRsp m.body

/-- A TEST message with a length of one byte. -/
def testMessage (isCommand : Bool) (body : List UInt8) : List UInt8 :=
  [0x01 ||| rfcommICr isCommand ||| rfcommMxTest, 0x01 ||| UInt8.ofNat (body.length * 2)] ++ body

theorem shiftBuffer_spec (h : w.Holds front body (y :: back)) :
    ∃ w' front' y' back', shiftBuffer w = some w' ∧ w'.Holds front' body (y' :: back') ∧
      20 ≤ w'.offset ∧ w'.offset ≤ max w.offset 20 := by
  rw [shiftBuffer]
  split
  · rw [h.all]
    refine ⟨_, List.replicate 20 0, 0, [], rfl, ⟨rfl, ?_, h.len⟩, le_rfl, le_max_right _ _⟩
    exact (List.length_replicate ..).symm
  next hroom => exact ⟨w, front, y, back, rfl, h, not_lt.mp hroom, le_max_left _ _⟩

theorem rfcSendTest_spec (h : w.Holds front body (y :: back)) (hoffset : w.offset < 65536)
    (hlen : body.length ≤ 32765) :
    ∃ w' front' back', rfcSendTest isInitiator isCommand w = some w' ∧
      w'.Holds front' (uihFrame isInitiator rfcommMxDlci 0 (testMessage isCommand body)) back' := by
  obtain ⟨v, front', y', back', hshift, hv, hroom, hbound⟩ := shiftBuffer_spec h
  set message := testMessage isCommand body with hmessage
  have hmlen : message.length = body.length + 2 := List.length_append.trans (Nat.add_comm _ _)
  have hv16 : v.offset < 65536 := hbound.trans_lt (max_lt hoffset (by decide))
  have hsub : sub16 v.offset 2 = v.offset - 2 := sub16_of_le hv16 (by omega)
  have hu16 : u16 (v.len + 2) = message.length := by
    rw [hv.len, hmlen]
    exact u16_of_lt (by omega)
  -- The header of the message goes over the last two bytes in front of it.
  have hx : (front'.drop (front'.length - 2)).length = 2 := by
    rw [List.length_drop, ← hv.offset]
    omega
  have hdata : v.data = front'.take (front'.length - 2) ++
      (front'.drop (front'.length - 2) ++ (body ++ y' :: back')) := by
    rw [← List.append_assoc, List.take_append_drop, hv.data]
  have hfront : v.offset - 2 + 0 = (front'.take (front'.length - 2)).length := by
    rw [List.length_take, hv.offset]
    omega
  have hwrite := Window.write?_eq (w := ⟨v.data, v.offset - 2, v.len⟩) hdata hfront
    [0x01 ||| rfcommICr isCommand ||| rfcommMxTest, 0x01 ||| UInt8.ofNat (v.len * 2)] hx.symm
  have hholds : Window.Holds ⟨front'.take (front'.length - 2) ++
      ([0x01 ||| rfcommICr isCommand ||| rfcommMxTest, 0x01 ||| UInt8.ofNat (v.len * 2)] ++
        (body ++ y' :: back')), v.offset - 2, message.length⟩
      (front'.take (front'.length - 2)) message (y' :: back') := by
    refine ⟨?_, hfront, rfl⟩
    rw [hmessage, testMessage, hv.len, List.append_assoc]
  obtain ⟨front'', w', hsend, hw'⟩ := rfcSendBufUih_room isInitiator rfcommMxDlci 0 hholds
    (by rw [hmlen]; omega) (show 5 ≤ v.offset - 2 by omega) (show v.offset - 2 < 65536 by omega)
  refine ⟨w', front'', back', ?_, hw'⟩
  rw [rfcSendTest, hshift, Option.bind_eq_bind, Option.bind_some, hsub, hwrite, Option.bind_some,
    hu16]
  exact hsend

/-- The two forms of a length. -/
inductive LengthForm
  | oneByte | twoBytes
deriving DecidableEq, Repr

def LengthForm.encode : LengthForm → Nat → List UInt8
  | .oneByte, len => [0x01 ||| UInt8.ofNat (len * 2)]
  | .twoBytes, len => [UInt8.ofNat (len % 128 * 2), UInt8.ofNat (len / 128)]

/-- A TEST command. -/
def testCommand (form : LengthForm) (pattern : List UInt8) : List UInt8 :=
  (0x23 : UInt8) :: (form.encode pattern.length ++ pattern)

/-- The command is answered, and the other end takes the answer for one with the same pattern. -/
def Echoes (isInitiator : Bool) (b : BtHdr) (pattern : List UInt8) : Prop :=
  ∃ w f w', rfcProcessMxMessage isInitiator b = some (.sent w) ∧
    rfcParseData ⟨!isInitiator, true⟩ w = some (f, w') ∧ f.event = .uih ∧ f.dlci = rfcommMxDlci ∧
    rfcProcessMxMessage (!isInitiator) w' = some (.testRsp pattern)

theorem odd_and_one : ∀ x : UInt8, (0x01 ||| x) &&& 0x01 ≠ 0 := by
  decide +kernel

theorem shifted_length : ∀ n < 128, ((0x01 ||| UInt8.ofNat (n * 2)) >>> 1).toNat = n := by
  decide

theorem testType : (0x01 ||| rfcommICr isCommand ||| rfcommMxTest) &&& 0x01 ≠ 0 ∧
      ((0x01 ||| rfcommICr isCommand ||| rfcommMxTest) &&& 0x02 != 0) = isCommand ∧
      (0x01 ||| rfcommICr isCommand ||| rfcommMxTest) &&& 0xFC = rfcommMxTest := by
  cases isCommand <;> decide

/-- The receiver of a message with a length of one byte goes by that length. -/
theorem readMx_testMessage_eq (body : List UInt8) : readMx (testMessage isCommand body) =
      if ((0x01 ||| UInt8.ofNat (body.length * 2)) >>> 1).toNat ≠ body.length then none
      else some ⟨isCommand, rfcommMxTest, body⟩ := by
  obtain ⟨hea, hcr, htype⟩ := testType isCommand
  simp only [testMessage, List.cons_append, List.nil_append, readMx, readMxLength, if_neg hea,
    if_pos (odd_and_one _), Option.bind_eq_bind, Option.bind_some, hcr, htype]

theorem two_byte_length : ∀ n < 256,
    ((UInt8.ofNat (n % 128 * 2) >>> 1) + (UInt8.ofNat (n / 128) <<< 7)).toNat = n := by
  decide +kernel

theorem even_length : ∀ n < 128, ¬(UInt8.ofNat (n * 2) &&& 0x01 ≠ 0) := by
  decide

/-- Of a length in two bytes, the receiver goes by the last eight bits. -/
theorem readMx_twoBytes_eq (pattern : List UInt8) :
    readMx (testCommand .twoBytes pattern) =
      if ((UInt8.ofNat (pattern.length % 128 * 2) >>> 1) +
          (UInt8.ofNat (pattern.length / 128) <<< 7)).toNat ≠ pattern.length then none
      else some ⟨true, rfcommMxTest, pattern⟩ := by
  have heven := even_length (pattern.length % 128) (Nat.mod_lt _ (by decide))
  simp only [testCommand, LengthForm.encode, List.cons_append, List.nil_append, readMx,
    readMxLength, if_neg heven, Option.bind_eq_bind, Option.bind_some]
  rfl

theorem processMx_testRsp_iff {pattern : List UInt8} (hitems : w.items? = some p) :
    rfcProcessMxMessage isInitiator w = some (.testRsp pattern) ↔
      readMx p = some ⟨false, rfcommMxTest, pattern⟩ ∧ pattern ≠ [] := by
  rw [rfcProcessMxMessage, hitems]
  simp only [Option.bind_eq_bind, Option.bind_some]
  cases hm : readMx p with
  | none => simp
  | some m =>
    obtain ⟨isCommand, type, body⟩ := m
    by_cases htype : type = rfcommMxTest
    · cases body with
      | nil => simp [htype]
      | cons x l =>
        cases isCommand with
        | true => simp [htype, Option.bind_eq_some_iff]
        | false =>
          simp only [htype, ne_eq, not_true, if_false, reduceCtorEq, Bool.false_eq_true,
            Option.pure_def,
            Option.some.injEq, MxOutcome.testRsp.injEq, MxMessage.mk.injEq, true_and]
          exact ⟨fun h => ⟨h, h ▸ List.cons_ne_nil x l⟩, And.left⟩
    · simp [htype]

/-- A command that is read is answered with all that is behind its second byte. -/
theorem echoes_iff {b : BtHdr} {first len1 : UInt8} {m : MxMessage} (rest pattern : List UInt8)
    (h : b.Holds front (first :: len1 :: rest) (y :: back))
    (hm : readMx (first :: len1 :: rest) = some m) (htest : m.type = rfcommMxTest)
    (hbody : m.body ≠ []) (hcommand : m.isCommand = true) (hoffset : b.offset + 2 < 65536)
    (hlen : rest.length ≤ 32765) : Echoes isInitiator b pattern ↔
      readMx (testMessage false rest) = some ⟨false, rfcommMxTest, pattern⟩ ∧ pattern ≠ [] := by
  have hadvance : Window.Holds ⟨b.data, b.offset + 2, b.len - 2⟩ (front ++ [first, len1]) rest
      (y :: back) :=
    Window.Holds.advance (x := [first, len1]) h
  obtain ⟨w, front', back', hsend, hw⟩ := rfcSendTest_spec isInitiator false hadvance hoffset hlen
  obtain ⟨f, w', hparse, hevent, hdlci, -, hw'⟩ := rfcParseData_uihFrame hw rfl (fun _ => rfl)
    (List.length_append.trans_le (by simp only [List.length_cons, List.length_nil]; omega))
  have hprocess : rfcProcessMxMessage isInitiator b = some (.sent w) := by
    rw [rfcProcessMxMessage, h.all]
    simp only [Option.bind_eq_bind, Option.bind_some, hm, if_neg (not_not.mpr htest), if_neg hbody,
      hcommand, if_true, u16_of_lt hoffset, hsend]
    rfl
  rw [← processMx_testRsp_iff (!isInitiator) hw'.all]
  constructor
  · rintro ⟨w₁, f₁, w₁', hprocess₁, hparse₁, -, -, hrsp⟩
    cases hprocess.symm.trans hprocess₁
    cases hparse.symm.trans hparse₁
    exact hrsp
  · intro hrsp
    exact ⟨w, f, w', hprocess, hparse, hevent, hdlci, hrsp⟩

/-- **TEST echoes faithfully if the length has one byte.** Of a length in two bytes the answer
repeats the second one in front of the pattern, and a command of 256 bytes or more is dropped. -/
theorem echoes_iff_one_byte {b : BtHdr} {form : LengthForm} {pattern : List UInt8}
    (isInitiator : Bool)
    (hitems : b.items? = some (testCommand form pattern))
    (hform : form = .oneByte → pattern.length ≤ 127)
    (hpos : 1 ≤ pattern.length) (hlen : pattern.length ≤ 32764)
    (hback : b.offset + b.len < b.data.length)
    (hdata : b.data.length ≤ 65535) : Echoes isInitiator b pattern ↔ form = .oneByte := by
  obtain ⟨front, y, back, h⟩ := exists_behind hitems hback
  have hne : pattern ≠ [] := List.ne_nil_of_length_pos hpos
  have hblen : 3 ≤ b.len := by
    rw [h.len]
    cases form <;> simp only [testCommand, LengthForm.encode, List.length_cons, List.length_append]
      <;> omega
  cases form with
  | oneByte =>
    have hlength := shifted_length pattern.length (Nat.lt_succ_of_le (hform rfl))
    have hread : readMx (testMessage true pattern) = some ⟨true, rfcommMxTest, pattern⟩ := by
      rw [readMx_testMessage_eq, if_neg (not_not.mpr hlength)]
    have hiff := echoes_iff isInitiator pattern pattern h hread rfl hne rfl (by omega) (by omega)
    rw [readMx_testMessage_eq, if_neg (not_not.mpr hlength)] at hiff
    exact iff_of_true (hiff.mpr ⟨rfl, hne⟩) rfl
  | twoBytes =>
    refine iff_of_false (fun hecho => ?_) (by decide)
    have hread := readMx_twoBytes_eq pattern
    by_cases hbig : pattern.length < 256
    · -- The answer has one more byte than the pattern.
      rw [if_neg (not_not.mpr (two_byte_length _ hbig))] at hread
      obtain ⟨hanswer, -⟩ :=
        (echoes_iff isInitiator (UInt8.ofNat (pattern.length / 128) :: pattern) pattern h
        hread rfl hne rfl (by omega) (Nat.succ_le_succ hlen)).mp hecho
      rw [readMx_testMessage_eq] at hanswer
      split at hanswer
      · cases hanswer
      · injection hanswer with hanswer
        injection hanswer with _ _ hbody
        exact List.cons_ne_self _ _ hbody
    · -- No byte is as large as the length.
      rw [if_pos (ne_of_lt ((UInt8.toNat_lt _).trans_le (not_lt.mp hbig)))] at hread
      obtain ⟨w, -, -, hsent, -⟩ := hecho
      rw [rfcProcessMxMessage, hitems] at hsent
      simp only [Option.bind_eq_bind, Option.bind_some, hread] at hsent
      cases hsent

/-- A pattern of two bytes comes back. -/
theorem echoes_iff_one_byte_two :
    Echoes true ⟨[0, 0x23, 0x05, 7, 8, 0], 1, 4⟩ [7, 8] :=
  (echoes_iff_one_byte (b := ⟨[0, 0x23, 0x05, 7, 8, 0], 1, 4⟩) true rfl
    (by decide) (by decide) (by decide) (by decide) (by decide)).mpr rfl

/-- A pattern of one byte, its length in two: the answer has the pattern `00 AA`. -/
theorem long_length_not_echoed : ¬Echoes true ⟨[0, 0x23, 0x02, 0x00, 0xAA, 0], 1, 4⟩ [0xAA] := by
  have h : Window.Holds (⟨[0, 0x23, 0x02, 0x00, 0xAA, 0], 1, 4⟩ : BtHdr) [0]
      [0x23, 0x02, 0x00, 0xAA] [0] :=
    ⟨rfl, rfl, rfl⟩
  have hread : readMx [0x23, 0x02, 0x00, 0xAA] = some ⟨true, rfcommMxTest, [0xAA]⟩ := rfl
  rw [echoes_iff true [0x00, 0xAA] [0xAA] h hread rfl (by decide) rfl (by decide) (by decide)]
  decide

end BluetoothStack.Rfcomm
