import BluetoothStack.Bnep.Frames
import BluetoothStack.Lib.Ensures

/-!
# BluetoothStack.Bnep.Transparency

Header compression is transparent: what one device sends with `bnepu_build_bnep_hdr` its
peer delivers with the same addresses, protocol and payload.

`header` is the image of a frame's header; `bnepuBuildBnepHdr_spec` says that building a
frame puts it in front of the payload, whether the payload had to be moved or not, and
`bnepDataInd_header` that the receiver takes it apart again.
-/

namespace BluetoothStack.Bnep

open BluetoothStack.Lib BluetoothStack.L2cap

/-! ### The image of a header -/

/-- The first byte of a frame. -/
def typeByte (type : FrameType) (ext : Bool) : UInt8 := (if ext then 0x80 else 0x00) ||| type.code

/-- The addresses that a frame of each type carries. -/
def addressBytes (src dest : RawAddress) : FrameType → List UInt8
  | .generalEthernet => dest.toList ++ src.toList
  | .control => []
  | .compressedEthernet => []
  | .compressedEthernetSrcOnly => src.toList
  | .compressedEthernetDestOnly => dest.toList

/-- The header of a frame. -/
def header (type : FrameType) (ext : Bool) (src dest : RawAddress) (protocol : Nat) : List UInt8 :=
  typeByte type ext :: (addressBytes src dest type ++ be16 protocol)

theorem header_length {type : FrameType} (h : type ≠ .control) (ext : Bool) (src dest : RawAddress)
    (protocol : Nat) : (header type ext src dest protocol).length = type.hdrSize + 1 := by
  cases type <;> simp [header, addressBytes, FrameType.hdrSize] at h ⊢

/-! ### Building a frame -/

/-- There is room in front of the payload for a header, or behind it to move it. -/
structure Room (b : BtHdr) (hdrLen : Nat) : Prop where
  offset : b.offset < 65536
  inside : b.offset + b.len ≤ b.data.length
  shift : b.offset < hdrLen + l2capMinOffset → bnepMinimumOffset + b.len ≤ b.data.length

/-- A frame of which the first bytes have been written. -/
def written (f : BtHdr) (w : List UInt8) : BtHdr := { f with data := blit f.data f.offset w }

/-- Storing more bytes right behind those written. -/
theorem store_written {f : BtHdr} {p : Nat} {w bytes : List UInt8} (hp : p = f.offset + w.length)
    (h : p + bytes.length ≤ f.data.length) :
    store (written f w) p bytes = .ok (written f (w ++ bytes)) := by
  subst hp
  have hlen : (written f w).data.length = f.data.length := blit_length (by omega)
  rw [store, if_pos (by rw [hlen]; exact h)]
  simp only [written]
  rw [blit_blit _ _ (by omega)]

/-- A frame with `hdrLen` bytes reserved in front of a payload. -/
structure Reserved (payload : List UInt8) (hdrLen : Nat) (f : BtHdr) : Prop where
  len : f.len = hdrLen + payload.length
  inside : f.offset + f.len ≤ f.data.length
  payload : (f.data.drop (f.offset + hdrLen)).take payload.length = payload

theorem Reserved.bytes {payload : List UInt8} {hdr : List UInt8} {f : BtHdr}
    (h : Reserved payload hdr.length f) : (written f hdr).bytes = hdr ++ payload := by
  have hin := h.inside
  change (List.drop f.offset (blit f.data f.offset hdr)).take f.len = _
  rw [drop_blit (by omega), h.len, List.take_length_add_append, h.payload]

/-- `bnepu_init_hdr` reserves the header and writes its first byte. -/
theorem bnepuInitHdr_spec {b : BtHdr} {hdrLen : Nat} (hb : Room b hdrLen) (hdr : 0 < hdrLen)
    (hmax : hdrLen ≤ 15) (hlen : b.len + hdrLen < 65536) (t : UInt8) :
    ∃ f, bnepuInitHdr b hdrLen t = .ok (written f [t], f.offset + 1) ∧
      Reserved b.bytes hdrLen f := by
  obtain ⟨hoff, hin, hshift⟩ := hb
  have hbytes : b.bytes.length = b.len := by
    rw [BtHdr.bytes, List.length_take, List.length_drop]
    omega
  have hmin : bnepMinimumOffset = 28 := rfl
  have hl2 : l2capMinOffset = 13 := rfl
  simp only [bnepuInitHdr]
  by_cases hs : b.offset < hdrLen + l2capMinOffset
  · -- the payload is moved up to `BNEP_MINIMUM_OFFSET`
    have hroom := hshift hs
    have hdiff : sub16 bnepMinimumOffset b.offset = 28 - b.offset :=
      sub16_of_le (by decide) (by omega)
    have hsub : sub16 bnepMinimumOffset hdrLen = 28 - hdrLen := sub16_of_le (by decide) (by omega)
    rw [if_pos hs, hdiff, if_pos (by omega)]
    refine ⟨{ b with
      data := shiftUp b.data b.offset (28 - b.offset) b.len
      len := b.len + hdrLen
      offset := 28 - hdrLen }, ?_, ?_, ?_, ?_⟩
    · simp only [pure_bind, hsub, u16_of_lt hlen, store]
      rw [if_pos (by rw [shiftUp_length]; simp; omega)]
      rfl
    · dsimp only
      omega
    · dsimp only
      rw [shiftUp_length]
      omega
    · dsimp only
      have hmoved := take_drop_shiftUp b.offset (28 - b.offset) b.len (l := b.data) (by omega)
      rw [hbytes, show 28 - hdrLen + hdrLen = b.offset + (28 - b.offset) by omega, hmoved]
      rfl
  · have hsub : sub16 b.offset hdrLen = b.offset - hdrLen := sub16_of_le hoff (by omega)
    rw [if_neg hs]
    refine ⟨{ b with len := b.len + hdrLen, offset := b.offset - hdrLen }, ?_, ?_, ?_, ?_⟩
    · simp only [pure_bind, hsub, u16_of_lt hlen, store]
      rw [if_pos (by simp; omega)]
      rfl
    · dsimp only
      omega
    · dsimp only
      omega
    · dsimp only
      rw [hbytes, Nat.sub_add_cancel (by omega)]
      rfl

variable (own a remBda src : RawAddress)

theorem chooseType_ne_control (dest : RawAddress) :
    chooseType own remBda src dest ≠ .control := by
  unfold chooseType
  dsimp only
  split_ifs <;> decide

@[simp] theorem address_length : a.toList.length = 6 := by
  rw [Vector.length_toList]

/-- Building a frame puts its header in front of the payload. -/
theorem bnepuBuildBnepHdr_spec {own remBda src dest : RawAddress} {b : BtHdr} (protocol : Nat)
    (ext : Bool) {type : FrameType} (ht : chooseType own remBda src dest = type)
    (hb : Room b (type.hdrSize + 1)) (hlen : b.len + (type.hdrSize + 1) ≤ bnepMtuSize) :
    ∃ f, bnepuBuildBnepHdr own remBda b protocol src dest ext = .ok f ∧
      f.len = type.hdrSize + 1 + b.bytes.length ∧ f.offset + f.len ≤ f.data.length ∧
      f.bytes = header type ext (sourceAddr own src) dest protocol ++ b.bytes := by
  have hctrl : type ≠ .control := ht ▸ chooseType_ne_control own remBda src dest
  have hhdr := header_length hctrl ext (sourceAddr own src) dest protocol
  obtain ⟨f, hinit, hres⟩ := bnepuInitHdr_spec hb (Nat.succ_pos _) (by cases type <;> decide)
    (by rw [bnepMtuSize] at hlen; omega) (typeByte type ext)
  have hres' := hres
  rw [← hhdr] at hres'
  have hin := hres.inside
  have hflen := hres.len
  refine ⟨written f (header type ext (sourceAddr own src) dest protocol), ?_, hflen, ?_,
    hres'.bytes⟩
  · simp only [bnepuBuildBnepHdr, ht]
    -- the fields are stored one behind the other in the reserved bytes
    cases type with
    | control => exact absurd rfl hctrl
    | generalEthernet =>
      have hinit' : bnepuInitHdr b 15
        ((if ext then 0x80 else 0x00) ||| FrameType.code .generalEthernet) = _ := hinit
      simp only [hinit', ok_bind, pure_bind]
      rw [store_written, ok_bind, store_written, ok_bind, store_written]
      · rfl
      all_goals grind [FrameType.hdrSize, address_length, be16_length]
    | compressedEthernet =>
      have hinit' : bnepuInitHdr b 3
        ((if ext then 0x80 else 0x00) ||| FrameType.code .compressedEthernet) = _ := hinit
      simp only [hinit', ok_bind]
      rw [store_written]
      · rfl
      all_goals grind [FrameType.hdrSize, address_length, be16_length]
    | compressedEthernetSrcOnly =>
      have hinit' : bnepuInitHdr b 9
        ((if ext then 0x80 else 0x00) ||| FrameType.code .compressedEthernetSrcOnly) = _ := hinit
      simp only [hinit', ok_bind, pure_bind]
      rw [store_written, ok_bind, store_written]
      · rfl
      all_goals grind [FrameType.hdrSize, address_length, be16_length]
    | compressedEthernetDestOnly =>
      have hinit' : bnepuInitHdr b 9
        ((if ext then 0x80 else 0x00) ||| FrameType.code .compressedEthernetDestOnly) = _ := hinit
      simp only [hinit', ok_bind, pure_bind]
      rw [store_written, ok_bind, store_written]
      · rfl
      all_goals grind [FrameType.hdrSize, address_length, be16_length]
  · change f.offset + f.len ≤ (blit f.data f.offset _).length
    rw [blit_length (by rw [hhdr]; omega)]
    exact hin

/-! ### Taking a frame apart -/

theorem readAddress_append (l : List UInt8) : readAddress (a.toList ++ l) = a := by
  apply Vector.ext
  intro i hi
  have hlt : i < a.toList.length := by rw [address_length]; exact hi
  simp only [readAddress, Vector.getElem_ofFn]
  rw [List.getD_eq_getElem?_getD, List.getElem?_append_left hlt, List.getElem?_eq_getElem hlt,
    Option.getD_some, Vector.getElem_toList]

theorem drop_address_append (l : List UInt8) : (a.toList ++ l).drop 6 = l := by
  rw [List.drop_left' (address_length a)]

theorem ofCode_typeByte (type : FrameType) (ext : Bool) :
    FrameType.ofCode (typeByte type ext &&& 0x7F) = some type := by
  cases type <;> cases ext <;> decide

theorem typeByte_ext (type : FrameType) (ext : Bool) : decide (0x80 ≤ typeByte type ext) = ext := by
  cases type <;> cases ext <;> decide

/-- The source address in a frame, empty when it is left out. -/
def carriedSrc (src : RawAddress) : FrameType → RawAddress
  | .generalEthernet | .compressedEthernetSrcOnly => src
  | _ => kEmpty

/-- The destination address in a frame, empty when it is left out. -/
def carriedDst (dest : RawAddress) : FrameType → RawAddress
  | .generalEthernet | .compressedEthernetDestOnly => dest
  | _ => kEmpty

/-- The data `payload` reaches the upper layer. -/
def Out.Delivers (d : Delivery) (payload : List UInt8) : Out → Prop
  | .dataBuf d' b => d' = d ∧ b.bytes = payload
  | .dataInd d' p => d' = d ∧ p = payload
  | .control _ => False

/-- No extension that a receiver would act on stands in front of the payload. -/
def PlainPayload (ext : Bool) (payload : List UInt8) : Prop :=
  ext = true → ∀ x ∈ payload.head?, x &&& 0x7F ≠ 0

section Receiving

variable (onControl : Conn → ControlMsg → Conn) (own : RawAddress) (cb : Callbacks)

variable {payload : List UInt8}

theorem dataExtensions_plain (r : Rx) {ext : Bool} (h : PlainPayload ext payload) (k : Nat) :
    ∃ extType, dataExtensions onControl r 0 (k + 1) ext (some payload)
      = (r, extType, some payload) := by
  cases ext with
  | false => exact ⟨0, rfl⟩
  | true =>
    cases payload with
    | nil => exact ⟨0, rfl⟩
    | cons x rest =>
      have hx : x &&& 0x7F ≠ 0 := h rfl x rfl
      exact ⟨x &&& 0x7F, if_pos hx⟩

section

variable (hcb : cb.pDataBufCb = true ∨ cb.pDataIndCb = true)
include hcb

/-- The data behind a header, handed over with the addresses the header left out. -/
theorem deliver_spec {b : BtHdr} {hdr : List UInt8} (hb : b.bytes = hdr ++ payload)
    (hin : b.offset + b.len ≤ b.data.length) (hlen : b.offset + b.len < 65536)
    (src dst : RawAddress) (protocol : Nat) (r : Rx) (extType : UInt8) :
    ∃ o, deliver own cb b src dst protocol r extType (some payload)
        = { r with outs := r.outs ++ [o] } ∧
      o.Delivers
        { handle := r.conn.handle
          src := if src = kEmpty then r.conn.remBda else src
          dst := if dst = kEmpty then own else dst
          protocol := protocol
          fwExtPresent := decide (extType ≠ 0) } payload := by
  have hblen : b.len = hdr.length + payload.length := by
    rw [← List.length_append, ← hb, BtHdr.bytes, List.length_take, List.length_drop]
    omega
  simp only [deliver, Option.getD_some]
  by_cases hbuf : cb.pDataBufCb = true
  · rw [if_pos hbuf]
    refine ⟨_, rfl, rfl, ?_⟩
    have hskip : b.len - payload.length = hdr.length := by omega
    change (b.data.drop (u16 (b.offset + (b.len - payload.length)))).take payload.length = payload
    rw [hskip, u16_of_lt (by omega), ← List.drop_drop]
    have hbytes := congrArg (List.drop hdr.length) hb
    rw [List.drop_left, BtHdr.bytes, List.drop_take, hblen, Nat.add_sub_cancel_left] at hbytes
    exact hbytes
  · rw [if_neg hbuf, if_pos (hcb.resolve_left hbuf)]
    exact ⟨_, rfl, rfl, rfl⟩

theorem dataFrame_spec {b : BtHdr} {hdr : List UInt8} (hb : b.bytes = hdr ++ payload)
    (hin : b.offset + b.len ≤ b.data.length) (hlen : b.offset + b.len < 65536)
    (src dst : RawAddress) {protocol : Nat} (hp : protocol < 65536) (r : Rx) {ext : Bool}
    (hext : PlainPayload ext payload) :
    ∃ fw o, dataFrame onControl own cb b r ext src dst (be16 protocol ++ payload)
        = { r with outs := r.outs ++ [o] } ∧
      o.Delivers
        { handle := r.conn.handle
          src := if src = kEmpty then r.conn.remBda else src
          dst := if dst = kEmpty then own else dst
          protocol := protocol
          fwExtPresent := fw } payload := by
  have hproto : beValue ((be16 protocol ++ payload).take 2) = protocol :=
    beValue_beBytes (k := 2) hp
  obtain ⟨extType, hexts⟩ := dataExtensions_plain onControl r hext (payload.length + 1)
  have hexts' : dataExtensions onControl r 0 (be16 protocol ++ payload).length ext
      (some ((be16 protocol ++ payload).drop 2)) = (r, extType, some payload) := by
    rw [List.length_append, be16_length, Nat.add_comm]
    exact hexts
  obtain ⟨o, ho, hd⟩ := deliver_spec own cb hcb hb hin hlen src dst protocol r extType
  refine ⟨_, o, ?_, hd⟩
  simp only [dataFrame, hproto, hexts']
  exact ho

/-- A frame with a header of any data type is delivered with what the header carries. -/
theorem bnepDataInd_header {conn : Conn}
    (hconn : conn.conState = .connected ∨ conn.connCompleted = true) {type : FrameType}
    (ht : type ≠ .control) {ext : Bool} (src dst : RawAddress) {protocol : Nat}
    (hp : protocol < 65536) (hext : PlainPayload ext payload) {b : BtHdr}
    (hb : b.bytes = header type ext src dst protocol ++ payload)
    (hin : b.offset + b.len ≤ b.data.length) (hlen : b.offset + b.len < 65536)
    (hmtu : b.len ≤ bnepMtuSize) :
    ∃ fw o, bnepDataInd onControl own cb conn b = { conn := conn, outs := [o] } ∧
      o.Delivers
        { handle := conn.handle
          src := if carriedSrc src type = kEmpty then conn.remBda else carriedSrc src type
          dst := if carriedDst dst type = kEmpty then own else carriedDst dst type
          protocol := protocol
          fwExtPresent := fw } payload := by
  have hblen : b.len = type.hdrSize + 1 + payload.length := by
    rw [← header_length ht ext src dst protocol, ← List.length_append, ← hb, BtHdr.bytes,
      List.length_take, List.length_drop]
    omega
  have hframe := fun s d => dataFrame_spec onControl own cb hcb hb hin hlen s d hp { conn := conn }
    hext
  have hbytes : b.bytes = typeByte type ext ::
      (addressBytes src dst type ++ (be16 protocol ++ payload)) := by
    rw [hb, header, List.cons_append, List.append_assoc]
  simp only [bnepDataInd, hbytes, ofCode_typeByte, typeByte_ext]
  rw [if_neg (by omega), if_neg (by
    rintro ⟨hs, hc, -⟩
    rcases hconn with h | h
    · exact hs h
    · rw [h] at hc
      cases hc)]
  -- an address that the header leaves out is read as the empty one
  cases type with
  | control => exact absurd rfl ht
  | generalEthernet =>
    simp only [addressBytes, List.append_assoc, readAddress_append, drop_address_append]
    rw [show 12 = 6 + 6 from rfl, ← List.drop_drop, drop_address_append, drop_address_append]
    exact hframe src dst
  | compressedEthernet => exact hframe kEmpty kEmpty
  | compressedEthernetSrcOnly =>
    simp only [addressBytes, readAddress_append, drop_address_append]
    exact hframe src kEmpty
  | compressedEthernetDestOnly =>
    simp only [addressBytes, readAddress_append, drop_address_append]
    exact hframe kEmpty dst

end

end Receiving

/-! ### Both ends -/

/-- The receiver restores a source address that was left out. -/
theorem restored_src (dest : RawAddress) :
    (if carriedSrc (sourceAddr own src) (chooseType own remBda src dest) = kEmpty then own
      else carriedSrc (sourceAddr own src) (chooseType own remBda src dest)) =
        sourceAddr own src := by
  by_cases hsrc : src ≠ kEmpty ∧ src ≠ own
  · have hs : sourceAddr own src = src := if_neg hsrc.1
    have hc : carriedSrc src (chooseType own remBda src dest) = src := by
      simp only [chooseType, if_pos hsrc]
      split <;> rfl
    rw [hs, hc, if_neg hsrc.1]
  · have hs : sourceAddr own src = own := by
      unfold sourceAddr
      split
      · rfl
      · next h => exact not_not.mp fun hne => hsrc ⟨h, hne⟩
    have hc : carriedSrc own (chooseType own remBda src dest) = kEmpty := by
      simp only [chooseType, if_neg hsrc]
      split <;> rfl
    rw [hs, hc, if_pos rfl]

theorem restored_dst {dest : RawAddress} (h : dest ≠ kEmpty) :
    (if carriedDst dest (chooseType own remBda src dest) = kEmpty then remBda
      else carriedDst dest (chooseType own remBda src dest)) = dest := by
  by_cases hdest : dest ≠ remBda
  · have hc : carriedDst dest (chooseType own remBda src dest) = dest := by
      simp only [chooseType, if_pos hdest]
      split <;> rfl
    rw [hc, if_neg h]
  · have hc : carriedDst dest (chooseType own remBda src dest) = kEmpty := by
      simp only [chooseType, if_neg hdest]
      split <;> rfl
    rw [hc, if_pos rfl]
    exact (not_not.mp hdest).symm

/-- What the device `own`, connected to `remBda`, sends with `bnepu_build_bnep_hdr` is delivered on
`remBda` with the same addresses, protocol and payload. -/
theorem bnep_header_compression_transparent (onControl : Conn → ControlMsg → Conn)
    (own remBda src dest : RawAddress) (hdest : dest ≠ kEmpty) (protocol : Nat)
    (hp : protocol < 65536) (b : BtHdr)
    (hroom : Room b ((chooseType own remBda src dest).hdrSize + 1))
    (hmtu : b.len + ((chooseType own remBda src dest).hdrSize + 1) ≤ bnepMtuSize)
    (ext : Bool) (hext : PlainPayload ext b.bytes) :
    ∃ f, bnepuBuildBnepHdr own remBda b protocol src dest ext = .ok f ∧
      ∀ (conn : Conn) (cb : Callbacks) (r : BtHdr),
        conn.remBda = own → (conn.conState = .connected ∨ conn.connCompleted = true) →
        (cb.pDataBufCb = true ∨ cb.pDataIndCb = true) →
        r.bytes = f.bytes → r.offset + r.len ≤ r.data.length → r.offset + r.len < 65536 →
        ∃ fw o, bnepDataInd onControl remBda cb conn r = { conn := conn, outs := [o] } ∧
          o.Delivers
            { handle := conn.handle, src := sourceAddr own src, dst := dest, protocol := protocol
              fwExtPresent := fw } b.bytes := by
  obtain ⟨f, hf, hflen, hfin, hfbytes⟩ := bnepuBuildBnepHdr_spec protocol ext rfl hroom hmtu
  refine ⟨f, hf, ?_⟩
  intro conn cb r hown hconn hcb hr hin hlen
  have hrlen : r.len = f.len := by
    have hl := congrArg List.length hr
    rw [BtHdr.bytes, BtHdr.bytes, List.length_take, List.length_drop, List.length_take,
      List.length_drop] at hl
    omega
  have hblen : b.bytes.length = b.len := by
    have := hroom.inside
    rw [BtHdr.bytes, List.length_take, List.length_drop]
    omega
  rw [hfbytes] at hr
  have hdel := bnepDataInd_header onControl remBda cb hcb hconn
    (chooseType_ne_control own remBda src dest) (sourceAddr own src) dest hp hext hr hin hlen
      (by omega)
  rw [hown, restored_src, restored_dst own remBda src hdest] at hdel
  exact hdel

/-- A payload of three bytes at the start of its allocation. -/
def shortPayload : BtHdr := { len := 3, offset := 0, data := [7, 8, 9] ++ List.replicate 40 0 }

/-- A frame that carries both addresses, in a buffer where the payload has to be moved. -/
theorem bnep_header_compression_transparent_general :
    ∃ f, bnepuBuildBnepHdr #v[1, 1, 1, 1, 1, 1] #v[2, 2, 2, 2, 2, 2] shortPayload 0x0800
        #v[3, 3, 3, 3, 3, 3] #v[4, 4, 4, 4, 4, 4] false = .ok f ∧
      ∀ (conn : Conn) (cb : Callbacks) (r : BtHdr),
        conn.remBda = #v[1, 1, 1, 1, 1, 1] →
        (conn.conState = .connected ∨ conn.connCompleted = true) →
        (cb.pDataBufCb = true ∨ cb.pDataIndCb = true) →
        r.bytes = f.bytes → r.offset + r.len ≤ r.data.length → r.offset + r.len < 65536 →
        ∃ fw o, bnepDataInd (fun c _ => c) #v[2, 2, 2, 2, 2, 2] cb conn r
            = { conn := conn, outs := [o] } ∧
          o.Delivers
            { handle := conn.handle, src := #v[3, 3, 3, 3, 3, 3], dst := #v[4, 4, 4, 4, 4, 4]
              protocol := 0x0800, fwExtPresent := fw } [7, 8, 9] :=
  bnep_header_compression_transparent (fun c _ => c) #v[1, 1, 1, 1, 1, 1] #v[2, 2, 2, 2, 2, 2]
    #v[3, 3, 3, 3, 3, 3] #v[4, 4, 4, 4, 4, 4] (by decide) 0x0800 (by decide) shortPayload
    ⟨by decide, by decide, by decide⟩ (by decide) false (fun h => by cases h)

end BluetoothStack.Bnep
