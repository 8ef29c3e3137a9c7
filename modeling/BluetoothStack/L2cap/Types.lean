import BluetoothStack.Lib.Words

/-!
# BluetoothStack.L2cap.Types

Data shared by the models of the L2CAP sources: the constants of `l2cdefs.h`,
the buffer type `BT_HDR`, the frame check sequence of `l2c_fcr.cc`, sequence
numbers, and the control word of an enhanced-mode frame.

Two conventions hold in every L2CAP module.

* A function of the source that can crash returns in `Result`. `Fault.nullDeref`
  is the use of the `NULL` a queue operation returned; `Fault.overrun` is a write
  or a copy that leaves the block `osi_malloc` returned. `osi_malloc` aborts
  instead of returning `NULL`, so branches on a failed allocation are left out.
* Sixteen-bit fields are stored through `u16` and `sub16`, so that the points
  where the source can wrap around are the points where the model does.
-/

namespace BluetoothStack.L2cap

open BluetoothStack.Lib

/-- The ways in which a modelled function can leave defined behaviour. -/
inductive Fault
  /-- A `NULL` returned by a queue operation is dereferenced. -/
  | nullDeref
  /-- A write or a copy leaves its allocation. -/
  | overrun
  deriving DecidableEq, Repr

/-- The result of a function that may fault. -/
abbrev Result := Except Fault

/-! ### Constants -/

/-- `L2CAP_PKT_OVERHEAD`: length and channel id. -/
abbrev l2capPktOverhead : Nat := 4

/-- `L2CAP_FCR_OVERHEAD`: the control word. -/
abbrev l2capFcrOverhead : Nat := 2

/-- `L2CAP_FCS_LEN`: the frame check sequence. -/
abbrev l2capFcsLen : Nat := 2

/-- `L2CAP_SDU_LEN_OVERHEAD`: the SDU length of a start segment. -/
abbrev l2capSduLenOverhead : Nat := 2

/-- `L2CAP_SDU_LEN_OFFSET`. -/
abbrev l2capSduLenOffset : Nat := 2

/-- `L2CAP_MAX_HEADER_FCS`. -/
abbrev l2capMaxHeaderFcs : Nat := 4 + 4 + 2 + 2

/-- `L2CAP_MIN_OFFSET`: header room every writer leaves. -/
abbrev l2capMinOffset : Nat := 13

/-- `HCI_DATA_PREAMBLE_SIZE`. -/
abbrev hciDataPreambleSize : Nat := 4

/-- `sizeof(BT_HDR)`. -/
abbrev btHdrSize : Nat := 8

/-- `OBX_BUF_MIN_OFFSET`. -/
abbrev obxBufMinOffset : Nat := 4

/-- `L2CAP_BASE_APPL_CID`: the first dynamically allocated channel id. -/
abbrev l2capBaseApplCid : Nat := 0x40

/-- `L2C_FCR_RETX_ALL_PKTS`. -/
abbrev l2cFcrRetxAllPkts : Nat := 0xFF

/-- `L2CAP_FCR_INIT_CRC`. -/
abbrev l2capFcrInitCrc : Nat := 0

/-! ### Buffers -/

/-- `BT_HDR`: the header fields, and the bytes allocated behind the header.
The payload is the `len` bytes of `data` from index `offset` on. -/
structure BtHdr where
  event : Nat := 0
  len : Nat
  offset : Nat
  layerSpecific : Nat := 0
  data : List UInt8
  deriving DecidableEq, Repr

namespace BtHdr

/-- The payload of a buffer. -/
def bytes (b : BtHdr) : List UInt8 := (b.data.drop b.offset).take b.len

theorem bytes_length {b : BtHdr} (h : b.offset + b.len ≤ b.data.length) :
    b.bytes.length = b.len := by
  rw [bytes, List.length_take, List.length_drop]
  omega

/-- `STREAM_TO_UINT16` at index `i` of the allocation. -/
def getU16 (b : BtHdr) (i : Nat) : Nat := rd16 b.data i

/-- `UINT16_TO_STREAM` at index `i` of the allocation. -/
def putU16 (b : BtHdr) (i v : Nat) : Result BtHdr :=
  if i + 2 ≤ b.data.length then .ok { b with data := wr16 b.data i v } else .error .overrun

end BtHdr

/-- `l2c_fcr_clone_buf`: copy the first `noOfBytes` payload bytes of `b` into a
new buffer, at offset `newOffset`. The size of the new block is computed in
sixteen bits; when it wraps, the copy overruns the block. -/
def l2cFcrCloneBuf (b : BtHdr) (newOffset noOfBytes : Nat) : Result BtHdr :=
  let bufSize := u16 (noOfBytes + btHdrSize + newOffset + l2capFcsLen)
  if btHdrSize + newOffset + noOfBytes ≤ bufSize ∧ b.offset + noOfBytes ≤ b.data.length then
    .ok
      { len := noOfBytes
        offset := newOffset
        data := List.replicate newOffset 0 ++ (b.data.drop b.offset).take noOfBytes
          ++ List.replicate (bufSize - btHdrSize - newOffset - noOfBytes) 0 }
  else .error .overrun

/-! ### Frame check sequence -/

/-- The look-up table for the CRC calculation. -/
def crctab : List Nat := [
  0x0000, 0xc0c1, 0xc181, 0x0140, 0xc301, 0x03c0, 0x0280, 0xc241,
  0xc601, 0x06c0, 0x0780, 0xc741, 0x0500, 0xc5c1, 0xc481, 0x0440,
  0xcc01, 0x0cc0, 0x0d80, 0xcd41, 0x0f00, 0xcfc1, 0xce81, 0x0e40,
  0x0a00, 0xcac1, 0xcb81, 0x0b40, 0xc901, 0x09c0, 0x0880, 0xc841,
  0xd801, 0x18c0, 0x1980, 0xd941, 0x1b00, 0xdbc1, 0xda81, 0x1a40,
  0x1e00, 0xdec1, 0xdf81, 0x1f40, 0xdd01, 0x1dc0, 0x1c80, 0xdc41,
  0x1400, 0xd4c1, 0xd581, 0x1540, 0xd701, 0x17c0, 0x1680, 0xd641,
  0xd201, 0x12c0, 0x1380, 0xd341, 0x1100, 0xd1c1, 0xd081, 0x1040,
  0xf001, 0x30c0, 0x3180, 0xf141, 0x3300, 0xf3c1, 0xf281, 0x3240,
  0x3600, 0xf6c1, 0xf781, 0x3740, 0xf501, 0x35c0, 0x3480, 0xf441,
  0x3c00, 0xfcc1, 0xfd81, 0x3d40, 0xff01, 0x3fc0, 0x3e80, 0xfe41,
  0xfa01, 0x3ac0, 0x3b80, 0xfb41, 0x3900, 0xf9c1, 0xf881, 0x3840,
  0x2800, 0xe8c1, 0xe981, 0x2940, 0xeb01, 0x2bc0, 0x2a80, 0xea41,
  0xee01, 0x2ec0, 0x2f80, 0xef41, 0x2d00, 0xedc1, 0xec81, 0x2c40,
  0xe401, 0x24c0, 0x2580, 0xe541, 0x2700, 0xe7c1, 0xe681, 0x2640,
  0x2200, 0xe2c1, 0xe381, 0x2340, 0xe101, 0x21c0, 0x2080, 0xe041,
  0xa001, 0x60c0, 0x6180, 0xa141, 0x6300, 0xa3c1, 0xa281, 0x6240,
  0x6600, 0xa6c1, 0xa781, 0x6740, 0xa501, 0x65c0, 0x6480, 0xa441,
  0x6c00, 0xacc1, 0xad81, 0x6d40, 0xaf01, 0x6fc0, 0x6e80, 0xae41,
  0xaa01, 0x6ac0, 0x6b80, 0xab41, 0x6900, 0xa9c1, 0xa881, 0x6840,
  0x7800, 0xb8c1, 0xb981, 0x7940, 0xbb01, 0x7bc0, 0x7a80, 0xba41,
  0xbe01, 0x7ec0, 0x7f80, 0xbf41, 0x7d00, 0xbdc1, 0xbc81, 0x7c40,
  0xb401, 0x74c0, 0x7580, 0xb541, 0x7700, 0xb7c1, 0xb681, 0x7640,
  0x7200, 0xb2c1, 0xb381, 0x7340, 0xb101, 0x71c0, 0x7080, 0xb041,
  0x5000, 0x90c1, 0x9181, 0x5140, 0x9301, 0x53c0, 0x5280, 0x9241,
  0x9601, 0x56c0, 0x5780, 0x9741, 0x5500, 0x95c1, 0x9481, 0x5440,
  0x9c01, 0x5cc0, 0x5d80, 0x9d41, 0x5f00, 0x9fc1, 0x9e81, 0x5e40,
  0x5a00, 0x9ac1, 0x9b81, 0x5b40, 0x9901, 0x59c0, 0x5880, 0x9841,
  0x8801, 0x48c0, 0x4980, 0x8941, 0x4b00, 0x8bc1, 0x8a81, 0x4a40,
  0x4e00, 0x8ec1, 0x8f81, 0x4f40, 0x8d01, 0x4dc0, 0x4c80, 0x8c41,
  0x4400, 0x84c1, 0x8581, 0x4540, 0x8701, 0x47c0, 0x4680, 0x8641,
  0x8201, 0x42c0, 0x4380, 0x8341, 0x4100, 0x81c1, 0x8081, 0x4040]

/-- `l2c_fcr_updcrc`. -/
def l2cFcrUpdcrc (icrc : Nat) (bytes : List UInt8) : Nat :=
  bytes.foldl
    (fun crc b => ((crc >>> 8) &&& 0xff) ^^^ crctab.getD ((crc &&& 0xff) ^^^ b.toNat) 0) icrc

/-- `l2c_fcr_tx_get_fcs`: over the payload, header included. -/
def l2cFcrTxGetFcs (b : BtHdr) : Nat := l2cFcrUpdcrc l2capFcrInitCrc b.bytes

/-- `l2c_fcr_rx_get_fcs`: the offset points past the L2CAP header, but the CRC
includes it. -/
def l2cFcrRxGetFcs (b : BtHdr) : Nat :=
  l2cFcrUpdcrc l2capFcrInitCrc
    ((b.data.drop (b.offset - l2capPktOverhead)).take (b.len + l2capPktOverhead))

/-! ### Sequence numbers -/

/-- A TxSeq or ReqSeq value. The source keeps them in `uint8_t` and masks every
result with `L2CAP_FCR_SEQ_MODULO`. -/
abbrev SeqNum := Fin 64

/-- `n & L2CAP_FCR_SEQ_MODULO`. -/
def seqMask (n : Nat) : SeqNum := ⟨n &&& 0x3F, Nat.and_lt_two_pow (n := 6) _ (by decide)⟩

@[simp] theorem seqMask_val (n : Nat) : (seqMask n).val = n % 64 :=
  Nat.and_two_pow_sub_one_eq_mod n 6

/-- The next sequence number, `(s + 1) & L2CAP_FCR_SEQ_MODULO`. -/
def SeqNum.next (s : SeqNum) : SeqNum := seqMask (s.val + 1)

@[simp] theorem SeqNum.next_val (s : SeqNum) : (SeqNum.next s).val = (s.val + 1) % 64 :=
  seqMask_val _

/-- `(a - b) & L2CAP_FCR_SEQ_MODULO`, the difference in eight bits. -/
def seqDiff (a b : SeqNum) : Nat := (seqMask (u8 (a.val + 256 - b.val))).val

theorem seqDiff_eq (a b : SeqNum) : seqDiff a b = (a.val + 64 - b.val) % 64 := by
  have ha := a.isLt
  have hb := b.isLt
  simp only [seqDiff, seqMask_val, u8]
  omega

/-! ### The control word

`ctrl` words are read and built with the masks and shifts of the source. The
lemmas restate each field as a quotient and a remainder, which is the form all
proofs use. -/

/-- Bit test, as in `if (ctrl_word & L2CAP_FCR_F_BIT)`. -/
def hasBit (ctrl mask : Nat) : Bool := ctrl &&& mask != 0

/-- `L2CAP_FCR_S_FRAME_BIT`. -/
abbrev sFrameBit : Nat := 0x0001

/-- `L2CAP_FCR_P_BIT`. -/
abbrev pBit : Nat := 0x0010

/-- `L2CAP_FCR_F_BIT`. -/
abbrev fBit : Nat := 0x0080

/-- `L2CAP_FCR_REQ_SEQ_BITS`. -/
abbrev reqSeqBits : Nat := 0x3F00

/-- `L2CAP_FCR_TX_SEQ_BITS`. -/
abbrev txSeqBits : Nat := 0x007E

/-- `L2CAP_FCR_SAR_BITS`, which is also `L2CAP_FCR_SEG_BITS`. -/
abbrev sarBits : Nat := 0xC000

/-- `L2CAP_FCR_SUP_BITS`. -/
abbrev supBits : Nat := 0x000C

/-- The complement of a sixteen-bit mask. -/
def not16 (mask : Nat) : Nat := 65535 - mask

/-- The TxSeq field. -/
def txSeqOf (ctrl : Nat) : SeqNum :=
  ⟨(ctrl &&& txSeqBits) >>> 1, by
    have : ctrl &&& txSeqBits ≤ 0x7E := Nat.and_le_right
    rw [Nat.shiftRight_eq_div_pow]
    omega⟩

/-- The ReqSeq field. -/
def reqSeqOf (ctrl : Nat) : SeqNum :=
  ⟨(ctrl &&& reqSeqBits) >>> 8, by
    have : ctrl &&& reqSeqBits ≤ 0x3F00 := Nat.and_le_right
    rw [Nat.shiftRight_eq_div_pow]
    omega⟩

/-- Supervisory functions, with their `L2CAP_FCR_SUP_*` codes. -/
inductive Sup
  | rr | rej | rnr | srej
  deriving DecidableEq, Repr

/-- The two-bit code of a supervisory function. -/
def Sup.code : Sup → Nat
  | rr => 0
  | rej => 1
  | rnr => 2
  | srej => 3

/-- `(ctrl_word & L2CAP_FCR_SUP_BITS) >> L2CAP_FCR_SUP_SHIFT`, a two-bit value. -/
def supOf (ctrl : Nat) : Sup :=
  match (ctrl &&& supBits) >>> 2 with
  | 0 => .rr
  | 1 => .rej
  | 2 => .rnr
  | _ => .srej

/-- Segmentation types; the codes are the top two bits of the control word. -/
inductive Sar
  | unseg | start | final | cont
  deriving DecidableEq, Repr

/-- `L2CAP_FCR_UNSEG_SDU`, `START_SDU`, `END_SDU` and `CONT_SDU`. -/
def Sar.code : Sar → Nat
  | unseg => 0x0000
  | start => 0x4000
  | final => 0x8000
  | cont => 0xC000

/-- `ctrl_word & L2CAP_FCR_SAR_BITS`. -/
def sarOf (ctrl : Nat) : Sar :=
  match (ctrl &&& sarBits) >>> 14 with
  | 0 => .unseg
  | 1 => .start
  | 2 => .final
  | _ => .cont

end BluetoothStack.L2cap
