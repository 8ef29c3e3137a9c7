import BluetoothStack.L2cap.Types
import BluetoothStack.Lib.Crc

/-!
# BluetoothStack.L2cap.Fcs

The frame check sequence of L2CAP (`l2c_fcr_updcrc` and its table) is the reflected CRC-16 bit by
bit.
-/

namespace BluetoothStack.L2cap

open BluetoothStack.Lib

/-- The polynomial `x ^ 16 + x ^ 15 + x ^ 2 + 1`, with its highest power lowest. -/
def fcsPoly : BitVec 16 := 0xa001

theorem crctab_getD : ∀ i : Fin 256,
    crctab.getD i.val 0 = (Crc.shifts fcsPoly 8 (BitVec.ofNat 16 i.val)).toNat := by
  decide +kernel

theorem and_ff (n : Nat) : n &&& 0xff = n % 256 := Nat.and_two_pow_sub_one_eq_mod n 8

variable (crc : BitVec 16) (byte : UInt8)

theorem index_toNat :
    (crc.toNat &&& 0xff) ^^^ byte.toNat =
      (Crc.lowByte crc ^^^ byte.toBitVec.setWidth 16).toNat := by
  have hbyte : byte.toBitVec.toNat < 2 ^ 8 := byte.toBitVec.isLt
  have hlow : (Crc.lowByte crc).toNat = crc.toNat % 256 := by
    rw [Crc.lowByte, BitVec.toNat_setWidth, BitVec.toNat_setWidth]
    omega
  have hwide : (byte.toBitVec.setWidth 16).toNat = byte.toNat := by
    rw [BitVec.toNat_setWidth, Nat.mod_eq_of_lt (by omega)]
    rfl
  rw [BitVec.toNat_xor, hlow, hwide, and_ff]

theorem index_lt : (Crc.lowByte crc ^^^ byte.toBitVec.setWidth 16).toNat < 256 := by
  have hlow : crc.toNat % 256 < 2 ^ 8 := Nat.mod_lt _ (by decide)
  rw [← index_toNat, and_ff]
  exact Nat.xor_lt_two_pow hlow byte.toNat_lt

/-- A round of the loop is a byte of the check. -/
theorem updcrc_byte :
    ((crc.toNat >>> 8) &&& 0xff) ^^^ crctab.getD ((crc.toNat &&& 0xff) ^^^ byte.toNat) 0 =
      (Crc.serialByte fcsPoly crc byte.toBitVec).toNat := by
  have hentry := crctab_getD ⟨_, index_lt crc byte⟩
  rw [BitVec.ofNat_toNat, BitVec.setWidth_eq] at hentry
  have hhigh : (crc.toNat >>> 8) &&& 0xff = (crc >>> 8).toNat := by
    have hlt : crc.toNat < 65536 := crc.isLt
    rw [and_ff, BitVec.toNat_ushiftRight, Nat.shiftRight_eq_div_pow]
    omega
  rw [hhigh, index_toNat, hentry, Crc.serialByte_eq_table fcsPoly crc byte.toBitVec (by decide),
    BitVec.toNat_xor]

/-- The table gives the check bit by bit, and a string may be taken in parts. -/
theorem l2cFcrUpdcrc_eq_serial (icrc : BitVec 16) (a b : List UInt8) :
    l2cFcrUpdcrc icrc.toNat a = (Crc.serial fcsPoly icrc a).toNat ∧
      l2cFcrUpdcrc icrc.toNat (a ++ b) = l2cFcrUpdcrc (l2cFcrUpdcrc icrc.toNat a) b := by
  constructor
  · induction a generalizing icrc with
    | nil => rfl
    | cons byte a ih =>
      rw [l2cFcrUpdcrc, List.foldl_cons, updcrc_byte]
      exact ih (Crc.serialByte fcsPoly icrc byte.toBitVec)
  · exact List.foldl_append

end BluetoothStack.L2cap
