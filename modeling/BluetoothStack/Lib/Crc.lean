import Mathlib

/-!
# BluetoothStack.Lib.Crc

Reflected cyclic redundancy checks of any width, bit by bit and byte by byte from a table.

The remainder is kept with its first bit lowest, so that a bit of the message leaves at the low end.
`serial` is the definition, one bit at a time; `shifts` is the remainder without a message, from
which a table is made.
-/

namespace BluetoothStack.Lib.Crc

variable {w : Nat} (poly : BitVec w)

/-- One bit of the message. -/
def serialBit (crc : BitVec w) (b : Bool) : BitVec w :=
  if (crc.getLsbD 0 ^^ b) = true then (crc >>> 1) ^^^ poly else crc >>> 1

/-- The bits of a byte, the lowest first. -/
def serialByte (crc : BitVec w) (byte : BitVec 8) : BitVec w :=
  (List.range 8).foldl (fun crc i => serialBit poly crc (byte.getLsbD i)) crc

def serial (crc : BitVec w) (bytes : List UInt8) : BitVec w :=
  bytes.foldl (fun crc byte => serialByte poly crc byte.toBitVec) crc

/-- The remainder is moved by one bit. -/
def shift (crc : BitVec w) : BitVec w := if crc.getLsbD 0 then (crc >>> 1) ^^^ poly else crc >>> 1

def shifts : Nat → BitVec w → BitVec w
  | 0, crc => crc
  | n + 1, crc => shift poly (shifts n crc)

/-! ### A byte at once -/

variable (crc : BitVec w) (byte : BitVec 8)

/-- The bits that are still to come stand beside the remainder. -/
theorem serial_shifts (hw : 8 ≤ w) {n : Nat} (hn : n ≤ 8) :
    (List.range n).foldl (fun crc i => serialBit poly crc (byte.getLsbD i)) crc ^^^
      (byte.setWidth w >>> n) = shifts poly n (crc ^^^ byte.setWidth w) := by
  induction n with
  | zero => rw [BitVec.ushiftRight_zero]; rfl
  | succ n ih =>
    rw [List.range_succ, List.foldl_append, List.foldl_cons, List.foldl_nil,
      shifts, ← ih (by omega)]
    generalize (List.range n).foldl (fun crc i => serialBit poly crc (byte.getLsbD i)) crc = s
    have hlow : (s ^^^ byte.setWidth w >>> n).getLsbD 0 = (s.getLsbD 0 ^^ byte.getLsbD n) := by
      rw [BitVec.getLsbD_xor, BitVec.getLsbD_ushiftRight, BitVec.getLsbD_setWidth, Nat.add_zero,
        decide_eq_true (by omega), Bool.true_and]
    have hrest : (s ^^^ byte.setWidth w >>> n) >>> 1 = (s >>> 1) ^^^ byte.setWidth w >>>
        (n + 1) := by
      rw [BitVec.ushiftRight_xor_distrib, BitVec.shiftRight_add]
    rw [serialBit, shift, hlow, hrest]
    split
    · rw [BitVec.xor_assoc, BitVec.xor_comm poly, ← BitVec.xor_assoc]
    · rfl

theorem serialByte_eq_shifts (hw : 8 ≤ w) :
    serialByte poly crc byte = shifts poly 8 (crc ^^^ byte.setWidth w) := by
  have hdone : byte.setWidth w >>> 8 = 0#w := by
    refine BitVec.eq_of_getLsbD_eq fun i _ => ?_
    rw [BitVec.getLsbD_ushiftRight, BitVec.getLsbD_setWidth,
      BitVec.getLsbD_of_ge byte (8 + i) (by omega), Bool.and_false, BitVec.getLsbD_zero]
  rw [← serial_shifts poly crc byte hw le_rfl, hdone, BitVec.xor_zero]
  rfl

/-! ### The table -/

/-- What is above the bits that are moved out only moves down. -/
theorem shifts_xor_high {high low : BitVec w} {n : Nat} (hhigh : ∀ i < n, high.getLsbD i = false) :
    shifts poly n (high ^^^ low) = (high >>> n) ^^^ shifts poly n low := by
  induction n with
  | zero => rw [BitVec.ushiftRight_zero]; rfl
  | succ n ih =>
    have hlast : (high >>> n).getLsbD 0 = false := by
      rw [BitVec.getLsbD_ushiftRight]
      exact hhigh n (Nat.lt_succ_self n)
    rw [shifts, ih fun i hi => hhigh i (Nat.lt_succ_of_lt hi), shifts]
    generalize shifts poly n low = u
    rw [shift, shift, BitVec.getLsbD_xor, hlast, Bool.false_xor, BitVec.ushiftRight_xor_distrib,
      ← BitVec.shiftRight_add]
    split
    · rw [BitVec.xor_assoc]
    · rfl

/-- The bits of a remainder in its low byte and above it. -/
def lowByte (crc : BitVec w) : BitVec w := (crc.setWidth 8).setWidth w

theorem getLsbD_lowByte (i : Nat) :
    (lowByte crc).getLsbD i = (decide (i < 8) && crc.getLsbD i) := by
  rw [lowByte, BitVec.getLsbD_setWidth, BitVec.getLsbD_setWidth]
  by_cases hi : i < w
  · rw [decide_eq_true hi, Bool.true_and]
  · rw [BitVec.getLsbD_of_ge crc i (by omega), Bool.and_false, Bool.and_false]

/-- A byte at once: the rest of the remainder, and the entry of the table for its low byte. -/
theorem serialByte_eq_table (hw : 8 ≤ w) : serialByte poly crc byte =
      (crc >>> 8) ^^^ shifts poly 8 (lowByte crc ^^^ byte.setWidth w) := by
  have hsplit : crc ^^^ byte.setWidth w = (crc ^^^ lowByte crc) ^^^
      (lowByte crc ^^^ byte.setWidth w) := by
    rw [BitVec.xor_assoc, ← BitVec.xor_assoc (lowByte crc), BitVec.xor_self, BitVec.zero_xor]
  have hhigh : ∀ i < 8, (crc ^^^ lowByte crc).getLsbD i = false := by
    intro i hi
    rw [BitVec.getLsbD_xor, getLsbD_lowByte, decide_eq_true hi, Bool.true_and, Bool.xor_self]
  have hmoved : (crc ^^^ lowByte crc) >>> 8 = crc >>> 8 := by
    refine BitVec.eq_of_getLsbD_eq fun i _ => ?_
    rw [BitVec.getLsbD_ushiftRight, BitVec.getLsbD_ushiftRight, BitVec.getLsbD_xor, getLsbD_lowByte,
      decide_eq_false (by omega), Bool.false_and, Bool.xor_false]
  rw [serialByte_eq_shifts poly crc byte hw, hsplit, shifts_xor_high poly hhigh, hmoved]

end BluetoothStack.Lib.Crc
