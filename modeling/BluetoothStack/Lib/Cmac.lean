import BluetoothStack.Lib.Words

/-!
# BluetoothStack.Lib.Cmac

CMAC (RFC 4493) over an arbitrary block cipher, in the byte order of the RFC: the first byte of a
block is its most significant one.
-/

namespace BluetoothStack.Lib.Cmac

abbrev Block := Vector UInt8 16

def zero : Block := Vector.replicate 16 0

def xor (a b : Block) : Block := Vector.zipWith (· ^^^ ·) a b

/-- Doubling in the field of `2 ^ 128` elements. -/
def double (b : Block) : Block :=
  let v := beValue b.toList
  ⟨(beBytes 16 ((2 * v % 2 ^ 128) ^^^ if 2 ^ 127 ≤ v then 0x87 else 0)).toArray, by simp⟩

/-- The number of blocks; an empty message has one. -/
def rounds (len : Nat) : Nat := max 1 ((len + 15) / 16)

/-- The last block is complete. -/
def Complete (len : Nat) : Prop := len % 16 = 0 ∧ len ≠ 0

instance (len : Nat) : Decidable (Complete len) := inferInstanceAs (Decidable (_ ∧ _))

def block (msg : List UInt8) (i : Nat) : Block := Vector.ofFn fun j => msg.getD (16 * i + j) 0

/-- A block that is not complete, with a one bit and zeros behind it. -/
def padded (msg : List UInt8) (i : Nat) : Block :=
  Vector.ofFn fun j => if 16 * i + j = msg.length then 0x80 else msg.getD (16 * i + j) 0

/-- The blocks of the message, the last one with its subkey. -/
def prepared (k1 k2 : Block) (msg : List UInt8) (i : Nat) : Block :=
  if i + 1 < rounds msg.length then block msg i
  else if Complete msg.length then xor (block msg i) k1
  else xor (padded msg i) k2

/-- The blocks in a chain. -/
def chain (cipher : Block → Block) (blocks : Nat → Block) : Nat → Block
  | 0 => zero
  | i + 1 => cipher (xor (blocks i) (chain cipher blocks i))

def cmac (cipher : Block → Block → Block) (key : Block) (msg : List UInt8) : Block :=
  let k1 := double (cipher key zero)
  let k2 := double k1
  chain (cipher key) (prepared k1 k2 msg) (rounds msg.length)

theorem reverse_xor (a b : Block) : (xor a b).reverse = xor a.reverse b.reverse := by
  refine Vector.ext fun i hi => ?_
  simp [xor]

theorem reverse_zero : zero.reverse = zero := Vector.reverse_replicate

end BluetoothStack.Lib.Cmac
