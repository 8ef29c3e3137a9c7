import BluetoothStack.Lib.Words

/-!
# BluetoothStack.Gatt.Uuid

UUIDs (`types/src/uuid.cc`), and their form in ATT messages (`gatt_utils.cc`).

A UUID is its sixteen bytes, most significant first. One that differs from the Bluetooth base
UUID in two bytes only travels as two bytes, every other one as sixteen: a 32-bit UUID does not
have a form of its own. The empty UUID is the exception: its length is counted as sixteen, and
nothing is written for it.
-/

namespace BluetoothStack.Gatt

open BluetoothStack.Lib

structure Uuid where
  uu : List UInt8
  size : uu.length = 16
deriving DecidableEq, Repr

namespace Uuid

/-- What every 16-bit and 32-bit UUID ends with. -/
def baseTail : List UInt8 := [0, 0, 0x10, 0, 0x80, 0, 0, 0x80, 0x5f, 0x9b, 0x34, 0xfb]

theorem kEmpty_size : (List.replicate 16 (0 : UInt8)).length = 16 := rfl

def kEmpty : Uuid := ⟨List.replicate 16 0, kEmpty_size⟩

/-- `GetShortestRepresentationSize`. -/
def shortestSize (u : Uuid) : Nat :=
  if u.uu.drop 4 ≠ baseTail then 16
  else if u.uu.getD 0 0 = 0 ∧ u.uu.getD 1 0 = 0 then 2
  else 4

def is16Bit (u : Uuid) : Bool := u.shortestSize == 2

def as16Bit (u : Uuid) : Nat := (u.uu.getD 2 0).toNat * 256 + (u.uu.getD 3 0).toNat

theorem from16Bit_size (v : Nat) :
    (0 :: 0 :: UInt8.ofNat (v / 256) :: UInt8.ofNat v :: baseTail).length = 16 := rfl

def from16Bit (v : Nat) : Uuid :=
  ⟨0 :: 0 :: UInt8.ofNat (v / 256) :: UInt8.ofNat v :: baseTail, from16Bit_size v⟩

def to128BitLE (u : Uuid) : List UInt8 := u.uu.reverse

theorem from128BitLE_size (p : List UInt8) :
    ((p ++ List.replicate 16 0).take 16).reverse.length = 16 := by
  simp

/-- `From128BitLE`, of the sixteen bytes at a pointer. -/
def from128BitLE (p : List UInt8) : Uuid :=
  ⟨((p ++ List.replicate 16 0).take 16).reverse, from128BitLE_size p⟩

end Uuid

/-- `gatt_build_uuid_to_stream`. -/
def gattBuildUuidToStream (uuid : Uuid) : List UInt8 :=
  if uuid = .kEmpty then []
  else if uuid.shortestSize = 2 then le16 uuid.as16Bit
  else uuid.to128BitLE

/-- `gatt_parse_uuid_from_cmd`: the UUID and what follows, or `none` for a size that is not
allowed. For the size zero the UUID is left as it was. -/
def gattParseUuidFromCmd (uuid : Uuid) (uuidSize : Nat) (p : List UInt8) :
    Option (Uuid × List UInt8) :=
  match uuidSize with
  | 2 => some (.from16Bit (rd16 p 0), p.drop 2)
  | 16 => some (.from128BitLE p, p.drop 16)
  | 0 => some (uuid, p)
  | _ => none

end BluetoothStack.Gatt
