import BluetoothStack.Gatt.Uuid

/-!
# BluetoothStack.Gatt.Db

The attributes of the GATT server (`gatt_db.cc`, `gatt_api.cc`): what an entry of the attribute
database holds, and the types of the declarations.
-/

namespace BluetoothStack.Gatt

open BluetoothStack.Lib

/-! ### Attribute types -/

def uuidPriService : Uuid := .from16Bit 0x2800
def uuidIncludeService : Uuid := .from16Bit 0x2802
def uuidCharDeclare : Uuid := .from16Bit 0x2803

/-- `bt_gatt_db_attribute_type_t`. -/
inductive AttrType where
  | primaryService
  | secondaryService
  | includedService
  | characteristic
  | descriptor
deriving DecidableEq, Repr

/-- `tGATT_ATTR_VALUE`. -/
inductive AttrValue where
  | uuid (uuid : Uuid)
  | charDecl (property charValHandle : Nat)
  | inclHandle (sHandle eHandle : Nat) (serviceType : Uuid)
  | charExtProp (properties : Nat)
deriving DecidableEq, Repr

/-- `tGATT_ATTR`. -/
structure Attr where
  handle : Nat
  uuid : Uuid
  permission : Nat
  value : Option AttrValue
  gattType : AttrType
deriving DecidableEq, Repr

/-! ### Permissions -/

end BluetoothStack.Gatt
