import BluetoothStack.Storage.ConfigCache

/-!
# BluetoothStack.Storage.LegacyConfigFile

The config file (`legacy_config_file.cc`). Its text is that of `SerializeToLegacyFormat`; opening,
writing and deleting the file are left out.
-/

namespace BluetoothStack.Storage

/-- `Device::kLinkKeyProperties`. -/
def kLinkKeyProperties : List Str :=
  ["LinkKey".toList, "LE_KEY_PENC".toList, "LE_KEY_PID".toList, "LE_KEY_PCSRK".toList,
    "LE_KEY_LENC".toList, "LE_KEY_LCSRK".toList]

/-- `ConfigCache::kDefaultSectionName`. -/
def kDefaultSectionName : Str := "Global".toList

namespace LegacyConfigFile

inductive ReadError where
  | unterminatedSectionName
  | noSeparator
  /-- An assertion of `SetProperty`. -/
  | assertion
deriving DecidableEq, Repr

/-- A round of the loop of `Read`, with the cache and the section. -/
def readLine (keystore : Option Keystore) (s : ConfigCache × Str) (line : Str) :
    Except ReadError (ConfigCache × Str) :=
  match stringTrim line with
  | [] => .ok s
  | front :: rest =>
    if front = '\x00' ∨ front = '#' then .ok s
    else if front = '[' then
      if (front :: rest).getLast? ≠ some ']' then .error .unterminatedSectionName
      else .ok (s.1, rest.dropLast)
    else
      match stringSplit (front :: rest) ['='] 2 with
      | [property, value] =>
        match s.1.setProperty keystore s.2 (stringTrim property) (stringTrim value) with
        | some cache => .ok (cache, s.2)
        | none => .error .assertion
      | _ => .error .noSeparator

/-- `Read`. -/
def read (keystore : Option Keystore) (tempDevicesCapacity : Nat) (h : 0 < tempDevicesCapacity)
    (text : Str) : Except ReadError ConfigCache := do
  let s ← (getlines '\n' text).foldlM (readLine keystore)
    (.init tempDevicesCapacity h kLinkKeyProperties, kDefaultSectionName)
  return s.1

end LegacyConfigFile

end BluetoothStack.Storage
