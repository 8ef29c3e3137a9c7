import BluetoothStack.Storage.ListMap
import BluetoothStack.Storage.Text

/-!
# BluetoothStack.Storage.ConfigCache

The cache of the stack's configuration (`config_cache.cc`).

Sections that name no device are in `informationSections`. A device with a link key is in
`persistentDevices`, which is written to disk, and any other in `temporaryDevices`, which is not.
-/

namespace BluetoothStack.Storage

/-- What the cache reads of `BtKeystoreInterface` and of the common criteria mode. -/
structure Keystore where
  isCommonCriteriaMode : Bool
  /-- The result of `set_encrypt_key_or_remove_key`. -/
  setEncryptKeyOrRemoveKey : Str → Str → Bool

def kEncryptKeyNameList : List Str :=
  ["LinkKey".toList, "LE_KEY_PENC".toList, "LE_KEY_PID".toList, "LE_KEY_LID".toList,
    "LE_KEY_PCSRK".toList, "LE_KEY_LENC".toList, "LE_KEY_LCSRK".toList]

def kEncryptedStr : Str := "encrypted".toList

/-- `TrimAfterNewLine`. -/
def trimAfterNewLine (value : Str) : Str := value.takeWhile fun c => decide (c ≠ '\n')

theorem trimAfterNewLine_of_not_mem {s : Str} (h : '\n' ∉ s) : trimAfterNewLine s = s := by
  rw [trimAfterNewLine, List.takeWhile_eq_self_iff]
  intro c hc
  exact decide_eq_true fun heq => h (heq ▸ hc)

/-- The properties of a section. -/
abbrev Properties := ListMap Str Str

structure ConfigCache where
  persistentPropertyNames : List Str
  informationSections : ListMap Str Properties
  persistentDevices : ListMap Str Properties
  temporaryDevices : LruCache Str Properties
deriving DecidableEq, Repr

namespace ConfigCache

def init (tempDeviceCapacity : Nat) (h : 0 < tempDeviceCapacity)
    (persistentPropertyNames : List Str) : ConfigCache :=
  ⟨persistentPropertyNames, .empty, .empty, .empty tempDeviceCapacity h⟩

/-- `IsDeviceSection`. -/
def isDeviceSection (name : Str) : Bool := isValidAddress name

variable (c : ConfigCache)

/-- `IsPersistentProperty`. -/
def isPersistentProperty (property : Str) : Bool := decide (property ∈ c.persistentPropertyNames)

/-- The value that is stored for a persistent device: the keystore may keep the key itself. -/
def storedValue (keystore : Option Keystore) (name property value : Str) : Str :=
  match keystore with
  | none => value
  | some keystore =>
    if value ≠ [] ∧ keystore.isCommonCriteriaMode ∧ property ∈ kEncryptKeyNameList ∧
        value ≠ kEncryptedStr ∧
        keystore.setEncryptKeyOrRemoveKey (name ++ '-' :: property) value then kEncryptedStr
    else value

/-- `SetProperty` for a section that names no device. -/
def setInformation (name property value : Str) : ConfigCache :=
  { c with
    informationSections := (c.informationSections.tryEmplaceBack name .empty).modify name
      (·.insertOrAssign property value) }

/-- `SetProperty` for a persistent device. -/
def setPersistent (keystore : Option Keystore) (name property value : Str) : ConfigCache :=
  { c with
    persistentDevices := c.persistentDevices.modify name
      (·.insertOrAssign property (storedValue keystore name property value)) }

/-- A device becomes persistent, with the properties it has. -/
def makePersistent (name : Str) : ConfigCache :=
  { c with
    persistentDevices :=
      c.persistentDevices.tryEmplaceBack name ((c.temporaryDevices.find? name).getD .empty)
    temporaryDevices := c.temporaryDevices.erase name }

/-- `SetProperty` for a temporary device. -/
def setTemporary (name property value : Str) : ConfigCache :=
  { c with
    temporaryDevices := (c.temporaryDevices.tryEmplace name .empty).modify name
      (·.insertOrAssign property value) }

/-- `SetProperty` once the arguments are trimmed and found to be names. -/
def set (keystore : Option Keystore) (name property value : Str) : ConfigCache :=
  if !isDeviceSection name then c.setInformation name property value
  else if c.persistentDevices.contains name then c.setPersistent keystore name property value
  else if c.isPersistentProperty property then
    (c.makePersistent name).setPersistent keystore name property value
  else c.setTemporary name property value

/-- `SetProperty`; `none` if an assertion fails. -/
def setProperty (keystore : Option Keystore) (name property value : Str) : Option ConfigCache :=
  let name := trimAfterNewLine name
  let property := trimAfterNewLine property
  if name = [] ∨ property = [] then none
  else some (c.set keystore name property (trimAfterNewLine value))

/-- `RemoveSection`. -/
def removeSection (name : Str) : ConfigCache × Bool :=
  if c.informationSections.contains name then
    ({ c with informationSections := c.informationSections.erase name }, true)
  else if c.persistentDevices.contains name then
    ({ c with persistentDevices := c.persistentDevices.erase name }, true)
  else
    ({ c with temporaryDevices := c.temporaryDevices.erase name }, c.temporaryDevices.contains name)

/-- A device whose link key is removed becomes temporary, with the properties it has left. -/
def makeTemporary (name : Str) (properties : Properties) : ConfigCache :=
  { c with
    persistentDevices := c.persistentDevices.erase name
    temporaryDevices := c.temporaryDevices.insertOrAssign name properties }

/-- `RemoveProperty`. -/
def removeProperty (name property : Str) : ConfigCache × Bool :=
  match c.informationSections.find? name with
  | some properties =>
    let left := properties.erase property
    (if left.size = 0 then { c with informationSections := c.informationSections.erase name }
      else { c with informationSections := c.informationSections.modify name fun _ => left },
      properties.contains property)
  | none =>
    match c.persistentDevices.find? name with
    | some properties =>
      let left := properties.erase property
      (if left.size = 0 then { c with persistentDevices := c.persistentDevices.erase name }
        else if properties.contains property && c.isPersistentProperty property then
          c.makeTemporary name left
        else { c with persistentDevices := c.persistentDevices.modify name fun _ => left },
        properties.contains property)
    | none =>
      match c.temporaryDevices.find? name with
      | some properties =>
        let left := properties.erase property
        let warm := c.temporaryDevices.warmUp name
        (if left.size = 0 then { c with temporaryDevices := warm.erase name }
          else { c with temporaryDevices := warm.modify name fun _ => left },
          properties.contains property)
      | none => (c, false)

/-- `RemoveSectionWithProperty`. -/
def removeSectionWithProperty (property : Str) : ConfigCache :=
  { c with
    informationSections := c.informationSections.eraseIf (·.contains property)
    persistentDevices := c.persistentDevices.eraseIf (·.contains property)
    temporaryDevices := c.temporaryDevices.eraseIf (·.contains property) }

end ConfigCache

/-- `MutationEntry`. -/
inductive MutationEntry where
  | set (name property value : Str)
  | removeProperty (name property : Str)
  | removeSection (name : Str)
deriving DecidableEq, Repr

namespace ConfigCache

/-- A round of `Commit`. -/
def apply (keystore : Option Keystore) (c : ConfigCache) : MutationEntry → Option ConfigCache
  | .set name property value => c.setProperty keystore name property value
  | .removeProperty name property => some (c.removeProperty name property).1
  | .removeSection name => some (c.removeSection name).1

/-- `Commit`. -/
def commit (keystore : Option Keystore) (c : ConfigCache) (entries : List MutationEntry) :
    Option ConfigCache := entries.foldlM (apply keystore) c

def serializeSection (name : Str) (properties : Properties) : Str :=
  '[' :: name ++ "]\n".toList ++
    (properties.nodeList.flatMap fun (property, value) =>
      property ++ " = ".toList ++ value ++ "\n".toList) ++ "\n".toList

/-- `SerializeToLegacyFormat`. -/
def serializeToLegacyFormat (c : ConfigCache) : Str :=
  (c.informationSections.nodeList ++ c.persistentDevices.nodeList).flatMap
    fun (name, properties) => serializeSection name properties

end ConfigCache

/-- The calls of a user of the cache. -/
inductive ConfigCall where
  | setProperty (keystore : Option Keystore) (name property value : Str)
  | removeProperty (name property : Str)
  | removeSection (name : Str)
  | removeSectionWithProperty (property : Str)
  | commit (keystore : Option Keystore) (entries : List MutationEntry)

def ConfigCache.step (c : ConfigCache) : ConfigCall → Option ConfigCache
  | .setProperty keystore name property value => c.setProperty keystore name property value
  | .removeProperty name property => some (c.removeProperty name property).1
  | .removeSection name => some (c.removeSection name).1
  | .removeSectionWithProperty property => some (c.removeSectionWithProperty property)
  | .commit keystore entries => c.commit keystore entries

end BluetoothStack.Storage
