import Mathlib
import BluetoothStack.Lib.Keyed

/-!
# BluetoothStack.Scan.Reassembler

The reassembler of LE advertising reports (`le_scanning_reassembler.cc`).

Advertising data that is too long for one HCI event comes in fragments, and a scan response comes
in a report of its own. The reassembler keeps what it has of each advertiser in a cache until the
data is complete. Keys are unique in the caches, so the entry that is found is the one to change
or to remove.
-/

namespace BluetoothStack.Scan

open BluetoothStack.Lib

abbrev Address := BitVec 48

inductive DataStatus where
  | complete
  | continuing
  | truncated
  | reserved
deriving DecidableEq, Repr

/-! ### Event types -/

abbrev EventType := BitVec 16

namespace EventType

variable (t : EventType)

def isScannable : Bool := t.getLsbD 1
def isScanResponse : Bool := t.getLsbD 3
def isLegacy : Bool := t.getLsbD 4

def dataStatus : DataStatus :=
  match t.getLsbD 6, t.getLsbD 5 with
  | false, false => .complete
  | false, true => .continuing
  | true, false => .truncated
  | true, true => .reserved

/-- The bit `kConnectableBit` alone. -/
def connectable : EventType := t &&& 1

end EventType

/-! ### Trimming -/

/-- The loop of `TrimAdvertisingData`, from an offset on. -/
def trimLoop (data : List UInt8) : Nat → Nat → List UInt8
  | 0, _ => []
  | fuel + 1, offset =>
    if offset < data.length then
      let remainingSize := data.length - offset
      let entrySize := (data.getD offset 0).toNat
      (if entrySize ≠ 0 ∧ entrySize < remainingSize then (data.drop offset).take (entrySize + 1)
        else []) ++ trimLoop data fuel (offset + entrySize + 1)
    else []

/-- `TrimAdvertisingData`: the entries that are not empty and not too long. -/
def trimAdvertisingData (data : List UInt8) : List UInt8 := trimLoop data data.length 0

/-! ### Reports -/

/-- A report in an LE (Extended) Advertising Report event. -/
structure Report where
  eventType : EventType
  addressType : UInt8
  address : Address
  advertisingSid : UInt8
  advertisingData : List UInt8
deriving DecidableEq, Repr

/-- `AdvertisingKey`. -/
structure AdvertisingKey where
  address : Option (Address × UInt8)
  sid : Option UInt8
deriving DecidableEq, Repr

def noAddressProvided : UInt8 := 0xff

def Report.key (r : Report) : AdvertisingKey where
  address := if r.addressType ≠ noAddressProvided then some (r.address, r.addressType) else none
  sid := if r.advertisingSid ≠ 0xff then some r.advertisingSid else none

/-- A report with an address that is not there. -/
def Report.isNameless (r : Report) : Bool :=
  decide (r.addressType ≠ noAddressProvided) && decide (r.address = 0)

/-! ### The reassembler -/

structure AdvertisingFragment where
  key : AdvertisingKey
  extendedEventType : EventType
  data : List UInt8
deriving DecidableEq, Repr

/-- The fragment with the data of a report behind its own. Legacy scan responses have no
connectable bit, so that of the advertisement is kept. -/
def AdvertisingFragment.append (it : AdvertisingFragment) (extendedEventType : EventType)
    (data : List UInt8) : AdvertisingFragment :=
  { it with
    extendedEventType :=
      if extendedEventType.isLegacy && extendedEventType.isScanResponse then
        extendedEventType ||| it.extendedEventType.connectable
      else extendedEventType
    data := it.data ++ data }

structure PeriodicAdvertisingFragment where
  syncHandle : BitVec 16
  data : List UInt8
deriving DecidableEq, Repr

structure CompleteAdvertisingData where
  extendedEventType : EventType
  data : List UInt8
deriving DecidableEq, Repr

structure LeScanningReassembler where
  ignoreScanResponses : Bool
  cache : List AdvertisingFragment
  periodicCache : List PeriodicAdvertisingFragment
deriving DecidableEq, Repr

def kMaximumCacheSize : Nat := 16

/-- Make room for a new entry at the front. -/
def evict {α : Type} (maximum : Nat) (cache : List α) : List α :=
  if cache.length > maximum then cache.dropLast else cache

namespace LeScanningReassembler

variable (s : LeScanningReassembler)

def init (ignoreScanResponses : Bool) : LeScanningReassembler := ⟨ignoreScanResponses, [], []⟩

/-- `FindFragment`. -/
def findFragment (key : AdvertisingKey) : Option AdvertisingFragment :=
  find AdvertisingFragment.key key s.cache

/-- `RemoveFragment`. -/
def removeFragment (key : AdvertisingKey) : LeScanningReassembler :=
  { s with cache := remove AdvertisingFragment.key key s.cache }

/-- Write the entry of a key. -/
def setFragment (it : AdvertisingFragment) : LeScanningReassembler :=
  { s with cache := update AdvertisingFragment.key it.key (fun _ => it) s.cache }

/-- `AppendFragment`, with the entry. -/
def appendFragment (key : AdvertisingKey) (extendedEventType : EventType) (data : List UInt8) :
    LeScanningReassembler × AdvertisingFragment :=
  match s.findFragment key with
  | some it => (s.setFragment (it.append extendedEventType data), it.append extendedEventType data)
  | none =>
    ({ s with cache := ⟨key, extendedEventType, data⟩ :: evict kMaximumCacheSize s.cache },
      ⟨key, extendedEventType, data⟩)

/-- The entry after the last report of a payload. -/
def trimmed (status : DataStatus) (it : AdvertisingFragment) : AdvertisingFragment :=
  if status ≠ .continuing then { it with data := trimAdvertisingData it.data } else it

/-- `ProcessAdvertisingReport`, with the flag `support_passive_scanning`. -/
def processAdvertisingReport (passive : Bool) (r : Report) :
    LeScanningReassembler × Option CompleteAdvertisingData :=
  if r.isNameless then (s, none)
  else if r.eventType.isScanResponse &&
      (s.ignoreScanResponses || (s.findFragment r.key).isNone) then (s, none)
  else
    let s := if r.eventType.isLegacy && !r.eventType.isScanResponse then s.removeFragment r.key
      else s
    let (s, it) := s.appendFragment r.key r.eventType r.advertisingData
    let it := trimmed r.eventType.dataStatus it
    let s := s.setFragment it
    let expectScanResponse :=
      r.eventType.isScannable && !r.eventType.isScanResponse && !s.ignoreScanResponses
    if decide (r.eventType.dataStatus = .continuing) || (expectScanResponse && !passive) then
      (s, none)
    else
      let result : CompleteAdvertisingData := ⟨it.extendedEventType, it.data⟩
      if expectScanResponse then (s, some result) else (s.removeFragment it.key, some result)

end LeScanningReassembler

end BluetoothStack.Scan
