import BluetoothStack.Storage.ConfigCache
import BluetoothStack.Lib.Runs

/-!
# BluetoothStack.Storage.PairedDevices

Where the sections are: each in one map, none empty, and the devices with a link key in
`persistentDevices`.

A persistent device always has a persistent property. The converse needs care from the caller:
`RemoveProperty` of a persistent property makes the device temporary even if another one is left.
-/

namespace BluetoothStack.Storage

open BluetoothStack.Lib

namespace ConfigCache

/-- A section of one of the maps. -/
def Stored (c : ConfigCache) (name : Str) (properties : Properties) : Prop :=
  c.informationSections.find? name = some properties ∨
  c.persistentDevices.find? name = some properties ∨
  c.temporaryDevices.find? name = some properties

def hasPersistentProperty (c : ConfigCache) (properties : Properties) : Bool :=
  c.persistentPropertyNames.any properties.contains

/-- A persistent property is removed from a persistent device only if it is the last one. -/
def removesLastKey (c : ConfigCache) (name property : Str) : Bool :=
  match c.persistentDevices.find? name with
  | none => true
  | some properties =>
    !(properties.contains property && c.isPersistentProperty property &&
      c.hasPersistentProperty (properties.erase property))

def entryKeepsKeys (c : ConfigCache) : MutationEntry → Bool
  | .removeProperty name property => c.removesLastKey name property
  | .set _ _ _ => true
  | .removeSection _ => true

def keepsKeys (c : ConfigCache) : ConfigCall → Bool
  | .removeProperty name property => c.removesLastKey name property
  | .commit keystore entries => allSteps (apply keystore) entryKeepsKeys c entries
  | _ => true

/-! ### Persistent properties -/

variable {c : ConfigCache} {properties : Properties} {name property value : Str}

theorem hasPersistentProperty_iff :
    c.hasPersistentProperty properties ↔
      ∃ p, c.isPersistentProperty p ∧ properties.contains p := by
  simp [hasPersistentProperty, isPersistentProperty]

theorem contains_insertOrAssign {p : Str} :
    (properties.insertOrAssign property value).contains p ↔
      p = property ∨ properties.contains p := by
  rw [ListMap.contains, ListMap.find?_insertOrAssign]
  split
  · simp [*]
  · simp [*, ListMap.contains]

theorem contains_erase {p : Str} :
    (properties.erase property).contains p ↔ p ≠ property ∧ properties.contains p := by
  rw [ListMap.contains, ListMap.find?_erase]
  split
  · simp [*]
  · simp [*, ListMap.contains]

theorem hasPersistentProperty_insertOrAssign :
    c.hasPersistentProperty (properties.insertOrAssign property value) ↔
      c.isPersistentProperty property ∨ c.hasPersistentProperty properties := by
  simp only [hasPersistentProperty_iff, contains_insertOrAssign]
  constructor
  · rintro ⟨p, hp, rfl | hcontains⟩
    · exact Or.inl hp
    · exact Or.inr ⟨p, hp, hcontains⟩
  · rintro (hp | ⟨p, hp, hcontains⟩)
    · exact ⟨property, hp, Or.inl rfl⟩
    · exact ⟨p, hp, Or.inr hcontains⟩

theorem hasPersistentProperty_of_erase (h : c.hasPersistentProperty (properties.erase property)) :
    c.hasPersistentProperty properties := by
  obtain ⟨p, hp, hcontains⟩ := hasPersistentProperty_iff.mp h
  exact hasPersistentProperty_iff.mpr ⟨p, hp, (contains_erase.mp hcontains).2⟩

/-- Removing what is not there, or what is not persistent, leaves the link keys. -/
theorem hasPersistentProperty_erase (h : c.hasPersistentProperty properties)
    (hother : (properties.contains property && c.isPersistentProperty property) = false) :
    c.hasPersistentProperty (properties.erase property) := by
  obtain ⟨p, hp, hcontains⟩ := hasPersistentProperty_iff.mp h
  refine hasPersistentProperty_iff.mpr ⟨p, hp, contains_erase.mpr ⟨?_, hcontains⟩⟩
  rintro rfl
  rw [hp, hcontains] at hother
  cases hother

theorem size_insertOrAssign : (properties.insertOrAssign property value).size ≠ 0 := by
  intro hsize
  have hcontains : (properties.insertOrAssign property value).contains property :=
    contains_insertOrAssign.mpr (Or.inl rfl)
  rw [← ListMap.mem_keys_iff, List.length_eq_zero_iff.mp hsize] at hcontains
  cases hcontains

/-! ### The invariant -/

/-- What holds of a temporary device. If the link keys are taken care of, it has none. -/
def TemporaryOk (keys : Prop) (c : ConfigCache) (name : Str) (properties : Properties) : Prop :=
  isDeviceSection name ∧ properties.size ≠ 0 ∧ c.persistentDevices.find? name = none ∧
    (keys → c.hasPersistentProperty properties = false)

structure Inv (capacity : Nat) (keys : Prop) (c : ConfigCache) : Prop where
  information : c.informationSections.All fun name properties =>
    isDeviceSection name = false ∧ properties.size ≠ 0
  persistent : c.persistentDevices.All fun name properties =>
    isDeviceSection name ∧ properties.size ≠ 0 ∧ c.hasPersistentProperty properties
  temporary : c.temporaryDevices.listMap.All (TemporaryOk keys c)
  capacity : c.temporaryDevices.capacity = capacity

variable {capacity : Nat} {keys : Prop}

theorem init_inv (h : 0 < capacity) (names : List Str) :
    Inv capacity keys (init capacity h names) where
  information := ListMap.all_empty
  persistent := ListMap.all_empty
  temporary := ListMap.all_empty
  capacity := rfl

theorem tryEmplace_capacity {κ υ : Type} [DecidableEq κ] (c : LruCache κ υ) (k : κ) (v : υ) :
    (c.tryEmplace k v).capacity = c.capacity := by
  unfold LruCache.tryEmplace
  split <;> rfl

variable {c' : ConfigCache}

theorem TemporaryOk.mono (h : TemporaryOk keys c name properties)
    (hnames : c'.persistentPropertyNames = c.persistentPropertyNames)
    (hpersistent : c.persistentDevices.find? name = none → c'.persistentDevices.find? name = none) :
    TemporaryOk keys c' name properties := by
  obtain ⟨hdevice, hsize, hnone, hkeys⟩ := h
  refine ⟨hdevice, hsize, hpersistent hnone, fun hk => ?_⟩
  rw [hasPersistentProperty, hnames]
  exact hkeys hk

theorem find?_erase_none {m : ListMap Str Properties} {k j : Str} (h : m.find? j = none) :
    (m.erase k).find? j = none := by
  rw [ListMap.find?_erase, h]
  split <;> rfl

theorem find?_modify_none {m : ListMap Str Properties} {k j : Str} (f : Properties → Properties)
    (h : m.find? j = none) : (m.modify k f).find? j = none := by
  rw [ListMap.find?_modify]
  split
  next hj => rw [← hj, h, Option.map_none]
  · exact h

/-! ### `SetProperty` -/

section

variable (h : Inv capacity keys c)
include h

theorem Inv.setInformation (hname : isDeviceSection name = false) :
    Inv capacity keys (c.setInformation name property value) :=
  { h with information := h.information.emplace ⟨hname, size_insertOrAssign⟩ }

theorem Inv.setPersistent (keystore : Option Keystore) :
    Inv capacity keys (c.setPersistent keystore name property value) := by
  refine { h with
    persistent := h.persistent.modify fun properties hfind => ?_
    temporary := fun j ps hj => (h.temporary j ps hj).mono rfl (find?_modify_none _) }
  obtain ⟨hdevice, -, hkey⟩ := h.persistent name properties hfind
  exact ⟨hdevice, size_insertOrAssign, hasPersistentProperty_insertOrAssign.mpr (Or.inr hkey)⟩

theorem Inv.makePersistent (keystore : Option Keystore) (hname : isDeviceSection name)
    (hproperty : c.isPersistentProperty property) :
    Inv capacity keys
      ((c.makePersistent name).setPersistent keystore name property value) := by
  refine { h with
    persistent := h.persistent.emplace
      ⟨hname, size_insertOrAssign, hasPersistentProperty_insertOrAssign.mpr (Or.inl hproperty)⟩
    temporary := fun j properties hj => ?_ }
  have hj : (c.temporaryDevices.erase name).find? j = some properties := hj
  rw [LruCache.find?_erase] at hj
  split at hj
  · cases hj
  next hne =>
    refine (h.temporary j properties hj).mono rfl fun hnone => find?_modify_none _ ?_
    rw [ConfigCache.makePersistent, ListMap.find?_tryEmplaceBack, if_neg hne, hnone]

theorem Inv.setTemporary (hname : isDeviceSection name)
    (hpersistent : c.persistentDevices.find? name = none)
    (hproperty : c.isPersistentProperty property = false) :
    Inv capacity keys (c.setTemporary name property value) := by
  refine { h with
    temporary := LruCache.all_emplace h.temporary
      ⟨hname, size_insertOrAssign, hpersistent, fun hkeys => ?_⟩
    capacity := (tryEmplace_capacity _ _ _).trans h.capacity }
  rw [Bool.eq_false_iff]
  intro hkey
  rcases hasPersistentProperty_insertOrAssign.mp hkey with hkey | hkey
  · rw [show c.isPersistentProperty property = true from hkey] at hproperty
    cases hproperty
  · cases hfind : c.temporaryDevices.find? name with
    | none => simp [hfind, hasPersistentProperty_iff, ListMap.contains, ListMap.find?, find,
        ListMap.empty] at hkey
    | some properties =>
      rw [hfind, Option.getD_some] at hkey
      have hnokey := (h.temporary name properties hfind).2.2.2 hkeys
      rw [show c.hasPersistentProperty properties = true from hkey] at hnokey
      cases hnokey

theorem Inv.set (keystore : Option Keystore) :
    Inv capacity keys (c.set keystore name property value) := by
  unfold ConfigCache.set
  split
  next hname => exact h.setInformation (by simpa using hname)
  rename_i hname
  have hname : isDeviceSection name := by simpa using hname
  split
  · exact h.setPersistent keystore
  rename_i hcontains
  split
  next hproperty => exact h.makePersistent keystore hname hproperty
  next hproperty =>
    refine h.setTemporary hname ?_ (by simpa using hproperty)
    simpa [ListMap.contains] using hcontains

end

theorem Inv.setProperty (h : Inv capacity keys c) {keystore : Option Keystore}
    (hset : c.setProperty keystore name property value = some c') : Inv capacity keys c' := by
  simp only [ConfigCache.setProperty] at hset
  split at hset
  · cases hset
  · cases hset
    exact h.set keystore

/-! ### The removals -/

section

variable (h : Inv capacity keys c)
include h

theorem Inv.erasePersistent :
    Inv capacity keys { c with persistentDevices := c.persistentDevices.erase name } :=
  { h with
    persistent := h.persistent.erase
    temporary := fun j ps hj => (h.temporary j ps hj).mono rfl find?_erase_none }

theorem Inv.eraseTemporary :
    Inv capacity keys { c with temporaryDevices := c.temporaryDevices.erase name } :=
  { h with temporary := h.temporary.erase }

theorem Inv.removeSection : Inv capacity keys (c.removeSection name).1 := by
  unfold ConfigCache.removeSection
  split
  · exact { h with information := h.information.erase }
  split
  · exact h.erasePersistent
  · exact h.eraseTemporary

theorem Inv.removeSectionWithProperty :
    Inv capacity keys (c.removeSectionWithProperty property) where
  information := h.information.eraseIf
  persistent := h.persistent.eraseIf
  temporary := by
    intro j ps hj
    refine (h.temporary.eraseIf j ps hj).mono rfl fun hnone => ?_
    show (c.persistentDevices.eraseIf _).find? j = none
    rw [← Option.not_isSome_iff_eq_none, Option.isSome_iff_exists]
    rintro ⟨v, hv⟩
    rw [(ListMap.find?_eraseIf.mp hv).1] at hnone
    cases hnone
  capacity := h.capacity

/-- A device that loses a persistent property. -/
theorem Inv.makeTemporary (hfind : c.persistentDevices.find? name = some properties)
    {left : Properties} (hsize : left.size ≠ 0)
    (hleft : keys → c.hasPersistentProperty left = false) :
    Inv capacity keys (c.makeTemporary name left) where
  information := h.information
  persistent := h.persistent.erase
  temporary := by
    have hothers : c.temporaryDevices.listMap.All (TemporaryOk keys (c.makeTemporary name left)) :=
      fun j ps hj => (h.temporary j ps hj).mono rfl find?_erase_none
    refine LruCache.all_emplace hothers ?_
    refine ⟨(h.persistent name properties hfind).1, hsize, ?_, hleft⟩
    show (c.persistentDevices.erase name).find? name = none
    rw [ListMap.find?_erase, if_pos rfl]
  capacity := (tryEmplace_capacity _ _ _).trans h.capacity

/-- The other properties of a persistent device. -/
theorem Inv.modifyPersistent (hfind : c.persistentDevices.find? name = some properties)
    {left : Properties} (hsize : left.size ≠ 0) (hkey : c.hasPersistentProperty left) :
    Inv capacity keys
      { c with persistentDevices := c.persistentDevices.modify name fun _ => left } :=
  { h with
    persistent := h.persistent.modify fun _ _ =>
      ⟨(h.persistent name properties hfind).1, hsize, hkey⟩
    temporary := fun j ps hj => (h.temporary j ps hj).mono rfl (find?_modify_none _) }

theorem Inv.removeProperty (hkeeps : keys → c.removesLastKey name property) :
    Inv capacity keys (c.removeProperty name property).1 := by
  unfold ConfigCache.removeProperty
  split
  next properties hfind =>
    dsimp only
    split
    · exact { h with information := h.information.erase }
    next hsize =>
      refine { h with information := h.information.modify fun _ _ => ?_ }
      exact ⟨(h.information name properties hfind).1, hsize⟩
  split
  next properties hfind =>
    dsimp only
    split
    · exact h.erasePersistent
    rename_i hsize
    split
    -- the device becomes temporary, whatever keys it has left
    next hkey =>
      refine h.makeTemporary hfind hsize fun hkeys => ?_
      simpa [removesLastKey, hfind, hkey] using hkeeps hkeys
    next hkey =>
      refine h.modifyPersistent hfind hsize ?_
      exact hasPersistentProperty_erase (h.persistent name properties hfind).2.2
        (by simpa using hkey)
  split
  next properties hfind =>
    have hok := h.temporary name properties hfind
    have hwarm : Inv capacity keys
        { c with temporaryDevices := c.temporaryDevices.warmUp name } :=
      { h with temporary := LruCache.all_warmUp h.temporary }
    dsimp only
    split
    · exact hwarm.eraseTemporary
    next hsize =>
      refine { h with temporary := hwarm.temporary.modify fun _ _ => ?_ }
      refine ⟨hok.1, hsize, hok.2.2.1, fun hkeys => ?_⟩
      have hnokey := hok.2.2.2 hkeys
      rw [Bool.eq_false_iff] at hnokey ⊢
      exact fun hkey => hnokey (hasPersistentProperty_of_erase hkey)
  · exact h

end

/-! ### Every run -/

theorem Inv.apply (h : Inv capacity keys c) {keystore : Option Keystore} {entry : MutationEntry}
    (hstep : c.apply keystore entry = some c') (hkeeps : keys → c.entryKeepsKeys entry) :
    Inv capacity keys c' := by
  cases entry with
  | set name property value => exact h.setProperty hstep
  | removeProperty name property =>
    cases hstep
    exact h.removeProperty hkeeps
  | removeSection name =>
    cases hstep
    exact h.removeSection

theorem Inv.commit (h : Inv capacity keys c) {keystore : Option Keystore}
    {entries : List MutationEntry} (hcommit : c.commit keystore entries = some c')
    (hkeeps : keys → allSteps (ConfigCache.apply keystore) entryKeepsKeys c entries) :
    Inv capacity keys c' := by
  by_cases hkeys : keys
  · refine run_invariant (fun s e s' hs hp hstep => ?_) h (hkeeps hkeys) hcommit
    exact hs.apply hstep fun _ => hp
  · refine foldlM_invariant (fun s e s' hs hstep => ?_) h hcommit
    exact hs.apply hstep fun hk => absurd hk hkeys

theorem Inv.step (h : Inv capacity keys c) {call : ConfigCall} (hstep : c.step call = some c')
    (hkeeps : keys → c.keepsKeys call) : Inv capacity keys c' := by
  cases call with
  | setProperty keystore name property value => exact h.setProperty hstep
  | removeProperty name property =>
    cases hstep
    exact h.removeProperty hkeeps
  | removeSection name =>
    cases hstep
    exact h.removeSection
  | removeSectionWithProperty property =>
    cases hstep
    exact h.removeSectionWithProperty
  | commit keystore entries => exact h.commit hstep hkeeps

theorem run_inv (hcapacity : 0 < capacity) {names : List Str} {calls : List ConfigCall}
    (hrun : calls.foldlM ConfigCache.step (init capacity hcapacity names) = some c) :
    Inv capacity False c :=
  foldlM_invariant (fun _ _ _ hs hstep => hs.step hstep fun h => h.elim)
    (init_inv hcapacity names) hrun

/-- A name is in one map at most. -/
theorem Inv.count_le_one (h : Inv capacity keys c) (name : Str) :
    [c.informationSections.contains name, c.persistentDevices.contains name,
      c.temporaryDevices.contains name].count true ≤ 1 := by
  have hinformation (hdevice : isDeviceSection name) :
      c.informationSections.contains name = false := by
    rw [Bool.eq_false_iff]
    intro hcontains
    obtain ⟨properties, hfind⟩ := Option.isSome_iff_exists.mp hcontains
    have hother := (h.information name properties hfind).1
    rw [hdevice] at hother
    cases hother
  by_cases htemporary : c.temporaryDevices.contains name
  · obtain ⟨properties, hfind⟩ := Option.isSome_iff_exists.mp htemporary
    obtain ⟨hdevice, -, hnone, -⟩ := h.temporary name properties hfind
    have hpersistent : c.persistentDevices.contains name = false := by
      rw [ListMap.contains, hnone, Option.isSome_none]
    simp [hinformation hdevice, hpersistent, htemporary]
  · by_cases hpersistent : c.persistentDevices.contains name
    · obtain ⟨properties, hfind⟩ := Option.isSome_iff_exists.mp hpersistent
      simp [hinformation (h.persistent name properties hfind).1, hpersistent, htemporary]
    · cases c.informationSections.contains name <;> simp [hpersistent, htemporary]

theorem Inv.size_ne_zero (h : Inv capacity keys c) (hstored : c.Stored name properties) :
    properties.size ≠ 0 := by
  rcases hstored with hfind | hfind | hfind
  · exact (h.information name properties hfind).2
  · exact (h.persistent name properties hfind).2.1
  · exact (h.temporary name properties hfind).2.1

theorem Inv.persistent_iff (h : Inv capacity True c) (hdevice : isDeviceSection name)
    (hstored : c.Stored name properties) :
    c.persistentDevices.find? name = some properties ↔ c.hasPersistentProperty properties := by
  refine ⟨fun hfind => (h.persistent name properties hfind).2.2, fun hkey => ?_⟩
  rcases hstored with hfind | hfind | hfind
  · have hother := (h.information name properties hfind).1
    rw [hdevice] at hother
    cases hother
  · exact hfind
  · have hnokey := (h.temporary name properties hfind).2.2.2 trivial
    rw [hkey] at hnokey
    cases hnokey

theorem isInfix_serializeSection (hfind : c.persistentDevices.find? name = some properties) :
    serializeSection name properties <:+: c.serializeToLegacyFormat := by
  obtain ⟨before, after, hsplit⟩ := List.append_of_mem
    (List.mem_append_right c.informationSections.nodeList (ListMap.mem_of_find? hfind))
  rw [serializeToLegacyFormat, hsplit, List.flatMap_append, List.flatMap_cons]
  exact ⟨_, _, List.append_assoc _ _ _⟩

/-- Whatever is called: a name is in one map at most, no section is empty, and the temporary devices
are within their capacity. If a persistent property is removed only as the last one of its device,
the persistent devices are those with such a property, and all of these are written. -/
theorem paired_devices_are_persistent (hcapacity : 0 < capacity) (names : List Str)
    (calls : List ConfigCall) (c : ConfigCache)
    (hrun : calls.foldlM ConfigCache.step (init capacity hcapacity names) = some c) :
    (∀ name, [c.informationSections.contains name, c.persistentDevices.contains name,
      c.temporaryDevices.contains name].count true ≤ 1) ∧
    (∀ name properties, c.Stored name properties → properties.size ≠ 0) ∧
    c.temporaryDevices.listMap.size ≤ capacity ∧
    (allSteps ConfigCache.step keepsKeys (init capacity hcapacity names) calls →
      ∀ name properties, isDeviceSection name → c.Stored name properties →
        (c.persistentDevices.find? name = some properties ↔ c.hasPersistentProperty properties) ∧
        (c.hasPersistentProperty properties →
          serializeSection name properties <:+: c.serializeToLegacyFormat)) := by
  have hinv := run_inv hcapacity hrun
  refine ⟨hinv.count_le_one, fun _ _ => hinv.size_ne_zero, ?_, ?_⟩
  · exact hinv.capacity ▸ c.temporaryDevices.bounded
  · intro hkeeps name properties hdevice hstored
    have hkeys : Inv capacity True c :=
      run_invariant (fun _ _ _ hs hp hstep => hs.step hstep fun _ => hp)
        (init_inv hcapacity names) hkeeps hrun
    have hiff := hkeys.persistent_iff hdevice hstored
    exact ⟨hiff, fun hkey => isInfix_serializeSection (hiff.mpr hkey)⟩

/-- A device is paired, is renamed and loses its only link key. -/
def pairAndUnpair : List ConfigCall :=
  [.setProperty none "00:11:22:33:44:55".toList "LinkKey".toList "01".toList,
    .setProperty none "00:11:22:33:44:55".toList "Name".toList "a".toList,
    .removeProperty "00:11:22:33:44:55".toList "LinkKey".toList]

theorem paired_devices_are_persistent_unpaired : ∃ c,
    pairAndUnpair.foldlM ConfigCache.step (init 1 Nat.one_pos ["LinkKey".toList]) = some c ∧
    c.temporaryDevices.listMap.size ≤ 1 ∧
    ∀ name properties, isDeviceSection name → c.Stored name properties →
      (c.persistentDevices.find? name = some properties ↔ c.hasPersistentProperty properties) := by
  obtain ⟨c, hrun⟩ : ∃ c, pairAndUnpair.foldlM ConfigCache.step
      (init 1 Nat.one_pos ["LinkKey".toList]) = some c := ⟨_, rfl⟩
  obtain ⟨-, -, hsize, hkeys⟩ := paired_devices_are_persistent Nat.one_pos _ _ c hrun
  have hkeeps : allSteps ConfigCache.step keepsKeys (init 1 Nat.one_pos ["LinkKey".toList])
      pairAndUnpair := by decide +kernel
  exact ⟨c, hrun, hsize, fun name properties hdevice hstored =>
    (hkeys hkeeps name properties hdevice hstored).1⟩

/-- A dual mode device loses its LE key and with it, on disk, the key for BR/EDR. -/
theorem remaining_link_key_is_not_written :
    ([.setProperty none "00:11:22:33:44:55".toList "LinkKey".toList "01".toList,
      .setProperty none "00:11:22:33:44:55".toList "LE_KEY_PENC".toList "02".toList,
      .removeProperty "00:11:22:33:44:55".toList "LE_KEY_PENC".toList].foldlM ConfigCache.step
        (init 1 Nat.one_pos ["LinkKey".toList, "LE_KEY_PENC".toList])).map
      (fun c => (c.serializeToLegacyFormat,
        (c.temporaryDevices.find? "00:11:22:33:44:55".toList).map c.hasPersistentProperty)) =
    some ([], some true) := by
  decide +kernel

end ConfigCache

end BluetoothStack.Storage
