import BluetoothStack.Storage.LegacyConfigFile
import BluetoothStack.Storage.PairedDevices

/-!
# BluetoothStack.Storage.RoundTrip

What is written is read back.

A section is written as its name, its properties and an empty line. Reading these lines back puts
the section after those already read: into `informationSections` property by property, and for a
device first into `temporaryDevices` and from its first link key on into `persistentDevices`. So no
device is in `temporaryDevices` between two sections, and nothing is evicted.
-/

namespace BluetoothStack.Storage

open BluetoothStack.Lib

/-- The names that are written without a loss. -/
def isName (name : Str) : Bool :=
  !name.isEmpty && name.all (fun c => !isSpace c && c != '=' && c != '[' && c != ']') &&
    decide (name.head? ≠ some '#')

/-- A property is not taken for a blank line. -/
def isPropertyName (property : Str) : Bool :=
  isName property && decide (property.head? ≠ some '\x00')

theorem ne_nil_of_isName {name : Str} (h : isName name) : name ≠ [] := by
  rintro rfl
  cases h

theorem char_of_isName {name : Str} (h : isName name) {c : Char} (hc : c ∈ name) :
    isSpace c = false ∧ c ≠ '=' ∧ c ≠ '[' ∧ c ≠ ']' := by
  simp only [isName, Bool.and_eq_true, List.all_eq_true] at h
  simpa [and_assoc] using h.1.2 c hc

theorem newline_of_isName {name : Str} (h : isName name) : '\n' ∉ name := by
  intro hmem
  have hspace := (char_of_isName h hmem).1
  revert hspace
  decide

theorem not_mem_trimAfterNewLine (s : Str) : '\n' ∉ trimAfterNewLine s := by
  intro hmem
  simpa using List.mem_takeWhile_imp hmem

/-! ### Lines -/

namespace ConfigCache

def propertyLine (node : Str × Str) : Str := node.1 ++ " = ".toList ++ node.2

def sectionLines (node : Str × Properties) : List Str :=
  ('[' :: node.1 ++ "]".toList) :: node.2.nodeList.map propertyLine ++ [[]]

/-- A section of which every line is one line. -/
def Writable (name : Str) (properties : Properties) : Prop :=
  isName name ∧ properties.All fun property value => isPropertyName property ∧ '\n' ∉ value

theorem getlines_properties {l : List (Str × Str)} (hl : ∀ node ∈ l, '\n' ∉ propertyLine node)
    (rest : Str) :
    getlines '\n' ((l.flatMap fun (property, value) =>
      property ++ " = ".toList ++ value ++ "\n".toList) ++ rest) =
      l.map propertyLine ++ getlines '\n' rest := by
  induction l with
  | nil => rfl
  | cons node l ih =>
    have hline := getlines_append (hl node List.mem_cons_self)
      ((l.flatMap fun (property, value) =>
        property ++ " = ".toList ++ value ++ "\n".toList) ++ rest)
    rw [ih fun n hn => hl n (List.mem_cons_of_mem _ hn)] at hline
    rw [List.map_cons, List.cons_append, ← hline]
    simp [propertyLine]

theorem Writable.propertyLine {name : Str} {properties : Properties}
    (h : Writable name properties) : ∀ node ∈ properties.nodeList, '\n' ∉ propertyLine node := by
  intro node hnode hmem
  obtain ⟨hproperty, hvalue⟩ := h.2 node.1 node.2 (ListMap.find?_of_mem hnode)
  rw [isPropertyName, Bool.and_eq_true] at hproperty
  simp only [ConfigCache.propertyLine, List.mem_append] at hmem
  rcases hmem with (hmem | hmem) | hmem
  · exact newline_of_isName hproperty.1 hmem
  · revert hmem
    decide
  · exact hvalue hmem

theorem getlines_serializeSection {name : Str} {properties : Properties}
    (h : Writable name properties) (rest : Str) :
    getlines '\n' (serializeSection name properties ++ rest) =
      sectionLines (name, properties) ++ getlines '\n' rest := by
  have hname : '\n' ∉ '[' :: name ++ "]".toList := by
    have hname := newline_of_isName h.1
    simp [hname]
  have hfirst := getlines_append hname
    ((properties.nodeList.flatMap fun (property, value) =>
      property ++ " = ".toList ++ value ++ "\n".toList) ++ ('\n' :: rest))
  rw [getlines_properties h.propertyLine] at hfirst
  have hempty := getlines_append (List.not_mem_nil (a := '\n')) rest
  rw [List.nil_append] at hempty
  rw [hempty] at hfirst
  have htext : serializeSection name properties ++ rest = '[' :: name ++ "]".toList ++
      '\n' :: ((properties.nodeList.flatMap fun (property, value) =>
        property ++ " = ".toList ++ value ++ "\n".toList) ++ ('\n' :: rest)) := by
    simp [serializeSection]
  rw [htext, hfirst]
  simp [sectionLines]

theorem getlines_sections {l : List (Str × Properties)} (hl : ∀ node ∈ l, Writable node.1 node.2) :
    getlines '\n' (l.flatMap fun (name, properties) => serializeSection name properties) =
      l.flatMap sectionLines := by
  induction l with
  | nil => rfl
  | cons node l ih =>
    rw [List.flatMap_cons, List.flatMap_cons, getlines_serializeSection
      (hl node List.mem_cons_self), ih fun n hn => hl n (List.mem_cons_of_mem _ hn)]

end ConfigCache

/-! ### Setting the properties of a section -/

namespace ConfigCache

variable {c : ConfigCache} {name : Str}

def setAll (c : ConfigCache) (name : Str) (l : List (Str × Str)) : ConfigCache :=
  l.foldl (fun c node => c.set none name node.1 node.2) c

def insertAll (properties : Properties) (l : List (Str × Str)) : Properties :=
  l.foldl (fun properties node => properties.insertOrAssign node.1 node.2) properties

theorem set_of_information (hname : isDeviceSection name = false) (property value : Str) :
    c.set none name property value = c.setInformation name property value := by
  rw [set, hname]
  rfl

theorem set_of_persistent (hname : isDeviceSection name) (h : c.persistentDevices.contains name)
    (property value : Str) :
    c.set none name property value = c.setPersistent none name property value := by
  rw [set, hname, if_neg (by decide), if_pos h]

theorem setAll_information (hname : isDeviceSection name = false) (l : List (Str × Str))
    (h : c.informationSections.contains name) :
    c.setAll name l =
      { c with informationSections := c.informationSections.modify name (insertAll · l) } := by
  induction l generalizing c with
  | nil => rw [show (fun ps => insertAll ps []) = fun ps => ps from rfl, ListMap.modify_self]; rfl
  | cons node l ih =>
    have hfirst : c.set none name node.1 node.2 = { c with
        informationSections := c.informationSections.modify name
          (·.insertOrAssign node.1 node.2) } := by
      rw [set_of_information hname, setInformation, ListMap.tryEmplaceBack_of_contains h]
    rw [setAll, List.foldl_cons, hfirst]
    refine (ih ((ListMap.contains_modify _).trans h)).trans ?_
    rw [ListMap.modify_modify]
    rfl

theorem setAll_persistent (hname : isDeviceSection name) (l : List (Str × Str))
    (h : c.persistentDevices.contains name) :
    c.setAll name l =
      { c with persistentDevices := c.persistentDevices.modify name (insertAll · l) } := by
  induction l generalizing c with
  | nil => rw [show (fun ps => insertAll ps []) = fun ps => ps from rfl, ListMap.modify_self]; rfl
  | cons node l ih =>
    rw [setAll, List.foldl_cons, set_of_persistent hname h]
    refine (ih ((ListMap.contains_modify _).trans h)).trans ?_
    rw [setPersistent, ListMap.modify_modify]
    rfl

/-- What has been read: the sections in their order, and no device that waits for a link key. -/
structure Loaded (c : ConfigCache) (information persistent : List (Str × Properties)) : Prop where
  information : c.informationSections.nodeList = information
  persistent : c.persistentDevices.nodeList = persistent
  temporary : ∀ name, c.temporaryDevices.find? name = none
  names : c.persistentPropertyNames = kLinkKeyProperties

variable {information persistent : List (Str × Properties)} {l : List (Str × Str)}

theorem Loaded.setAll_information (h : Loaded c information persistent)
    (hname : isDeviceSection name = false) (hnew : name ∉ information.map Prod.fst) (hl : l ≠ []) :
    Loaded (c.setAll name l) (information ++ [(name, insertAll .empty l)]) persistent := by
  cases l with
  | nil => exact absurd rfl hl
  | cons node l =>
    have hcontains : c.informationSections.contains name = false := by
      rw [Bool.eq_false_iff, Ne, ← ListMap.mem_keys_iff, h.information]
      exact hnew
    have hset : c.setAll name (node :: l) =
        (c.setInformation name node.1 node.2).setAll name l := by
      rw [setAll, List.foldl_cons, set_of_information hname]
      rfl
    rw [hset, ConfigCache.setAll_information hname l
      ((ListMap.contains_modify _).trans (ListMap.contains_tryEmplaceBack _))]
    refine { h with information := ?_ }
    rw [setInformation, ListMap.modify_modify, ListMap.nodeList_emplace hcontains, h.information]
    rfl

/-- A device is temporary until its first link key. -/
theorem setAll_device (hname : isDeviceSection name)
    (hkey : ∃ node ∈ l, c.isPersistentProperty node.1)
    (hcontains : c.persistentDevices.contains name = false)
    (honly : ∀ j, j ≠ name → c.temporaryDevices.find? j = none) :
    (c.setAll name l).persistentDevices.nodeList = c.persistentDevices.nodeList ++
        [(name, insertAll ((c.temporaryDevices.find? name).getD .empty) l)] ∧
      (c.setAll name l).informationSections = c.informationSections ∧
      (∀ j, (c.setAll name l).temporaryDevices.find? j = none) ∧
      (c.setAll name l).persistentPropertyNames = c.persistentPropertyNames := by
  induction l generalizing c with
  | nil => simp at hkey
  | cons node l ih =>
    by_cases hnode : c.isPersistentProperty node.1
    · -- it becomes persistent, with what it has
      have hset : c.setAll name (node :: l) =
          ((c.makePersistent name).setPersistent none name node.1 node.2).setAll name l := by
        rw [setAll, List.foldl_cons, set, hname, if_neg (by decide), if_neg (by simp [hcontains]),
          if_pos hnode]
        rfl
      rw [hset, setAll_persistent hname l
        ((ListMap.contains_modify _).trans (ListMap.contains_tryEmplaceBack _))]
      refine ⟨?_, rfl, fun j => ?_, rfl⟩
      · rw [setPersistent, ListMap.modify_modify]
        exact ListMap.nodeList_emplace hcontains _ _
      · show (c.temporaryDevices.erase name).find? j = none
        rw [LruCache.find?_erase]
        split
        · rfl
        next hj => exact honly j hj
    · have hset : c.setAll name (node :: l) =
          (c.setTemporary name node.1 node.2).setAll name l := by
        rw [setAll, List.foldl_cons, set, hname, if_neg (by decide), if_neg (by simp [hcontains]),
          if_neg hnode]
        rfl
      have hrest : ∃ n ∈ l, c.isPersistentProperty n.1 := by
        obtain ⟨n, hmem, hn⟩ := hkey
        rcases List.mem_cons.mp hmem with rfl | hmem
        · exact absurd hn hnode
        · exact ⟨n, hmem, hn⟩
      have htemporary : (c.setTemporary name node.1 node.2).temporaryDevices.find? name =
          some (((c.temporaryDevices.find? name).getD .empty).insertOrAssign node.1 node.2) := by
        rw [setTemporary, LruCache.find?_modify, if_pos rfl, LruCache.find?_tryEmplace_self,
          Option.map_some]
      have hothers : ∀ j, j ≠ name →
          (c.setTemporary name node.1 node.2).temporaryDevices.find? j = none := by
        intro j hj
        rw [setTemporary, LruCache.find?_modify, if_neg hj, Option.eq_none_iff_forall_ne_some]
        intro w hw
        have hfind := LruCache.find?_of_tryEmplace hj hw
        rw [honly j hj] at hfind
        cases hfind
      obtain ⟨hpersistent, hinformation, htemporary', hnames⟩ :=
        @ih (c.setTemporary name node.1 node.2) hrest hcontains hothers
      rw [hset]
      refine ⟨?_, hinformation, htemporary', hnames⟩
      rw [hpersistent, htemporary, Option.getD_some]
      rfl

theorem Loaded.setAll_device (h : Loaded c information persistent)
    (hname : isDeviceSection name) (hnew : name ∉ persistent.map Prod.fst)
    (hkey : ∃ node ∈ l, node.1 ∈ kLinkKeyProperties) :
    Loaded (c.setAll name l) information (persistent ++ [(name, insertAll .empty l)]) := by
  have hcontains : c.persistentDevices.contains name = false := by
    rw [Bool.eq_false_iff, Ne, ← ListMap.mem_keys_iff, h.persistent]
    exact hnew
  have hkey : ∃ node ∈ l, c.isPersistentProperty node.1 := by
    simpa [isPersistentProperty, h.names] using hkey
  obtain ⟨hpersistent, hinformation, htemporary, hnames⟩ :=
    ConfigCache.setAll_device hname hkey hcontains fun j _ => h.temporary j
  refine ⟨hinformation ▸ h.information, ?_, htemporary, hnames.trans h.names⟩
  rw [hpersistent, h.persistent, h.temporary, Option.getD_none]

end ConfigCache

/-! ### Reading a line -/

namespace LegacyConfigFile

open ConfigCache

variable {s : ConfigCache × Str} {name : Str}

theorem readLine_section :
    readLine none s ('[' :: name ++ "]".toList) = .ok (s.1, name) := by
  have hlast : ('[' :: name ++ "]".toList).getLast? = some ']' := List.getLast?_concat
  have htrim : stringTrim ('[' :: name ++ "]".toList) = '[' :: name ++ "]".toList := by
    refine stringTrim_of_ends ?_ ?_
    · rintro c ⟨⟩
      decide
    · intro c hc
      rw [hlast] at hc
      cases hc
      decide
  rw [List.cons_append] at hlast htrim
  have hname : (name ++ "]".toList).dropLast = name := List.dropLast_concat
  rw [readLine, List.cons_append, htrim]
  dsimp only
  rw [if_neg (by decide), if_pos rfl, if_neg (not_not_intro hlast), hname]

variable {property : Str} {cache : ConfigCache}

/-- The line of a property, without the blanks at its end. -/
theorem stringTrim_propertyLine {value : Str} (hproperty : isName property) :
    stringTrim (propertyLine (property, value)) =
      property ++ [' '] ++ '=' :: (' ' :: value).rdropWhile isSpace := by
  have hline : propertyLine (property, value) = property ++ [' '] ++ '=' :: ' ' :: value := by
    simp [propertyLine]
  rw [hline, stringTrim]
  have hdrop : (property ++ [' '] ++ '=' :: ' ' :: value).dropWhile isSpace =
      property ++ [' '] ++ '=' :: ' ' :: value := by
    cases property with
    | nil => exact absurd rfl (ne_nil_of_isName hproperty)
    | cons c property =>
      have hc := (char_of_isName hproperty List.mem_cons_self).1
      exact List.dropWhile_cons_of_neg (by simp [hc])
  rw [hdrop, rdropWhile_append_cons (by decide)]

theorem stringTrim_of_isName (hproperty : isName property) : stringTrim property = property := by
  refine stringTrim_of_ends (fun c hc => ?_) (fun c hc => ?_)
  · exact (char_of_isName hproperty (List.mem_of_mem_head? hc)).1
  · exact (char_of_isName hproperty (List.mem_of_mem_getLast? hc)).1

theorem stringTrim_concat_blank (hproperty : isName property) :
    stringTrim (property ++ [' ']) = property := by
  have hblank : (property ++ [' ']).rdropWhile isSpace = property.rdropWhile isSpace :=
    List.rdropWhile_concat_pos _ _ _ (by decide)
  rw [← stringTrim_rdropWhile, hblank, stringTrim_rdropWhile, stringTrim_of_isName hproperty]

theorem readLine_property {value : Str} (hname : isName name)
    (hproperty : isPropertyName property) (hvalue : '\n' ∉ value) :
    readLine none (cache, name) (propertyLine (property, value)) =
      .ok (cache.set none name property (stringTrim value), name) := by
  rw [isPropertyName, Bool.and_eq_true, decide_eq_true_eq] at hproperty
  obtain ⟨hproperty, hzero⟩ := hproperty
  have hset : cache.setProperty none name property (stringTrim value) =
      some (cache.set none name property (stringTrim value)) := by
    have hvalue : '\n' ∉ stringTrim value :=
      fun hmem => hvalue ((isInfix_stringTrim value).subset hmem)
    simp only [ConfigCache.setProperty, trimAfterNewLine_of_not_mem (newline_of_isName hname),
      trimAfterNewLine_of_not_mem (newline_of_isName hproperty), trimAfterNewLine_of_not_mem hvalue,
      ne_nil_of_isName hname, ne_nil_of_isName hproperty, or_self, if_false]
  have hsplit : stringSplit (property ++ [' '] ++ '=' :: (' ' :: value).rdropWhile isSpace) ['=']
      2 = [property ++ [' '], (' ' :: value).rdropWhile isSpace] := by
    refine stringSplit_two ?_ _
    simp only [List.mem_append, List.mem_singleton, not_or]
    exact ⟨fun hmem => (char_of_isName hproperty hmem).2.1 rfl, by decide⟩
  have htoken : stringTrim ((' ' :: value).rdropWhile isSpace) = stringTrim value := by
    rw [stringTrim_rdropWhile]
    rfl
  rw [readLine, stringTrim_propertyLine hproperty]
  cases property with
  | nil => exact absurd rfl (ne_nil_of_isName hproperty)
  | cons c property =>
    have hc := char_of_isName hproperty List.mem_cons_self
    -- the line is neither a comment nor a section
    have hhash : c ≠ '#' := by
      rintro rfl
      simp [isName] at hproperty
    have hzero : c ≠ '\x00' := by
      rintro rfl
      exact hzero rfl
    simp only [List.cons_append] at hsplit ⊢
    rw [if_neg (by simp [hhash, hzero]), if_neg hc.2.2.1, hsplit]
    simp only [← List.cons_append, stringTrim_concat_blank hproperty, htoken, hset]

theorem foldlM_readLine_properties {l : List (Str × Str)} (hname : isName name)
    (hl : ∀ node ∈ l, isPropertyName node.1 ∧ '\n' ∉ node.2) :
    (l.map propertyLine).foldlM (readLine none) (cache, name) =
      .ok (cache.setAll name (l.map fun node => (node.1, stringTrim node.2)), name) := by
  induction l generalizing cache with
  | nil => rfl
  | cons node l ih =>
    obtain ⟨hproperty, hvalue⟩ := hl node List.mem_cons_self
    rw [List.map_cons, List.foldlM_cons, readLine_property hname hproperty hvalue]
    exact ih fun n hn => hl n (List.mem_cons_of_mem _ hn)

theorem foldlM_sectionLines {properties : Properties} (h : Writable name properties)
    (current : Str) : (sectionLines (name, properties)).foldlM (readLine none) (cache, current) =
      .ok (cache.setAll name (properties.mapValues stringTrim).nodeList, name) := by
  have hl : ∀ node ∈ properties.nodeList, isPropertyName node.1 ∧ '\n' ∉ node.2 :=
    fun node hnode => h.2 node.1 node.2 (ListMap.find?_of_mem hnode)
  rw [sectionLines, List.foldlM_append, List.foldlM_cons, readLine_section]
  show ((properties.nodeList.map propertyLine).foldlM (readLine none) (cache, name)) >>= _ = _
  rw [foldlM_readLine_properties h.1 hl]
  rfl

/-- The lines of the sections of a map, which come in after those that were read before. -/
theorem foldlM_sections {Q : ConfigCache → List (Str × Properties) → Prop}
    {l done : List (Str × Properties)} (hwritable : ∀ node ∈ l, Writable node.1 node.2)
    (hnodup : ((done ++ l).map Prod.fst).Nodup)
    (hstep : ∀ cache done, ∀ node ∈ l, Q cache done → node.1 ∉ done.map Prod.fst →
      Q (cache.setAll node.1 (node.2.mapValues stringTrim).nodeList)
        (done ++ [(node.1, node.2.mapValues stringTrim)])) (h : Q cache done) (current : Str) :
    ∃ s, (l.flatMap sectionLines).foldlM (readLine none) (cache, current) = .ok s ∧
      Q s.1 (done ++ l.map fun node => (node.1, node.2.mapValues stringTrim)) := by
  induction l generalizing cache done current with
  | nil => exact ⟨_, rfl, (List.append_nil done).symm ▸ h⟩
  | cons node l ih =>
    have hnew : node.1 ∉ done.map Prod.fst := by
      rw [List.map_append, List.map_cons, List.nodup_middle, List.nodup_cons] at hnodup
      exact fun hmem => hnodup.1 (List.mem_append_left _ hmem)
    have hfirst := hstep cache done node List.mem_cons_self h hnew
    have hrest : ((done ++ [(node.1, node.2.mapValues stringTrim)] ++ l).map Prod.fst).Nodup := by
      simpa using hnodup
    obtain ⟨s, hrun, hs⟩ := ih (fun n hn => hwritable n (List.mem_cons_of_mem _ hn)) hrest
      (fun c d n hn => hstep c d n (List.mem_cons_of_mem _ hn)) hfirst node.1
    refine ⟨s, ?_, ?_⟩
    · rw [List.flatMap_cons, List.foldlM_append,
        foldlM_sectionLines (hwritable node List.mem_cons_self)]
      exact hrun
    · rwa [List.append_assoc, List.singleton_append] at hs

end LegacyConfigFile

namespace ConfigCache

variable {c : ConfigCache}

theorem insertAll_nodeList (properties : Properties) :
    insertAll .empty properties.nodeList = properties :=
  ListMap.ext (ListMap.nodeList_foldl_insertOrAssign properties.nodup)

/-- Every section can be written. -/
structure AllWritable (c : ConfigCache) : Prop where
  information : c.informationSections.All Writable
  persistent : c.persistentDevices.All Writable
  temporary : c.temporaryDevices.listMap.All Writable

theorem AllWritable.getlines_serialize (h : AllWritable c) :
    getlines '\n' c.serializeToLegacyFormat =
      c.informationSections.nodeList.flatMap sectionLines ++
        c.persistentDevices.nodeList.flatMap sectionLines := by
  rw [serializeToLegacyFormat, getlines_sections, List.flatMap_append]
  intro node hnode
  rcases List.mem_append.mp hnode with hnode | hnode
  · exact h.information node.1 node.2 (ListMap.find?_of_mem hnode)
  · exact h.persistent node.1 node.2 (ListMap.find?_of_mem hnode)

open LegacyConfigFile

variable {capacity : Nat} {keys : Prop} {cache : ConfigCache}

theorem AllWritable.foldlM_information (h : AllWritable c) (hinv : Inv capacity keys c)
    (hcache : Loaded cache [] []) (current : Str) :
    ∃ s, (c.informationSections.nodeList.flatMap sectionLines).foldlM (readLine none)
        (cache, current) = .ok s ∧
      Loaded s.1 (c.informationSections.mapValues (·.mapValues stringTrim)).nodeList [] := by
  refine foldlM_sections (Q := fun cache done => Loaded cache done []) ?_ ?_ ?_ hcache current
  · exact fun node hnode => h.information node.1 node.2 (ListMap.find?_of_mem hnode)
  · exact c.informationSections.nodup
  · intro cache done node hnode hdone hnew
    obtain ⟨hdevice, hsize⟩ := hinv.information node.1 node.2 (ListMap.find?_of_mem hnode)
    have hne : (node.2.mapValues stringTrim).nodeList ≠ [] := by
      simpa [ListMap.mapValues] using List.length_eq_zero_iff.not.mp hsize
    have hloaded := hdone.setAll_information hdevice hnew hne
    rwa [insertAll_nodeList] at hloaded

theorem AllWritable.foldlM_persistent (h : AllWritable c) (hinv : Inv capacity keys c)
    (hkey : c.persistentDevices.All fun _ properties =>
      ∃ property ∈ kLinkKeyProperties, properties.contains property)
    {information : List (Str × Properties)} (hcache : Loaded cache information [])
    (current : Str) :
    ∃ s, (c.persistentDevices.nodeList.flatMap sectionLines).foldlM (readLine none)
        (cache, current) = .ok s ∧
      Loaded s.1 information (c.persistentDevices.mapValues (·.mapValues stringTrim)).nodeList := by
  refine foldlM_sections (Q := fun cache done => Loaded cache information done) ?_ ?_ ?_ hcache
    current
  · exact fun node hnode => h.persistent node.1 node.2 (ListMap.find?_of_mem hnode)
  · exact c.persistentDevices.nodup
  · intro cache done node hnode hdone hnew
    obtain ⟨hdevice, -, -⟩ := hinv.persistent node.1 node.2 (ListMap.find?_of_mem hnode)
    obtain ⟨property, hproperty, hcontains⟩ := hkey node.1 node.2 (ListMap.find?_of_mem hnode)
    have hkey : ∃ n ∈ (node.2.mapValues stringTrim).nodeList, n.1 ∈ kLinkKeyProperties := by
      obtain ⟨n, hn, rfl⟩ := List.mem_map.mp (ListMap.mem_keys_iff.mpr hcontains)
      exact ⟨(n.1, stringTrim n.2), List.mem_map_of_mem hn, hproperty⟩
    have hloaded := hdone.setAll_device hdevice hnew hkey
    rwa [insertAll_nodeList] at hloaded

/-- What is written is read back, but for the blanks around the values. -/
theorem AllWritable.read_serialize (h : AllWritable c) (hinv : Inv capacity keys c)
    (hkey : c.persistentDevices.All fun _ properties =>
      ∃ property ∈ kLinkKeyProperties, properties.contains property)
    {tempDevicesCapacity : Nat} (hcapacity : 0 < tempDevicesCapacity) :
    ∃ c', LegacyConfigFile.read none tempDevicesCapacity hcapacity c.serializeToLegacyFormat =
        .ok c' ∧
      c'.informationSections = c.informationSections.mapValues (·.mapValues stringTrim) ∧
      c'.persistentDevices = c.persistentDevices.mapValues (·.mapValues stringTrim) ∧
      c'.temporaryDevices.listMap = .empty := by
  have hinit : Loaded (init tempDevicesCapacity hcapacity kLinkKeyProperties) [] [] :=
    ⟨rfl, rfl, fun _ => rfl, rfl⟩
  obtain ⟨s₁, hrun₁, hloaded₁⟩ := h.foldlM_information hinv hinit kDefaultSectionName
  obtain ⟨s₂, hrun₂, hloaded₂⟩ := h.foldlM_persistent hinv hkey hloaded₁ s₁.2
  refine ⟨s₂.1, ?_, ListMap.ext hloaded₂.information, ListMap.ext hloaded₂.persistent, ?_⟩
  · rw [LegacyConfigFile.read, h.getlines_serialize, List.foldlM_append, hrun₁]
    show ((c.persistentDevices.nodeList.flatMap sectionLines).foldlM (readLine none) s₁ >>= _) = _
    rw [hrun₂]
    rfl
  · refine ListMap.ext (List.eq_nil_iff_forall_not_mem.mpr fun node hnode => ?_)
    have hfind : s₂.1.temporaryDevices.find? node.1 = some node.2 := ListMap.find?_of_mem hnode
    rw [hloaded₂.temporary] at hfind
    cases hfind

/-! ### The calls keep the sections writable -/

/-- A call that writes names as they can be read. -/
def callsNames (isProperty : Str → Bool) : ConfigCall → Bool
  | .setProperty keystore name property _ => keystore.isNone && isName name && isProperty property
  | .removeProperty _ _ => true
  | .removeSection _ => true
  | .removeSectionWithProperty _ => false
  | .commit _ _ => false

variable {name property value : Str} {properties : Properties}

theorem Writable.insertOrAssign (h : Writable name properties) (hproperty : isPropertyName property)
    (hvalue : '\n' ∉ value) : Writable name (properties.insertOrAssign property value) :=
  ⟨h.1, h.2.emplace ⟨hproperty, hvalue⟩⟩

theorem Writable.erase (h : Writable name properties) : Writable name (properties.erase property) :=
  ⟨h.1, h.2.erase⟩

theorem writable_empty (hname : isName name) : Writable name .empty :=
  ⟨hname, ListMap.all_empty⟩

theorem writable_getD {m : ListMap Str Properties} (h : m.All Writable) (hname : isName name) :
    Writable name ((m.find? name).getD .empty) := by
  cases hfind : m.find? name with
  | none => exact writable_empty hname
  | some properties => exact h name properties hfind

theorem AllWritable.set (h : AllWritable c) (hname : isName name)
    (hproperty : isPropertyName property) (hvalue : '\n' ∉ value) :
    AllWritable (c.set none name property value) := by
  have hpersistent : ∀ ps, Writable name ps → Writable name
      (ps.insertOrAssign property (storedValue none name property value)) :=
    fun _ hps => hps.insertOrAssign hproperty hvalue
  unfold ConfigCache.set
  split
  · refine ⟨h.information.emplace ?_, h.persistent, h.temporary⟩
    exact (writable_getD h.information hname).insertOrAssign hproperty hvalue
  split
  · exact { h with
      persistent := h.persistent.modify fun ps hps => hpersistent ps (h.persistent name ps hps) }
  split
  · refine ⟨h.information, ?_, h.temporary.erase⟩
    refine h.persistent.emplace (hpersistent _ ?_)
    rename_i hcontains _
    have hnone : c.persistentDevices.find? name = none := by
      simpa [ListMap.contains] using hcontains
    rw [hnone, Option.getD_none]
    exact writable_getD h.temporary hname
  · refine { h with temporary := LruCache.all_emplace h.temporary ?_ }
    exact (writable_getD h.temporary hname).insertOrAssign hproperty hvalue

theorem AllWritable.removeSection (h : AllWritable c) : AllWritable (c.removeSection name).1 := by
  unfold ConfigCache.removeSection
  split
  · exact ⟨h.information.erase, h.persistent, h.temporary⟩
  split
  · exact { h with persistent := h.persistent.erase }
  · exact { h with temporary := h.temporary.erase }

theorem AllWritable.removeProperty (h : AllWritable c) :
    AllWritable (c.removeProperty name property).1 := by
  unfold ConfigCache.removeProperty
  split
  next properties hfind =>
    dsimp only
    split
    · exact ⟨h.information.erase, h.persistent, h.temporary⟩
    · exact { h with
        information := h.information.modify fun _ _ => (h.information name properties hfind).erase }
  split
  next properties hfind =>
    have hleft : Writable name (properties.erase property) :=
      (h.persistent name properties hfind).erase
    dsimp only
    split
    · exact { h with persistent := h.persistent.erase }
    split
    · exact ⟨h.information, h.persistent.erase, LruCache.all_emplace h.temporary hleft⟩
    · exact { h with persistent := h.persistent.modify fun _ _ => hleft }
  split
  next properties hfind =>
    have hleft : Writable name (properties.erase property) :=
      (h.temporary name properties hfind).erase
    dsimp only
    split
    · exact { h with temporary := ListMap.All.erase (LruCache.all_warmUp h.temporary) }
    · exact { h with
        temporary := ListMap.All.modify (LruCache.all_warmUp h.temporary) fun _ _ => hleft }
  · exact h

theorem AllWritable.step (h : AllWritable c) {call : ConfigCall} {c' : ConfigCache}
    (hcall : callsNames isPropertyName call) (hstep : c.step call = some c') : AllWritable c' := by
  cases call with
  | setProperty keystore name property value =>
    simp only [callsNames, Bool.and_eq_true, Option.isNone_iff_eq_none] at hcall
    obtain ⟨⟨rfl, hname⟩, hproperty⟩ := hcall
    have hproperty' : isName property := by
      rw [isPropertyName, Bool.and_eq_true] at hproperty
      exact hproperty.1
    simp only [ConfigCache.step, setProperty, trimAfterNewLine_of_not_mem (newline_of_isName hname),
      trimAfterNewLine_of_not_mem (newline_of_isName hproperty'), ne_nil_of_isName hname,
      ne_nil_of_isName hproperty', or_self, if_false, Option.some.injEq] at hstep
    subst hstep
    exact h.set hname hproperty (not_mem_trimAfterNewLine value)
  | removeProperty name property =>
    cases hstep
    exact h.removeProperty
  | removeSection name =>
    cases hstep
    exact h.removeSection
  | removeSectionWithProperty property | commit keystore entries => cases hcall

/-! ### The restart -/

/-- Whatever values were set, under names that the format has: the file is read back with the same
sections and properties in the same order, the values without the blanks around them, and no
temporary device. -/
theorem config_survives_restart (hcapacity : 0 < capacity) (names : List Str)
    (calls : List ConfigCall) (hcalls : ∀ call ∈ calls, callsNames isPropertyName call)
    (c : ConfigCache)
    (hrun : calls.foldlM ConfigCache.step (init capacity hcapacity names) = some c)
    (hkey : c.persistentDevices.All fun _ properties =>
      ∃ property ∈ kLinkKeyProperties, properties.contains property)
    (tempDevicesCapacity : Nat) (htemp : 0 < tempDevicesCapacity) :
    ∃ c', LegacyConfigFile.read none tempDevicesCapacity htemp c.serializeToLegacyFormat = .ok c' ∧
      c'.informationSections = c.informationSections.mapValues (·.mapValues stringTrim) ∧
      c'.persistentDevices = c.persistentDevices.mapValues (·.mapValues stringTrim) ∧
      c'.temporaryDevices.listMap = .empty := by
  have hinit : AllWritable (init capacity hcapacity names) :=
    ⟨ListMap.all_empty, ListMap.all_empty, ListMap.all_empty⟩
  have hwritable : AllWritable c := by
    have hall : allSteps ConfigCache.step (fun _ => callsNames isPropertyName)
        (init capacity hcapacity names) calls := allSteps_of_forall hcalls _
    exact run_invariant (fun _ _ _ hs hcall hstep => hs.step hcall hstep) hinit hall hrun
  exact hwritable.read_serialize (run_inv hcapacity hrun) hkey htemp

/-- A value that looks like a section, and a device that gets its link key after its name. -/
def writeAdapterAndDevice : List ConfigCall :=
  [.setProperty none "Adapter".toList "Name".toList " [x] = # \n[y]".toList,
    .setProperty none "00:11:22:33:44:55".toList "Name".toList "a".toList,
    .setProperty none "00:11:22:33:44:55".toList "LinkKey".toList "01".toList]

theorem config_survives_restart_device : ∃ c c',
    writeAdapterAndDevice.foldlM ConfigCache.step (init 1 Nat.one_pos kLinkKeyProperties) =
      some c ∧
    LegacyConfigFile.read none 1 Nat.one_pos c.serializeToLegacyFormat = .ok c' ∧
    c'.persistentDevices = c.persistentDevices.mapValues (·.mapValues stringTrim) := by
  obtain ⟨c, hrun, hkey⟩ : ∃ c,
      writeAdapterAndDevice.foldlM ConfigCache.step (init 1 Nat.one_pos kLinkKeyProperties) =
        some c ∧
      ∀ node ∈ c.persistentDevices.nodeList,
        ∃ property ∈ kLinkKeyProperties, node.2.contains property :=
    ⟨_, rfl, by decide +kernel⟩
  obtain ⟨c', hread, -, hpersistent, -⟩ := config_survives_restart Nat.one_pos kLinkKeyProperties
    writeAdapterAndDevice (by decide +kernel) c hrun (ListMap.all_of_nodeList hkey) 1 Nat.one_pos
  exact ⟨c, c', hrun, hread, hpersistent⟩

/-- A line that begins with a zero byte is skipped, so a property with such a name is lost, here
with its section. -/
theorem property_after_zero_byte_is_lost :
    (∀ call ∈ [ConfigCall.setProperty none "Adapter".toList "\x00x".toList "v".toList],
      callsNames isName call) ∧
    ([ConfigCall.setProperty none "Adapter".toList "\x00x".toList "v".toList].foldlM
        ConfigCache.step (init 1 Nat.one_pos kLinkKeyProperties)).map (fun c =>
      (c.informationSections.size,
        (LegacyConfigFile.read none 1 Nat.one_pos c.serializeToLegacyFormat).toOption.map
          (·.informationSections.size))) = some (1, some 0) := by
  decide +kernel

end ConfigCache

end BluetoothStack.Storage
