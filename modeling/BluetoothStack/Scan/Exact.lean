import BluetoothStack.Scan.Reassembler
import BluetoothStack.Lib.Runs

/-!
# BluetoothStack.Scan.Exact

What the reassembler returns, compared with the reports of the advertiser alone.

`currentEvent` says which fragments belong together, from the reports of one advertiser: an
advertising event goes on until a report that is not marked as continuing, and a scan response
belongs to the event before it. The cache holds for every advertiser the data of its current event
(`Inv`). A report breaks that if it starts a new event while the cache still has data of a
complete one, or if a scan response comes into an event that is not complete (`proper`).
-/

namespace BluetoothStack.Scan

open BluetoothStack.Lib

/-! ### Trimming -/

theorem trimLoop_drop (data : List UInt8) (k fuel offset : Nat) :
    trimLoop (data.drop k) fuel offset = trimLoop data fuel (k + offset) := by
  induction fuel generalizing offset with
  | zero => rfl
  | succ fuel ih =>
    have hget : (data.drop k).getD offset 0 = data.getD (k + offset) 0 := by
      simp [List.getD_eq_getElem?_getD, List.getElem?_drop]
    simp only [trimLoop, hget, ih, List.drop_drop, List.length_drop, Nat.sub_sub, Nat.add_assoc]
    exact if_congr (by omega) rfl rfl

theorem trimLoop_fuel {data : List UInt8} {offset fuel fuel' : Nat}
    (h : data.length ≤ offset + fuel) (h' : data.length ≤ offset + fuel') :
    trimLoop data fuel offset = trimLoop data fuel' offset := by
  induction fuel generalizing offset fuel' with
  | zero =>
    cases fuel' with
    | zero => rfl
    | succ fuel' => exact (if_neg (Nat.not_lt.mpr h)).symm
  | succ fuel ih =>
    cases fuel' with
    | zero => exact if_neg (Nat.not_lt.mpr h')
    | succ fuel' =>
      simp only [trimLoop]
      exact if_congr Iff.rfl (congrArg _ (ih (by omega) (by omega))) rfl

theorem trim_cons (size : UInt8) (rest : List UInt8) :
    trimAdvertisingData (size :: rest) =
      (if size.toNat ≠ 0 ∧ size.toNat ≤ rest.length then size :: rest.take size.toNat else []) ++
        trimAdvertisingData (rest.drop size.toNat) := by
  have hrest : trimLoop (size :: rest) rest.length (size.toNat + 1) =
      trimAdvertisingData (rest.drop size.toNat) := by
    rw [trimAdvertisingData, show rest.drop size.toNat = (size :: rest).drop (size.toNat + 1)
      from rfl, trimLoop_drop, Nat.add_zero]
    exact trimLoop_fuel (by simp) (by simp; omega)
  rw [← hrest]
  simp [trimAdvertisingData, trimLoop]

/-- Data that is made of whole entries. -/
inductive Whole : List UInt8 → Prop
  | nil : Whole []
  | cons {size : UInt8} {body rest : List UInt8} (hsize : body.length = size.toNat)
      (hne : size.toNat ≠ 0) (hrest : Whole rest) : Whole (size :: body ++ rest)

theorem whole_trim (data : List UInt8) : Whole (trimAdvertisingData data) := by
  induction hn : data.length using Nat.strong_induction_on generalizing data with
  | h n ih =>
    cases data with
    | nil => exact .nil
    | cons size rest =>
      rw [trim_cons]
      have hrest : Whole (trimAdvertisingData (rest.drop size.toNat)) :=
        ih _ (by rw [← hn, List.length_drop, List.length_cons]; omega) _ rfl
      split
      next hentry => exact .cons (List.length_take_of_le hentry.2) hentry.1 hrest
      · exact hrest

theorem Whole.trim_append {data : List UInt8} (h : Whole data) (more : List UInt8) :
    trimAdvertisingData (data ++ more) = data ++ trimAdvertisingData more := by
  induction h with
  | nil => rfl
  | @cons size body rest hsize hne hrest ih =>
    rw [List.cons_append, List.cons_append, trim_cons, if_pos ⟨hne, by simp; omega⟩,
      List.append_assoc, ← hsize, List.take_left, List.drop_left, ih]
    simp

/-- Trimming goes entry by entry, so trimmed data is left alone. -/
theorem trim_trim_append (data more : List UInt8) :
    trimAdvertisingData (trimAdvertisingData data ++ more) =
      trimAdvertisingData data ++ trimAdvertisingData more :=
  (whole_trim data).trim_append more

/-! ### Advertising events -/

/-- What belongs to one advertising event of an advertiser. -/
structure AdvertisingEvent where
  advertising : List UInt8
  /-- The last fragment is not marked as continuing. -/
  isComplete : Bool
  scanResponse : Option (List UInt8)
deriving DecidableEq, Repr

namespace AdvertisingEvent

/-- The first report of an event. -/
def start (r : Report) : AdvertisingEvent :=
  ⟨r.advertisingData, decide (r.eventType.dataStatus ≠ .continuing), none⟩

/-- A further advertising fragment. -/
def extend (e : AdvertisingEvent) (r : Report) : AdvertisingEvent :=
  { e with
    advertising := e.advertising ++ r.advertisingData
    isComplete := decide (r.eventType.dataStatus ≠ .continuing) }

def respond (e : AdvertisingEvent) (r : Report) : AdvertisingEvent :=
  { e with scanResponse := some (e.scanResponse.getD [] ++ r.advertisingData) }

/-- The current event after a report of the advertiser. Scan responses are not taken if they are to
be ignored. -/
def next (ignore : Bool) (current : Option AdvertisingEvent) (r : Report) :
    Option AdvertisingEvent :=
  if r.eventType.isScanResponse then
    if ignore then current else current.map fun e => e.respond r
  else if r.eventType.isLegacy || current.all AdvertisingEvent.isComplete then some (start r)
  else current.map fun e => e.extend r

/-- The data of an event. -/
def data (e : AdvertisingEvent) : List UInt8 :=
  trimAdvertisingData e.advertising ++ (e.scanResponse.map trimAdvertisingData).getD []

end AdvertisingEvent

/-- The current event of an advertiser, from its own reports. -/
def currentEvent (ignore : Bool) (key : AdvertisingKey) (reports : List Report) :
    Option AdvertisingEvent :=
  (reports.filter fun r => !r.isNameless && decide (r.key = key)).foldl
    (AdvertisingEvent.next ignore) none

theorem currentEvent_concat (ignore : Bool) (key : AdvertisingKey) (reports : List Report)
    (r : Report) : currentEvent ignore key (reports ++ [r]) =
      if !r.isNameless && decide (r.key = key) then
        AdvertisingEvent.next ignore (currentEvent ignore key reports) r
      else currentEvent ignore key reports := by
  rw [currentEvent, List.filter_append, List.foldl_append, List.filter_cons, List.filter_nil]
  split <;> rfl

/-- A report of another advertiser does not change an event. -/
theorem currentEvent_other {ignore : Bool} {key : AdvertisingKey} {reports : List Report}
    {r : Report} (h : key ≠ r.key) :
    currentEvent ignore key (reports ++ [r]) = currentEvent ignore key reports := by
  rw [currentEvent_concat, if_neg (by simp [Ne.symm h])]

/-! ### The cache -/

/-- The advertising data of the entry is complete: it waits for a scan response or for the rest of
one. -/
def AdvertisingFragment.isComplete (it : AdvertisingFragment) : Bool :=
  decide (it.extendedEventType.dataStatus ≠ .continuing) || it.extendedEventType.isScanResponse

/-- The entry has the data of an event. -/
structure Holds (it : AdvertisingFragment) (e : AdvertisingEvent) : Prop where
  complete : it.isComplete = e.isComplete
  data : it.data = if e.isComplete then
    trimAdvertisingData e.advertising ++ e.scanResponse.getD [] else e.advertising
  noResponse : e.isComplete = false → e.scanResponse = none

namespace LeScanningReassembler

structure Inv (keys : Finset AdvertisingKey) (ignore : Bool) (s : LeScanningReassembler)
    (reports : List Report) : Prop where
  ignoring : s.ignoreScanResponses = ignore
  nodup : (s.cache.map AdvertisingFragment.key).Nodup
  known : ∀ it ∈ s.cache, it.key ∈ keys
  held : ∀ key it, s.findFragment key = some it →
    ∃ e, currentEvent ignore key reports = some e ∧ Holds it e
  free : ∀ key, s.findFragment key = none → ∀ e ∈ currentEvent ignore key reports, e.isComplete

variable {keys : Finset AdvertisingKey} {ignore : Bool} {s : LeScanningReassembler}
  {reports : List Report}

theorem Inv.init (keys : Finset AdvertisingKey) (ignore : Bool) :
    (LeScanningReassembler.init ignore).Inv keys ignore [] where
  ignoring := rfl
  nodup := List.nodup_nil
  known it hit := absurd hit List.not_mem_nil
  held key it hit := by cases hit
  free key _ e he := by cases he

theorem Inv.length_le (hi : s.Inv keys ignore reports) : s.cache.length ≤ keys.card := by
  have hsub : (s.cache.map AdvertisingFragment.key).toFinset ⊆ keys := by
    intro key hkey
    obtain ⟨it, hit, rfl⟩ := List.mem_map.mp (List.mem_toFinset.mp hkey)
    exact hi.known it hit
  have hcard := Finset.card_le_card hsub
  rw [List.toFinset_card_of_nodup hi.nodup, List.length_map] at hcard
  exact hcard

/-! ### A report is stored -/

/-- The cache with the entry that a report belongs to. -/
structure Stored (s : LeScanningReassembler) (it : AdvertisingFragment)
    (s' : LeScanningReassembler) : Prop where
  ignoring : s'.ignoreScanResponses = s.ignoreScanResponses
  nodup : (s'.cache.map AdvertisingFragment.key).Nodup
  known : ∀ x ∈ s'.cache, x = it ∨ x ∈ s.cache
  found : ∀ key, s'.findFragment key = if key = it.key then some it else s.findFragment key

theorem findFragment_setFragment (s : LeScanningReassembler) (it : AdvertisingFragment)
    (key : AdvertisingKey) : (s.setFragment it).findFragment key =
      if key = it.key then (s.findFragment it.key).map fun _ => it else s.findFragment key :=
  find_update (fun _ _ => rfl) key

variable {it : AdvertisingFragment} {s' : LeScanningReassembler} {r : Report}

theorem stored_setFragment {it₀ : AdvertisingFragment} (hfind : s.findFragment it.key = some it₀)
    (hkey : it₀.key = it.key) (hnodup : (s.cache.map AdvertisingFragment.key).Nodup) :
    s.Stored it (s.setFragment it) where
  ignoring := rfl
  nodup := by
    rw [setFragment, map_key_update fun _ _ => rfl]
    exact hnodup
  known x hx := by
    rcases mem_update_of_key hnodup (mem_of_find hfind).1 hkey hx with rfl | ⟨hx, -⟩
    · exact Or.inl rfl
    · exact Or.inr hx
  found key := by
    rw [findFragment_setFragment, hfind]
    rfl

theorem Stored.setFragment {it' : AdvertisingFragment} (h : s.Stored it s')
    (hkey : it'.key = it.key) : s.Stored it' (s'.setFragment it') where
  ignoring := h.ignoring
  nodup := by
    rw [LeScanningReassembler.setFragment, map_key_update fun _ _ => rfl]
    exact h.nodup
  known x hx := by
    have hfind : find AdvertisingFragment.key it'.key s'.cache = some it := by
      rw [hkey]
      exact (h.found it.key).trans (if_pos rfl)
    rcases mem_update_of_key h.nodup (mem_of_find hfind).1 hkey.symm hx with rfl | ⟨hx, hne⟩
    · exact Or.inl rfl
    · rcases h.known x hx with rfl | hx
      · exact absurd hkey.symm hne
      · exact Or.inr hx
  found key := by
    rw [findFragment_setFragment, h.found, h.found, hkey, if_pos rfl]
    split <;> rfl

theorem stored_appendFragment (hnodup : (s.cache.map AdvertisingFragment.key).Nodup)
    (hlength : s.cache.length ≤ kMaximumCacheSize) (key : AdvertisingKey) (t : EventType)
    (data : List UInt8) :
    s.Stored (s.appendFragment key t data).2 (s.appendFragment key t data).1 ∧
      (s.appendFragment key t data).2.key = key := by
  unfold appendFragment
  cases hfind : s.findFragment key with
  | some it =>
    have hkey : it.key = key := (mem_of_find hfind).2
    rw [← hkey] at hfind
    exact ⟨stored_setFragment hfind rfl hnodup, hkey⟩
  | none =>
    dsimp only
    rw [evict, if_neg (Nat.not_lt.mpr hlength)]
    refine ⟨⟨rfl, ?_, ?_, ?_⟩, rfl⟩
    · rw [List.map_cons, List.nodup_cons]
      refine ⟨?_, hnodup⟩
      intro hmem
      obtain ⟨it, hit, hkey⟩ := List.mem_map.mp hmem
      exact find_eq_none.mp hfind it hit hkey
    · exact fun x hx => List.mem_cons.mp hx
    · intro j
      refine (find_cons j).trans ?_
      simp only [eq_comm]
      rfl

theorem findFragment_removeFragment (s : LeScanningReassembler) (k key : AdvertisingKey) :
    (s.removeFragment k).findFragment key = if key = k then none else s.findFragment key :=
  find_remove key

theorem Stored.of_removeFragment (h : (s.removeFragment it.key).Stored it s') :
    s.Stored it s' where
  ignoring := h.ignoring
  nodup := h.nodup
  known x hx := (h.known x hx).imp_right fun hx => (mem_remove.mp hx).1
  found key := by
    rw [h.found, findFragment_removeFragment]
    split <;> rfl

theorem Inv.stored (hi : s.Inv keys ignore reports) (hs : s.Stored it s') (hkey : it.key = r.key)
    (hknown : r.key ∈ keys) {e : AdvertisingEvent}
    (hevent : currentEvent ignore r.key (reports ++ [r]) = some e) (hholds : Holds it e) :
    s'.Inv keys ignore (reports ++ [r]) where
  ignoring := hs.ignoring.trans hi.ignoring
  nodup := hs.nodup
  known x hx := by
    rcases hs.known x hx with rfl | hx
    · exact hkey ▸ hknown
    · exact hi.known x hx
  held key x hx := by
    rw [hs.found, hkey] at hx
    split at hx
    next hown =>
      cases hx
      exact ⟨e, hown ▸ hevent, hholds⟩
    next hother =>
      rw [currentEvent_other hother]
      exact hi.held key x hx
  free key hnone := by
    rw [hs.found, hkey] at hnone
    split at hnone
    · cases hnone
    next hother =>
      rw [currentEvent_other hother]
      exact hi.free key hnone

theorem Inv.removed (hi : s.Inv keys ignore reports) (hs : s.Stored it s') (hkey : it.key = r.key)
    {e : AdvertisingEvent} (hevent : currentEvent ignore r.key (reports ++ [r]) = some e)
    (hcomplete : e.isComplete) : (s'.removeFragment it.key).Inv keys ignore (reports ++ [r]) where
  ignoring := hs.ignoring.trans hi.ignoring
  nodup := nodup_remove hs.nodup
  known x hx := by
    obtain ⟨hx, hne⟩ := mem_remove.mp hx
    rcases hs.known x hx with rfl | hx
    · exact absurd rfl hne
    · exact hi.known x hx
  held key x hx := by
    rw [findFragment_removeFragment, hkey] at hx
    split at hx
    · cases hx
    next hother =>
      rw [hs.found, hkey, if_neg hother] at hx
      rw [currentEvent_other hother]
      exact hi.held key x hx
  free key hnone := by
    rw [findFragment_removeFragment, hkey] at hnone
    split at hnone
    next hown =>
      rw [hown, hevent]
      intro e' he'
      cases he'
      exact hcomplete
    next hother =>
      rw [hs.found, hkey, if_neg hother] at hnone
      rw [currentEvent_other hother]
      exact hi.free key hnone

/-! ### One report -/

/-- What a report needs: a scan response finds complete advertising data, and an advertising report
finds incomplete data or none at all. -/
def proper (s : LeScanningReassembler) (r : Report) : Bool :=
  r.isNameless || (s.findFragment r.key).all fun it =>
    if r.eventType.isScanResponse then s.ignoreScanResponses || it.isComplete
    else r.eventType.isLegacy || !it.isComplete || it.data.isEmpty

/-- The cache before the data of a report is appended. -/
def cleared (s : LeScanningReassembler) (r : Report) : LeScanningReassembler :=
  if r.eventType.isLegacy && !r.eventType.isScanResponse then s.removeFragment r.key else s

/-- The entry of a report that is taken. -/
def entry (s : LeScanningReassembler) (r : Report) : AdvertisingFragment :=
  trimmed r.eventType.dataStatus
    ((s.cleared r).appendFragment r.key r.eventType r.advertisingData).2

/-- The cache with that entry. -/
def store (s : LeScanningReassembler) (r : Report) : LeScanningReassembler :=
  ((s.cleared r).appendFragment r.key r.eventType r.advertisingData).1.setFragment (s.entry r)

def expectScanResponse (s : LeScanningReassembler) (r : Report) : Bool :=
  r.eventType.isScannable && !r.eventType.isScanResponse && !(s.store r).ignoreScanResponses

theorem processAdvertisingReport_eq (passive : Bool) (hname : r.isNameless = false)
    (htaken : (r.eventType.isScanResponse &&
      (s.ignoreScanResponses || (s.findFragment r.key).isNone)) = false) :
    s.processAdvertisingReport passive r =
      if decide (r.eventType.dataStatus = .continuing) || (s.expectScanResponse r && !passive) then
        (s.store r, none)
      else if s.expectScanResponse r then
        (s.store r, some ⟨(s.entry r).extendedEventType, (s.entry r).data⟩)
      else
        ((s.store r).removeFragment (s.entry r).key,
          some ⟨(s.entry r).extendedEventType, (s.entry r).data⟩) := by
  unfold processAdvertisingReport
  rw [hname, htaken]
  rfl

theorem key_trimmed (status : DataStatus) (it : AdvertisingFragment) :
    (trimmed status it).key = it.key := by
  unfold trimmed
  split <;> rfl

theorem Inv.store (hi : s.Inv keys ignore reports) (hcard : keys.card ≤ kMaximumCacheSize)
    (r : Report) : s.Stored (s.entry r) (s.store r) ∧ (s.entry r).key = r.key := by
  have hnodup : ((s.cleared r).cache.map AdvertisingFragment.key).Nodup := by
    unfold cleared
    split
    · exact nodup_remove hi.nodup
    · exact hi.nodup
  have hlength : (s.cleared r).cache.length ≤ kMaximumCacheSize := by
    refine Nat.le_trans ?_ (hi.length_le.trans hcard)
    unfold cleared
    split
    · exact List.length_filter_le _ _
    · exact Nat.le_refl _
  obtain ⟨hstored, hkey⟩ :=
    stored_appendFragment hnodup hlength r.key r.eventType r.advertisingData
  have hentry : (s.entry r).key = r.key := (key_trimmed _ _).trans hkey
  refine ⟨?_, hentry⟩
  have hset : (s.cleared r).Stored (s.entry r) (s.store r) :=
    hstored.setFragment (hentry.trans hkey.symm)
  generalize s.store r = s' at hset
  unfold cleared at hset
  split at hset
  · rw [← hentry] at hset
    exact hset.of_removeFragment
  · exact hset

/-- The entry after an advertising report, and the event it belongs to. -/
theorem Inv.advertising (hi : s.Inv keys ignore reports) (hname : r.isNameless = false)
    (hadv : r.eventType.isScanResponse = false) (hproper : s.proper r) :
    ∃ e, currentEvent ignore r.key (reports ++ [r]) = some e ∧
      ((s.cleared r).appendFragment r.key r.eventType r.advertisingData).2 =
        ⟨r.key, r.eventType, e.advertising⟩ ∧
      e.isComplete = decide (r.eventType.dataStatus ≠ .continuing) ∧ e.scanResponse = none := by
  have hcurrent : currentEvent ignore r.key (reports ++ [r]) =
      AdvertisingEvent.next ignore (currentEvent ignore r.key reports) r := by
    rw [currentEvent_concat, hname]
    simp
  have hnew : (r.eventType.isLegacy || (currentEvent ignore r.key reports).all
      AdvertisingEvent.isComplete) = true →
      currentEvent ignore r.key (reports ++ [r]) = some (AdvertisingEvent.start r) := by
    intro h
    rw [hcurrent, AdvertisingEvent.next, hadv, if_neg Bool.false_ne_true, if_pos h]
  -- a legacy report is always an event of its own
  cases hlegacy : r.eventType.isLegacy with
  | true =>
    refine ⟨_, hnew (by rw [hlegacy, Bool.true_or]), ?_, rfl, rfl⟩
    have hnone : (s.cleared r).findFragment r.key = none := by
      rw [cleared, hlegacy, hadv]
      exact (findFragment_removeFragment s r.key r.key).trans (if_pos rfl)
    rw [appendFragment, hnone]
    rfl
  | false =>
    have hcleared : s.cleared r = s := by
      rw [cleared, hlegacy]
      rfl
    rw [hcleared, appendFragment]
    cases hfind : s.findFragment r.key with
    | none =>
      refine ⟨_, hnew ?_, rfl, rfl, rfl⟩
      rw [Bool.or_eq_true, Option.all_eq_true]
      exact Or.inr fun e he => hi.free r.key hfind e he
    | some it =>
      obtain ⟨e, hevent, hholds⟩ := hi.held r.key it hfind
      obtain ⟨-, hkey⟩ := mem_of_find hfind
      have hentry : it.append r.eventType r.advertisingData =
          ⟨r.key, r.eventType, it.data ++ r.advertisingData⟩ := by
        rw [AdvertisingFragment.append, hlegacy, ← hkey]
        rfl
      dsimp only
      rw [hentry]
      rw [proper, hname, hfind, Option.all_some, hadv, hlegacy] at hproper
      -- an entry of an event that is complete is empty, so that a new event starts from it
      cases hcomplete : e.isComplete with
      | false =>
        refine ⟨e.extend r, ?_, ?_, rfl, hholds.noResponse hcomplete⟩
        · rw [hcurrent, AdvertisingEvent.next, hadv, hlegacy, hevent, Option.all_some, hcomplete]
          rfl
        · rw [hholds.data, hcomplete]
          rfl
      | true =>
        refine ⟨_, hnew ?_, ?_, rfl, rfl⟩
        · rw [hevent, Option.all_some, hcomplete, Bool.or_true]
        · have hempty : it.data = [] := by
            simpa [hholds.complete, hcomplete] using hproper
          rw [hempty]
          rfl

theorem isComplete_of_scanResponse {t : EventType} {data : List UInt8} (h : t.isScanResponse) :
    (it.append t data).isComplete := by
  have hbit : (it.append t data).extendedEventType.isScanResponse := by
    unfold AdvertisingFragment.append
    dsimp only
    split
    · simpa [EventType.isScanResponse, EventType.connectable] using h
    · exact h
  rw [AdvertisingFragment.isComplete, hbit, Bool.or_true]

/-- The same for a scan response that is taken. -/
theorem Inv.scanResponse (hi : s.Inv keys ignore reports) (hname : r.isNameless = false)
    (hresponse : r.eventType.isScanResponse) (htaken : s.ignoreScanResponses = false)
    (hfind : s.findFragment r.key = some it) (hproper : s.proper r) :
    ∃ e, currentEvent ignore r.key (reports ++ [r]) = some e ∧ e.isComplete ∧
      ((s.cleared r).appendFragment r.key r.eventType r.advertisingData).2.isComplete ∧
      ∃ response, e.scanResponse = some response ∧
        ((s.cleared r).appendFragment r.key r.eventType r.advertisingData).2.data =
          trimAdvertisingData e.advertising ++ response := by
  obtain ⟨e, hevent, hholds⟩ := hi.held r.key it hfind
  rw [proper, hname, hfind, Option.all_some, hresponse, htaken, hholds.complete] at hproper
  have hcomplete : e.isComplete = true := hproper
  have hcleared : s.cleared r = s := by
    rw [cleared, hresponse, Bool.not_true, Bool.and_false]
    rfl
  refine ⟨e.respond r, ?_, hcomplete, ?_, _, rfl, ?_⟩
  · rw [currentEvent_concat, hname, hevent, AdvertisingEvent.next, hresponse,
      hi.ignoring.symm.trans htaken]
    simp
  · rw [hcleared, appendFragment, hfind]
    exact isComplete_of_scanResponse hresponse
  · rw [hcleared, appendFragment, hfind]
    dsimp only
    rw [AdvertisingFragment.append, hholds.data, hcomplete, if_pos rfl, List.append_assoc]
    rfl

/-- The result of a report: the invariant, and what is returned. -/
def Good (keys : Finset AdvertisingKey) (ignore : Bool) (reports : List Report) (r : Report)
    (result : LeScanningReassembler × Option CompleteAdvertisingData) : Prop :=
  result.1.Inv keys ignore (reports ++ [r]) ∧ ∀ complete ∈ result.2,
    ∃ e, currentEvent ignore r.key (reports ++ [r]) = some e ∧ complete.data = e.data

theorem Inv.good_of_unchanged (hi : s.Inv keys ignore reports)
    (hevents : ∀ key, currentEvent ignore key (reports ++ [r]) = currentEvent ignore key reports) :
    Good keys ignore reports r (s, none) := by
  refine ⟨⟨hi.ignoring, hi.nodup, hi.known, ?_, ?_⟩, fun _ h => by cases h⟩
  · intro key it hit
    rw [hevents]
    exact hi.held key it hit
  · intro key hnone
    rw [hevents]
    exact hi.free key hnone

theorem Inv.good_of_ignored (hi : s.Inv keys ignore reports) (hname : r.isNameless = false)
    (hresponse : r.eventType.isScanResponse)
    (hignored : s.ignoreScanResponses ∨ s.findFragment r.key = none) :
    Good keys ignore reports r (s, none) := by
  have hnext : ∀ key, currentEvent ignore key (reports ++ [r]) = if r.key = key then
      (if ignore then currentEvent ignore key reports
        else (currentEvent ignore key reports).map fun e => e.respond r)
      else currentEvent ignore key reports := by
    intro key
    rw [currentEvent_concat, hname, AdvertisingEvent.next, hresponse]
    simp
  refine ⟨⟨hi.ignoring, hi.nodup, hi.known, ?_, ?_⟩, fun _ h => by cases h⟩
  · intro key it hit
    rw [hnext]
    split
    next hkey =>
      -- a response without an entry belongs to no event that is held
      rcases hignored with hignored | hnone
      · rw [hi.ignoring] at hignored
        rw [if_pos hignored]
        exact hi.held key it hit
      · rw [← hkey, hnone] at hit
        cases hit
    · exact hi.held key it hit
  · intro key hnone e he
    rw [hnext] at he
    have hfree := hi.free key hnone
    split at he
    · split at he
      · exact hfree e he
      · obtain ⟨e₀, he₀, rfl⟩ := Option.map_eq_some_iff.mp he
        exact hfree e₀ he₀
    · exact hfree e he

section

variable (hi : s.Inv keys ignore reports) (hcard : keys.card ≤ kMaximumCacheSize)
  (hknown : r.key ∈ keys)
include hi hcard hknown

theorem Inv.good_of_advertising (hname : r.isNameless = false)
    (hadv : r.eventType.isScanResponse = false) (hproper : s.proper r) (passive : Bool) :
    Good keys ignore reports r (s.processAdvertisingReport passive r) := by
  obtain ⟨e, hevent, happended, hcomplete, hnoresponse⟩ := hi.advertising hname hadv hproper
  obtain ⟨hstored, hkey⟩ := hi.store hcard r
  have hdata : r.eventType.dataStatus ≠ .continuing → (s.entry r).data = e.data := by
    intro hdone
    rw [entry, happended, trimmed, if_pos hdone, AdvertisingEvent.data, hnoresponse]
    exact (List.append_nil _).symm
  have hholds : Holds (s.entry r) e := by
    rw [entry, happended]
    by_cases hstatus : r.eventType.dataStatus = .continuing
    · have hincomplete : e.isComplete = false := by rw [hcomplete, hstatus]; rfl
      rw [trimmed, if_neg (not_not.mpr hstatus)]
      refine ⟨?_, ?_, fun _ => hnoresponse⟩
      · rw [AdvertisingFragment.isComplete, hstatus, hadv, hincomplete]
        rfl
      · rw [hincomplete, if_neg Bool.false_ne_true]
    · have hwhole : e.isComplete = true := by rw [hcomplete, decide_eq_true hstatus]
      rw [trimmed, if_pos hstatus]
      refine ⟨?_, ?_, fun _ => hnoresponse⟩
      · rw [AdvertisingFragment.isComplete, decide_eq_true hstatus, hwhole]
        rfl
      · rw [hwhole, if_pos rfl, hnoresponse]
        exact (List.append_nil _).symm
  have hcache : (s.store r).Inv keys ignore (reports ++ [r]) :=
    hi.stored hstored hkey hknown hevent hholds
  rw [processAdvertisingReport_eq passive hname (by rw [hadv, Bool.false_and])]
  split
  · exact ⟨hcache, fun _ h => by cases h⟩
  next hdone =>
    have hstatus : r.eventType.dataStatus ≠ .continuing := by
      intro hcontinuing
      simp [hcontinuing] at hdone
    split
    · refine ⟨hcache, fun complete hc => ⟨e, hevent, ?_⟩⟩
      cases hc
      exact hdata hstatus
    -- nothing more is to come: the entry goes when it is reported
    · refine ⟨hi.removed hstored hkey hevent ?_, fun complete hc => ⟨e, hevent, ?_⟩⟩
      · rw [hcomplete]
        exact decide_eq_true hstatus
      · cases hc
        exact hdata hstatus

theorem Inv.good_of_scanResponse (hname : r.isNameless = false)
    (hresponse : r.eventType.isScanResponse) (htaken : s.ignoreScanResponses = false)
    (hfind : s.findFragment r.key = some it) (hproper : s.proper r) (passive : Bool) :
    Good keys ignore reports r (s.processAdvertisingReport passive r) := by
  obtain ⟨e, hevent, hcomplete, hentry, response, hscan, hdata⟩ :=
    hi.scanResponse hname hresponse htaken hfind hproper
  obtain ⟨hstored, hkey⟩ := hi.store hcard r
  have hexpect : s.expectScanResponse r = false := by
    rw [expectScanResponse, hresponse, Bool.not_true, Bool.and_false, Bool.false_and]
  rw [processAdvertisingReport_eq passive hname (by rw [htaken, hfind]; simp), hexpect]
  by_cases hstatus : r.eventType.dataStatus = .continuing
  · rw [if_pos (by simp [hstatus])]
    refine ⟨hi.stored hstored hkey hknown hevent ⟨?_, ?_, ?_⟩, fun _ h => by cases h⟩
    · rw [entry, trimmed, if_neg (not_not.mpr hstatus), hentry, hcomplete]
    · rw [entry, trimmed, if_neg (not_not.mpr hstatus), hdata, hcomplete, if_pos rfl, hscan]
      rfl
    · intro hfalse
      rw [hcomplete] at hfalse
      cases hfalse
  · rw [if_neg (by simp [hstatus]), if_neg Bool.false_ne_true]
    refine ⟨hi.removed hstored hkey hevent hcomplete, fun complete hc => ⟨e, hevent, ?_⟩⟩
    cases hc
    -- the advertising data was trimmed before, so only the response is trimmed now
    change (s.entry r).data = e.data
    rw [entry, trimmed, if_pos hstatus]
    dsimp only
    rw [hdata, trim_trim_append, AdvertisingEvent.data, hscan]
    rfl

theorem Inv.good (hproper : s.proper r) (passive : Bool) :
    Good keys ignore reports r (s.processAdvertisingReport passive r) := by
  cases hname : r.isNameless with
  | true =>
    unfold processAdvertisingReport
    rw [if_pos hname]
    refine hi.good_of_unchanged fun key => ?_
    rw [currentEvent_concat, hname]
    rfl
  | false =>
    cases hresponse : r.eventType.isScanResponse with
    | false => exact hi.good_of_advertising hcard hknown hname hresponse hproper passive
    | true =>
      cases htaken : s.ignoreScanResponses || (s.findFragment r.key).isNone with
      | true =>
        unfold processAdvertisingReport
        rw [hname, if_neg Bool.false_ne_true, hresponse, htaken]
        refine hi.good_of_ignored hname hresponse ?_
        rwa [Bool.or_eq_true, Option.isNone_iff_eq_none] at htaken
      | false =>
        rw [Bool.or_eq_false_iff, Option.isNone_eq_false_iff, Option.isSome_iff_exists] at htaken
        obtain ⟨hignore, it, hfind⟩ := htaken
        exact hi.good_of_scanResponse hcard hknown hname hresponse hignore hfind hproper passive

end

/-! ### Streams of reports -/

/-- The reassembler after a stream of reports. -/
def run (passive ignore : Bool) (reports : List Report) : LeScanningReassembler :=
  reports.foldl (fun s r => (s.processAdvertisingReport passive r).1) (init ignore)

theorem Inv.run (hcard : keys.card ≤ kMaximumCacheSize) (passive : Bool) {reports : List Report}
    (hknown : ∀ r ∈ reports, r.key ∈ keys)
    (hproper : allAlong (fun s r => (s.processAdvertisingReport passive r).1) proper
      (LeScanningReassembler.init ignore) reports) :
    (LeScanningReassembler.run passive ignore reports).Inv keys ignore reports := by
  induction reports using List.reverseRecOn with
  | nil => exact Inv.init keys ignore
  | append_singleton reports r ih =>
    rw [allAlong_append, Bool.and_eq_true] at hproper
    have hi := ih (fun x hx => hknown x (List.mem_append_left _ hx)) hproper.1
    rw [LeScanningReassembler.run, List.foldl_append]
    refine (hi.good hcard (hknown r (by simp)) ?_ passive).1
    have hlast := hproper.2
    rw [allAlong, Bool.and_eq_true] at hlast
    exact hlast.1

/-- In a stream of proper reports of at most as many advertisers as the cache is made for, what is
returned is the trimmed data of the current advertising event and of its scan response. -/
theorem reassembly_exact (passive ignore : Bool) (reports : List Report) (r : Report)
    (hadvertisers : ((reports ++ [r]).map Report.key).toFinset.card ≤ kMaximumCacheSize)
    (hproper : allAlong (fun s r => (s.processAdvertisingReport passive r).1) proper (init ignore)
      (reports ++ [r])) {complete : CompleteAdvertisingData}
    (hreturned : ((run passive ignore reports).processAdvertisingReport passive r).2 =
      some complete) :
    ∃ e, currentEvent ignore r.key (reports ++ [r]) = some e ∧
      complete.data = trimAdvertisingData e.advertising ++
        (e.scanResponse.map trimAdvertisingData).getD [] := by
  have hknown : ∀ x ∈ reports ++ [r], x.key ∈ ((reports ++ [r]).map Report.key).toFinset :=
    fun x hx => List.mem_toFinset.mpr (List.mem_map_of_mem hx)
  rw [allAlong_append, Bool.and_eq_true, allAlong, Bool.and_eq_true] at hproper
  have hi := Inv.run hadvertisers passive (fun x hx => hknown x (List.mem_append_left _ hx))
    hproper.1
  exact (hi.good hadvertisers (hknown r (by simp)) hproper.2.1 passive).2 complete hreturned

/-- An extended report in two fragments and its scan response, with another advertiser between. -/
theorem reassembly_exact_two_fragments :
    let reports : List Report := [⟨0x22, 0, 1, 0, [2, 1]⟩, ⟨0x13, 0, 2, 0xff, [2, 10, 0]⟩,
      ⟨0x02, 0, 1, 0, [6, 0, 9]⟩]
    let response : Report := ⟨0x0a, 0, 1, 0, [2, 9, 65]⟩
    ∃ complete, ((run false false reports).processAdvertisingReport false response).2 =
        some complete ∧ complete.data = [2, 1, 6, 2, 9, 65] ∧
      ∃ e, currentEvent false response.key (reports ++ [response]) = some e ∧
        complete.data = trimAdvertisingData e.advertising ++
          (e.scanResponse.map trimAdvertisingData).getD [] := by
  intro reports response
  have hreturned : ((run false false reports).processAdvertisingReport false response).2 =
      some ⟨0x0a, [2, 1, 6, 2, 9, 65]⟩ := by decide +kernel
  exact ⟨_, hreturned, rfl,
    reassembly_exact false false reports response (by decide +kernel) (by decide +kernel) hreturned⟩

/-- Two extended scannable events, the first without a scan response. -/
theorem scannable_event_stays :
    let reports : List Report := [⟨0x02, 0, 1, 0, [2, 1, 6]⟩, ⟨0x02, 0, 1, 0, [2, 10, 4]⟩]
    let response : Report := ⟨0x0a, 0, 1, 0, [2, 9, 65]⟩
    ((run false false reports).processAdvertisingReport false response).2 =
        some ⟨0x0a, [2, 1, 6, 2, 10, 4, 2, 9, 65]⟩ ∧
      currentEvent false response.key (reports ++ [response]) =
        some ⟨[2, 10, 4], true, some [2, 9, 65]⟩ := by
  decide +kernel

end LeScanningReassembler

end BluetoothStack.Scan
