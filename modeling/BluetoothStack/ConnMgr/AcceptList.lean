import BluetoothStack.ConnMgr.Manager
import BluetoothStack.Lib.Runs

/-!
# BluetoothStack.ConnMgr.AcceptList

The accept list holds the devices that an application needs there.

Every entry point changes what is recorded for one device, and the entry of that device in the
accept list (`Touches`); the exception is `on_app_deregistered`, which does so for one device after
the other. So it is enough to look at one device, provided that no two devices share an entry.
-/

namespace BluetoothStack.ConnMgr

open BluetoothStack.Lib

/-- Some application needs the device in the accept list. -/
def AppsConnecting.Needed (info : AppsConnecting) : Prop :=
  info.doingDirectConn ≠ ∅ ∨ info.doingBgConn ≠ ∅ ∧ info.doingTargetedAnnouncementsConn = ∅

/-- What is recorded for a device agrees with whether it is in the accept list. -/
structure AppsConnecting.Agrees (info : AppsConnecting) (listed : Prop) : Prop where
  interested : info.doingBgConn ∪ info.doingTargetedAnnouncementsConn ∪ info.doingDirectConn ≠ ∅
  flag : info.isInAcceptList = true ↔ listed
  needed : listed ↔ info.Needed

theorem AppsConnecting.agrees_iff {info : AppsConnecting} {listed : Prop} :
    info.Agrees listed ↔
      (info.doingBgConn ≠ ∅ ∨ info.doingTargetedAnnouncementsConn ≠ ∅ ∨ info.doingDirectConn ≠ ∅) ∧
        (info.isInAcceptList = true ↔ listed) ∧ (listed ↔ info.doingDirectConn ≠ ∅ ∨
          info.doingBgConn ≠ ∅ ∧ info.doingTargetedAnnouncementsConn = ∅) := by
  have hint : (info.doingBgConn ∪ info.doingTargetedAnnouncementsConn ∪ info.doingDirectConn ≠ ∅) ↔
      (info.doingBgConn ≠ ∅ ∨ info.doingTargetedAnnouncementsConn ≠ ∅ ∨
        info.doingDirectConn ≠ ∅) := by
    simp only [ne_eq, Finset.union_eq_empty]
    tauto
  exact ⟨fun h => ⟨hint.mp h.interested, h.flag, h.needed⟩,
    fun h => ⟨hint.mpr h.1, h.2.1, h.2.2⟩⟩

/-- Every recorded device agrees with the accept list. -/
def State.Consistent (env : Env) (s : State) : Prop :=
  ∀ address info, s.bgconnDev.lookup address = some info →
    info.Agrees (env.btmSecGetAddressWithType address ∈ s.acceptList)

/-! ### Calls that keep the list right -/

/-- No other recorded device has the entry of this one. -/
def State.ownEntry (env : Env) (s : State) (address : RawAddress) : Bool :=
  s.bgconnDev.keys.all fun d =>
    decide (env.btmSecGetAddressWithType d = env.btmSecGetAddressWithType address → d = address)

/-- A direct connection is asked for with the address that the security records have, the device
does not share its entry, and an application that is the only one with a direct connection to a
device with targeted announcements does not deregister. -/
def State.sound (env : Env) (s : State) : Call → Bool
  | .backgroundConnectAdd _ address => s.ownEntry env address
  | .backgroundConnectTargetedAnnouncementAdd _ address => s.ownEntry env address
  | .directConnectAdd _ address addrType =>
    s.ownEntry env address &&
      decide (env.findInDeviceRecord address ⟨addrType, address⟩ =
        env.btmSecGetAddressWithType address)
  | .removeUnconditional address => s.ownEntry env address
  | .onAppDeregistered appId =>
    s.bgconnDev.entries.all fun e =>
      decide (e.2.doingDirectConn = {appId} → e.2.doingTargetedAnnouncementsConn = ∅)
  | .backgroundConnectRemove _ _ => true
  | .directConnectRemove _ _ _ => true
  | .onConnectionComplete _ => true

/-! ### One device -/

variable {env : Env} {s s' : State} {address : RawAddress}

/-- The invariant of a run: in addition, devices do not share an entry, and every entry belongs to
a device. -/
structure State.Inv (env : Env) (s : State) : Prop where
  consistent : s.Consistent env
  distinct : ∀ d ∈ s.bgconnDev, s.ownEntry env d
  owned : ∀ a ∈ s.acceptList, ∃ d ∈ s.bgconnDev, env.btmSecGetAddressWithType d = a

/-- A device agrees with the accept list, or is neither recorded nor listed. -/
def State.AgreesAt (env : Env) (s : State) (address : RawAddress) : Prop :=
  match s.bgconnDev.lookup address with
  | some info => info.Agrees (env.btmSecGetAddressWithType address ∈ s.acceptList)
  | none => env.btmSecGetAddressWithType address ∉ s.acceptList

theorem State.ownEntry_iff :
    s.ownEntry env address = true ↔ ∀ d ∈ s.bgconnDev,
      env.btmSecGetAddressWithType d = env.btmSecGetAddressWithType address → d = address := by
  simp only [State.ownEntry, List.all_eq_true, decide_eq_true_eq, AList.mem_keys]

/-- From `s` to `s'` at most one device and its entry have changed. -/
structure Touches (env : Env) (s s' : State) (address : RawAddress) : Prop where
  lookup : ∀ d, d ≠ address → s'.bgconnDev.lookup d = s.bgconnDev.lookup d
  listed : ∀ a, a ≠ env.btmSecGetAddressWithType address → (a ∈ s'.acceptList ↔ a ∈ s.acceptList)

theorem Touches.refl : Touches env s s address := ⟨fun _ _ => rfl, fun _ _ => Iff.rfl⟩

theorem State.Inv.agreesAt (hi : s.Inv env) (hown : s.ownEntry env address) :
    s.AgreesAt env address := by
  rw [State.AgreesAt]
  split
  next info hl => exact hi.consistent address info hl
  next hl =>
    intro hmem
    obtain ⟨d, hd, heq⟩ := hi.owned _ hmem
    rw [State.ownEntry_iff.mp hown d hd heq, ← AList.lookup_isSome, hl] at hd
    cases hd

/-- It is enough that the device itself agrees with its entry. -/
theorem State.Inv.of_touches (hi : s.Inv env) (ht : Touches env s s' address)
    (hown : s.ownEntry env address) (hagrees : s'.AgreesAt env address) : s'.Inv env := by
  rw [State.ownEntry_iff] at hown
  have hmem : ∀ d, d ≠ address → (d ∈ s'.bgconnDev ↔ d ∈ s.bgconnDev) := by
    intro d hne
    rw [← AList.lookup_isSome, ht.lookup d hne, AList.lookup_isSome]
  constructor
  · intro d info hd
    by_cases hda : d = address
    · subst hda
      rw [State.AgreesAt, hd] at hagrees
      exact hagrees
    · have hs := (ht.lookup d hda).symm.trans hd
      -- no other device resolves to this entry
      have hentry : env.btmSecGetAddressWithType d ≠ env.btmSecGetAddressWithType address := by
        intro heq
        exact hda (hown d (AList.lookup_isSome.mp (by rw [hs]; rfl)) heq)
      rw [ht.listed _ hentry]
      exact hi.consistent d info hs
  · intro d hd
    rw [State.ownEntry_iff]
    intro d' hd' heq
    by_cases hda : d = address
    · subst hda
      by_cases hd'a : d' = d
      · exact hd'a
      · exact hown d' ((hmem d' hd'a).mp hd') heq
    · by_cases hd'a : d' = address
      · subst hd'a
        exact (hown d ((hmem d hda).mp hd) heq.symm).symm
      · exact State.ownEntry_iff.mp (hi.distinct d ((hmem d hda).mp hd)) d'
          ((hmem d' hd'a).mp hd') heq
  · intro a ha
    by_cases hentry : a = env.btmSecGetAddressWithType address
    · subst hentry
      cases hl : s'.bgconnDev.lookup address with
      | none =>
        rw [State.AgreesAt, hl] at hagrees
        exact absurd ha hagrees
      | some info => exact ⟨address, AList.lookup_isSome.mp (by rw [hl]; rfl), rfl⟩
    · obtain ⟨d, hd, rfl⟩ := hi.owned a ((ht.listed a hentry).mp ha)
      have hda : d ≠ address := by
        intro hda
        exact hentry (by rw [hda])
      exact ⟨d, (hmem d hda).mpr hd, rfl⟩

/-! ### The operations on the state -/

section

variable (s) (a : LeAddr) (f : AppsConnecting → AppsConnecting)

@[simp] theorem State.acceptList_modify : (s.modify address f).acceptList = s.acceptList := rfl

@[simp] theorem State.acceptList_erase : (s.erase address).acceptList = s.acceptList := rfl

@[simp] theorem State.mem_acceptList_accept :
    a ∈ (s.acceptLeConnectionFrom a).acceptList := Finset.mem_insert_self _ _

@[simp] theorem State.notMem_acceptList_ignore :
    a ∉ (s.ignoreLeConnectionFrom a).acceptList := Finset.notMem_erase _ _

end

namespace Touches

variable {f : AppsConnecting → AppsConnecting} (h : Touches env s s' address)

include h

theorem modify : Touches env s (s'.modify address f) address :=
  ⟨fun d hd => (AList.lookup_insert_ne hd).trans (h.lookup d hd), h.listed⟩

theorem erase : Touches env s (s'.erase address) address :=
  ⟨fun d hd => (AList.lookup_erase_ne hd).trans (h.lookup d hd), h.listed⟩

theorem accept :
    Touches env s (s'.acceptLeConnectionFrom (env.btmSecGetAddressWithType address)) address :=
  ⟨h.lookup, fun a ha => (Finset.mem_insert.trans (or_iff_right ha)).trans (h.listed a ha)⟩

theorem ignore :
    Touches env s (s'.ignoreLeConnectionFrom (env.btmSecGetAddressWithType address)) address :=
  ⟨h.lookup, fun a ha => (Finset.mem_erase.trans (and_iff_right ha)).trans (h.listed a ha)⟩

end Touches

theorem State.Inv.of_modify (hi : s.Inv env) (ht : Touches env s s' address)
    (hown : s.ownEntry env address) {f : AppsConnecting → AppsConnecting}
    (hagrees : (f ((s'.bgconnDev.lookup address).getD .init)).Agrees
      (env.btmSecGetAddressWithType address ∈ s'.acceptList)) : (s'.modify address f).Inv env := by
  refine hi.of_touches ht.modify hown ?_
  rw [State.AgreesAt, State.lookup_modify]
  exact hagrees

/-! ### Adding -/

variable {appId : Nat}

theorem State.Inv.backgroundConnectAdd (hi : s.Inv env) (hown : s.ownEntry env address) :
    (ConnMgr.backgroundConnectAdd env s appId address).2.Inv env := by
  have hagrees := hi.agreesAt hown
  rw [State.AgreesAt] at hagrees
  rw [ConnMgr.backgroundConnectAdd]
  cases hl : s.bgconnDev.lookup address with
  | none =>
    simp only [Option.any_none, Bool.false_eq_true, if_false, Bool.or_self]
    split
    · exact hi
    dsimp only
    refine hi.of_modify Touches.refl.accept.modify hown ?_
    simp [hl, AppsConnecting.agrees_iff, AppsConnecting.init]
  | some info =>
    simp only [hl, AppsConnecting.agrees_iff] at hagrees
    simp only [Option.any_some]
    split
    · exact hi
    split
    · dsimp only
      refine hi.of_modify .refl hown ?_
      simp only [hl, Option.getD_some, AppsConnecting.agrees_iff]
      grind [Finset.insert_ne_empty]
    · -- a device that is not needed has an application with targeted announcements
      grind

theorem State.Inv.filtering (hi : s.Inv env) (enable : Bool) :
    State.Inv env { s with targetAnnouncementsFiltering := enable } :=
  ⟨hi.consistent, hi.distinct, hi.owned⟩

theorem State.Inv.backgroundConnectTargetedAnnouncementAdd (hi : s.Inv env)
    (hown : s.ownEntry env address) :
    (ConnMgr.backgroundConnectTargetedAnnouncementAdd env s appId address).2.Inv env := by
  have hagrees := hi.agreesAt hown
  rw [State.AgreesAt] at hagrees
  rw [ConnMgr.backgroundConnectTargetedAnnouncementAdd]
  cases hl : s.bgconnDev.lookup address with
  | none =>
    simp only [hl] at hagrees
    have hinv : (s.modify address fun info =>
        { info with
          doingTargetedAnnouncementsConn := insert appId info.doingTargetedAnnouncementsConn }).Inv
          env := by
      refine hi.of_modify .refl hown ?_
      simp [hl, hagrees, AppsConnecting.agrees_iff, AppsConnecting.init]
    simp only [Option.any_none, Bool.false_eq_true, if_false]
    split
    · exact hinv.filtering true
    · exact hinv
  | some info =>
    simp only [hl, AppsConnecting.agrees_iff] at hagrees
    simp only [Option.any_some]
    split
    · exact hi
    -- a device that was waited for on the accept list leaves it
    have hinv : State.Inv env (State.modify
        (if decide (info.doingDirectConn = ∅ ∧ info.doingTargetedAnnouncementsConn = ∅ ∧
            info.doingBgConn ≠ ∅) = true then
          (s.ignoreLeConnectionFrom (env.btmSecGetAddressWithType address)).modify address
            fun info => { info with isInAcceptList := false }
        else s) address fun info =>
        { info with
          doingTargetedAnnouncementsConn :=
            insert appId info.doingTargetedAnnouncementsConn }) := by
      split
      · refine hi.of_modify Touches.refl.ignore.modify hown ?_
        simp only [State.lookup_modify, State.lookup_ignore, hl, Option.getD_some,
          AppsConnecting.agrees_iff, State.acceptList_modify, State.notMem_acceptList_ignore]
        grind [Finset.insert_ne_empty]
      · refine hi.of_modify .refl hown ?_
        simp only [hl, Option.getD_some, AppsConnecting.agrees_iff]
        grind [Finset.insert_ne_empty]
    generalize State.modify _ _ _ = s₁ at hinv ⊢
    split
    · exact hinv.filtering true
    · exact hinv

theorem State.Inv.directConnectAdd {addrType : AddrType} (hi : s.Inv env)
    (hown : s.ownEntry env address) (htype : env.findInDeviceRecord address ⟨addrType, address⟩ =
      env.btmSecGetAddressWithType address) :
    (ConnMgr.directConnectAdd env s appId address addrType).2.Inv env := by
  rw [ConnMgr.directConnectAdd, htype]
  have hagrees := hi.agreesAt hown
  rw [State.AgreesAt] at hagrees
  cases hl : s.bgconnDev.lookup address with
  | none =>
    simp only [Option.any_none, Bool.false_eq_true, if_false]
    split
    · exact hi
    split
    · exact hi
    dsimp only
    refine hi.of_modify Touches.refl.accept.modify hown ?_
    simp [hl, AppsConnecting.agrees_iff, AppsConnecting.init]
  | some info =>
    simp only [hl, AppsConnecting.agrees_iff] at hagrees
    simp only [Option.any_some]
    split
    · exact hi
    split
    · exact hi
    split
    · exact hi
    split
    · dsimp only
      -- the device is on the accept list already
      refine hi.of_modify Touches.refl.accept hown ?_
      simp only [State.lookup_accept, hl, Option.getD_some, AppsConnecting.agrees_iff,
        State.mem_acceptList_accept]
      grind [Finset.insert_ne_empty]
    split
    · exact hi
    dsimp only
    refine hi.of_modify Touches.refl.accept.modify hown ?_
    simp [hl, AppsConnecting.agrees_iff]

/-! ### Removing -/

/-- A recorded device has its entry to itself. -/
theorem State.Inv.ownEntry_of_lookup (hi : s.Inv env) {info : AppsConnecting}
    (hl : s.bgconnDev.lookup address = some info) : s.ownEntry env address :=
  hi.distinct address (AList.lookup_isSome.mp (by rw [hl]; rfl))

theorem State.Inv.removeUnconditional (hi : s.Inv env) (hown : s.ownEntry env address) :
    (ConnMgr.removeUnconditional env s address).2.Inv env := by
  refine hi.of_touches Touches.refl.erase.ignore hown ?_
  simp [ConnMgr.removeUnconditional, State.AgreesAt]

theorem State.Inv.backgroundConnectRemove (hi : s.Inv env) :
    (ConnMgr.backgroundConnectRemove env s appId address).2.Inv env := by
  rw [ConnMgr.backgroundConnectRemove]
  cases hl : s.bgconnDev.lookup address with
  | none => exact hi
  | some info =>
    have hown := hi.ownEntry_of_lookup hl
    have hagrees := hi.consistent address info hl
    rw [AppsConnecting.agrees_iff] at hagrees
    dsimp only
    split
    · exact hi
    split
    · split
      · dsimp only
        refine hi.of_modify Touches.refl.modify.accept hown ?_
        simp only [State.lookup_modify, State.lookup_accept, Option.getD_some,
          AppsConnecting.agrees_iff, State.mem_acceptList_accept]
        grind
      · dsimp only
        refine hi.of_modify .refl hown ?_
        rw [AppsConnecting.agrees_iff]
        grind [AppsConnecting.isAnyoneConnecting]
    -- nobody is left: the record goes, and the entry if there is one
    · have hgone : (s.erase address).AgreesAt env address ∨ info.isInAcceptList = true := by
        simp only [State.AgreesAt, State.lookup_erase, State.acceptList_erase]
        grind
      split
      · dsimp only
        refine hi.of_touches Touches.refl.erase.ignore hown ?_
        simp [State.AgreesAt]
      · have hinv : (s.erase address).Inv env :=
          hi.of_touches Touches.refl.erase hown (hgone.resolve_right (by assumption))
        split
        · exact hinv.filtering true
        · exact hinv

theorem State.Inv.directConnectRemove {connectionTimeout : Bool} (hi : s.Inv env) :
    (ConnMgr.directConnectRemove env s appId address connectionTimeout).2.Inv env := by
  rw [ConnMgr.directConnectRemove]
  cases hl : s.bgconnDev.lookup address with
  | none => exact hi
  | some info =>
    have hown := hi.ownEntry_of_lookup hl
    have hagrees := hi.consistent address info hl
    rw [AppsConnecting.agrees_iff] at hagrees
    dsimp only
    split
    · exact hi
    split
    next happ huse =>
      simp only [AppsConnecting.isAnyoneInterestedToUseAcceptList] at huse
      split
      · dsimp only
        refine hi.of_touches Touches.refl.modify.accept hown ?_
        simp only [State.AgreesAt, State.lookup_accept, State.lookup_modify,
          AppsConnecting.agrees_iff, State.mem_acceptList_accept]
        grind
      · dsimp only
        refine hi.of_modify .refl hown ?_
        rw [AppsConnecting.agrees_iff]
        grind
    next happ huse =>
      simp only [AppsConnecting.isAnyoneInterestedToUseAcceptList] at huse
      split
      · dsimp only
        refine hi.of_touches Touches.refl.modify.ignore.erase hown ?_
        simp [State.AgreesAt]
      · dsimp only
        refine hi.of_modify Touches.refl.modify.ignore hown ?_
        simp only [State.lookup_modify, State.lookup_ignore, Option.getD_some,
          AppsConnecting.agrees_iff, State.notMem_acceptList_ignore]
        grind

theorem State.Inv.onConnectionComplete (hi : s.Inv env) :
    (ConnMgr.onConnectionComplete env s address).Inv env := by
  rw [ConnMgr.onConnectionComplete]
  generalize (s.bgconnDev.lookup address).elim 0 _ = fuel
  induction fuel generalizing s with
  | zero => exact hi
  | succ fuel ih =>
    rw [removeAllClientsWithPendingConnections]
    split
    · exact hi
    split
    · exact ih hi.directConnectRemove
    · exact hi

/-! ### Deregistering -/

/-- The application is not the only one with a direct connection to a device with targeted
announcements. -/
def State.Leaves (s : State) (appId : Nat) : Prop :=
  ∀ address info, s.bgconnDev.lookup address = some info → info.doingDirectConn = {appId} →
    info.doingTargetedAnnouncementsConn = ∅

theorem State.Inv.deregister (hi : s.Inv env) (hleaves : s.Leaves appId) (address : RawAddress) :
    (ConnMgr.deregister env appId s address).Inv env ∧
      (ConnMgr.deregister env appId s address).Leaves appId := by
  rw [ConnMgr.deregister]
  cases hl : s.bgconnDev.lookup address with
  | none => exact ⟨hi, hleaves⟩
  | some info =>
    have hown := hi.ownEntry_of_lookup hl
    have hagrees := hi.consistent address info hl
    have hlast := hleaves address info hl
    rw [AppsConnecting.agrees_iff] at hagrees
    dsimp only
    split
    -- another application still wants the device
    next hany =>
      simp only [AppsConnecting.isAnyoneConnecting] at hany
      constructor
      · refine hi.of_modify .refl hown ?_
        rw [AppsConnecting.agrees_iff]
        grind [Finset.erase_eq_empty_iff]
      · intro d info' hd
        by_cases hda : d = address
        · subst hda
          rw [State.lookup_modify, Option.some.injEq] at hd
          subst hd
          intro heq
          exact absurd (heq.ge (Finset.mem_singleton_self appId)) (Finset.notMem_erase _ _)
        · exact hleaves d info' ((AList.lookup_insert_ne hda).symm.trans hd)
    · constructor
      · refine hi.of_touches Touches.refl.ignore.erase hown ?_
        simp [State.AgreesAt]
      · intro d info' hd
        by_cases hda : d = address
        · subst hda
          rw [State.lookup_erase] at hd
          cases hd
        · exact hleaves d info' ((AList.lookup_erase_ne hda).symm.trans hd)

theorem State.Inv.onAppDeregistered (hi : s.Inv env) (hleaves : s.Leaves appId) :
    (ConnMgr.onAppDeregistered env s appId).Inv env := by
  rw [ConnMgr.onAppDeregistered]
  generalize s.bgconnDev.keys = keys
  induction keys generalizing s with
  | nil => exact hi
  | cons address keys ih =>
    obtain ⟨hinv, hleft⟩ := hi.deregister hleaves address
    exact ih hinv hleft

/-! ### Runs -/

theorem State.Inv.init : State.init.Inv env := by
  constructor
  · intro d info hd
    cases hd
  · intro d hd
    cases hd
  · intro a ha
    cases ha

theorem State.Inv.step (call : Call) (hi : s.Inv env) (hsound : s.sound env call) :
    (s.step env call).Inv env := by
  cases call with
  | backgroundConnectAdd appId address => exact hi.backgroundConnectAdd hsound
  | backgroundConnectTargetedAnnouncementAdd appId address =>
    exact hi.backgroundConnectTargetedAnnouncementAdd hsound
  | backgroundConnectRemove appId address => exact hi.backgroundConnectRemove
  | directConnectAdd appId address addrType =>
    simp only [State.sound, Bool.and_eq_true, decide_eq_true_eq] at hsound
    exact hi.directConnectAdd hsound.1 hsound.2
  | directConnectRemove appId address connectionTimeout => exact hi.directConnectRemove
  | onAppDeregistered appId =>
    refine hi.onAppDeregistered fun address info hl => ?_
    simp only [State.sound, List.all_eq_true, decide_eq_true_eq] at hsound
    exact hsound ⟨address, info⟩ (AList.mem_lookup_iff.mp hl)
  | onConnectionComplete address => exact hi.onConnectionComplete
  | removeUnconditional address => exact hi.removeUnconditional hsound

/-- In a run of such calls every recorded device agrees with the accept list: it has an interested
application, its flag says whether it is listed, and it is listed exactly if it is needed there. -/
theorem accept_list_agrees (env : Env) (calls : List Call)
    (hall : allAlong (State.step env) (State.sound env) State.init calls) :
    (calls.foldl (State.step env) State.init).Consistent env :=
  (foldl_invariant (fun _ call hi hsound => hi.step call hsound) State.Inv.init hall).consistent

/-- No device has a record, and one device fits the accept list. -/
def exampleEnv : Env := ⟨fun _ => none, 1, false⟩

/-- Three applications ask for the same device in the three ways, and give up one after the
other. -/
theorem accept_list_agrees_three :
    let calls : List Call := [.backgroundConnectTargetedAnnouncementAdd 1 7,
      .backgroundConnectAdd 2 7, .directConnectAdd 3 7 .publicAddr, .onConnectionComplete 7,
      .backgroundConnectRemove 1 7, .onAppDeregistered 2]
    allAlong (State.step exampleEnv) (State.sound exampleEnv) State.init calls = true ∧
      (calls.foldl (State.step exampleEnv) State.init).Consistent exampleEnv :=
  ⟨by decide +kernel, accept_list_agrees exampleEnv _ (by decide +kernel)⟩

/-- An application with targeted announcements connects directly and deregisters: the device stays
in the accept list, where no application needs it. -/
theorem deregistered_stays_listed :
    ¬ ([Call.backgroundConnectTargetedAnnouncementAdd 1 7, .directConnectAdd 1 7 .publicAddr,
      .onAppDeregistered 1].foldl (State.step exampleEnv) State.init).Consistent exampleEnv := by
  intro h
  have hagrees := h 7 ⟨∅, {1}, true, ∅⟩ (by decide +kernel)
  have hneeded := hagrees.needed.mp (hagrees.flag.mp rfl)
  simp [AppsConnecting.Needed] at hneeded

end BluetoothStack.ConnMgr
