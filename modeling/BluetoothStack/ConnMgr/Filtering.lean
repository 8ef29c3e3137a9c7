import BluetoothStack.ConnMgr.Manager
import BluetoothStack.Lib.Runs

/-!
# BluetoothStack.ConnMgr.Filtering

When the filter for targeted announcements is on.

The number of users is counted over the records of the devices. Only two calls look at it to switch
the filter, and both switch it on; it goes off with a reset. A call changes the record of one
device, so what it does to the number of users follows from that record and from the number before
the call (`State.FilteringMissed`).
-/

namespace BluetoothStack.ConnMgr

open BluetoothStack.Lib

/-! ### Calls -/

/-- The calls of the manager, with `reset`. -/
inductive ManagerCall where
  | call (call : Call)
  | reset (afterReset : Bool)
deriving DecidableEq, Repr

namespace State

variable (env : Env) (s : State)

/-- `reset`: after a reset of the controller its accept list is not touched, nor is the filter. -/
def reset (afterReset : Bool) : State :=
  let s := { s with bgconnDev := ∅ }
  if afterReset then s else { s with targetAnnouncementsFiltering := false, acceptList := ∅ }

def stepManager : ManagerCall → State
  | .call c => s.step env c
  | .reset afterReset => s.reset afterReset

/-- The filter is on exactly while there is a user. -/
def FilteringRight : Prop :=
  s.targetAnnouncementsFiltering = true ↔ 0 < s.numOfTargetedAnnouncementsUsers

end State

/-- A device that is waited for by its announcements. -/
def AppsConnecting.announced (info : AppsConnecting) : Bool :=
  !info.isInAcceptList && info.doingTargetedAnnouncementsConn ≠ ∅

theorem AppsConnecting.announced_iff {info : AppsConnecting} : info.announced = true ↔
    info.isInAcceptList = false ∧ info.doingTargetedAnnouncementsConn ≠ ∅ := by
  simp [announced]

/-- The device is the only one that is waited for by its announcements. -/
structure State.SoleUser (s : State) (address : RawAddress) (info : AppsConnecting) : Prop where
  lookup : s.bgconnDev.lookup address = some info
  announced : info.announced = true
  one : s.numOfTargetedAnnouncementsUsers = 1

/-- The calls that take the last user without switching the filter off, and those that give the
first one without switching it on. -/
def State.FilteringMissed (env : Env) (s : State) : ManagerCall → Prop
  -- the device goes to the accept list
  | .call (.directConnectAdd _ address addrType) =>
    (∃ info, s.SoleUser address info ∧ info.doingDirectConn = ∅) ∧
      (env.findInDeviceRecord address ⟨addrType, address⟩).type ≠ .anonymous ∧
      s.acceptListIsFull env = false
  | .call (.backgroundConnectRemove appId address) =>
    ∃ info, s.SoleUser address info ∧ info.doingTargetedAnnouncementsConn = {appId}
  | .call (.removeUnconditional address) => ∃ info, s.SoleUser address info
  | .reset true => 0 < s.numOfTargetedAnnouncementsUsers
  -- the device leaves the accept list
  | .call (.directConnectRemove appId address _) =>
    s.numOfTargetedAnnouncementsUsers = 0 ∧ ∃ info, s.bgconnDev.lookup address = some info ∧
      info.doingDirectConn = {appId} ∧ info.doingTargetedAnnouncementsConn ≠ ∅
  | .call (.onConnectionComplete address) =>
    s.numOfTargetedAnnouncementsUsers = 0 ∧ ∃ info, s.bgconnDev.lookup address = some info ∧
      info.doingDirectConn ≠ ∅ ∧ info.doingTargetedAnnouncementsConn ≠ ∅
  | _ => False

/-! ### Counting users -/

variable {env : Env} {s : State}

theorem countP_kerase {β : Type} (p : β → Bool) (address : RawAddress)
    {l : List (Sigma fun _ : RawAddress => β)} (hl : l.NodupKeys) :
    l.countP (fun e => p e.2) =
      (l.kerase address).countP (fun e => p e.2) + ((l.dlookup address).any p).toNat := by
  induction l with
  | nil => rfl
  | cons e l ih =>
    rw [List.nodupKeys_cons] at hl
    obtain ⟨d, info⟩ := e
    by_cases hd : address = d
    · subst hd
      rw [List.kerase_cons_eq (a := address) rfl, List.dlookup_cons_eq, List.countP_cons]
      rw [Option.any_some]
      cases p info <;> simp
    · rw [List.kerase_cons_ne hd, List.dlookup_cons_ne _ _ hd, List.countP_cons, List.countP_cons,
        ih hl.2]
      omega

def State.announcedAt (s : State) (address : RawAddress) : Bool :=
  (s.bgconnDev.lookup address).any AppsConnecting.announced

theorem State.users_eq (address : RawAddress) :
    s.numOfTargetedAnnouncementsUsers =
      (s.erase address).numOfTargetedAnnouncementsUsers + (s.announcedAt address).toNat :=
  countP_kerase AppsConnecting.announced address s.bgconnDev.nodupKeys

section Touched

variable {address : RawAddress} {info : AppsConnecting} {s' : State}

theorem State.announcedAt_of_lookup (hl : s.bgconnDev.lookup address = some info) :
    s.announcedAt address = info.announced := by
  rw [announcedAt, hl, Option.any_some]

theorem State.announcedAt_iff : s.announcedAt address = true ↔
    ∃ info, s.bgconnDev.lookup address = some info ∧ info.announced = true := Option.any_eq_true _ _

/-- At most the record of one device is changed, and not the filter. -/
structure Touched (address : RawAddress) (s s' : State) : Prop where
  filter : s'.targetAnnouncementsFiltering = s.targetAnnouncementsFiltering
  others : (s'.erase address).numOfTargetedAnnouncementsUsers =
    (s.erase address).numOfTargetedAnnouncementsUsers

namespace Touched

theorem refl : Touched address s s := ⟨rfl, rfl⟩

theorem trans {s₁ : State} (h : Touched address s s₁) (h' : Touched address s₁ s') :
    Touched address s s' := ⟨h'.filter.trans h.filter, h'.others.trans h.others⟩

section

variable (h : Touched address s s')
include h

theorem modify (f : AppsConnecting → AppsConnecting) : Touched address s (s'.modify address f) := by
  refine ⟨h.filter, ?_⟩
  rw [← h.others]
  simp only [State.numOfTargetedAnnouncementsUsers, State.erase, State.modify, AList.erase,
    AList.entries_insert]
  rw [List.kerase_cons_eq (a := address) rfl]

theorem erase : Touched address s (s'.erase address) := by
  refine ⟨h.filter, ?_⟩
  rw [← h.others]
  simp only [State.numOfTargetedAnnouncementsUsers, State.erase, AList.erase]
  rw [List.kerase_of_notMem_keys (List.notMem_keys_kerase address s'.bgconnDev.nodupKeys)]

theorem accept (a : LeAddr) :
    Touched address s (s'.acceptLeConnectionFrom a) := ⟨h.filter, h.others⟩

theorem ignore (a : LeAddr) :
    Touched address s (s'.ignoreLeConnectionFrom a) := ⟨h.filter, h.others⟩

/-- The filter is right after such a change unless the record was the only one to count or is the
first. -/
theorem filteringRight_iff (hright : s.FilteringRight) :
    s'.FilteringRight ↔
      ¬ (s.announcedAt address = true ∧ s'.announcedAt address = false ∧
          s.numOfTargetedAnnouncementsUsers = 1) ∧
        ¬ (s.announcedAt address = false ∧ s'.announcedAt address = true ∧
          s.numOfTargetedAnnouncementsUsers = 0) := by
  have husers := State.users_eq (s := s) address
  have husers' := State.users_eq (s := s') address
  rw [h.others] at husers'
  rw [State.FilteringRight] at hright ⊢
  rw [h.filter, hright]
  cases hbefore : s.announcedAt address <;> cases hafter : s'.announcedAt address <;>
    simp only [hbefore, hafter, Bool.toNat_true, Bool.toNat_false] at husers husers' <;>
    simp only [reduceCtorEq, false_and, true_and, and_false, not_false_iff, and_true, iff_true] <;>
    omega

theorem filteringRight (hright : s.FilteringRight)
    (hsame : s'.announcedAt address = s.announcedAt address) : s'.FilteringRight := by
  rw [h.filteringRight_iff hright, hsame]
  cases s.announcedAt address <;> simp

/-- A change that can only take a user. -/
theorem filteringRight_iff_not_soleUser (hright : s.FilteringRight) {taken : AppsConnecting → Prop}
    (hnone : s.bgconnDev.lookup address = none → s'.announcedAt address = false)
    (htaken : ∀ info, s.bgconnDev.lookup address = some info →
      (s'.announcedAt address = true ↔ info.announced = true ∧ ¬ taken info)) :
    s'.FilteringRight ↔ ¬ ∃ info, s.SoleUser address info ∧ taken info := by
  rw [h.filteringRight_iff hright, and_iff_left]
  · refine not_congr ⟨?_, ?_⟩
    · rintro ⟨hbefore, hafter, hone⟩
      obtain ⟨info, hl, hinfo⟩ := State.announcedAt_iff.mp hbefore
      refine ⟨info, ⟨hl, hinfo, hone⟩, by_contra fun hnot => ?_⟩
      rw [(htaken info hl).mpr ⟨hinfo, hnot⟩] at hafter
      cases hafter
    · rintro ⟨info, hsole, hinfo⟩
      refine ⟨State.announcedAt_iff.mpr ⟨info, hsole.lookup, hsole.announced⟩, ?_, hsole.one⟩
      exact Bool.eq_false_iff.mpr fun hafter => ((htaken info hsole.lookup).mp hafter).2 hinfo
  · rintro ⟨hbefore, hafter, -⟩
    cases hl : s.bgconnDev.lookup address with
    | none =>
      rw [hnone hl] at hafter
      cases hafter
    | some info =>
      rw [State.announcedAt_of_lookup hl, ((htaken info hl).mp hafter).1] at hbefore
      cases hbefore

/-- A change that can only give a user. -/
theorem filteringRight_iff_not_first (hright : s.FilteringRight) {given : AppsConnecting → Prop}
    (hnone : s.bgconnDev.lookup address = none → s'.announcedAt address = false)
    (hgiven : ∀ info, s.bgconnDev.lookup address = some info →
      (s'.announcedAt address = true ↔ info.announced = true ∨ given info)) :
    s'.FilteringRight ↔ ¬ (s.numOfTargetedAnnouncementsUsers = 0 ∧
      ∃ info, s.bgconnDev.lookup address = some info ∧ given info) := by
  rw [h.filteringRight_iff hright, and_iff_right]
  · refine not_congr ⟨?_, ?_⟩
    · rintro ⟨hbefore, hafter, hzero⟩
      cases hl : s.bgconnDev.lookup address with
      | none =>
        rw [hnone hl] at hafter
        cases hafter
      | some info =>
        rw [State.announcedAt_of_lookup hl] at hbefore
        refine ⟨hzero, info, rfl, ((hgiven info hl).mp hafter).resolve_left ?_⟩
        exact Bool.eq_false_iff.mp hbefore
    · rintro ⟨hzero, info, hl, hinfo⟩
      refine ⟨?_, (hgiven info hl).mpr (.inr hinfo), hzero⟩
      have husers := State.users_eq (s := s) address
      exact Bool.toNat_eq_zero.mp (by omega)
  · rintro ⟨hbefore, hafter, -⟩
    obtain ⟨info, hl, hinfo⟩ := State.announcedAt_iff.mp hbefore
    rw [(hgiven info hl).mpr (.inl hinfo)] at hafter
    cases hafter

end

end Touched

end Touched

/-! ### The record that a call changes -/

variable {info : AppsConnecting} {address : RawAddress}

theorem touched_backgroundConnectAdd (appId : Nat) (address : RawAddress) :
    Touched address s (backgroundConnectAdd env s appId address).2 := by
  have hself : Touched address s s := .refl
  unfold backgroundConnectAdd
  dsimp only
  split_ifs <;> dsimp only
  · exact hself
  · exact hself.modify _
  · exact hself
  · exact ((hself.accept _).modify _).modify _

/-- Only a device that is not waited for is put on the accept list. -/
theorem announcedAt_backgroundConnectAdd (appId : Nat) (address : RawAddress) :
    (backgroundConnectAdd env s appId address).2.announcedAt address = s.announcedAt address := by
  unfold backgroundConnectAdd State.announcedAt
  dsimp only
  split
  · rfl
  · cases hl : s.bgconnDev.lookup address with
    | none =>
      split
      next hlisted => cases hlisted
      split
      · rw [hl]
      · simp [AppsConnecting.announced]
    | some info =>
      simp only [Option.any_some]
      split
      · simp [hl, AppsConnecting.announced]
      split
      · rw [hl, Option.any_some]
      next hnew _ =>
        simp only [Bool.or_eq_true, not_or, Bool.not_eq_true] at hnew
        rw [AppsConnecting.announced, hnew.2]
        simp [AppsConnecting.announced]

theorem touched_directConnectAdd (appId : Nat) (address : RawAddress) (addrType : AddrType) :
    Touched address s (directConnectAdd env s appId address addrType).2 := by
  have hself : Touched address s s := .refl
  unfold directConnectAdd
  dsimp only
  split_ifs <;> dsimp only
  · exact hself
  · exact hself
  · exact hself
  · exact (hself.accept _).modify _
  · exact hself
  · exact ((hself.accept _).modify _).modify _

/-- A device that is waited for is put on the accept list, if there is room and no direct connection
has put it there. -/
theorem announcedAt_directConnectAdd (hl : s.bgconnDev.lookup address = some info) (appId : Nat)
    (addrType : AddrType) :
    (directConnectAdd env s appId address addrType).2.announcedAt address = true ↔
      info.announced = true ∧ ¬ (info.doingDirectConn = ∅ ∧
        (env.findInDeviceRecord address ⟨addrType, address⟩).type ≠ .anonymous ∧
        s.acceptListIsFull env = false) := by
  have hbefore := State.announcedAt_of_lookup hl
  unfold directConnectAdd
  simp only [hl, Option.any_some, decide_eq_true_eq]
  split
  next htype => rw [hbefore, and_iff_left fun hadded => hadded.2.1 htype]
  split
  next hmem =>
    rw [hbefore, and_iff_left]
    exact fun hadded => Finset.notMem_empty appId (hadded.1 ▸ hmem)
  split
  next hdirect => rw [hbefore, and_iff_left fun hadded => hdirect hadded.1]
  rename_i htype _ hdirect
  split
  next hlisted => simp [State.announcedAt, AppsConnecting.announced, hl, hlisted]
  split
  next hfull =>
    rw [hbefore, and_iff_left]
    exact fun hadded => Bool.false_ne_true (hadded.2.2.symm.trans hfull)
  next hroom =>
    refine iff_of_false ?_ fun h => h.2 ⟨not_not.mp hdirect, htype, Bool.eq_false_iff.mpr hroom⟩
    simp [State.announcedAt, AppsConnecting.announced]

/-- The call may switch the filter on when it removes a user, but then it was on. -/
theorem touched_backgroundConnectRemove (hright : s.FilteringRight) (appId : Nat)
    (address : RawAddress) : Touched address s (backgroundConnectRemove env s appId address).2 := by
  have hself : Touched address s s := .refl
  unfold backgroundConnectRemove
  split
  · exact hself
  rename_i info hl
  dsimp only
  split_ifs with hnone hany hlist hlisted hlast <;> dsimp only
  · exact hself
  · exact ((hself.modify _).accept _).modify _
  · exact hself.modify _
  · exact hself.erase.ignore _
  · have hann : s.announcedAt address = true := State.announcedAt_iff.mpr
      ⟨info, hl, AppsConnecting.announced_iff.mpr ⟨Bool.eq_false_iff.mpr hlisted, hlast.1⟩⟩
    refine ⟨(hright.mpr ?_).symm, hself.erase.others⟩
    rw [State.users_eq address, hann]
    exact Nat.succ_pos _
  · exact hself.erase

/-- A device is still waited for if another application asked for its announcements. -/
theorem announcedAt_backgroundConnectRemove (hl : s.bgconnDev.lookup address = some info)
    (appId : Nat) :
    (backgroundConnectRemove env s appId address).2.announcedAt address =
      (!info.isInAcceptList && info.doingTargetedAnnouncementsConn.erase appId ≠ ∅) := by
  unfold backgroundConnectRemove
  simp only [hl]
  split
  next hnone =>
    rw [State.announcedAt, hl, Option.any_some, AppsConnecting.announced,
      Finset.erase_eq_of_notMem hnone.2]
  split
  · split
    next hlist => simp [State.announcedAt, AppsConnecting.announced, hlist.2.1]
    · simp [State.announcedAt, AppsConnecting.announced]
  next hnobody =>
    have hempty : info.doingTargetedAnnouncementsConn.erase appId = ∅ := by
      simp only [AppsConnecting.isAnyoneConnecting, Bool.or_eq_true, decide_eq_true_eq, not_or,
        not_not] at hnobody
      exact hnobody.2
    simp only [hempty, ne_eq, not_true, decide_false, Bool.and_false]
    split
    · simp [State.announcedAt]
    split <;> simp [State.announcedAt, State.erase]

theorem touched_directConnectRemove (s : State) (appId : Nat) (address : RawAddress)
    (connectionTimeout : Bool) :
    Touched address s (directConnectRemove env s appId address connectionTimeout).2 := by
  have hself : Touched address s s := .refl
  unfold directConnectRemove
  split
  · exact hself
  dsimp only
  split_ifs <;> dsimp only
  · exact (hself.modify _).accept _
  · exact hself.modify _
  · exact ((hself.modify _).ignore _).erase
  · exact ((hself.modify _).ignore _).modify _
  · exact hself

/-- With the last direct connection a device leaves the accept list, and is then waited for by its
announcements if these were asked for. -/
theorem announcedAt_directConnectRemove (hl : s.bgconnDev.lookup address = some info) (appId : Nat)
    (connectionTimeout : Bool) :
    (directConnectRemove env s appId address connectionTimeout).2.announcedAt address = true ↔
      info.announced = true ∨
        info.doingDirectConn = {appId} ∧ info.doingTargetedAnnouncementsConn ≠ ∅ := by
  have hbefore := State.announcedAt_of_lookup hl
  unfold directConnectRemove
  simp only [hl]
  split
  next hnot =>
    rw [hbefore, or_iff_left]
    rintro ⟨hdirect, -⟩
    exact hnot (hdirect ▸ Finset.mem_singleton_self appId)
  rename_i hmem
  have hlast : info.doingDirectConn.erase appId = ∅ ↔ info.doingDirectConn = {appId} := by
    rw [Finset.erase_eq_empty_iff, or_iff_right (Finset.ne_empty_of_mem (not_not.mp hmem))]
  by_cases htargeted : info.doingTargetedAnnouncementsConn = ∅
  · -- nobody asked for announcements, before or after
    have hann : info.announced = false := by simp [AppsConnecting.announced, htargeted]
    simp only [hann, htargeted, ne_eq, not_true, and_false, or_false, Bool.false_eq_true, iff_false,
      Bool.not_eq_true, if_true]
    split
    · split <;> simp [State.announcedAt, AppsConnecting.announced]
    · simp [State.announcedAt]
  · simp only [AppsConnecting.isAnyoneInterestedToUseAcceptList, htargeted, ne_eq, not_false_iff,
      if_true, hlast, decide_not, Bool.not_eq_true', decide_eq_false_iff_not, if_false, and_true]
    split
    next hmore =>
      rw [or_iff_left hmore]
      split <;> simp [State.announcedAt, AppsConnecting.announced]
    next hone =>
      refine iff_of_true ?_ (.inr (not_not.mp hone))
      simp [State.announcedAt, AppsConnecting.announced, htargeted]

/-- What is left of a record when one of its direct connections is removed. -/
theorem lookup_directConnectRemove (hl : s.bgconnDev.lookup address = some info) {appId : Nat}
    (hmem : appId ∈ info.doingDirectConn) (connectionTimeout : Bool) :
    let s' := (directConnectRemove env s appId address connectionTimeout).2
    (∃ listed, s'.bgconnDev.lookup address = some { info with
        isInAcceptList := listed, doingDirectConn := info.doingDirectConn.erase appId }) ∨
      s'.bgconnDev.lookup address = none ∧ info.doingTargetedAnnouncementsConn = ∅ := by
  unfold directConnectRemove
  simp only [hl, hmem, not_true, if_false]
  split
  · refine .inl ⟨info.isInAcceptList, ?_⟩
    split <;> simp
  split
  next htargeted => exact .inr ⟨State.lookup_erase _ _, htargeted⟩
  · exact .inl ⟨false, by simp⟩

/-- The loop removes the direct connections one after the other, and the last turn is the one that
counts. -/
theorem announcedAt_removeAllClients {fuel : Nat} (hl : s.bgconnDev.lookup address = some info)
    (hfuel : info.doingDirectConn.card ≤ fuel) :
    (removeAllClientsWithPendingConnections env address fuel s).announcedAt address = true ↔
      info.announced = true ∨
        info.doingDirectConn ≠ ∅ ∧ info.doingTargetedAnnouncementsConn ≠ ∅ := by
  have hdone {s : State} {info : AppsConnecting} (hl : s.bgconnDev.lookup address = some info)
      (hnone : info.doingDirectConn = ∅) : s.announcedAt address = true ↔ info.announced = true ∨
        info.doingDirectConn ≠ ∅ ∧ info.doingTargetedAnnouncementsConn ≠ ∅ := by
    rw [State.announcedAt_of_lookup hl, or_iff_left fun hmore => hmore.1 hnone]
  induction fuel generalizing s info with
  | zero => exact hdone hl (Finset.card_eq_zero.mp (Nat.le_zero.mp hfuel))
  | succ fuel ih =>
    unfold removeAllClientsWithPendingConnections
    simp only [hl]
    split
    next hsome =>
      have hmem := Finset.min'_mem _ hsome
      generalize hleast : info.doingDirectConn.min' hsome = least at hmem ⊢
      have hafter := @announcedAt_directConnectRemove env s info address hl least false
      have hrecord := @lookup_directConnectRemove env s info address hl least hmem false
      generalize (directConnectRemove env s least address false).2 = s' at hafter hrecord ⊢
      rw [and_iff_right (Finset.nonempty_iff_ne_empty.mp hsome)]
      rcases hrecord with ⟨listed, hl'⟩ | ⟨hl', htargeted⟩
      · have hcard : (info.doingDirectConn.erase least).card ≤ fuel := by
          rw [Finset.card_erase_of_mem hmem]
          omega
        refine (ih hl' hcard).trans ?_
        rw [State.announcedAt_of_lookup hl'] at hafter
        rw [hafter, or_assoc]
        refine or_congr_right' fun _ => ?_
        -- the application was the last one, or the other turns follow
        rw [← or_and_right, and_iff_right_iff_imp]
        intro _
        rw [ne_eq, Finset.erase_eq_empty_iff, or_iff_right (Finset.ne_empty_of_mem hmem)]
        exact em _
      · -- the record is erased: nobody had asked for announcements
        refine iff_of_false ?_ ?_
        · have hgone : s'.announcedAt address = false := by rw [State.announcedAt, hl']; rfl
          cases fuel <;>
            simp only [removeAllClientsWithPendingConnections, hl', hgone, Bool.false_eq_true,
              not_false_iff]
        · rintro (hann | hne)
          · exact (AppsConnecting.announced_iff.mp hann).2 htargeted
          · exact hne htargeted
    next hnone => exact hdone hl (Finset.not_nonempty_iff_eq_empty.mp hnone)

theorem touched_onConnectionComplete (s : State) (address : RawAddress) :
    Touched address s (onConnectionComplete env s address) := by
  have hloop (fuel : Nat) (s : State) :
      Touched address s (removeAllClientsWithPendingConnections env address fuel s) := by
    induction fuel generalizing s with
    | zero => exact .refl
    | succ fuel ih =>
      unfold removeAllClientsWithPendingConnections
      split
      · exact .refl
      · split
        · exact (touched_directConnectRemove s _ address false).trans (ih _)
        · exact .refl
  exact hloop _ s

theorem announcedAt_onConnectionComplete (hl : s.bgconnDev.lookup address = some info) :
    (onConnectionComplete env s address).announcedAt address = true ↔ info.announced = true ∨
      info.doingDirectConn ≠ ∅ ∧ info.doingTargetedAnnouncementsConn ≠ ∅ := by
  rw [onConnectionComplete, hl, Option.elim_some]
  exact announcedAt_removeAllClients hl le_rfl

/-- An application that is gone is not looked for among those that asked for announcements. -/
theorem filteringRight_deregister (hright : s.FilteringRight) (appId : Nat) (address : RawAddress) :
    (deregister env appId s address).FilteringRight := by
  have hself : Touched address s s := .refl
  unfold deregister
  split
  · exact hright
  rename_i info hl
  have hbefore := State.announcedAt_of_lookup hl
  dsimp only
  split
  · refine (hself.modify _).filteringRight hright ?_
    rw [hbefore]
    simp [State.announcedAt, AppsConnecting.announced]
  next hnobody =>
    have hempty : info.doingTargetedAnnouncementsConn = ∅ := by
      simp only [AppsConnecting.isAnyoneConnecting, Bool.or_eq_true, decide_eq_true_eq, not_or,
        not_not] at hnobody
      exact hnobody.2
    refine (hself.ignore _).erase.filteringRight hright ?_
    rw [hbefore]
    simp [State.announcedAt, AppsConnecting.announced, hempty]

theorem filteringRight_onAppDeregistered (hright : s.FilteringRight) (appId : Nat) :
    (onAppDeregistered env s appId).FilteringRight :=
  List.foldlRecOn _ _ hright fun _ h address _ => filteringRight_deregister h appId address

/-! ### One call -/

/-- The filter is right after a call exactly if the call misses no switch. -/
def State.SwitchesRight (env : Env) (s : State) (c : ManagerCall) : Prop :=
  (s.stepManager env c).FilteringRight ↔ ¬ s.FilteringMissed env c

section

variable (hright : s.FilteringRight)
include hright

/-- The call that adds a user switches the filter on if it is the first. -/
theorem filteringRight_targetedAnnouncementAdd (appId : Nat) (address : RawAddress) :
    (backgroundConnectTargetedAnnouncementAdd env s appId address).2.FilteringRight := by
  have hself : Touched address s s := .refl
  unfold backgroundConnectTargetedAnnouncementAdd
  dsimp only
  split
  · exact hright
  generalize hs₁ : (if (s.bgconnDev.lookup address).any (fun info => decide
      (info.doingDirectConn = ∅ ∧ info.doingTargetedAnnouncementsConn = ∅ ∧
        info.doingBgConn ≠ ∅)) = true then
      (s.ignoreLeConnectionFrom (env.btmSecGetAddressWithType address)).modify address
        fun info => { info with isInAcceptList := false }
    else s) = s₁
  have htouched : Touched address s s₁ := by
    rw [← hs₁]
    split
    · exact (hself.ignore _).modify _
    · exact .refl
  -- the accept list is only left if nobody has asked for announcements yet
  have hkept : s.announcedAt address = true → s₁ = s := by
    intro hann
    obtain ⟨info, hl, hinfo⟩ := State.announcedAt_iff.mp hann
    rw [← hs₁, hl, Option.any_some, if_neg]
    simp [(AppsConnecting.announced_iff.mp hinfo).2]
  generalize hs₂ : (s₁.modify address fun info => { info with
    doingTargetedAnnouncementsConn := insert appId info.doingTargetedAnnouncementsConn }) = s₂
  have htouched₂ : Touched address s s₂ := hs₂ ▸ htouched.modify _
  split
  next hone => exact iff_of_true rfl (lt_of_lt_of_eq Nat.one_pos hone.symm)
  next hone =>
    rw [htouched₂.filteringRight_iff hright]
    constructor
    · rintro ⟨hbefore, hafter, -⟩
      obtain ⟨info, hl, hinfo⟩ := State.announcedAt_iff.mp hbefore
      rw [← hs₂, hkept hbefore, State.announcedAt, State.lookup_modify, hl] at hafter
      simp [AppsConnecting.announced, (AppsConnecting.announced_iff.mp hinfo).1] at hafter
    · rintro ⟨hbefore, hafter, hzero⟩
      have husers := State.users_eq (s := s) address
      have husers' := State.users_eq (s := s₂) address
      rw [htouched₂.others, hafter] at husers'
      rw [hzero, hbefore] at husers
      simp only [Bool.toNat_false, Bool.toNat_true] at husers husers'
      omega

theorem switchesRight_reset (afterReset : Bool) : s.SwitchesRight env (.reset afterReset) := by
  have hzero : (s.reset afterReset).numOfTargetedAnnouncementsUsers = 0 := by
    cases afterReset <;> rfl
  rw [State.SwitchesRight, State.stepManager, State.FilteringRight, hzero,
    iff_false_right (lt_irrefl 0)]
  cases afterReset with
  | true => exact not_congr hright
  | false => exact iff_of_true Bool.false_ne_true not_false

theorem switchesRight_directConnectAdd (appId : Nat) (address : RawAddress) (addrType : AddrType) :
    s.SwitchesRight env (.call (.directConnectAdd appId address addrType)) := by
  refine ((touched_directConnectAdd appId address addrType).filteringRight_iff_not_soleUser hright
    (fun hl => ?_) fun info hl => announcedAt_directConnectAdd hl appId addrType).trans ?_
  · unfold directConnectAdd
    simp only [hl, Option.any_none, Bool.false_eq_true, if_false]
    split_ifs <;> simp [State.announcedAt, AppsConnecting.announced, hl]
  refine not_congr ⟨?_, ?_⟩
  · rintro ⟨info, hsole, hdirect, hadded⟩
    exact ⟨⟨info, hsole, hdirect⟩, hadded⟩
  · rintro ⟨⟨info, hsole, hdirect⟩, hadded⟩
    exact ⟨info, hsole, hdirect, hadded⟩

theorem switchesRight_backgroundConnectRemove (appId : Nat) (address : RawAddress) :
    s.SwitchesRight env (.call (.backgroundConnectRemove appId address)) := by
  refine (touched_backgroundConnectRemove hright appId address).filteringRight_iff_not_soleUser
    hright (fun hl => ?_) fun info hl => ?_
  · simp [backgroundConnectRemove, State.announcedAt, hl]
  · rw [announcedAt_backgroundConnectRemove hl, Bool.and_eq_true, Bool.not_eq_true',
      decide_eq_true_eq, AppsConnecting.announced_iff, and_assoc]
    refine and_congr_right fun _ => ?_
    rw [ne_eq, Finset.erase_eq_empty_iff, not_or]

theorem switchesRight_removeUnconditional (address : RawAddress) :
    s.SwitchesRight env (.call (.removeUnconditional address)) := by
  have hself : Touched address s s := .refl
  have hgone : (removeUnconditional env s address).2.announcedAt address = false := by
    simp [removeUnconditional, State.announcedAt]
  have htouched : Touched address s (removeUnconditional env s address).2 :=
    hself.erase.ignore _
  refine (htouched.filteringRight_iff_not_soleUser hright (fun _ => hgone) fun info _ =>
    iff_of_false (Bool.eq_false_iff.mp hgone) fun h => h.2 trivial).trans ?_
  simp only [and_true]
  rfl

theorem switchesRight_directConnectRemove (appId : Nat) (address : RawAddress)
    (connectionTimeout : Bool) :
    s.SwitchesRight env (.call (.directConnectRemove appId address connectionTimeout)) := by
  refine (touched_directConnectRemove s appId address
    connectionTimeout).filteringRight_iff_not_first
    hright (fun hl => ?_) fun info hl => announcedAt_directConnectRemove hl appId connectionTimeout
  simp [directConnectRemove, State.announcedAt, hl]

theorem switchesRight_onConnectionComplete (address : RawAddress) :
    s.SwitchesRight env (.call (.onConnectionComplete address)) := by
  refine (touched_onConnectionComplete s address).filteringRight_iff_not_first hright (fun hl => ?_)
    fun info hl => announcedAt_onConnectionComplete hl
  simp [onConnectionComplete, removeAllClientsWithPendingConnections, State.announcedAt, hl]

theorem switchesRight (c : ManagerCall) : s.SwitchesRight env c := by
  cases c with
  | reset afterReset => exact switchesRight_reset hright afterReset
  | call c =>
    cases c with
    | backgroundConnectAdd appId address =>
      exact iff_of_true ((touched_backgroundConnectAdd appId address).filteringRight hright
        (announcedAt_backgroundConnectAdd appId address)) not_false
    | backgroundConnectTargetedAnnouncementAdd appId address =>
      exact iff_of_true (filteringRight_targetedAnnouncementAdd hright appId address) not_false
    | backgroundConnectRemove appId address =>
      exact switchesRight_backgroundConnectRemove hright appId address
    | directConnectAdd appId address addrType =>
      exact switchesRight_directConnectAdd hright appId address addrType
    | directConnectRemove appId address connectionTimeout =>
      exact switchesRight_directConnectRemove hright appId address connectionTimeout
    | onAppDeregistered appId =>
      exact iff_of_true (filteringRight_onAppDeregistered hright appId) not_false
    | onConnectionComplete address => exact switchesRight_onConnectionComplete hright address
    | removeUnconditional address => exact switchesRight_removeUnconditional hright address

end

/-! ### Whole runs -/

/-- From the start, the filter is on exactly while there is a user after each of some calls, exactly
if none of them gives the first user or takes the last without switching the filter. -/
theorem filtering_right_iff (env : Env) (calls : List ManagerCall) :
    Along (fun s c => some (State.stepManager env s c)) State.FilteringRight State.init calls ↔
      Avoids (fun s c => some (State.stepManager env s c)) (State.FilteringMissed env) State.init
        calls := by
  have hinit : State.init.FilteringRight := iff_of_false Bool.false_ne_true (lt_irrefl 0)
  refine along_iff (I := fun _ => True) ?_ calls trivial hinit
  rintro s c s' - hright hs'
  cases hs'
  exact ⟨trivial, switchesRight hright c⟩

/-- The only user gives up, and the filter is switched on again. -/
theorem filtering_stays_on :
    let s := (State.init.stepManager ⟨fun _ => none, 1, false⟩
        (.call (.backgroundConnectTargetedAnnouncementAdd 1 7))).stepManager
      ⟨fun _ => none, 1, false⟩ (.call (.backgroundConnectRemove 1 7))
    s.targetAnnouncementsFiltering = true ∧ s.numOfTargetedAnnouncementsUsers = 0 := by
  decide +kernel

end BluetoothStack.ConnMgr
