import BluetoothStack.Crypto.AesCmac

/-!
# BluetoothStack.SecDev.Consolidate

Merging security records of one device (`btm_consolidate_dev`).

The list is the records before the target, the target and the records after it, so that a record is
the target by its place and not by what is in it. The result is the target as the last duplicate of
its address leaves it, changed by the records after that one (`merged_eq`).

Left out: the fields of a record that are copied with a duplicate and not looked at.
-/

namespace BluetoothStack.SecDev

open BluetoothStack.Crypto

/-! ### The source -/

abbrev RawAddress := Vector UInt8 6

def kEmpty : RawAddress := Vector.replicate 6 0

/-- `tBTM_BLE_ADDR_INFO`. -/
structure BleAddrInfo where
  pseudoAddr : RawAddress := kEmpty
  addressType : UInt8 := 0
  identityAddress : RawAddress := kEmpty
  identityAddressType : UInt8 := 0
  inControllerList : UInt8 := 0
  resolvingListIndex : UInt8 := 0
  curRandAddr : RawAddress := kEmpty
  activeAddrType : UInt8 := 0
  deriving DecidableEq, Repr

/-- `tBTM_SEC_BLE_KEYS`. -/
structure BleKeys where
  irk : Octet16 := Vector.replicate 16 0
  pltk : Octet16 := Vector.replicate 16 0
  pcsrk : Octet16 := Vector.replicate 16 0
  lltk : Octet16 := Vector.replicate 16 0
  lcsrk : Octet16 := Vector.replicate 16 0
  rand : Vector UInt8 8 := Vector.replicate 8 0
  ediv : UInt16 := 0
  div : UInt16 := 0
  secLevel : UInt8 := 0
  keySize : UInt8 := 0
  srkSecLevel : UInt8 := 0
  localCsrkSecLevel : UInt8 := 0
  counter : UInt32 := 0
  localCounter : UInt32 := 0
  keyType : UInt8 := 0
  deriving DecidableEq, Repr

/-- `tBTM_SEC_REC`. -/
structure SecRec where
  secFlags : UInt16 := 0
  newEncryptionKeyIsP256 : Bool := false
  linkKey : Octet16 := Vector.replicate 16 0
  linkKeyType : UInt8 := 0
  encKeySize : UInt8 := 0
  bondType : UInt8 := 0
  bleKeys : BleKeys := {}
  deriving DecidableEq, Repr

/-- `tBTM_LE_CONN_PRAMS`. -/
structure ConnParams where
  minConnInt : UInt16 := 0
  maxConnInt : UInt16 := 0
  peripheralLatency : UInt16 := 0
  supervisionTout : UInt16 := 0
  deriving DecidableEq, Repr

/-- `tBTM_SEC_DEV_REC`. -/
structure DevRec where
  bdAddr : RawAddress
  ble : BleAddrInfo := {}
  deviceType : UInt8 := 0
  hciHandle : UInt16 := 0
  bleHciHandle : UInt16 := 0
  connParams : ConnParams := {}
  secRec : SecRec := {}
  deriving DecidableEq, Repr

def btmSecLinkKeyKnown : UInt16 := 0x0010
def btmSecLinkKeyAuthed : UInt16 := 0x0020
def btDeviceTypeBle : UInt8 := 2
def btmLeKeyPid : UInt8 := 2
def bleAddrPublic : UInt8 := 0

/-- `is_link_key_known`. -/
def SecRec.isLinkKeyKnown (s : SecRec) : Bool := s.secFlags &&& btmSecLinkKeyKnown ≠ 0

/-- `is_link_key_authenticated`. -/
def SecRec.isLinkKeyAuthenticated (s : SecRec) : Bool := s.secFlags &&& btmSecLinkKeyAuthed ≠ 0

/-- `is_ble_addr_type_known`. -/
def isBleAddrTypeKnown (type : UInt8) : Bool := type = 0 || type = 1 || type = 2 || type = 3

/-- `SetAddressType`. -/
def BleAddrInfo.setAddressType (b : BleAddrInfo) (type : UInt8) : BleAddrInfo :=
  if isBleAddrTypeKnown type then { b with addressType := type } else b

/-- `BTM_BLE_IS_RESOLVE_BDA`. -/
def isResolveBda (x : RawAddress) : Bool := x[0] &&& 0xc0 = 0x40

/-- `btm_ble_init_pseudo_addr`. -/
def initPseudoAddr (t : DevRec) (addr : RawAddress) : DevRec :=
  if t.ble.pseudoAddr = kEmpty then { t with ble := { t.ble with pseudoAddr := addr } } else t

section

variable (cipher : Octet16 → Octet16 → Octet16)

/-- `rpa_matches_irk`. -/
def rpaMatchesIrk (rpa : RawAddress) (irk : Octet16) : Bool :=
  let x := aes128 cipher irk #v[rpa[2], rpa[1], rpa[0], 0, 0, 0, 0, 0, 0, 0, 0, 0, 0, 0, 0, 0]
  x[0] = rpa[5] && x[1] = rpa[4] && x[2] = rpa[3]

/-- `btm_ble_addr_resolvable`, without what it does to the pseudo address. -/
def addrResolvable (rpa : RawAddress) (t : DevRec) : Bool :=
  if t.ble.addressType = bleAddrPublic || !isResolveBda rpa then false
  else
    t.deviceType &&& btDeviceTypeBle ≠ 0 && t.secRec.bleKeys.keyType &&& btmLeKeyPid ≠ 0 &&
      rpaMatchesIrk cipher rpa t.secRec.bleKeys.irk

/-- A record with the target's address: the target becomes the record, but for what is restored. -/
def mergeSameAddress (temp p : DevRec) : DevRec :=
  { p with
    ble := temp.ble
    bleHciHandle := temp.bleHciHandle
    connParams := temp.connParams
    deviceType := p.deviceType ||| temp.deviceType
    secRec := { p.secRec with
      bleKeys := temp.secRec.bleKeys
      encKeySize := temp.secRec.encKeySize
      secFlags := p.secRec.secFlags ||| temp.secRec.secFlags
      newEncryptionKeyIsP256 := temp.secRec.newEncryptionKeyIsP256
      bondType := temp.secRec.bondType } }

/-- A resolvable record, and whether it stays in the list: one under the pseudo address is combined.
-/
def mergeResolvable (t p : DevRec) : DevRec × Bool :=
  if t.ble.pseudoAddr = p.bdAddr then
    ({ t with
      ble := t.ble.setAddressType p.ble.addressType
      deviceType := t.deviceType ||| p.deviceType }, false)
  else (t, true)

/-- A record with another address, and whether it stays in the list. -/
def visitOther (t p : DevRec) : DevRec × Bool :=
  if addrResolvable cipher p.bdAddr t then mergeResolvable (initPseudoAddr t p.bdAddr) p
    else (t, true)

/-- One round of the loop. -/
def visit (temp t p : DevRec) : DevRec × Bool :=
  if p.bdAddr = t.bdAddr then (mergeSameAddress temp p, false) else visitOther cipher t p

/-- The loop: the target, and the records that stay. -/
def consolidateLoop (temp : DevRec) : DevRec → List DevRec → DevRec × List DevRec
  | t, [] => (t, [])
  | t, p :: ps =>
    let rest := consolidateLoop temp (visit cipher temp t p).1 ps
    (rest.1, if (visit cipher temp t p).2 then p :: rest.2 else rest.2)

/-- `btm_consolidate_dev`: the target, and the records before and after it. -/
def btmConsolidateDev (before : List DevRec) (target : DevRec) (after : List DevRec) :
    DevRec × List DevRec × List DevRec :=
  let first := consolidateLoop cipher target target before
  let second := consolidateLoop cipher target first.1 after
  (second.1, first.2, second.2)

end

/-! ### Flags -/

theorem or_and_eq_zero {w : Nat} (a b c : BitVec w) :
    (a ||| b) &&& c = 0 ↔ a &&& c = 0 ∧ b &&& c = 0 := by
  have hdistrib : (a ||| b) &&& c = (a &&& c) ||| (b &&& c) := by
    ext i
    simp [Bool.and_or_distrib_right]
  rw [hdistrib]
  exact BitVec.or_eq_zero_iff

theorem or_and_ne_zero (a b c : UInt8) : (a ||| b) &&& c ≠ 0 ↔ a &&& c ≠ 0 ∨ b &&& c ≠ 0 := by
  rw [Ne, ← not_and_or, ← UInt8.toBitVec_inj, ← UInt8.toBitVec_inj, ← UInt8.toBitVec_inj]
  exact not_congr (or_and_eq_zero a.toBitVec b.toBitVec c.toBitVec)

theorem or_and_ne_zero_uint16 (a b c : UInt16) :
    (a ||| b) &&& c ≠ 0 ↔ a &&& c ≠ 0 ∨ b &&& c ≠ 0 := by
  rw [Ne, ← not_and_or, ← UInt16.toBitVec_inj, ← UInt16.toBitVec_inj, ← UInt16.toBitVec_inj]
  exact not_congr (or_and_eq_zero a.toBitVec b.toBitVec c.toBitVec)

theorem mergeSameAddress_known (temp p : DevRec) :
    (mergeSameAddress temp p).secRec.isLinkKeyKnown =
      (p.secRec.isLinkKeyKnown || temp.secRec.isLinkKeyKnown) := by
  rw [Bool.eq_iff_iff, Bool.or_eq_true]
  simp only [SecRec.isLinkKeyKnown, decide_eq_true_iff]
  exact or_and_ne_zero_uint16 _ _ _

theorem mergeSameAddress_authenticated (temp p : DevRec) :
    (mergeSameAddress temp p).secRec.isLinkKeyAuthenticated =
      (p.secRec.isLinkKeyAuthenticated || temp.secRec.isLinkKeyAuthenticated) := by
  rw [Bool.eq_iff_iff, Bool.or_eq_true]
  simp only [SecRec.isLinkKeyAuthenticated, decide_eq_true_iff]
  exact or_and_ne_zero_uint16 _ _ _

/-! ### What a round changes -/

section

variable {cipher : Octet16 → Octet16 → Octet16} {temp t p : DevRec}

/-- A record with another address is left alone, or it is combined: it resolves with the target's
key, and its address is the pseudo address or becomes it. -/
theorem visitOther_cases (cipher : Octet16 → Octet16 → Octet16) (t p : DevRec) :
    visitOther cipher t p = (t, true) ∧ (addrResolvable cipher p.bdAddr t = false ∨
        t.ble.pseudoAddr ≠ kEmpty ∧ t.ble.pseudoAddr ≠ p.bdAddr) ∨
      addrResolvable cipher p.bdAddr t = true ∧
        (t.ble.pseudoAddr = kEmpty ∨ t.ble.pseudoAddr = p.bdAddr) ∧
        visitOther cipher t p =
          ({ t with
            ble := ({ t.ble with pseudoAddr := p.bdAddr } : BleAddrInfo).setAddressType
              p.ble.addressType
            deviceType := t.deviceType ||| p.deviceType }, false) := by
  rw [visitOther]
  cases hresolvable : addrResolvable cipher p.bdAddr t with
  | false => exact .inl ⟨rfl, .inl rfl⟩
  | true =>
    rw [if_pos rfl, initPseudoAddr]
    by_cases hempty : t.ble.pseudoAddr = kEmpty
    · refine .inr ⟨rfl, .inl hempty, ?_⟩
      rw [if_pos hempty, mergeResolvable, if_pos rfl]
    · rw [if_neg hempty, mergeResolvable]
      by_cases hpseudo : t.ble.pseudoAddr = p.bdAddr
      · refine .inr ⟨rfl, .inr hpseudo, ?_⟩
        rw [if_pos hpseudo, ← hpseudo]
      · exact .inl ⟨if_neg hpseudo, .inr ⟨hempty, hpseudo⟩⟩

theorem visitOther_frame (cipher : Octet16 → Octet16 → Octet16) (t p : DevRec) :
    (visitOther cipher t p).1.bdAddr = t.bdAddr ∧ (visitOther cipher t p).1.secRec = t.secRec ∧
      (visitOther cipher t p).1.bleHciHandle = t.bleHciHandle := by
  rcases visitOther_cases cipher t p with ⟨h, -⟩ | ⟨-, -, h⟩
  · rw [h]
    exact ⟨rfl, rfl, rfl⟩
  · rw [h]
    exact ⟨rfl, rfl, rfl⟩

/-! ### The target after the loop -/

/-- The target after some records. -/
def merged (cipher : Octet16 → Octet16 → Octet16) (temp : DevRec) (records : List DevRec) :
    DevRec :=
  records.foldl (fun t p => (visit cipher temp t p).1) temp

/-- The last record with the target's address. -/
def lastDuplicate (t : DevRec) (records : List DevRec) : Option DevRec :=
  (records.filter fun p => p.bdAddr = t.bdAddr).getLast?

/-- The records after the last one with the target's address. -/
def afterDuplicates (t : DevRec) (records : List DevRec) : List DevRec :=
  (records.reverse.takeWhile fun p => p.bdAddr ≠ t.bdAddr).reverse

/-- The target as a duplicate leaves it. -/
def mergedWith (t : DevRec) : Option DevRec → DevRec
  | none => t
  | some p => mergeSameAddress t p

/-- The target after records with other addresses. -/
def resolved (cipher : Octet16 → Octet16 → Octet16) (t : DevRec) (records : List DevRec) : DevRec :=
  records.foldl (fun t p => (visitOther cipher t p).1) t

theorem consolidateLoop_fst (cipher : Octet16 → Octet16 → Octet16) (temp t : DevRec)
    (ps : List DevRec) :
    (consolidateLoop cipher temp t ps).1 = ps.foldl (fun t p => (visit cipher temp t p).1) t := by
  induction ps generalizing t with
  | nil => rfl
  | cons p ps ih => exact ih _

theorem consolidateLoop_append (cipher : Octet16 → Octet16 → Octet16) (temp t : DevRec)
    (ps qs : List DevRec) :
    consolidateLoop cipher temp t (ps ++ qs) =
      ((consolidateLoop cipher temp (consolidateLoop cipher temp t ps).1 qs).1,
        (consolidateLoop cipher temp t ps).2 ++
          (consolidateLoop cipher temp (consolidateLoop cipher temp t ps).1 qs).2) := by
  induction ps generalizing t with
  | nil => rfl
  | cons p ps ih =>
    rw [List.cons_append, consolidateLoop, ih, consolidateLoop]
    split <;> rfl

/-- The target and the other records, as if the target were not between them. -/
theorem btmConsolidateDev_eq (cipher : Octet16 → Octet16 → Octet16) (before : List DevRec)
    (target : DevRec) (after : List DevRec) :
    (btmConsolidateDev cipher before target after).1 = merged cipher target (before ++ after) ∧
      (btmConsolidateDev cipher before target after).2.1 ++
          (btmConsolidateDev cipher before target after).2.2 =
        (consolidateLoop cipher target target (before ++ after)).2 := by
  have happend := consolidateLoop_append cipher target target before after
  constructor
  · rw [merged, ← consolidateLoop_fst, happend]
    rfl
  · rw [happend]
    rfl

theorem resolved_frame (cipher : Octet16 → Octet16 → Octet16) (t : DevRec) (ps : List DevRec) :
    (resolved cipher t ps).bdAddr = t.bdAddr ∧ (resolved cipher t ps).secRec = t.secRec ∧
      (resolved cipher t ps).bleHciHandle = t.bleHciHandle := by
  induction ps generalizing t with
  | nil => exact ⟨rfl, rfl, rfl⟩
  | cons p ps ih =>
    obtain ⟨hbd, hsec, hhandle⟩ := visitOther_frame cipher t p
    obtain ⟨hbd', hsec', hhandle'⟩ := ih (visitOther cipher t p).1
    exact ⟨hbd'.trans hbd, hsec'.trans hsec, hhandle'.trans hhandle⟩

theorem lastDuplicate_concat (t : DevRec) (ps : List DevRec) (p : DevRec) :
    lastDuplicate t (ps ++ [p]) = if p.bdAddr = t.bdAddr then some p else lastDuplicate t ps := by
  rw [lastDuplicate, List.filter_append]
  by_cases h : p.bdAddr = t.bdAddr
  · rw [if_pos h, List.filter_cons_of_pos (by simpa using h), List.filter_nil, List.getLast?_concat]
  · rw [if_neg h, List.filter_cons_of_neg (by simpa using h), List.filter_nil, List.append_nil]
    rfl

theorem afterDuplicates_concat (t : DevRec) (ps : List DevRec) (p : DevRec) :
    afterDuplicates t (ps ++ [p]) =
      if p.bdAddr = t.bdAddr then [] else afterDuplicates t ps ++ [p] := by
  rw [afterDuplicates, List.reverse_concat]
  by_cases h : p.bdAddr = t.bdAddr
  · rw [if_pos h, List.takeWhile_cons_of_neg (by simpa using h), List.reverse_nil]
  · rw [if_neg h, List.takeWhile_cons_of_pos (by simpa using h), List.reverse_cons]
    rfl

theorem mergedWith_bdAddr (t : DevRec) (ps : List DevRec) :
    (mergedWith t (lastDuplicate t ps)).bdAddr = t.bdAddr := by
  cases h : lastDuplicate t ps with
  | none => rfl
  | some p =>
    have hp := (List.mem_filter.mp (List.mem_of_getLast? h)).2
    show p.bdAddr = t.bdAddr
    simpa using hp

theorem mergedWith_ble (t : DevRec) (d : Option DevRec) : (mergedWith t d).ble = t.ble := by
  cases d with
  | none => rfl
  | some d => rfl

theorem mergedWith_bleKeys (t : DevRec) (d : Option DevRec) :
    (mergedWith t d).secRec.bleKeys = t.secRec.bleKeys := by
  cases d with
  | none => rfl
  | some d => rfl

theorem mergedWith_bleHciHandle (t : DevRec) (d : Option DevRec) :
    (mergedWith t d).bleHciHandle = t.bleHciHandle := by
  cases d with
  | none => rfl
  | some d => rfl

/-- The target is what its last duplicate leaves of it, and then the records behind that one. -/
theorem merged_eq (t : DevRec) (ps : List DevRec) :
    merged cipher t ps =
      resolved cipher (mergedWith t (lastDuplicate t ps)) (afterDuplicates t ps) := by
  induction ps using List.reverseRecOn with
  | nil => rfl
  | append_singleton ps p ih =>
    have hbd : (merged cipher t ps).bdAddr = t.bdAddr := by
      rw [ih, (resolved_frame cipher _ _).1, mergedWith_bdAddr]
    have hconcat : merged cipher t (ps ++ [p]) = (visit cipher t (merged cipher t ps) p).1 :=
      List.foldl_concat _ _ _ _
    rw [hconcat, visit, hbd, lastDuplicate_concat, afterDuplicates_concat]
    by_cases h : p.bdAddr = t.bdAddr
    · rw [if_pos h, if_pos h, if_pos h]
      rfl
    · rw [if_neg h, if_neg h, if_neg h, resolved, List.foldl_concat, ← resolved, ih]

/-! ### LE address data -/

/-- The address resolves with the key of the target. -/
def resolvesWith (cipher : Octet16 → Octet16 → Octet16) (t : DevRec) (addr : RawAddress) : Bool :=
  isResolveBda addr && rpaMatchesIrk cipher addr t.secRec.bleKeys.irk

/-- The target takes part in resolving addresses. -/
def Resolving (t : DevRec) : Prop :=
  t.ble.addressType ≠ bleAddrPublic ∧ t.deviceType &&& btDeviceTypeBle ≠ 0 ∧
    t.secRec.bleKeys.keyType &&& btmLeKeyPid ≠ 0

theorem addrResolvable_iff (addr : RawAddress) (t : DevRec) :
    addrResolvable cipher addr t = true ↔ Resolving t ∧ resolvesWith cipher t addr = true := by
  rw [addrResolvable, Resolving, resolvesWith]
  by_cases hpublic : t.ble.addressType = bleAddrPublic
  · simp [hpublic]
  · by_cases hresolve : isResolveBda addr <;> simp [hpublic, hresolve, and_assoc]

/-- The address type after the resolvable records under the pseudo address. A public one stays. -/
def addressTypeAfter (cipher : Octet16 → Octet16 → Octet16) (t : DevRec) (type : UInt8)
    (ps : List DevRec) : UInt8 :=
  ps.foldl (fun type p =>
    if type ≠ bleAddrPublic ∧ resolvesWith cipher t p.bdAddr = true ∧ t.ble.pseudoAddr = p.bdAddr ∧
        isBleAddrTypeKnown p.ble.addressType = true
    then p.ble.addressType else type) type

/-- The records behind the last duplicate leave the address type of a target with a pseudo address.
-/
def KeepsAddressType (cipher : Octet16 → Octet16 → Octet16) (t : DevRec) (ps : List DevRec) :
    Prop :=
  Resolving t → addressTypeAfter cipher t t.ble.addressType ps = t.ble.addressType

/-- A target without a pseudo address takes it from the first record that it resolves, which is then
gone. So it must not resolve any record of another address, in the state that the last duplicate
before that record leaves it in. -/
def NoneResolves (cipher : Octet16 → Octet16 → Octet16) (t : DevRec) (ps : List DevRec) : Prop :=
  ∀ pre p, pre ++ [p] <+: ps → p.bdAddr ≠ t.bdAddr →
    Resolving (mergedWith t (lastDuplicate t pre)) → resolvesWith cipher t p.bdAddr = false

/-- A target that leaves every record alone. -/
theorem resolved_of_not_resolvable {ps : List DevRec}
    (h : ∀ p ∈ ps, addrResolvable cipher p.bdAddr t = false) : resolved cipher t ps = t := by
  induction ps with
  | nil => rfl
  | cons p ps ih =>
    have hvisit : visitOther cipher t p = (t, true) := by
      rw [visitOther, h p List.mem_cons_self]
      rfl
    rw [resolved, List.foldl_cons, hvisit]
    exact ih fun q hq => h q (List.mem_cons_of_mem p hq)

theorem ne_kEmpty_of_resolves {addr : RawAddress} (h : resolvesWith cipher t addr = true) :
    addr ≠ kEmpty := by
  rintro rfl
  rw [resolvesWith, Bool.and_eq_true] at h
  exact absurd h.1 (by decide)

theorem setAddressType_pseudoAddr (b : BleAddrInfo) (type : UInt8) :
    (b.setAddressType type).pseudoAddr = b.pseudoAddr := by
  rw [BleAddrInfo.setAddressType]
  split <;> rfl

/-- With a pseudo address only the address type changes. -/
theorem resolved_ble {t cur : DevRec} {type : UInt8} (hpseudo : t.ble.pseudoAddr ≠ kEmpty)
    (hkey : t.secRec.bleKeys.keyType &&& btmLeKeyPid ≠ 0) (hsec : cur.secRec = t.secRec)
    (hble : cur.ble = { t.ble with addressType := type })
    (htype : cur.deviceType &&& btDeviceTypeBle ≠ 0) (ps : List DevRec) :
    (resolved cipher cur ps).ble =
      { t.ble with addressType := addressTypeAfter cipher t type ps } := by
  induction ps generalizing cur type with
  | nil => exact hble
  | cons p ps ih =>
    have hresolves : resolvesWith cipher cur p.bdAddr = resolvesWith cipher t p.bdAddr := by
      rw [resolvesWith, resolvesWith, hsec]
    have hiff : addrResolvable cipher p.bdAddr cur = true ↔
        type ≠ bleAddrPublic ∧ resolvesWith cipher t p.bdAddr = true := by
      rw [addrResolvable_iff, Resolving, hresolves, hsec, hble]
      exact and_congr_left fun _ => ⟨And.left, fun h => ⟨h, htype, hkey⟩⟩
    rw [addressTypeAfter, List.foldl_cons, ← addressTypeAfter, resolved,
      List.foldl_cons, ← resolved]
    -- a pseudo address that is set is never replaced
    rcases visitOther_cases cipher cur p with ⟨hvisit, hnot⟩ | ⟨hresolvable, hpseudo', hvisit⟩
    · rw [hvisit, if_neg]
      · exact ih hsec hble htype
      · rintro ⟨hpublic, hp, haddr, -⟩
        rcases hnot with hnot | ⟨-, hne⟩
        · rw [hiff.mpr ⟨hpublic, hp⟩] at hnot
          cases hnot
        · rw [hble] at hne
          exact hne haddr
    · rw [hble] at hpseudo'
      have haddr : t.ble.pseudoAddr = p.bdAddr := hpseudo'.resolve_left hpseudo
      obtain ⟨hpublic, hp⟩ := hiff.mp hresolvable
      rw [hvisit]
      refine ih hsec ?_ ((or_and_ne_zero _ _ _).mpr (.inl htype))
      show BleAddrInfo.setAddressType _ _ = _
      rw [BleAddrInfo.setAddressType, hble]
      by_cases hknown : isBleAddrTypeKnown p.ble.addressType = true
      · rw [if_pos hknown, if_pos ⟨hpublic, hp, haddr, hknown⟩, ← haddr]
      · rw [if_neg hknown, if_neg fun h => hknown h.2.2.2, ← haddr]

theorem resolved_ble_iff (hpseudo : t.ble.pseudoAddr ≠ kEmpty) (ps : List DevRec) :
    (resolved cipher t ps).ble = t.ble ↔ KeepsAddressType cipher t ps := by
  by_cases ht : Resolving t
  · rw [KeepsAddressType, resolved_ble hpseudo ht.2.2 rfl rfl ht.2.1, forall_prop_of_true ht]
    exact ⟨fun h => congrArg BleAddrInfo.addressType h, fun h => by rw [h]⟩
  · refine iff_of_true ?_ fun h => absurd h ht
    rw [resolved_of_not_resolvable fun p hp => ?_]
    rw [Bool.eq_false_iff, Ne, addrResolvable_iff]
    exact fun hboth => ht hboth.1

/-! ### The records that stay -/

/-- A record that may be combined with the target: it has its address, or it resolves with its key
and is under its pseudo address. -/
def isDuplicate (cipher : Octet16 → Octet16 → Octet16) (t p : DevRec) : Bool :=
  p.bdAddr = t.bdAddr || resolvesWith cipher t p.bdAddr && t.ble.pseudoAddr = p.bdAddr

theorem consolidateLoop_sublist (cipher : Octet16 → Octet16 → Octet16) (temp t : DevRec)
    (ps : List DevRec) : (consolidateLoop cipher temp t ps).2.Sublist ps := by
  induction ps generalizing t with
  | nil => exact .slnil
  | cons p ps ih =>
    rw [consolidateLoop]
    dsimp only
    split
    · exact (ih _).cons_cons p
    · exact (ih _).cons p

theorem visit_bdAddr (h : t.bdAddr = temp.bdAddr) (cipher : Octet16 → Octet16 → Octet16)
    (p : DevRec) : (visit cipher temp t p).1.bdAddr = temp.bdAddr := by
  rw [visit]
  split
  next hp => exact hp.trans h
  · exact (visitOther_frame cipher t p).1.trans h

theorem consolidateLoop_bdAddr_ne (cipher : Octet16 → Octet16 → Octet16) (ps : List DevRec)
    (h : t.bdAddr = temp.bdAddr) :
    ∀ p ∈ (consolidateLoop cipher temp t ps).2, p.bdAddr ≠ temp.bdAddr := by
  induction ps generalizing t with
  | nil => exact fun p hp => absurd hp List.not_mem_nil
  | cons p ps ih =>
    have haddr := ih (visit_bdAddr h cipher p)
    rw [consolidateLoop]
    dsimp only
    split
    next hvisit =>
      refine List.forall_mem_cons.mpr ⟨fun hp => ?_, haddr⟩
      rw [visit, if_pos (hp.trans h.symm)] at hvisit
      cases hvisit
    · exact haddr

theorem forall_prefix_cons {α : Type} {P : List α → α → Prop} {a : α} {l : List α} :
    (∀ pre x, pre ++ [x] <+: a :: l → P pre x) ↔
      P [] a ∧ ∀ pre x, pre ++ [x] <+: l → P (a :: pre) x := by
  constructor
  · intro h
    refine ⟨h [] a (List.prefix_append [a] l), fun pre x hpre => h (a :: pre) x ?_⟩
    exact List.cons_prefix_cons.mpr ⟨rfl, hpre⟩
  · rintro ⟨hfirst, hrest⟩ pre x hpre
    cases pre with
    | nil =>
      obtain ⟨rfl, -⟩ := List.cons_prefix_cons.mp hpre
      exact hfirst
    | cons b pre =>
      obtain ⟨rfl, htail⟩ := List.cons_prefix_cons.mp hpre
      exact hrest pre x htail

/-- The records of a kind are all left exactly if no round of the loop takes one away. -/
theorem filter_sublist_consolidateLoop (cipher : Octet16 → Octet16 → Octet16) (temp t : DevRec)
    (kind : DevRec → Bool) (ps : List DevRec) :
    (ps.filter kind).Sublist (consolidateLoop cipher temp t ps).2 ↔
      ∀ pre p, pre ++ [p] <+: ps → kind p = true →
        (visit cipher temp (pre.foldl (fun t p => (visit cipher temp t p).1) t) p).2 = true := by
  induction ps generalizing t with
  | nil => simp
  | cons p ps ih =>
    have hsub := consolidateLoop_sublist cipher temp (visit cipher temp t p).1 ps
    rw [forall_prefix_cons, List.foldl_nil, consolidateLoop]
    simp only [List.foldl_cons]
    rw [← ih]
    cases hkind : kind p with
    | false =>
      rw [List.filter_cons_of_neg (by rw [hkind]; exact Bool.false_ne_true),
        and_iff_right fun hfalse => absurd hfalse Bool.false_ne_true]
      split
      · refine ⟨fun h => ?_, fun h => h.cons p⟩
        have hfilter := h.filter kind
        rw [List.filter_filter, List.filter_cons_of_neg (by rw [hkind]; exact Bool.false_ne_true)]
          at hfilter
        simp only [Bool.and_self] at hfilter
        exact hfilter.trans List.filter_sublist
      · exact Iff.rfl
    | true =>
      rw [List.filter_cons_of_pos hkind, forall_prop_of_true rfl]
      split
      next hvisit => rw [List.cons_sublist_cons, and_iff_right hvisit]
      next hvisit =>
        refine iff_of_false (fun h => ?_) fun h => hvisit h.1
        -- the record is gone, so one of its kind is missing
        have hcount := h.countP_le (p := kind)
        have hle := hsub.countP_le (p := kind)
        simp only [List.countP_cons_of_pos hkind, List.countP_filter, Bool.and_self] at hcount
        exact absurd (hcount.trans hle) (Nat.not_succ_le_self _)

theorem merged_pseudoAddr (hpseudo : t.ble.pseudoAddr ≠ kEmpty) (ps : List DevRec) :
    (merged cipher t ps).ble.pseudoAddr = t.ble.pseudoAddr := by
  have hresolved (cur : DevRec) (qs : List DevRec) (hcur : cur.ble.pseudoAddr = t.ble.pseudoAddr) :
      (resolved cipher cur qs).ble.pseudoAddr = t.ble.pseudoAddr := by
    induction qs generalizing cur with
    | nil => exact hcur
    | cons q qs ih =>
      refine ih _ ?_
      show (visitOther cipher cur q).1.ble.pseudoAddr = _
      rcases visitOther_cases cipher cur q with ⟨hvisit, -⟩ | ⟨-, hunder, hvisit⟩
      · rw [hvisit]
        exact hcur
      · rw [hvisit]
        show (BleAddrInfo.setAddressType _ _).pseudoAddr = _
        rw [setAddressType_pseudoAddr]
        rw [hcur] at hunder
        exact (hunder.resolve_left hpseudo).symm
  rw [merged_eq]
  exact hresolved _ _ (by rw [mergedWith_ble])

theorem merged_frame (cipher : Octet16 → Octet16 → Octet16) (t : DevRec) (ps : List DevRec) :
    (merged cipher t ps).bdAddr = t.bdAddr ∧
      (merged cipher t ps).secRec.bleKeys = t.secRec.bleKeys := by
  rw [merged_eq]
  obtain ⟨hbd, hsec, -⟩ := resolved_frame cipher (mergedWith t (lastDuplicate t ps))
    (afterDuplicates t ps)
  rw [hbd, hsec, mergedWith_bdAddr, mergedWith_bleKeys]
  exact ⟨rfl, rfl⟩

/-- A record that a target with a pseudo address takes away is a duplicate. -/
theorem isDuplicate_of_visit (hpseudo : t.ble.pseudoAddr ≠ kEmpty) {ps : List DevRec}
    (hgone : (visit cipher t (merged cipher t ps) p).2 = false) : isDuplicate cipher t p =
      true := by
  obtain ⟨hbd, hkeys⟩ := merged_frame cipher t ps
  rw [visit, hbd] at hgone
  rw [isDuplicate]
  split at hgone
  next hp => rw [decide_eq_true hp, Bool.true_or]
  · rcases visitOther_cases cipher (merged cipher t ps) p with ⟨hvisit, -⟩ | ⟨hresolvable, hunder,
      -⟩
    · rw [hvisit] at hgone
      cases hgone
    · have hresolves := ((addrResolvable_iff _ _).mp hresolvable).2
      rw [resolvesWith, hkeys, ← resolvesWith] at hresolves
      rw [merged_pseudoAddr hpseudo] at hunder
      rw [hresolves, decide_eq_true (hunder.resolve_left hpseudo), Bool.and_self, Bool.or_true]

/-- Without a pseudo address only a record of the same address is a duplicate. -/
theorem isDuplicate_iff (hempty : t.ble.pseudoAddr = kEmpty) :
    isDuplicate cipher t p = true ↔ p.bdAddr = t.bdAddr := by
  rw [isDuplicate, Bool.or_eq_true, Bool.and_eq_true, decide_eq_true_eq, decide_eq_true_eq,
    or_iff_left]
  rintro ⟨hresolves, haddr⟩
  exact ne_kEmpty_of_resolves hresolves (haddr.symm.trans hempty)

/-- A target without a pseudo address leaves a record alone exactly if it does not resolve it. -/
theorem visitOther_snd_iff (hempty : t.ble.pseudoAddr = kEmpty) :
    (visitOther cipher t p).2 = true ↔ addrResolvable cipher p.bdAddr t = false := by
  rcases visitOther_cases cipher t p with ⟨hvisit, hnot⟩ | ⟨hresolvable, -, hvisit⟩
  · rw [hvisit]
    exact iff_of_true rfl (hnot.resolve_right fun hne => hne.1 hempty)
  · rw [hvisit, hresolvable]
    exact iff_of_false Bool.false_ne_true Bool.false_ne_true.symm

theorem addrResolvable_mergedWith_iff (addr : RawAddress) (d : Option DevRec) :
    addrResolvable cipher addr (mergedWith t d) = false ↔
      (Resolving (mergedWith t d) → resolvesWith cipher t addr = false) := by
  rw [Bool.eq_false_iff, Ne, addrResolvable_iff, resolvesWith, mergedWith_bleKeys, ← resolvesWith,
    not_and, Bool.not_eq_true]

/-- A target that takes away no record of another address is as its last duplicate leaves it. -/
theorem merged_of_kept {ps : List DevRec}
    (hkept : ∀ pre p, pre ++ [p] <+: ps → p.bdAddr ≠ t.bdAddr →
      (visit cipher t (merged cipher t pre) p).2 = true) :
    merged cipher t ps = mergedWith t (lastDuplicate t ps) := by
  induction ps using List.reverseRecOn with
  | nil => rfl
  | append_singleton ps p ih =>
    have hps := ih fun pre q hpre => hkept pre q (hpre.trans (List.prefix_append ps [p]))
    have hbd := (merged_frame cipher t ps).1
    have hconcat : merged cipher t (ps ++ [p]) = (visit cipher t (merged cipher t ps) p).1 :=
      List.foldl_concat _ _ _ _
    rw [hconcat, lastDuplicate_concat, visit, hbd]
    by_cases hp : p.bdAddr = t.bdAddr
    · rw [if_pos hp, if_pos hp]
      rfl
    · have hstays := hkept ps p List.prefix_rfl hp
      rw [visit, hbd, if_neg hp] at hstays
      rw [if_neg hp, if_neg hp]
      rcases visitOther_cases cipher (merged cipher t ps) p with ⟨hvisit, -⟩ | ⟨-, -, hvisit⟩
      · rw [hvisit, hps]
      · rw [hvisit] at hstays
        cases hstays

/-- Such a target loses no record exactly if it resolves none. -/
theorem kept_iff_noneResolves (hempty : t.ble.pseudoAddr = kEmpty) (ps : List DevRec) :
    (∀ pre p, pre ++ [p] <+: ps → p.bdAddr ≠ t.bdAddr →
      (visit cipher t (merged cipher t pre) p).2 = true) ↔ NoneResolves cipher t ps := by
  have hround {pre : List DevRec} {p : DevRec} (hp : p.bdAddr ≠ t.bdAddr)
      (hmerged : merged cipher t pre = mergedWith t (lastDuplicate t pre)) :
      (visit cipher t (merged cipher t pre) p).2 = true ↔
        (Resolving (mergedWith t (lastDuplicate t pre)) →
          resolvesWith cipher t p.bdAddr = false) := by
    rw [visit, if_neg (by rw [(merged_frame cipher t pre).1]; exact hp), hmerged,
      visitOther_snd_iff (by rw [mergedWith_ble]; exact hempty), addrResolvable_mergedWith_iff]
  constructor
  · intro hkept pre p hpre hp
    refine (hround hp (merged_of_kept fun pre' q hpre' => ?_)).mp (hkept pre p hpre hp)
    exact hkept pre' q (hpre'.trans ((List.prefix_append pre [p]).trans hpre))
  · -- the records before one are kept, so that the target is as its duplicates leave it
    intro hnone
    induction ps using List.reverseRecOn with
    | nil =>
      intro pre p hpre
      simp at hpre
    | append_singleton ps q ih =>
      have hps := ih fun pre p hpre => hnone pre p (hpre.trans (List.prefix_append ps [q]))
      intro pre p hpre hp
      rcases List.prefix_concat_iff.mp hpre with heq | hpre'
      · obtain ⟨rfl, hpq⟩ := List.append_inj' heq rfl
        exact (hround hp (merged_of_kept hps)).mpr (hnone pre p hpre hp)
      · exact hps pre p hpre' hp

/-! ### The merge -/

/-- The records with the target's address. -/
def duplicates (t : DevRec) (ps : List DevRec) : List DevRec :=
  ps.filter fun p => p.bdAddr = t.bdAddr

/-- The records after `btm_consolidate_dev` on a list: no other record has the target's address, the
target has its own LE keys, LE address data and LE handle, a known link key is that of a merged
record that had one and was as authenticated, and the records that are no duplicates are there. -/
structure Consolidated (cipher : Octet16 → Octet16 → Octet16) (before : List DevRec)
    (target : DevRec)
    (after : List DevRec) (result : DevRec × List DevRec × List DevRec) : Prop where
  alone : ∀ p ∈ result.2.1 ++ result.2.2, p.bdAddr ≠ result.1.bdAddr
  leKeys : result.1.secRec.bleKeys = target.secRec.bleKeys
  leAddress : result.1.ble = target.ble
  leHandle : result.1.bleHciHandle = target.bleHciHandle
  linkKey : result.1.secRec.isLinkKeyKnown = true →
    ∃ p ∈ target :: duplicates target (before ++ after), p.secRec.isLinkKeyKnown = true ∧
      p.secRec.linkKey = result.1.secRec.linkKey ∧ p.secRec.linkKeyType =
        result.1.secRec.linkKeyType ∧
      (result.1.secRec.isLinkKeyAuthenticated = true → p.secRec.isLinkKeyAuthenticated = true)
  others : ((before ++ after).filter fun p => !isDuplicate cipher target p).Sublist
    (result.2.1 ++ result.2.2)
  noneNew : (result.2.1 ++ result.2.2).Sublist (before ++ after)

/-- If the last duplicate or the target has a link key, then a merged record with a link key has the
one of the last duplicate, and is authenticated if one of those two is. -/
def KeepsLinkKey (t : DevRec) (ps : List DevRec) : Prop :=
  ∀ d, lastDuplicate t ps = some d →
    (d.secRec.isLinkKeyKnown || t.secRec.isLinkKeyKnown) = true →
    ∃ p ∈ t :: duplicates t ps, p.secRec.isLinkKeyKnown = true ∧
      p.secRec.linkKey = d.secRec.linkKey ∧ p.secRec.linkKeyType = d.secRec.linkKeyType ∧
      ((d.secRec.isLinkKeyAuthenticated || t.secRec.isLinkKeyAuthenticated) = true →
        p.secRec.isLinkKeyAuthenticated = true)

/-- The LE address data and the other records are kept. -/
theorem kept_address_iff (cipher : Octet16 → Octet16 → Octet16) (t : DevRec) (ps : List DevRec) :
    ((ps.filter fun p => !isDuplicate cipher t p).Sublist (consolidateLoop cipher t t ps).2 ∧
        (merged cipher t ps).ble = t.ble) ↔
      if t.ble.pseudoAddr = kEmpty then NoneResolves cipher t ps
      else KeepsAddressType cipher (mergedWith t (lastDuplicate t ps)) (afterDuplicates t ps) := by
  rw [filter_sublist_consolidateLoop]
  split
  next hempty =>
    simp only [Bool.not_eq_true', Bool.eq_false_iff, Ne, isDuplicate_iff hempty]
    rw [← kept_iff_noneResolves hempty]
    refine ⟨And.left, fun hkept => ⟨hkept, ?_⟩⟩
    rw [merged_of_kept hkept, mergedWith_ble]
  next hpseudo =>
    rw [and_iff_right]
    · rw [← resolved_ble_iff (by rw [mergedWith_ble]; exact hpseudo), ← merged_eq, mergedWith_ble]
    · intro pre p _ hp
      by_contra hgone
      rw [isDuplicate_of_visit hpseudo (Bool.eq_false_iff.mpr hgone)] at hp
      cases hp

/-- The merge is right if and only if the last duplicate brings the right link key, and the target
resolves no record if it has no pseudo address, and only records that leave its address type if it
has one. -/
theorem consolidated_iff (cipher : Octet16 → Octet16 → Octet16) (before : List DevRec)
    (target : DevRec) (after : List DevRec) :
    Consolidated cipher before target after (btmConsolidateDev cipher before target after) ↔
      KeepsLinkKey target (before ++ after) ∧
        if target.ble.pseudoAddr = kEmpty then NoneResolves cipher target (before ++ after)
        else KeepsAddressType cipher
          (mergedWith target (lastDuplicate target (before ++ after)))
          (afterDuplicates target (before ++ after)) := by
  obtain ⟨hfst, hsnd⟩ := btmConsolidateDev_eq cipher before target after
  obtain ⟨hbd, hsec, hhandle⟩ := resolved_frame cipher
    (mergedWith target (lastDuplicate target (before ++ after)))
    (afterDuplicates target (before ++ after))
  rw [← merged_eq, ← hfst] at hbd hsec hhandle
  rw [mergedWith_bdAddr] at hbd
  rw [← kept_address_iff, ← hfst, ← hsnd]
  constructor
  · intro h
    refine ⟨fun d hd hknown => ?_, h.others, h.leAddress⟩
    rw [hd] at hsec
    have hlinkKey := h.linkKey
    rw [hsec] at hlinkKey
    rw [← mergeSameAddress_known] at hknown
    rw [← mergeSameAddress_authenticated]
    exact hlinkKey hknown
  · rintro ⟨hkey, hothers, hble⟩
    refine ⟨?_, ?_, hble, ?_, ?_, hothers, ?_⟩
    · rw [hsnd, hbd]
      exact consolidateLoop_bdAddr_ne cipher _ rfl
    · rw [hsec, mergedWith_bleKeys]
    · rw [hhandle, mergedWith_bleHciHandle]
    · rw [hsec]
      -- the link key is that of the last duplicate, if there is one
      cases hd : lastDuplicate target (before ++ after) with
      | none => exact fun hknown => ⟨target, List.mem_cons_self, hknown, rfl, rfl, id⟩
      | some d =>
        intro hknown
        have hauthenticated := mergeSameAddress_authenticated target d
        have hknown : (mergeSameAddress target d).secRec.isLinkKeyKnown = true := hknown
        rw [mergeSameAddress_known] at hknown
        obtain ⟨p, hp, hpknown, hpkey, hptype, hpauth⟩ := hkey d hd hknown
        exact ⟨p, hp, hpknown, hpkey, hptype, fun h => hpauth (hauthenticated ▸ h)⟩
    · rw [hsnd]
      exact consolidateLoop_sublist cipher target target _

/-- A target with a link key, and its duplicate without one. -/
def keyed : DevRec where
  bdAddr := #v[1, 2, 3, 4, 5, 6]
  secRec := { secFlags := 0x0030, linkKey := Vector.replicate 16 7, linkKeyType := 5 }

/-- A record of the same address without a link key. -/
def unkeyed : DevRec where
  bdAddr := #v[1, 2, 3, 4, 5, 6]

/-- The target's link key is lost, and the one of the duplicate, all zeros, counts as known. -/
theorem link_key_lost :
    ¬ Consolidated (fun _ block => block) [] keyed [unkeyed]
      (btmConsolidateDev (fun _ block => block) [] keyed [unkeyed]) := by
  intro h
  obtain ⟨p, hp, hknown, hkey, -⟩ := h.linkKey (by decide)
  have hmem : p = keyed ∨ p = unkeyed := by
    simpa [duplicates, keyed, unkeyed] using hp
  rcases hmem with rfl | rfl
  · exact absurd hkey (by decide)
  · exact absurd hknown (by decide)

end

end BluetoothStack.SecDev
