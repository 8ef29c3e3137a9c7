import Mathlib.Tactic
import BluetoothStack.Gatt.Browse

/-!
# BluetoothStack.Gatt.WritePermission

The permission check of a write (`gatts_write_attr_perm_check` in `gatt_db.cc`).

The permissions of an attribute are the bits of a sixteen-bit number. A mask of the source is the
list of its bits here, and a test of a mask asks for any of them. `accepted_iff` says once when a
write is accepted; nothing behind it unfolds the check again.
-/

namespace BluetoothStack.Gatt

/-! ### Permissions -/

namespace Perm

def write : Nat := 4
def writeEncrypted : Nat := 5
def writeEncMitm : Nat := 6
def writeSigned : Nat := 7
def writeSignedMitm : Nat := 8

/-- `GATT_WRITE_ALLOWED`. -/
def writeAllowed : List Nat := [write, writeEncrypted, writeEncMitm, writeSigned, writeSignedMitm]

/-- `GATT_WRITE_AUTH_REQUIRED`. -/
def writeAuthRequired : List Nat := [writeEncrypted, writeSigned]

/-- `GATT_WRITE_MITM_REQUIRED`. -/
def writeMitmRequired : List Nat := [writeEncMitm, writeSignedMitm]

/-- `GATT_WRITE_ENCRYPTED_PERM`. -/
def writeEncryptedPerm : List Nat := [writeEncrypted, writeEncMitm]

/-- `GATT_WRITE_SIGNED_PERM`. -/
def writeSignedPerm : List Nat := [writeSigned, writeSignedMitm]

/-- Some bit of the mask is set. -/
def has (perm : Nat) (mask : List Nat) : Bool := mask.any perm.testBit

/-- The key size of `GATT_ENCRYPT_KEY_SIZE_MASK`: nothing, or seven and more. -/
def minKeySize (perm : Nat) : Nat :=
  let n := perm / 2 ^ 12 % 16
  if n ≠ 0 then n + 6 else n

/-- The rules for mixed security: the permissions that count for a plain write to an attribute that
also has a signed permission. -/
def mixedSecurity (opCode perm : Nat) : Nat :=
  if (opCode = Op.cmdWrite ∨ opCode = Op.reqWrite) ∧ has perm writeSignedPerm then
    if perm.testBit writeSigned ∧ perm.testBit writeEncrypted then 2 ^ writeEncrypted
    else if (perm.testBit writeSignedMitm ∧ perm.testBit writeEncrypted) ∨
        (has perm writeSignedPerm ∧ perm.testBit writeEncMitm) then 2 ^ writeEncMitm
    else perm
  else perm

end Perm

/-- `tGATT_SEC_FLAG`, as far as a write reads it. -/
structure SecFlag where
  isLinkKeyKnown : Bool
  isLinkKeyAuthed : Bool
  isEncrypted : Bool
deriving DecidableEq, Repr

/-! ### The check -/

/-- `find_attr_by_handle`: the attributes are in the order of their handles. -/
def findAttrByHandle : List Attr → Nat → Option Attr
  | [], _ => none
  | a :: as, handle =>
    if a.handle = handle then some a
    else if a.handle > handle then none
    else findAttrByHandle as handle

/-- The descriptors that can be read only: presentation format, extended properties, aggregate
format and valid range. -/
def readableOnly : List Nat := [0x2904, 0x2900, 0x2905, 0x2906]

/-- A client or server characteristic configuration. -/
def isConfig (uuid : Uuid) : Bool :=
  uuid.is16Bit && (uuid.as16Bit == 0x2902 || uuid.as16Bit == 0x2903)

/-- A write, apart from the attribute. -/
structure WriteReq where
  opCode : Nat
  offset : Nat
  /-- `p_data` is not `NULL`. -/
  hasData : Bool
  len : Nat
deriving DecidableEq, Repr

/-- What the type of a writable attribute makes of the write. -/
def writeFormat (uuid : Uuid) (w : WriteReq) : Status :=
  if w.hasData = false ∧ w.len > 0 then .invalidPdu
  else if isConfig uuid then
    if w.opCode = Op.reqPrepareWrite ∧ w.offset ≠ 0 then .notLong
    else if w.len ≠ 2 then .invalidAttrLen
    else .success
  else if uuid = .kEmpty then .invalidPdu
  else if uuid.is16Bit ∧ uuid.as16Bit ∈ readableOnly then .writeNotPermit
  else .success

/-- The check for one attribute. What the source sets for a signed write without a signed permission
is set again by each branch of the chain behind it. -/
def writePermCheck (uuid : Uuid) (permission : Nat) (w : WriteReq) (sec : SecFlag) (keySize : Nat) :
    Status :=
  let perm := Perm.mixedSecurity w.opCode permission
  if w.opCode = Op.signCmdWrite ∧ sec.isEncrypted then .invalidPdu
  else if ¬ Perm.has perm Perm.writeAllowed then .writeNotPermit
  else if Perm.has perm Perm.writeAuthRequired ∧ ¬ sec.isLinkKeyKnown then .insufAuthentication
  else if Perm.has perm Perm.writeMitmRequired ∧ ¬ sec.isLinkKeyAuthed then .insufAuthentication
  else if Perm.has perm Perm.writeEncryptedPerm ∧ ¬ sec.isEncrypted then .insufEncryption
  else if Perm.has perm Perm.writeEncryptedPerm ∧ sec.isEncrypted ∧
      keySize < Perm.minKeySize permission then .insufKeySize
  else if Perm.has perm Perm.writeSignedPerm ∧ w.opCode ≠ Op.signCmdWrite ∧ ¬ sec.isEncrypted ∧
      ¬ Perm.has perm Perm.writeAllowed then .insufAuthentication
  else writeFormat uuid w

/-- `gatts_write_attr_perm_check`. -/
def gattsWriteAttrPermCheck (attrs : List Attr) (handle : Nat) (w : WriteReq) (sec : SecFlag)
    (keySize : Nat) : Status :=
  match findAttrByHandle attrs handle with
  | none => .notFound
  | some a => writePermCheck a.uuid a.permission w sec keySize

/-! ### What is accepted -/

section Accepted

variable {uuid : Uuid} {permission : Nat} {w : WriteReq} {sec : SecFlag} {keySize : Nat}

/-- The permissions that count are granted by the link. -/
structure Granted (perm keyMin : Nat) (sec : SecFlag) (keySize : Nat) : Prop where
  allowed : Perm.has perm Perm.writeAllowed
  known : Perm.has perm Perm.writeAuthRequired → sec.isLinkKeyKnown
  authed : Perm.has perm Perm.writeMitmRequired → sec.isLinkKeyAuthed
  encrypted : Perm.has perm Perm.writeEncryptedPerm → sec.isEncrypted ∧ keyMin ≤ keySize

theorem accepted_iff : writePermCheck uuid permission w sec keySize = .success ↔
    (w.opCode = Op.signCmdWrite → ¬ sec.isEncrypted) ∧
    Granted (Perm.mixedSecurity w.opCode permission) (Perm.minKeySize permission) sec keySize ∧
    writeFormat uuid w = .success := by
  constructor
  · intro h
    simp only [writePermCheck] at h
    split_ifs at h with hsign hallowed hauth hmitm henc hkey hdead
    refine ⟨fun hop henc => hsign ⟨hop, henc⟩, ⟨hallowed, ?_, ?_, ?_⟩, h⟩
    · exact fun hp => by_contra fun hk => hauth ⟨hp, hk⟩
    · exact fun hp => by_contra fun hk => hmitm ⟨hp, hk⟩
    · intro hp
      have hencrypted : sec.isEncrypted := by_contra fun hk => henc ⟨hp, hk⟩
      exact ⟨hencrypted, by_contra fun hk => hkey ⟨hp, hencrypted, not_le.mp hk⟩⟩
  · rintro ⟨hsign, hg, hformat⟩
    rw [writePermCheck, if_neg (fun h => hsign h.1 h.2), if_neg (not_not.mpr hg.allowed),
      if_neg (fun h => h.2 (hg.known h.1)), if_neg (fun h => h.2 (hg.authed h.1)),
      if_neg (fun h => h.2 (hg.encrypted h.1).1),
      if_neg (fun h => absurd (hg.encrypted h.1).2 (not_le.mpr h.2.2)),
      if_neg (fun h => h.2.2.2 hg.allowed)]
    exact hformat

/-- The data of a write fit the type of the attribute. -/
structure Formatted (uuid : Uuid) (w : WriteReq) : Prop where
  data : w.hasData ∨ w.len = 0
  config : isConfig uuid → w.len = 2 ∧ (w.opCode = Op.reqPrepareWrite → w.offset = 0)
  other : ¬ isConfig uuid → uuid ≠ .kEmpty ∧ ¬ (uuid.is16Bit ∧ uuid.as16Bit ∈ readableOnly)

theorem data_of_not (h : ¬ (w.hasData = false ∧ w.len > 0)) : w.hasData ∨ w.len = 0 := by
  rcases Bool.eq_false_or_eq_true w.hasData with htrue | hfalse
  · exact .inl htrue
  · exact .inr (Nat.eq_zero_of_not_pos fun hpos => h ⟨hfalse, hpos⟩)

theorem writeFormat_eq_success : writeFormat uuid w = .success ↔ Formatted uuid w := by
  constructor
  · intro h
    rw [writeFormat] at h
    split_ifs at h with hdata hconfig hlong hlen hempty hreadable
    · exact ⟨data_of_not hdata, fun _ => ⟨not_not.mp hlen, fun hop => not_not.mp fun hne =>
        hlong ⟨hop, hne⟩⟩, fun hnot => absurd hconfig hnot⟩
    · exact ⟨data_of_not hdata, fun hyes => absurd hyes hconfig, fun _ => ⟨hempty, hreadable⟩⟩
  · intro h
    have hdata : ¬ (w.hasData = false ∧ w.len > 0) := by
      rintro ⟨hfalse, hpos⟩
      rcases h.data with htrue | hzero
      · exact Bool.false_ne_true (hfalse.symm.trans htrue)
      · omega
    rw [writeFormat, if_neg hdata]
    by_cases hconfig : isConfig uuid = true
    · obtain ⟨hlen, hlong⟩ := h.config hconfig
      rw [if_pos hconfig, if_neg (fun hbad => hbad.2 (hlong hbad.1)), if_neg (not_not.mpr hlen)]
    · obtain ⟨hempty, hreadable⟩ := h.other hconfig
      rw [if_neg hconfig, if_neg hempty, if_neg hreadable]

end Accepted

/-! ### Soundness -/

/-- A write command or a write request. -/
def PlainWrite (opCode : Nat) : Prop := opCode = Op.cmdWrite ∨ opCode = Op.reqWrite

/-- Plain writes to an attribute with these bits need an encrypted link only, whatever else is set.
-/
def EncryptedOverSigned (perm : Nat) : Prop :=
  perm.testBit Perm.writeSigned ∧ perm.testBit Perm.writeEncrypted

section Mixed

variable (opCode perm : Nat)

theorem mixedSecurity_cases : Perm.mixedSecurity opCode perm = perm ∨
    (PlainWrite opCode ∧ EncryptedOverSigned perm ∧
      Perm.mixedSecurity opCode perm = 2 ^ Perm.writeEncrypted) ∨
    (Perm.has perm Perm.writeEncryptedPerm ∧
      Perm.mixedSecurity opCode perm = 2 ^ Perm.writeEncMitm) := by
  rw [Perm.mixedSecurity]
  split_ifs with hplain hboth hmitm
  · exact .inr (.inl ⟨hplain.1, hboth, rfl⟩)
  · refine .inr (.inr ⟨?_, rfl⟩)
    obtain ⟨-, henc⟩ | ⟨-, henc⟩ := hmitm
    · simp [Perm.has, Perm.writeEncryptedPerm, henc]
    · simp [Perm.has, Perm.writeEncryptedPerm, henc]
  · exact .inl rfl
  · exact .inl rfl

variable {opCode perm}

/-- Every encrypted permission allows to write. -/
theorem allowed_of_encrypted (h : Perm.has perm Perm.writeEncryptedPerm) :
    Perm.has perm Perm.writeAllowed := by
  rw [Perm.has, List.any_eq_true] at h ⊢
  obtain ⟨bit, hbit, hset⟩ := h
  refine ⟨bit, ?_, hset⟩
  simp only [Perm.writeEncryptedPerm, Perm.writeAllowed, List.mem_cons] at hbit ⊢
  tauto

theorem encrypted_of_both (h : EncryptedOverSigned perm) :
    Perm.has perm Perm.writeEncryptedPerm := by
  simp [Perm.has, Perm.writeEncryptedPerm, h.2]

theorem allowed_of_mixed (h : Perm.has (Perm.mixedSecurity opCode perm) Perm.writeAllowed) :
    Perm.has perm Perm.writeAllowed := by
  obtain hsame | ⟨-, hboth, -⟩ | ⟨henc, -⟩ := mixedSecurity_cases opCode perm
  · rwa [hsame] at h
  · exact allowed_of_encrypted (encrypted_of_both hboth)
  · exact allowed_of_encrypted henc

/-- The rules for mixed security keep the need for an encrypted link. -/
theorem encrypted_mixed (h : Perm.has perm Perm.writeEncryptedPerm) :
    Perm.has (Perm.mixedSecurity opCode perm) Perm.writeEncryptedPerm := by
  obtain hsame | ⟨-, -, heq⟩ | ⟨-, heq⟩ := mixedSecurity_cases opCode perm
  · rwa [hsame]
  · rw [heq]
    decide
  · rw [heq]
    decide

/-- They drop the need for an authenticated key in one case only. -/
theorem mitm_mixed (opCode : Nat) (h : Perm.has perm Perm.writeMitmRequired) :
    Perm.has (Perm.mixedSecurity opCode perm) Perm.writeMitmRequired ∨
      PlainWrite opCode ∧ EncryptedOverSigned perm := by
  obtain hsame | ⟨hplain, hboth, -⟩ | ⟨-, heq⟩ := mixedSecurity_cases opCode perm
  · rw [hsame]
    exact .inl h
  · exact .inr ⟨hplain, hboth⟩
  · rw [heq]
    exact .inl (by decide)

end Mixed

/-- What the permissions of an attribute demand of a write to it. -/
structure Guarded (a : Attr) (w : WriteReq) (sec : SecFlag) (keySize : Nat) : Prop where
  allowed : Perm.has a.permission Perm.writeAllowed
  signed : w.opCode = Op.signCmdWrite →
    ¬ sec.isEncrypted ∧ Perm.has a.permission Perm.writeSignedPerm
  encrypted : Perm.has a.permission Perm.writeEncryptedPerm →
    sec.isEncrypted ∧ Perm.minKeySize a.permission ≤ keySize
  mitm : Perm.has a.permission Perm.writeMitmRequired → sec.isLinkKeyAuthed
  config : isConfig a.uuid → w.len = 2 ∧ w.offset = 0

/-- A write that is accepted meets what the permissions demand. -/
def WriteSound (attrs : List Attr) (handle : Nat) (w : WriteReq) (sec : SecFlag) (keySize : Nat) :
    Prop :=
  gattsWriteAttrPermCheck attrs handle w sec keySize = .success →
    ∃ a, findAttrByHandle attrs handle = some a ∧ Guarded a w sec keySize

/-- The writes that are let through although the permissions forbid them, by opcode, permissions,
link security and data. -/
inductive Misjudged (a : Attr) (w : WriteReq) (sec : SecFlag) (keySize : Nat) : Prop where
  /-- A signed write to an attribute that can only be written in the clear. -/
  | signed (hop : w.opCode = Op.signCmdWrite) (hlink : ¬ sec.isEncrypted)
      (hwrite : a.permission.testBit Perm.write)
      (honly : ¬ Perm.has a.permission (Perm.writeEncryptedPerm ++ Perm.writeSignedPerm))
      (hformat : Formatted a.uuid w)
  /-- A plain write over a key that is not authenticated, where it may be signed or encrypted. -/
  | mitm (hop : PlainWrite w.opCode) (hboth : EncryptedOverSigned a.permission)
      (hmitm : Perm.has a.permission Perm.writeMitmRequired) (hkey : ¬ sec.isLinkKeyAuthed)
      (hknown : sec.isLinkKeyKnown) (hlink : sec.isEncrypted)
      (hsize : Perm.minKeySize a.permission ≤ keySize) (hformat : Formatted a.uuid w)
  /-- A part of a configuration, unless it is prepared. -/
  | config (hconfig : isConfig a.uuid) (hoffset : w.offset ≠ 0)
      (hop : w.opCode ≠ Op.reqPrepareWrite)
      (hdata : w.hasData) (hlen : w.len = 2)
      (hsigned : w.opCode = Op.signCmdWrite → ¬ sec.isEncrypted)
      (hgranted : Granted (Perm.mixedSecurity w.opCode a.permission) (Perm.minKeySize a.permission)
        sec keySize)

variable {a : Attr} {w : WriteReq} {sec : SecFlag} {keySize : Nat}

theorem mixedSecurity_of_not_plain {opCode : Nat} (h : ¬ PlainWrite opCode) (perm : Nat) :
    Perm.mixedSecurity opCode perm = perm :=
  if_neg fun hplain => h hplain.1

theorem not_plain_signed : ¬ PlainWrite Op.signCmdWrite := by
  rintro (h | h)
  · exact absurd h (by decide)
  · exact absurd h (by decide)

theorem mixedSecurity_of_both {opCode perm : Nat} (hplain : PlainWrite opCode)
    (hboth : EncryptedOverSigned perm) :
    Perm.mixedSecurity opCode perm = 2 ^ Perm.writeEncrypted := by
  have hsigned : Perm.has perm Perm.writeSignedPerm := by
    simp [Perm.has, Perm.writeSignedPerm, hboth.1]
  rw [Perm.mixedSecurity, if_pos ⟨hplain, hsigned⟩]
  exact if_pos hboth

theorem not_has_of_subset {perm : Nat} {mask mask' : List Nat} (hsub : mask ⊆ mask')
    (h : ¬ Perm.has perm mask') : ¬ Perm.has perm mask := by
  intro hhas
  rw [Perm.has, List.any_eq_true] at hhas
  obtain ⟨bit, hbit, hset⟩ := hhas
  exact h (List.any_eq_true.mpr ⟨bit, hsub hbit, hset⟩)

theorem Misjudged.accepted (h : Misjudged a w sec keySize) :
    writePermCheck a.uuid a.permission w sec keySize = .success := by
  refine accepted_iff.mpr ?_
  rw [writeFormat_eq_success]
  cases h with
  | signed hop hlink hwrite honly hformat =>
    have hnone : ∀ {mask : List Nat}, mask ⊆ Perm.writeEncryptedPerm ++ Perm.writeSignedPerm →
        ¬ Perm.has a.permission mask := fun hsub => not_has_of_subset hsub honly
    rw [mixedSecurity_of_not_plain (hop ▸ not_plain_signed)]
    refine ⟨fun _ => hlink, ⟨?_, ?_, ?_, ?_⟩, hformat⟩
    · simp [Perm.has, Perm.writeAllowed, hwrite]
    · exact fun hauth => absurd hauth (hnone (by decide))
    · exact fun hmitm => absurd hmitm (hnone (by decide))
    · exact fun henc => absurd henc (hnone (by decide))
  | mitm hop hboth hmitm hkey hknown hlink hsize hformat =>
    rw [mixedSecurity_of_both hop hboth]
    refine ⟨fun hsign => absurd (hsign ▸ hop) not_plain_signed, ⟨by decide, fun _ => hknown, ?_,
      fun _ => ⟨hlink, hsize⟩⟩, hformat⟩
    exact fun hmitm => absurd hmitm (by decide)
  | config hconfig hoffset hop hdata hlen hsigned hgranted =>
    exact ⟨hsigned, hgranted, .inl hdata, fun _ => ⟨hlen, fun hprepare => absurd hprepare hop⟩,
      fun hnot => absurd hconfig hnot⟩

theorem Misjudged.not_guarded (h : Misjudged a w sec keySize) : ¬ Guarded a w sec keySize := by
  intro hg
  cases h with
  | signed hop hlink hwrite honly hformat =>
    exact not_has_of_subset (List.subset_append_right _ _) honly (hg.signed hop).2
  | mitm hop hboth hmitm hkey hknown hlink hsize hformat => exact hkey (hg.mitm hmitm)
  | config hconfig hoffset hop hdata hlen hsigned hgranted => exact hoffset (hg.config hconfig).2

/-- A signed write that is accepted finds a signed permission, or one to write in the clear only. -/
theorem signed_or_misjudged (hop : w.opCode = Op.signCmdWrite) (hlink : ¬ sec.isEncrypted)
    (hg : Granted (Perm.mixedSecurity w.opCode a.permission) (Perm.minKeySize a.permission) sec
      keySize) (hformat : Formatted a.uuid w) :
    Perm.has a.permission Perm.writeSignedPerm ∨ Misjudged a w sec keySize := by
  rw [mixedSecurity_of_not_plain (hop ▸ not_plain_signed)] at hg
  by_cases hsigned : Perm.has a.permission Perm.writeSignedPerm
  · exact .inl hsigned
  have henc : ¬ Perm.has a.permission Perm.writeEncryptedPerm :=
    fun henc => hlink (hg.encrypted henc).1
  have honly : ¬ Perm.has a.permission (Perm.writeEncryptedPerm ++ Perm.writeSignedPerm) := by
    rw [Perm.has, List.any_append, Bool.or_eq_true]
    exact fun h => h.elim henc hsigned
  refine .inr (.signed hop hlink ?_ honly hformat)
  -- of the bits that allow to write, only the plain one is left
  have hallowed : a.permission.testBit Perm.write = true ∨
      Perm.has a.permission (Perm.writeEncryptedPerm ++ Perm.writeSignedPerm) := by
    have := hg.allowed
    rwa [Perm.has, show Perm.writeAllowed =
      Perm.write :: (Perm.writeEncryptedPerm ++ Perm.writeSignedPerm) from rfl, List.any_cons,
      Bool.or_eq_true] at this
  exact hallowed.resolve_right honly

theorem guarded_or_misjudged (h : writePermCheck a.uuid a.permission w sec keySize = .success) :
    Guarded a w sec keySize ∨ Misjudged a w sec keySize := by
  obtain ⟨hsign, hg, hformat⟩ := accepted_iff.mp h
  rw [writeFormat_eq_success] at hformat
  by_cases hmis : Misjudged a w sec keySize
  · exact .inr hmis
  refine .inl ⟨allowed_of_mixed hg.allowed, fun hop => ⟨hsign hop, ?_⟩,
    fun henc => hg.encrypted (encrypted_mixed henc), fun hmitm => ?_, fun hconfig => ?_⟩
  · exact (signed_or_misjudged hop (hsign hop) hg hformat).resolve_right hmis
  · obtain hmixed | ⟨hplain, hboth⟩ := mitm_mixed w.opCode hmitm
    · exact hg.authed hmixed
    · by_contra hkey
      rw [mixedSecurity_of_both hplain hboth] at hg
      obtain ⟨hlink, hsize⟩ := hg.encrypted (by decide)
      exact hmis (.mitm hplain hboth hmitm hkey (hg.known (by decide)) hlink hsize hformat)
  · obtain ⟨hlen, hprepare⟩ := hformat.config hconfig
    refine ⟨hlen, by_contra fun hoffset => hmis ?_⟩
    exact .config hconfig hoffset (fun hop => hoffset (hprepare hop))
      (hformat.data.resolve_right (by omega)) hlen hsign hg

/-- The check is sound exactly for the writes that it does not misjudge. -/
theorem write_sound_iff (attrs : List Attr) (handle : Nat) (w : WriteReq) (sec : SecFlag)
    (keySize : Nat) :
    WriteSound attrs handle w sec keySize ↔
      ∀ a, findAttrByHandle attrs handle = some a → ¬ Misjudged a w sec keySize := by
  constructor
  · intro hsound a hfind hmis
    have hok : gattsWriteAttrPermCheck attrs handle w sec keySize = .success := by
      rw [gattsWriteAttrPermCheck, hfind]
      exact hmis.accepted
    obtain ⟨a', hfind', hg⟩ := hsound hok
    cases hfind.symm.trans hfind'
    exact hmis.not_guarded hg
  · intro hnone hok
    cases hfind : findAttrByHandle attrs handle with
    | none =>
      rw [gattsWriteAttrPermCheck, hfind] at hok
      cases hok
    | some a =>
      rw [gattsWriteAttrPermCheck, hfind] at hok
      exact ⟨a, rfl, (guarded_or_misjudged hok).resolve_right (hnone a hfind)⟩

/-- An attribute that can be written in the clear. -/
def plainAttr : Attr := ⟨3, .from16Bit 0x2a00, 2 ^ Perm.write, none, .characteristic⟩

/-- A signed write to an attribute without a signed permission is accepted. -/
theorem signed_write_unpermitted :
    gattsWriteAttrPermCheck [plainAttr] 3 ⟨Op.signCmdWrite, 0, true, 1⟩ ⟨false, false, false⟩ 0 =
      .success ∧
    ¬ WriteSound [plainAttr] 3 ⟨Op.signCmdWrite, 0, true, 1⟩ ⟨false, false, false⟩ 0 := by
  have hok : gattsWriteAttrPermCheck [plainAttr] 3 ⟨Op.signCmdWrite, 0, true, 1⟩
      ⟨false, false, false⟩ 0 = .success := by decide
  refine ⟨hok, fun hsound => ?_⟩
  obtain ⟨a, hfind, hg⟩ := hsound hok
  cases hfind
  exact absurd (hg.signed rfl).2 (by decide)

end BluetoothStack.Gatt
