import BluetoothStack.Lib.Reading
import BluetoothStack.Lib.Words

/-!
# BluetoothStack.LeAudio.BaseData

The parser for a received Broadcast Audio Source Endpoint (`BaseData.java`).

The announcement has three levels: the presentation delay and the subgroups, the codec and the
metadata of each subgroup, and the BISes of each subgroup. The parser checks a length before it
copies a field, but it reads the length of the metadata without looking whether there is a byte
left (`readSubgroup_outOfBounds_iff`). What it accepts is what `Base.bytes` writes
(`readBase_exact`).
-/

namespace BluetoothStack.LeAudio

open BluetoothStack.Lib

/-- `BaseBis`. -/
structure BaseBis where
  index : Int
  codecSpecificConfiguration : List UInt8
deriving DecidableEq, Repr

/-- `BaseSubgroup`. -/
structure BaseSubgroup where
  codecId : Nat
  codecSpecificConfiguration : List UInt8
  metadata : List UInt8
  bises : List BaseBis
deriving DecidableEq, Repr

/-- `Base`. -/
structure Base where
  presentationDelay : Nat
  subgroups : List BaseSubgroup
deriving DecidableEq, Repr

/-- Why there is no BASE: `null` is returned, or an index is out of bounds and it throws. -/
inductive NoBase where
  | null
  | outOfBounds
deriving DecidableEq, Repr

def minDataLength : Nat := 14
def minSubgroupDataLength : Nat := 10
def minBisDataLength : Nat := 2

/-! ### Parsing

The bytes from `offset` on are what is left to read. -/

abbrev BaseReading := Reading UInt8 NoBase

/-- `serviceData[offset++]`. -/
def nextByte : BaseReading UInt8 := Reading.next .outOfBounds

/-- `serviceData[offset++] & 0xFF` for some bytes, the low one first. -/
def nextBytes (k : Nat) : BaseReading Nat := do
  let bs ← Reading.times nextByte k
  pure (leValue bs)

/-- Return `null` if fewer bytes are left. -/
def orNull (n : Nat) : BaseReading Unit := Reading.atLeast .null n

/-- `System.arraycopy`. -/
def arraycopy (n : Nat) : BaseReading (List UInt8) := Reading.copy .outOfBounds n

/-- A byte of Java is signed. -/
def signed (b : UInt8) : Int := if b.toNat < 128 then b.toNat else b.toNat - 256

/-- A length and as many bytes. -/
def readField : BaseReading (List UInt8) := do
  let length ← nextByte
  orNull length.toNat
  arraycopy length.toNat

/-- A round of the loop over the BISes. -/
def readBis : BaseReading BaseBis := do
  orNull minBisDataLength
  let index ← nextByte
  let codecSpecificConfiguration ← readField
  pure ⟨signed index, codecSpecificConfiguration⟩

/-- A round of the loop over the subgroups. -/
def readSubgroup : BaseReading BaseSubgroup := do
  orNull minSubgroupDataLength
  let numBis ← nextByte
  let codecId ← nextBytes 5
  let codecSpecificConfiguration ← readField
  let metadata ← readField
  let bises ← Reading.times readBis numBis.toNat
  pure ⟨codecId, codecSpecificConfiguration, metadata, bises⟩

/-- The levels of the BASE. -/
def readBase : BaseReading Base := do
  let presentationDelay ← nextBytes 3
  let numSubgroups ← nextByte
  if numSubgroups.toNat < 1 then throw .null
  else
    let subgroups ← Reading.times readSubgroup numSubgroups.toNat
    pure ⟨presentationDelay, subgroups⟩

/-- `parseBaseData`. -/
def parseBaseData (serviceData : List UInt8) : Except NoBase Base :=
  if serviceData.length < minDataLength then .error .null
  else
    match readBase serviceData with
    | .error e => .error e
    | .ok (base, rest) => if rest.length ≠ 0 then .error .null else .ok base

/-! ### Writing -/

/-- A length and as many bytes. -/
def fieldBytes (bs : List UInt8) : List UInt8 := UInt8.ofNat bs.length :: bs

def BaseBis.bytes (b : BaseBis) : List UInt8 :=
  UInt8.ofNat (b.index % 256).toNat :: fieldBytes b.codecSpecificConfiguration

def BaseSubgroup.bytes (s : BaseSubgroup) : List UInt8 :=
  UInt8.ofNat s.bises.length :: (leBytes 5 s.codecId ++ (fieldBytes s.codecSpecificConfiguration ++
    (fieldBytes s.metadata ++ s.bises.flatMap BaseBis.bytes)))

/-- The BASE, level by level. -/
def Base.bytes (b : Base) : List UInt8 :=
  leBytes 3 b.presentationDelay ++
    (UInt8.ofNat b.subgroups.length :: b.subgroups.flatMap BaseSubgroup.bytes)

/-- The values have the size of their fields. -/
structure BaseBis.Fits (b : BaseBis) : Prop where
  index : -128 ≤ b.index ∧ b.index < 128
  configuration : b.codecSpecificConfiguration.length < 256

structure BaseSubgroup.Fits (s : BaseSubgroup) : Prop where
  codecId : s.codecId < 256 ^ 5
  configuration : s.codecSpecificConfiguration.length < 256
  metadata : s.metadata.length < 256
  count : s.bises.length < 256
  bises : ∀ b ∈ s.bises, b.Fits

structure Base.Fits (b : Base) : Prop where
  presentationDelay : b.presentationDelay < 256 ^ 3
  count : b.subgroups.length < 256
  subgroups : ∀ s ∈ b.subgroups, s.Fits

/-! ### The parser reads what is written -/

theorem nextByte_exact : Exact nextByte (fun b => [b]) fun _ _ => True := by
  intro xs b rest
  rw [nextByte, Reading.next_ok_iff, and_true, List.singleton_append]

theorem flatMap_singleton (bs : List UInt8) : (bs.flatMap fun b => [b]) = bs := by
  induction bs with
  | nil => rfl
  | cons b bs ih => rw [List.flatMap_cons, ih, List.singleton_append]

theorem nextBytes_exact (k : Nat) : Exact (nextBytes k) (leBytes k) fun v _ => v < 256 ^ k := by
  intro xs v rest
  rw [nextBytes, Reading.bind_ok_iff]
  constructor
  · rintro ⟨bs, ys, hread, hpure⟩
    obtain ⟨rfl, rfl⟩ := Reading.pure_ok_iff.mp hpure
    obtain ⟨rfl, rfl, -⟩ := (nextByte_exact.times k _ _ _).mp hread
    rw [flatMap_singleton, leBytes_leValue]
    exact ⟨rfl, leValue_lt bs⟩
  · rintro ⟨rfl, hv⟩
    refine ⟨leBytes k v, rest, (nextByte_exact.times k _ _ _).mpr ⟨?_, leBytes_length k v, ?_⟩, ?_⟩
    · rw [flatMap_singleton]
    · exact allInFront_of_forall fun _ _ _ => trivial
    · rw [leValue_leBytes hv]
      rfl

theorem readField_exact : Exact readField fieldBytes fun bs _ => bs.length < 256 := by
  intro xs bs rest
  simp only [readField, Reading.bind_ok_iff, nextByte, Reading.next_ok_iff, orNull,
    Reading.atLeast_ok_iff, arraycopy, Reading.copy_ok_iff]
  constructor
  · rintro ⟨length, ys, rfl, _, _, ⟨-, rfl⟩, rfl, hlength⟩
    refine ⟨?_, hlength ▸ length.toNat_lt⟩
    rw [fieldBytes, hlength, UInt8.ofNat_toNat, List.cons_append]
  · rintro ⟨rfl, hlt⟩
    have hlength : (UInt8.ofNat bs.length).toNat = bs.length := by
      rw [UInt8.toNat_ofNat', Nat.mod_eq_of_lt hlt]
    refine ⟨UInt8.ofNat bs.length, bs ++ rest, rfl, (), bs ++ rest, ⟨?_, rfl⟩, rfl, hlength.symm⟩
    rw [hlength, List.length_append]
    exact Nat.le_add_right _ _

theorem signed_bounds (b : UInt8) : -128 ≤ signed b ∧ signed b < 128 := by
  have hb := b.toNat_lt
  rw [signed]
  split <;> omega

theorem ofNat_signed (b : UInt8) : UInt8.ofNat (signed b % 256).toNat = b := by
  have hb := b.toNat_lt
  rw [← UInt8.toNat_inj, UInt8.toNat_ofNat', signed]
  split <;> omega

theorem signed_ofNat {i : Int} (h : -128 ≤ i ∧ i < 128) :
    signed (UInt8.ofNat (i % 256).toNat) = i := by
  rw [signed, UInt8.toNat_ofNat']
  split <;> omega

theorem readBis_exact : Exact readBis BaseBis.bytes fun b _ => b.Fits := by
  intro xs b rest
  simp only [readBis, Reading.bind_ok_iff, nextByte, Reading.next_ok_iff, orNull,
    Reading.atLeast_ok_iff, readField_exact _ _ _, Reading.pure_ok_iff]
  constructor
  · rintro ⟨_, _, ⟨-, rfl⟩, index, _, rfl, bs, _, ⟨rfl, hbs⟩, rfl, rfl⟩
    refine ⟨?_, signed_bounds index, hbs⟩
    rw [BaseBis.bytes, ofNat_signed, List.cons_append]
  · rintro ⟨rfl, hfits⟩
    refine ⟨(), _, ⟨?_, rfl⟩, _, _, rfl, _, _, ⟨rfl, hfits.configuration⟩, ?_, rfl⟩
    · simp [BaseBis.bytes, fieldBytes, minBisDataLength]
    · rw [signed_ofNat hfits.index]

/-- There must be ten bytes, also for a subgroup that needs fewer. -/
def SubgroupAllowed (s : BaseSubgroup) (rest : List UInt8) : Prop :=
  s.Fits ∧ minSubgroupDataLength ≤ (s.bytes ++ rest).length

theorem readSubgroup_exact : Exact readSubgroup BaseSubgroup.bytes SubgroupAllowed := by
  intro xs s rest
  simp only [readSubgroup, Reading.bind_ok_iff, nextByte, Reading.next_ok_iff, orNull,
    Reading.atLeast_ok_iff, nextBytes_exact _ _ _ _, readField_exact _ _ _,
    readBis_exact.times _ _ _ _, Reading.pure_ok_iff]
  constructor
  · rintro ⟨_, _, ⟨hmin, rfl⟩, numBis, _, rfl, codecId, _, ⟨rfl, hcodec⟩, configuration, _,
      ⟨rfl, hconfiguration⟩, metadata, _, ⟨rfl, hmetadata⟩, bises, _, ⟨rfl, hcount, hbises⟩, rfl,
        rfl⟩
    have hbytes : numBis :: (leBytes 5 codecId ++ (fieldBytes configuration ++
        (fieldBytes metadata ++ (bises.flatMap BaseBis.bytes ++ rest)))) =
          BaseSubgroup.bytes ⟨codecId, configuration, metadata, bises⟩ ++ rest := by
      simp [BaseSubgroup.bytes, hcount]
    rw [hbytes] at hmin ⊢
    refine ⟨rfl, ⟨hcodec, hconfiguration, hmetadata, hcount ▸ numBis.toNat_lt, ?_⟩, hmin⟩
    intro b hb
    obtain ⟨_, hfits⟩ := hbises.forall_mem b hb
    exact hfits
  · rintro ⟨rfl, hfits, hmin⟩
    refine ⟨(), _, ⟨hmin, rfl⟩, _, _, rfl, s.codecId, _, ⟨List.append_assoc _ _ _, hfits.codecId⟩,
      _, _, ⟨List.append_assoc _ _ _, hfits.configuration⟩, _, _,
      ⟨List.append_assoc _ _ _, hfits.metadata⟩, s.bises, rest, ⟨rfl, ?_, ?_⟩, rfl, rfl⟩
    · rw [UInt8.toNat_ofNat', Nat.mod_eq_of_lt hfits.count]
    · exact allInFront_of_forall fun b hb _ => hfits.bises b hb

theorem readBase_exact :
    Exact readBase Base.bytes fun b rest => b.Fits ∧ b.subgroups ≠ [] ∧
      AllInFront BaseSubgroup.bytes SubgroupAllowed b.subgroups rest := by
  intro xs b rest
  simp only [readBase, Reading.bind_ok_iff, nextByte, Reading.next_ok_iff, nextBytes_exact _ _ _ _]
  constructor
  · rintro ⟨delay, _, ⟨rfl, hdelay⟩, numSubgroups, ys, rfl, hread⟩
    split at hread
    · cases hread
    rename_i hpos
    obtain ⟨subgroups, _, hread, hpure⟩ := Reading.bind_ok_iff.mp hread
    obtain ⟨rfl, rfl⟩ := Reading.pure_ok_iff.mp hpure
    obtain ⟨rfl, hcount, hall⟩ := (readSubgroup_exact.times _ _ _ _).mp hread
    refine ⟨?_, ⟨hdelay, hcount ▸ numSubgroups.toNat_lt, ?_⟩, ?_, hall⟩
    · simp [Base.bytes, hcount]
    · intro s hs
      obtain ⟨_, hallowed⟩ := hall.forall_mem s hs
      exact hallowed.1
    · rintro rfl
      exact hpos (hcount ▸ Nat.one_pos)
  · rintro ⟨rfl, hfits, hne, hall⟩
    have hcount : (UInt8.ofNat b.subgroups.length).toNat = b.subgroups.length := by
      rw [UInt8.toNat_ofNat', Nat.mod_eq_of_lt hfits.count]
    refine ⟨_, _, ⟨List.append_assoc _ _ _, hfits.presentationDelay⟩, _, _, rfl, ?_⟩
    rw [hcount, if_neg (Nat.not_lt.mpr (List.length_pos_iff.mpr hne))]
    exact Reading.bind_ok_iff.mpr
      ⟨_, _, (readSubgroup_exact.times _ _ _ _).mpr ⟨rfl, rfl, hall⟩, rfl⟩

variable {serviceData xs : List UInt8}

theorem readBase_of_parseBaseData {base : Base} (h : parseBaseData serviceData = .ok base) :
    readBase serviceData = .ok (base, []) := by
  rw [parseBaseData] at h
  split at h
  · cases h
  split at h
  · cases h
  rename_i base' rest hread
  split at h
  · cases h
  rename_i hrest
  cases h
  rw [hread, List.length_eq_zero_iff.mp (not_not.mp hrest)]

/-- A BASE that is returned is all of the data. -/
theorem bytes_of_parseBaseData {base : Base} (h : parseBaseData serviceData = .ok base) :
    base.bytes = serviceData := by
  obtain ⟨hbytes, -⟩ := (readBase_exact _ _ _).mp (readBase_of_parseBaseData h)
  rw [hbytes, List.append_nil]

theorem base_fits_of_parseBaseData {base : Base} (h : parseBaseData serviceData = .ok base) :
    base.Fits :=
  ((readBase_exact _ _ _).mp (readBase_of_parseBaseData h)).2.1

/-! ### Where it throws -/

theorem readField_outOfBounds_iff : readField xs = .error .outOfBounds ↔ xs = [] := by
  simp only [readField, Reading.bind_error_iff, nextByte, Reading.next_ok_iff,
    Reading.next_error_iff, orNull, Reading.atLeast_ok_iff, Reading.atLeast_error_iff, arraycopy,
    Reading.copy_error_iff]
  constructor
  · rintro (⟨rfl, -⟩ | ⟨length, ys, rfl, ⟨-, ⟨⟩⟩ | ⟨_, _, ⟨hle, rfl⟩, hlt, -⟩⟩)
    · rfl
    · exact absurd hlt (Nat.not_lt.mpr hle)
  · rintro rfl
    exact Or.inl ⟨rfl, trivial⟩

theorem readBis_ne_outOfBounds (xs : List UInt8) : readBis xs ≠ .error .outOfBounds := by
  simp only [readBis, ne_eq, Reading.bind_error_iff, nextByte, Reading.next_ok_iff,
    Reading.next_error_iff, orNull, Reading.atLeast_ok_iff, Reading.atLeast_error_iff,
    readField_outOfBounds_iff, Reading.pure_error_iff, and_false, exists_false, or_false]
  rintro (⟨-, ⟨⟩⟩ | ⟨_, _, ⟨hmin, rfl⟩, ⟨rfl, -⟩ | ⟨index, _, rfl, rfl⟩⟩)
  · exact absurd hmin (by decide)
  · exact absurd hmin (by simp [minBisDataLength])

theorem times_readBis_ne_outOfBounds (n : Nat) (xs : List UInt8) :
    Reading.times readBis n xs ≠ .error .outOfBounds := by
  intro h
  obtain ⟨_, rest, -, -, -, hthrow⟩ := readBis_exact.times_error_iff.mp h
  exact readBis_ne_outOfBounds rest hthrow

theorem length_lt_of_nextBytes_error {k : Nat} {e : NoBase} (h : nextBytes k xs = .error e) :
    xs.length < k := by
  rcases Reading.bind_error_iff.mp h with h | ⟨_, _, _, hpure⟩
  · obtain ⟨bs, rest, rfl, hlength, -, hnext⟩ := nextByte_exact.times_error_iff.mp h
    obtain ⟨rfl, -⟩ := Reading.next_error_iff.mp hnext
    rwa [flatMap_singleton, List.append_nil]
  · exact absurd hpure (by simp [Reading.pure_error_iff])

/-- The data end with the codec configuration of a subgroup; the three bytes make ten. -/
def EndsWithConfiguration (xs : List UInt8) : Prop :=
  ∃ (numBis : UInt8) (codecId : Nat) (configuration : List UInt8),
    xs = numBis :: (leBytes 5 codecId ++ fieldBytes configuration) ∧ codecId < 256 ^ 5 ∧
      3 ≤ configuration.length ∧ configuration.length < 256

theorem readSubgroup_outOfBounds_iff :
    readSubgroup xs = .error .outOfBounds ↔ EndsWithConfiguration xs := by
  simp only [readSubgroup, Reading.bind_error_iff, nextByte, Reading.next_ok_iff,
    Reading.next_error_iff, orNull, Reading.atLeast_ok_iff, Reading.atLeast_error_iff,
    nextBytes_exact _ _ _ _, readField_exact _ _ _, readField_outOfBounds_iff,
    times_readBis_ne_outOfBounds, Reading.pure_error_iff, and_false, exists_false, or_false]
  constructor
  · rintro (⟨-, ⟨⟩⟩ | ⟨_, _, ⟨hmin, rfl⟩, ⟨rfl, -⟩ | ⟨numBis, ys, rfl, hshort |
      ⟨codecId, _, ⟨rfl, hcodec⟩, rfl | ⟨configuration, _, ⟨rfl, hlt⟩, rfl⟩⟩⟩⟩)
    · exact absurd hmin (by decide)
    · have hshort := length_lt_of_nextBytes_error hshort
      rw [List.length_cons, minSubgroupDataLength] at hmin
      omega
    · exact absurd hmin (by simp [minSubgroupDataLength])
    · refine ⟨numBis, codecId, configuration, by rw [List.append_nil], hcodec, ?_, hlt⟩
      simp only [List.length_cons, List.length_append, leBytes_length, fieldBytes,
        List.length_nil, minSubgroupDataLength] at hmin
      omega
  · rintro ⟨numBis, codecId, configuration, rfl, hcodec, hmin, hlt⟩
    refine Or.inr ⟨(), _, ⟨?_, rfl⟩, Or.inr ⟨_, _, rfl, Or.inr ⟨_, _, ⟨rfl, hcodec⟩,
      Or.inr ⟨configuration, [], ⟨(List.append_nil _).symm, hlt⟩, rfl⟩⟩⟩⟩
    simp only [List.length_cons, List.length_append, leBytes_length, fieldBytes,
      minSubgroupDataLength]
    omega

/-- Behind some subgroups, and before as many as are announced, the data end with a codec
configuration: there is no byte for the length of the metadata. -/
def NoMetadataLength (serviceData : List UInt8) : Prop :=
  ∃ (delay : Nat) (numSubgroups : UInt8) (subgroups : List BaseSubgroup) (last : List UInt8),
    serviceData = leBytes 3 delay ++
      (numSubgroups :: (subgroups.flatMap BaseSubgroup.bytes ++ last)) ∧ delay < 256 ^ 3 ∧
    subgroups.length < numSubgroups.toNat ∧ (∀ s ∈ subgroups, s.Fits) ∧ EndsWithConfiguration last

theorem EndsWithConfiguration.length (h : EndsWithConfiguration xs) :
    minSubgroupDataLength ≤ xs.length := by
  obtain ⟨numBis, codecId, configuration, rfl, -, hmin, -⟩ := h
  simp only [List.length_cons, List.length_append, leBytes_length, fieldBytes,
    minSubgroupDataLength]
  omega

theorem readBase_outOfBounds_iff (hmin : 4 ≤ xs.length) :
    readBase xs = .error .outOfBounds ↔ NoMetadataLength xs := by
  simp only [readBase, Reading.bind_error_iff, nextByte, Reading.next_ok_iff,
    Reading.next_error_iff, nextBytes_exact _ _ _ _]
  constructor
  · rintro (hshort | ⟨delay, _, ⟨rfl, hdelay⟩, ⟨rfl, -⟩ | ⟨numSubgroups, ys, rfl, hread⟩⟩)
    · have hshort := length_lt_of_nextBytes_error hshort
      omega
    · exact absurd hmin (by simp)
    · split at hread
      · cases hread
      rcases Reading.bind_error_iff.mp hread with hread | ⟨_, _, _, hpure⟩
      · obtain ⟨subgroups, last, rfl, hlength, hall, hthrow⟩ :=
          readSubgroup_exact.times_error_iff.mp hread
        refine ⟨delay, numSubgroups, subgroups, last, rfl, hdelay, hlength, ?_,
          readSubgroup_outOfBounds_iff.mp hthrow⟩
        intro s hs
        obtain ⟨_, hallowed⟩ := hall.forall_mem s hs
        exact hallowed.1
      · exact absurd hpure (by simp [Reading.pure_error_iff])
  · rintro ⟨delay, numSubgroups, subgroups, last, rfl, hdelay, hlength, hfits, hend⟩
    refine Or.inr ⟨delay, _, ⟨rfl, hdelay⟩, Or.inr ⟨numSubgroups, _, rfl, ?_⟩⟩
    rw [if_neg (Nat.not_lt.mpr (Nat.one_le_of_lt hlength))]
    refine Reading.bind_error_iff.mpr (Or.inl (readSubgroup_exact.times_error_iff.mpr
      ⟨subgroups, last, rfl, hlength, ?_, readSubgroup_outOfBounds_iff.mpr hend⟩))
    refine allInFront_of_forall fun s hs ys => ⟨hfits s hs, ?_⟩
    have hlast := hend.length
    simp only [List.length_append]
    omega

theorem parseBaseData_outOfBounds_iff (serviceData : List UInt8) :
    parseBaseData serviceData = .error .outOfBounds ↔ NoMetadataLength serviceData := by
  rw [parseBaseData]
  split
  next hshort =>
    constructor
    · rintro ⟨⟩
    · rintro ⟨delay, numSubgroups, subgroups, last, rfl, -, -, -, hend⟩
      have hlast := hend.length
      simp only [List.length_append, List.length_cons, leBytes_length, minDataLength,
        minSubgroupDataLength] at hshort hlast
      omega
  rename_i hlong
  rw [← readBase_outOfBounds_iff (by rw [minDataLength] at hlong; omega)]
  cases readBase serviceData with
  | error e => simp
  | ok r =>
    simp only [reduceCtorEq, iff_false]
    split <;> simp

/-- For every array, the parser does not throw and a BASE it returns is all of the array, exactly if
no codec configuration ends where the length of the metadata should stand. -/
theorem parse_total_iff (serviceData : List UInt8) :
    (parseBaseData serviceData ≠ .error .outOfBounds ∧
      ∀ base, parseBaseData serviceData = .ok base → base.bytes = serviceData) ↔
    ¬ NoMetadataLength serviceData := by
  rw [← parseBaseData_outOfBounds_iff]
  exact ⟨fun h => h.1, fun h => ⟨h, fun base => bytes_of_parseBaseData⟩⟩

/-- One subgroup, whose codec configuration is the last three bytes. -/
theorem parse_throws_behind_configuration :
    parseBaseData [0x40, 0x9c, 0x00, 1, 1, 6, 0, 0, 0, 0, 3, 2, 1, 3] = .error .outOfBounds := rfl

end BluetoothStack.LeAudio
