import BluetoothStack.LeAudio.BaseData

/-!
# BluetoothStack.LeAudio.Announcement

The encoder of a Basic Audio Announcement (`broadcaster_types.cc`), against the parser of
`BluetoothStack.LeAudio.BaseData`.

Each part of the announcement makes the vector longer and then writes behind its old end. The codec
configuration counts its length in eight bits, so that the vector may be too short for what is
written; `Packet.overrun` records it.
-/

namespace BluetoothStack.LeAudio

open BluetoothStack.Lib

/-- `LeAudioLtvMap`: types and values, in the order of the types. -/
abbrev LtvMap := List (UInt8 × List UInt8)

/-- `RawPacket`. -/
def LtvMap.rawPacket (m : LtvMap) : List UInt8 :=
  m.flatMap fun v => UInt8.ofNat (v.2.length + 1) :: v.1 :: v.2

/-- `RawPacketSize`. -/
def LtvMap.rawPacketSize (m : LtvMap) : Nat := (m.map fun v => 2 + v.2.length).sum

theorem LtvMap.rawPacket_length (m : LtvMap) : m.rawPacket.length = m.rawPacketSize := by
  rw [rawPacket, rawPacketSize, List.length_flatMap]
  refine congrArg List.sum (List.map_congr_left fun v _ => ?_)
  simp only [List.length_cons]
  omega

structure BasicAudioAnnouncementCodecConfig where
  codecId : UInt8
  vendorCompanyId : UInt16
  vendorCodecId : UInt16
  codecSpecificParams : LtvMap
  vendorCodecSpecificParams : Option (List UInt8)
deriving DecidableEq, Repr

structure BasicAudioAnnouncementBisConfig where
  codecSpecificParams : LtvMap
  vendorCodecSpecificParams : Option (List UInt8)
  bisIndex : UInt8
deriving DecidableEq, Repr

structure BasicAudioAnnouncementSubgroup where
  codecConfig : BasicAudioAnnouncementCodecConfig
  metadata : LtvMap
  bisConfigs : List BasicAudioAnnouncementBisConfig
deriving DecidableEq, Repr

structure BasicAudioAnnouncementData where
  presentationDelayUs : UInt32
  subgroupConfigs : List BasicAudioAnnouncementSubgroup
deriving DecidableEq, Repr

/-! ### The encoder -/

/-- The vector, and whether something was written behind its end. -/
structure Packet where
  data : List UInt8
  overrun : Bool
deriving DecidableEq, Repr

/-- `resize` by `size`, and write behind the old data. New elements are zero. -/
def Packet.emit (p : Packet) (size : Nat) (bytes : List UInt8) : Packet :=
  ⟨p.data ++ (bytes ++ List.replicate size 0).take size, p.overrun || decide (size < bytes.length)⟩

/-- `EmitHeader`. -/
def emitHeader (announcement : BasicAudioAnnouncementData) (p : Packet) : Packet :=
  p.emit 3 (leBytes 3 announcement.presentationDelayUs.toNat)

/-- The vendor specific parameters or the LTVs. -/
def BasicAudioAnnouncementCodecConfig.raw (config : BasicAudioAnnouncementCodecConfig) :
    List UInt8 :=
  match config.vendorCodecSpecificParams with
  | some params => params
  | none => LtvMap.rawPacket config.codecSpecificParams

/-- `codec_spec_raw_sz`. -/
def BasicAudioAnnouncementCodecConfig.rawSize (config : BasicAudioAnnouncementCodecConfig) : Nat :=
  match config.vendorCodecSpecificParams with
  | some params => params.length
  | none => LtvMap.rawPacketSize config.codecSpecificParams

/-- `EmitCodecConfiguration`; `codec_config_length` is a `uint8_t`. -/
def emitCodecConfiguration (config : BasicAudioAnnouncementCodecConfig) (p : Packet) : Packet :=
  let codecConfigLength := u8 (5 + (1 + config.rawSize))
  p.emit codecConfigLength (config.codecId :: (le16 config.vendorCompanyId.toNat ++
    (le16 config.vendorCodecId.toNat ++ (UInt8.ofNat config.rawSize :: config.raw))))

/-- `EmitMetadata`. -/
def emitMetadata (metadata : LtvMap) (p : Packet) : Packet :=
  let ltvRawSz := LtvMap.rawPacketSize metadata
  p.emit (ltvRawSz + 1)
    (UInt8.ofNat ltvRawSz :: if ltvRawSz > 0 then LtvMap.rawPacket metadata else [])

/-- A round of the loop of `EmitBisConfigs`. There is nothing for vendor specific parameters. -/
def emitBisConfig (p : Packet) (config : BasicAudioAnnouncementBisConfig) : Packet :=
  let ltvRawSz := LtvMap.rawPacketSize config.codecSpecificParams
  p.emit (ltvRawSz + 2) (config.bisIndex :: UInt8.ofNat ltvRawSz ::
    if ltvRawSz > 0 then LtvMap.rawPacket config.codecSpecificParams else [])

/-- `EmitBisConfigs`. -/
def emitBisConfigs (configs : List BasicAudioAnnouncementBisConfig) (p : Packet) : Packet :=
  configs.foldl emitBisConfig p

/-- `EmitSubgroup`. -/
def emitSubgroup (p : Packet) (subgroup : BasicAudioAnnouncementSubgroup) : Packet :=
  let p := p.emit 1 [UInt8.ofNat subgroup.bisConfigs.length]
  let p := emitCodecConfiguration subgroup.codecConfig p
  let p := emitMetadata subgroup.metadata p
  emitBisConfigs subgroup.bisConfigs p

/-- `ToRawPacket`, into a vector. -/
def toRawPacket (announcement : BasicAudioAnnouncementData) (p : Packet) : Packet :=
  let p := emitHeader announcement p
  let p := p.emit 1 [UInt8.ofNat announcement.subgroupConfigs.length]
  announcement.subgroupConfigs.foldl emitSubgroup p

/-! ### What is emitted -/

theorem Packet.emit_of_length {p : Packet} {size : Nat} {bytes : List UInt8}
    (h : bytes.length = size) : p.emit size bytes = ⟨p.data ++ bytes, p.overrun⟩ := by
  subst h
  simp [emit]

theorem Packet.emit_byte (p : Packet) (b : UInt8) : p.emit 1 [b] = ⟨p.data ++ [b], p.overrun⟩ :=
  Packet.emit_of_length rfl

theorem LtvMap.rawPacket_of_size_zero {m : LtvMap} (h : m.rawPacketSize = 0) :
    m.rawPacket = [] := by
  rw [← List.length_eq_zero_iff, rawPacket_length, h]

/-- A map is written behind its size. -/
theorem size_cons_rawPacket (m : LtvMap) :
    (UInt8.ofNat m.rawPacketSize :: if m.rawPacketSize > 0 then m.rawPacket else []) =
      fieldBytes m.rawPacket := by
  rw [fieldBytes, LtvMap.rawPacket_length]
  split
  · rfl
  next hzero => rw [LtvMap.rawPacket_of_size_zero (Nat.eq_zero_of_not_pos hzero)]

theorem emitMetadata_eq (metadata : LtvMap) (p : Packet) :
    emitMetadata metadata p = ⟨p.data ++ fieldBytes metadata.rawPacket, p.overrun⟩ := by
  simp only [emitMetadata, size_cons_rawPacket]
  refine Packet.emit_of_length ?_
  rw [fieldBytes, List.length_cons, LtvMap.rawPacket_length]

namespace BasicAudioAnnouncementCodecConfig

variable (config : BasicAudioAnnouncementCodecConfig)

theorem raw_length : config.raw.length = config.rawSize := by
  rw [raw, rawSize]
  split
  · rfl
  · exact LtvMap.rawPacket_length _

/-- The three parts of the codec ID in one number. -/
def id : Nat :=
  config.codecId.toNat + 2 ^ 8 * config.vendorCompanyId.toNat + 2 ^ 24 * config.vendorCodecId.toNat

theorem id_lt : config.id < 256 ^ 5 := by
  have hcodec := config.codecId.toNat_lt
  have hcompany := config.vendorCompanyId.toNat_lt
  have hvendor := config.vendorCodecId.toNat_lt
  rw [id]
  omega

theorem leBytes_id : leBytes 5 config.id =
    config.codecId :: (le16 config.vendorCompanyId.toNat ++ le16 config.vendorCodecId.toNat) := by
  have hcodec := config.codecId.toNat_lt
  have hcompany := config.vendorCompanyId.toNat_lt
  have hvendor := config.vendorCodecId.toNat_lt
  simp only [leBytes, le16, id, List.cons_append, List.nil_append, List.cons.injEq, and_true,
    ← UInt8.toNat_inj, UInt8.toNat_ofNat']
  omega

end BasicAudioAnnouncementCodecConfig

/-- The vector is too short for a configuration of 250 bytes or more. -/
theorem emitCodecConfiguration_overrun (config : BasicAudioAnnouncementCodecConfig) (p : Packet) :
    (emitCodecConfiguration config p).overrun = (p.overrun || decide (249 < config.rawSize)) := by
  simp only [emitCodecConfiguration, Packet.emit, List.length_cons, List.length_append, le16_length,
    config.raw_length]
  congr 1
  rw [decide_eq_decide, u8]
  omega

theorem emitCodecConfiguration_eq {config : BasicAudioAnnouncementCodecConfig}
    (h : config.rawSize ≤ 249) (p : Packet) :
    emitCodecConfiguration config p =
      ⟨p.data ++ (leBytes 5 config.id ++ fieldBytes config.raw), p.overrun⟩ := by
  have hbytes : config.codecId :: (le16 config.vendorCompanyId.toNat ++
      (le16 config.vendorCodecId.toNat ++ (UInt8.ofNat config.rawSize :: config.raw))) =
        leBytes 5 config.id ++ fieldBytes config.raw := by
    rw [config.leBytes_id, fieldBytes, config.raw_length, List.cons_append, List.append_assoc]
  simp only [emitCodecConfiguration, hbytes]
  refine Packet.emit_of_length ?_
  rw [List.length_append, leBytes_length, fieldBytes, List.length_cons, config.raw_length, u8]
  omega

/-- A BIS as it is written. -/
def BasicAudioAnnouncementBisConfig.emitted (config : BasicAudioAnnouncementBisConfig) : BaseBis :=
  ⟨signed config.bisIndex, LtvMap.rawPacket config.codecSpecificParams⟩

def BasicAudioAnnouncementSubgroup.emitted (subgroup : BasicAudioAnnouncementSubgroup) :
    BaseSubgroup :=
  ⟨subgroup.codecConfig.id, subgroup.codecConfig.raw, LtvMap.rawPacket subgroup.metadata,
    subgroup.bisConfigs.map BasicAudioAnnouncementBisConfig.emitted⟩

def BasicAudioAnnouncementData.emitted (announcement : BasicAudioAnnouncementData) : Base :=
  ⟨announcement.presentationDelayUs.toNat,
    announcement.subgroupConfigs.map BasicAudioAnnouncementSubgroup.emitted⟩

theorem emitBisConfig_eq (p : Packet) (config : BasicAudioAnnouncementBisConfig) :
    emitBisConfig p config = ⟨p.data ++ config.emitted.bytes, p.overrun⟩ := by
  have hbytes : config.emitted.bytes =
      config.bisIndex :: fieldBytes (LtvMap.rawPacket config.codecSpecificParams) := by
    rw [BaseBis.bytes, BasicAudioAnnouncementBisConfig.emitted, ofNat_signed]
  simp only [emitBisConfig, size_cons_rawPacket, hbytes]
  refine Packet.emit_of_length ?_
  rw [List.length_cons, fieldBytes, List.length_cons, LtvMap.rawPacket_length]

theorem emitBisConfigs_eq (configs : List BasicAudioAnnouncementBisConfig) (p : Packet) :
    emitBisConfigs configs p =
      ⟨p.data ++ (configs.map BasicAudioAnnouncementBisConfig.emitted).flatMap BaseBis.bytes,
        p.overrun⟩ := by
  induction configs generalizing p with
  | nil => simp [emitBisConfigs]
  | cons config configs ih =>
    have hstep : emitBisConfigs (config :: configs) p =
      emitBisConfigs configs (emitBisConfig p config) := rfl
    rw [hstep, ih, emitBisConfig_eq, List.map_cons, List.flatMap_cons, List.append_assoc]

theorem emitSubgroup_overrun (p : Packet) (subgroup : BasicAudioAnnouncementSubgroup) :
    (emitSubgroup p subgroup).overrun =
      (p.overrun || decide (249 < subgroup.codecConfig.rawSize)) := by
  simp only [emitSubgroup, emitBisConfigs_eq, emitMetadata_eq, emitCodecConfiguration_overrun,
    Packet.emit_byte]

theorem emitSubgroup_eq {subgroup : BasicAudioAnnouncementSubgroup}
    (h : subgroup.codecConfig.rawSize ≤ 249) (p : Packet) :
    emitSubgroup p subgroup = ⟨p.data ++ subgroup.emitted.bytes, p.overrun⟩ := by
  simp only [emitSubgroup, emitBisConfigs_eq, emitMetadata_eq, emitCodecConfiguration_eq h,
    Packet.emit_byte]
  simp [BaseSubgroup.bytes, BasicAudioAnnouncementSubgroup.emitted]

/-- The subgroups, if their configurations are short enough. -/
theorem foldl_emitSubgroup (subgroups : List BasicAudioAnnouncementSubgroup) (p : Packet) :
    ((subgroups.foldl emitSubgroup p).overrun = false ↔
      p.overrun = false ∧ ∀ s ∈ subgroups, s.codecConfig.rawSize ≤ 249) ∧
    ((∀ s ∈ subgroups, s.codecConfig.rawSize ≤ 249) →
      (subgroups.foldl emitSubgroup p).data = p.data ++
        (subgroups.map BasicAudioAnnouncementSubgroup.emitted).flatMap BaseSubgroup.bytes) := by
  induction subgroups generalizing p with
  | nil => simp
  | cons s subgroups ih =>
    obtain ⟨hoverrun, hdata⟩ := ih (emitSubgroup p s)
    refine ⟨?_, fun hshort => ?_⟩
    · rw [List.foldl_cons, hoverrun, emitSubgroup_overrun, List.forall_mem_cons,
        Bool.or_eq_false_iff, decide_eq_false_iff_not, Nat.not_lt, and_assoc]
    · obtain ⟨hs, hshort⟩ := List.forall_mem_cons.mp hshort
      rw [List.foldl_cons, hdata hshort, emitSubgroup_eq hs, List.map_cons, List.flatMap_cons,
        List.append_assoc]

theorem toRawPacket_spec (announcement : BasicAudioAnnouncementData) :
    ((toRawPacket announcement ⟨[], false⟩).overrun = false ↔
      ∀ s ∈ announcement.subgroupConfigs, s.codecConfig.rawSize ≤ 249) ∧
    ((∀ s ∈ announcement.subgroupConfigs, s.codecConfig.rawSize ≤ 249) →
      (toRawPacket announcement ⟨[], false⟩).data = announcement.emitted.bytes) := by
  have hheader : (emitHeader announcement ⟨[], false⟩).emit 1
      [UInt8.ofNat announcement.subgroupConfigs.length] =
      ⟨leBytes 3 announcement.presentationDelayUs.toNat ++
        [UInt8.ofNat announcement.subgroupConfigs.length], false⟩ := by
    rw [emitHeader, Packet.emit_of_length (leBytes_length _ _), Packet.emit_byte]
    rfl
  obtain ⟨hoverrun, hdata⟩ := foldl_emitSubgroup announcement.subgroupConfigs
    ((emitHeader announcement ⟨[], false⟩).emit 1
      [UInt8.ofNat announcement.subgroupConfigs.length])
  refine ⟨?_, fun hshort => ?_⟩
  · rw [toRawPacket, hoverrun, hheader]
    simp
  · rw [toRawPacket, hdata hshort, hheader]
    simp [Base.bytes, BasicAudioAnnouncementData.emitted]

/-! ### The round trip -/

/-- What a receiver should see. -/
def BasicAudioAnnouncementBisConfig.bis (config : BasicAudioAnnouncementBisConfig) : BaseBis :=
  ⟨config.bisIndex.toNat,
    config.vendorCodecSpecificParams.getD (LtvMap.rawPacket config.codecSpecificParams)⟩

def BasicAudioAnnouncementSubgroup.subgroup (subgroup : BasicAudioAnnouncementSubgroup) :
    BaseSubgroup :=
  ⟨subgroup.codecConfig.id, subgroup.codecConfig.raw, LtvMap.rawPacket subgroup.metadata,
    subgroup.bisConfigs.map BasicAudioAnnouncementBisConfig.bis⟩

def BasicAudioAnnouncementData.base (announcement : BasicAudioAnnouncementData) : Base :=
  ⟨announcement.presentationDelayUs.toNat,
    announcement.subgroupConfigs.map BasicAudioAnnouncementSubgroup.subgroup⟩

/-- The encodings have the sizes of the fields of a BASE. -/
structure BasicAudioAnnouncementBisConfig.Sized (config : BasicAudioAnnouncementBisConfig) :
    Prop where
  index : 1 ≤ config.bisIndex.toNat ∧ config.bisIndex.toNat ≤ 31
  params : LtvMap.rawPacketSize config.codecSpecificParams ≤ 255
  vendorParams : ∀ params ∈ config.vendorCodecSpecificParams, params.length ≤ 255

structure BasicAudioAnnouncementSubgroup.Sized (subgroup : BasicAudioAnnouncementSubgroup) :
    Prop where
  params : LtvMap.rawPacketSize subgroup.codecConfig.codecSpecificParams ≤ 255
  vendorParams : ∀ params ∈ subgroup.codecConfig.vendorCodecSpecificParams, params.length ≤ 255
  metadata : LtvMap.rawPacketSize subgroup.metadata ≤ 255
  nonempty : subgroup.bisConfigs ≠ []
  bises : ∀ config ∈ subgroup.bisConfigs, config.Sized

structure BasicAudioAnnouncementData.Sized (announcement : BasicAudioAnnouncementData) : Prop where
  count : 1 ≤ announcement.subgroupConfigs.length ∧ announcement.subgroupConfigs.length ≤ 31
  subgroups : ∀ subgroup ∈ announcement.subgroupConfigs, subgroup.Sized

/-- The codec configuration and its header fit eight bits, the BISes can be counted, and none of
them has vendor specific parameters of its own. -/
structure BasicAudioAnnouncementSubgroup.Survives (subgroup : BasicAudioAnnouncementSubgroup) :
    Prop where
  configuration : subgroup.codecConfig.rawSize ≤ 249
  count : subgroup.bisConfigs.length ≤ 255
  bises : ∀ config ∈ subgroup.bisConfigs, ∀ params ∈ config.vendorCodecSpecificParams,
    params = LtvMap.rawPacket config.codecSpecificParams

structure BasicAudioAnnouncementData.Survives (announcement : BasicAudioAnnouncementData) :
    Prop where
  presentationDelay : announcement.presentationDelayUs.toNat < 2 ^ 24
  subgroups : ∀ subgroup ∈ announcement.subgroupConfigs, subgroup.Survives

section

variable {config : BasicAudioAnnouncementBisConfig} {subgroup : BasicAudioAnnouncementSubgroup}
  {announcement : BasicAudioAnnouncementData}

theorem BasicAudioAnnouncementBisConfig.Sized.fits (h : config.Sized) : config.emitted.Fits := by
  refine ⟨signed_bounds _, ?_⟩
  rw [emitted, LtvMap.rawPacket_length]
  exact Nat.lt_succ_of_le h.params

theorem BasicAudioAnnouncementSubgroup.Sized.fits (h : subgroup.Sized)
    (hraw : subgroup.codecConfig.rawSize ≤ 249) (hcount : subgroup.bisConfigs.length ≤ 255) :
    subgroup.emitted.Fits := by
  refine ⟨subgroup.codecConfig.id_lt, ?_, ?_, ?_, ?_⟩
  · rw [emitted, BasicAudioAnnouncementCodecConfig.raw_length]
    omega
  · rw [emitted, LtvMap.rawPacket_length]
    exact Nat.lt_succ_of_le h.metadata
  · rw [emitted, List.length_map]
    exact Nat.lt_succ_of_le hcount
  · intro b hb
    obtain ⟨config, hconfig, rfl⟩ := List.mem_map.mp hb
    exact (h.bises config hconfig).fits

/-- A subgroup with a BIS has the ten bytes the parser asks for. -/
theorem BasicAudioAnnouncementSubgroup.Sized.length (h : subgroup.Sized) :
    minSubgroupDataLength ≤ subgroup.emitted.bytes.length := by
  obtain ⟨config, configs, hconfigs⟩ := List.exists_cons_of_ne_nil h.nonempty
  simp only [BaseSubgroup.bytes, emitted, hconfigs, List.map_cons, List.flatMap_cons,
    BaseBis.bytes, fieldBytes, List.length_cons, List.length_append, leBytes_length,
    minSubgroupDataLength]
  omega

/-- What is emitted is parsed as it is, if it fits. -/
theorem BasicAudioAnnouncementData.Sized.parse (h : announcement.Sized)
    (hdelay : announcement.presentationDelayUs.toNat < 2 ^ 24)
    (hsubgroups : ∀ s ∈ announcement.subgroupConfigs,
      s.codecConfig.rawSize ≤ 249 ∧ s.bisConfigs.length ≤ 255) :
    parseBaseData announcement.emitted.bytes = .ok announcement.emitted := by
  have hallowed : ∀ s ∈ announcement.emitted.subgroups, ∀ rest, SubgroupAllowed s rest := by
    intro s hs rest
    obtain ⟨subgroup, hmem, rfl⟩ := List.mem_map.mp hs
    have hsized := h.subgroups subgroup hmem
    refine ⟨hsized.fits (hsubgroups subgroup hmem).1 (hsubgroups subgroup hmem).2, ?_⟩
    rw [List.length_append]
    exact Nat.le_add_right_of_le hsized.length
  have hne : announcement.emitted.subgroups ≠ [] := by
    rw [← List.length_pos_iff, emitted, List.length_map]
    exact h.count.1
  have hread : readBase announcement.emitted.bytes = .ok (announcement.emitted, []) := by
    refine (readBase_exact _ _ _).mpr ⟨(List.append_nil _).symm, ⟨hdelay, ?_, ?_⟩, hne, ?_⟩
    · rw [emitted, List.length_map]
      have := h.count.2
      omega
    · exact fun s hs => (hallowed s hs []).1
    · exact allInFront_of_forall fun s hs ys => hallowed s hs (ys ++ [])
  have hlength : ¬ announcement.emitted.bytes.length < minDataLength := by
    obtain ⟨s, rest, hs⟩ := List.exists_cons_of_ne_nil hne
    have hmin := (hallowed s (by simp [hs]) []).2
    simp only [Base.bytes, hs, List.flatMap_cons, List.length_append, List.length_cons,
      leBytes_length, List.length_nil, minDataLength, minSubgroupDataLength] at hmin ⊢
    omega
  rw [parseBaseData, if_neg hlength, hread]
  rfl

theorem BasicAudioAnnouncementBisConfig.Sized.bis_eq_iff (h : config.Sized) :
    config.bis = config.emitted ↔ ∀ params ∈ config.vendorCodecSpecificParams,
      params = LtvMap.rawPacket config.codecSpecificParams := by
  have hindex : signed config.bisIndex = config.bisIndex.toNat := by
    rw [signed, if_pos (h.index.2.trans_lt (by decide))]
  rw [bis, emitted, hindex]
  cases config.vendorCodecSpecificParams <;> simp

theorem BasicAudioAnnouncementData.Sized.base_eq_iff (h : announcement.Sized) :
    announcement.base = announcement.emitted ↔ ∀ s ∈ announcement.subgroupConfigs,
      ∀ config ∈ s.bisConfigs, ∀ params ∈ config.vendorCodecSpecificParams,
        params = LtvMap.rawPacket config.codecSpecificParams := by
  simp only [base, emitted, Base.mk.injEq, true_and, List.map_inj_left,
    BasicAudioAnnouncementSubgroup.subgroup, BasicAudioAnnouncementSubgroup.emitted,
    BaseSubgroup.mk.injEq]
  refine forall₂_congr fun s hs => forall₂_congr fun config hconfig => ?_
  exact ((h.subgroups s hs).bises config hconfig).bis_eq_iff

end

/-- An announcement whose encodings have the sizes of their fields is emitted within the vector and
parsed as it was, exactly if it survives: a codec configuration with its six bytes of header must
fit the eight bits it is counted with, the presentation delay three bytes, the number of BISes one,
and no BIS may have vendor specific parameters. -/
theorem announcement_round_trip_iff (announcement : BasicAudioAnnouncementData)
    (h : announcement.Sized) :
    ((toRawPacket announcement ⟨[], false⟩).overrun = false ∧
      parseBaseData (toRawPacket announcement ⟨[], false⟩).data = .ok announcement.base) ↔
    announcement.Survives := by
  obtain ⟨hoverrun, hdata⟩ := toRawPacket_spec announcement
  rw [hoverrun]
  constructor
  · rintro ⟨hshort, hparse⟩
    rw [hdata hshort] at hparse
    have hread := base_fits_of_parseBaseData hparse
    have hcount : ∀ s ∈ announcement.subgroupConfigs, s.bisConfigs.length ≤ 255 := by
      intro s hs
      have hfits := hread.subgroups s.subgroup (List.mem_map_of_mem hs)
      have hlt := hfits.count
      rw [BasicAudioAnnouncementSubgroup.subgroup, List.length_map] at hlt
      exact Nat.le_of_lt_succ hlt
    have hparse' := h.parse hread.presentationDelay fun s hs => ⟨hshort s hs, hcount s hs⟩
    have heq : announcement.base = announcement.emitted :=
      Except.ok.inj (hparse.symm.trans hparse')
    have hvendor := h.base_eq_iff.mp heq
    exact ⟨hread.presentationDelay, fun s hs => ⟨hshort s hs, hcount s hs, hvendor s hs⟩⟩
  · intro hsurvives
    have hshort : ∀ s ∈ announcement.subgroupConfigs, s.codecConfig.rawSize ≤ 249 :=
      fun s hs => (hsurvives.subgroups s hs).configuration
    have heq := h.base_eq_iff.mpr fun s hs => (hsurvives.subgroups s hs).bises
    refine ⟨hshort, ?_⟩
    rw [hdata hshort, heq]
    exact h.parse hsurvives.presentationDelay fun s hs =>
      ⟨hshort s hs, (hsurvives.subgroups s hs).count⟩

/-- One subgroup for LC3 at 48 kHz, with two BISes. -/
def stereoAnnouncement : BasicAudioAnnouncementData :=
  ⟨40000, [⟨⟨6, 0, 0, [(1, [8])], none⟩, [(2, [4, 0])],
    [⟨[(3, [1, 0, 0, 0])], none, 1⟩, ⟨[(3, [2, 0, 0, 0])], none, 2⟩]⟩]⟩

theorem announcement_round_trip_iff_stereo :
    (toRawPacket stereoAnnouncement ⟨[], false⟩).overrun = false ∧
      parseBaseData (toRawPacket stereoAnnouncement ⟨[], false⟩).data =
        .ok stereoAnnouncement.base := by
  refine (announcement_round_trip_iff stereoAnnouncement ⟨by decide, ?_⟩).mpr ⟨by decide, ?_⟩
  · refine List.forall_mem_singleton.mpr ⟨by decide, by decide, by decide, by decide, ?_⟩
    exact List.forall_mem_cons.mpr ⟨⟨by decide, by decide, by decide⟩,
      List.forall_mem_singleton.mpr ⟨by decide, by decide, by decide⟩⟩
  · exact List.forall_mem_singleton.mpr ⟨by decide, by decide, by decide⟩

/-- 250 bytes of vendor specific parameters and the six bytes in front of them make 256, which is
counted as zero: the vector does not grow at all. -/
theorem long_configuration_overruns :
    let config : BasicAudioAnnouncementCodecConfig := ⟨0xff, 0, 0, [], some (List.replicate 250 1)⟩
    let p := toRawPacket ⟨40000, [⟨config, [], [⟨[], none, 1⟩]⟩]⟩ ⟨[], false⟩
    p.overrun = true ∧ p.data = [64, 156, 0, 1, 1, 0, 1, 0] ∧ parseBaseData p.data =
      .error .null := by
  decide +kernel

end BluetoothStack.LeAudio
