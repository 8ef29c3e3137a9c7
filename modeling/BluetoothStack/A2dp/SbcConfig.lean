import Mathlib.Data.UInt
import Mathlib.Tactic.Common

/-!
# BluetoothStack.A2dp.SbcConfig

How two devices agree on an SBC stream (`a2dp_sbc.cc`): the codec information element
that is sent over the air (`A2DP_BuildInfoSbc`, `A2DP_ParseInfoSbc`), and the choice of a
configuration from what the peer offers (`setCodecConfig`).

Of the state of a codec only the preferences that the choice reads are modelled. The rate
and the mode it keeps in `codec_config_` say the same as the chosen bits of the element.
-/

namespace BluetoothStack.A2dp

/-! ### The information element -/

/-- `tA2DP_SBC_CIE`, as far as it is sent. -/
@[ext]
structure SbcCie where
  sampFreq : UInt8
  chMode : UInt8
  blockLen : UInt8
  numSubbands : UInt8
  allocMethod : UInt8
  minBitpool : UInt8
  maxBitpool : UInt8
  deriving DecidableEq, Repr

/-- The values of `tA2DP_STATUS` that occur. -/
inductive A2dpStatus
  | unsupportedConfiguration | invalidMinimumBitpoolValue | invalidMaximumBitpoolValue
  | invalidSamplingFrequency | invalidChannelMode | invalidBlockLength | invalidSubbands
  | invalidAllocationMethod | notSupportedSamplingFrequency | notSupportedChannels
  | notSupportedChannelMode | notSupportedSubbands | notSupportedAllocationMethod
  | notSupportedMinimumBitpoolValue | notSupportedMaximumBitpoolValue
  /-- An assertion ends the process. -/
  | assertFailed
  deriving DecidableEq, Repr

/-- The flag `a2dp_adjust_sbc_bitpool` and the PTS test mode. -/
structure Env where
  adjustSbcBitpool : Bool
  isPtsTestMode : Bool
  deriving DecidableEq, Repr

/-- The masks of the fields. -/
abbrev sampFreqMsk : UInt8 := 0xF0
abbrev chModeMsk : UInt8 := 0x0F
abbrev blocksMsk : UInt8 := 0xF0
abbrev subbandMsk : UInt8 := 0x0C
abbrev allocMsk : UInt8 := 0x03

abbrev minBitpoolIe : UInt8 := 2
abbrev maxBitpoolIe : UInt8 := 250

/-- `A2DP_BuildInfoSbc`, with the media type for audio. -/
def a2dpBuildInfoSbc (ie : SbcCie) : Option (Vector UInt8 7) :=
  if ie.sampFreq &&& ~~~sampFreqMsk ≠ 0 ∨ ie.chMode &&& ~~~chModeMsk ≠ 0 ∨
      ie.blockLen &&& ~~~blocksMsk ≠ 0 ∨ ie.numSubbands &&& ~~~subbandMsk ≠ 0 ∨
      ie.allocMethod &&& ~~~allocMsk ≠ 0 ∨ ie.minBitpool > ie.maxBitpool ∨
      ie.minBitpool < minBitpoolIe ∨ ie.minBitpool > maxBitpoolIe ∨
      ie.maxBitpool < minBitpoolIe ∨ ie.maxBitpool > maxBitpoolIe then none
  else some #v[6, 0, 0, ie.sampFreq ||| ie.chMode, ie.blockLen ||| ie.numSubbands |||
    ie.allocMethod, ie.minBitpool, ie.maxBitpool]

/-- `A2DP_AdjustBitpool`. -/
def a2dpAdjustBitpool (env : Env) (ie : SbcCie) : SbcCie :=
  if env.isPtsTestMode then ie
  else
    let lo := if ie.minBitpool < minBitpoolIe then minBitpoolIe else ie.minBitpool
    let lo := if lo > maxBitpoolIe then maxBitpoolIe else lo
    let hi := if ie.maxBitpool > maxBitpoolIe then maxBitpoolIe else ie.maxBitpool
    let hi := if lo > hi then lo else hi
    { ie with minBitpool := lo, maxBitpool := hi }

/-- The adjustment, where the flag is set. -/
def adjustIf (env : Env) (ie : SbcCie) : SbcCie :=
  if env.adjustSbcBitpool then a2dpAdjustBitpool env ie else ie

/-- The results of `A2DP_BitsSet`. -/
inductive BitsSet
  | zero | one | multi
  deriving DecidableEq, Repr

/-- `A2DP_BitsSet`. -/
def a2dpBitsSet (num : UInt8) : BitsSet :=
  if num = 0 then .zero else if num.toNat &&& (num.toNat - 1) = 0 then .one else .multi

/-- What `A2DP_ParseInfoSbc` asks of a field: some bit of a capability, one of a configuration. -/
def bitsOk (isCapability : Bool) (num : UInt8) : Prop :=
  if isCapability then a2dpBitsSet num ≠ .zero else a2dpBitsSet num = .one

instance instDecidableBitsOk (isCapability : Bool) (num : UInt8) :
    Decidable (bitsOk isCapability num) :=
  inferInstanceAs (Decidable (ite _ _ _))

/-- The checks of `A2DP_ParseInfoSbc` behind the header. -/
def checkInfo (ie : SbcCie) (isCapability : Bool) : Except A2dpStatus SbcCie :=
  if ie.minBitpool < minBitpoolIe ∨ ie.minBitpool > maxBitpoolIe then
    .error .invalidMinimumBitpoolValue
  else if ie.maxBitpool < minBitpoolIe ∨ ie.maxBitpool > maxBitpoolIe ∨
      ie.maxBitpool < ie.minBitpool then
    .error .invalidMaximumBitpoolValue
  else if ¬ bitsOk isCapability ie.sampFreq then .error .invalidSamplingFrequency
  else if ¬ bitsOk isCapability ie.chMode then .error .invalidChannelMode
  else if ¬ bitsOk isCapability ie.blockLen then .error .invalidBlockLength
  else if ¬ bitsOk isCapability ie.numSubbands then .error .invalidSubbands
  else if ¬ bitsOk isCapability ie.allocMethod then .error .invalidAllocationMethod
  else .ok ie

/-- `A2DP_ParseInfoSbc`, on the seven bytes that it reads. -/
def a2dpParseInfoSbc (env : Env) (info : Vector UInt8 7) (isCapability : Bool) :
    Except A2dpStatus SbcCie :=
  if info[0] ≠ 6 then .error .unsupportedConfiguration
  else if info[1] >>> 4 ≠ 0 ∨ info[2] ≠ 0 then .error .unsupportedConfiguration
  else
    checkInfo (adjustIf env
      { sampFreq := info[3] &&& sampFreqMsk
        chMode := info[3] &&& chModeMsk
        blockLen := info[4] &&& blocksMsk
        numSubbands := info[4] &&& subbandMsk
        allocMethod := info[4] &&& allocMsk
        minBitpool := info[5]
        maxBitpool := info[6] }) isCapability

/-- `A2DP_CodecInfoMatchesCapabilitySbc`: a device with the capability `cap` looks at an element. -/
def a2dpCodecInfoMatchesCapabilitySbc (env : Env) (cap : SbcCie) (info : Vector UInt8 7)
    (isCapability : Bool) : Except A2dpStatus Unit := do
  let cfg ← a2dpParseInfoSbc env info isCapability
  if cfg.sampFreq &&& cap.sampFreq = 0 then .error .notSupportedSamplingFrequency
  else if cfg.chMode &&& cap.chMode = 0 then .error .notSupportedChannelMode
  else if cfg.blockLen &&& cap.blockLen = 0 then .error .invalidBlockLength
  else if cfg.numSubbands &&& cap.numSubbands = 0 then .error .notSupportedSubbands
  else if cfg.allocMethod &&& cap.allocMethod = 0 then .error .notSupportedAllocationMethod
  else if cfg.minBitpool > cap.maxBitpool then .error .notSupportedMinimumBitpoolValue
  else if cfg.maxBitpool < cap.minBitpool then .error .notSupportedMaximumBitpoolValue
  else .ok ()

/-! ### Choosing a configuration -/

/-- `a2dp_sbc_source_caps`. -/
def a2dpSbcSourceCaps : SbcCie := ⟨0x20, 0x09, 0xF0, 0x04, 0x01, 2, 53⟩

/-- `a2dp_sbc_sink_caps`. -/
def a2dpSbcSinkCaps : SbcCie := ⟨0x30, 0x0F, 0xF0, 0x0C, 0x03, 2, 53⟩

/-- `a2dp_sbc_default_config`. -/
def a2dpSbcDefaultConfig : SbcCie := ⟨0x20, 0x01, 0x10, 0x04, 0x01, 2, 53⟩

/-- A preferred sample rate; SBC takes no other. -/
inductive SampleRate
  | rate44100 | rate48000 | other
  deriving DecidableEq, Repr

inductive ChannelModePref
  | mono | stereo | none
  deriving DecidableEq, Repr

/-- A codec with the preferences of the user and of the audio stream. -/
structure CodecConfigSbc where
  isSource : Bool
  userSampleRate : SampleRate
  audioSampleRate : SampleRate
  userChannelMode : ChannelModePref
  audioChannelMode : ChannelModePref
  deriving DecidableEq, Repr

/-- `p_a2dp_sbc_caps`. -/
def CodecConfigSbc.caps (c : CodecConfigSbc) : SbcCie :=
  if c.isSource then a2dpSbcSourceCaps else a2dpSbcSinkCaps

/-- The first of some bits that is set. -/
def firstSet (bits : UInt8) (order : List UInt8) : Option UInt8 :=
  order.find? fun bit => decide (bits &&& bit ≠ 0)

/-- `select_best_sample_rate`. -/
def selectBestSampleRate (sampFreq : UInt8) : Option UInt8 := firstSet sampFreq [0x10, 0x20]

/-- `select_audio_sample_rate`, and the same choice for the user. -/
def selectAudioSampleRate (rate : SampleRate) (sampFreq : UInt8) : Option UInt8 :=
  match rate with
  | .rate44100 => firstSet sampFreq [0x20]
  | .rate48000 => firstSet sampFreq [0x10]
  | .other => none

/-- `select_best_channel_mode`. -/
def selectBestChannelMode (chMode : UInt8) : Option UInt8 :=
  firstSet chMode [0x01, 0x02, 0x04, 0x08]

/-- `select_audio_channel_mode`, and the same choice for the user. -/
def selectAudioChannelMode (mode : ChannelModePref) (chMode : UInt8) : Option UInt8 :=
  match mode with
  | .mono => firstSet chMode [0x08]
  | .stereo => firstSet chMode [0x01, 0x02, 0x04]
  | .none => none

namespace CodecConfigSbc

variable (c : CodecConfigSbc)

/-- The sample frequency: of the user, of the audio stream, the default one, the best one. -/
def selectSampFreq (peer : SbcCie) : Option UInt8 :=
  let sampFreq := c.caps.sampFreq &&& peer.sampFreq
  (selectAudioSampleRate c.userSampleRate sampFreq).or
    ((selectAudioSampleRate c.audioSampleRate sampFreq).or
      ((selectBestSampleRate (a2dpSbcDefaultConfig.sampFreq &&& peer.sampFreq)).or
        (selectBestSampleRate sampFreq)))

/-- The channel mode, in the same way. -/
def selectChMode (peer : SbcCie) : Option UInt8 :=
  let chMode := c.caps.chMode &&& peer.chMode
  (selectAudioChannelMode c.userChannelMode chMode).or
    ((selectAudioChannelMode c.audioChannelMode chMode).or
      ((selectBestChannelMode (a2dpSbcDefaultConfig.chMode &&& peer.chMode)).or
        (selectBestChannelMode chMode)))

def selectBlockLen (peer : SbcCie) : Option UInt8 :=
  firstSet (c.caps.blockLen &&& peer.blockLen) [0x10, 0x20, 0x40, 0x80]

def selectNumSubbands (peer : SbcCie) : Option UInt8 :=
  firstSet (c.caps.numSubbands &&& peer.numSubbands) [0x04, 0x08]

def selectAllocMethod (peer : SbcCie) : Option UInt8 :=
  firstSet (c.caps.allocMethod &&& peer.allocMethod) [0x01, 0x02]

/-- A choice, or the status of a failed one. -/
def orFail (choice : Option UInt8) (status : A2dpStatus) : Except A2dpStatus UInt8 :=
  choice.elim (.error status) .ok

/-- The fields of the result with one bit each. -/
def selectBits (peer : SbcCie) : Except A2dpStatus SbcCie := do
  let sampFreq ← orFail (c.selectSampFreq peer) .notSupportedSamplingFrequency
  let chMode ← orFail (c.selectChMode peer) .notSupportedChannels
  let blockLen ← orFail (c.selectBlockLen peer) .invalidBlockLength
  let numSubbands ← orFail (c.selectNumSubbands peer) .notSupportedSubbands
  let allocMethod ← orFail (c.selectAllocMethod peer) .notSupportedAllocationMethod
  return { sampFreq, chMode, blockLen, numSubbands, allocMethod
           minBitpool := if c.caps.minBitpool < peer.minBitpool then peer.minBitpool
             else c.caps.minBitpool
           maxBitpool := if c.caps.maxBitpool > peer.maxBitpool then peer.maxBitpool
             else c.caps.maxBitpool }

/-- The end of `setCodecConfig`: the result is built, and the local copy of what the peer has sent.
-/
def buildResult (peer result : SbcCie) : Except A2dpStatus (Vector UInt8 7) :=
  if result.minBitpool > result.maxBitpool then .error .unsupportedConfiguration
  else
    match a2dpBuildInfoSbc result with
    | none => .error .unsupportedConfiguration
    | some bytes => if (a2dpBuildInfoSbc peer).isSome then .ok bytes else .error .assertFailed

/-- `setCodecConfig`, with the element that it returns. A failure restores the state, so that only
its status is left. -/
def setCodecConfig (env : Env) (info : Vector UInt8 7) (isCapability : Bool) :
    Except A2dpStatus (Vector UInt8 7) := do
  let peer ← a2dpParseInfoSbc env info isCapability
  let result ← c.selectBits peer
  buildResult peer (adjustIf env result)

end CodecConfigSbc

/-! ### Bits -/

/-- All bits of `m` are bits of `x`. -/
def Within (m x : UInt8) : Prop := m &&& x = m

instance instDecidableWithin (m x : UInt8) : Decidable (Within m x) :=
  inferInstanceAs (Decidable (_ = _))

variable {x mask m y : UInt8} {ie : SbcCie} {isCapability : Bool} {caps : UInt8} {peer : SbcCie}
  {order : List UInt8}

theorem Within.and_disjoint {other : UInt8} (h : Within x mask) (hmask : mask &&& other = 0) :
    x &&& other = 0 := by
  rw [← h, UInt8.and_assoc, hmask, UInt8.and_zero]

theorem Within.trans (h : Within m x) (hxy : Within x y) : Within m y := by
  rw [Within, ← h, UInt8.and_assoc, hxy]

theorem Within.left (h : Within m (x &&& y)) : Within m x := by
  rw [Within, ← h, UInt8.and_assoc, UInt8.and_assoc, UInt8.and_comm y x, ← UInt8.and_assoc x x y,
    UInt8.and_self]

theorem Within.right (h : Within m (x &&& y)) : Within m y := by
  rw [UInt8.and_comm] at h
  exact h.left

/-- The single bits. -/
def singleBits : List UInt8 := [0x01, 0x02, 0x04, 0x08, 0x10, 0x20, 0x40, 0x80]

theorem within_of_singleBit (hm : m ∈ singleBits) (h : x &&& m ≠ 0) : Within m x := by
  have hall : ∀ m ∈ singleBits, ∀ x : BitVec 8, UInt8.ofBitVec x &&& m ≠ 0 →
      m &&& UInt8.ofBitVec x = m := by decide +kernel
  exact hall m hm x.toBitVec h

theorem bitsOk_of_singleBit (hm : m ∈ singleBits) (isCapability : Bool) :
    bitsOk isCapability m := by
  have hcap : ∀ m ∈ singleBits, bitsOk true m := by decide +kernel
  have hcfg : ∀ m ∈ singleBits, bitsOk false m := by decide +kernel
  cases isCapability with
  | true => exact hcap m hm
  | false => exact hcfg m hm

/-! ### The element round trip -/

theorem or_and : (x ||| y) &&& mask = x &&& mask ||| y &&& mask := by
  refine UInt8.toBitVec_inj.mp (BitVec.eq_of_getElem_eq fun i hi => ?_)
  simp [Bool.and_or_distrib_right]

theorem or_and_of_within (hx : Within x mask) (hy : y &&& mask = 0) : (x ||| y) &&& mask = x := by
  rw [or_and, hx, hy, UInt8.or_zero]

theorem or_and_eq_zero (hx : x &&& mask = 0) (hy : y &&& mask = 0) : (x ||| y) &&& mask = 0 := by
  rw [or_and, hx, hy, UInt8.or_zero]

/-- An element that `A2DP_BuildInfoSbc` takes. -/
structure SbcCie.Valid (ie : SbcCie) : Prop where
  sampFreq : Within ie.sampFreq sampFreqMsk
  chMode : Within ie.chMode chModeMsk
  blockLen : Within ie.blockLen blocksMsk
  numSubbands : Within ie.numSubbands subbandMsk
  allocMethod : Within ie.allocMethod allocMsk
  two_le_min : 2 ≤ ie.minBitpool.toNat
  min_le_max : ie.minBitpool.toNat ≤ ie.maxBitpool.toNat
  max_le : ie.maxBitpool.toNat ≤ 250

theorem lt_minBitpoolIe : x < minBitpoolIe ↔ x.toNat < 2 := UInt8.lt_iff_toNat_lt

theorem gt_maxBitpoolIe : x > maxBitpoolIe ↔ 250 < x.toNat := UInt8.lt_iff_toNat_lt

theorem gt_iff_toNat : x > y ↔ y.toNat < x.toNat := UInt8.lt_iff_toNat_lt

/-- The bytes of an element. -/
def SbcCie.bytes (ie : SbcCie) : Vector UInt8 7 :=
  #v[6, 0, 0, ie.sampFreq ||| ie.chMode, ie.blockLen ||| ie.numSubbands ||| ie.allocMethod,
    ie.minBitpool, ie.maxBitpool]

theorem Within.and_not (h : Within x mask) : x &&& ~~~mask = 0 := by
  rw [← h, UInt8.and_assoc, UInt8.and_not_self, UInt8.and_zero]

theorem SbcCie.Valid.build (h : ie.Valid) : a2dpBuildInfoSbc ie = some ie.bytes := by
  have hmin := h.two_le_min
  have hle := h.min_le_max
  have hmax := h.max_le
  refine if_neg ?_
  rintro (hbit | hbit | hbit | hbit | hbit | hrange | hrange | hrange | hrange | hrange)
  · exact hbit h.sampFreq.and_not
  · exact hbit h.chMode.and_not
  · exact hbit h.blockLen.and_not
  · exact hbit h.numSubbands.and_not
  · exact hbit h.allocMethod.and_not
  · exact absurd (gt_iff_toNat.mp hrange) (by omega)
  · exact absurd (lt_minBitpoolIe.mp hrange) (by omega)
  · exact absurd (gt_maxBitpoolIe.mp hrange) (by omega)
  · exact absurd (lt_minBitpoolIe.mp hrange) (by omega)
  · exact absurd (gt_maxBitpoolIe.mp hrange) (by omega)

theorem valid_of_build {bytes : Vector UInt8 7} (h : a2dpBuildInfoSbc ie = some bytes) :
    ie.Valid ∧ bytes = ie.bytes := by
  have hwithin {x mask : UInt8} (hx : x &&& ~~~mask = 0) : Within x mask := by
    have hsplit : x = (x &&& mask) ||| (x &&& ~~~mask) := by
      refine UInt8.toBitVec_inj.mp (BitVec.eq_of_getElem_eq fun i hi => ?_)
      simp
      grind
    rw [hx, UInt8.or_zero] at hsplit
    exact hsplit.symm
  unfold a2dpBuildInfoSbc at h
  split at h
  · cases h
  rename_i hnot
  simp only [not_or, not_not] at hnot
  obtain ⟨hfreq, hmode, hblocks, hbands, halloc, hle, hlow, -, -, hhigh⟩ := hnot
  rw [gt_iff_toNat] at hle
  rw [lt_minBitpoolIe] at hlow
  rw [gt_maxBitpoolIe] at hhigh
  cases h
  exact ⟨⟨hwithin hfreq, hwithin hmode, hwithin hblocks, hwithin hbands, hwithin halloc, by omega,
    by omega, by omega⟩, rfl⟩

/-- The fields have the bits that a capability or a configuration needs. -/
structure SbcCie.BitsOk (ie : SbcCie) (isCapability : Bool) : Prop where
  sampFreq : bitsOk isCapability ie.sampFreq
  chMode : bitsOk isCapability ie.chMode
  blockLen : bitsOk isCapability ie.blockLen
  numSubbands : bitsOk isCapability ie.numSubbands
  allocMethod : bitsOk isCapability ie.allocMethod

theorem ite_error_eq_ok {α : Type} {p : Prop} [Decidable p] {e : A2dpStatus}
    {x : Except A2dpStatus α} {y : α} : (if p then .error e else x) = .ok y ↔ ¬ p ∧ x = .ok y := by
  split <;> simp [*]

theorem checkInfo_eq_ok {ie' : SbcCie} :
    checkInfo ie isCapability = .ok ie' ↔ ie' = ie ∧ 2 ≤ ie.minBitpool.toNat ∧
      ie.minBitpool.toNat ≤ ie.maxBitpool.toNat ∧ ie.maxBitpool.toNat ≤ 250 ∧
      ie.BitsOk isCapability := by
  have hrange : ie.maxBitpool < ie.minBitpool ↔ ie.maxBitpool.toNat < ie.minBitpool.toNat :=
    UInt8.lt_iff_toNat_lt
  unfold checkInfo
  simp only [ite_error_eq_ok, not_or, not_not, lt_minBitpoolIe, gt_maxBitpoolIe, hrange]
  constructor
  · rintro ⟨hmin, hmax, hsamp, hch, hblock, hsub, halloc, hie⟩
    cases hie
    exact ⟨rfl, by omega, by omega, by omega, hsamp, hch, hblock, hsub, halloc⟩
  · rintro ⟨rfl, hlow, hle, hhigh, hsamp, hch, hblock, hsub, halloc⟩
    exact ⟨by omega, by omega, hsamp, hch, hblock, hsub, halloc, rfl⟩

/-- Bitpools are moved into range. -/
def Env.Adjusts (env : Env) : Prop := env.adjustSbcBitpool = true ∧ env.isPtsTestMode = false

theorem adjustIf_of_not_adjusts {env : Env} (h : ¬ env.Adjusts) (ie : SbcCie) :
    adjustIf env ie = ie := by
  unfold adjustIf a2dpAdjustBitpool
  split
  next hflag =>
    rw [if_pos]
    by_contra hpts
    exact h ⟨hflag, Bool.eq_false_iff.mpr hpts⟩
  next => rfl

/-- A smallest bitpool in range is kept, and the largest one is at least that. -/
theorem adjustIf_bitpool {env : Env} (h : env.Adjusts) (hlow : 2 ≤ ie.minBitpool.toNat)
    (hmin : ie.minBitpool.toNat ≤ 250) (hmax : ie.maxBitpool.toNat ≤ 250) :
    (adjustIf env ie).minBitpool = ie.minBitpool ∧
      (adjustIf env ie).maxBitpool.toNat = max ie.minBitpool.toNat ie.maxBitpool.toNat := by
  have hlo : ¬ ie.minBitpool < minBitpoolIe := mt lt_minBitpoolIe.mp (by omega)
  have hlo' : ¬ ie.minBitpool > maxBitpoolIe := mt gt_maxBitpoolIe.mp (by omega)
  have hhi : ¬ ie.maxBitpool > maxBitpoolIe := mt gt_maxBitpoolIe.mp (by omega)
  unfold adjustIf a2dpAdjustBitpool
  dsimp only
  rw [if_pos h.1, if_neg (by rw [h.2]; exact Bool.false_ne_true), if_neg hlo, if_neg hlo',
    if_neg hhi]
  refine ⟨rfl, ?_⟩
  dsimp only
  by_cases hgt : ie.minBitpool > ie.maxBitpool
  · have hnat := gt_iff_toNat.mp hgt
    rw [if_pos hgt, Nat.max_eq_left (by omega)]
  · have hnat := mt gt_iff_toNat.mpr hgt
    rw [if_neg hgt, Nat.max_eq_right (by omega)]

theorem adjustIf_bits (env : Env) (ie : SbcCie) :
    (adjustIf env ie).sampFreq = ie.sampFreq ∧ (adjustIf env ie).chMode = ie.chMode ∧
      (adjustIf env ie).blockLen = ie.blockLen ∧ (adjustIf env ie).numSubbands = ie.numSubbands ∧
      (adjustIf env ie).allocMethod = ie.allocMethod := by
  unfold adjustIf a2dpAdjustBitpool
  split
  · split <;> exact ⟨rfl, rfl, rfl, rfl, rfl⟩
  · exact ⟨rfl, rfl, rfl, rfl, rfl⟩

theorem SbcCie.Valid.adjustIf_eq (h : ie.Valid) (env : Env) : adjustIf env ie = ie := by
  by_cases henv : env.Adjusts
  · have hle := h.min_le_max
    have hmax := h.max_le
    obtain ⟨hpool, hpool'⟩ := adjustIf_bitpool henv h.two_le_min (by omega) hmax
    obtain ⟨hfreq, hmode, hblocks, hbands, halloc⟩ := adjustIf_bits env ie
    rw [Nat.max_eq_right hle, UInt8.toNat_inj] at hpool'
    exact SbcCie.ext hfreq hmode hblocks hbands halloc hpool hpool'
  · exact adjustIf_of_not_adjusts henv ie

/-- The fields are read as they were written. -/
theorem SbcCie.Valid.parse_eq (h : ie.Valid) (isCapability : Bool) (env : Env) :
    a2dpParseInfoSbc env ie.bytes isCapability = checkInfo ie isCapability := by
  have hfreq : (ie.sampFreq ||| ie.chMode) &&& sampFreqMsk = ie.sampFreq :=
    or_and_of_within h.sampFreq (h.chMode.and_disjoint rfl)
  have hmode : (ie.sampFreq ||| ie.chMode) &&& chModeMsk = ie.chMode := by
    rw [UInt8.or_comm]
    exact or_and_of_within h.chMode (h.sampFreq.and_disjoint rfl)
  have hblocks : (ie.blockLen ||| ie.numSubbands ||| ie.allocMethod) &&& blocksMsk =
      ie.blockLen := by
    rw [UInt8.or_assoc]
    exact or_and_of_within h.blockLen
      (or_and_eq_zero (h.numSubbands.and_disjoint rfl) (h.allocMethod.and_disjoint rfl))
  have hbands : (ie.blockLen ||| ie.numSubbands ||| ie.allocMethod) &&& subbandMsk =
      ie.numSubbands := by
    rw [UInt8.or_comm ie.blockLen, UInt8.or_assoc]
    exact or_and_of_within h.numSubbands
      (or_and_eq_zero (h.blockLen.and_disjoint rfl) (h.allocMethod.and_disjoint rfl))
  have halloc : (ie.blockLen ||| ie.numSubbands ||| ie.allocMethod) &&& allocMsk =
      ie.allocMethod := by
    rw [UInt8.or_comm]
    exact or_and_of_within h.allocMethod
      (or_and_eq_zero (h.blockLen.and_disjoint rfl) (h.numSubbands.and_disjoint rfl))
  have hfields : a2dpParseInfoSbc env ie.bytes isCapability = checkInfo (adjustIf env
      { sampFreq := (ie.sampFreq ||| ie.chMode) &&& sampFreqMsk
        chMode := (ie.sampFreq ||| ie.chMode) &&& chModeMsk
        blockLen := (ie.blockLen ||| ie.numSubbands ||| ie.allocMethod) &&& blocksMsk
        numSubbands := (ie.blockLen ||| ie.numSubbands ||| ie.allocMethod) &&& subbandMsk
        allocMethod := (ie.blockLen ||| ie.numSubbands ||| ie.allocMethod) &&& allocMsk
        minBitpool := ie.minBitpool
        maxBitpool := ie.maxBitpool }) isCapability := by
    unfold a2dpParseInfoSbc
    rw [if_neg (fun hlosc => hlosc rfl), if_neg]
    · rfl
    · rintro (hmedia | hcodec)
      · exact hmedia (by change (0 : UInt8) >>> 4 = 0; decide)
      · exact hcodec rfl
  rw [hfields, hfreq, hmode, hblocks, hbands, halloc, h.adjustIf_eq]

/-- **Round trip of an element.** -/
theorem SbcCie.Valid.parse (h : ie.Valid) (hbits : ie.BitsOk isCapability) (env : Env) :
    a2dpParseInfoSbc env ie.bytes isCapability = .ok ie := by
  rw [h.parse_eq]
  exact checkInfo_eq_ok.mpr ⟨rfl, h.two_le_min, h.min_le_max, h.max_le, hbits⟩

/-- What is parsed can be built again. -/
theorem valid_of_parse {env : Env} {info : Vector UInt8 7}
    (h : a2dpParseInfoSbc env info isCapability = .ok ie) :
    ie.Valid ∧ ie.BitsOk isCapability := by
  have hmask (x mask : UInt8) : Within (x &&& mask) mask := by
    rw [Within, UInt8.and_assoc, UInt8.and_self]
  unfold a2dpParseInfoSbc at h
  split at h
  · cases h
  split at h
  · cases h
  obtain ⟨hie, hmin, hle, hmax, hbits⟩ := checkInfo_eq_ok.mp h
  obtain ⟨hfreq, hmode, hblocks, hbands, halloc⟩ := adjustIf_bits env
    { sampFreq := info[3] &&& sampFreqMsk
      chMode := info[3] &&& chModeMsk
      blockLen := info[4] &&& blocksMsk
      numSubbands := info[4] &&& subbandMsk
      allocMethod := info[4] &&& allocMsk
      minBitpool := info[5]
      maxBitpool := info[6] }
  rw [← hie] at hmin hle hmax hbits hfreq hmode hblocks hbands halloc
  refine ⟨⟨?_, ?_, ?_, ?_, ?_, hmin, hle, hmax⟩, hbits⟩
  · rw [hfreq]
    exact hmask _ _
  · rw [hmode]
    exact hmask _ _
  · rw [hblocks]
    exact hmask _ _
  · rw [hbands]
    exact hmask _ _
  · rw [halloc]
    exact hmask _ _

/-! ### The choice of a bit -/

/-- A single bit that both sides have. -/
structure Chosen (caps peer m : UInt8) : Prop where
  single : m ∈ singleBits
  caps : Within m caps
  peer : Within m peer

theorem Chosen.ne_zero {peer : UInt8} (h : Chosen caps peer m) : caps &&& peer ≠ 0 := by
  intro hzero
  have hm : m = 0 := by
    rw [← h.peer, ← h.caps, UInt8.and_assoc, hzero, UInt8.and_zero]
  exact absurd (hm ▸ h.single) (by decide)

theorem Chosen.mono {caps' peer : UInt8} (h : Chosen caps peer m) (hcaps : Within caps caps') :
    Chosen caps' peer m :=
  ⟨h.single, h.caps.trans hcaps, h.peer⟩

theorem chosen_firstSet {peer : UInt8} (horder : order ⊆ singleBits)
    (h : firstSet (caps &&& peer) order = some m) : Chosen caps peer m := by
  have hm : m ∈ singleBits := horder (List.mem_of_find?_eq_some h)
  have hset := List.find?_some h
  rw [decide_eq_true_eq] at hset
  have hwithin := within_of_singleBit hm hset
  exact ⟨hm, hwithin.left, hwithin.right⟩

/-- If none of the bits is set, and there are no others, nothing is set. -/
theorem eq_zero_of_firstSet {bits : UInt8} (h : firstSet bits order = none)
    (hall : Within bits (order.foldr (· ||| ·) 0)) : bits = 0 := by
  have hnone : ∀ bit ∈ order, bit &&& bits = 0 := by
    intro bit hbit
    have hunset := List.find?_eq_none.mp h bit hbit
    rw [decide_eq_true_eq, not_not] at hunset
    rw [UInt8.and_comm]
    exact hunset
  have hfold : order.foldr (· ||| ·) 0 &&& bits = 0 := by
    clear h hall
    induction order with
    | nil => exact UInt8.zero_and
    | cons bit order ih =>
      rw [List.foldr_cons]
      exact or_and_eq_zero (hnone bit List.mem_cons_self)
        (ih fun b hb => hnone b (List.mem_cons_of_mem bit hb))
  rw [← hall, UInt8.and_comm]
  exact hfold

theorem within_and_left (x y : UInt8) : Within (x &&& y) x := by
  rw [Within, UInt8.and_comm x y, UInt8.and_assoc, UInt8.and_self]

/-- A choice by bits that are all there are in the capability. -/
theorem firstSet_isSome {peer : UInt8} (horder : order ⊆ singleBits)
    (hcaps : Within caps (order.foldr (· ||| ·) 0)) (hne : caps &&& peer ≠ 0) :
    ∃ m, firstSet (caps &&& peer) order = some m ∧ Chosen caps peer m := by
  cases hfirst : firstSet (caps &&& peer) order with
  | none => exact absurd (eq_zero_of_firstSet hfirst ((within_and_left caps peer).trans hcaps)) hne
  | some m => exact ⟨m, rfl, chosen_firstSet horder hfirst⟩

namespace CodecConfigSbc

variable (c : CodecConfigSbc) (peer : SbcCie)

variable {caps : UInt8}

theorem chosen_audioSampleRate {rate : SampleRate} {peer m : UInt8}
    (h : selectAudioSampleRate rate (caps &&& peer) = some m) : Chosen caps peer m := by
  cases rate with
  | rate44100 | rate48000 => exact chosen_firstSet (by decide) h
  | other => cases h

theorem chosen_audioChannelMode {mode : ChannelModePref} {peer m : UInt8}
    (h : selectAudioChannelMode mode (caps &&& peer) = some m) : Chosen caps peer m := by
  cases mode with
  | mono | stereo => exact chosen_firstSet (by decide) h
  | none => cases h

/-- The choice tries all the bits that a capability has. -/
theorem caps_within : Within c.caps.sampFreq ([0x10, 0x20].foldr (· ||| ·) 0) ∧
    Within c.caps.chMode ([0x01, 0x02, 0x04, 0x08].foldr (· ||| ·) 0) ∧
    Within c.caps.blockLen ([0x10, 0x20, 0x40, 0x80].foldr (· ||| ·) 0) ∧
    Within c.caps.numSubbands ([0x04, 0x08].foldr (· ||| ·) 0) ∧
    Within c.caps.allocMethod ([0x01, 0x02].foldr (· ||| ·) 0) := by
  unfold caps
  cases c.isSource <;> decide

/-- The default configuration is within the capabilities, so that its bits may be taken. -/
theorem default_within_caps : Within a2dpSbcDefaultConfig.sampFreq c.caps.sampFreq ∧
    Within a2dpSbcDefaultConfig.chMode c.caps.chMode := by
  unfold caps
  cases c.isSource <;> decide

/-- A choice by preferences, then among the default bits, then among all. -/
theorem choice_spec {dflt peer : UInt8} {order : List UInt8} {user audio : Option UInt8}
    (horder : order ⊆ singleBits) (hcaps : Within caps (order.foldr (· ||| ·) 0))
    (hdflt : Within dflt caps) (huser : ∀ m, user = some m → Chosen caps peer m)
    (haudio : ∀ m, audio = some m → Chosen caps peer m) {choice : Option UInt8}
    (hchoice : choice = user.or (audio.or
      ((firstSet (dflt &&& peer) order).or (firstSet (caps &&& peer) order)))) :
    (∀ m, choice = some m → Chosen caps peer m) ∧ (caps &&& peer ≠ 0 → choice ≠ none) := by
  subst hchoice
  constructor
  · intro m h
    simp only [Option.or_eq_some_iff] at h
    rcases h with h | ⟨-, h | ⟨-, h | ⟨-, h⟩⟩⟩
    · exact huser m h
    · exact haudio m h
    · exact (chosen_firstSet horder h).mono hdflt
    · exact chosen_firstSet horder h
  · intro hne hnone
    obtain ⟨m, hm, -⟩ := firstSet_isSome horder hcaps hne
    simp only [Option.or_eq_none_iff] at hnone
    exact absurd (hm.symm.trans hnone.2.2.2) (by simp)

theorem selectSampFreq_spec :
    (∀ m, c.selectSampFreq peer = some m → Chosen c.caps.sampFreq peer.sampFreq m) ∧
      (c.caps.sampFreq &&& peer.sampFreq ≠ 0 → c.selectSampFreq peer ≠ none) := by
  exact choice_spec (by decide) c.caps_within.1 c.default_within_caps.1
    (fun _ h => chosen_audioSampleRate h) (fun _ h => chosen_audioSampleRate h) rfl

theorem selectChMode_spec :
    (∀ m, c.selectChMode peer = some m → Chosen c.caps.chMode peer.chMode m) ∧
      (c.caps.chMode &&& peer.chMode ≠ 0 → c.selectChMode peer ≠ none) := by
  exact choice_spec (by decide) c.caps_within.2.1 c.default_within_caps.2
    (fun _ h => chosen_audioChannelMode h) (fun _ h => chosen_audioChannelMode h) rfl

end CodecConfigSbc

/-- The two sides have a bit of each field in common. -/
structure Compatible (caps peer : SbcCie) : Prop where
  sampFreq : caps.sampFreq &&& peer.sampFreq ≠ 0
  chMode : caps.chMode &&& peer.chMode ≠ 0
  blockLen : caps.blockLen &&& peer.blockLen ≠ 0
  numSubbands : caps.numSubbands &&& peer.numSubbands ≠ 0
  allocMethod : caps.allocMethod &&& peer.allocMethod ≠ 0

/-- Each field of a configuration is a bit that both sides have. -/
structure Agreed (caps peer cfg : SbcCie) : Prop where
  sampFreq : Chosen caps.sampFreq peer.sampFreq cfg.sampFreq
  chMode : Chosen caps.chMode peer.chMode cfg.chMode
  blockLen : Chosen caps.blockLen peer.blockLen cfg.blockLen
  numSubbands : Chosen caps.numSubbands peer.numSubbands cfg.numSubbands
  allocMethod : Chosen caps.allocMethod peer.allocMethod cfg.allocMethod

/-- The bits are chosen exactly if each field has one in common. -/
theorem CodecConfigSbc.selectBits_spec (c : CodecConfigSbc) (peer : SbcCie) :
    (Compatible c.caps peer → ∃ r, c.selectBits peer = .ok r ∧ Agreed c.caps peer r ∧
      r.minBitpool = (if c.caps.minBitpool < peer.minBitpool then peer.minBitpool
        else c.caps.minBitpool) ∧
      r.maxBitpool = if c.caps.maxBitpool > peer.maxBitpool then peer.maxBitpool
        else c.caps.maxBitpool) ∧
    (¬ Compatible c.caps peer → ∃ status, c.selectBits peer = .error status ∧
      status ≠ .assertFailed) := by
  obtain ⟨-, -, hblocks, hbands, halloc⟩ := c.caps_within
  constructor
  · intro h
    obtain ⟨freq, hfreq⟩ :=
      Option.ne_none_iff_exists'.mp ((c.selectSampFreq_spec peer).2 h.sampFreq)
    obtain ⟨mode, hmode⟩ := Option.ne_none_iff_exists'.mp ((c.selectChMode_spec peer).2 h.chMode)
    obtain ⟨len, hlen, hlen'⟩ := firstSet_isSome (by decide) hblocks h.blockLen
    obtain ⟨bands, hsub, hsub'⟩ := firstSet_isSome (by decide) hbands h.numSubbands
    obtain ⟨method, hmethod, hmethod'⟩ := firstSet_isSome (by decide) halloc h.allocMethod
    refine ⟨⟨freq, mode, len, bands, method, _, _⟩, ?_, ⟨?_, ?_, hlen', hsub', hmethod'⟩, rfl, rfl⟩
    · rw [selectBits, hfreq, hmode, selectBlockLen, hlen, selectNumSubbands, hsub,
        selectAllocMethod, hmethod]
      rfl
    · exact (c.selectSampFreq_spec peer).1 freq hfreq
    · exact (c.selectChMode_spec peer).1 mode hmode
  · -- the first field without a bit in common ends it
    intro h
    unfold selectBits
    cases hfreq : c.selectSampFreq peer with
    | none => exact ⟨_, rfl, by decide⟩
    | some freq =>
    cases hmode : c.selectChMode peer with
    | none => exact ⟨_, rfl, by decide⟩
    | some mode =>
    cases hlen : c.selectBlockLen peer with
    | none => exact ⟨_, rfl, by decide⟩
    | some len =>
    cases hsub : c.selectNumSubbands peer with
    | none => exact ⟨_, rfl, by decide⟩
    | some bands =>
    cases hmethod : c.selectAllocMethod peer with
    | none => exact ⟨_, rfl, by decide⟩
    | some method =>
      refine absurd ⟨?_, ?_, ?_, ?_, ?_⟩ h
      · exact ((c.selectSampFreq_spec peer).1 freq hfreq).ne_zero
      · exact ((c.selectChMode_spec peer).1 mode hmode).ne_zero
      · exact (chosen_firstSet (by decide) hlen).ne_zero
      · exact (chosen_firstSet (by decide) hsub).ne_zero
      · exact (chosen_firstSet (by decide) hmethod).ne_zero

/-! ### The bitpool -/

/-- The bitpools of a choice: the smallest is the peer's, the largest the smaller one. -/
theorem chosen_bitpool (c : CodecConfigSbc) (h : peer.Valid) :
    (if c.caps.minBitpool < peer.minBitpool then peer.minBitpool else c.caps.minBitpool) =
        peer.minBitpool ∧
      (if c.caps.maxBitpool > peer.maxBitpool then peer.maxBitpool else c.caps.maxBitpool).toNat =
        min 53 peer.maxBitpool.toNat := by
  have hcaps : c.caps.minBitpool = 2 ∧ c.caps.maxBitpool = 53 := by
    unfold CodecConfigSbc.caps
    cases c.isSource <;> exact ⟨rfl, rfl⟩
  have hlow := h.two_le_min
  rw [hcaps.1, hcaps.2]
  constructor
  · by_cases hlt : 2 < peer.minBitpool
    · exact if_pos hlt
    · have hnat : ¬ (2 : UInt8).toNat < peer.minBitpool.toNat := mt UInt8.lt_iff_toNat_lt.mpr hlt
      rw [show (2 : UInt8).toNat = 2 from rfl] at hnat
      rw [if_neg hlt]
      exact UInt8.toNat_inj.mp (show 2 = peer.minBitpool.toNat by omega)
  · by_cases hgt : (53 : UInt8) > peer.maxBitpool
    · have hnat : peer.maxBitpool.toNat < 53 := gt_iff_toNat.mp hgt
      rw [if_pos hgt, Nat.min_eq_right (by omega)]
    · have hnat : ¬ peer.maxBitpool.toNat < (53 : UInt8).toNat := mt gt_iff_toNat.mpr hgt
      rw [show (53 : UInt8).toNat = 53 from rfl] at hnat
      rw [if_neg hgt, Nat.min_eq_left (by omega)]
      rfl

/-- What is agreed on can be sent, and is a capability and a configuration. -/
theorem Agreed.valid {caps cfg : SbcCie} (h : Agreed caps peer cfg) (hpeer : peer.Valid)
    (hlow : 2 ≤ cfg.minBitpool.toNat) (hle : cfg.minBitpool.toNat ≤ cfg.maxBitpool.toNat)
    (hhigh : cfg.maxBitpool.toNat ≤ 250) :
    cfg.Valid ∧ ∀ isCapability, cfg.BitsOk isCapability := by
  refine ⟨⟨?_, ?_, ?_, ?_, ?_, hlow, hle, hhigh⟩, fun isCapability => ⟨?_, ?_, ?_, ?_, ?_⟩⟩
  · exact h.sampFreq.peer.trans hpeer.sampFreq
  · exact h.chMode.peer.trans hpeer.chMode
  · exact h.blockLen.peer.trans hpeer.blockLen
  · exact h.numSubbands.peer.trans hpeer.numSubbands
  · exact h.allocMethod.peer.trans hpeer.allocMethod
  · exact bitsOk_of_singleBit h.sampFreq.single isCapability
  · exact bitsOk_of_singleBit h.chMode.single isCapability
  · exact bitsOk_of_singleBit h.blockLen.single isCapability
  · exact bitsOk_of_singleBit h.numSubbands.single isCapability
  · exact bitsOk_of_singleBit h.allocMethod.single isCapability

theorem CodecConfigSbc.buildResult_of_gt {result : SbcCie}
    (h : result.minBitpool > result.maxBitpool) :
    buildResult peer result = .error .unsupportedConfiguration :=
  if_pos h

theorem CodecConfigSbc.buildResult_of_valid {result : SbcCie} (hpeer : peer.Valid)
    (h : result.Valid) : buildResult peer result = .ok result.bytes := by
  have hrange : ¬ result.minBitpool > result.maxBitpool := by
    have hle := h.min_le_max
    rw [gt_iff_toNat]
    omega
  unfold buildResult
  rw [if_neg hrange, h.build, hpeer.build]
  rfl

/-- `setCodecConfig` behind the choice of the bits. -/
theorem CodecConfigSbc.setCodecConfig_eq {c : CodecConfigSbc} {env : Env} {info : Vector UInt8 7}
    (hpeer : a2dpParseInfoSbc env info isCapability = .ok peer)
    {choice : Except A2dpStatus SbcCie} (hchoice : c.selectBits peer = choice) :
    c.setCodecConfig env info isCapability =
      choice >>= fun r => buildResult peer (adjustIf env r) := by
  rw [setCodecConfig, hpeer, ← hchoice]
  rfl

/-- What a successful choice has found. -/
structure Negotiated (caps peer cfg : SbcCie) : Prop where
  valid : cfg.Valid
  bitsOk : ∀ isCapability, cfg.BitsOk isCapability
  agreed : Agreed caps peer cfg
  minBitpool : cfg.minBitpool = peer.minBitpool
  maxBitpool : cfg.maxBitpool.toNat = max peer.minBitpool.toNat (min 53 peer.maxBitpool.toNat)

section negotiation

variable {c : CodecConfigSbc} {env : Env} {info : Vector UInt8 7} {isCapability : Bool}
  {peer : SbcCie}

theorem setCodecConfig_found (hpeer : a2dpParseInfoSbc env info isCapability = .ok peer)
    (hcompatible : Compatible c.caps peer) (hbitpool : env.Adjusts ∨ peer.minBitpool.toNat ≤ 53) :
    ∃ cfg, c.setCodecConfig env info isCapability = .ok cfg.bytes ∧ Negotiated c.caps peer cfg := by
  obtain ⟨hvalid, -⟩ := valid_of_parse hpeer
  have hlow := hvalid.two_le_min
  have hle := hvalid.min_le_max
  have hhigh := hvalid.max_le
  obtain ⟨hmin, hmax⟩ := chosen_bitpool c hvalid
  obtain ⟨r, hr, hagreed, hrmin, hrmax⟩ := (c.selectBits_spec peer).1 hcompatible
  rw [hmin] at hrmin
  rw [← hrmax] at hmax
  -- the largest bitpool is raised only if the stack adjusts it
  have hpool : (adjustIf env r).minBitpool = peer.minBitpool ∧ (adjustIf env r).maxBitpool.toNat =
      max peer.minBitpool.toNat (min 53 peer.maxBitpool.toNat) := by
    by_cases hadjusts : env.Adjusts
    · have hrlow : 2 ≤ r.minBitpool.toNat := by
        rw [hrmin]
        exact hlow
      obtain ⟨hlo, hhi⟩ := adjustIf_bitpool hadjusts hrlow (by rw [hrmin]; omega) (by omega)
      rw [hlo, hhi, hrmin, hmax]
      exact ⟨rfl, rfl⟩
    · have hmeet := hbitpool.resolve_left hadjusts
      rw [adjustIf_of_not_adjusts hadjusts, hrmin, hmax]
      exact ⟨rfl, by omega⟩
  have hfinal : Agreed c.caps peer (adjustIf env r) := by
    obtain ⟨hfreq, hmode, hblocks, hbands, halloc⟩ := adjustIf_bits env r
    refine ⟨?_, ?_, ?_, ?_, ?_⟩
    · rw [hfreq]
      exact hagreed.sampFreq
    · rw [hmode]
      exact hagreed.chMode
    · rw [hblocks]
      exact hagreed.blockLen
    · rw [hbands]
      exact hagreed.numSubbands
    · rw [halloc]
      exact hagreed.allocMethod
  obtain ⟨hcfg, hbits⟩ := hfinal.valid hvalid (by rw [hpool.1]; exact hlow)
    (by rw [hpool.1, hpool.2]; omega) (by rw [hpool.2]; omega)
  exact ⟨adjustIf env r, (CodecConfigSbc.setCodecConfig_eq hpeer hr).trans
    (CodecConfigSbc.buildResult_of_valid hvalid hcfg), hcfg, hbits, hfinal, hpool.1, hpool.2⟩

theorem setCodecConfig_fails (hpeer : a2dpParseInfoSbc env info isCapability = .ok peer)
    (hnot : ¬ (Compatible c.caps peer ∧ (env.Adjusts ∨ peer.minBitpool.toNat ≤ 53))) :
    ∃ status, c.setCodecConfig env info isCapability = .error status ∧ status ≠ .assertFailed := by
  obtain ⟨hvalid, -⟩ := valid_of_parse hpeer
  obtain ⟨hmin, hmax⟩ := chosen_bitpool c hvalid
  by_cases hcompatible : Compatible c.caps peer
  · -- the bitpools do not meet, and are left as they are
    obtain ⟨r, hr, -, hrmin, hrmax⟩ := (c.selectBits_spec peer).1 hcompatible
    have hnone : ¬ env.Adjusts := fun h => hnot ⟨hcompatible, Or.inl h⟩
    have hapart : ¬ peer.minBitpool.toNat ≤ 53 := fun h => hnot ⟨hcompatible, Or.inr h⟩
    rw [hmin] at hrmin
    rw [← hrmax] at hmax
    refine ⟨_, (CodecConfigSbc.setCodecConfig_eq hpeer hr).trans
      (CodecConfigSbc.buildResult_of_gt ?_), by decide⟩
    rw [adjustIf_of_not_adjusts hnone, gt_iff_toNat, hrmin, hmax]
    omega
  · obtain ⟨status, hstatus, hne⟩ := (c.selectBits_spec peer).2 hcompatible
    exact ⟨status, CodecConfigSbc.setCodecConfig_eq hpeer hstatus, hne⟩

end negotiation

/-- **Negotiation.** With a peer whose element can be parsed, `setCodecConfig` finds a configuration
exactly if the two have a bit of each field in common and the bitpools meet, where the second is
waived if bitpools are adjusted. What it sends then is one configuration, parsed as such by every
device, and has one bit for each field that both sides offer. The assertion behind it holds.

The bitpools are not always within the own capability: a peer whose smallest one is above it, and an
adjustment, give the peer's. -/
theorem setCodecConfig_agrees (c : CodecConfigSbc) {env : Env} {info : Vector UInt8 7}
    {isCapability : Bool} {peer : SbcCie}
    (hpeer : a2dpParseInfoSbc env info isCapability = .ok peer) :
    (Compatible c.caps peer ∧ (env.Adjusts ∨ peer.minBitpool.toNat ≤ 53) →
      ∃ cfg : SbcCie, c.setCodecConfig env info isCapability = .ok cfg.bytes ∧
        (∀ env' isCapability', a2dpParseInfoSbc env' cfg.bytes isCapability' = .ok cfg) ∧
        Agreed c.caps peer cfg ∧ cfg.minBitpool = peer.minBitpool ∧
        cfg.maxBitpool.toNat = max peer.minBitpool.toNat (min 53 peer.maxBitpool.toNat)) ∧
    (¬ (Compatible c.caps peer ∧ (env.Adjusts ∨ peer.minBitpool.toNat ≤ 53)) →
      ∃ status, c.setCodecConfig env info isCapability = .error status ∧
        status ≠ .assertFailed) := by
  refine ⟨fun ⟨hcompatible, hbitpool⟩ => ?_, setCodecConfig_fails hpeer⟩
  obtain ⟨cfg, hset, hcfg⟩ := setCodecConfig_found hpeer hcompatible hbitpool
  exact ⟨cfg, hset, fun env' isCapability' => hcfg.valid.parse (hcfg.bitsOk isCapability') env',
    hcfg.agreed, hcfg.minBitpool, hcfg.maxBitpool⟩

/-- A headset with all rates and modes, whose bitpools begin at 60. -/
def highBitpoolPeer : Vector UInt8 7 := #v[6, 0, 0, 0xFF, 0xFF, 60, 80]

theorem highBitpoolPeer_exceeds_source :
    ∃ cfg : SbcCie, CodecConfigSbc.setCodecConfig ⟨true, .other, .other, .none, .none⟩ ⟨true, false⟩
        highBitpoolPeer true = .ok cfg.bytes ∧
      cfg.minBitpool = 60 ∧ cfg.maxBitpool.toNat = 60 := by
  have hpeer : a2dpParseInfoSbc ⟨true, false⟩ highBitpoolPeer true =
      .ok ⟨0xF0, 0x0F, 0xF0, 0x0C, 0x03, 60, 80⟩ := by decide
  obtain ⟨cfg, hset, -, -, hmin, hmax⟩ :=
    (setCodecConfig_agrees ⟨true, .other, .other, .none, .none⟩ hpeer).1
      ⟨⟨by decide, by decide, by decide, by decide, by decide⟩, Or.inl ⟨rfl, rfl⟩⟩
  exact ⟨cfg, hset, hmin, hmax⟩

/-! ### The other side -/

theorem Chosen.and_ne_zero {peer : UInt8} (h : Chosen caps peer m) : m &&& peer ≠ 0 := by
  rw [h.peer]
  intro hzero
  exact absurd (hzero ▸ h.single) (by decide)

/-- What has been chosen from a capability matches it. -/
theorem Negotiated.matches_peer {caps cfg : SbcCie} (h : Negotiated caps peer cfg)
    (hpeer : peer.Valid) (env : Env) :
    a2dpCodecInfoMatchesCapabilitySbc env peer cfg.bytes false = .ok () := by
  have hle := hpeer.min_le_max
  have hmin : ¬ cfg.minBitpool > peer.maxBitpool := by
    rw [gt_iff_toNat, h.minBitpool]
    omega
  have hmax : ¬ cfg.maxBitpool < peer.minBitpool := by
    rw [UInt8.lt_iff_toNat_lt, h.maxBitpool]
    omega
  rw [a2dpCodecInfoMatchesCapabilitySbc, h.valid.parse (h.bitsOk false) env]
  change ite _ _ _ = _
  rw [if_neg h.agreed.sampFreq.and_ne_zero, if_neg h.agreed.chMode.and_ne_zero,
    if_neg h.agreed.blockLen.and_ne_zero, if_neg h.agreed.numSubbands.and_ne_zero,
    if_neg h.agreed.allocMethod.and_ne_zero, if_neg hmin, if_neg hmax]

/-- **Both sides.** A device offers a capability. Whatever the other one, with any preferences and
either role, chooses from it, the first one accepts as a configuration, whether or not either of
them adjusts bitpools. -/
theorem chosen_config_accepted (c : CodecConfigSbc) {offered : SbcCie} {env env' : Env}
    {element bytes : Vector UInt8 7} (hoffer : a2dpBuildInfoSbc offered = some element)
    (hset : c.setCodecConfig env element true = .ok bytes) :
    a2dpCodecInfoMatchesCapabilitySbc env' offered bytes false = .ok () := by
  obtain ⟨hvalid, rfl⟩ := valid_of_build hoffer
  have hpeer : a2dpParseInfoSbc env offered.bytes true = .ok offered := by
    cases hparse : a2dpParseInfoSbc env offered.bytes true with
    | error status =>
      rw [CodecConfigSbc.setCodecConfig, hparse] at hset
      cases hset
    | ok peer =>
      rw [hvalid.parse_eq] at hparse
      rw [(checkInfo_eq_ok.mp hparse).1]
  by_cases hfound : Compatible c.caps offered ∧ (env.Adjusts ∨ offered.minBitpool.toNat ≤ 53)
  · obtain ⟨cfg, hcfg, hnegotiated⟩ := setCodecConfig_found hpeer hfound.1 hfound.2
    cases hcfg.symm.trans hset
    exact hnegotiated.matches_peer hvalid env'
  · obtain ⟨status, hstatus, -⟩ := setCodecConfig_fails hpeer hfound
    cases hstatus.symm.trans hset

/-- The source and the sink of the stack. -/
theorem source_sink_accepted :
    ∃ element bytes, a2dpBuildInfoSbc a2dpSbcSinkCaps = some element ∧
      CodecConfigSbc.setCodecConfig ⟨true, .rate48000, .other, .mono, .none⟩ ⟨false, false⟩ element
        true = .ok bytes ∧
      a2dpCodecInfoMatchesCapabilitySbc ⟨true, false⟩ a2dpSbcSinkCaps bytes false = .ok () := by
  have hoffer : a2dpBuildInfoSbc a2dpSbcSinkCaps = some a2dpSbcSinkCaps.bytes := by decide
  have hset : CodecConfigSbc.setCodecConfig ⟨true, .rate48000, .other, .mono, .none⟩ ⟨false, false⟩
      a2dpSbcSinkCaps.bytes true = .ok #v[6, 0, 0, 0x28, 0x15, 2, 53] := by decide
  exact ⟨_, _, hoffer, hset, chosen_config_accepted _ hoffer hset⟩

end BluetoothStack.A2dp
