import Mathlib.Tactic
import BluetoothStack.Lib.Words

/-!
# BluetoothStack.Avdt.SepConfig

The configuration in AVDTP messages (`avdt_msg_bld_cfg` and `avdt_msg_prs_cfg` in `avdt_msg.cc`).

A configuration is a row of elements: a service category, a length and as many bytes. The parser
checks the length of each element against a table, but only some categories against what is left of
the message. An element that runs past the end is then the last one, and the parser succeeds.

The builder writes one element of each array whatever its length. The parser refuses an element of
less than two bytes, so not everything that is built is parsed back.
-/

namespace BluetoothStack.Avdt

open BluetoothStack.Lib

/-! ### Configurations -/

/-- The service categories, `AVDT_CAT_TRANS` and so on. -/
inductive Cat where
  | trans
  | report
  | recov
  | protect
  | hdrcmp
  | mux
  | codec
  | delayRpt
deriving DecidableEq, Repr

namespace Cat

def toByte : Cat → UInt8
  | trans => 1
  | report => 2
  | recov => 3
  | protect => 4
  | hdrcmp => 5
  | mux => 6
  | codec => 7
  | delayRpt => 8

/-- Up to `AVDT_CAT_MAX_CUR`. -/
def ofByte (b : UInt8) : Option Cat :=
  [trans, report, recov, protect, hdrcmp, mux, codec, delayRpt].find? fun cat => cat.toByte == b

/-- `avdt_msg_ie_len_min`. -/
def lenMin : Cat → Nat
  | trans => 0
  | report => 0
  | recov => 3
  | protect => 2
  | hdrcmp => 1
  | mux => 3
  | codec => 2
  | delayRpt => 0

/-- `avdt_msg_ie_len_max`. -/
def lenMax : Cat → Nat
  | trans => 0
  | report => 0
  | recov => 3
  | protect => 255
  | hdrcmp => 1
  | mux => 7
  | codec => 255
  | delayRpt => 0

/-- `avdt_msg_ie_err`. -/
def err : Cat → Nat
  | trans => 0x23
  | report => 0x11
  | recov => 0x25
  | protect => 0x27
  | hdrcmp => 0x26
  | mux => 0x28
  | codec => 0x80
  | delayRpt => 0x80

@[simp] theorem ofByte_toByte (cat : Cat) : ofByte cat.toByte = some cat := by
  cases cat <;> decide

theorem err_ne_zero (cat : Cat) : cat.err ≠ 0 := by
  cases cat <;> decide

end Cat

/-- `AVDT_CODEC_SIZE`. -/
def codecSize : Nat := 20

/-- `AVDT_PROTECT_SIZE`. -/
def protectSize : Nat := 90

def errLength : Nat := 0x11
def errCategory : Nat := 0x17
def errPayload : Nat := 0x18
def errRecovType : Nat := 0x22
def errRecovFmt : Nat := 0x25

def sigSetconfig : Nat := 3
def sigReconfig : Nat := 5

/-- `AvdtpSepConfig`. -/
structure SepConfig where
  codecInfo : List UInt8
  protectInfo : List UInt8
  numCodec : Nat
  numProtect : Nat
  /-- The bits of `psc_mask`. -/
  psc : Cat → Bool
  recovType : UInt8
  recovMrws : UInt8
  recovMnmp : UInt8
  hdrcmpMask : UInt8

/-- The first bytes of a table of elements, at most `size` of them: the length and as many bytes. -/
def firstElem (info : List UInt8) (size : Nat) : List UInt8 :=
  info.take (min (u8 ((info.getD 0 0).toNat + 1)) size)

/-- An element without bytes. -/
def flagElem (cfg : SepConfig) (cat : Cat) : List UInt8 :=
  if cfg.psc cat then [cat.toByte, 0] else []

/-- `avdt_msg_bld_cfg`. -/
def avdtMsgBldCfg (cfg : SepConfig) : List UInt8 :=
  flagElem cfg .trans ++ (flagElem cfg .report ++
    ((if cfg.numCodec ≠ 0 then Cat.codec.toByte :: firstElem cfg.codecInfo codecSize else []) ++
    ((if cfg.numProtect ≠ 0 then Cat.protect.toByte :: firstElem cfg.protectInfo protectSize
      else []) ++ flagElem cfg .delayRpt)))

/-! ### Parsing -/

/-- The configuration as far as it is parsed, and `protect_offset`. -/
structure PrsState where
  cfg : SepConfig
  protectOffset : Nat

/-- A bit of `psc_mask`. -/
def PrsState.setPsc (st : PrsState) (cat : Cat) (b : Bool) : PrsState :=
  { st with cfg := { st.cfg with psc := Function.update st.cfg.psc cat b } }

/-- The bytes of a recovery element, and what is wrong with them. -/
def recovErr (type mrws mnmp : UInt8) : Nat :=
  if type ≠ 1 then errRecovType
  else if mrws < 0x01 ∨ mrws > 0x18 ∨ mnmp < 0x01 ∨ mnmp > 0x18 then errRecovFmt
  else 0

/-- Another protection element, if there is room for it. -/
def PrsState.addProtect (st : PrsState) (len : UInt8) (p : List UInt8) : PrsState :=
  if len.toNat + st.protectOffset < protectSize then
    ⟨{ st.cfg with
        numProtect := u8 (st.cfg.numProtect + 1)
        protectInfo := blit st.cfg.protectInfo st.protectOffset (len :: p.take len.toNat) },
      u8 (st.protectOffset + 1 + len.toNat)⟩
  else st

/-- One element: the error or zero, what is parsed, and what is left. -/
def prsElem (sigId : Nat) (st : PrsState) (elem elemLen : UInt8) (p : List UInt8) :
    Nat × PrsState × List UInt8 :=
  match Cat.ofByte elem with
  | none =>
    if sigId = sigSetconfig ∨ sigId = sigReconfig then (errCategory, st, p)
    else (0, st, p.drop elemLen.toNat)
  | some cat =>
    if elemLen.toNat > cat.lenMax ∨ elemLen.toNat < cat.lenMin then (cat.err, st, p)
    else match cat with
      | .recov =>
        let st := st.setPsc .recov true
        if p.length < 3 then (errPayload, st, p)
        else
          let type := p.getD 0 0
          let mrws := p.getD 1 0
          let mnmp := p.getD 2 0
          let cfg := { st.cfg with recovType := type, recovMrws := mrws, recovMnmp := mnmp }
          (recovErr type mrws mnmp, { st with cfg := cfg }, p.drop 3)
      | .protect =>
        let st := st.setPsc .protect false
        if p.length < elemLen.toNat then (errLength, st, p)
        else (0, st.addProtect elemLen p, p.drop elemLen.toNat)
      | .hdrcmp =>
        let st := st.setPsc .hdrcmp true
        if p.length < 1 then (errPayload, st, p)
        else (0, { st with cfg := { st.cfg with hdrcmpMask := p.getD 0 0 } }, p.drop 1)
      | .codec =>
        let st := st.setPsc .codec false
        -- an element that is too long is cut, but skipped as a whole
        let tmp := if elemLen.toNat ≥ codecSize then codecSize - 1 else elemLen.toNat
        if p.length < tmp then (errLength, st, p)
        else
          let cfg := { st.cfg with
            numCodec := u8 (st.cfg.numCodec + 1)
            codecInfo := blit st.cfg.codecInfo 0 (elemLen :: p.take tmp) }
          (0, { st with cfg := cfg }, p.drop elemLen.toNat)
      | .delayRpt => (0, st.setPsc .delayRpt true, p)
      | cat => (0, st.setPsc cat true, p.drop elemLen.toNat)

/-- The loop of `avdt_msg_prs_cfg`: the error or zero, the last element, and what is parsed. -/
def prsLoop (sigId : Nat) : Nat → PrsState → UInt8 → List UInt8 → Nat × UInt8 × PrsState
  | 0, st, elem, _ => (0, elem, st)
  | _ + 1, st, elem, [] => (0, elem, st)
  | _ + 1, st, elem, [_] => (errPayload, elem, st)
  | fuel + 1, st, _, e :: l :: p =>
    match prsElem sigId st e l p with
    | (0, st, p) => prsLoop sigId fuel st e p
    | (err, st, _) => (err, e, st)

/-- `avdt_msg_prs_cfg`: the error or zero, `p_elem`, and the configuration. -/
def avdtMsgPrsCfg (sigId : Nat) (cfg : SepConfig) (p : List UInt8) : Nat × UInt8 × SepConfig :=
  let start := { cfg with psc := fun _ => false, numCodec := 0, numProtect := 0 }
  let (err, elem, st) := prsLoop sigId p.length ⟨start, 0⟩ 0 p
  (err, elem, st.cfg)

/-! ### Elements that run past the end -/

/-- A row of elements, each with as many bytes as it says. -/
inductive Tiled : List UInt8 → Prop where
  | nil : Tiled []
  | cons (e l : UInt8) {v rest : List UInt8} :
      v.length = l.toNat → Tiled rest → Tiled (e :: l :: (v ++ rest))

/-- The elements that are accepted without a look at their end: an unknown category among
capabilities, a multiplexing element, and a codec of twenty bytes or more of which nineteen are
there. -/
def Unbounded (sigId : Nat) (e l : UInt8) (p : List UInt8) : Prop :=
  match Cat.ofByte e with
  | none => sigId ≠ sigSetconfig ∧ sigId ≠ sigReconfig
  | some .mux => 3 ≤ l.toNat ∧ l.toNat ≤ 7
  | some .codec => codecSize ≤ l.toNat ∧ codecSize - 1 ≤ p.length
  | some _ => False

/-- The elements that are accepted: the length is one of the category, and the bytes that are read
are there. -/
def Accepted (sigId : Nat) (e l : UInt8) (p : List UInt8) : Prop :=
  match Cat.ofByte e with
  | none => sigId ≠ sigSetconfig ∧ sigId ≠ sigReconfig
  | some .trans | some .report | some .delayRpt => l.toNat = 0
  | some .recov => l.toNat = 3 ∧ 3 ≤ p.length ∧ p.getD 0 0 = 1 ∧
      (1 ≤ p.getD 1 0 ∧ p.getD 1 0 ≤ 0x18) ∧ 1 ≤ p.getD 2 0 ∧ p.getD 2 0 ≤ 0x18
  | some .protect => 2 ≤ l.toNat ∧ l.toNat ≤ p.length
  | some .hdrcmp => l.toNat = 1 ∧ 1 ≤ p.length
  | some .mux => 3 ≤ l.toNat ∧ l.toNat ≤ 7
  | some .codec => 2 ≤ l.toNat ∧ min l.toNat (codecSize - 1) ≤ p.length

/-- Behind elements that are accepted and complete, one of those without a bound runs past the end.
-/
inductive Overruns (sigId : Nat) : List UInt8 → Prop where
  | here {e l : UInt8} {p : List UInt8} :
      Unbounded sigId e l p → p.length < l.toNat → Overruns sigId (e :: l :: p)
  | later {e l : UInt8} {v rest : List UInt8} :
      Accepted sigId e l (v ++ rest) → v.length = l.toNat → Overruns sigId rest →
      Overruns sigId (e :: l :: (v ++ rest))

section Elements

variable {sigId : Nat} {st : PrsState} {e l elem : UInt8} {p : List UInt8}

theorem recovErr_eq_zero {type mrws mnmp : UInt8} : recovErr type mrws mnmp = 0 ↔
    type = 1 ∧ (1 ≤ mrws ∧ mrws ≤ 0x18) ∧ 1 ≤ mnmp ∧ mnmp ≤ 0x18 := by
  simp only [recovErr, errRecovType, errRecovFmt, UInt8.lt_iff_toNat_lt, UInt8.le_iff_toNat_le]
  split_ifs <;> grind

/-- The length of an element is checked before its bytes. -/
theorem Accepted.length {cat : Cat} (h : Accepted sigId e l p) (hcat : Cat.ofByte e = some cat) :
    ¬ (l.toNat > cat.lenMax ∨ l.toNat < cat.lenMin) := by
  have hl : l.toNat < 256 := l.toNat_lt
  rw [Accepted, hcat] at h
  cases cat <;> simp only [Cat.lenMax, Cat.lenMin] at h ⊢ <;> omega

/-- An element is parsed without an error if it is one of those that are accepted, and the parser
moves on by its length. -/
theorem prsElem_spec (sigId : Nat) (st : PrsState) (e l : UInt8) (p : List UInt8) :
    ((prsElem sigId st e l p).1 = 0 ↔ Accepted sigId e l p) ∧
      (Accepted sigId e l p → (prsElem sigId st e l p).2.2 = p.drop l.toNat) := by
  rw [prsElem]
  cases hcat : Cat.ofByte e with
  | none =>
    simp only [Accepted, hcat]
    split_ifs with hset
    · exact ⟨iff_of_false (Nat.succ_ne_zero _) (by tauto), by tauto⟩
    · exact ⟨iff_of_true rfl (by tauto), fun _ => rfl⟩
  | some cat =>
    by_cases hrange : l.toNat > cat.lenMax ∨ l.toNat < cat.lenMin
    · simp only [if_pos hrange]
      have hnot : ¬ Accepted sigId e l p := fun h => h.length hcat hrange
      exact ⟨iff_of_false cat.err_ne_zero hnot, fun h => absurd h hnot⟩
    · simp only [if_neg hrange, Accepted, hcat]
      rw [not_or, not_lt, not_lt] at hrange
      cases cat <;> simp only [Cat.lenMax, Cat.lenMin] at hrange ⊢
      case recov =>
        obtain hl : l.toNat = 3 := le_antisymm hrange.1 hrange.2
        split_ifs with hshort
        · exact ⟨iff_of_false (Nat.succ_ne_zero _) (by omega), by omega⟩
        · rw [and_iff_right hl, and_iff_right (not_lt.mp hshort), recovErr_eq_zero, hl]
          exact ⟨Iff.rfl, fun _ => rfl⟩
      case protect =>
        split_ifs with hshort
        · exact ⟨iff_of_false (Nat.succ_ne_zero _) (by omega), by omega⟩
        · exact ⟨iff_of_true rfl (by omega), fun _ => rfl⟩
      case hdrcmp =>
        obtain hl : l.toNat = 1 := le_antisymm hrange.1 hrange.2
        split_ifs with hshort
        · exact ⟨iff_of_false (Nat.succ_ne_zero _) (by omega), by omega⟩
        · exact ⟨iff_of_true rfl (by omega), fun _ => by rw [hl]⟩
      -- one byte of the array is kept for the length
      case codec =>
        have htmp : (if l.toNat ≥ codecSize then codecSize - 1 else l.toNat) =
            min l.toNat (codecSize - 1) := by
          rw [codecSize]
          split_ifs <;> omega
        rw [htmp]
        split_ifs with hshort
        · exact ⟨iff_of_false (Nat.succ_ne_zero _) (by omega), by omega⟩
        · exact ⟨iff_of_true rfl (by omega), fun _ => rfl⟩
      case delayRpt => exact ⟨iff_of_true trivial (by omega), fun hl => by rw [hl]; rfl⟩
      all_goals exact ⟨iff_of_true trivial (by omega), fun _ => trivial⟩

/-- Such an element is complete or without a bound. -/
theorem Accepted.bounded_or (h : Accepted sigId e l p) :
    l.toNat ≤ p.length ∨ Unbounded sigId e l p := by
  rw [Accepted] at h
  rw [Unbounded]
  cases hcat : Cat.ofByte e with
  | none => exact .inr (by simpa only [hcat] using h)
  | some cat => cases cat <;> simp only [hcat, codecSize] at h ⊢ <;> omega

theorem Unbounded.accepted (h : Unbounded sigId e l p) : Accepted sigId e l p := by
  rw [Unbounded] at h
  rw [Accepted]
  cases hcat : Cat.ofByte e with
  | none => simpa only [hcat] using h
  | some cat => cases cat <;> simp only [hcat, codecSize] at h ⊢ <;> omega

variable {fuel : Nat}

theorem prsLoop_of_accepted (h : (prsElem sigId st e l p).1 = 0) :
    prsLoop sigId (fuel + 1) st elem (e :: l :: p) =
      prsLoop sigId fuel (prsElem sigId st e l p).2.1 e (p.drop l.toNat) := by
  obtain ⟨hiff, hrest⟩ := prsElem_spec sigId st e l p
  have hrest := hrest (hiff.mp h)
  rw [prsLoop]
  generalize prsElem sigId st e l p = r at h hrest ⊢
  obtain ⟨err, st', p'⟩ := r
  cases h
  rw [← hrest]
  rfl

theorem prsLoop_of_error (h : (prsElem sigId st e l p).1 ≠ 0) :
    (prsLoop sigId (fuel + 1) st elem (e :: l :: p)).1 ≠ 0 := by
  rw [prsLoop]
  generalize prsElem sigId st e l p = r at h ⊢
  obtain ⟨err, st', p'⟩ := r
  cases err with
  | zero => exact absurd rfl h
  | succ err => exact Nat.succ_ne_zero err

/-- What is parsed is a row of complete elements, or one of them runs past the end. -/
theorem tiled_or_overruns (hfuel : p.length ≤ fuel) (h : (prsLoop sigId fuel st elem p).1 = 0) :
    Tiled p ∨ Overruns sigId p := by
  induction fuel generalizing st elem p with
  | zero =>
    obtain rfl : p = [] := List.eq_nil_of_length_eq_zero (Nat.le_zero.mp hfuel)
    exact .inl .nil
  | succ fuel ih =>
    match p, hfuel, h with
    | [], _, _ => exact .inl .nil
    | [_], _, h => cases h
    | e :: l :: p, hfuel, h =>
      by_cases hok : (prsElem sigId st e l p).1 = 0
      · have haccepted := (prsElem_spec sigId st e l p).1.mp hok
        rw [prsLoop_of_accepted hok] at h
        by_cases hend : l.toNat ≤ p.length
        · have hsplit : p = p.take l.toNat ++ p.drop l.toNat := (List.take_append_drop _ _).symm
          have hv : (p.take l.toNat).length = l.toNat := by
            rw [List.length_take, Nat.min_eq_left hend]
          have hfuel' : (p.drop l.toNat).length ≤ fuel := by
            simp only [List.length_cons] at hfuel
            rw [List.length_drop]
            omega
          rw [hsplit]
          obtain htiled | hover := ih hfuel' h
          · exact .inl (.cons e l hv htiled)
          · refine .inr (.later ?_ hv hover)
            rw [← hsplit]
            exact haccepted
        · exact .inr (.here (haccepted.bounded_or.resolve_left hend) (not_le.mp hend))
      · exact absurd h (prsLoop_of_error hok)

/-- A message with such an element is accepted all the same. -/
theorem Overruns.accepted (h : Overruns sigId p) (hfuel : p.length ≤ fuel) :
    (prsLoop sigId fuel st elem p).1 = 0 := by
  induction h generalizing fuel st elem with
  | @here e l p hun hshort =>
    simp only [List.length_cons] at hfuel
    obtain ⟨fuel, rfl⟩ : ∃ k, fuel = k + 1 := ⟨fuel - 1, by omega⟩
    rw [prsLoop_of_accepted ((prsElem_spec sigId st e l p).1.mpr hun.accepted),
      List.drop_of_length_le hshort.le]
    cases fuel <;> rfl
  | @later e l v rest hacc hv _ ih =>
    simp only [List.length_cons, List.length_append] at hfuel
    obtain ⟨fuel, rfl⟩ : ∃ k, fuel = k + 1 := ⟨fuel - 1, by omega⟩
    rw [prsLoop_of_accepted ((prsElem_spec sigId st e l _).1.mpr hacc), ← hv, List.drop_left]
    exact ih (by omega)

theorem Overruns.parsed (h : Overruns sigId p) (cfg : SepConfig) :
    (avdtMsgPrsCfg sigId cfg p).1 = 0 :=
  h.accepted le_rfl

theorem Overruns.not_tiled (h : Overruns sigId p) : ¬ Tiled p := by
  induction h with
  | here _ hshort =>
    intro ht
    cases ht with
    | cons _ _ hv _ =>
      rw [List.length_append] at hshort
      omega
  | @later e l v rest _ hv _ ih =>
    intro ht
    generalize hp : e :: l :: (v ++ rest) = q at ht
    cases ht with
    | nil => cases hp
    | @cons e' l' v' rest' hv' ht' =>
      injection hp with he hp
      injection hp with hl hp
      subst hl
      rw [(List.append_inj hp (hv.trans hv'.symm)).2] at ih
      exact ih ht'

end Elements

/-- A list is parsed without an error only if its elements fill it. -/
def ParsesExactly (sigId : Nat) (cfg : SepConfig) (p : List UInt8) : Prop :=
  (avdtMsgPrsCfg sigId cfg p).1 = 0 → Tiled p

theorem parsesExactly_iff (sigId : Nat) (cfg : SepConfig) (p : List UInt8) :
    ParsesExactly sigId cfg p ↔ ¬ Overruns sigId p := by
  constructor
  · intro h hover
    exact hover.not_tiled (h (hover.parsed cfg))
  · intro hnot hok
    exact (tiled_or_overruns le_rfl hok).resolve_right hnot

/-! ### The round trip -/

/-- The arrays have their sizes, and the lengths of the first elements are within them. -/
structure SepConfig.Valid (cfg : SepConfig) : Prop where
  codec : cfg.codecInfo.length = codecSize
  protect : cfg.protectInfo.length = protectSize
  codecLen : (cfg.codecInfo.getD 0 0).toNat ≤ codecSize - 1
  protectLen : (cfg.protectInfo.getD 0 0).toNat ≤ protectSize

/-- The first element of an array, with its length. -/
def elemOf (info : List UInt8) : List UInt8 := info.take ((info.getD 0 0).toNat + 1)

/-- What is built is parsed without an error, to the same transport, reporting and delay reporting
bits and the same codec and protection. -/
structure RoundTrips (sigId : Nat) (target cfg : SepConfig) : Prop where
  ok : (avdtMsgPrsCfg sigId target (avdtMsgBldCfg cfg)).1 = 0
  trans : (avdtMsgPrsCfg sigId target (avdtMsgBldCfg cfg)).2.2.psc .trans = cfg.psc .trans
  report : (avdtMsgPrsCfg sigId target (avdtMsgBldCfg cfg)).2.2.psc .report = cfg.psc .report
  delayRpt : (avdtMsgPrsCfg sigId target (avdtMsgBldCfg cfg)).2.2.psc .delayRpt = cfg.psc .delayRpt
  numCodec : (avdtMsgPrsCfg sigId target (avdtMsgBldCfg cfg)).2.2.numCodec = cfg.numCodec
  codecInfo : cfg.numCodec ≠ 0 →
    elemOf (avdtMsgPrsCfg sigId target (avdtMsgBldCfg cfg)).2.2.codecInfo = elemOf cfg.codecInfo
  numProtect : (avdtMsgPrsCfg sigId target (avdtMsgBldCfg cfg)).2.2.numProtect = cfg.numProtect
  protectInfo : cfg.numProtect ≠ 0 →
    elemOf (avdtMsgPrsCfg sigId target (avdtMsgBldCfg cfg)).2.2.protectInfo = elemOf cfg.protectInfo

/-- The length of the first element is one that the parser takes and the array has room for. -/
def Fits (info : List UInt8) (size : Nat) : Prop :=
  2 ≤ (info.getD 0 0).toNat ∧ (info.getD 0 0).toNat < size

/-- There is no element, or one that fits. -/
def Plain (num : Nat) (info : List UInt8) (size : Nat) : Prop := num = 0 ∨ num = 1 ∧ Fits info size

section RoundTrip

variable {sigId : Nat} {st : PrsState} {cfg target : SepConfig} {e l : UInt8}
  {v rest p : List UInt8} {Q : Nat → PrsState → Prop}

/-- What the parser makes of these bytes. -/
def Parses (sigId : Nat) (st : PrsState) (p : List UInt8) (Q : Nat → PrsState → Prop) : Prop :=
  ∀ fuel elem, p.length ≤ fuel →
    Q (prsLoop sigId fuel st elem p).1 (prsLoop sigId fuel st elem p).2.2

theorem Parses.nil (h : Q 0 st) : Parses sigId st [] Q := by
  intro fuel elem _
  cases fuel <;> exact h

theorem Parses.cons (hok : (prsElem sigId st e l (v ++ rest)).1 = 0) (hv : v.length = l.toNat)
    (h : Parses sigId (prsElem sigId st e l (v ++ rest)).2.1 rest Q) :
    Parses sigId st (e :: l :: (v ++ rest)) Q := by
  intro fuel elem hfuel
  simp only [List.length_cons, List.length_append] at hfuel
  obtain ⟨fuel, rfl⟩ : ∃ k, fuel = k + 1 := ⟨fuel - 1, by omega⟩
  rw [prsLoop_of_accepted hok, ← hv, List.drop_left]
  exact h fuel e (by omega)

theorem Parses.error (herr : (prsElem sigId st e l p).1 ≠ 0) :
    Parses sigId st (e :: l :: p) (fun err _ => err ≠ 0) := by
  intro fuel elem hfuel
  simp only [List.length_cons] at hfuel
  obtain ⟨fuel, rfl⟩ : ∃ k, fuel = k + 1 := ⟨fuel - 1, by omega⟩
  exact prsLoop_of_error herr

/-- A bit that is set by an element without bytes. -/
def PrsState.flag (st : PrsState) (cfg : SepConfig) (cat : Cat) : PrsState :=
  { st with cfg := { st.cfg with
      psc := if cfg.psc cat then Function.update st.cfg.psc cat true else st.cfg.psc } }

variable {cat : Cat} {info : List UInt8}

theorem parses_flag (hcat : cat = .trans ∨ cat = .report ∨ cat = .delayRpt)
    (h : Parses sigId (st.flag cfg cat) rest Q) :
    Parses sigId st (flagElem cfg cat ++ rest) Q := by
  rw [flagElem]
  by_cases hset : cfg.psc cat = true
  · have helem : prsElem sigId st cat.toByte 0 ([] ++ rest) = (0, st.setPsc cat true, rest) := by
      rw [prsElem, Cat.ofByte_toByte]
      obtain rfl | rfl | rfl := hcat <;> rfl
    rw [if_pos hset]
    refine Parses.cons (v := []) (by rw [helem]) rfl ?_
    rw [PrsState.flag, if_pos hset] at h
    rw [helem]
    exact h
  · rw [PrsState.flag, if_neg hset] at h
    rw [if_neg hset]
    exact h

theorem firstElem_eq {size : Nat} (hsize : info.length = size) (hpos : 0 < size)
    (hlen : (info.getD 0 0).toNat < size) (hmax : size < 256) :
    ∃ l v, info.getD 0 0 = l ∧ v.length = l.toNat ∧ firstElem info size = l :: v ∧
      elemOf info = l :: v := by
  match info, hsize, hlen with
  | [], hsize, _ => exact absurd hsize (by simp; omega)
  | l :: v, hsize, hlen =>
    rw [List.getD_cons_zero] at hlen
    rw [List.length_cons] at hsize
    refine ⟨l, v.take l.toNat, rfl, by rw [List.length_take]; omega, ?_, rfl⟩
    rw [firstElem, List.getD_cons_zero, u8, Nat.mod_eq_of_lt (by omega), Nat.min_eq_left hlen,
      List.take_succ_cons]

/-- The codec that is parsed. -/
def PrsState.codec (st : PrsState) (cfg : SepConfig) : PrsState :=
  { st with cfg := { st.cfg with
      psc := if cfg.numCodec ≠ 0 then Function.update st.cfg.psc .codec false else st.cfg.psc
      numCodec := if cfg.numCodec ≠ 0 then u8 (st.cfg.numCodec + 1) else st.cfg.numCodec
      codecInfo := if cfg.numCodec ≠ 0 then blit st.cfg.codecInfo 0 (elemOf cfg.codecInfo)
        else st.cfg.codecInfo } }

theorem parses_codec (hc : cfg.Valid) (hlen : cfg.numCodec = 0 ∨ Fits cfg.codecInfo codecSize)
    (h : Parses sigId (st.codec cfg) rest Q) :
    Parses sigId st ((if cfg.numCodec ≠ 0 then Cat.codec.toByte :: firstElem cfg.codecInfo codecSize
      else []) ++ rest) Q := by
  rw [PrsState.codec] at h
  by_cases hnum : cfg.numCodec = 0
  · simp only [if_neg (not_not.mpr hnum)] at h ⊢
    exact h
  · simp only [if_pos hnum] at h ⊢
    obtain ⟨hl, hmax⟩ := hlen.resolve_left hnum
    obtain ⟨l, v, hl0, hv, hfirst, helem⟩ := firstElem_eq hc.codec (by decide) hmax (by decide)
    rw [hl0] at hl hmax
    have hrange : ¬ (l.toNat > Cat.codec.lenMax ∨ l.toNat < Cat.codec.lenMin) := by
      simp only [Cat.lenMax, Cat.lenMin, codecSize] at hmax ⊢
      omega
    have htmp : ¬ l.toNat ≥ codecSize := not_le.mpr hmax
    have hroom : ¬ (v ++ rest).length < l.toNat := by
      rw [List.length_append]
      omega
    have hprs : prsElem sigId st Cat.codec.toByte l (v ++ rest) =
        (0, { (st.setPsc .codec false) with cfg := { (st.setPsc .codec false).cfg with
          numCodec := u8 ((st.setPsc .codec false).cfg.numCodec + 1)
          codecInfo := blit (st.setPsc .codec false).cfg.codecInfo 0 (l :: v) } }, rest) := by
      rw [prsElem, Cat.ofByte_toByte]
      simp only [if_neg hrange, if_neg htmp, if_neg hroom]
      rw [← hv, List.take_left, List.drop_left]
    rw [hfirst, List.cons_append, List.cons_append]
    refine Parses.cons (by rw [hprs]) hv ?_
    rw [hprs, ← helem]
    exact h

/-- The protection that is parsed. -/
def PrsState.protect (st : PrsState) (cfg : SepConfig) : PrsState :=
  ⟨{ st.cfg with
      psc := if cfg.numProtect ≠ 0 then Function.update st.cfg.psc .protect false else st.cfg.psc
      numProtect := if cfg.numProtect ≠ 0 then u8 (st.cfg.numProtect + 1) else st.cfg.numProtect
      protectInfo := if cfg.numProtect ≠ 0 then blit st.cfg.protectInfo 0 (elemOf cfg.protectInfo)
        else st.cfg.protectInfo },
    if cfg.numProtect ≠ 0 then u8 (1 + (cfg.protectInfo.getD 0 0).toNat) else st.protectOffset⟩

theorem parses_protect (hc : cfg.Valid) (hoff : st.protectOffset = 0)
    (hlen : cfg.numProtect = 0 ∨ Fits cfg.protectInfo protectSize)
    (h : Parses sigId (st.protect cfg) rest Q) :
    Parses sigId st ((if cfg.numProtect ≠ 0 then
      Cat.protect.toByte :: firstElem cfg.protectInfo protectSize else []) ++ rest) Q := by
  rw [PrsState.protect] at h
  by_cases hnum : cfg.numProtect = 0
  · simp only [if_neg (not_not.mpr hnum)] at h ⊢
    exact h
  · simp only [if_pos hnum] at h ⊢
    obtain ⟨hl, hmax⟩ := hlen.resolve_left hnum
    obtain ⟨l, v, hl0, hv, hfirst, helem⟩ := firstElem_eq hc.protect (by decide) hmax (by decide)
    rw [hl0] at hl hmax h
    have hrange : ¬ (l.toNat > Cat.protect.lenMax ∨ l.toNat < Cat.protect.lenMin) := by
      simp only [Cat.lenMax, Cat.lenMin, protectSize] at hmax ⊢
      omega
    have hroom : ¬ (v ++ rest).length < l.toNat := by
      rw [List.length_append]
      omega
    -- this is the first protection element, so the array is empty
    have hfits : l.toNat + (st.setPsc .protect false).protectOffset < protectSize := by
      show l.toNat + st.protectOffset < protectSize
      omega
    have hprs : prsElem sigId st Cat.protect.toByte l (v ++ rest) =
        (0, (st.setPsc .protect false).addProtect l (v ++ rest), rest) := by
      rw [prsElem, Cat.ofByte_toByte]
      simp only [if_neg hrange, if_neg hroom]
      rw [← hv, List.drop_left]
    have hadd : (st.setPsc .protect false).addProtect l (v ++ rest) =
        ⟨{ (st.setPsc .protect false).cfg with
            numProtect := u8 ((st.setPsc .protect false).cfg.numProtect + 1)
            protectInfo := blit (st.setPsc .protect false).cfg.protectInfo 0 (l :: v) },
          u8 (1 + l.toNat)⟩ := by
      rw [PrsState.addProtect, if_pos hfits, ← hv, List.take_left]
      simp only [PrsState.setPsc, hoff, Nat.zero_add]
    rw [hfirst, List.cons_append, List.cons_append]
    refine Parses.cons (by rw [hprs]) hv ?_
    rw [hprs, hadd, ← helem]
    exact h

theorem parses_short (hl : l.toNat < cat.lenMin) :
    Parses sigId st (cat.toByte :: l :: p) (fun err _ => err ≠ 0) := by
  refine Parses.error ?_
  rw [prsElem, Cat.ofByte_toByte]
  simp only [if_pos (Or.inr hl)]
  exact cat.err_ne_zero

theorem parses_single (b : UInt8) : Parses sigId st [b] (fun err _ => err ≠ 0) := by
  intro fuel elem hfuel
  rw [List.length_singleton] at hfuel
  obtain ⟨fuel, rfl⟩ : ∃ k, fuel = k + 1 := ⟨fuel - 1, by omega⟩
  exact Nat.succ_ne_zero _

theorem parses_codec_short (hc : cfg.Valid) (hnum : cfg.numCodec ≠ 0)
    (hnot : ¬ Fits cfg.codecInfo codecSize) :
    Parses sigId st ((if cfg.numCodec ≠ 0 then Cat.codec.toByte :: firstElem cfg.codecInfo codecSize
      else []) ++ rest) (fun err _ => err ≠ 0) := by
  have hmax : (cfg.codecInfo.getD 0 0).toNat < codecSize := Nat.lt_succ_of_le hc.codecLen
  have hl : ¬ 2 ≤ (cfg.codecInfo.getD 0 0).toNat := fun hl => hnot ⟨hl, hmax⟩
  obtain ⟨l, v, hl0, -, hfirst, -⟩ := firstElem_eq hc.codec (by decide) hmax (by decide)
  rw [hl0] at hl
  rw [if_pos hnum, hfirst, List.cons_append, List.cons_append]
  exact parses_short (not_le.mp hl)

/-- A protection element that is too short, or that takes the byte behind the array as one of its
own. -/
theorem parses_protect_misfit (hc : cfg.Valid) (hnum : cfg.numProtect ≠ 0)
    (hnot : ¬ Fits cfg.protectInfo protectSize) :
    Parses sigId st ((if cfg.numProtect ≠ 0 then
      Cat.protect.toByte :: firstElem cfg.protectInfo protectSize else []) ++
        flagElem cfg .delayRpt) (fun err _ => err ≠ 0) := by
  rw [if_pos hnum]
  by_cases hmax : (cfg.protectInfo.getD 0 0).toNat < protectSize
  · have hl : ¬ 2 ≤ (cfg.protectInfo.getD 0 0).toNat := fun hl => hnot ⟨hl, hmax⟩
    obtain ⟨l, v, hl0, -, hfirst, -⟩ := firstElem_eq hc.protect (by decide) hmax (by decide)
    rw [hl0] at hl
    rw [hfirst, List.cons_append, List.cons_append]
    exact parses_short (not_le.mp hl)
  · have hlen : (cfg.protectInfo.getD 0 0).toNat = protectSize :=
      le_antisymm hc.protectLen (not_lt.mp hmax)
    obtain ⟨l, v, hinfo⟩ : ∃ l v, cfg.protectInfo = l :: v :=
      List.exists_cons_of_length_pos (by rw [hc.protect]; decide)
    have hv : v.length = 89 := by
      have hsize := hc.protect
      rw [hinfo, List.length_cons] at hsize
      exact Nat.succ.inj hsize
    rw [hinfo, List.getD_cons_zero] at hlen
    have hfirst : firstElem cfg.protectInfo protectSize = l :: v := by
      rw [firstElem, hinfo, List.getD_cons_zero, hlen]
      exact List.take_of_length_le (by rw [List.length_cons, hv]; decide)
    rw [hfirst, List.cons_append, List.cons_append, flagElem]
    have hrange : ¬ (l.toNat > Cat.protect.lenMax ∨ l.toNat < Cat.protect.lenMin) := by
      rw [hlen]
      decide
    split
    · -- the category of the delay report is taken, and its length is left
      have hlong : (v ++ [Cat.delayRpt.toByte]).length = l.toNat := by
        rw [List.length_append, hv, hlen]
        rfl
      rw [show v ++ [Cat.delayRpt.toByte, 0] = (v ++ [Cat.delayRpt.toByte]) ++ [0] by simp]
      refine Parses.cons ?_ hlong (parses_single 0)
      have hroom : ¬ (v ++ [Cat.delayRpt.toByte] ++ [0]).length < l.toNat := by
        rw [List.length_append, hlong]
        omega
      rw [prsElem, Cat.ofByte_toByte]
      simp only [if_neg hrange, if_neg hroom]
    · refine Parses.error ?_
      have hshort : (v ++ []).length < l.toNat := by
        rw [List.append_nil, hv, hlen]
        decide
      rw [prsElem, Cat.ofByte_toByte]
      simp only [if_neg hrange, if_pos hshort]
      decide

/-- What is parsed from a configuration whose elements fit. -/
def parsed (target cfg : SepConfig) : PrsState :=
  let start : PrsState := ⟨{ target with psc := fun _ => false, numCodec := 0, numProtect := 0 }, 0⟩
  ((((start.flag cfg .trans).flag cfg .report).codec cfg).protect cfg).flag cfg .delayRpt

theorem PrsState.flag_psc_of_ne {c : Cat} (h : c ≠ cat) :
    (st.flag cfg cat).cfg.psc c = st.cfg.psc c := by
  rw [PrsState.flag]
  split
  · exact Function.update_of_ne h _ _
  · rfl

theorem PrsState.flag_psc_self (h : st.cfg.psc cat = false) :
    (st.flag cfg cat).cfg.psc cat = cfg.psc cat := by
  rw [PrsState.flag]
  split <;> rename_i hset
  · rw [hset]
    exact Function.update_self _ _ _
  · rw [h, Bool.eq_false_iff.mpr hset]

theorem PrsState.codec_psc_of_ne {c : Cat} (h : c ≠ .codec) :
    (st.codec cfg).cfg.psc c = st.cfg.psc c := by
  rw [PrsState.codec]
  split
  · exact Function.update_of_ne h _ _
  · rfl

theorem PrsState.protect_psc_of_ne {c : Cat} (h : c ≠ .protect) :
    (st.protect cfg).cfg.psc c = st.cfg.psc c := by
  rw [PrsState.protect]
  split
  · exact Function.update_of_ne h _ _
  · rfl

open PrsState in
theorem parsed_psc (hcat : cat = .trans ∨ cat = .report ∨ cat = .delayRpt) :
    (parsed target cfg).cfg.psc cat = cfg.psc cat := by
  rw [parsed]
  obtain rfl | rfl | rfl := hcat
  · rw [flag_psc_of_ne (by decide), protect_psc_of_ne (by decide), codec_psc_of_ne (by decide),
      flag_psc_of_ne (by decide), flag_psc_self rfl]
  · rw [flag_psc_of_ne (by decide), protect_psc_of_ne (by decide), codec_psc_of_ne (by decide),
      flag_psc_self]
    rw [flag_psc_of_ne (by decide)]
  · rw [flag_psc_self]
    rw [protect_psc_of_ne (by decide), codec_psc_of_ne (by decide), flag_psc_of_ne (by decide),
      flag_psc_of_ne (by decide)]

theorem parsed_numCodec :
    (parsed target cfg).cfg.numCodec = if cfg.numCodec ≠ 0 then 1 else 0 := rfl

theorem parsed_numProtect :
    (parsed target cfg).cfg.numProtect = if cfg.numProtect ≠ 0 then 1 else 0 := rfl

theorem parsed_codecInfo (hnum : cfg.numCodec ≠ 0) :
    (parsed target cfg).cfg.codecInfo = blit target.codecInfo 0 (elemOf cfg.codecInfo) :=
  if_pos hnum

theorem parsed_protectInfo (hnum : cfg.numProtect ≠ 0) :
    (parsed target cfg).cfg.protectInfo = blit target.protectInfo 0 (elemOf cfg.protectInfo) :=
  if_pos hnum

theorem elemOf_blit {dst : List UInt8} {size : Nat} (hsize : info.length = size)
    (hlen : (info.getD 0 0).toNat < size) : elemOf (blit dst 0 (elemOf info)) = elemOf info := by
  obtain ⟨l, v, rfl⟩ : ∃ l v, info = l :: v := List.exists_cons_of_length_pos (by omega)
  rw [List.getD_cons_zero] at hlen
  rw [List.length_cons] at hsize
  have helem : elemOf (l :: v) = l :: v.take l.toNat := rfl
  rw [helem, blit, List.take_zero, List.nil_append, List.cons_append, elemOf, List.getD_cons_zero,
    List.take_succ_cons, List.take_left' (by rw [List.length_take]; omega)]

theorem plain_of_count {num size : Nat} (hfits : num = 0 ∨ Fits info size)
    (h : (if num ≠ 0 then 1 else 0) = num) : Plain num info size := by
  by_cases hzero : num = 0
  · exact .inl hzero
  · rw [if_pos hzero] at h
    exact .inr ⟨h.symm, hfits.resolve_left hzero⟩

theorem roundTrips_iff (sigId : Nat) (target : SepConfig) (hc : cfg.Valid) :
    RoundTrips sigId target cfg ↔
      Plain cfg.numCodec cfg.codecInfo codecSize ∧
        Plain cfg.numProtect cfg.protectInfo protectSize := by
  -- an element that does not fit is an error; elements that fit are parsed, but only once each
  have hwhole {Q : Nat → PrsState → Prop} (h : Parses sigId
      ⟨{ target with psc := fun _ => false, numCodec := 0, numProtect := 0 }, 0⟩ (avdtMsgBldCfg cfg)
        Q) :=
    h (avdtMsgBldCfg cfg).length 0 le_rfl
  by_cases hcodec : cfg.numCodec = 0 ∨ Fits cfg.codecInfo codecSize
  · by_cases hprot : cfg.numProtect = 0 ∨ Fits cfg.protectInfo protectSize
    · have hparses : (avdtMsgPrsCfg sigId target (avdtMsgBldCfg cfg)).1 = 0 ∧
          (avdtMsgPrsCfg sigId target (avdtMsgBldCfg cfg)).2.2 = (parsed target cfg).cfg := by
        refine @hwhole (fun err st => err = 0 ∧ st.cfg = (parsed target cfg).cfg) ?_
        refine parses_flag (.inl rfl) (parses_flag (.inr (.inl rfl)) (parses_codec hc hcodec
          (parses_protect hc ?_ hprot ?_)))
        · rfl
        · rw [← List.append_nil (flagElem cfg .delayRpt)]
          exact parses_flag (.inr (.inr rfl)) (Parses.nil ⟨rfl, rfl⟩)
      obtain ⟨hok, hcfg⟩ := hparses
      constructor
      · intro h
        have hnumC := h.numCodec
        have hnumP := h.numProtect
        rw [hcfg, parsed_numCodec] at hnumC
        rw [hcfg, parsed_numProtect] at hnumP
        exact ⟨plain_of_count hcodec hnumC, plain_of_count hprot hnumP⟩
      · rintro ⟨hpc, hpp⟩
        refine ⟨hok, ?_, ?_, ?_, ?_, ?_, ?_, ?_⟩
        · rw [hcfg, parsed_psc (.inl rfl)]
        · rw [hcfg, parsed_psc (.inr (.inl rfl))]
        · rw [hcfg, parsed_psc (.inr (.inr rfl))]
        · rw [hcfg, parsed_numCodec]
          obtain h | ⟨h, -⟩ := hpc <;> rw [h] <;> rfl
        · intro hnum
          rw [hcfg, parsed_codecInfo hnum, elemOf_blit hc.codec (hcodec.resolve_left hnum).2]
        · rw [hcfg, parsed_numProtect]
          obtain h | ⟨h, -⟩ := hpp <;> rw [h] <;> rfl
        · intro hnum
          rw [hcfg, parsed_protectInfo hnum, elemOf_blit hc.protect (hprot.resolve_left hnum).2]
    · rw [not_or] at hprot
      have herr : (avdtMsgPrsCfg sigId target (avdtMsgBldCfg cfg)).1 ≠ 0 :=
        hwhole (parses_flag (.inl rfl) (parses_flag (.inr (.inl rfl)) (parses_codec hc hcodec
          (parses_protect_misfit hc hprot.1 hprot.2))))
      refine iff_of_false (fun h => herr h.ok) fun h => ?_
      exact h.2.elim hprot.1 fun h => hprot.2 h.2
  · rw [not_or] at hcodec
    have herr : (avdtMsgPrsCfg sigId target (avdtMsgBldCfg cfg)).1 ≠ 0 :=
      hwhole (parses_flag (.inl rfl) (parses_flag (.inr (.inl rfl))
        (parses_codec_short hc hcodec.1 hcodec.2)))
    refine iff_of_false (fun h => herr h.ok) fun h => ?_
    exact h.1.elim hcodec.1 fun h => hcodec.2 h.2

end RoundTrip

/-! ### Capability lists -/

/-- What is built is parsed back unless a count is more than one or the length of an element does
not fit, and a list is parsed exactly unless an element without a bound runs past its end. -/
theorem sep_config_iff (sigId : Nat) :
    (∀ target cfg : SepConfig, cfg.Valid →
      (RoundTrips sigId target cfg ↔
        Plain cfg.numCodec cfg.codecInfo codecSize ∧
          Plain cfg.numProtect cfg.protectInfo protectSize)) ∧
    ∀ (cfg : SepConfig) (p : List UInt8), ParsesExactly sigId cfg p ↔ ¬ Overruns sigId p :=
  ⟨fun target _ hc => roundTrips_iff sigId target hc, parsesExactly_iff sigId⟩

/-- An SBC endpoint with delay reporting. -/
def sbcConfig : SepConfig where
  codecInfo := [6, 0, 0, 0x3f, 0xff, 2, 53] ++ List.replicate 13 0
  protectInfo := [2, 2, 0] ++ List.replicate 87 0
  numCodec := 1
  numProtect := 1
  psc cat := cat = .trans ∨ cat = .delayRpt
  recovType := 0
  recovMrws := 0
  recovMnmp := 0
  hdrcmpMask := 0

theorem sep_config_iff_sbc : RoundTrips 2 sbcConfig sbcConfig :=
  ((sep_config_iff 2).1 sbcConfig sbcConfig
    ⟨by decide, by decide, by decide, by decide⟩).mpr
    ⟨.inr ⟨rfl, by decide, by decide⟩, .inr ⟨rfl, by decide, by decide⟩⟩

/-- Capabilities that end in an unknown category, a multiplexing element or a codec of twenty bytes
are accepted without the bytes these elements announce. -/
theorem overrun_accepted :
    ((avdtMsgPrsCfg 2 sbcConfig [9, 255]).1 = 0 ∧ ¬ Tiled [9, 255]) ∧
      ((avdtMsgPrsCfg 2 sbcConfig [6, 3]).1 = 0 ∧ ¬ Tiled [6, 3]) ∧
      (avdtMsgPrsCfg 2 sbcConfig (7 :: 20 :: List.replicate 19 0)).1 = 0 ∧
        ¬ Tiled (7 :: 20 :: List.replicate 19 0) := by
  have hunknown : Overruns 2 [9, 255] := .here ⟨by decide, by decide⟩ (by decide)
  have hmux : Overruns 2 [6, 3] := .here ⟨by decide, by decide⟩ (by decide)
  have hcodec : Overruns 2 (7 :: 20 :: List.replicate 19 0) :=
    .here ⟨by decide, by decide⟩ (by decide)
  exact ⟨⟨hunknown.parsed sbcConfig, hunknown.not_tiled⟩, ⟨hmux.parsed sbcConfig, hmux.not_tiled⟩,
    hcodec.parsed sbcConfig, hcodec.not_tiled⟩

end BluetoothStack.Avdt
