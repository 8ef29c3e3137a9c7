import Mathlib
import BluetoothStack.Lib.Words

/-!
# BluetoothStack.Sdp.Discovery

The data elements of a discovery response (`add_attr` of `sdp_discovery.cc`).

A pointer into the response is the list of the bytes up to `p_end`. The function returns where it
stands afterwards, what is left of the memory of the database, and the calls it made for the
elements inside this one. The stored values are left out: nothing here reads them.

An element ends where its header says only for some responses, which `Plain` describes: lengths are
cut to twelve bits, an entry of a list may reach beyond it, elements of a reserved type are not
skipped, and in the additional protocol lists an integer takes the element behind it along.
-/

namespace BluetoothStack.Sdp

open Lib

/-! ### The source -/

/-- `sdpu_get_len_from_type`: the bytes after the element header and the declared length.
`detectNil` is the flag `stack_sdp_detect_nil_property_type`. -/
def sdpuGetLenFromType (detectNil : Bool) (type : UInt8) (p : List UInt8) :
    Option (List UInt8 × Nat) :=
  match (type &&& 7).toNat with
  | 0 => some (p, if detectNil && type == 0 then 0 else 1)
  | 1 => some (p, 2)
  | 2 => some (p, 4)
  | 3 => some (p, 8)
  | 4 => some (p, 16)
  | 5 =>
    match p with
    | a :: p => some (p, a.toNat)
    | _ => none
  | 6 =>
    match p with
    | a :: b :: p => some (p, a.toNat * 256 + b.toNat)
    | _ => none
  | _ =>
    -- the 32-bit length is cut to its low sixteen bits
    match p with
    | _ :: _ :: c :: d :: p => some (p, c.toNat * 256 + d.toNat)
    | _ => none

/-- `MAX_NEST_LEVELS`. -/
def maxNestLevels : Nat := 5

/-- `ATTR_ID_PROTOCOL_DESC_LIST`. -/
def attrIdProtocolDescList : Nat := 0x0004

/-- `ATTR_ID_ADDITION_PROTO_DESC_LISTS`. -/
def attrIdAdditionProtoDescLists : Nat := 0x000D

/-- `sizeof(tSDP_DISC_ATTR)`. -/
def sizeofDiscAttr : Nat := 24

/-- The type descriptors that `add_attr` tells apart. -/
inductive DescType where
  | uint
  | twoCompInt
  | uuid
  | textStr
  | boolean
  | dataEleSeq
  | dataEleAlt
  | url
  | other
deriving DecidableEq, Repr

/-- Only four bits of the descriptor are looked at. -/
def descType (type : UInt8) : DescType :=
  match ((type >>> 3) &&& 0x0F).toNat with
  | 1 => .uint
  | 2 => .twoCompInt
  | 3 => .uuid
  | 4 => .textStr
  | 5 => .boolean
  | 6 => .dataEleSeq
  | 7 => .dataEleAlt
  | 8 => .url
  | _ => .other

/-- What an attribute takes of the database, as a multiple of four. -/
def totalLen (attrLen : Nat) : Nat :=
  ((if attrLen > 4 then attrLen - 4 + sizeofDiscAttr else sizeofDiscAttr) + 3) / 4 * 4

/-- A call for an element inside another one, and what it returned. -/
structure Visit where
  parent : List UInt8
  start : List UInt8
  stop : List UInt8
deriving DecidableEq, Repr

/-- Where the parser stands, unless it gave up, with the calls it made; and `mem_free`, of which a
negative value is an underflow. -/
structure Outcome where
  next : Option (List UInt8 × List Visit)
  memFree : Int
deriving DecidableEq, Repr

/-- The loop over the entries of a list. `endLen` is the number of bytes behind the list. -/
def addEntries (add : List UInt8 → Int → Outcome) (parent : List UInt8) (endLen : Nat) :
    Nat → List UInt8 → Int → Outcome
  | 0, p, mem => ⟨if endLen < p.length then none else some (p, []), mem⟩
  | fuel + 1, p, mem =>
    if endLen < p.length then
      match add p mem with
      | ⟨none, mem⟩ => ⟨none, mem⟩
      | ⟨some (q, visits), mem⟩ =>
        let r := addEntries add parent endLen fuel q mem
        ⟨r.next.map (fun t => (t.1, ⟨parent, p, q⟩ :: (visits ++ t.2))), r.memFree⟩
    else ⟨some (p, []), mem⟩

/-- The call for the next nesting level, with the list mode and the attribute id. There is none at
the last level. -/
abbrev Inner := Option (Bool → Nat → List UInt8 → Int → Outcome)

/-- The switch of `add_attr`. -/
def attrValue (inner : Inner) (additional : Bool) (attrId : Nat) (start : List UInt8)
    (type : DescType) (data : List UInt8) (attrLen : Nat) (mem : Int) : Outcome :=
  let attrEnd := data.drop attrLen
  let stored : Outcome := ⟨some (attrEnd, []), mem - totalLen attrLen⟩
  let ignored : Outcome := ⟨some (attrEnd, []), mem⟩
  let tooDeep : Outcome := ⟨some (attrEnd, []), mem - sizeofDiscAttr⟩
  match type with
  | .uint =>
    if additional ∧ attrLen = 2 ∧ beValue (data.take 2) = attrIdProtocolDescList then
      match inner with
      | none => tooDeep
      | some add =>
        let r := add false attrIdProtocolDescList (data.drop 2) (mem - sizeofDiscAttr)
        ⟨r.next.map (fun t => (t.1, ⟨start, data.drop 2, t.1⟩ :: t.2)), r.memFree⟩
    else stored
  | .twoCompInt => stored
  | .uuid => if attrLen = 2 ∨ attrLen = 4 ∨ attrLen = 16 then stored else ignored
  | .dataEleSeq | .dataEleAlt =>
    match inner with
    | none => tooDeep
    | some add =>
      addEntries (add (additional || attrId == attrIdAdditionProtoDescLists) 0) start
        (data.length - attrLen) data.length data (mem - sizeofDiscAttr)
  | .textStr | .url => stored
  | .boolean => if attrLen = 1 then stored else ignored
  | .other => ⟨some (data, []), mem - totalLen attrLen⟩

/-- `add_attr` at one nesting level. -/
def attrAt (detectNil : Bool) (inner : Inner) (additional : Bool) (attrId : Nat)
    (bytes : List UInt8) (mem : Int) : Outcome :=
  match bytes with
  | [] => ⟨none, mem⟩
  | type :: p =>
    match sdpuGetLenFromType detectNil type p with
    | none => ⟨none, mem⟩
    | some (data, len) =>
      -- `SDP_DISC_ATTR_LEN_MASK`
      let attrLen := len % 4096
      if data.length < len then ⟨none, mem⟩
      else if data.length < attrLen then ⟨none, mem⟩
      else if mem < totalLen attrLen then ⟨none, mem⟩
      else attrValue inner additional attrId bytes (descType type) data attrLen mem

/-- `add_attr`, with the number of nesting levels still allowed. -/
def addAttr (detectNil : Bool) : Nat → Bool → Nat → List UInt8 → Int → Outcome
  | 0 => attrAt detectNil none
  | levels + 1 => attrAt detectNil (some (addAttr detectNil levels))

/-! ### What a header declares -/

/-- The bytes behind the header of an element and the declared length. -/
def declaredHeader : List UInt8 → Option (List UInt8 × Nat)
  | [] => none
  | type :: p =>
    match (type &&& 7).toNat with
    | 0 => some (p, if type == 0 then 0 else 1)
    | 1 => some (p, 2)
    | 2 => some (p, 4)
    | 3 => some (p, 8)
    | 4 => some (p, 16)
    | 5 =>
      match p with
      | a :: p => some (p, a.toNat)
      | _ => none
    | 6 =>
      match p with
      | a :: b :: p => some (p, a.toNat * 256 + b.toNat)
      | _ => none
    | _ =>
      match p with
      | a :: b :: c :: d :: p =>
        some (p, (a.toNat * 256 + b.toNat) * 65536 + (c.toNat * 256 + d.toNat))
      | _ => none

/-- The bytes behind an element, if it is there as a whole. -/
def declaredEnd (bytes : List UInt8) : Option (List UInt8) :=
  match declaredHeader bytes with
  | none => none
  | some (data, len) => if len ≤ data.length then some (data.drop len) else none

/-- A call that ended where its element ends, inside the element around it. -/
def Visit.Respects (v : Visit) : Prop :=
  declaredEnd v.start = some v.stop ∧ ∃ outer ∈ declaredEnd v.parent, outer.length ≤ v.stop.length

/-- What a parser of data elements owes: an element is left at its end, the ones inside it too and
within its extent, one that is not there as a whole is rejected, and the memory suffices. -/
structure RespectsBoundaries (bytes : List UInt8) (r : Outcome) : Prop where
  exact : ∀ q visits, r.next = some (q, visits) → declaredEnd bytes = some q
  nested : ∀ q visits, r.next = some (q, visits) → ∀ v ∈ visits, v.Respects
  rejects : declaredEnd bytes = none → r.next = none
  memory : 0 ≤ r.memFree

/-- Elements one after the other, up to `stop`. Every one of them begins in front of the last
`endLen` bytes. -/
inductive Tiles (plain : List UInt8 → Prop) (stop : List UInt8) (endLen : Nat) :
    List UInt8 → Prop where
  | done : stop.length ≤ endLen → Tiles plain stop endLen stop
  | entry {p q : List UInt8} : endLen < p.length → plain p → declaredEnd p = some q →
      Tiles plain stop endLen q → Tiles plain stop endLen p

/-- An element of this type, with `len` bytes in front of the rest of `data`, ends where it should.
-/
def PlainValue (inner : Option (Bool → Nat → List UInt8 → Prop)) (additional : Bool) (attrId : Nat)
    (type : DescType) (data : List UInt8) (len : Nat) : Prop :=
  match type with
  | .other => len = 0
  | .dataEleSeq | .dataEleAlt =>
    match inner with
    | none => len < 4096
    | some plain =>
      Tiles (plain (additional || attrId == attrIdAdditionProtoDescLists) 0) (data.drop len)
        (data.length - len % 4096) data
  | .uint =>
    if additional ∧ len % 4096 = 2 ∧ beValue (data.take 2) = attrIdProtocolDescList then
      match inner with
      | none => len < 4096
      | some plain => plain false attrIdProtocolDescList (data.drop 2) ∧
          declaredEnd (data.drop 2) = some (data.drop len)
    else len < 4096
  | _ => len < 4096

/-- An element whose value is plain, there as a whole. -/
def PlainAt (inner : Option (Bool → Nat → List UInt8 → Prop)) (additional : Bool) (attrId : Nat)
    (bytes : List UInt8) : Prop :=
  ∃ type ∈ bytes.head?, ∃ data len, declaredHeader bytes = some (data, len) ∧ len ≤ data.length ∧
    PlainValue inner additional attrId (descType type) data len

/-- Elements that `add_attr` leaves at their end, with the number of nesting levels still allowed.
-/
def Plain : Nat → Bool → Nat → List UInt8 → Prop
  | 0 => PlainAt none
  | levels + 1 => PlainAt (some (Plain levels))

/-- The element is refused for what its header says: the low sixteen bits of the declared length are
not there, or the attribute does not fit the memory. An incomplete header is always refused. -/
def RefusedByHeader (bytes : List UInt8) (mem : Int) : Prop :=
  ∀ data len, declaredHeader bytes = some (data, len) →
    data.length < len % 65536 ∨ mem < totalLen (len % 4096)

/-- The value of an element of this type is read without a call for another element. -/
def readAlone (levels : Nat) (additional : Bool) (type : DescType) : Bool :=
  levels = 0 || type ≠ .dataEleSeq && type ≠ .dataEleAlt && !(additional && type = .uint)

/-! ### Headers and memory -/

section Headers

variable {detectNil : Bool} {type : UInt8} {p q data bytes : List UInt8} {l len : Nat}

/-- The source finds the header, and the length up to its low sixteen bits. -/
theorem declaredHeader_of_getLen (h : sdpuGetLenFromType detectNil type p = some (data, l)) :
    ∃ len, declaredHeader (type :: p) = some (data, len) ∧ (type ≠ 0 → l = len % 65536) := by
  have hsize : (type &&& 7).toNat < 8 := by
    rw [UInt8.toNat_and]
    exact lt_of_le_of_lt Nat.and_le_right (by decide)
  unfold sdpuGetLenFromType at h
  unfold declaredHeader
  dsimp only at h ⊢
  generalize (type &&& 7).toNat = size at h hsize ⊢
  have hbyte : ∀ b : UInt8, b.toNat < 256 := UInt8.toNat_lt
  -- five sizes are given by the type, three by the bytes behind it
  interval_cases size
  · cases h
    refine ⟨_, rfl, fun hne => ?_⟩
    simp [hne]
  · cases h
    exact ⟨_, rfl, fun _ => rfl⟩
  · cases h
    exact ⟨_, rfl, fun _ => rfl⟩
  · cases h
    exact ⟨_, rfl, fun _ => rfl⟩
  · cases h
    exact ⟨_, rfl, fun _ => rfl⟩
  · match p, h with
    | a :: p, h =>
      cases h
      have ha := hbyte a
      exact ⟨_, rfl, fun _ => by omega⟩
  · match p, h with
    | a :: b :: p, h =>
      cases h
      have ha := hbyte a
      have hb := hbyte b
      exact ⟨_, rfl, fun _ => by omega⟩
  · match p, h with
    | a :: b :: c :: d :: p, h =>
      cases h
      have hc := hbyte c
      have hd := hbyte d
      exact ⟨_, rfl, fun _ => by omega⟩

theorem getLen_of_declaredHeader (detectNil : Bool)
    (h : declaredHeader (type :: p) = some (data, len)) :
    (sdpuGetLenFromType detectNil type p).isSome := by
  unfold declaredHeader at h
  unfold sdpuGetLenFromType
  dsimp only at h ⊢
  split at h
  all_goals first
    | rfl
    | (split at h <;> cases h; simp [*])

theorem declaredHeader_length (h : declaredHeader bytes = some (data, len)) :
    data.length < bytes.length := by
  cases bytes with
  | nil => cases h
  | cons type p =>
    unfold declaredHeader at h
    dsimp only at h
    split at h
    all_goals first
      | (cases h; exact Nat.lt_succ_self _)
      | (split at h <;> cases h; simp only [List.length_cons]; omega)

theorem declaredEnd_eq (h : declaredHeader bytes = some (data, len)) :
    declaredEnd bytes = if len ≤ data.length then some (data.drop len) else none := by
  rw [declaredEnd, h]

theorem declaredEnd_length (h : declaredEnd bytes = some q) : q.length < bytes.length := by
  rw [declaredEnd] at h
  split at h
  · cases h
  next data len hhdr =>
    have hlen := declaredHeader_length hhdr
    split at h
    · cases h
      rw [List.length_drop]
      omega
    · cases h

end Headers

/-! ### Lists -/

/-- The parser left an element at its end, and every element inside it. -/
def LeftAtEnd (bytes : List UInt8) (t : List UInt8 × List Visit) : Prop :=
  declaredEnd bytes = some t.1 ∧ ∀ v ∈ t.2, v.Respects

/-- A parser of elements moves on, leaves no debt in the memory, and is right for the plain ones
exactly. -/
structure Parses (add : List UInt8 → Int → Outcome) (plain : List UInt8 → Prop) : Prop where
  advances : ∀ {p mem t}, (add p mem).next = some t → t.1.length < p.length
  memory : ∀ p {mem}, 0 ≤ mem → 0 ≤ (add p mem).memFree
  leftAtEnd_iff : ∀ {p mem t}, (add p mem).next = some t → (LeftAtEnd p t ↔ plain p)

section Lists

variable {add : List UInt8 → Int → Outcome} {plain : List UInt8 → Prop} {endLen fuel : Nat}
  {parent p stop : List UInt8} {mem : Int} {t : List UInt8 × List Visit}

/-- A round of the loop that another one follows. -/
theorem addEntries_succ (hp : endLen < p.length)
    (ht : (addEntries add parent endLen (fuel + 1) p mem).next = some t) :
    ∃ u u' mem', (add p mem).next = some u ∧
      (addEntries add parent endLen fuel u.1 mem').next = some u' ∧
      t = (u'.1, ⟨parent, p, u.1⟩ :: (u.2 ++ u'.2)) := by
  rw [addEntries, if_pos hp] at ht
  split at ht
  · cases ht
  next q visits mem' hadd =>
    obtain ⟨u', hu', rfl⟩ := Option.map_eq_some_iff.mp ht
    exact ⟨(q, visits), u', mem', congrArg Outcome.next hadd, hu', rfl⟩

theorem addEntries_stop (hp : ¬ endLen < p.length) (fuel : Nat) :
    addEntries add parent endLen fuel p mem = ⟨some (p, []), mem⟩ := by
  cases fuel <;> simp [addEntries, hp]

theorem Parses.entries_length (h : Parses add plain)
    (ht : (addEntries add parent endLen fuel p mem).next = some t) : t.1.length ≤ p.length := by
  induction fuel generalizing p mem t with
  | zero =>
    rw [addEntries] at ht
    split at ht <;> cases ht
    exact le_rfl
  | succ fuel ih =>
    by_cases hp : endLen < p.length
    · obtain ⟨u, u', mem', hu, hu', rfl⟩ := addEntries_succ hp ht
      exact (ih hu').trans (h.advances hu).le
    · rw [addEntries_stop hp] at ht
      cases ht
      exact le_rfl

theorem Parses.entries_memory (h : Parses add plain) (fuel : Nat) (p : List UInt8)
    (hmem : 0 ≤ mem) : 0 ≤ (addEntries add parent endLen fuel p mem).memFree := by
  induction fuel generalizing p mem with
  | zero => exact hmem
  | succ fuel ih =>
    have hadd := h.memory p hmem
    rw [addEntries]
    split
    · split
      next heq => rwa [heq] at hadd
      next q visits mem' heq =>
        rw [heq] at hadd
        exact ih q hadd
    · exact hmem

theorem Tiles.length_le (h : Tiles plain stop endLen p) : stop.length ≤ p.length := by
  induction h with
  | done _ => exact le_rfl
  | entry _ _ hend _ ih => exact ih.trans (declaredEnd_length hend).le

theorem tiles_of_le (hp : ¬ endLen < p.length) : Tiles plain stop endLen p ↔ p = stop := by
  constructor
  · intro h
    cases h with
    | done _ => rfl
    | entry hlt _ _ _ => exact absurd hlt hp
  · rintro rfl
    exact .done (by omega)

theorem tiles_of_lt (hp : endLen < p.length) : Tiles plain stop endLen p ↔
    plain p ∧ ∃ q, declaredEnd p = some q ∧ Tiles plain stop endLen q := by
  constructor
  · intro h
    cases h with
    | done hle => exact absurd hp (by omega)
    | entry _ hplain hend hrest => exact ⟨hplain, _, hend, hrest⟩
  · rintro ⟨hplain, q, hend, hrest⟩
    exact .entry hp hplain hend hrest

/-- The loop is right for a list exactly if its entries are plain and fill it. -/
theorem Parses.entries_iff (h : Parses add plain) (hstop : declaredEnd parent = some stop)
    (ht : (addEntries add parent endLen fuel p mem).next = some t) :
    LeftAtEnd parent t ↔ Tiles plain stop endLen p := by
  induction fuel generalizing p mem t with
  | zero =>
    by_cases hp : endLen < p.length
    · rw [addEntries, if_pos hp] at ht
      cases ht
    · rw [addEntries_stop hp] at ht
      cases ht
      simp [LeftAtEnd, hstop, tiles_of_le hp, eq_comm]
  | succ fuel ih =>
    by_cases hp : endLen < p.length
    · obtain ⟨u, u', mem', hu, hu', rfl⟩ := addEntries_succ hp ht
      have hentry := h.leftAtEnd_iff hu
      have hrest := ih hu'
      rw [tiles_of_lt hp, ← hentry]
      simp only [LeftAtEnd, List.forall_mem_cons, List.forall_mem_append, Visit.Respects] at hrest ⊢
      constructor
      · rintro ⟨hend, ⟨hpu, -⟩, hvisits, hvisits'⟩
        exact ⟨⟨hpu, hvisits⟩, u.1, hpu, hrest.mp ⟨hend, hvisits'⟩⟩
      · rintro ⟨⟨hpu, hvisits⟩, q, hq, htiles⟩
        rw [hpu] at hq
        cases hq
        obtain ⟨hend, hvisits'⟩ := hrest.mpr htiles
        exact ⟨hend, ⟨hpu, stop, hstop, htiles.length_le⟩, hvisits, hvisits'⟩
    · rw [addEntries_stop hp] at ht
      cases ht
      simp [LeftAtEnd, hstop, tiles_of_le hp, eq_comm]

end Lists

/-! ### Elements -/

theorem sizeofDiscAttr_le_totalLen (n : Nat) : sizeofDiscAttr ≤ totalLen n := by
  unfold totalLen sizeofDiscAttr
  split <;> omega

/-- What the switch owes for an element with these bytes behind its header. -/
structure Handles (start data : List UInt8) (o : Outcome) (plain : Prop) : Prop where
  length : ∀ t, o.next = some t → t.1.length ≤ data.length
  memory : 0 ≤ o.memFree
  leftAtEnd_iff : ∀ t, o.next = some t → (LeftAtEnd start t ↔ plain)

section Elements

variable {start data : List UInt8} {len attrLen attrId : Nat} {mem : Int} {additional : Bool}
  {type : DescType}

section

variable (hhdr : declaredHeader start = some (data, len))
include hhdr

/-- An element ends behind `k` bytes of its data only if that is its length. -/
theorem leftAtEnd_drop_iff {k : Nat} (hk : k ≤ data.length) :
    LeftAtEnd start (data.drop k, []) ↔ len ≤ data.length ∧ len = k := by
  rw [LeftAtEnd, declaredEnd_eq hhdr, and_iff_left (by simp)]
  split
  next hle =>
    rw [Option.some.injEq, and_iff_right hle]
    constructor
    · intro heq
      have hlen := congrArg List.length heq
      simp only [List.length_drop] at hlen
      omega
    · rintro rfl
      rfl
  next hle => exact iff_of_false (by simp) (fun hand => hle hand.1)

theorem handles_skip (hfit : len % 4096 ≤ data.length) (hmem : 0 ≤ mem) :
    Handles start data ⟨some (data.drop (len % 4096), []), mem⟩
      (len ≤ data.length ∧ len < 4096) := by
  have hmod : len = len % 4096 ↔ len < 4096 := by omega
  refine ⟨?_, hmem, ?_⟩
  · rintro t ⟨⟩
    rw [List.length_drop]
    omega
  · rintro t ⟨⟩
    rw [leftAtEnd_drop_iff hhdr hfit, hmod]

theorem handles_stay (hmem : 0 ≤ mem) :
    Handles start data ⟨some (data, []), mem⟩ (len ≤ data.length ∧ len = 0) := by
  refine ⟨?_, hmem, ?_⟩
  · rintro t ⟨⟩
    exact le_rfl
  · rintro t ⟨⟩
    exact leftAtEnd_drop_iff hhdr (Nat.zero_le _)

theorem handles_entries {add : List UInt8 → Int → Outcome} {plain : List UInt8 → Prop}
    (hmem : 0 ≤ mem) (h : Parses add plain) (endLen fuel : Nat) :
    Handles start data (addEntries add start endLen fuel data mem)
      (len ≤ data.length ∧ Tiles plain (data.drop len) endLen data) := by
  refine ⟨fun t ht => h.entries_length ht, h.entries_memory _ _ hmem, fun t ht => ?_⟩
  by_cases hle : len ≤ data.length
  · have hstop : declaredEnd start = some (data.drop len) := by
      rw [declaredEnd_eq hhdr, if_pos hle]
    rw [h.entries_iff hstop ht, and_iff_right hle]
  · have hstop : declaredEnd start = none := by rw [declaredEnd_eq hhdr, if_neg hle]
    refine iff_of_false (fun hleft => ?_) (fun hand => hle hand.1)
    rw [LeftAtEnd, hstop] at hleft
    cases hleft.1

/-- An integer that takes the element behind it along. -/
theorem handles_protocolList {add : List UInt8 → Int → Outcome} {plain : List UInt8 → Prop}
    (hmem : 0 ≤ mem) (h : Parses add plain) :
    Handles start data
      ⟨(add (data.drop 2) mem).next.map (fun t => (t.1, ⟨start, data.drop 2, t.1⟩ :: t.2)),
        (add (data.drop 2) mem).memFree⟩
      (len ≤ data.length ∧ plain (data.drop 2) ∧
        declaredEnd (data.drop 2) = some (data.drop len)) := by
  refine ⟨fun t ht => ?_, h.memory _ hmem, fun t ht => ?_⟩
  · obtain ⟨u, hu, rfl⟩ := Option.map_eq_some_iff.mp ht
    have hlt := h.advances hu
    rw [List.length_drop] at hlt
    show u.1.length ≤ data.length
    omega
  · obtain ⟨u, hu, rfl⟩ := Option.map_eq_some_iff.mp ht
    have hchild := h.leftAtEnd_iff hu
    rw [← hchild]
    simp only [LeftAtEnd, List.forall_mem_cons, Visit.Respects, declaredEnd_eq hhdr]
    constructor
    · rintro ⟨hend, ⟨hstop, -⟩, hvisits⟩
      split at hend
      next hle =>
        rw [Option.some.injEq] at hend
        exact ⟨hle, ⟨hstop, hvisits⟩, by rw [hstop, hend]⟩
      · cases hend
    · rintro ⟨hle, ⟨hstop, hvisits⟩, hend⟩
      rw [hstop] at hend
      rw [if_pos hle, hstop]
      exact ⟨hend.symm, ⟨rfl, u.1, hend.symm, le_rfl⟩, hvisits⟩

end

variable {inner : Inner} {plain : Option (Bool → Nat → List UInt8 → Prop)}

/-- The calls for the next nesting level are right for plain elements. -/
abbrev InnerParses : Inner → Option (Bool → Nat → List UInt8 → Prop) → Prop :=
  Option.Rel (fun f plain => ∀ b id, Parses (f b id) (plain b id))

theorem attrValue_handles (hinner : InnerParses inner plain)
    (hhdr : declaredHeader start = some (data, len)) (hlen : type ≠ .other → attrLen = len % 4096)
    (hfit : attrLen ≤ data.length) (hmem : totalLen attrLen ≤ mem) :
    Handles start data (attrValue inner additional attrId start type data attrLen mem)
      (len ≤ data.length ∧ PlainValue plain additional attrId type data len) := by
  have hattr : (0 : Int) ≤ mem - sizeofDiscAttr := by
    have hsize := sizeofDiscAttr_le_totalLen attrLen
    omega
  have htotal : 0 ≤ mem - totalLen attrLen := by omega
  have hkeep : 0 ≤ mem := by omega
  by_cases hother : type = .other
  · subst hother
    exact handles_stay hhdr htotal
  · obtain rfl := hlen hother
    cases type with
    | other => exact absurd rfl hother
    | uint =>
      unfold attrValue PlainValue
      dsimp only
      split
      · cases hinner with
        | none => exact handles_skip hhdr hfit hattr
        | some hparses => exact handles_protocolList hhdr hattr (hparses false _)
      · exact handles_skip hhdr hfit htotal
    | twoCompInt | textStr | url => exact handles_skip hhdr hfit htotal
    | uuid | boolean =>
      unfold attrValue
      dsimp only
      split
      · exact handles_skip hhdr hfit htotal
      · exact handles_skip hhdr hfit hkeep
    -- below the last level a list is skipped like any other element
    | dataEleSeq | dataEleAlt =>
      cases hinner with
      | none => exact handles_skip hhdr hfit hattr
      | some hparses => exact handles_entries hhdr hattr (hparses _ 0) _ _

theorem descType_zero : descType 0 = .other := by decide

/-- A call gives up before it has changed anything, or goes through the switch. -/
theorem attrAt_cases (hinner : InnerParses inner plain) (detectNil additional : Bool) (attrId : Nat)
    (bytes : List UInt8) (mem : Int) :
    attrAt detectNil inner additional attrId bytes mem = ⟨none, mem⟩ ∨
      ∃ data : List UInt8, data.length < bytes.length ∧
        Handles bytes data (attrAt detectNil inner additional attrId bytes mem)
          (PlainAt plain additional attrId bytes) := by
  cases bytes with
  | nil => exact .inl rfl
  | cons type p =>
    unfold attrAt
    dsimp only
    split
    · exact .inl rfl
    next data l hget =>
      obtain ⟨len, hhdr, hl⟩ := declaredHeader_of_getLen hget
      -- the length of NIL depends on a flag, and is not used
      have hmod : descType type ≠ .other → l % 4096 = len % 4096 := by
        intro hne
        have hzero : type ≠ 0 := by
          rintro rfl
          exact hne descType_zero
        rw [hl hzero]
        omega
      have hplain : PlainAt plain additional attrId (type :: p) ↔
          len ≤ data.length ∧ PlainValue plain additional attrId (descType type) data len := by
        simp [PlainAt, hhdr]
      rw [hplain]
      split
      · exact .inl rfl
      split
      · exact .inl rfl
      split
      · exact .inl rfl
      · exact .inr ⟨data, declaredHeader_length hhdr,
          attrValue_handles hinner hhdr hmod (not_lt.mp ‹_›) (not_lt.mp ‹_›)⟩

theorem attrAt_parses (hinner : InnerParses inner plain) (detectNil additional : Bool)
    (attrId : Nat) :
    Parses (attrAt detectNil inner additional attrId) (PlainAt plain additional attrId) := by
  constructor
  · intro bytes mem t ht
    obtain hnone | ⟨data, hdata, hh⟩ := attrAt_cases hinner detectNil additional attrId bytes mem
    · rw [hnone] at ht
      cases ht
    · exact lt_of_le_of_lt (hh.length t ht) hdata
  · intro bytes mem hmem
    obtain hnone | ⟨data, -, hh⟩ := attrAt_cases hinner detectNil additional attrId bytes mem
    · rwa [hnone]
    · exact hh.memory
  · intro bytes mem t ht
    obtain hnone | ⟨data, -, hh⟩ := attrAt_cases hinner detectNil additional attrId bytes mem
    · rw [hnone] at ht
      cases ht
    · exact hh.leftAtEnd_iff t ht

end Elements

theorem addAttr_parses (detectNil : Bool) (levels : Nat) (additional : Bool) (attrId : Nat) :
    Parses (addAttr detectNil levels additional attrId) (Plain levels additional attrId) := by
  induction levels generalizing additional attrId with
  | zero => exact attrAt_parses .none detectNil additional attrId
  | succ levels ih => exact attrAt_parses (.some ih) detectNil additional attrId

/-- A call that returns a pointer respects the boundaries of the elements exactly if the element is
plain. -/
theorem respectsBoundaries_iff {detectNil : Bool} {levels : Nat} {additional : Bool} {attrId : Nat}
    {bytes : List UInt8} {mem : Nat} {t : List UInt8 × List Visit}
    (hnext : (addAttr detectNil levels additional attrId bytes mem).next = some t) :
    RespectsBoundaries bytes (addAttr detectNil levels additional attrId bytes mem) ↔
      Plain levels additional attrId bytes := by
  have hparses := addAttr_parses detectNil levels additional attrId
  rw [← hparses.leftAtEnd_iff hnext]
  constructor
  · intro h
    exact ⟨h.exact t.1 t.2 hnext, h.nested t.1 t.2 hnext⟩
  · rintro ⟨hend, hvisits⟩
    refine ⟨?_, ?_, ?_, hparses.memory bytes (Int.natCast_nonneg mem)⟩
    · intro q visits hq
      rw [hnext] at hq
      cases hq
      exact hend
    · intro q visits hq
      rw [hnext] at hq
      cases hq
      exact hvisits
    · intro hnone
      rw [hnone] at hend
      cases hend

/-! ### Elements that are not there as a whole -/

section Overlong

variable {detectNil additional : Bool} {inner : Inner} {attrId len : Nat} {type : UInt8}
  {bytes p data : List UInt8} {mem : Int}

/-- The length that the source has for an element that is not there as a whole. -/
theorem getLen_of_overlong (detectNil : Bool) (hend : declaredEnd (type :: p) = none)
    (hhdr : declaredHeader (type :: p) = some (data, len)) :
    sdpuGetLenFromType detectNil type p = some (data, len % 65536) := by
  obtain ⟨⟨data', l⟩, hget⟩ := Option.isSome_iff_exists.mp (getLen_of_declaredHeader detectNil hhdr)
  obtain ⟨len', hhdr', hl⟩ := declaredHeader_of_getLen hget
  rw [hhdr] at hhdr'
  cases hhdr'
  have hne : type ≠ 0 := by
    -- an element of type NIL has no bytes that could be missing
    rintro rfl
    cases hhdr
    rw [declaredEnd_eq rfl] at hend
    simp at hend
  rw [hget, hl hne]

theorem attrAt_of_refused (hend : declaredEnd bytes = none) (h : RefusedByHeader bytes mem) :
    (attrAt detectNil inner additional attrId bytes mem).next = none := by
  cases bytes with
  | nil => rfl
  | cons type p =>
    unfold attrAt
    dsimp only
    split
    · rfl
    next data l hget =>
      obtain ⟨len, hhdr, -⟩ := declaredHeader_of_getLen hget
      rw [getLen_of_overlong detectNil hend hhdr] at hget
      cases hget
      obtain hdata | hmem := h data len hhdr
      · rw [if_pos hdata]
      · rw [show len % 65536 % 4096 = len % 4096 by omega]
        simp only [if_pos hmem, ite_self]

/-- What the header does not refuse goes to the switch. -/
theorem attrAt_of_not_refused (hend : declaredEnd (type :: p) = none)
    (h : ¬ RefusedByHeader (type :: p) mem) : ∃ data attrLen,
      attrAt detectNil inner additional attrId (type :: p) mem =
        attrValue inner additional attrId (type :: p) (descType type) data attrLen mem := by
  simp only [RefusedByHeader, not_forall, not_or, not_lt] at h
  obtain ⟨data, len, hhdr, hdata, hmem⟩ := h
  refine ⟨data, len % 4096, ?_⟩
  unfold attrAt
  simp only [getLen_of_overlong detectNil hend hhdr]
  rw [show len % 65536 % 4096 = len % 4096 by omega, if_neg (not_lt.mpr hdata),
    if_neg (by omega), if_neg (not_lt.mpr hmem)]

/-- The switch gives up only in a call for another element. -/
theorem attrValue_next_isSome {start data : List UInt8} {desc : DescType} {attrLen : Nat}
    (h : inner = none ∨ desc ≠ .dataEleSeq ∧ desc ≠ .dataEleAlt ∧
      (additional = false ∨ desc ≠ .uint)) :
    (attrValue inner additional attrId start desc data attrLen mem).next ≠ none := by
  obtain rfl | ⟨hseq, halt, huint⟩ := h
  · cases desc <;> simp only [attrValue] <;> try split
    all_goals simp
  · cases desc with
    | dataEleSeq => exact absurd rfl hseq
    | dataEleAlt => exact absurd rfl halt
    | uint =>
      obtain rfl | huint := huint
      · simp [attrValue]
      · exact absurd rfl huint
    | _ =>
      simp only [attrValue]
      try split
      all_goals simp

end Overlong

/-- A call that returns a pointer respects the boundaries of the elements exactly if the element is
plain. An element that is not there as a whole is rejected if its header is refused, and if its
value is read without a call for another element, then only if its header is refused. -/
theorem add_attr_respects_boundaries_iff (detectNil : Bool) (levels : Nat) (additional : Bool)
    (attrId : Nat) (bytes : List UInt8) (mem : Nat) :
    (∀ t, (addAttr detectNil levels additional attrId bytes mem).next = some t →
      (RespectsBoundaries bytes (addAttr detectNil levels additional attrId bytes mem) ↔
        Plain levels additional attrId bytes)) ∧
    (declaredEnd bytes = none → RefusedByHeader bytes mem →
      (addAttr detectNil levels additional attrId bytes mem).next = none) ∧
    (declaredEnd bytes = none →
      (∀ type ∈ bytes.head?, readAlone levels additional (descType type)) →
      (addAttr detectNil levels additional attrId bytes mem).next = none →
        RefusedByHeader bytes mem) ∧
    0 ≤ (addAttr detectNil levels additional attrId bytes mem).memFree := by
  refine ⟨fun t => respectsBoundaries_iff, ?_, ?_,
    (addAttr_parses detectNil levels additional attrId).memory bytes (Int.natCast_nonneg mem)⟩
  · intro hend hrefused
    cases levels with
    | zero | succ levels => exact attrAt_of_refused hend hrefused
  · intro hend halone hnone
    by_contra hrefused
    cases bytes with
    | nil => exact hrefused fun data len hhdr => by cases hhdr
    | cons type p =>
      have halone := halone type rfl
      cases levels with
      | zero =>
        obtain ⟨data, attrLen, heq⟩ := attrAt_of_not_refused hend hrefused
        rw [addAttr, heq] at hnone
        exact attrValue_next_isSome (.inl rfl) hnone
      | succ levels =>
        obtain ⟨data, attrLen, heq⟩ := attrAt_of_not_refused hend hrefused
        rw [addAttr, heq] at hnone
        exact attrValue_next_isSome (.inr (by simpa [readAlone, and_assoc] using halone)) hnone

/-- A list of a number and a text is left at its end, and a text that declares 300 bytes and has two
is rejected. -/
theorem add_attr_respects_boundaries_list :
    RespectsBoundaries [0x35, 0x05, 0x08, 0x01, 0x25, 0x01, 0x41]
      (addAttr true maxNestLevels false 0x0100 [0x35, 0x05, 0x08, 0x01, 0x25, 0x01, 0x41] 1000) ∧
    (addAttr true maxNestLevels false 0x0100 [0x26, 0x01, 0x2C, 1, 2] 1000).next = none := by
  constructor
  · refine ((add_attr_respects_boundaries_iff true maxNestLevels false 0x0100
      [0x35, 0x05, 0x08, 0x01, 0x25, 0x01, 0x41] 1000).1 ([],
        [⟨[0x35, 0x05, 0x08, 0x01, 0x25, 0x01, 0x41], [0x08, 0x01, 0x25, 0x01, 0x41],
            [0x25, 0x01, 0x41]⟩,
          ⟨[0x35, 0x05, 0x08, 0x01, 0x25, 0x01, 0x41], [0x25, 0x01, 0x41], []⟩])
      (by decide +kernel)).mpr ?_
    refine ⟨0x35, rfl, [0x08, 0x01, 0x25, 0x01, 0x41], 5, rfl, by decide, ?_⟩
    -- the two entries fill the list
    refine .entry (by decide) ⟨0x08, rfl, [0x01, 0x25, 0x01, 0x41], 1, rfl, by decide, ?_⟩ rfl
      (.entry (by decide) ⟨0x25, rfl, [0x41], 1, rfl, by decide, ?_⟩ rfl (.done (by decide)))
    · exact (by omega : 1 < 4096)
    · exact (by omega : 1 < 4096)
  · refine (add_attr_respects_boundaries_iff true maxNestLevels false 0x0100
      [0x26, 0x01, 0x2C, 1, 2] 1000).2.1 (by decide +kernel) fun data len hhdr => ?_
    cases hhdr
    exact .inl (by decide)

/-- A list of two bytes whose entry declares eight, a text that declares 65536 bytes and has none,
and an element of a reserved type with one byte. -/
theorem boundaries_crossed :
    ¬ RespectsBoundaries [0x35, 0x02, 0x25, 0x06, 1, 2, 3, 4, 5, 6]
      (addAttr true maxNestLevels false 0x0100 [0x35, 0x02, 0x25, 0x06, 1, 2, 3, 4, 5, 6] 1000) ∧
    ¬ RespectsBoundaries [0x27, 0x00, 0x01, 0x00, 0x00]
      (addAttr true maxNestLevels false 0x0100 [0x27, 0x00, 0x01, 0x00, 0x00] 1000) ∧
    ¬ RespectsBoundaries [0x48, 0x01]
      (addAttr true maxNestLevels false 0x0100 [0x48, 0x01] 1000) := by
  refine ⟨fun h => ?_, fun h => ?_, fun h => ?_⟩
  · have hend := h.exact [] [⟨[0x35, 0x02, 0x25, 0x06, 1, 2, 3, 4, 5, 6],
      [0x25, 0x06, 1, 2, 3, 4, 5, 6], []⟩] (by decide +kernel)
    exact absurd hend (by decide +kernel)
  · have hend := h.exact [] [] (by decide +kernel)
    exact absurd hend (by decide +kernel)
  · have hend := h.exact [0x01] [] (by decide +kernel)
    exact absurd hend (by decide +kernel)

end BluetoothStack.Sdp
