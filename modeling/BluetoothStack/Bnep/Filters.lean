import BluetoothStack.Bnep.Frames

/-!
# BluetoothStack.Bnep.Filters

The filters a peer sets on a BNEP connection (`bnepu_process_peer_filter_set` and
`bnepu_process_peer_multicast_filter_set` of `bnep_utils.cc`) and the check of every
packet against them (`bnep_is_packet_allowed`), with what is sent of a packet that does not
pass (`BNEP_WriteBuf` and `BNEP_Write` of `bnep_api.cc`).

The connection keeps the filters in arrays of fixed size that are overwritten from the
front, with a count; what an earlier message left behind the count stays in memory. The
policy of a connection is the last range list of each kind that was accepted, and the
result of this module is that the arrays decide as the policy does, after any messages.
-/

namespace BluetoothStack.Bnep

open BluetoothStack.Lib BluetoothStack.L2cap

/-! ### The code -/

/-- `BNEP_MAX_PROT_FILTERS`. -/
abbrev bnepMaxProtFilters : Nat := 5

/-- `BNEP_MAX_MULTI_FILTERS`. -/
abbrev bnepMaxMultiFilters : Nat := 5

/-- `BNEP_802_1_P_PROTOCOL`. -/
abbrev bnep8021PProtocol : Nat := 0x8100

/-- The response codes of a filter message. -/
inductive FilterCrl
  | ok | badRange | maxReached
  deriving DecidableEq, Repr

/-- The fields of `tBNEP_CONN` with the filters of the peer. An entry is the start and the end at
one index of the two arrays. -/
structure Filters where
  rcvdNumFilters : Nat
  rcvdProtFilter : List (Nat × Nat)
  rcvdMcastFilters : Nat
  rcvdMcastFilter : List (RawAddress × RawAddress)
  deriving DecidableEq, Repr

/-- The filters of a block that `bnepu_allocate_bcb` has cleared. -/
def Filters.cleared : Filters where
  rcvdNumFilters := 0
  rcvdProtFilter := List.replicate bnepMaxProtFilters (0, 0)
  rcvdMcastFilters := 0
  rcvdMcastFilter := List.replicate bnepMaxMultiFilters (kEmpty, kEmpty)

/-- The ranges that `BE_STREAM_TO_UINT16` reads, two values at a time. -/
def protRanges : List UInt8 → List (Nat × Nat)
  | s₁ :: s₀ :: e₁ :: e₀ :: p => (beValue [s₁, s₀], beValue [e₁, e₀]) :: protRanges p
  | _ => []

/-- The ranges of addresses, twelve bytes each. -/
def mcastRanges (p : List UInt8) : List (RawAddress × RawAddress) :=
  if _h : 12 ≤ p.length then
    (readAddress p, readAddress (p.drop 6)) :: mcastRanges (p.drop 12)
  else []
termination_by p.length
decreasing_by
  rw [List.length_drop]
  omega

/-- `operator<=` of `RawAddress`, and `memcmp(a, b) <= 0`. -/
def addrLe (a b : RawAddress) : Bool := !decide (b.toList < a.toList)

/-- Write the ranges from index `i` on. -/
def storeFrom {α : Type*} (a : List α) (i : Nat) : List α → List α
  | [] => a
  | r :: rs => storeFrom (a.set i r) (i + 1) rs

/-- `bnepu_process_peer_filter_set`, with the bytes at `p_filters`, and the code it answers. -/
def bnepuProcessPeerFilterSet (connected : Bool) (f : Filters) (p : List UInt8) :
    Filters × Option FilterCrl :=
  if !connected then (f, none)
  else if p.length &&& 3 ≠ 0 then (f, some .badRange)
  else if p.length >>> 2 ≤ bnepMaxProtFilters then
    if (protRanges p).any fun r => decide (r.1 > r.2) then (f, some .badRange)
    else
      ({ f with
          rcvdNumFilters := p.length >>> 2
          rcvdProtFilter := storeFrom f.rcvdProtFilter 0 (protRanges p) }, some .ok)
  else (f, some .maxReached)

/-- The storing loop of the multicast filters: it ends at a range of two empty addresses. -/
def storeMcast (f : Filters) (i : Nat) : List (RawAddress × RawAddress) → Filters
  | [] => f
  | r :: rs =>
    let f := { f with rcvdMcastFilter := f.rcvdMcastFilter.set i r }
    if r.1 = kEmpty ∧ r.2 = kEmpty then { f with rcvdMcastFilters := 0xFFFF }
    else storeMcast f (i + 1) rs

/-- `bnepu_process_peer_multicast_filter_set`. -/
def bnepuProcessPeerMulticastFilterSet (connected : Bool) (f : Filters) (p : List UInt8) :
    Filters × Option FilterCrl :=
  if !connected then (f, none)
  else if p.length % 12 ≠ 0 then (f, some .badRange)
  else if p.length > bnepMaxMultiFilters * 2 * 6 then (f, some .maxReached)
  else if (mcastRanges p).any fun r => !addrLe r.1 r.2 then (f, some .badRange)
  else (storeMcast { f with rcvdMcastFilters := p.length / 12 } 0 (mcastRanges p), some .ok)

/-- The loop over the extension headers of `bnep_is_packet_allowed`: `pos` is how far `p_data` has
moved, `newLen` the count kept in sixteen bits. -/
def skipExtensions (p : List UInt8) (newLen pos : Nat) : Result (Option (Nat × Nat)) :=
  if newLen + 2 > p.length then .ok none
  else if h : pos + 1 < p.length then
    let ext := p.get ⟨pos, Nat.lt_of_succ_lt h⟩
    let len := (p.get ⟨pos + 1, h⟩).toNat
    if ext &&& 0x80 ≠ 0 then skipExtensions p (u16 (newLen + (len + 2))) (pos + 2 + len)
    else .ok (some (u16 (newLen + (len + 2)), pos + 2 + len))
  else .error .overrun
termination_by p.length - pos

/-- Where the tag of a packet begins, with the count and the pointer. -/
def tagPosition (fwExtPresent : Bool) (p : List UInt8) : Result (Option (Nat × Nat)) :=
  if fwExtPresent then skipExtensions p 0 0 else .ok (some (0, 0))

/-- The protocol to check, `none` where the packet is ignored. -/
def actualProtocol (protocol : Nat) (fwExtPresent : Bool) (p : List UInt8) :
    Result (Option Nat) := do
  if protocol ≠ bnep8021PProtocol then return some protocol
  match ← tagPosition fwExtPresent p with
  | none => return none
  | some (newLen, pos) =>
    if newLen + 4 > p.length then return none
    else if pos + 4 ≤ p.length then return some (beValue ((p.drop (pos + 2)).take 2))
    else throw .overrun

/-- `dest_addr.address[0] & 0x01`. -/
def isMulticast (dest : RawAddress) : Bool := dest.toList.headD 0 &&& 0x01 != 0

/-- The protocol part of `bnep_is_packet_allowed`. -/
def protocolAllowed (f : Filters) (protocol : Nat) (fwExtPresent : Bool) (p : List UInt8) :
    Result Bool :=
  if f.rcvdNumFilters ≠ 0 then do
    match ← actualProtocol protocol fwExtPresent p with
    | none => return false
    | some proto =>
      return (List.range f.rcvdNumFilters).any fun i =>
        let r := f.rcvdProtFilter.getD i (0, 0)
        decide (r.1 ≤ proto) && decide (proto ≤ r.2)
  else return true

/-- The multicast part of `bnep_is_packet_allowed`. -/
def multicastAllowed (f : Filters) (dest : RawAddress) : Bool :=
  if isMulticast dest ∧ f.rcvdMcastFilters ≠ 0 then
    if f.rcvdMcastFilters = 0xFFFF then false
    else (List.range f.rcvdMcastFilters).any fun i =>
      let r := f.rcvdMcastFilter.getD i (kEmpty, kEmpty)
      addrLe r.1 dest && addrLe dest r.2
  else true

/-- `bnep_is_packet_allowed`: whether the result is `BNEP_SUCCESS`, for a packet of the bytes `p`.
-/
def bnepIsPacketAllowed (f : Filters) (dest : RawAddress) (protocol : Nat) (fwExtPresent : Bool)
    (p : List UInt8) : Result Bool := do
  if ← protocolAllowed f protocol fwExtPresent p then return multicastAllowed f dest
  else return false

/-- `BNEP_MAX_XMITQ_DEPTH`. -/
abbrev bnepMaxXmitqDepth : Nat := 20

/-- The results of a write that has found its connection. -/
inductive WriteResult
  | success | mtuExceeded | ignoreCmd | qSizeExceeded
  deriving DecidableEq, Repr

/-- The loop over the extension headers of a packet that is filtered. It ends at a header that is
not complete. -/
def extensionsEnd (p : List UInt8) (newLen pos : Nat) : Result (Option (Nat × Nat)) :=
  if newLen + 2 > p.length then .ok none
  else if h : pos + 1 < p.length then
    let ext := p.get ⟨pos, Nat.lt_of_succ_lt h⟩
    let len := (p.get ⟨pos + 1, h⟩).toNat
    if u16 (newLen + (len + 2)) > p.length then .ok none
    else if ext &&& 0x80 ≠ 0 then extensionsEnd p (u16 (newLen + (len + 2))) (pos + 2 + len)
    else .ok (some (u16 (newLen + (len + 2)), pos + 2 + len))
  else .error .overrun
termination_by p.length - pos

/-- What is left of a filtered packet with extension headers: its protocol and its bytes. -/
def dropData (protocol : Nat) (p : List UInt8) : Result (Option (Nat × List UInt8)) := do
  match ← extensionsEnd p 0 0 with
  | none => return none
  | some (newLen, pos) =>
    if protocol ≠ bnep8021PProtocol then return some (0, p.take newLen)
    else if u16 (newLen + 4) > p.length then return none
    else if pos + 4 ≤ p.length then
      return some (protocol, ((p.set (pos + 2) 0).set (pos + 3) 0).take (u16 (newLen + 4)))
    else throw .overrun

/-- The part of a write that looks at the filters: what to send, if anything. -/
def filterPacket (f : Filters) (dest : RawAddress) (protocol : Nat) (fwExtPresent : Bool)
    (p : List UInt8) : Result (Option (Nat × List UInt8)) := do
  if ← bnepIsPacketAllowed f dest protocol fwExtPresent p then return some (protocol, p)
  else if fwExtPresent then dropData protocol p
  else return none

/-- The part behind it, with the length of `xmit_q`. -/
def checkXmitQ (xmitQ : Nat) : Option (Nat × List UInt8) → WriteResult × Option (Nat × List UInt8)
  | none => (.ignoreCmd, none)
  | some packet =>
    if xmitQ ≥ bnepMaxXmitqDepth then (.qSizeExceeded, none) else (.success, some packet)

/-- A write on the control block of the handle: the result, and the protocol and the bytes for
`bnepu_build_bnep_hdr`. -/
def writePacket (f : Filters) (xmitQ : Nat) (dest : RawAddress) (protocol : Nat)
    (fwExtPresent : Bool) (p : List UInt8) : Result (WriteResult × Option (Nat × List UInt8)) :=
  if p.length > bnepMtuSize then .ok (.mtuExceeded, none)
  else do
    let packet ← filterPacket f dest protocol fwExtPresent p
    return checkXmitQ xmitQ packet

/-- `BNEP_WriteBuf`, which sends the buffer it is given. -/
def bnepWriteBuf := writePacket

/-- `BNEP_Write`, which sends a copy of the data. -/
def bnepWrite := writePacket

/-! ### The policy -/

/-- What a peer asks for: the last list of each kind that was accepted. -/
structure Policy where
  prot : List (Nat × Nat)
  mcast : List (RawAddress × RawAddress)

/-- What happens to the filters of a control block. -/
inductive FilterEvent
  | allocate
  | protSet (connected : Bool) (p : List UInt8)
  | mcastSet (connected : Bool) (p : List UInt8)

/-- A list of protocol ranges that is accepted. -/
def ProtAccepted (connected : Bool) (p : List UInt8) : Prop :=
  connected = true ∧ p.length % 4 = 0 ∧ p.length ≤ 20 ∧ ∀ r ∈ protRanges p, r.1 ≤ r.2

/-- A list of address ranges that is accepted. -/
def McastAccepted (connected : Bool) (p : List UInt8) : Prop :=
  connected = true ∧ p.length % 12 = 0 ∧ p.length ≤ 60 ∧ ∀ r ∈ mcastRanges p, addrLe r.1 r.2 = true

instance instDecidableProtAccepted (connected : Bool) (p : List UInt8) :
    Decidable (ProtAccepted connected p) := inferInstanceAs (Decidable (_ ∧ _))

instance instDecidableMcastAccepted (connected : Bool) (p : List UInt8) :
    Decidable (McastAccepted connected p) := inferInstanceAs (Decidable (_ ∧ _))

namespace Policy

def allowAll : Policy := ⟨[], []⟩

def step (a : Policy) : FilterEvent → Policy
  | .allocate => allowAll
  | .protSet connected p => if ProtAccepted connected p then { a with prot := protRanges p } else a
  | .mcastSet connected p =>
    if McastAccepted connected p then { a with mcast := mcastRanges p } else a

/-- The bytes behind the extension headers. -/
def behindExtensions : List UInt8 → Option (List UInt8)
  | ext :: len :: p =>
    if ext &&& 0x80 ≠ 0 then behindExtensions (p.drop len.toNat) else some (p.drop len.toNat)
  | _ => none
termination_by p => p.length
decreasing_by
  simp only [List.length_drop, List.length_cons]
  omega

theorem behindExtensions_short {p : List UInt8} (h : p.length < 2) : behindExtensions p = none := by
  rcases p with _ | ⟨b, _ | ⟨b', p⟩⟩
  · rw [behindExtensions]
    simp
  · rw [behindExtensions]
    simp
  · simp at h

/-- The tag of a packet and what follows. -/
def fromTag (fwExtPresent : Bool) (p : List UInt8) : Option (List UInt8) :=
  if fwExtPresent then behindExtensions p else some p

/-- The protocol of a packet; a tagged one has it behind its extensions and the tag. -/
def protocolOf (protocol : Nat) (fwExtPresent : Bool) (p : List UInt8) : Option Nat :=
  if protocol ≠ bnep8021PProtocol then some protocol
  else (fromTag fwExtPresent p).bind fun rest =>
    if rest.length < 4 then none else some (beValue ((rest.drop 2).take 2))

/-- A packet passes if its protocol is in a range, unless there are none, and, to a group, if the
address is in a range, unless there are none; a range of two empty addresses keeps out every group.
-/
def Allows (a : Policy) (dest : RawAddress) (protocol : Nat) (fwExtPresent : Bool)
    (p : List UInt8) : Prop :=
  (a.prot = [] ∨ ∃ proto, protocolOf protocol fwExtPresent p = some proto ∧
      ∃ r ∈ a.prot, r.1 ≤ proto ∧ proto ≤ r.2) ∧
    (isMulticast dest = true → a.mcast = [] ∨ (kEmpty, kEmpty) ∉ a.mcast ∧
      ∃ r ∈ a.mcast, addrLe r.1 dest = true ∧ addrLe dest r.2 = true)

/-- A chain of extension headers: each has a length and a body, and all but the last one say that
another one follows. -/
inductive Extensions : List UInt8 → Prop
  | last {ext len : UInt8} {body : List UInt8} (hext : ext &&& 0x80 = 0)
      (hlen : body.length = len.toNat) : Extensions (ext :: len :: body)
  | more {ext len : UInt8} {body rest : List UInt8} (hext : ext &&& 0x80 ≠ 0)
      (hlen : body.length = len.toNat)
      (hrest : Extensions rest) : Extensions (ext :: len :: (body ++ rest))

/-- How many bytes the extension headers take, if they are all there. -/
def headersLength : List UInt8 → Option Nat
  | ext :: len :: p =>
    if p.length < len.toNat then none
    else if ext &&& 0x80 ≠ 0 then (headersLength (p.drop len.toNat)).map (2 + len.toNat + ·)
    else some (2 + len.toNat)
  | _ => none
termination_by p => p.length
decreasing_by
  simp only [List.length_drop, List.length_cons]
  omega

/-- What may be sent of a packet that is not allowed: the extension headers, and of a tagged packet
the tag, without a protocol. -/
def headersOnly (protocol : Nat) (headers payload : List UInt8) : Option (Nat × List UInt8) :=
  if protocol ≠ bnep8021PProtocol then some (0, headers)
  else if payload.length < 4 then none
  else some (protocol, headers ++ payload.take 2 ++ [0, 0])

end Policy

/-- One event on the control block. -/
def Filters.step (f : Filters) : FilterEvent → Filters
  | .allocate => Filters.cleared
  | .protSet connected p => (bnepuProcessPeerFilterSet connected f p).1
  | .mcastSet connected p => (bnepuProcessPeerMulticastFilterSet connected f p).1

/-! ### Arrays overwritten from the front -/

section Arrays

variable {α : Type*}

variable (a : List α)

theorem storeFrom_eq (i : Nat) (rs : List α) (h : i + rs.length ≤ a.length) :
    storeFrom a i rs = a.take i ++ rs ++ a.drop (i + rs.length) := by
  induction rs generalizing a i with
  | nil => simp [storeFrom]
  | cons r rs ih =>
    rw [List.length_cons] at h
    rw [storeFrom, ih _ _ (by rw [List.length_set]; omega), List.drop_set_of_lt (by omega),
      List.take_succ_eq_append_getElem (by rw [List.length_set]; omega), List.getElem_set_self,
      List.take_set_of_le (Nat.le_refl i), List.length_cons,
      show i + 1 + rs.length = i + (rs.length + 1) by omega]
    simp

theorem take_storeFrom (rs : List α) (h : rs.length ≤ a.length) :
    (storeFrom a 0 rs).take rs.length = rs := by
  rw [storeFrom_eq a 0 rs (by omega)]
  simp

theorem length_storeFrom (i : Nat) (rs : List α) : (storeFrom a i rs).length = a.length := by
  induction rs generalizing a i with
  | nil => rfl
  | cons r rs ih => rw [storeFrom, ih, List.length_set]

/-- A search through the first `n` entries of an array. -/
theorem any_range_getD (d : α) (P : α → Bool) {n : Nat} (h : n ≤ a.length) :
    ((List.range n).any fun i => P (a.getD i d)) = (a.take n).any P := by
  induction n with
  | zero => rfl
  | succ n ih =>
    rw [List.range_succ, List.any_append, ih (by omega), List.take_succ_eq_append_getElem
      (by omega), List.any_append, List.any_cons, List.any_nil, List.any_cons, List.any_nil,
      List.getD_eq_getElem?_getD, List.getElem?_eq_getElem (by omega), Option.getD_some]

end Arrays

/-! ### The messages -/

variable {f : Filters} {a : Policy} {headers : List UInt8} (protocol : Nat) (p : List UInt8)

theorem length_protRanges : (protRanges p).length = p.length / 4 := by
  fun_induction protRanges p with
  | case1 s₁ s₀ e₁ e₀ p ih =>
    simp only [List.length_cons, ih]
    omega
  | case2 p hp =>
    have hlt : p.length < 4 := by
      by_contra hge
      rcases p with _ | ⟨s₁, _ | ⟨s₀, _ | ⟨e₁, _ | ⟨e₀, p⟩⟩⟩⟩
      case cons.cons.cons.cons => exact hp s₁ s₀ e₁ e₀ p rfl
      all_goals simp at hge
    rw [Nat.div_eq_of_lt hlt]
    rfl

theorem length_mcastRanges : (mcastRanges p).length = p.length / 12 := by
  fun_induction mcastRanges p with
  | case1 p h ih =>
    rw [List.length_cons, ih, List.length_drop]
    omega
  | case2 p h =>
    rw [Nat.div_eq_of_lt (by omega)]
    rfl

/-- The protocol message stores what is accepted and leaves the rest alone. -/
theorem bnepuProcessPeerFilterSet_eq (connected : Bool) (f : Filters) (p : List UInt8) :
    (bnepuProcessPeerFilterSet connected f p).1 =
      if ProtAccepted connected p then
        { f with
          rcvdNumFilters := (protRanges p).length
          rcvdProtFilter := storeFrom f.rcvdProtFilter 0 (protRanges p) }
      else f := by
  -- the source masks and shifts where the ranges are counted by four bytes
  have hand : p.length &&& 3 = p.length % 4 := Nat.and_two_pow_sub_one_eq_mod p.length 2
  have hshift : p.length >>> 2 = p.length / 4 := Nat.shiftRight_eq_div_pow p.length 2
  have hmax : bnepMaxProtFilters = 5 := rfl
  unfold bnepuProcessPeerFilterSet
  rw [hand, hshift, length_protRanges]
  cases connected with
  | false =>
    have hno : ¬ ProtAccepted false p := fun h => Bool.false_ne_true h.1
    rw [if_neg hno]
    rfl
  | true =>
    simp only [Bool.not_true, Bool.false_eq_true, if_false, List.any_eq_true, decide_eq_true_eq]
    by_cases hmod : p.length % 4 ≠ 0
    · rw [if_pos hmod, if_neg (fun h => hmod h.2.1)]
    rw [if_neg hmod]
    by_cases hlen : p.length / 4 ≤ bnepMaxProtFilters
    · rw [if_pos hlen]
      by_cases hbad : ∃ r ∈ protRanges p, r.1 > r.2
      · obtain ⟨r, hr, hgt⟩ := hbad
        rw [if_pos ⟨r, hr, hgt⟩, if_neg fun h => Nat.not_le_of_gt hgt (h.2.2.2 r hr)]
      · have hok : ProtAccepted true p :=
          ⟨rfl, not_not.mp hmod, by omega, fun r hr => Nat.le_of_not_gt fun h => hbad ⟨r, hr, h⟩⟩
        rw [if_neg hbad, if_pos hok]
    · rw [if_neg hlen, if_neg]
      intro h
      have := h.2.2.1
      omega

/-- The storing loop writes the ranges; one of two empty addresses sets the count aside. -/
theorem storeMcast_spec (f : Filters) (i : Nat) (rs : List (RawAddress × RawAddress)) :
    (storeMcast f i rs).rcvdNumFilters = f.rcvdNumFilters ∧
      (storeMcast f i rs).rcvdProtFilter = f.rcvdProtFilter ∧
      (storeMcast f i rs).rcvdMcastFilter.length = f.rcvdMcastFilter.length ∧
      ((kEmpty, kEmpty) ∈ rs → (storeMcast f i rs).rcvdMcastFilters = 0xFFFF) ∧
      ((kEmpty, kEmpty) ∉ rs → (storeMcast f i rs).rcvdMcastFilters = f.rcvdMcastFilters ∧
        (storeMcast f i rs).rcvdMcastFilter = storeFrom f.rcvdMcastFilter i rs) := by
  induction rs generalizing f i with
  | nil => simp [storeMcast, storeFrom]
  | cons r rs ih =>
    by_cases hr : r.1 = kEmpty ∧ r.2 = kEmpty
    · have hmem : (kEmpty, kEmpty) = r := Prod.ext hr.1.symm hr.2.symm
      rw [storeMcast, if_pos hr]
      refine ⟨rfl, rfl, List.length_set, fun _ => rfl, fun hnot => ?_⟩
      exact absurd (List.mem_cons.mpr (Or.inl hmem)) hnot
    · have hne : (kEmpty, kEmpty) ≠ r := by
        rintro rfl
        exact hr ⟨rfl, rfl⟩
      obtain ⟨hnum, hprot, hlen, hzero, hrest⟩ :=
        ih { f with rcvdMcastFilter := f.rcvdMcastFilter.set i r } (i + 1)
      rw [storeMcast, if_neg hr]
      refine ⟨hnum, hprot, hlen.trans List.length_set, fun hmem => ?_, fun hnot => ?_⟩
      · exact hzero ((List.mem_cons.mp hmem).resolve_left hne)
      · exact hrest fun h => hnot (List.mem_cons.mpr (Or.inr h))

theorem bnepuProcessPeerMulticastFilterSet_eq (connected : Bool) (f : Filters) (p : List UInt8) :
    (bnepuProcessPeerMulticastFilterSet connected f p).1 =
      if McastAccepted connected p then
        storeMcast { f with rcvdMcastFilters := (mcastRanges p).length } 0 (mcastRanges p)
      else f := by
  unfold bnepuProcessPeerMulticastFilterSet
  rw [length_mcastRanges]
  cases connected with
  | false =>
    have hno : ¬ McastAccepted false p := fun h => Bool.false_ne_true h.1
    rw [if_neg hno]
    rfl
  | true =>
    simp only [Bool.not_true, Bool.false_eq_true, if_false, List.any_eq_true, Bool.not_eq_true']
    by_cases hmod : p.length % 12 ≠ 0
    · rw [if_pos hmod, if_neg (fun h => hmod h.2.1)]
    rw [if_neg hmod]
    by_cases hlen : p.length > bnepMaxMultiFilters * 2 * 6
    · rw [if_pos hlen, if_neg fun h => absurd h.2.2.1 (Nat.not_le_of_gt hlen)]
    rw [if_neg hlen]
    by_cases hbad : ∃ r ∈ mcastRanges p, addrLe r.1 r.2 = false
    · obtain ⟨r, hr, hgt⟩ := hbad
      rw [if_pos ⟨r, hr, hgt⟩, if_neg]
      intro h
      exact Bool.false_ne_true (hgt.symm.trans (h.2.2.2 r hr))
    · have hok : McastAccepted true p := by
        refine ⟨rfl, not_not.mp hmod, Nat.le_of_not_gt hlen, fun r hr => ?_⟩
        exact (Bool.not_eq_false _).mp fun h => hbad ⟨r, hr, h⟩
      rw [if_neg hbad, if_pos hok]

/-! ### The arrays follow the policy -/

/-- The arrays hold the ranges of the policy. -/
structure Refines (f : Filters) (a : Policy) : Prop where
  prot_length : f.rcvdProtFilter.length = bnepMaxProtFilters
  prot_le : f.rcvdNumFilters ≤ bnepMaxProtFilters
  prot_eq : f.rcvdProtFilter.take f.rcvdNumFilters = a.prot
  mcast_length : f.rcvdMcastFilter.length = bnepMaxMultiFilters
  mcast_all : (kEmpty, kEmpty) ∈ a.mcast → f.rcvdMcastFilters = 0xFFFF
  mcast_some : (kEmpty, kEmpty) ∉ a.mcast → f.rcvdMcastFilters ≤ bnepMaxMultiFilters ∧
    f.rcvdMcastFilter.take f.rcvdMcastFilters = a.mcast

theorem refines_cleared : Refines Filters.cleared Policy.allowAll where
  prot_length := rfl
  prot_le := by decide
  prot_eq := rfl
  mcast_length := rfl
  mcast_all := fun h => absurd h List.not_mem_nil
  mcast_some := fun _ => ⟨by decide, rfl⟩

theorem Refines.step (h : Refines f a) (e : FilterEvent) : Refines (f.step e) (a.step e) := by
  cases e with
  | allocate => exact refines_cleared
  | protSet connected p =>
    rw [Filters.step, bnepuProcessPeerFilterSet_eq, Policy.step]
    by_cases hok : ProtAccepted connected p
    · have hcount : (protRanges p).length ≤ bnepMaxProtFilters := by
        rw [length_protRanges]
        exact Nat.div_le_div_right hok.2.2.1
      rw [if_pos hok, if_pos hok]
      exact {
        prot_length := (length_storeFrom _ _ _).trans h.prot_length
        prot_le := hcount
        prot_eq := take_storeFrom _ _ (hcount.trans h.prot_length.ge)
        mcast_length := h.mcast_length
        mcast_all := h.mcast_all
        mcast_some := h.mcast_some }
    · rw [if_neg hok, if_neg hok]
      exact h
  | mcastSet connected p =>
    rw [Filters.step, bnepuProcessPeerMulticastFilterSet_eq, Policy.step]
    by_cases hok : McastAccepted connected p
    · have hcount : (mcastRanges p).length ≤ bnepMaxMultiFilters := by
        rw [length_mcastRanges]
        exact Nat.div_le_div_right hok.2.2.1
      -- one empty range sets the count aside, the others are stored in order
      obtain ⟨hnum, hprot, hlen, hzero, hrest⟩ := storeMcast_spec
        { f with rcvdMcastFilters := (mcastRanges p).length } 0 (mcastRanges p)
      rw [if_pos hok, if_pos hok]
      refine ⟨?_, ?_, ?_, hlen.trans h.mcast_length, hzero, fun hnot => ?_⟩
      · rw [hprot]
        exact h.prot_length
      · rw [hnum]
        exact h.prot_le
      · rw [hprot, hnum]
        exact h.prot_eq
      · obtain ⟨hcnt, harr⟩ := hrest hnot
        rw [hcnt, harr]
        exact ⟨hcount, take_storeFrom _ _ (hcount.trans h.mcast_length.ge)⟩
    · rw [if_neg hok, if_neg hok]
      exact h

theorem Refines.run (h : Refines f a) (es : List FilterEvent) :
    Refines (es.foldl Filters.step f) (es.foldl Policy.step a) := by
  induction es generalizing f a with
  | nil => exact h
  | cons e es ih => exact ih (h.step e)

/-! ### Reading the packet -/

/-- The loop over the extensions reads inside the packet and stops where the headers end. The count
does not wrap, since it is at most a header behind the end of the packet. -/
theorem skipExtensions_eq (hp : p.length ≤ bnepMtuSize) (pos : Nat) (hpos : pos ≤ p.length + 255) :
    ∃ r, skipExtensions p pos pos = .ok r ∧
      r.map (fun x => p.drop x.2) = Policy.behindExtensions (p.drop pos) ∧
      ∀ x ∈ r, x.1 = x.2 := by
  induction hk : p.length - pos using Nat.strong_induction_on generalizing pos with
  | _ k ih =>
    rw [skipExtensions]
    by_cases hend : pos + 2 > p.length
    · have hshort : (p.drop pos).length < 2 := by
        rw [List.length_drop]
        omega
      rw [if_pos hend, Policy.behindExtensions_short hshort]
      exact ⟨none, rfl, rfl, by simp⟩
    · have hlt : pos + 1 < p.length := by omega
      rw [if_neg hend, dif_pos hlt]
      have hdrop : p.drop pos = p.get ⟨pos, Nat.lt_of_succ_lt hlt⟩ :: p.get ⟨pos + 1, hlt⟩ ::
          p.drop (pos + 2) := by
        rw [List.drop_eq_getElem_cons (Nat.lt_of_succ_lt hlt), List.drop_eq_getElem_cons hlt]
        rfl
      generalize p.get ⟨pos, Nat.lt_of_succ_lt hlt⟩ = ext at *
      generalize p.get ⟨pos + 1, hlt⟩ = len at *
      have hlen := len.toNat_lt
      have hmtu : bnepMtuSize = 1691 := rfl
      have hcount : u16 (pos + (len.toNat + 2)) = pos + 2 + len.toNat := by
        rw [u16_of_lt (by omega)]
        omega
      dsimp only
      rw [hcount, hdrop, Policy.behindExtensions, List.drop_drop]
      by_cases hext : ext &&& 0x80 ≠ 0
      · rw [if_pos hext, if_pos hext]
        exact ih (p.length - (pos + 2 + len.toNat)) (by omega) (pos + 2 + len.toNat) (by omega) rfl
      · rw [if_neg hext, if_neg hext]
        exact ⟨_, rfl, rfl, by simp⟩

theorem tagPosition_eq (fwExtPresent : Bool) (p : List UInt8) (hp : p.length ≤ bnepMtuSize) :
    ∃ r, tagPosition fwExtPresent p = .ok r ∧
      r.map (fun x => p.drop x.2) = Policy.fromTag fwExtPresent p ∧ ∀ x ∈ r, x.1 = x.2 := by
  cases fwExtPresent with
  | false => exact ⟨some (0, 0), rfl, rfl, by simp⟩
  | true => exact skipExtensions_eq p hp 0 (Nat.zero_le _)

theorem actualProtocol_eq (fwExtPresent : Bool) (p : List UInt8) (hp : p.length ≤ bnepMtuSize) :
    actualProtocol protocol fwExtPresent p = .ok (Policy.protocolOf protocol fwExtPresent p) := by
  unfold actualProtocol Policy.protocolOf
  by_cases hproto : protocol ≠ bnep8021PProtocol
  · rw [if_pos hproto, if_pos hproto]
    rfl
  rw [if_neg hproto, if_neg hproto]
  obtain ⟨r, hr, hrest, heq⟩ := tagPosition_eq fwExtPresent p hp
  rw [hr, ← hrest]
  cases r with
  | none => rfl
  | some x =>
    obtain ⟨newLen, pos⟩ := x
    obtain rfl : newLen = pos := heq _ rfl
    rw [Option.map_some, Option.bind_some, List.length_drop, List.drop_drop]
    by_cases hlen : newLen + 4 > p.length
    · rw [if_pos (show p.length - newLen < 4 by omega)]
      exact if_pos hlen
    · rw [if_neg (show ¬ p.length - newLen < 4 by omega)]
      refine (if_neg hlen).trans ?_
      exact if_pos (by omega)

theorem Refines.protocolAllowed_eq (h : Refines f a) (protocol : Nat) (fwExtPresent : Bool)
    {p : List UInt8} (hp : p.length ≤ bnepMtuSize) :
    ∃ ok, protocolAllowed f protocol fwExtPresent p = .ok ok ∧
      (ok = true ↔ a.prot = [] ∨ ∃ proto, Policy.protocolOf protocol fwExtPresent p = some proto ∧
        ∃ r ∈ a.prot, r.1 ≤ proto ∧ proto ≤ r.2) := by
  have hempty : a.prot = [] ↔ f.rcvdNumFilters = 0 := by
    have hle := h.prot_le
    rw [← h.prot_eq, List.take_eq_nil_iff, ← List.length_eq_zero_iff, h.prot_length]
    omega
  unfold protocolAllowed
  by_cases hnum : f.rcvdNumFilters ≠ 0
  · rw [if_pos hnum, actualProtocol_eq _ _ _ hp, hempty]
    cases hproto : Policy.protocolOf protocol fwExtPresent p with
    | none => exact ⟨false, rfl, by simp [hnum]⟩
    | some proto =>
      refine ⟨_, rfl, ?_⟩
      dsimp only
      rw [any_range_getD f.rcvdProtFilter (0, 0) (fun r =>
        decide (r.1 ≤ proto) && decide (proto ≤ r.2)) (h.prot_le.trans h.prot_length.ge), h.prot_eq]
      simp [hnum]
  · rw [if_neg hnum]
    exact ⟨true, rfl, by simp [hempty.mpr (not_not.mp hnum)]⟩

theorem Refines.multicastAllowed_iff (h : Refines f a) (dest : RawAddress) :
    multicastAllowed f dest = true ↔
      (isMulticast dest = true → a.mcast = [] ∨ (kEmpty, kEmpty) ∉ a.mcast ∧
        ∃ r ∈ a.mcast, addrLe r.1 dest = true ∧ addrLe dest r.2 = true) := by
  unfold multicastAllowed
  by_cases hgroup : isMulticast dest = true
  swap
  · simp [hgroup]
  by_cases hall : (kEmpty, kEmpty) ∈ a.mcast
  · -- the count stands for every group
    have hne : a.mcast ≠ [] := List.ne_nil_of_mem hall
    simp [hgroup, h.mcast_all hall, hall, hne]
  · obtain ⟨hle, heq⟩ := h.mcast_some hall
    have hlen := h.mcast_length
    have hmax : bnepMaxMultiFilters = 5 := rfl
    have hempty : a.mcast = [] ↔ f.rcvdMcastFilters = 0 := by
      rw [← heq, List.take_eq_nil_iff, ← List.length_eq_zero_iff, hlen]
      omega
    by_cases hnum : f.rcvdMcastFilters = 0
    · simp [hnum, hempty.mpr hnum]
    · rw [if_pos ⟨hgroup, hnum⟩, if_neg (by omega)]
      dsimp only
      rw [any_range_getD f.rcvdMcastFilter (kEmpty, kEmpty)
        (fun r => addrLe r.1 dest && addrLe dest r.2) (hle.trans hlen.ge), heq, hempty]
      simp [hgroup, hall, hnum]

theorem Refines.packetAllowed_eq (h : Refines f a) (dest : RawAddress) (protocol : Nat)
    (fwExtPresent : Bool) {p : List UInt8} (hp : p.length ≤ bnepMtuSize) :
    ∃ ok, bnepIsPacketAllowed f dest protocol fwExtPresent p = .ok ok ∧
      (ok = true ↔ a.Allows dest protocol fwExtPresent p) := by
  obtain ⟨ok, hok, hiff⟩ := h.protocolAllowed_eq protocol fwExtPresent hp
  rw [bnepIsPacketAllowed, hok]
  cases ok with
  | false =>
    refine ⟨false, rfl, ?_⟩
    constructor
    · exact fun h => absurd h Bool.false_ne_true
    · exact fun h => hiff.mpr h.1
  | true =>
    refine ⟨multicastAllowed f dest, rfl, ?_⟩
    rw [h.multicastAllowed_iff]
    exact ⟨fun h => ⟨hiff.mp rfl, h⟩, fun h => h.2⟩

/-- **The filters of a run.** After any messages and reuses of the control block, a packet that fits
a frame passes `bnep_is_packet_allowed` exactly when the last accepted ranges allow it, and the
check reads nothing outside the packet. -/
theorem packet_allowed_iff_policy (es : List FilterEvent) (dest : RawAddress) (protocol : Nat)
    (fwExtPresent : Bool) {p : List UInt8} (hp : p.length ≤ bnepMtuSize) :
    ∃ ok, bnepIsPacketAllowed (es.foldl Filters.step Filters.cleared) dest protocol fwExtPresent p =
        .ok ok ∧
      (ok = true ↔ (es.foldl Policy.step Policy.allowAll).Allows dest protocol fwExtPresent p) :=
  (refines_cleared.run es).packetAllowed_eq dest protocol fwExtPresent hp

/-- A peer that takes IPv4 and ARP only, and then sends ranges that are refused. -/
def ipFilters : List FilterEvent :=
  [.allocate, .protSet true [0x08, 0x00, 0x08, 0x00, 0x08, 0x06, 0x08, 0x06],
    .protSet true [0x00, 0x02, 0x00, 0x01], .protSet true [0x86]]

theorem ipFilters_tagged_arp :
    (ipFilters.foldl Policy.step Policy.allowAll).prot = [(0x800, 0x800), (0x806, 0x806)] ∧
    ∃ ok, bnepIsPacketAllowed (ipFilters.foldl Filters.step Filters.cleared) kEmpty
      bnep8021PProtocol false [0, 1, 0x08, 0x06] = .ok ok ∧
      (ok = true ↔ (ipFilters.foldl Policy.step Policy.allowAll).Allows kEmpty bnep8021PProtocol
        false [0, 1, 0x08, 0x06]) :=
  ⟨by decide, packet_allowed_iff_policy ipFilters kEmpty bnep8021PProtocol false (by decide)⟩

/-! ### What is sent -/

theorem Policy.headersLength_short {p : List UInt8} (h : p.length < 2) :
    headersLength p = none := by
  rcases p with _ | ⟨b, _ | ⟨b', p⟩⟩
  · rw [headersLength]
    simp
  · rw [headersLength]
    simp
  · simp at h

theorem Policy.Extensions.headersLength_append (h : Extensions headers) (payload : List UInt8) :
    headersLength (headers ++ payload) = some headers.length := by
  induction h with
  | last hext hlen =>
    rw [List.cons_append, List.cons_append, headersLength, if_neg, if_neg (not_not.mpr hext),
      List.length_cons, List.length_cons, hlen, Nat.add_comm, Nat.add_assoc]
    rw [List.length_append]
    omega
  | more hext hlen hrest ih =>
    rw [List.cons_append, List.cons_append, List.append_assoc, headersLength, if_neg, if_pos hext,
      ← hlen, List.drop_left, ih]
    · simp only [Option.map_some, List.length_cons, List.length_append]
      congr 1
      omega
    · rw [List.length_append]
      omega

theorem Policy.extensions_of_headersLength {p : List UInt8} {n : Nat}
    (h : headersLength p = some n) :
    ∃ headers payload, p = headers ++ payload ∧ Extensions headers := by
  fun_induction headersLength p generalizing n with
  | case1 ext len p hshort => cases h
  | case2 ext len p hlong hext ih =>
    obtain ⟨m, hm, -⟩ := Option.map_eq_some_iff.mp h
    obtain ⟨headers, payload, hp, hheaders⟩ := ih hm
    refine ⟨ext :: len :: (p.take len.toNat ++ headers), payload, ?_, .more hext ?_ hheaders⟩
    · rw [List.cons_append, List.cons_append, List.append_assoc, ← hp, List.take_append_drop]
    · rw [List.length_take]
      omega
  | case3 ext len p hlong hext =>
    refine ⟨ext :: len :: p.take len.toNat, p.drop len.toNat, ?_, .last (not_not.mp hext) ?_⟩
    · rw [List.cons_append, List.cons_append, List.take_append_drop]
    · rw [List.length_take]
      omega
  | case4 p hp => cases h

theorem extensionsEnd_eq (hp : p.length ≤ bnepMtuSize) (pos : Nat) (hpos : pos ≤ p.length) :
    extensionsEnd p pos pos =
      .ok ((Policy.headersLength (p.drop pos)).map fun n => (pos + n, pos + n)) := by
  induction hk : p.length - pos using Nat.strong_induction_on generalizing pos with
  | _ k ih =>
    rw [extensionsEnd]
    by_cases hend : pos + 2 > p.length
    · have hshort : (p.drop pos).length < 2 := by
        rw [List.length_drop]
        omega
      rw [if_pos hend, Policy.headersLength_short hshort]
      rfl
    · have hlt : pos + 1 < p.length := by omega
      rw [if_neg hend, dif_pos hlt]
      have hdrop : p.drop pos = p.get ⟨pos, Nat.lt_of_succ_lt hlt⟩ :: p.get ⟨pos + 1, hlt⟩ ::
          p.drop (pos + 2) := by
        rw [List.drop_eq_getElem_cons (Nat.lt_of_succ_lt hlt), List.drop_eq_getElem_cons hlt]
        rfl
      generalize p.get ⟨pos, Nat.lt_of_succ_lt hlt⟩ = ext at *
      generalize p.get ⟨pos + 1, hlt⟩ = len at *
      have hlen := len.toNat_lt
      have hmtu : bnepMtuSize = 1691 := rfl
      -- within the MTU the sixteen-bit position does not wrap
      have hcount : u16 (pos + (len.toNat + 2)) = pos + 2 + len.toNat := by
        rw [u16_of_lt (by omega)]
        omega
      dsimp only
      rw [hcount, hdrop, Policy.headersLength, List.drop_drop, List.length_drop]
      by_cases hover : pos + 2 + len.toNat > p.length
      · rw [if_pos hover, if_pos (show p.length - (pos + 2) < len.toNat by omega)]
        rfl
      rw [if_neg hover, if_neg (show ¬ p.length - (pos + 2) < len.toNat by omega)]
      by_cases hext : ext &&& 0x80 ≠ 0
      · rw [if_pos hext, if_pos hext,
          ih (p.length - (pos + 2 + len.toNat)) (by omega) (pos + 2 + len.toNat) (by omega) rfl,
          Option.map_map]
        refine congrArg (fun g => Except.ok (Option.map g _)) (funext fun n => ?_)
        simp only [Function.comp_apply, Nat.add_assoc]
      · rw [if_neg hext, if_neg hext]
        simp only [Option.map_some, Nat.add_assoc]

/-- The protocol behind the tag is cleared in place. -/
theorem take_set_tag {payload : List UInt8} (h : 4 ≤ payload.length) :
    (((headers ++ payload).set (headers.length + 2) 0).set (headers.length + 3) 0).take
        (headers.length + 4) = headers ++ payload.take 2 ++ [0, 0] := by
  obtain ⟨t₁, t₀, p₁, p₀, rest, rfl⟩ : ∃ t₁ t₀ p₁ p₀ rest, payload = t₁ :: t₀ :: p₁ :: p₀ ::
      rest := by
    rcases payload with _ | ⟨t₁, _ | ⟨t₀, _ | ⟨p₁, _ | ⟨p₀, rest⟩⟩⟩⟩
    case cons.cons.cons.cons => exact ⟨t₁, t₀, p₁, p₀, rest, rfl⟩
    all_goals simp at h
  rw [List.set_append_right _ _ (by omega), List.set_append_right _ _ (by omega),
    List.take_length_add_append, Nat.add_sub_cancel_left, Nat.add_sub_cancel_left,
    List.append_assoc]
  rfl

theorem dropData_eq_none {p : List UInt8} (hp : p.length ≤ bnepMtuSize)
    (h : Policy.headersLength p = none) : dropData protocol p = .ok none := by
  rw [dropData, extensionsEnd_eq p hp 0 (Nat.zero_le _), List.drop_zero, h]
  rfl

theorem dropData_append {payload : List UInt8} (hheaders : Policy.Extensions headers)
    (hp : (headers ++ payload).length ≤ bnepMtuSize) :
    dropData protocol (headers ++ payload) = .ok (Policy.headersOnly protocol headers payload) := by
  have hmtu : bnepMtuSize = 1691 := rfl
  have hlen : (headers ++ payload).length = headers.length + payload.length := List.length_append
  rw [dropData, extensionsEnd_eq _ hp 0 (Nat.zero_le _), List.drop_zero,
    hheaders.headersLength_append, Option.map_some, Nat.zero_add, Policy.headersOnly]
  change ite _ _ _ = _
  by_cases hproto : protocol ≠ bnep8021PProtocol
  · rw [if_pos hproto, if_pos hproto, List.take_left]
    rfl
  rw [if_neg hproto, if_neg hproto, u16_of_lt (by omega)]
  by_cases hshort : payload.length < 4
  · rw [if_pos hshort, if_pos (by omega)]
    rfl
  · rw [if_neg hshort, if_neg (by omega), if_pos (by omega), take_set_tag (by omega)]
    rfl

theorem writePacket_eq {xmitQ : Nat} {dest : RawAddress} {protocol : Nat} {fwExtPresent : Bool}
    {p : List UInt8} {packet : Option (Nat × List UInt8)} (hp : p.length ≤ bnepMtuSize)
    (h : filterPacket f dest protocol fwExtPresent p = .ok packet) :
    writePacket f xmitQ dest protocol fwExtPresent p = .ok (checkXmitQ xmitQ packet) := by
  rw [writePacket, if_neg (Nat.not_lt.mpr hp), h]
  rfl

section

variable {f : Filters} {a : Policy} {dest : RawAddress} {protocol : Nat} {fwExtPresent : Bool}
  {p : List UInt8}

theorem Refines.filterPacket_of_allows (h : Refines f a) (hp : p.length ≤ bnepMtuSize)
    (hallows : a.Allows dest protocol fwExtPresent p) :
    filterPacket f dest protocol fwExtPresent p = .ok (some (protocol, p)) := by
  obtain ⟨ok, hok, hiff⟩ := h.packetAllowed_eq dest protocol fwExtPresent hp
  rw [filterPacket, hok, hiff.mpr hallows]
  rfl

theorem Refines.filterPacket_of_not_allows (h : Refines f a) (hp : p.length ≤ bnepMtuSize)
    (hnot : ¬ a.Allows dest protocol fwExtPresent p) :
    filterPacket f dest protocol fwExtPresent p =
      if fwExtPresent then dropData protocol p else .ok none := by
  obtain ⟨ok, hok, hiff⟩ := h.packetAllowed_eq dest protocol fwExtPresent hp
  cases ok with
  | true => exact absurd (hiff.mp rfl) hnot
  | false =>
    rw [filterPacket, hok]
    rfl

end

/-- **What a filtered packet gives away.** After any messages of the peer, a packet that its policy
allows is sent as it is. Of one that it does not allow, only a complete chain of extension headers
is sent, with the tag of a tagged packet, and with the protocol cleared: whatever the payload is, it
stays here. Without such a chain nothing is sent. No byte outside the packet is read or written. -/
theorem filtered_payload_withheld (es : List FilterEvent) (xmitQ : Nat) (dest : RawAddress)
    (protocol : Nat) (fwExtPresent : Bool) {p : List UInt8} (hp : p.length ≤ bnepMtuSize)
    {write : Filters → Nat → RawAddress → Nat → Bool → List UInt8 →
      Result (WriteResult × Option (Nat × List UInt8))}
    (hwrite : write = bnepWriteBuf ∨ write = bnepWrite) :
    ((es.foldl Policy.step Policy.allowAll).Allows dest protocol fwExtPresent p →
      write (es.foldl Filters.step Filters.cleared) xmitQ dest protocol fwExtPresent p =
        .ok (checkXmitQ xmitQ (some (protocol, p)))) ∧
    (¬ (es.foldl Policy.step Policy.allowAll).Allows dest protocol fwExtPresent p →
      (∀ headers payload, fwExtPresent = true → p = headers ++ payload → Policy.Extensions headers →
        write (es.foldl Filters.step Filters.cleared) xmitQ dest protocol fwExtPresent p =
          .ok (checkXmitQ xmitQ (Policy.headersOnly protocol headers payload))) ∧
      (¬ (fwExtPresent = true ∧ ∃ headers payload, p = headers ++ payload ∧
        Policy.Extensions headers) →
        write (es.foldl Filters.step Filters.cleared) xmitQ dest protocol fwExtPresent p =
          .ok (.ignoreCmd, none))) := by
  have href := refines_cleared.run es
  obtain rfl : write = writePacket := hwrite.elim id id
  refine ⟨fun hallows => writePacket_eq hp (href.filterPacket_of_allows hp hallows), fun hnot => ?_⟩
  have hfilter := href.filterPacket_of_not_allows hp hnot
  constructor
  · rintro headers payload rfl rfl hheaders
    exact writePacket_eq hp (hfilter.trans (dropData_append protocol hheaders hp))
  · intro hnone
    cases fwExtPresent with
    | false => exact writePacket_eq hp hfilter
    | true =>
      have hlength : Policy.headersLength p = none :=
        Option.eq_none_iff_forall_ne_some.mpr fun n hn =>
          hnone ⟨rfl, Policy.extensions_of_headersLength hn⟩
      exact writePacket_eq hp (hfilter.trans (dropData_eq_none protocol hp hlength))

/-- An IPv6 packet with one extension header, to the peer of `ipFilters`. -/
theorem ipFilters_ipv6_withheld :
    bnepWrite (ipFilters.foldl Filters.step Filters.cleared) 0 kEmpty 0x86DD true
      ([0, 2, 7, 7] ++ [0x60, 0, 0, 0, 0xAA]) = .ok (.success, some (0, [0, 2, 7, 7])) := by
  have hnot : ¬ (ipFilters.foldl Policy.step Policy.allowAll).Allows kEmpty 0x86DD true
      ([0, 2, 7, 7] ++ [0x60, 0, 0, 0, 0xAA]) := by
    rintro ⟨hprot, -⟩
    have hranges : (ipFilters.foldl Policy.step Policy.allowAll).prot =
        [(0x800, 0x800), (0x806, 0x806)] := by decide
    rw [hranges, Policy.protocolOf, if_pos (by decide)] at hprot
    simp at hprot
  exact ((filtered_payload_withheld ipFilters 0 kEmpty 0x86DD true (by decide) (.inr rfl)).2 hnot).1
    [0, 2, 7, 7] [0x60, 0, 0, 0, 0xAA] rfl rfl (.last (by decide) rfl)

end BluetoothStack.Bnep
