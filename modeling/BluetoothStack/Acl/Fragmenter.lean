import BluetoothStack.Lib.Words

/-!
# BluetoothStack.Acl.Fragmenter

Cutting a packet into fragments of at most `mtu` bytes (`packet/fragmenting_inserter.cc`,
`acl_fragmenter.cc`). A `FragmentingInserter` is a `BitInserter` (`packet/bit_inserter.cc`) whose
bytes are cut.
-/

namespace BluetoothStack.Acl

open BluetoothStack.Lib

/-- `RawBuilder::AddOctets1` of a builder for at most `maxBytes` bytes. -/
def addOctets1 (maxBytes : Nat) (payload : List UInt8) (value : UInt8) : List UInt8 :=
  if payload.length + 1 > maxBytes then payload else payload ++ [value]

structure BitInserter where
  vector : List UInt8
  numSavedBits : Nat
  savedBits : Nat
deriving DecidableEq, Repr

namespace BitInserter

def init : BitInserter := ⟨[], 0, 0⟩

/-- `BitInserter::insert_bits`. -/
def insertBits (it : BitInserter) (byte : UInt8) (numBits : Nat) : BitInserter :=
  let totalBits := numBits + it.numSavedBits
  let newValue := u16 (it.savedBits ||| (byte.toNat <<< it.numSavedBits))
  if totalBits ≥ 8 then
    { vector := it.vector ++ [UInt8.ofNat newValue]
      numSavedBits := totalBits - 8
      savedBits := u8 (newValue >>> 8) &&& (0xff >>> (8 - (totalBits - 8))) }
  else
    { it with
      numSavedBits := totalBits
      savedBits := u8 newValue &&& (0xff >>> (8 - totalBits)) }

end BitInserter

structure FragmentingInserter where
  mtu : Nat
  currPacket : List UInt8
  /-- The fragments that are complete. -/
  fragments : List (List UInt8)
  numSavedBits : Nat
  savedBits : Nat
deriving DecidableEq, Repr

namespace FragmentingInserter

def init (mtu : Nat) : FragmentingInserter := ⟨mtu, [], [], 0, 0⟩

/-- `insert_bits`. -/
def insertBits (it : FragmentingInserter) (byte : UInt8) (numBits : Nat) : FragmentingInserter :=
  let totalBits := numBits + it.numSavedBits
  let newValue := u16 (it.savedBits ||| (byte.toNat <<< it.numSavedBits))
  let mask := fun n => 0xff >>> (8 - n)
  if totalBits ≥ 8 then
    let packet := addOctets1 it.mtu it.currPacket (UInt8.ofNat newValue)
    let it := if packet.length ≥ it.mtu then
        { it with fragments := it.fragments ++ [packet], currPacket := [] }
      else { it with currPacket := packet }
    { it with
      numSavedBits := totalBits - 8
      savedBits := u8 (newValue >>> 8) &&& mask (totalBits - 8) }
  else { it with numSavedBits := totalBits, savedBits := u8 newValue &&& mask totalBits }

/-- `finalize`. -/
def finalize (it : FragmentingInserter) : List (List UInt8) :=
  if it.currPacket.length ≠ 0 then it.fragments ++ [it.currPacket] else it.fragments

end FragmentingInserter

/-- `AclFragmenter::GetFragments`: the packet is serialized byte by byte. -/
def getFragments (mtu : Nat) (packet : List UInt8) : List (List UInt8) :=
  (packet.foldl (fun it byte => it.insertBits byte 8) (FragmentingInserter.init mtu)).finalize

/-! ### A fragmenting inserter is a bit inserter whose bytes are cut -/

section

variable {mtu : Nat} {it : FragmentingInserter} {b : BitInserter}

/-- The two inserters have seen the same bits. -/
structure Same (mtu : Nat) (it : FragmentingInserter) (b : BitInserter) : Prop where
  mtu_eq : it.mtu = mtu
  bytes_eq : it.fragments.flatten ++ it.currPacket = b.vector
  numSavedBits_eq : it.numSavedBits = b.numSavedBits
  savedBits_eq : it.savedBits = b.savedBits
  room : it.currPacket.length < mtu
  full : ∀ f ∈ it.fragments, f.length = mtu

theorem same_init (hmtu : 1 ≤ mtu) : Same mtu (.init mtu) .init :=
  ⟨rfl, rfl, rfl, rfl, hmtu, by simp [FragmentingInserter.init]⟩

theorem Same.insertBits (h : Same mtu it b) (byte : UInt8) (numBits : Nat) :
    Same mtu (it.insertBits byte numBits) (b.insertBits byte numBits) := by
  have hroom := h.room
  have hadd (value : UInt8) : addOctets1 mtu it.currPacket value = it.currPacket ++ [value] :=
    if_neg (by omega)
  unfold FragmentingInserter.insertBits BitInserter.insertBits
  rw [h.numSavedBits_eq, h.savedBits_eq, h.mtu_eq]
  dsimp only
  by_cases htotal : numBits + b.numSavedBits ≥ 8
  · rw [if_pos htotal, if_pos htotal, hadd]
    split
    next hfull =>
      -- the byte completes a fragment
      refine ⟨rfl, ?_, rfl, rfl, Nat.zero_lt_of_lt hroom, ?_⟩
      · simp [← h.bytes_eq]
      · refine List.forall_mem_append.mpr ⟨h.full, List.forall_mem_singleton.mpr ?_⟩
        simp only [List.length_append, List.length_singleton] at hfull ⊢
        omega
    next hfull =>
      refine ⟨rfl, ?_, rfl, rfl, Nat.lt_of_not_ge hfull, h.full⟩
      simp [← h.bytes_eq]
  · rw [if_neg htotal, if_neg htotal]
    exact ⟨rfl, h.bytes_eq, rfl, rfl, hroom, h.full⟩

/-- The fragments are the bytes, all full but the last, and none is empty. -/
theorem Same.finalize (h : Same mtu it b) :
    it.finalize.flatten = b.vector ∧ (∀ f ∈ it.finalize.dropLast, f.length = mtu) ∧
      ∀ f ∈ it.finalize, 1 ≤ f.length ∧ f.length ≤ mtu := by
  have hroom := h.room
  have hpieces : ∀ f ∈ it.fragments, 1 ≤ f.length ∧ f.length ≤ mtu := by
    intro f hf
    have hlength := h.full f hf
    omega
  rw [← h.bytes_eq]
  unfold FragmentingInserter.finalize
  split
  next hsome =>
    -- a fragment that is not full yet is the last one
    refine ⟨by simp, ?_, List.forall_mem_append.mpr ⟨hpieces, ?_⟩⟩
    · rw [List.dropLast_concat]
      exact h.full
    · rw [List.forall_mem_singleton]
      omega
  next hempty =>
    refine ⟨?_, fun f hf => h.full f (List.dropLast_subset _ hf), hpieces⟩
    rw [List.length_eq_zero_iff.mp (not_not.mp hempty), List.append_nil]

end

/-- Between two bytes a whole byte is put behind the others. -/
theorem BitInserter.insertBits_aligned (bytes : List UInt8) (byte : UInt8) :
    insertBits ⟨bytes, 0, 0⟩ byte 8 = ⟨bytes ++ [byte], 0, 0⟩ := by
  have hlt := byte.toNat_lt
  simp only [insertBits, Nat.zero_or, Nat.shiftLeft_zero, Nat.add_zero, ge_iff_le, Nat.le_refl,
    if_true, Nat.sub_self, Nat.sub_zero]
  rw [u16_of_lt (by omega), UInt8.ofNat_toNat, show (0xff : Nat) >>> 8 = 0 from rfl, Nat.and_zero]

/-- The fragments are the packet in non-empty pieces of at most `mtu` bytes. -/
theorem getFragments_spec {mtu : Nat} (hmtu : 1 ≤ mtu) (packet : List UInt8) :
    (getFragments mtu packet).flatten = packet ∧
      ∀ f ∈ getFragments mtu packet, f ≠ [] ∧ f.length ≤ mtu := by
  have hbytes (packet bytes : List UInt8) :
      packet.foldl (fun b byte => b.insertBits byte 8) (⟨bytes, 0, 0⟩ : BitInserter) =
        ⟨bytes ++ packet, 0, 0⟩ := by
    induction packet generalizing bytes with
    | nil => rw [List.append_nil, List.foldl_nil]
    | cons byte packet ih =>
      rw [List.foldl_cons, BitInserter.insertBits_aligned, ih, List.append_assoc,
        List.singleton_append]
  have hsame := List.foldl_rel (r := Same mtu) (l := packet) (same_init hmtu)
    fun byte _ _ _ h => h.insertBits byte 8
  obtain ⟨hflatten, -, hpieces⟩ := hsame.finalize
  rw [BitInserter.init, hbytes] at hflatten
  exact ⟨hflatten, fun f hf => ⟨List.ne_nil_of_length_pos (hpieces f hf).1, (hpieces f hf).2⟩⟩

end BluetoothStack.Acl
