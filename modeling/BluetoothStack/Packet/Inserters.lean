import Mathlib.Algebra.BigOperators.Group.List.Basic
import Mathlib.Tactic.Ring
import BluetoothStack.Acl.Fragmenter

/-!
# Building packets from fields

A builder writes its fields into a `BitInserter`, which collects them from the lowest bit up, or
into a `FragmentingInserter`, which cuts the bytes into fragments on the way
(`packet/bit_inserter.cc`, `packet/fragmenting_inserter.cc`, `packet/endian_inserter.h`). The
fragments are the bytes of the plain packet whatever the widths of the fields, and the plain packet
is the number that the fields make up.
-/

namespace BluetoothStack.Packet

open BluetoothStack.Lib BluetoothStack.Acl

/-! ### The code -/

/-- The byte that `EndianInserter::insert` writes at place `i` of a value of `numBits` bits. -/
def wireByte (littleEndian : Bool) (value numBits i : Nat) : UInt8 :=
  UInt8.ofNat (value >>> (if littleEndian then i * 8 else (numBits / 8 - i - 1) * 8))

/-- `EndianInserter::insert` of a value with its bits, into an inserter with this `insert_bits`. -/
def insertField {σ : Type*} (insertBits : σ → UInt8 → Nat → σ) (littleEndian : Bool) (it : σ)
    (field : Nat × Nat) : σ :=
  let (value, numBits) := field
  let it := (List.range (numBits / 8)).foldl
    (fun it i => insertBits it (wireByte littleEndian value numBits i) 8) it
  if numBits % 8 ≠ 0 then
    insertBits it (UInt8.ofNat (value >>> ((numBits / 8) * 8))) (numBits % 8)
  else it

variable {b : BitInserter} {width value : Nat}

/-! ### The two inserters -/

theorem insertField_same (littleEndian : Bool) (field : Nat × Nat) {mtu : Nat}
    {it : FragmentingInserter} (h : Same mtu it b) :
    Same mtu (insertField FragmentingInserter.insertBits littleEndian it field)
      (insertField BitInserter.insertBits littleEndian b field) := by
  have hwhole := List.foldl_rel (l := List.range (field.2 / 8)) h
    fun i _ _ _ h => h.insertBits (wireByte littleEndian field.1 field.2 i) 8
  unfold insertField
  dsimp only
  split
  · exact hwhole.insertBits _ _
  · exact hwhole

/-! ### The number a bit inserter holds -/

/-- An inserter with `width` bits, which make up `value`. -/
structure Holds (b : BitInserter) (width value : Nat) : Prop where
  width_eq : 8 * b.vector.length + b.numSavedBits = width
  value_eq : leValue b.vector + b.savedBits * 2 ^ (8 * b.vector.length) = value
  saved_lt : b.numSavedBits < 8
  bits_lt : b.savedBits < 2 ^ b.numSavedBits

theorem leValue_concat (bytes : List UInt8) (byte : UInt8) :
    leValue (bytes ++ [byte]) = leValue bytes + byte.toNat * 2 ^ (8 * bytes.length) := by
  rw [leValue_append, Nat.pow_mul, Nat.mul_comm]
  rfl

theorem and_mask (v : Nat) {m : Nat} (hm : m ≤ 8) : v &&& (0xff >>> (8 - m)) = v % 2 ^ m := by
  have hmask : ∀ m ≤ 8, 0xff >>> (8 - m) = 2 ^ m - 1 := by decide
  rw [hmask m hm, Nat.and_two_pow_sub_one_eq_mod]

theorem newValue_eq {s k : Nat} (byte : UInt8) (hs : s < 2 ^ k) (hk : k < 8) :
    u16 (s ||| (byte.toNat <<< k)) = byte.toNat * 2 ^ k + s ∧ byte.toNat * 2 ^ k + s < 32768 := by
  have hbyte := byte.toNat_lt
  have hpow : 2 ^ k ≤ 2 ^ 7 := Nat.pow_le_pow_right (by decide) (by omega)
  have hlt : byte.toNat * 2 ^ k + s < 32768 := by
    have : byte.toNat * 2 ^ k ≤ 255 * 2 ^ 7 := Nat.mul_le_mul (by omega) hpow
    omega
  refine ⟨?_, hlt⟩
  rw [Nat.or_comm, ← Nat.shiftLeft_add_eq_or_of_lt hs, Nat.shiftLeft_eq, u16_of_lt (by omega)]

theorem mod_two_pow_split (v m n : Nat) :
    v % 2 ^ (m + n) = (v >>> n) % 2 ^ m * 2 ^ n + v % 2 ^ n := by
  rw [Nat.shiftRight_eq_div_pow, Nat.add_comm m n, Nat.pow_add, Nat.mod_mul]
  ring

theorem newValue_mod {s k n : Nat} (byte : Nat) (hs : s < 2 ^ k) :
    (byte * 2 ^ k + s) % 2 ^ (n + k) = byte % 2 ^ n * 2 ^ k + s := by
  rw [mod_two_pow_split, Nat.shiftRight_eq_div_pow, Nat.mul_add_mod_self_right,
    Nat.mod_eq_of_lt hs, Nat.add_comm (byte * _), Nat.add_mul_div_right _ _ (Nat.two_pow_pos k),
    Nat.div_eq_of_lt hs, Nat.zero_add]

/-- **One call of `insert_bits` puts the low bits of its byte behind the others.** -/
theorem Holds.insertBits (h : Holds b width value) (byte : UInt8) {n : Nat} (hn : n ≤ 8) :
    Holds (b.insertBits byte n) (width + n) (value + byte.toNat % 2 ^ n * 2 ^ width) := by
  obtain ⟨hnew, hlt⟩ := newValue_eq byte h.bits_lt h.saved_lt
  have hmod := newValue_mod (n := n) byte.toNat h.bits_lt
  have hsaved := h.saved_lt
  have hwidth := h.width_eq
  have hgoal : value + byte.toNat % 2 ^ n * 2 ^ width = leValue b.vector +
      (byte.toNat % 2 ^ n * 2 ^ b.numSavedBits + b.savedBits) * 2 ^ (8 * b.vector.length) := by
    rw [← h.value_eq, ← hwidth, Nat.pow_add]
    ring
  rw [hgoal, ← hmod]
  unfold BitInserter.insertBits
  rw [hnew]
  generalize byte.toNat * 2 ^ b.numSavedBits + b.savedBits = new at *
  dsimp only
  split
  next htotal =>
    -- a byte is complete
    obtain ⟨m, hm⟩ : ∃ m, n + b.numSavedBits = m + 8 := ⟨n + b.numSavedBits - 8, by omega⟩
    have hhigh : new >>> 8 < 256 := by
      rw [Nat.shiftRight_eq_div_pow]
      omega
    have hbits : u8 (new >>> 8) &&& (0xff >>> (8 - (n + b.numSavedBits - 8))) =
        (new >>> 8) % 2 ^ m := by
      rw [hm, Nat.add_sub_cancel, and_mask _ (by omega), u8, Nat.mod_eq_of_lt hhigh]
    have hbyte : (UInt8.ofNat new).toNat = new % 2 ^ 8 := UInt8.toNat_ofNat'
    rw [hbits]
    refine ⟨?_, ?_, ?_, ?_⟩
    · simp only [List.length_append, List.length_singleton]
      omega
    · simp only [leValue_concat, hbyte, List.length_append, List.length_singleton]
      rw [hm, mod_two_pow_split, Nat.mul_add 8, Nat.pow_add]
      ring
    · dsimp only
      omega
    · rw [show n + b.numSavedBits - 8 = m by omega]
      exact Nat.mod_lt _ (Nat.two_pow_pos m)
  next htotal =>
    have hbits : u8 new &&& (0xff >>> (8 - (n + b.numSavedBits))) =
        new % 2 ^ (n + b.numSavedBits) := by
      rw [and_mask _ (by omega), u8, show (256 : Nat) = 2 ^ (n + b.numSavedBits) *
        2 ^ (8 - (n + b.numSavedBits)) by
          rw [← Nat.pow_add, show n + b.numSavedBits + (8 - (n + b.numSavedBits)) = 8 by omega],
        Nat.mod_mul_right_mod]
    rw [hbits]
    refine ⟨?_, rfl, Nat.lt_of_not_ge htotal, Nat.mod_lt _ (Nat.two_pow_pos _)⟩
    dsimp only
    omega

/-! ### Fields -/

/-- The number that the bits of a field make up on the wire. -/
def wireValue (littleEndian : Bool) (value numBits : Nat) : Nat :=
  leValue ((List.range (numBits / 8)).map (wireByte littleEndian value numBits)) +
    value >>> ((numBits / 8) * 8) % 2 ^ (numBits % 8) * 2 ^ (8 * (numBits / 8))

/-- In little endian it is the value, as far as it has bits. -/
theorem wireValue_little (value numBits : Nat) :
    wireValue true value numBits = value % 2 ^ numBits := by
  have hbytes (q : Nat) :
      leValue ((List.range q).map (wireByte true value numBits)) = value % 2 ^ (8 * q) := by
    induction q with
    | zero => simp [leValue, Nat.mod_one]
    | succ q ih =>
      have hbyte : (wireByte true value numBits q).toNat = (value >>> (8 * q)) % 2 ^ 8 := by
        rw [wireByte, if_pos rfl, Nat.mul_comm q 8]
        exact UInt8.toNat_ofNat'
      rw [List.range_succ, List.map_append, List.map_cons, List.map_nil, leValue_concat, ih, hbyte,
        List.length_map, List.length_range, show 8 * (q + 1) = 8 + 8 * q by omega,
        mod_two_pow_split]
      omega
  rw [wireValue, hbytes, Nat.mul_comm (numBits / 8) 8, Nat.add_comm,
    ← mod_two_pow_split, Nat.mod_add_div]

theorem Holds.insertField (littleEndian : Bool) (field : Nat × Nat) (h : Holds b width value) :
    Holds (Packet.insertField BitInserter.insertBits littleEndian b field) (width + field.2)
      (value + wireValue littleEndian field.1 field.2 * 2 ^ width) := by
  obtain ⟨v, numBits⟩ := field
  -- the whole bytes, one after the other
  have hbytes (q : Nat) : Holds
      ((List.range q).foldl (fun it i => it.insertBits (wireByte littleEndian v numBits i) 8) b)
      (width + 8 * q)
      (value + leValue ((List.range q).map (wireByte littleEndian v numBits)) * 2 ^ width) := by
    induction q with
    | zero => simpa [leValue] using h
    | succ q ih =>
      have hstep := ih.insertBits (wireByte littleEndian v numBits q) (Nat.le_refl 8)
      rw [List.range_succ, List.foldl_append, List.foldl_cons, List.foldl_nil, List.map_append,
        List.map_cons, List.map_nil, leValue_concat, List.length_map, List.length_range]
      rw [Nat.mod_eq_of_lt (wireByte littleEndian v numBits q).toNat_lt] at hstep
      rw [Nat.mul_add, ← Nat.add_assoc, Nat.add_mul, ← Nat.add_assoc, Nat.mul_assoc, ← Nat.pow_add,
        Nat.add_comm (8 * q) width]
      exact hstep
  have hwhole := hbytes (numBits / 8)
  unfold Packet.insertField
  dsimp only
  split
  next hrest =>
    have hlast := hwhole.insertBits (UInt8.ofNat (v >>> ((numBits / 8) * 8)))
      (show numBits % 8 ≤ 8 by omega)
    have hbyte : (UInt8.ofNat (v >>> ((numBits / 8) * 8))).toNat % 2 ^ (numBits % 8) =
        v >>> ((numBits / 8) * 8) % 2 ^ (numBits % 8) := by
      rw [UInt8.toNat_ofNat', show (2 : Nat) ^ 8 = 2 ^ (numBits % 8) * 2 ^ (8 - numBits % 8) by
        rw [← Nat.pow_add, show numBits % 8 + (8 - numBits % 8) = 8 by omega],
          Nat.mod_mul_right_mod]
    rw [hbyte, Nat.add_assoc width, show 8 * (numBits / 8) + numBits % 8 = numBits by omega]
      at hlast
    rw [wireValue, Nat.add_mul, ← Nat.add_assoc, Nat.mul_assoc, ← Nat.pow_add,
      Nat.add_comm (8 * (numBits / 8)) width]
    exact hlast
  next hrest =>
    have hzero : numBits % 8 = 0 := not_not.mp hrest
    rw [wireValue, hzero, Nat.pow_zero, Nat.mod_one, Nat.zero_mul, Nat.add_zero]
    rw [show 8 * (numBits / 8) = numBits by omega] at hwhole
    exact hwhole

/-- The bits of the fields together. -/
def totalBits (fields : List (Nat × Nat)) : Nat := (fields.map (·.2)).sum

/-- The number of the fields, the first in the lowest bits. -/
def fieldsNumber (littleEndian : Bool) : List (Nat × Nat) → Nat
  | [] => 0
  | field :: fields =>
    wireValue littleEndian field.1 field.2 + 2 ^ field.2 * fieldsNumber littleEndian fields

theorem Holds.insertFields (littleEndian : Bool) (fields : List (Nat × Nat))
    (h : Holds b width value) :
    Holds (fields.foldl (Packet.insertField BitInserter.insertBits littleEndian) b)
      (width + totalBits fields) (value + fieldsNumber littleEndian fields * 2 ^ width) := by
  induction fields generalizing b width value with
  | nil => simpa [totalBits, fieldsNumber] using h
  | cons field fields ih =>
    have hrest := ih (h.insertField littleEndian field)
    have hwidth : width + totalBits (field :: fields) = width + field.2 + totalBits fields :=
      (Nat.add_assoc _ _ _).symm
    have hvalue : value + fieldsNumber littleEndian (field :: fields) * 2 ^ width =
        value + wireValue littleEndian field.1 field.2 * 2 ^ width +
          fieldsNumber littleEndian fields * 2 ^ (width + field.2) := by
      rw [fieldsNumber, Nat.pow_add]
      ring
    rw [hwidth, hvalue]
    exact hrest

theorem fieldsNumber_append (littleEndian : Bool) (before after : List (Nat × Nat)) :
    fieldsNumber littleEndian (before ++ after) = fieldsNumber littleEndian before +
      2 ^ totalBits before * fieldsNumber littleEndian after := by
  induction before with
  | nil => simp [fieldsNumber, totalBits]
  | cons field before ih =>
    have htotal : totalBits (field :: before) = field.2 + totalBits before := rfl
    rw [List.cons_append, fieldsNumber, fieldsNumber, ih, htotal, Nat.pow_add]
    ring

theorem fieldsNumber_little_lt (fields : List (Nat × Nat)) :
    fieldsNumber true fields < 2 ^ totalBits fields := by
  induction fields with
  | nil => exact Nat.one_pos
  | cons field fields ih =>
    have htotal : totalBits (field :: fields) = field.2 + totalBits fields := rfl
    have hfield : field.1 % 2 ^ field.2 < 2 ^ field.2 := Nat.mod_lt _ (Nat.two_pow_pos _)
    rw [fieldsNumber, wireValue_little, htotal, Nat.pow_add]
    calc field.1 % 2 ^ field.2 + 2 ^ field.2 * fieldsNumber true fields
        < 2 ^ field.2 + 2 ^ field.2 * fieldsNumber true fields := Nat.add_lt_add_right hfield _
      _ = 2 ^ field.2 * (fieldsNumber true fields + 1) := by ring
      _ ≤ 2 ^ field.2 * 2 ^ totalBits fields := Nat.mul_le_mul_left _ ih

/-- In little endian a field is found again at its offset. -/
theorem fieldsNumber_field (before after : List (Nat × Nat)) (v n : Nat) :
    fieldsNumber true (before ++ (v, n) :: after) >>> totalBits before % 2 ^ n = v % 2 ^ n := by
  rw [fieldsNumber_append, Nat.shiftRight_eq_div_pow, Nat.add_mul_div_left _ _ (Nat.two_pow_pos _),
    Nat.div_eq_of_lt (fieldsNumber_little_lt before), Nat.zero_add, fieldsNumber, wireValue_little,
    Nat.add_mul_mod_self_left, Nat.mod_mod]

theorem holds_init : Holds BitInserter.init 0 0 := ⟨rfl, rfl, by decide, by decide⟩

/-- **Fragments of any fields.** Fields of any widths that fill whole bytes are cut into fragments
which together are the bytes that a plain `BitInserter` collects, and these are the number that the
fields make up from the lowest bit on, where in little endian every field is found again at its
offset. All fragments have `mtu` bytes but the last, which has at least one. -/
theorem fragments_of_fields {mtu : Nat} (hmtu : 1 ≤ mtu) (littleEndian : Bool)
    {fields : List (Nat × Nat)} (hbytes : 8 ∣ totalBits fields) :
    let fragments := (fields.foldl (insertField FragmentingInserter.insertBits littleEndian)
      (FragmentingInserter.init mtu)).finalize
    fragments.flatten =
        (fields.foldl (insertField BitInserter.insertBits littleEndian) BitInserter.init).vector ∧
      8 * fragments.flatten.length = totalBits fields ∧
      leValue fragments.flatten = fieldsNumber littleEndian fields ∧
      (littleEndian = true → ∀ before v n after, fields = before ++ (v, n) :: after →
        leValue fragments.flatten >>> totalBits before % 2 ^ n = v % 2 ^ n) ∧
      (∀ f ∈ fragments.dropLast, f.length = mtu) ∧ ∀ f ∈ fragments, 1 ≤ f.length ∧
        f.length ≤ mtu := by
  have hsame := List.foldl_rel (l := fields) (same_init hmtu)
    fun field _ _ _ h => insertField_same littleEndian field h
  have hholds := holds_init.insertFields littleEndian fields
  generalize fields.foldl (insertField FragmentingInserter.insertBits littleEndian)
    (FragmentingInserter.init mtu) = it at *
  generalize fields.foldl (insertField BitInserter.insertBits littleEndian) BitInserter.init =
    b at *
  rw [Nat.zero_add, Nat.zero_add, Nat.pow_zero, Nat.mul_one] at hholds
  obtain ⟨hflat, hfull, hpieces⟩ := hsame.finalize
  -- whole bytes leave no bits behind
  have hsaved : b.numSavedBits = 0 := by
    have hwidth := hholds.width_eq
    have := hholds.saved_lt
    omega
  have hzero : b.savedBits = 0 := by
    have := hholds.bits_lt
    rw [hsaved] at this
    omega
  have hnumber : leValue it.finalize.flatten = fieldsNumber littleEndian fields := by
    rw [hflat, ← hholds.value_eq, hzero, Nat.zero_mul, Nat.add_zero]
  refine ⟨hflat, ?_, hnumber, ?_, hfull, hpieces⟩
  · rw [hflat, ← hholds.width_eq, hsaved, Nat.add_zero]
  · rintro rfl before v n after rfl
    rw [hnumber, fieldsNumber_field]

/-- The handle and the flags of an ACL packet share two bytes. -/
def aclFields : List (Nat × Nat) := [(0x123, 12), (2, 2), (0, 2), (3, 16), (0xc0ffee, 24)]

theorem aclFields_fragments :
    ((aclFields.foldl (insertField FragmentingInserter.insertBits true)
        (FragmentingInserter.init 3)).finalize = [[0x23, 0x21, 3], [0, 0xee, 0xff], [0xc0]]) ∧
      leValue (aclFields.foldl (insertField FragmentingInserter.insertBits true)
        (FragmentingInserter.init 3)).finalize.flatten = fieldsNumber true aclFields :=
  ⟨by decide, (fragments_of_fields (by decide) true (by decide)).2.2.1⟩

end BluetoothStack.Packet
