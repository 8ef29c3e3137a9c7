import BluetoothStack.Lib.Cmac

/-!
# BluetoothStack.Crypto.AesCmac

AES-CMAC (`aes_cmac.cc`), which keeps every block with its least significant byte first and works
from the end of a buffer to its start.

The cipher of `aes.cc` is an arbitrary function of a key and a block. The work buffer is what
`alloca` gives, so that its bytes are parameters, as is the output block before it is written.
-/

namespace BluetoothStack.Crypto

open BluetoothStack.Lib

/-! ### The source -/

abbrev Octet16 := Vector UInt8 16

def constRb : Octet16 := #v[0x87, 0, 0, 0, 0, 0, 0, 0, 0, 0, 0, 0, 0, 0, 0, 0]

/-- `xor_128`. -/
def xor128 (a b : Octet16) : Octet16 := Vector.zipWith (· ^^^ ·) a b

/-- `aes_128`, with the cipher of `aes.cc`. -/
def aes128 (cipher : Octet16 → Octet16 → Octet16) (key message : Octet16) : Octet16 :=
  (cipher key.reverse message.reverse).reverse

/-- `padding`. -/
def padding (dest : Octet16) (length : Nat) : Octet16 :=
  (List.range' length (16 - length)).foldl
    (fun p i => p.setIfInBounds (16 - i - 1) (if i = length then 0x80 else 0)) dest

/-- The loop of `leftshift_onebit`. -/
def leftshiftBytes (overflow : UInt8) : List UInt8 → List UInt8
  | [] => []
  | b :: bs => ((b <<< 1) ||| overflow) :: leftshiftBytes (if b &&& 0x80 ≠ 0 then 1 else 0) bs

theorem length_leftshiftBytes (overflow : UInt8) (bs : List UInt8) :
    (leftshiftBytes overflow bs).length = bs.length := by
  induction bs generalizing overflow with
  | nil => rfl
  | cons b bs ih => rw [leftshiftBytes, List.length_cons, ih, List.length_cons]

/-- `leftshift_onebit`. -/
def leftshiftOnebit (input : Octet16) : Octet16 :=
  ⟨(leftshiftBytes 0 input.toList).toArray, by simp [length_leftshiftBytes]⟩

/-- A subkey from what comes before it, in `cmac_generate_subkey`. -/
def subkey (p : Octet16) : Octet16 :=
  if p[15] &&& 0x80 ≠ 0 then xor128 (leftshiftOnebit p) constRb else leftshiftOnebit p

/-- The block with an index in the buffer. -/
def readBlock (text : List UInt8) (i : Nat) : Octet16 :=
  Vector.ofFn fun j => text.getD (16 * i + j) 0

def writeBlock (text : List UInt8) (i : Nat) (b : Octet16) : List UInt8 :=
  blit text (16 * i) b.toList

/-- `cmac_prepare_last_block`. -/
def cmacPrepareLastBlock (text : List UInt8) (len : Nat) (k1 k2 : Octet16) : List UInt8 :=
  if len % 16 = 0 ∧ len ≠ 0 then writeBlock text 0 (xor128 (readBlock text 0) k1)
  else writeBlock text 0 (xor128 (padding (readBlock text 0) (u8 (len % 16))) k2)

/-- `cmac_generate_subkey`. -/
def cmacGenerateSubkey (cipher : Octet16 → Octet16 → Octet16) (key : Octet16) (text : List UInt8)
    (len : Nat) : List UInt8 :=
  let k1 := subkey (aes128 cipher key (Vector.replicate 16 0))
  cmacPrepareLastBlock text len k1 (subkey k1)

structure CalculateState where
  text : List UInt8
  x : Octet16
  output : Octet16

/-- A round of `cmac_aes_k_calculate`. -/
def calculateRound (cipher : Octet16 → Octet16 → Octet16) (key : Octet16) (round : Nat)
    (s : CalculateState) (i : Nat) : CalculateState :=
  let text := writeBlock s.text (round - i) (xor128 (readBlock s.text (round - i)) s.x)
  let output := aes128 cipher key (readBlock text (round - i))
  ⟨text, output, output⟩

/-- `cmac_aes_k_calculate`. -/
def cmacAesKCalculate (cipher : Octet16 → Octet16 → Octet16) (key : Octet16) (text : List UInt8)
    (round : Nat) (output : Octet16) : Octet16 :=
  ((List.range' 1 round).foldl (calculateRound cipher key round)
    ⟨text, Vector.replicate 16 0, output⟩).output

/-- `aes_cmac` of all of the input. -/
def aesCmac (cipher : Octet16 → Octet16 → Octet16) (key : Octet16) (input : List UInt8)
    (uninitialised : Nat → UInt8) (output : Octet16) : Octet16 :=
  let n := u16 ((input.length + 16 - 1) / 16)
  let n := if n = 0 then 1 else n
  let len := n * 16
  let text := (List.range len).map uninitialised
  let diff := sub16 len input.length
  let text := if input.length > 0 then blit text diff input else text
  let text := cmacGenerateSubkey cipher key text input.length
  cmacAesKCalculate cipher key text n output

/-! ### The buffer -/

variable {i : Nat} {text : List UInt8} (p : Octet16)

theorem getD_blit {l src : List UInt8} (h : i + src.length ≤ l.length) (p : Nat) :
    (blit l i src).getD p 0 =
      if i ≤ p ∧ p < i + src.length then src.getD (p - i) 0 else l.getD p 0 := by
  have hlen : (l.take i).length = i := by
    rw [List.length_take]
    omega
  rw [blit, List.append_assoc]
  simp only [List.getD_eq_getElem?_getD]
  by_cases hbefore : p < i
  · rw [if_neg (by omega), List.getElem?_append_left (by omega), List.getElem?_take, if_pos hbefore]
  · rw [List.getElem?_append_right (by omega), hlen]
    by_cases hin : p < i + src.length
    · rw [if_pos (by omega), List.getElem?_append_left (by omega)]
    · rw [if_neg (by omega), List.getElem?_append_right (by omega), List.getElem?_drop]
      congr 2
      omega

/-- A block that is written is the only one that changes. -/
theorem readBlock_writeBlock (h : 16 * i + 16 ≤ text.length) (b : Octet16) (k : Nat) :
    readBlock (writeBlock text i b) k = if k = i then b else readBlock text k := by
  refine Vector.ext fun j hj => ?_
  have hfits : 16 * i + b.toList.length ≤ text.length := by simpa using h
  rw [readBlock, Vector.getElem_ofFn, writeBlock, getD_blit hfits, Vector.length_toList]
  dsimp only
  by_cases hk : k = i
  · subst hk
    rw [if_pos (by omega), Nat.add_sub_cancel_left]
    simp [List.getD_eq_getElem?_getD, hj]
  · simp only [if_neg hk]
    rw [if_neg (by omega), readBlock, Vector.getElem_ofFn]

theorem length_writeBlock (h : 16 * i + 16 ≤ text.length) (b : Octet16) :
    (writeBlock text i b).length = text.length :=
  blit_length (by simpa using h)

theorem get_padding (dest : Octet16) {length j : Nat} (hlength : length ≤ 16) (hj : j < 16) :
    (padding dest length)[j] =
      if j + length < 16 then if j + length = 15 then 0x80 else 0 else dest[j] := by
  -- After some rounds the bytes from the top of the padding down are written.
  have hloop : ∀ n ≤ 16 - length,
      ((List.range' length n).foldl (fun (p : Octet16) i =>
        p.setIfInBounds (16 - i - 1) (if i = length then 0x80 else 0)) dest)[j] =
        if j + length < 16 ∧ 16 ≤ j + length + n then if j + length = 15 then 0x80 else 0
        else dest[j] := by
    intro n
    induction n with
    | zero =>
      intro _
      rw [if_neg (by omega)]
      rfl
    | succ n ih =>
      intro hn
      rw [List.range'_1_concat, List.foldl_append, List.foldl_cons, List.foldl_nil,
        Vector.getElem_setIfInBounds, ih (by omega)]
      by_cases hwritten : 16 - (length + n) - 1 = j
      · have hin : j + length < 16 ∧ 16 ≤ j + length + (n + 1) := by omega
        have hfirst : (length + n = length) = (j + length = 15) := propext (by omega)
        rw [if_pos hwritten, if_pos hin]
        simp only [hfirst]
      · have hsame : (j + length < 16 ∧ 16 ≤ j + length + n) =
            (j + length < 16 ∧ 16 ≤ j + length + (n + 1)) := propext (by omega)
        rw [if_neg hwritten]
        simp only [hsame]
  rw [padding, hloop _ le_rfl]
  by_cases hpad : j + length < 16
  · rw [if_pos (by omega), if_pos hpad]
  · rw [if_neg (by omega), if_neg hpad]

/-! ### The subkeys -/

theorem toNat_shift_or {c : UInt8} (h : c = 0 ∨ c = 1) (b : UInt8) :
    ((b <<< 1) ||| c).toNat = (2 * b.toNat + c.toNat) % 256 := by
  have hbyte : ∀ n : Fin 256, ((UInt8.ofNat n <<< 1) ||| 0).toNat = 2 * n.val % 256 ∧
      ((UInt8.ofNat n <<< 1) ||| 1).toNat = (2 * n.val + 1) % 256 := by decide +kernel
  have hb := hbyte ⟨b.toNat, b.toNat_lt⟩
  rw [UInt8.ofNat_toNat] at hb
  rcases h with rfl | rfl
  · exact hb.1
  · exact hb.2

theorem overflow_eq (b : UInt8) :
    (if b &&& 0x80 ≠ 0 then (1 : UInt8) else 0).toNat = 2 * b.toNat / 256 ∧
      (b &&& 0x80 ≠ 0 ↔ 128 ≤ b.toNat) := by
  have hbyte : ∀ n : Fin 256,
      (if UInt8.ofNat n &&& 0x80 ≠ 0 then (1 : UInt8) else 0).toNat = 2 * n.val / 256 ∧
        (UInt8.ofNat n &&& 0x80 ≠ 0 ↔ 128 ≤ n.val) := by decide +kernel
  have hb := hbyte ⟨b.toNat, b.toNat_lt⟩
  rwa [UInt8.ofNat_toNat] at hb

theorem leValue_leftshiftBytes {overflow : UInt8} (h : overflow = 0 ∨ overflow = 1)
    (bs : List UInt8) :
    leValue (leftshiftBytes overflow bs) = (2 * leValue bs + overflow.toNat) % 256 ^ bs.length := by
  induction bs generalizing overflow with
  | nil =>
    rw [leftshiftBytes, List.length_nil, pow_zero, Nat.mod_one]
    rfl
  | cons b bs ih =>
    have hnext : (if b &&& 0x80 ≠ 0 then (1 : UInt8) else 0) = 0 ∨
        (if b &&& 0x80 ≠ 0 then (1 : UInt8) else 0) = 1 := by
      split
      · exact .inr rfl
      · exact .inl rfl
    rw [leftshiftBytes, leValue, ih hnext, toNat_shift_or h, (overflow_eq b).1, leValue,
      List.length_cons, pow_succ]
    have hc : overflow.toNat ≤ 1 := by
      rcases h with rfl | rfl
      · exact Nat.zero_le 1
      · exact le_rfl
    have hdiv : (2 * b.toNat + overflow.toNat) / 256 = 2 * b.toNat / 256 := by omega
    rw [Nat.mul_comm (256 ^ bs.length) 256, Nat.mod_mul]
    have hmod : (2 * (b.toNat + 256 * leValue bs) + overflow.toNat) % 256 =
        (2 * b.toNat + overflow.toNat) % 256 := by omega
    have hrest : (2 * (b.toNat + 256 * leValue bs) + overflow.toNat) / 256 =
        2 * leValue bs + 2 * b.toNat / 256 := by omega
    rw [hmod, hrest]

/-- The low byte takes all of a number that fits into it. -/
theorem xor_low (b n : Nat) {c : Nat} (hb : b < 256) (hc : c < 256) :
    (b + 256 * n) ^^^ c = (b ^^^ c) + 256 * n := by
  have hlow : (b ^^^ c) < 256 := Nat.xor_lt_two_pow (n := 8) hb hc
  have hmod : ((b + 256 * n) ^^^ c) % 2 ^ 8 = b ^^^ c := by
    rw [Nat.xor_mod_two_pow, Nat.mod_eq_of_lt (a := c) hc]
    congr 1
    omega
  have hdiv : ((b + 256 * n) ^^^ c) / 2 ^ 8 = n := by
    rw [Nat.xor_div_two_pow, Nat.div_eq_of_lt (a := c) hc, Nat.xor_zero]
    omega
  have hsplit := Nat.mod_add_div ((b + 256 * n) ^^^ c) (2 ^ 8)
  rw [hmod, hdiv] at hsplit
  omega

theorem leValue_leftshiftOnebit :
    leValue (leftshiftOnebit p).toList = 2 * leValue p.toList % 2 ^ 128 := by
  have hvalue := leValue_leftshiftBytes (.inl rfl) p.toList
  rw [Vector.length_toList, UInt8.toNat_zero, Nat.add_zero] at hvalue
  exact hvalue

theorem msb_iff : p[15] &&& 0x80 ≠ 0 ↔ 2 ^ 127 ≤ leValue p.toList := by
  rw [(overflow_eq _).2]
  have hlen : p.toList.length = 16 := Vector.length_toList
  have hsplit : p.toList = p.toList.take 15 ++ [p[15]] := by
    rw [← List.take_append_drop 15 p.toList]
    congr 1
    · simp
    · rw [List.drop_eq_getElem_cons (by omega), List.drop_of_length_le (by omega)]
      simp
  have hlow := leValue_lt (p.toList.take 15)
  have htake : (p.toList.take 15).length = 15 := by
    rw [List.length_take]
    omega
  rw [hsplit, leValue_append, htake]
  rw [htake] at hlow
  simp only [leValue]
  omega

theorem leValue_xor_constRb : leValue (xor128 p constRb).toList = leValue p.toList ^^^ 0x87 := by
  have hlen : p.toList.length = 16 := Vector.length_toList
  cases hp : p.toList with
  | nil =>
    rw [hp] at hlen
    cases hlen
  | cons b bs =>
    rw [hp, List.length_cons, Nat.add_right_cancel_iff] at hlen
    have hrest : List.zipWith (· ^^^ ·) bs (List.replicate 15 (0 : UInt8)) = bs := by
      refine List.ext_getElem (by simp [hlen]) fun i hi hi' => ?_
      rw [List.getElem_zipWith, List.getElem_replicate, UInt8.xor_zero]
    have hlist : (xor128 p constRb).toList = (b ^^^ 0x87) :: bs := by
      rw [xor128, Vector.toList_zipWith, hp]
      change (b ^^^ 0x87) :: List.zipWith (· ^^^ ·) bs (List.replicate 15 (0 : UInt8)) = _
      rw [hrest]
    rw [hlist, leValue, leValue, xor_low _ _ b.toNat_lt (by decide), UInt8.toNat_xor]
    rfl

/-- A subkey is made by doubling. -/
theorem reverse_subkey : (subkey p).reverse = Cmac.double p.reverse := by
  have hvalue : leValue (subkey p).toList =
      (2 * leValue p.toList % 2 ^ 128) ^^^ if 2 ^ 127 ≤ leValue p.toList then 0x87 else 0 := by
    rw [subkey]
    by_cases hmsb : p[15] &&& 0x80 ≠ 0
    · rw [if_pos hmsb, if_pos ((msb_iff p).mp hmsb), leValue_xor_constRb, leValue_leftshiftOnebit]
    · rw [if_neg hmsb, if_neg (mt (msb_iff p).mpr hmsb), Nat.xor_zero, leValue_leftshiftOnebit]
  have hbytes : (subkey p).toList = leBytes 16 (leValue (subkey p).toList) := by
    have h := leBytes_leValue (subkey p).toList
    rw [Vector.length_toList] at h
    exact h.symm
  apply Vector.toList_inj.mp
  rw [Vector.toList_reverse, hbytes, hvalue]
  simp [Cmac.double, beBytes, beValue]

/-! ### The chain -/

theorem chain_congr {cipher : Cmac.Block → Cmac.Block} {blocks blocks' : Nat → Cmac.Block} {n : Nat}
    (h : ∀ k < n, blocks k = blocks' k) : Cmac.chain cipher blocks n =
      Cmac.chain cipher blocks' n := by
  induction n with
  | zero => rfl
  | succ n ih => rw [Cmac.chain, Cmac.chain, h n (Nat.lt_succ_self n),
      ih fun k hk => h k (Nat.lt_succ_of_lt hk)]

/-- Some rounds, by induction: the blocks behind the ones that are left are chained. -/
theorem calculate_rounds (cipher : Octet16 → Octet16 → Octet16) (key : Octet16) {round : Nat}
    (htext : text.length = 16 * round) (output : Octet16) (hi : i ≤ round) :
    let s := (List.range' 1 i).foldl (calculateRound cipher key round)
      ⟨text, Vector.replicate 16 0, output⟩
    s.text.length = text.length ∧ (∀ k < round - i, readBlock s.text k = readBlock text k) ∧
      s.x.reverse = Cmac.chain (cipher key.reverse)
        (fun k => (readBlock text (round - 1 - k)).reverse) i ∧ (0 < i → s.output = s.x) := by
  induction i with
  | zero => exact ⟨rfl, fun _ _ => rfl, Cmac.reverse_zero, fun h => absurd h (lt_irrefl 0)⟩
  | succ i ih =>
    obtain ⟨hlen, hsame, hx, -⟩ := ih (by omega)
    rw [List.range'_1_concat, List.foldl_append, List.foldl_cons, List.foldl_nil, Nat.add_comm 1 i]
    generalize (List.range' 1 i).foldl (calculateRound cipher key round)
      ⟨text, Vector.replicate 16 0, output⟩ = s at hlen hsame hx
    have hfits : 16 * (round - (i + 1)) + 16 ≤ s.text.length := by omega
    have hread : readBlock s.text (round - (i + 1)) = readBlock text (round - 1 - i) := by
      rw [hsame _ (by omega)]
      congr 1
      omega
    refine ⟨?_, fun k hk => ?_, ?_, fun _ => rfl⟩
    · rw [calculateRound, length_writeBlock hfits, hlen]
    · rw [calculateRound, readBlock_writeBlock hfits, if_neg (by omega), hsame k (by omega)]
    · rw [calculateRound, readBlock_writeBlock hfits, if_pos rfl, aes128, Vector.reverse_reverse,
        Cmac.chain, hread, ← hx]
      exact congrArg (cipher key.reverse) (Cmac.reverse_xor _ _)

theorem cmacAesKCalculate_eq (cipher : Octet16 → Octet16 → Octet16) (key : Octet16) {round : Nat}
    (htext : text.length = 16 * round) (hround : 0 < round) (output : Octet16) :
    (cmacAesKCalculate cipher key text round output).reverse =
      Cmac.chain (cipher key.reverse) (fun k => (readBlock text (round - 1 - k)).reverse)
        round := by
  obtain ⟨-, -, hx, houtput⟩ := calculate_rounds cipher key htext output le_rfl
  rw [cmacAesKCalculate, houtput hround, hx]

/-! ### The message in the buffer -/

/-- The buffer before the last block is prepared: the input is at its end. -/
structure Holds (text input : List UInt8) (n : Nat) : Prop where
  length : text.length = 16 * n
  rounds : n = Cmac.rounds input.length
  input : ∀ q < input.length, text.getD (16 * n - 1 - q) 0 = input.reverse.getD q 0

theorem holds_blit {input : List UInt8} {n : Nat} (hlen : text.length = 16 * n)
    (hn : n = Cmac.rounds input.length) :
    Holds (blit text (16 * n - input.length) input) input n := by
  have hle : input.length ≤ 16 * n := by
    rw [hn, Cmac.rounds]
    omega
  have hfits : 16 * n - input.length + input.length ≤ text.length := by omega
  refine ⟨by rw [blit_length hfits, hlen], hn, fun q hq => ?_⟩
  rw [getD_blit hfits, if_pos (by omega), List.getD_eq_getElem?_getD, List.getD_eq_getElem?_getD,
    List.getElem?_reverse hq]
  congr 2
  omega

theorem get_reverse_readBlock (text : List UInt8) {n k j : Nat} (hk : k < n) (hj : j < 16) :
    (readBlock text (n - 1 - k)).reverse[j] = text.getD (16 * n - 1 - (16 * k + j)) 0 := by
  rw [Vector.getElem_reverse, readBlock, Vector.getElem_ofFn]
  congr 1
  dsimp only
  omega

section

variable {text input : List UInt8} {n : Nat} (h : Holds text input n)

include h

theorem Holds.reverse_readBlock {k : Nat} (hk : k < n) (hfull : 16 * k + 16 ≤ input.length) :
    (readBlock text (n - 1 - k)).reverse = Cmac.block input.reverse k := by
  refine Vector.ext fun j hj => ?_
  rw [get_reverse_readBlock text hk hj, h.input _ (by omega), Cmac.block, Vector.getElem_ofFn]

/-- The first block of the buffer is padded where there is no message. -/
theorem Holds.reverse_padding (hpart : ¬ Cmac.Complete input.length) :
    (padding (readBlock text 0) (input.length % 16)).reverse = Cmac.padded input.reverse
      (n - 1) := by
  have hn := h.rounds
  rw [Cmac.rounds] at hn
  rw [Cmac.Complete] at hpart
  refine Vector.ext fun j hj => ?_
  rw [Vector.getElem_reverse, get_padding _ (by omega) (by omega), Cmac.padded, Vector.getElem_ofFn,
    List.length_reverse]
  dsimp only
  by_cases hin : 16 * (n - 1) + j < input.length
  · rw [if_neg (by omega), if_neg (by omega), ← h.input _ hin, readBlock, Vector.getElem_ofFn]
    congr 1
    dsimp only
    omega
  · have hout : input.reverse.getD (16 * (n - 1) + j) 0 = 0 := by
      rw [List.getD_eq_getElem?_getD, List.getElem?_eq_none (by rw [List.length_reverse]; omega)]
      rfl
    rw [if_pos (by omega), hout]
    by_cases hend : 16 * (n - 1) + j = input.length
    · rw [if_pos (by omega), if_pos hend]
    · rw [if_neg (by omega), if_neg hend]

theorem Holds.prepared (k1 k2 : Octet16) {k : Nat} (hk : k < n) :
    (readBlock (cmacPrepareLastBlock text input.length k1 k2) (n - 1 - k)).reverse =
      Cmac.prepared k1.reverse k2.reverse input.reverse k := by
  have hn := h.rounds
  have hfits : 16 * 0 + 16 ≤ text.length := by
    rw [h.length]
    omega
  have hsmall : u8 (input.length % 16) = input.length % 16 := by
    rw [u8]
    omega
  rw [Cmac.prepared, List.length_reverse, ← hn, cmacPrepareLastBlock, hsmall]
  -- only the block at the front of the buffer, the last of the message, is changed
  by_cases hlast : k + 1 < n
  · have hfull : 16 * k + 16 ≤ input.length := by
      rw [Cmac.rounds] at hn
      omega
    rw [if_pos hlast, ← h.reverse_readBlock hk hfull]
    split
    · rw [readBlock_writeBlock hfits, if_neg (by omega)]
    · rw [readBlock_writeBlock hfits, if_neg (by omega)]
  · obtain rfl : k = n - 1 := by omega
    rw [if_neg hlast, Nat.sub_self]
    by_cases hcomplete : Cmac.Complete input.length
    · rw [if_pos hcomplete]
      rw [Cmac.Complete] at hcomplete
      have hfull : 16 * (n - 1) + 16 ≤ input.length := by
        rw [Cmac.rounds] at hn
        omega
      have hblock := h.reverse_readBlock hk hfull
      rw [Nat.sub_self] at hblock
      rw [if_pos hcomplete, readBlock_writeBlock hfits, if_pos rfl, ← hblock]
      exact Cmac.reverse_xor _ _
    · rw [if_neg hcomplete, ← h.reverse_padding hcomplete]
      rw [Cmac.Complete] at hcomplete
      rw [if_neg hcomplete, readBlock_writeBlock hfits, if_pos rfl]
      exact Cmac.reverse_xor _ _

end

theorem length_cmacPrepareLastBlock (h : 16 ≤ text.length) (len : Nat) (k1 k2 : Octet16) :
    (cmacPrepareLastBlock text len k1 k2).length = text.length := by
  rw [cmacPrepareLastBlock]
  split
  · exact length_writeBlock (by omega) _
  · exact length_writeBlock (by omega) _

/-! ### Every key and message -/

/-- The code is CMAC on the reversed key and message, whatever stands in the work buffer. -/
theorem aesCmac_eq_cmac (cipher : Octet16 → Octet16 → Octet16) (key : Octet16) (input : List UInt8)
    (hinput : input.length ≤ 65535) (uninitialised : Nat → UInt8) (output : Octet16) :
    aesCmac cipher key input uninitialised output =
      (Cmac.cmac cipher key.reverse input.reverse).reverse := by
  have hn : (if u16 ((input.length + 16 - 1) / 16) = 0 then 1
      else u16 ((input.length + 16 - 1) / 16)) = Cmac.rounds input.length := by
    rw [Cmac.rounds, u16]
    split <;> omega
  rw [aesCmac]
  simp only [hn]
  generalize hrounds : Cmac.rounds input.length = n
  have hpos : 0 < n := by
    rw [← hrounds, Cmac.rounds]
    omega
  -- the input stands at the end of the buffer, behind bytes that were never set
  have hdiff : sub16 (n * 16) input.length = 16 * n - input.length := by
    rw [Cmac.rounds] at hrounds
    rw [sub16]
    omega
  have htext : ((List.range (n * 16)).map uninitialised).length = 16 * n := by
    rw [List.length_map, List.length_range]
    omega
  have hblit : (if input.length > 0 then
      blit ((List.range (n * 16)).map uninitialised) (sub16 (n * 16) input.length) input
      else (List.range (n * 16)).map uninitialised) =
      blit ((List.range (n * 16)).map uninitialised) (16 * n - input.length) input := by
    rw [hdiff]
    split
    · rfl
    next hempty =>
      obtain rfl : input = [] := List.eq_nil_of_length_eq_zero (by omega)
      simp [blit]
  rw [hblit]
  have hholds := holds_blit htext hrounds.symm
  generalize blit ((List.range (n * 16)).map uninitialised) (16 * n - input.length) input = text
    at hholds
  have hlen : 16 ≤ text.length := by
    rw [hholds.length]
    omega
  rw [← Vector.reverse_reverse (cmacAesKCalculate _ _ _ _ _)]
  congr 1
  have hsubkey : (subkey (aes128 cipher key (Vector.replicate 16 0))).reverse =
      Cmac.double (cipher key.reverse Cmac.zero) := by
    rw [reverse_subkey, aes128, Vector.reverse_reverse]
    congr 2
    exact Cmac.reverse_zero
  rw [cmacGenerateSubkey, cmacAesKCalculate_eq cipher key
    (by rw [length_cmacPrepareLastBlock hlen, hholds.length]) hpos, Cmac.cmac, List.length_reverse,
    hrounds]
  refine chain_congr fun k hk => ?_
  rw [hholds.prepared _ _ hk, reverse_subkey (subkey _), hsubkey]

/-- A message of two blocks and a byte, with a cipher that only adds the key. -/
theorem aesCmac_eq_cmac_three_blocks :
    aesCmac xor128 constRb (List.replicate 32 3 ++ [1]) (fun _ => 0xff) constRb =
      (Cmac.cmac xor128 constRb.reverse (1 :: List.replicate 32 3)).reverse :=
  aesCmac_eq_cmac xor128 constRb (List.replicate 32 3 ++ [1]) (by decide) _ _

end BluetoothStack.Crypto
