import Mathlib.Tactic

/-!
# BluetoothStack.Lib.Words

Fixed-width words over `Nat`, and their little-endian images in byte lists.

A `uint16_t` is a `Nat` below `65536`; every store to one goes through `u16`
(or `sub16`, for a difference), so a wrap-around is visible in the definition
that makes it. `rd16`/`wr16` read and overwrite two bytes of a byte list, as
`STREAM_TO_UINT16` and `UINT16_TO_STREAM` do at a pointer. All later proofs use
the small algebra below and never unfold `wr16`.
-/

namespace BluetoothStack.Lib

/-- Truncation to sixteen bits. -/
def u16 (n : Nat) : Nat := n % 65536

/-- Truncation to eight bits. -/
def u8 (n : Nat) : Nat := n % 256

/-- Sixteen-bit subtraction, with wrap-around. -/
def sub16 (a b : Nat) : Nat := (a + 65536 - b) % 65536

theorem u16_of_lt {n : Nat} (h : n < 65536) : u16 n = n := Nat.mod_eq_of_lt h

theorem sub16_of_le {a b : Nat} (ha : a < 65536) (h : b ≤ a) : sub16 a b = a - b := by
  unfold sub16
  omega

/-! ### Little-endian bytes -/

/-- The two bytes of a sixteen-bit word, low byte first. -/
def le16 (v : Nat) : List UInt8 := [UInt8.ofNat v, UInt8.ofNat (v / 256)]

/-- Read the sixteen-bit little-endian word at index `i`. -/
def rd16 (l : List UInt8) (i : Nat) : Nat :=
  (l.getD i 0).toNat + 256 * (l.getD (i + 1) 0).toNat

/-- Overwrite the two bytes at index `i` with the word `v`. -/
def wr16 (l : List UInt8) (i v : Nat) : List UInt8 :=
  (l.set i (UInt8.ofNat v)).set (i + 1) (UInt8.ofNat (v / 256))

@[simp] theorem le16_length (v : Nat) : (le16 v).length = 2 := rfl

/-- The two bytes of a sixteen-bit word, high byte first. -/
def be16 (v : Nat) : List UInt8 := [UInt8.ofNat (v / 256), UInt8.ofNat v]

/-- The low `k` bytes of a number, low byte first. -/
def leBytes : Nat → Nat → List UInt8
  | 0, _ => []
  | k + 1, v => UInt8.ofNat v :: leBytes k (v / 256)

/-- The number with these bytes, low byte first. -/
def leValue : List UInt8 → Nat
  | [] => 0
  | b :: bs => b.toNat + 256 * leValue bs

@[simp] theorem leBytes_length (k v : Nat) : (leBytes k v).length = k := by
  induction k generalizing v with
  | zero => rfl
  | succ k ih => rw [leBytes, List.length_cons, ih]

theorem leValue_lt (bs : List UInt8) : leValue bs < 256 ^ bs.length := by
  induction bs with
  | nil => exact Nat.one_pos
  | cons b bs ih =>
    have hb := b.toNat_lt
    rw [leValue, List.length_cons, pow_succ']
    omega

variable {v k : Nat} {l : List UInt8} {i : Nat} {α : Type*} {src : List α}

theorem leValue_leBytes (h : v < 256 ^ k) : leValue (leBytes k v) = v := by
  induction k generalizing v with
  | zero => exact (Nat.lt_one_iff.mp h).symm
  | succ k ih =>
    rw [pow_succ] at h
    rw [leBytes, leValue, ih (Nat.div_lt_of_lt_mul (by rwa [mul_comm])), UInt8.toNat_ofNat']
    omega

theorem leBytes_leValue (bs : List UInt8) : leBytes bs.length (leValue bs) = bs := by
  induction bs with
  | nil => rfl
  | cons b bs ih =>
    have hb := b.toNat_lt
    rw [leValue, List.length_cons, leBytes, Nat.add_mul_div_left _ _ (by decide),
      Nat.div_eq_of_lt hb, Nat.zero_add, ih]
    congr 1
    rw [← UInt8.toNat_inj, UInt8.toNat_ofNat']
    omega

/-- The low `k` bytes of a number, high byte first. -/
def beBytes (k v : Nat) : List UInt8 := (leBytes k v).reverse

/-- The number with these bytes, high byte first. -/
def beValue (bs : List UInt8) : Nat := leValue bs.reverse

@[simp] theorem beBytes_length (k v : Nat) : (beBytes k v).length = k := by
  rw [beBytes, List.length_reverse, leBytes_length]

theorem beValue_beBytes (h : v < 256 ^ k) : beValue (beBytes k v) = v := by
  rw [beValue, beBytes, List.reverse_reverse, leValue_leBytes h]

theorem leValue_append (xs ys : List UInt8) :
    leValue (xs ++ ys) = leValue xs + 256 ^ xs.length * leValue ys := by
  induction xs with
  | nil => rw [List.nil_append, leValue, List.length_nil, pow_zero, one_mul, Nat.zero_add]
  | cons b xs ih => rw [List.cons_append, leValue, leValue, ih, List.length_cons, pow_succ]; ring

@[simp] theorem be16_length (v : Nat) : (be16 v).length = 2 := rfl

@[simp] theorem wr16_length (l : List UInt8) (i v : Nat) : (wr16 l i v).length = l.length := by
  simp [wr16]

theorem rd16_lt (l : List UInt8) (i : Nat) : rd16 l i < 65536 := by
  unfold rd16
  have h₁ := (l.getD i 0).toNat_lt
  have h₂ := (l.getD (i + 1) 0).toNat_lt
  omega

theorem rd16_wr16_self (hi : i + 1 < l.length) (hv : v < 65536) : rd16 (wr16 l i v) i = v := by
  have h₁ : (wr16 l i v).getD i 0 = UInt8.ofNat v := by
    simp only [wr16, List.getD_eq_getElem?_getD, List.getElem?_set]
    rw [if_neg (by omega), if_pos trivial, if_pos (by omega)]
    rfl
  have h₂ : (wr16 l i v).getD (i + 1) 0 = UInt8.ofNat (v / 256) := by
    simp only [wr16, List.getD_eq_getElem?_getD, List.getElem?_set, List.length_set]
    rw [if_pos trivial, if_pos hi]
    rfl
  rw [rd16, h₁, h₂, UInt8.toNat_ofNat', UInt8.toNat_ofNat']
  omega

theorem rd16_wr16_of_ne {j : Nat} (h : i + 2 ≤ j ∨ j + 2 ≤ i) :
    rd16 (wr16 l i v) j = rd16 l j := by
  have get : ∀ k, k ≠ i → k ≠ i + 1 → (wr16 l i v).getD k 0 = l.getD k 0 := by
    intro k h₁ h₂
    simp only [wr16, List.getD_eq_getElem?_getD, List.getElem?_set]
    rw [if_neg (by omega), if_neg (by omega)]
  rw [rd16, rd16, get j (by omega) (by omega), get (j + 1) (by omega) (by omega)]

theorem drop_wr16_of_le (h : i + 2 ≤ k) : (wr16 l i v).drop k = l.drop k := by
  rw [wr16, List.drop_set_of_lt (by omega), List.drop_set_of_lt (by omega)]

theorem take_wr16_of_le (h : k ≤ i) : (wr16 l i v).take k = l.take k := by
  rw [wr16, List.take_set_of_le (by omega), List.take_set_of_le h]

theorem drop_wr16 (h : k ≤ i) : (wr16 l i v).drop k = wr16 (l.drop k) (i - k) v := by
  rw [wr16, wr16, List.drop_set, List.drop_set, if_neg (by omega), if_neg (by omega)]
  congr 1
  omega

theorem wr16_zero (h : 2 ≤ l.length) (v : Nat) : wr16 l 0 v = le16 v ++ l.drop 2 := by
  match l, h with
  | _ :: _ :: _, _ => rfl

theorem rd16_take (h : i + 2 ≤ k) : rd16 (l.take k) i = rd16 l i := by
  simp only [rd16, List.getD_eq_getElem?_getD, List.getElem?_take]
  rw [if_pos (by omega), if_pos (by omega)]

theorem rd16_drop (l : List UInt8) (i k : Nat) : rd16 (l.drop k) i = rd16 l (k + i) := by
  simp only [rd16, List.getD_eq_getElem?_getD, List.getElem?_drop, Nat.add_assoc]

theorem rd16_append_left {m : List UInt8} (h : i + 2 ≤ l.length) :
    rd16 (l ++ m) i = rd16 l i := by
  simp only [rd16, List.getD_eq_getElem?_getD]
  rw [List.getElem?_append_left (by omega), List.getElem?_append_left (by omega)]

theorem rd16_le16_append (hv : v < 65536) (l : List UInt8) : rd16 (le16 v ++ l) 0 = v := by
  simp only [rd16, le16, List.cons_append, List.nil_append, List.getD_cons_zero,
    List.getD_cons_succ, UInt8.toNat_ofNat']
  omega

theorem rd16_of_drop {m : List UInt8} (h : l.drop k = le16 v ++ m) (hv : v < 65536) :
    rd16 l k = v := by
  rw [← Nat.add_zero k, ← rd16_drop, h, rd16_le16_append hv]

/-! ### Copying into a block -/

/-- `memcpy (l + i, src, src.length)`. -/
def blit {α : Type*} (l : List α) (i : Nat) (src : List α) : List α :=
  l.take i ++ src ++ l.drop (i + src.length)

theorem blit_length {l : List α} (h : i + src.length ≤ l.length) :
    (blit l i src).length = l.length := by
  simp only [blit, List.length_append, List.length_take, List.length_drop]
  omega

theorem take_blit {l : List α} (h : i ≤ l.length) :
    (blit l i src).take (i + src.length) = l.take i ++ src := by
  have hl : (l.take i ++ src).length = i + src.length := by
    rw [List.length_append, List.length_take, min_eq_left h]
  rw [blit, ← hl, List.take_left']
  rfl

/-- Two copies, the second right behind the first, are one. -/
theorem blit_blit {l : List α} (a b : List α) (h : i ≤ l.length) :
    blit (blit l i a) (i + a.length) b = blit l i (a ++ b) := by
  have hl : (l.take i ++ a).length = i + a.length := by
    rw [List.length_append, List.length_take, min_eq_left h]
  have hdrop : (blit l i a).drop (i + a.length + b.length) =
      l.drop (i + (a.length + b.length)) := by
    rw [blit, ← hl, List.drop_append, List.drop_of_length_le (by omega), List.nil_append,
      Nat.add_sub_cancel_left, List.drop_drop, hl]
    congr 1
    omega
  rw [blit, take_blit h, hdrop, blit, List.length_append, List.append_assoc (l.take i)]

theorem drop_blit {l : List α} (h : i ≤ l.length) :
    (blit l i src).drop i = src ++ l.drop (i + src.length) := by
  have hl : (l.take i).length = i := by rw [List.length_take, min_eq_left h]
  rw [blit, List.append_assoc]
  nth_rewrite 1 [← hl]
  exact List.drop_left

/-- Move the `n` bytes at `start` up by `diff`, the last one first, so that none is overwritten
before it has been moved. -/
def shiftUp (l : List UInt8) (start diff : Nat) : Nat → List UInt8
  | 0 => l
  | n + 1 => shiftUp (l.set (start + n + diff) (l.getD (start + n) 0)) start diff n

@[simp] theorem shiftUp_length (l : List UInt8) (start diff n : Nat) :
    (shiftUp l start diff n).length = l.length := by
  induction n generalizing l with
  | zero => rfl
  | succ n ih => rw [shiftUp, ih, List.length_set]

/-- Behind the bytes still to be moved, the loop leaves everything as it is. -/
theorem getElem?_shiftUp_of_le {start diff n j : Nat} (l : List UInt8) (h : start + diff + n ≤ j) :
    (shiftUp l start diff n)[j]? = l[j]? := by
  induction n generalizing l with
  | zero => rfl
  | succ n ih => rw [shiftUp, ih _ (by omega), List.getElem?_set_ne (by omega)]

/-- Every byte arrives `diff` further up. -/
theorem getElem?_shiftUp {start diff n : Nat} (hk : k < n) (hl : start + diff + n ≤ l.length) :
    (shiftUp l start diff n)[start + diff + k]? = l[start + k]? := by
  induction n generalizing l with
  | zero => omega
  | succ n ih =>
    rw [shiftUp]
    by_cases hlast : k = n
    · -- the byte moved in this turn is not touched again
      subst hlast
      rw [getElem?_shiftUp_of_le _ (by omega), Nat.add_right_comm,
        List.getElem?_set_self (by omega), List.getD_eq_getElem?_getD,
        List.getElem?_eq_getElem (show start + k < l.length by omega), Option.getD_some]
    · rw [ih (by omega) (by rw [List.length_set]; omega), List.getElem?_set_ne (by omega)]

/-- The moved bytes, read at their new place. -/
theorem take_drop_shiftUp (start diff n : Nat) (hl : start + diff + n ≤ l.length) :
    ((shiftUp l start diff n).drop (start + diff)).take n = (l.drop start).take n := by
  apply List.ext_getElem?
  intro k
  by_cases hk : k < n
  · rw [List.getElem?_take_of_lt hk, List.getElem?_take_of_lt hk, List.getElem?_drop,
      List.getElem?_drop, getElem?_shiftUp hk hl]
  · rw [List.getElem?_take_eq_none (by omega), List.getElem?_take_eq_none (by omega)]

end BluetoothStack.Lib
