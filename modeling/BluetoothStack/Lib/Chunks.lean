import BluetoothStack.Lib.Words

/-!
# BluetoothStack.Lib.Chunks

Reading a block in chunks with a sixteen-bit cursor.

A sender that cuts a buffer into packets keeps the position of the next byte in a
sixteen-bit field. The chunks are then the block if no chunk begins beyond 64 KiB
(`readChunks_eq`); otherwise some byte is read from 65536 positions too early, and they
differ from the block whenever that byte does (`readChunks_ne`).
-/

namespace BluetoothStack.Lib

variable {α : Type*} {l : List α} {v w p m : ℕ}

/-- `m` elements of `l` from position `p` on. -/
def slice (l : List α) (p m : ℕ) : List α := (l.drop p).take m

theorem slice_length (h : p + m ≤ l.length) : (slice l p m).length = m := by
  rw [slice, List.length_take, List.length_drop]
  omega

theorem slice_add (l : List α) (p m n : ℕ) :
    slice l p (m + n) = slice l p m ++ slice l (p + m) n := by
  rw [slice, slice, slice, List.take_add, List.drop_drop]

theorem getElem?_slice (h : w < m) : (slice l p m)[w]? = l[p + w]? := by
  rw [slice, List.getElem?_take, if_pos h, List.getElem?_drop]

/-- `m` elements, in a first chunk of `v` and further ones of `w`, with the cursor `p` kept in
sixteen bits. -/
def readChunks (v w : ℕ) (l : List α) (p m : ℕ) : List α :=
  if m ≤ v ∨ v = 0 then slice l p m
  else slice l p v ++ readChunks w w l (u16 (p + v)) (m - v)
termination_by m

theorem readChunks_le (h : m ≤ v) : readChunks v w l p m = slice l p m := by
  rw [readChunks, if_pos (.inl h)]

theorem readChunks_gt (hv : 0 < v) (h : v < m) :
    readChunks v w l p m = slice l p v ++ readChunks w w l (u16 (p + v)) (m - v) := by
  rw [readChunks, if_neg (by omega)]

/-- Where the last chunk begins, counted from the first. -/
def lastChunk (v w m : ℕ) : ℕ := if m ≤ v then 0 else v + (m - v - 1) / w * w

theorem lastChunk_le (h : m ≤ v) : lastChunk v w m = 0 := if_pos h

theorem lastChunk_gt (hw : 0 < w) (h : v < m) : lastChunk v w m = v + lastChunk w w (m - v) := by
  rw [lastChunk, if_neg (by omega), lastChunk]
  congr 1
  split
  · rw [Nat.div_eq_of_lt (by omega), Nat.zero_mul]
  · rw [show m - v - 1 = (m - v - w - 1) + w by omega, Nat.add_div_right _ hw, Nat.succ_mul,
      Nat.add_comm]

/-- Without wrap-around the chunks are the block. -/
theorem readChunks_eq (hv : 0 < v) (hw : 0 < w) (h : p + lastChunk v w m < 65536) :
    readChunks v w l p m = slice l p m := by
  induction m using Nat.strong_induction_on generalizing v p with
  | _ m ih =>
    by_cases hm : m ≤ v
    · exact readChunks_le hm
    · rw [not_le] at hm
      rw [lastChunk_gt hw hm] at h
      rw [readChunks_gt hv hm, u16_of_lt (by omega), ih (m - v) (by omega) hw (by omega),
        ← slice_add, Nat.add_sub_cancel' hm.le]

theorem readChunks_head (hv : 0 < v) (hm : 0 < m) (hp : p + m ≤ l.length) :
    (readChunks v w l p m)[0]? = l[p]? := by
  by_cases h : m ≤ v
  · rw [readChunks_le h, getElem?_slice hm, Nat.add_zero]
  · rw [not_le] at h
    have hlen : (slice l p v).length = v := slice_length (by omega)
    rw [readChunks_gt hv h, List.getElem?_append_left (by omega), getElem?_slice hv, Nat.add_zero]

/-- With wrap-around, some element is read 65536 positions too early. -/
theorem readChunks_ne (hv : 0 < v) (hw : 0 < w) (hv' : v < 65536) (hw' : w < 65536) (hp : p < 65536)
    (h : 65536 ≤ p + lastChunk v w m) :
    ∃ q, 65536 ≤ q ∧ q < p + m ∧ ∀ l : List α, p + m ≤ l.length → l[q]? ≠ l[q - 65536]? →
      readChunks v w l p m ≠ slice l p m := by
  induction m using Nat.strong_induction_on generalizing v p with
  | _ m ih =>
    have hm : v < m := by
      by_contra hm
      rw [lastChunk_le (not_lt.mp hm)] at h
      omega
    rw [lastChunk_gt hw hm] at h
    by_cases hwrap : 65536 ≤ p + v
    · refine ⟨p + v, hwrap, by omega, fun l hl hne heq => hne ?_⟩
      -- the second chunk begins at the wrapped cursor
      have hu : u16 (p + v) = p + v - 65536 := by unfold u16; omega
      have hlen : (slice l p v).length = v := slice_length (by omega)
      have hat : (readChunks v w l p m)[v]? = (slice l p m)[v]? := by rw [heq]
      rw [getElem?_slice hm, readChunks_gt hv hm, List.getElem?_append_right (by omega), hlen,
        Nat.sub_self, readChunks_head hw (by omega) (by omega), hu] at hat
      exact hat.symm
    · rw [not_le] at hwrap
      obtain ⟨q, hq, hqm, hread⟩ := ih (m - v) (by omega) hw hw' hwrap (by omega)
      refine ⟨q, hq, by omega, fun l hl hne heq => hread l (by omega) hne ?_⟩
      rw [readChunks_gt hv hm, u16_of_lt hwrap] at heq
      nth_rewrite 2 [← Nat.add_sub_cancel' hm.le] at heq
      rw [slice_add] at heq
      exact List.append_cancel_left heq

end BluetoothStack.Lib
