import BluetoothStack.L2cap.ErtmRun

/-!
# BluetoothStack.L2cap.ErtmWindow

The transmit window of an ERTM channel.

`Core.Window` says that the unacknowledged frames are numbered without gaps from the last
acknowledged number, that the next number follows them, and that they fit the peer's
window. Sending a new frame extends the numbering at the end, an acknowledgement cuts it
at the front, and nothing else touches it: a retransmission sends frames that are already
in the window. The peer's ReqSeq is arbitrary; `process_reqseq` compares its distance from
the last acknowledged number with the queue's length, which is enough.
-/

namespace BluetoothStack.L2cap

open BluetoothStack.Lib Relation

/-- `m` consecutive sequence numbers from `s` on, modulo 64. -/
def seqsFrom (s : SeqNum) : Nat → List SeqNum
  | 0 => []
  | m + 1 => s :: seqsFrom s.next m

variable {req : SeqNum} (s : SeqNum) (m : Nat)

@[simp] theorem seqsFrom_length : (seqsFrom s m).length = m := by
  induction m generalizing s with
  | zero => rfl
  | succ m ih => rw [seqsFrom, List.length_cons, ih]

theorem seqMask_next : seqMask (s.next.val + m) = seqMask (s.val + (m + 1)) := by
  apply Fin.ext
  simp only [seqMask_val, SeqNum.next_val]
  omega

theorem seqMask_zero : seqMask (s.val + 0) = s := by
  apply Fin.ext
  simp only [seqMask_val]
  omega

theorem seqsFrom_add (k : Nat) :
    seqsFrom s (m + k) = seqsFrom s m ++ seqsFrom (seqMask (s.val + m)) k := by
  induction m generalizing s with
  | zero => rw [Nat.zero_add, seqMask_zero]; rfl
  | succ m ih => rw [Nat.succ_add, seqsFrom, seqsFrom, ih, seqMask_next, List.cons_append]

theorem seqsFrom_succ : seqsFrom s (m + 1) = seqsFrom s m ++ [seqMask (s.val + m)] :=
  seqsFrom_add s m 1

theorem seqsFrom_drop {m k : Nat} (h : k ≤ m) :
    (seqsFrom s m).drop k = seqsFrom (seqMask (s.val + k)) (m - k) := by
  obtain ⟨j, rfl⟩ := Nat.exists_eq_add_of_le h
  rw [seqsFrom_add, List.drop_left' (seqsFrom_length s k), Nat.add_sub_cancel_left]

theorem seqsFrom_take {m k : Nat} (h : k ≤ m) : (seqsFrom s m).take k = seqsFrom s k := by
  obtain ⟨j, rfl⟩ := Nat.exists_eq_add_of_le h
  rw [seqsFrom_add, List.take_left' (seqsFrom_length s k)]

/-- The numbers from `s` on are told apart by their distance from `s`, up to 64 of them. -/
theorem seqDiff_lt_of_mem {s t : SeqNum} {m : Nat} (hm : m ≤ 64) (h : t ∈ seqsFrom s m) :
    seqDiff t s < m := by
  induction m with
  | zero => cases h
  | succ m ih =>
    rw [seqsFrom_succ, List.mem_append, List.mem_singleton] at h
    rcases h with h | rfl
    · exact Nat.lt_succ_of_lt (ih (by omega) h)
    · rw [seqDiff_eq, seqMask_val]
      omega

theorem seqMask_seqDiff (a b : SeqNum) : seqMask (b.val + seqDiff a b) = a := by
  apply Fin.ext
  rw [seqMask_val, seqDiff_eq]
  omega

theorem seqDiff_lt (a b : SeqNum) : seqDiff a b < 64 := by
  rw [seqDiff_eq]
  exact Nat.mod_lt _ (by decide)

/-! ### The invariant -/

variable {c : ChanCfg}

variable (c) in
/-- The transmit window. -/
structure Core.Window (k : Core) : Prop where
  numbered : k.waiting.map Prod.fst = seqsFrom k.lastAck k.waiting.length
  next : k.nextTx = seqMask (k.lastAck.val + k.waiting.length)
  size : k.waiting.length ≤ c.peerCfg.txWinSz

theorem Core.Window.newI {k : Core} (h : k.Window c) (hwin : k.waiting.length < c.peerCfg.txWinSz)
    (s : Seg) (hold : List (Bool × List UInt8)) (wire : List (List UInt8)) :
    Core.Window c { k with
      nextTx := k.nextTx.next, waiting := k.waiting ++ [(k.nextTx, s)], hold := hold
      wire := wire } := by
  have hlen : (k.waiting ++ [(k.nextTx, s)]).length = k.waiting.length + 1 := by
    rw [List.length_append, List.length_singleton]
  refine ⟨?_, ?_, ?_⟩
  · simp only [hlen, List.map_append, List.map_cons, List.map_nil]
    rw [h.numbered, seqsFrom_succ, ← h.next]
  · simp only [hlen]
    rw [h.next, ← seqMask_next]
    apply Fin.ext
    simp only [SeqNum.next_val, seqMask_val]
    omega
  · simp only [hlen]
    exact hwin

theorem Core.Window.ack {k : Core} (h : k.Window c)
    (hreq : seqDiff req k.lastAck ≤ k.waiting.length) : (k.ack req).Window c := by
  have hlen : (k.waiting.drop (seqDiff req k.lastAck)).length
      = k.waiting.length - seqDiff req k.lastAck := List.length_drop
  refine ⟨?_, ?_, ?_⟩
  · simp only [Core.ack, hlen]
    rw [List.map_drop, h.numbered, seqsFrom_drop _ hreq, seqMask_seqDiff]
  · simp only [Core.ack, hlen]
    rw [h.next]
    apply Fin.ext
    rw [seqMask_val, seqMask_val]
    rw [seqDiff_eq] at hreq ⊢
    omega
  · simp only [Core.ack, hlen]
    exact (Nat.sub_le _ _).trans h.size

theorem Core.window_stable : Core.Stable c (Core.Window c) where
  tx := by
    intro k k' hstep ho hk
    cases hstep with
    | close hclosed => rw [hclosed] at ho; cases ho
    | newI _ hwin _ _ => exact hk.newI hwin _ _ _
    | write | reI | sFrame | flush | retransClear | retransPush => exact { hk with }
  iFrame := by
    intro it k k' hi ho hk
    cases hi with
    | closed hclosed => rw [hclosed] at ho; cases ho
    | dropped | held | firstHeld | accepted => exact { hk with }
  drain := fun hk => { hk with }

theorem Core.AckBy.window {k k' : Core} (h : Core.AckBy req k k') (hk : k.Window c) :
    k'.Window c := by
  cases h with
  | ignored => exact hk
  | acked hreq => exact hk.ack hreq

theorem Core.window_init : Node.init.core.Window c := ⟨rfl, rfl, Nat.zero_le _⟩

/-- `s`, counted from the last acknowledged number, lies before `req`. -/
def Acknowledges (lastRxAck req s : SeqNum) : Prop := seqDiff s lastRxAck < seqDiff req lastRxAck

/-- The frames that `process_reqseq` releases are those that its ReqSeq acknowledges. -/
theorem released_acknowledged {last : SeqNum} {q : List BtHdr}
    (hnum : q.map BtHdr.txSeq = seqsFrom last q.length) (hreq : seqDiff req last ≤ q.length)
    {b : BtHdr} (hb : b ∈ q.take (seqDiff req last)) : Acknowledges last req b.txSeq := by
  have hmem : b.txSeq ∈ (q.map BtHdr.txSeq).take (seqDiff req last) := by
    rw [← List.map_take]
    exact List.mem_map_of_mem hb
  rw [hnum, seqsFrom_take _ hreq] at hmem
  exact seqDiff_lt_of_mem (seqDiff_lt _ _).le hmem

/-- The transmit window in every state reachable from an open channel, whatever frames arrive,
and what `process_reqseq` does there for any control word. -/
theorem transmit_window (hc : c.peerCfg.mode = .ertm) (es : List TimedEvent) :
    nodeRun c Node.init es ≠ .error .nullDeref ∧
    ∀ n, nodeRun c Node.init es = .ok n → n.isOpen = true →
      n.fcrb.waitingForAckQ.map BtHdr.txSeq
          = seqsFrom n.fcrb.lastRxAck n.fcrb.waitingForAckQ.length ∧
      n.fcrb.nextTxSeq = seqMask (n.fcrb.lastRxAck.val + n.fcrb.waitingForAckQ.length) ∧
      n.fcrb.waitingForAckQ.length ≤ c.peerCfg.txWinSz ∧
      (∀ env ctrl, processReqseq c { n with env := env } ctrl ≠ .error .nullDeref) ∧
      ∀ req, seqDiff req n.fcrb.lastRxAck ≤ n.fcrb.waitingForAckQ.length →
        (∃ full, releaseAcked (seqDiff req n.fcrb.lastRxAck) n.fcrb.waitingForAckQ
          = .ok (n.fcrb.waitingForAckQ.drop (seqDiff req n.fcrb.lastRxAck), full)) ∧
        ∀ b ∈ n.fcrb.waitingForAckQ.take (seqDiff req n.fcrb.lastRxAck),
          Acknowledges n.fcrb.lastRxAck req b.txSeq := by
  refine ⟨ne_nullDeref (nodeRun_spec hc es Node.init_wf), ?_⟩
  intro n hrun ho
  obtain ⟨hwf, hwin⟩ := nodeRun_invariant hc Core.window_init
    (Core.window_stable.step Core.AckBy.window) hrun ho
  have hnum : n.fcrb.waitingForAckQ.map BtHdr.txSeq
      = seqsFrom n.fcrb.lastRxAck n.fcrb.waitingForAckQ.length := by
    have hitems := hwin.numbered
    simp only [Node.core, List.map_map, List.length_map] at hitems
    exact hitems
  refine ⟨hnum, ?_, ?_, ?_, ?_⟩
  · simpa only [Node.core, List.length_map] using hwin.next
  · simpa only [Node.core, List.length_map] using hwin.size
  · intro env ctrl
    exact ne_nullDeref (processReqseq_spec hc (hwf.withEnv env) ctrl)
  · intro req hreq
    refine ⟨?_, fun b hb => released_acknowledged hnum hreq hb⟩
    -- without an allowed error the release loop returns
    have hrel := releaseAcked_spec (E := fun _ => False) hreq
    cases h : releaseAcked (seqDiff req n.fcrb.lastRxAck) n.fcrb.waitingForAckQ with
    | error e => rw [h] at hrel; exact hrel.elim
    | ok p => exact ⟨p.2, by rw [← (hrel.of_ok h : p.1 = _)]⟩

/-- Two SDUs are written and sent. -/
def twoSent : List TimedEvent :=
  [(.acts [.write (.ofBytes [1, 2]), .serve, .write (.ofBytes [3]), .serve],
    [])]

/-- Frames 0 and 1 then wait for an acknowledgement. -/
theorem transmit_window_two_sent :
    ∃ n, nodeRun .default Node.init twoSent = .ok n ∧ n.isOpen = true ∧
      n.fcrb.waitingForAckQ.map BtHdr.txSeq = [0, 1] ∧ n.fcrb.nextTxSeq = 2 := by
  obtain ⟨n, hrun, ho, hlast, hlen⟩ : ∃ n, nodeRun .default Node.init twoSent = .ok n ∧
      n.isOpen = true ∧ n.fcrb.lastRxAck = 0 ∧ n.fcrb.waitingForAckQ.length = 2 :=
    ⟨_, rfl, rfl, rfl, rfl⟩
  obtain ⟨hnum, hnext, -⟩ := (transmit_window rfl twoSent).2 n hrun ho
  rw [hlast, hlen] at hnum hnext
  exact ⟨n, hrun, ho, hnum, hnext⟩

end BluetoothStack.L2cap
