import BluetoothStack.Lib.Fifo
import BluetoothStack.L2cap.ErtmStream

/-!
# BluetoothStack.L2cap.ErtmLink

The invariant of one direction of an ERTM connection, between a sender and a receiver.

Sequence numbers on the link are residues modulo 64. The invariant replaces them by the
numbers they stand for: the sender has cut the segments `sent`, of which the receiver has
accepted the first `received` and the sender knows the first `acked` to be accepted. Two
facts make the residues unambiguous.

* The ReqSeqs under way to the sender stand for numbers that never decrease, from `reqLow`
  to `received`, and the sender has at most ten segments beyond `acked`.
* A frame under way to the receiver was sent when there were `t` segments and carries one of
  the last ten of them. Since `t` never decreases along the link and everything the receiver
  has seen was sent earlier, the receiver has seen nothing beyond `t` (`dataLow`). A frame
  sent again can thus be at most ten behind what the receiver expects, however long ago it
  was sent.

While anything waits to be sent again no new segment is cut, so the second fact also holds
of frames that are sent again late.
-/

namespace BluetoothStack.L2cap

open BluetoothStack.Lib Relation

/-- No residue is ambiguous within 64 numbers. -/
theorem seqMask_inj {m n : Nat} (h : seqMask m = seqMask n) (h₁ : m < n + 64) (h₂ : n < m + 64) :
    m = n := by
  have hval := congrArg Fin.val h
  rw [seqMask_val, seqMask_val] at hval
  omega

theorem next_seqMask (n : Nat) : (seqMask n).next = seqMask (n + 1) := by
  apply Fin.ext
  rw [SeqNum.next_val, seqMask_val, seqMask_val]
  omega

/-- `it` is segment `n` of those sent. -/
def IsItem (sent : List Seg) (n : Nat) (it : Item) : Prop :=
  it.1 = seqMask n ∧ sent[n]? = some it.2

theorem IsItem.lt {sent : List Seg} {n : Nat} {it : Item} (h : IsItem sent n it) :
    n < sent.length :=
  (List.getElem?_eq_some_iff.mp h.2).1

theorem IsItem.mono {sent sent' : List Seg} (hpre : sent <+: sent') {n : Nat} {it : Item}
    (h : IsItem sent n it) : IsItem sent' n it := by
  refine ⟨h.1, ?_⟩
  obtain ⟨t, rfl⟩ := hpre
  rw [List.getElem?_append_left h.lt]
  exact h.2

/-- The largest transmit window. -/
abbrev maxWin : Nat := 10

/-- What the sequence numbers of one direction stand for. -/
structure Ghost where
  /-- the segments cut so far -/
  sent : List Seg
  acked : Nat
  /-- the ReqSeqs under way are at least this -/
  reqLow : Nat
  received : Nat
  /-- the frames under way were sent when there were at least this many segments -/
  dataLow : Nat

/-- An I-frame sent when there were `t` segments is one of the last ten of them. -/
def DataLabel (fcsLen : Nat) (sent : List Seg) (t : Nat) (g : List UInt8) : Prop :=
  frameCtrl g % 2 = 0 → ∃ n, t ≤ n + maxWin ∧ n < t ∧
    IsItem sent n (txSeqOf (frameCtrl g), frameSeg fcsLen g)

def ReqLabel (r : Nat) (g : List UInt8) : Prop := reqSeqOf (frameCtrl g) = seqMask r

/-- One direction: `S` sends to `R`. -/
structure Link (fcsLen : Nat) (G : Ghost) (S R : Core) : Prop where
  nextTx : S.nextTx = seqMask G.sent.length
  lastAck : S.lastAck = seqMask G.acked
  waiting : Indexed (IsItem G.sent) G.acked S.waiting
  inFlight : G.acked + S.waiting.length = G.sent.length
  window : S.waiting.length ≤ maxWin
  retrans : ∀ it ∈ S.retrans, ∃ n, G.sent.length ≤ n + maxWin ∧ IsItem G.sent n it
  stream : Stream G.sent S.hold S.written
  data : Labelled (DataLabel fcsLen G.sent) G.dataLow G.sent.length S.wire
  expected : R.expected = seqMask G.received
  reassembled : sarRun maxMtu none (G.sent.take G.received) = some (R.rx, R.delivered)
  reqs : Labelled ReqLabel G.reqLow G.received R.wire
  acked_le : G.acked ≤ G.reqLow
  received_le : G.received ≤ G.dataLow

variable {fcsLen : Nat} {G : Ghost} {S S' R R' : Core} {c : ChanCfg}

/-! ### The sender moves -/

theorem Link.newI (hwin : c.peerCfg.txWinSz ≤ maxWin) (h : Link (l2cuGetFcsLen c) G S R)
    {started : Bool} {d : List UInt8} {rest : List (Bool × List UInt8)} {g : List UInt8}
    (hretrans : S.retrans = []) (hopen : S.waiting.length < c.peerCfg.txWinSz)
    (hhold : S.hold = (started, d) :: rest)
    (hg : IsIFrame (l2cuGetFcsLen c) g S.nextTx S.expected (cutSeg c.txMps started d).1) :
    Link (l2cuGetFcsLen c) { G with sent := G.sent ++ [(cutSeg c.txMps started d).1] }
      { S with
        nextTx := S.nextTx.next
        waiting := S.waiting ++ [(S.nextTx, (cutSeg c.txMps started d).1)]
        hold := ((cutSeg c.txMps started d).2.map (Prod.mk true)).toList ++ rest
        wire := S.wire ++ [g] } R := by
  have hpre : G.sent <+: G.sent ++ [(cutSeg c.txMps started d).1] := List.prefix_append _ _
  have hlen : (G.sent ++ [(cutSeg c.txMps started d).1]).length = G.sent.length + 1 := by
    rw [List.length_append, List.length_singleton]
  have hlast : IsItem (G.sent ++ [(cutSeg c.txMps started d).1]) G.sent.length
      (S.nextTx, (cutSeg c.txMps started d).1) := by
    refine ⟨h.nextTx, ?_⟩
    rw [List.getElem?_append_right le_rfl, Nat.sub_self]
    rfl
  have hreceived : G.received ≤ G.sent.length := h.received_le.trans h.data.le
  exact {
    nextTx := by rw [hlen, ← next_seqMask, ← h.nextTx]
    lastAck := h.lastAck
    waiting := (h.waiting.mono fun _ _ => IsItem.mono hpre).concat (h.inFlight ▸ hlast)
    inFlight := by
      rw [hlen, List.length_append, List.length_singleton, ← Nat.add_assoc, h.inFlight]
    window := by
      rw [List.length_append, List.length_singleton]
      exact hopen.trans_le hwin
    -- nothing new is cut while frames wait to be sent again
    retrans := fun it hit => by rw [hretrans] at hit; cases hit
    stream := Stream.cut c.txMps (hhold ▸ h.stream)
    data := by
      have hold := (h.data.mono (Q := DataLabel (l2cuGetFcsLen c)
        (G.sent ++ [(cutSeg c.txMps started d).1])) ?_).mono_hi (Nat.le_succ _)
      · rw [hlen]
        refine hold.concat fun _ => ⟨G.sent.length, ?_, Nat.lt_succ_self _, ?_⟩
        · rw [maxWin]; omega
        · rw [hg.txSeq, hg.seg]
          exact hlast
      · intro t a ha heven
        obtain ⟨n, h₁, h₂, hitem⟩ := ha heven
        exact ⟨n, h₁, h₂, hitem.mono hpre⟩
    expected := h.expected
    reassembled := by rw [List.take_append_of_le_length hreceived]; exact h.reassembled
    reqs := h.reqs
    acked_le := h.acked_le
    received_le := h.received_le }

/-- Every transmit step of the sender keeps the invariant; only `sent` may grow. -/
theorem Link.sender_tx (hwin : c.peerCfg.txWinSz ≤ maxWin) (h : Link (l2cuGetFcsLen c) G S R)
    (ht : Core.Tx c S S') (ho : S'.isOpen = true) :
    ∃ sent, G.sent <+: sent ∧ Link (l2cuGetFcsLen c) { G with sent := sent } S' R := by
  cases ht with
  | close hclosed => rw [hclosed] at ho; cases ho
  | write hlen => exact ⟨_, List.prefix_rfl, { h with stream := h.stream.write hlen }⟩
  | newI hretrans hopen hhold hg =>
    exact ⟨_, List.prefix_append _ _, h.newI hwin hretrans hopen hhold hg⟩
  | @reI t q g hretrans hg =>
    refine ⟨_, List.prefix_rfl, { h with retrans := ?_, data := h.data.concat fun _ => ?_ }⟩
    · intro it hit
      exact h.retrans it (hretrans ▸ List.mem_cons_of_mem _ hit)
    · obtain ⟨n, hn, hitem⟩ := h.retrans t (hretrans ▸ List.mem_cons_self)
      refine ⟨n, hn, hitem.lt, ?_⟩
      rw [hg.txSeq, hg.seg]
      exact hitem
  | sFrame hg =>
    refine ⟨_, List.prefix_rfl, { h with data := h.data.concat fun heven => ?_ }⟩
    rw [hg.odd] at heven
    cases heven
  | flush hsub => exact ⟨_, List.prefix_rfl, { h with data := h.data.sublist hsub }⟩
  | retransClear => exact ⟨_, List.prefix_rfl, { h with retrans := fun it hit => by cases hit }⟩
  -- what waits for an acknowledgement is within the window
  | @retransPush t hmem =>
    refine ⟨_, List.prefix_rfl, { h with retrans := ?_ }⟩
    intro it hit
    rcases List.mem_append.mp hit with hit | hit
    · exact h.retrans it hit
    · rw [List.mem_singleton] at hit
      obtain ⟨n, hn, -, hitem⟩ := h.waiting.of_mem hmem
      have hfly := h.inFlight
      have hw := h.window
      have hlate : G.sent.length ≤ n + maxWin := by omega
      exact ⟨n, hlate, hit ▸ hitem⟩

/-- A ReqSeq that arrives acknowledges what it stands for. -/
theorem Link.sender_ack (h : Link fcsLen G S R) {req : SeqNum} (hreq : req = seqMask G.reqLow)
    (ha : Core.AckBy req S S') : ∃ acked, Link fcsLen { G with acked := acked } S' R := by
  cases ha with
  | ignored => exact ⟨_, h⟩
  | acked hrange =>
    have hle := h.acked_le
    have hsent : G.reqLow ≤ G.sent.length := h.reqs.le.trans (h.received_le.trans h.data.le)
    have hfly := h.inFlight
    have hw := h.window
    have hdiff : seqDiff req S.lastAck = G.reqLow - G.acked := by
      rw [hreq, h.lastAck, seqDiff_eq, seqMask_val, seqMask_val]
      rw [maxWin] at hw
      omega
    rw [hdiff] at hrange
    refine ⟨G.reqLow, { h with
      lastAck := hreq, waiting := ?_, inFlight := ?_, window := ?_, acked_le := le_rfl }⟩
    · have hdrop := h.waiting.drop hrange
      rw [Nat.add_sub_cancel' hle] at hdrop
      simpa only [Core.ack, hdiff] using hdrop
    · simp only [Core.ack, hdiff, List.length_drop]
      omega
    · simp only [Core.ack, List.length_drop]
      exact (Nat.sub_le _ _).trans hw

/-! ### The receiver moves -/

/-- Between PDUs nothing is held, or the frames behind the next one are. -/
inductive AtRest (G : Ghost) (R : Core) : Prop
  | quiet (hsrej : R.srej = false) (hheld : R.held = [])
  | holding (hsrej : R.srej = true) (hheld : Indexed (IsItem G.sent) (G.received + 1) R.held)
      (hlow : G.received + 1 + R.held.length ≤ G.dataLow)

/-- The next frames to be accepted are `its`. -/
structure Draining (G : Ghost) (its : List Item) : Prop where
  items : Indexed (IsItem G.sent) G.received its
  low : G.received + its.length ≤ G.dataLow

theorem AtRest.of_sameRx (h : AtRest G R) (hs : SameRx R R') : AtRest G R' := by
  cases h with
  | quiet hsrej hheld => exact .quiet (hs.srej.trans hsrej) (hs.held.trans hheld)
  | holding hsrej hheld hlow =>
    refine .holding (hs.srej.trans hsrej) ?_ ?_
    · rw [hs.held]; exact hheld
    · rw [hs.held]; exact hlow

/-- More may be sent, and the frames under way be newer. -/
theorem AtRest.mono {G' : Ghost} (h : AtRest G R) (hsent : G.sent <+: G'.sent)
    (hreceived : G'.received = G.received) (hlow : G.dataLow ≤ G'.dataLow) : AtRest G' R := by
  cases h with
  | quiet hsrej hheld => exact .quiet hsrej hheld
  | holding hsrej hheld hlow' =>
    rw [← hreceived] at hheld hlow'
    exact .holding hsrej (hheld.mono fun _ _ => IsItem.mono hsent) (hlow'.trans hlow)

/-- A transmit step of the receiver labels what it sends with what it has received. -/
theorem Link.receiver_tx (h : Link fcsLen G S R) (ht : Core.Tx c R R') (ho : R'.isOpen = true) :
    Link fcsLen G S R' := by
  cases ht with
  | close hclosed => rw [hclosed] at ho; cases ho
  | newI _ _ _ hg | reI _ hg | sFrame hg =>
    exact { h with reqs := h.reqs.concat (hg.reqSeq.trans h.expected) }
  | flush hsub => exact { h with reqs := h.reqs.sublist hsub }
  | write | retransClear | retransPush => exact { h with }

theorem Link.receiver_txRun (h : Link fcsLen G S R) (ht : TxRun c R R') (ho : R'.isOpen = true) :
    Link fcsLen G S R' := by
  induction ht with
  | refl => exact h
  | tail _ hstep ih => exact (ih (hstep.isOpen ho)).receiver_tx hstep ho

theorem Link.accept (h : Link fcsLen G S R) {it : Item} (hitem : IsItem G.sent G.received it)
    (hlow : G.received + 1 ≤ G.dataLow) {mtu : Nat} {rx : Option (Nat × List UInt8)}
    {d : Option (List UInt8)} (hsar : sarStep mtu R.rx it.2 = some (rx, d)) :
    Link fcsLen { G with received := G.received + 1 } S
      { R with
        expected := R.expected.next, srej := false, rx := rx
        delivered := R.delivered ++ d.toList } :=
  { h with
    expected := by rw [h.expected, next_seqMask]
    reassembled := by
      rw [List.take_add_one, hitem.2]
      exact sarRun_concat h.reassembled (sarStep_maxMtu hsar)
    reqs := h.reqs.mono_hi (Nat.le_succ _)
    received_le := hlow }

/-- The held frames are accepted one by one. -/
theorem Link.drain {its : List Item} (hp : Core.Process c its R R') (ho : R'.isOpen = true)
    (h : Link fcsLen G S R) (hsrej : R.srej = false) (hheld : R.held = []) (hd : Draining G its) :
    ∃ m, Link fcsLen { G with received := m } S R' ∧ R'.srej = false ∧ R'.held = [] := by
  induction hp generalizing G with
  | nil hrun =>
    have hrx := hrun.sameRx ho
    exact ⟨_, h.receiver_txRun hrun ho, hrx.srej.trans hsrej, hrx.held.trans hheld⟩
  | @cons it its R R₁ R₂ R' hrun hi hr ih =>
    have ho₂ := hr.isOpen ho
    have ho₁ := hi.isOpen ho₂
    have hrx := hrun.sameRx ho₁
    have h₁ := h.receiver_txRun hrun ho₁
    obtain ⟨⟨hfirst, hrest⟩, hlow⟩ := hd
    rw [List.length_cons] at hlow
    have hexp : it.1 = R₁.expected := hfirst.1.trans h₁.expected.symm
    cases hi with
    | closed hclosed => rw [hclosed] at ho₂; cases ho₂
    | dropped hne | held _ hne | firstHeld _ hne => exact absurd hexp hne
    | accepted _ hsar =>
      have hstep := h₁.accept hfirst (by omega) hsar
      have hlow' : G.received + 1 + its.length ≤ G.dataLow := by omega
      obtain ⟨m, hend⟩ := ih ho hstep rfl (hrx.held.trans hheld) ⟨hrest, hlow'⟩
      exact ⟨m, hend⟩

/-- What the receiver makes of a frame under way. -/
theorem Link.receiver_iFrame (hwin : c.ourCfg.txWinSz ≤ maxWin) (h : Link fcsLen G S R)
    (hr : AtRest G R) {it : Item} {n : Nat} (hold : G.dataLow ≤ n + maxWin) (hnew : n < G.dataLow)
    (hitem : IsItem G.sent n it) (hi : Core.IFrame c it R R') (ho : R'.isOpen = true) :
    (Link fcsLen G S R' ∧ AtRest G R') ∨
      (Link fcsLen { G with received := G.received + 1 } S R' ∧ R'.srej = false ∧
        Draining { G with received := G.received + 1 } R'.held) := by
  have hrec := h.received_le
  have hfly := h.inFlight
  have hw := h.window
  have hack := h.acked_le.trans h.reqs.le
  have hlt := hitem.lt
  rw [maxWin] at hold hw hwin
  cases hi with
  | closed hclosed => rw [hclosed] at ho; cases ho
  | dropped => exact .inl ⟨h, hr⟩
  | @held last hsrej hne hfits hlast hnext hlen =>
    cases hr with
    | quiet hsrej' => rw [hsrej] at hsrej'; cases hsrej'
    | holding _ hheld hlow =>
      -- the frame is the one behind the last held frame, not one 64 away
      have hn : n = G.received + 1 + R.held.length := by
        have hpos : R.held ≠ [] := by rintro hnil; rw [hnil] at hlast; cases hlast
        have hpos := List.length_pos_iff.mpr hpos
        refine seqMask_inj ?_ (by omega) (by omega)
        rw [← hitem.1, hnext, (hheld.getLast hlast).1, next_seqMask]
        congr 1
        omega
      refine .inl ⟨{ h with }, .holding hsrej (hheld.concat (hn ▸ hitem)) ?_⟩
      simp only [List.length_append, List.length_singleton]
      omega
  | firstHeld hsrej hne hfits hone =>
    cases hr with
    | holding hsrej' => rw [hsrej] at hsrej'; cases hsrej'
    | quiet _ hheld =>
      have hn : n = G.received + 1 := by
        refine seqMask_inj ?_ (by omega) (by omega)
        rw [← hitem.1, seqDiff_one hne hone, h.expected, next_seqMask]
      refine .inl ⟨{ h with }, .holding rfl ?_ ?_⟩
      · simp only [hheld, List.nil_append]
        exact ⟨hn ▸ hitem, trivial⟩
      · simp only [hheld, List.nil_append, List.length_singleton]
        omega
  | accepted hexp hsar =>
    have hn : n = G.received := by
      refine seqMask_inj ?_ (by omega) (by omega)
      rw [← hitem.1, hexp, h.expected]
    subst hn
    refine .inr ⟨h.accept hitem hnew hsar, rfl, ?_⟩
    cases hr with
    | quiet _ hheld => exact ⟨by rw [hheld]; trivial, by rw [hheld]; exact hnew⟩
    | holding _ hheld hlow => exact ⟨hheld, hlow⟩

end BluetoothStack.L2cap
