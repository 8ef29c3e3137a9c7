import BluetoothStack.L2cap.ErtmWindow

/-!
# BluetoothStack.L2cap.ErtmSrej

The receiver's hold queue while an SREJ is outstanding.

When exactly one frame is missing, `process_i_frame` keeps the frames behind it in
`srej_rcv_hold_q` and asks for the missing one. `Core.Rest` is the invariant between PDUs:
frames are held iff an SREJ is outstanding, they are numbered without gaps behind the
missing frame, and they fit our window. Accepting the missing frame turns it into
`Core.Ready`, where the held frames start at the expected number; the drain at the end of
`l2c_fcr_proc_pdu` then finds each of them in sequence (`Core.Process.drained`), so that
none is dropped or held again, and `Core.Rest` holds with an empty queue.
-/

namespace BluetoothStack.L2cap

open BluetoothStack.Lib Relation

/-- Reassembly of a list of segments, and the SDUs completed on the way. -/
def sarRun (mtu : Nat) : Option (Nat × List UInt8) → List Seg →
    Option (Option (Nat × List UInt8) × List (List UInt8))
  | rx, [] => some (rx, [])
  | rx, s :: segs => do
    let (rx, d) ← sarStep mtu rx s
    let (rx, ds) ← sarRun mtu rx segs
    pure (rx, d.toList ++ ds)

theorem sarRun_cons {mtu : Nat} {rx rx₁ rx₂ : Option (Nat × List UInt8)} {s : Seg} {segs : List Seg}
    {d : Option (List UInt8)} {ds : List (List UInt8)} (h : sarStep mtu rx s = some (rx₁, d))
    (hs : sarRun mtu rx₁ segs = some (rx₂, ds)) :
    sarRun mtu rx (s :: segs) = some (rx₂, d.toList ++ ds) := by
  rw [sarRun, h, Option.bind_eq_bind, Option.bind_some]
  dsimp only
  rw [hs]
  rfl

variable {c : ChanCfg}

variable (c) in
/-- Between two PDUs. -/
structure Core.Rest (k : Core) : Prop where
  srej : k.srej = true ↔ k.held ≠ []
  numbered : k.held.map Prod.fst = seqsFrom k.expected.next k.held.length
  size : k.held.length ≤ c.ourCfg.txWinSz

/-- The missing frame has arrived: the held frames are the next ones. -/
structure Core.Ready (k : Core) : Prop where
  srej : k.srej = false
  numbered : k.held.map Prod.fst = seqsFrom k.expected k.held.length

variable {k k' : Core} {its : List Item}

theorem Core.Rest.of_sameRx (h : k.Rest c) (hs : SameRx k k') : k'.Rest c :=
  ⟨by rw [hs.srej, hs.held]; exact h.srej, by rw [hs.held, hs.expected]; exact h.numbered,
    by rw [hs.held]; exact h.size⟩

theorem Core.Ready.of_sameRx (h : k.Ready) (hs : SameRx k k') : k'.Ready :=
  ⟨hs.srej.trans h.srej, by rw [hs.held, hs.expected]; exact h.numbered⟩

/-- With nothing held and no SREJ outstanding both hold. -/
theorem Core.Rest.empty (hsrej : k.srej = false) (hheld : k.held = []) : k.Rest c := by
  refine ⟨?_, ?_, ?_⟩
  · simp [hsrej, hheld]
  · rw [hheld]; rfl
  · rw [hheld]; exact Nat.zero_le _

theorem seqsFrom_getLast {s : SeqNum} {last : Item} (h : its.map Prod.fst = seqsFrom s its.length)
    (hlast : its.getLast? = some last) : last.1.next = seqMask (s.val + its.length) := by
  obtain ⟨init, rfl⟩ := List.getLast?_eq_some_iff.mp hlast
  rw [List.length_append, List.length_singleton, seqsFrom_succ, List.map_append] at h
  have heq := (List.append_inj' h rfl).2
  rw [List.map_singleton, List.singleton_inj] at heq
  rw [heq, List.length_append, List.length_singleton]
  apply Fin.ext
  simp only [SeqNum.next_val, seqMask_val]
  omega

theorem seqDiff_one {s t : SeqNum} (hne : t ≠ s) (h : seqDiff t s ≤ 1) : t = s.next := by
  have hval : t.val ≠ s.val := fun h => hne (Fin.ext h)
  have ht := t.isLt
  have hs := s.isLt
  apply Fin.ext
  rw [seqDiff_eq] at h
  rw [SeqNum.next_val]
  omega

/-- One I-frame between PDUs: the invariant stays, or the missing frame has come. -/
theorem Core.IFrame.rest {it : Item} (h : Core.IFrame c it k k') (ho : k'.isOpen = true)
    (hk : k.Rest c) : k'.Rest c ∨ k'.Ready := by
  cases h with
  | closed hclosed => rw [hclosed] at ho; cases ho
  | dropped => exact .inl hk
  | @held last hsrej hne hwin hlast hnext hlen =>
    refine .inl ⟨by simp [hsrej], ?_, ?_⟩
    · simp only [List.map_append, List.map_cons, List.map_nil, List.length_append,
        List.length_singleton]
      rw [seqsFrom_succ, hk.numbered, hnext, seqsFrom_getLast hk.numbered hlast]
    · rw [List.length_append, List.length_singleton]
      exact hlen
  | firstHeld hsrej hne hwin hone =>
    have hnil : k.held = [] := by
      by_contra hheld
      rw [hk.srej.mpr hheld] at hsrej
      cases hsrej
    -- the window is wider than the distance to the frame, which is one
    have hnext := seqDiff_one hne hone
    have hpos : seqDiff it.1 k.expected ≠ 0 := by
      rw [hnext, seqDiff_eq, SeqNum.next_val]
      omega
    refine .inl ⟨by simp, ?_, ?_⟩
    · simp only [hnil, List.nil_append, List.map_cons, List.map_nil, hnext]
      rfl
    · simp only [hnil, List.nil_append, List.length_singleton]
      omega
  | accepted hexp hsar => exact .inr ⟨rfl, hk.numbered⟩

variable (c) in
/-- `segs` have been accepted in order, and nothing is held. -/
structure Core.Advanced (k : Core) (segs : List Seg) (k' : Core) : Prop where
  srej : k'.srej = false
  held : k'.held = []
  expected : k'.expected = seqMask (k.expected.val + segs.length)
  reassembled : ∃ ds, sarRun c.maxRxMtu k.rx segs = some (k'.rx, ds) ∧
    k'.delivered = k.delivered ++ ds

/-- An I-frame with the expected number is accepted. -/
theorem Core.IFrame.accepts {it : Item} (h : Core.IFrame c it k k') (ho : k'.isOpen = true)
    (hexp : it.1 = k.expected) :
    k'.srej = false ∧ k'.held = k.held ∧ k'.expected = k.expected.next ∧
      ∃ d, sarStep c.maxRxMtu k.rx it.2 = some (k'.rx, d) ∧
        k'.delivered = k.delivered ++ d.toList := by
  cases h with
  | closed hclosed => rw [hclosed] at ho; cases ho
  | dropped hne | held _ hne | firstHeld _ hne => exact absurd hexp hne
  | accepted _ hsar => exact ⟨rfl, rfl, rfl, _, hsar, rfl⟩

theorem Core.Advanced.cons {k₁ k₂ : Core} {s : Seg} {segs : List Seg} {d : Option (List UInt8)}
    (hrx : SameRx k k₁) (hexp : k₂.expected = k₁.expected.next)
    (hsar : sarStep c.maxRxMtu k₁.rx s = some (k₂.rx, d))
    (hdel : k₂.delivered = k₁.delivered ++ d.toList) (h : Core.Advanced c k₂ segs k') :
    Core.Advanced c k (s :: segs) k' := by
  obtain ⟨ds, hrun, hds⟩ := h.reassembled
  refine ⟨h.srej, h.held, ?_, d.toList ++ ds, ?_, ?_⟩
  · rw [h.expected, hexp, hrx.expected, seqMask_next, List.length_cons]
  · rw [← hrx.rx]
    exact sarRun_cons hsar hrun
  · rw [hds, hdel, hrx.delivered, List.append_assoc]

/-- Frames numbered from the expected number on are all accepted. -/
theorem Core.Process.drained (h : Core.Process c its k k') (ho : k'.isOpen = true)
    (hsrej : k.srej = false) (hheld : k.held = [])
    (hnum : its.map Prod.fst = seqsFrom k.expected its.length) :
    Core.Advanced c k (its.map Prod.snd) k' := by
  induction h with
  | nil hrun =>
    have hrx := hrun.sameRx ho
    refine ⟨hrx.srej.trans hsrej, hrx.held.trans hheld, ?_, [], ?_, ?_⟩
    · rw [hrx.expected]; exact (seqMask_zero _).symm
    · rw [hrx.rx]; rfl
    · rw [hrx.delivered, List.append_nil]
  | @cons it its k k₁ k₂ k' hrun hi hr ih =>
    have ho₂ := hr.isOpen ho
    have hrx := hrun.sameRx (hi.isOpen ho₂)
    simp only [List.map_cons, List.length_cons, seqsFrom, List.cons.injEq] at hnum
    obtain ⟨hfirst, hrest⟩ := hnum
    obtain ⟨hsrej₂, hheld₂, hexp₂, d, hsar, hdel⟩ :=
      hi.accepts ho₂ (hfirst.trans hrx.expected.symm)
    have htail := ih ho hsrej₂ (hheld₂.trans (hrx.held.trans hheld))
      (by rw [hexp₂, hrx.expected]; exact hrest)
    exact .cons hrx hexp₂ hsar hdel htail

/-- The end of `l2c_fcr_proc_pdu` restores the invariant. -/
theorem Core.After.rest (h : Core.After c k k') (ho : k'.isOpen = true) (hk : k.Rest c ∨ k.Ready) :
    k'.Rest c := by
  cases h with
  | idle hidle hrun =>
    have hrx := hrun.sameRx ho
    rcases hk with hk | hk
    · exact hk.of_sameRx hrx
    · rw [hk.srej, hrun.isOpen ho] at hidle
      have hnil : k.held = [] := by simpa using hidle
      exact .empty (hrx.srej.trans hk.srej) (hrx.held.trans hnil)
  | drain hsrej hne hp =>
    have hready : k.Ready := by
      refine hk.resolve_left fun hrest => ?_
      rw [hrest.srej.mpr hne] at hsrej
      cases hsrej
    have hadv := hp.drained ho hready.srej rfl hready.numbered
    exact .empty hadv.srej hadv.held

theorem Core.Process.rest (hits : its.length ≤ 1) (h : Core.Process c its k k')
    (ho : k'.isOpen = true) (hk : k.Rest c) : k'.Rest c ∨ k'.Ready := by
  cases h with
  | nil hrun => exact .inl (hk.of_sameRx (hrun.sameRx ho))
  | cons hrun hi hr =>
    cases hr with
    | cons => simp at hits
    | nil hrun' =>
      have ho₂ := hrun'.isOpen ho
      have hrx := hrun'.sameRx ho
      exact (hi.rest ho₂ (hk.of_sameRx (hrun.sameRx (hi.isOpen ho₂)))).imp
        (·.of_sameRx hrx) (·.of_sameRx hrx)

theorem Core.AckBy.sameRx {req : SeqNum} (h : Core.AckBy req k k') : SameRx k k' := by
  cases h <;> exact ⟨rfl, rfl, rfl, rfl, rfl⟩

theorem frameItems_length (g : List UInt8) : (frameItems c g).length ≤ 1 := by
  unfold frameItems
  split <;> simp

theorem Core.Step.rest (h : Core.Step c k k') (ho : k'.isOpen = true) (hk : k.Rest c) :
    k'.Rest c := by
  cases h with
  | tx hrun => exact hk.of_sameRx (hrun.sameRx ho)
  | pdu g hpdu =>
    cases hpdu with
    | ignored hrun => exact hk.of_sameRx (hrun.sameRx ho)
    | processed hack hp hafter =>
      exact hafter.rest ho
        (hp.rest (frameItems_length g) (hafter.isOpen ho) (hk.of_sameRx hack.sameRx))

/-! ### The missing frame -/

/-- A buffer as `l2c_rcv_acl_data` hands it to `l2c_fcr_proc_pdu`. -/
structure PduBuf (b : BtHdr) : Prop where
  inside : b.offset + b.len ≤ b.data.length
  len : b.len < 65536
  offset : b.offset + 4 < 65536

/-- The frame with the expected number is accepted, and with it everything that is held. -/
theorem Core.Process.accepted_drained {it : Item} {k₁ : Core} (hk : k.Rest c)
    (hp : Core.Process c [it] k k₁) (hafter : Core.After c k₁ k') (ho : k'.isOpen = true)
    (hexp : it.1 = k.expected) : Core.Advanced c k (it.2 :: k.held.map Prod.snd) k' := by
  have ho₁ := hafter.isOpen ho
  cases hp with
  | cons hrun hi hr =>
    cases hr with
    | @nil k₂ _ hrun' =>
      have ho₂ := hrun'.isOpen ho₁
      have hrx := hrun.sameRx (hi.isOpen ho₂)
      have hrx' := hrun'.sameRx ho₁
      obtain ⟨hsrej, hheld, hexp₂, d, hsar, hdel⟩ := hi.accepts ho₂ (hexp.trans hrx.expected.symm)
      rw [← hrx'.rx] at hsar
      have hheld₁ : k₁.held = k.held := hrx'.held.trans (hheld.trans hrx.held)
      refine .cons hrx (hrx'.expected.trans hexp₂) hsar (hrx'.delivered.trans hdel) ?_
      have hready : k₁.Ready := by
        refine ⟨hrx'.srej.trans hsrej, ?_⟩
        rw [hheld₁, hrx'.expected, hexp₂, hrx.expected]
        exact hk.numbered
      cases hafter with
      | idle hidle hrun₁ =>
        rw [hready.srej, ho₁] at hidle
        have hnil : k.held = [] := by simpa [hheld₁] using hidle
        rw [hnil]
        exact (Core.Process.nil hrun₁).drained ho hready.srej (hheld₁.trans hnil) rfl
      | drain _ _ hd =>
        have hadv := hd.drained ho hready.srej rfl hready.numbered
        rw [hheld₁] at hadv
        exact { hadv with }

/-- The hold queue in every state reachable from an open channel, whatever frames arrive, and
what the arrival of the missing frame does there. -/
theorem srej_hold_queue (hc : c.peerCfg.mode = .ertm) (es : List TimedEvent) :
    nodeRun c Node.init es ≠ .error .nullDeref ∧
    ∀ n, nodeRun c Node.init es = .ok n → n.isOpen = true →
      (n.fcrb.srejSent = true ↔ n.fcrb.srejRcvHoldQ ≠ []) ∧
      n.fcrb.srejRcvHoldQ.map BtHdr.layerSpecific
        = (seqsFrom n.fcrb.nextSeqExpected.next n.fcrb.srejRcvHoldQ.length).map Fin.val ∧
      n.fcrb.srejRcvHoldQ.length ≤ c.ourCfg.txWinSz ∧
      ∀ b env n', PduBuf b → passesChecks c n b → hasBit (b.getU16 b.offset) sFrameBit = false →
        txSeqOf (b.getU16 b.offset) = n.fcrb.nextSeqExpected →
        l2cFcrProcPdu c { n with env := env } b = .ok n' → n'.isOpen = true →
        Core.Advanced c n.core ((b.behindCtrl c).rxItem.2 :: n.core.held.map Prod.snd) n'.core := by
  refine ⟨ne_nullDeref (nodeRun_spec hc es Node.init_wf), ?_⟩
  intro n hrun ho
  obtain ⟨hwf, hrest⟩ := nodeRun_invariant hc (Core.Rest.empty rfl rfl) Core.Step.rest hrun ho
  refine ⟨?_, ?_, ?_, ?_⟩
  · simpa [Node.core] using hrest.srej
  · have hnum := hrest.numbered
    simp only [Node.core, List.map_map, List.length_map] at hnum
    rw [← hnum, List.map_map]
    exact List.map_congr_left fun b hb => (hwf.held b hb).layer
  · simpa only [Node.core, List.length_map] using hrest.size
  · intro b env n' hb hpass hi htx hproc ho'
    obtain ⟨-, hctrl, -⟩ := behindCtrl_rxBuf (c := c) hb.inside hb.len hb.offset hpass.1
    obtain ⟨-, k₁, k₂, hack, hp, hafter⟩ :=
      (l2cFcrProcPdu_passes hc (hwf.withEnv env) hb.inside hb.len hb.offset hpass).of_ok hproc
    rw [BtHdr.rxItems, hctrl, hi, if_neg Bool.false_ne_true] at hp
    have hrx := hack.sameRx
    have hexp : (b.behindCtrl c).rxItem.1 = k₁.expected := by
      rw [hrx.expected, BtHdr.rxItem, hctrl, htx]
      rfl
    -- the acknowledgement in the frame does not touch the receive side
    have hadv := Core.Process.accepted_drained (hrest.of_sameRx hrx) hp hafter ho' hexp
    rw [hrx.held] at hadv
    obtain ⟨ds, hsar, hdel⟩ := hadv.reassembled
    refine ⟨hadv.srej, hadv.held, ?_, ds, ?_, ?_⟩
    · rw [hadv.expected, hrx.expected]; rfl
    · rw [hrx.rx] at hsar; exact hsar
    · rw [hdel, hrx.delivered]; rfl

/-- The second frame of `twoSent` arrives. -/
def secondArrives : List TimedEvent := [(.rx [5, 0, 64, 0, 2, 0, 3, 181, 14], [])]

/-- The first frame of `twoSent`, in the buffer it is received in. -/
def firstFrame : BtHdr where
  len := 6
  offset := 8
  data := [0, 0, 0, 0, 6, 0, 64, 0, 0, 0, 1, 2, 14, 187]

/-- The second frame is held; when the first arrives both are accepted. -/
theorem srej_hold_queue_second_arrives :
    ∃ n n', nodeRun .default Node.init secondArrives = .ok n ∧ n.fcrb.srejSent = true ∧
      n.fcrb.srejRcvHoldQ.map BtHdr.layerSpecific = [1] ∧
      l2cFcrProcPdu .default n firstFrame = .ok n' ∧
      Core.Advanced .default n.core [⟨.unseg, [1, 2]⟩, ⟨.unseg, [3]⟩] n'.core := by
  obtain ⟨n, n', hrun, ho, hexp, hlen, hproc, ho', hpass, hsegs⟩ : ∃ n n',
      nodeRun .default Node.init secondArrives = .ok n ∧ n.isOpen = true ∧
      n.fcrb.nextSeqExpected = 0 ∧ n.fcrb.srejRcvHoldQ.length = 1 ∧
      l2cFcrProcPdu .default n firstFrame = .ok n' ∧ n'.isOpen = true ∧
      passesChecks .default n firstFrame ∧ n.core.held.map Prod.snd = [⟨.unseg, [3]⟩] :=
    ⟨_, _, rfl, rfl, rfl, rfl, rfl, rfl, by decide, rfl⟩
  obtain ⟨hsrej, hnum, -, hdrain⟩ := (srej_hold_queue rfl secondArrives).2 n hrun ho
  rw [hexp, hlen] at hnum
  have hheld : n.fcrb.srejRcvHoldQ ≠ [] := List.ne_nil_of_length_pos (by omega)
  have hadv := hdrain firstFrame n.env n' ⟨by decide, by decide, by decide⟩ hpass rfl
    (hexp ▸ rfl) hproc ho'
  rw [hsegs] at hadv
  exact ⟨n, n', hrun, hsrej.mpr hheld, hnum, hproc, hadv⟩

end BluetoothStack.L2cap
