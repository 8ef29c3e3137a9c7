import BluetoothStack.L2cap.Segmentation

/-!
# BluetoothStack.L2cap.SarSafety

Reassembly of I-frames, from a peer that sends anything.

What a sequence of frames has to look like is stated without a state: whole SDUs, each in one frame
or in the order START CONT* END, and at the end maybe an SDU that is not complete (`InOrder`).
`do_sar_reassembly` accepts such sequences and no others, and delivers the SDUs in them.
-/

namespace BluetoothStack.L2cap

open BluetoothStack.Lib

/-! ### Sequences of frames -/

/-- START CONT*: the beginning of an SDU of `len` bytes, of which `acc` has arrived. -/
def Begun (mtu len : ℕ) (segs : List Seg) (acc : List UInt8) : Prop :=
  ∃ (info : List UInt8) (parts : List (List UInt8)),
    segs = ⟨.start, info⟩ :: parts.map (Seg.mk .cont) ∧ 2 ≤ info.length ∧ len = rd16 info 0 ∧
      len ≤ mtu ∧ acc = info.drop 2 ++ parts.flatten ∧ acc.length ≤ len

/-- Whole SDUs, and maybe the beginning of one more. -/
inductive InOrder (mtu : ℕ) : List Seg → Option (ℕ × List UInt8) → List (List UInt8) → Prop
  | nil : InOrder mtu [] none []
  | unseg {segs : List Seg} {ds : List (List UInt8)} (h : InOrder mtu segs none ds)
      (info : List UInt8) : InOrder mtu (segs ++ [⟨.unseg, info⟩]) none (ds ++ [info])
  | begun {segs sdu : List Seg} {ds : List (List UInt8)} {len : ℕ} {acc : List UInt8}
      (h : InOrder mtu segs none ds) (hb : Begun mtu len sdu acc) :
      InOrder mtu (segs ++ sdu) (some (len, acc)) ds
  | sdu {segs sdu : List Seg} {ds : List (List UInt8)} {len : ℕ} {acc last : List UInt8}
      (h : InOrder mtu segs none ds) (hb : Begun mtu len sdu acc)
      (hlen : acc.length + last.length = len) :
      InOrder mtu (segs ++ (sdu ++ [⟨.final, last⟩])) none (ds ++ [acc ++ last])

variable {mtu len : ℕ} {segs : List Seg} {acc : List UInt8} {ds : List (List UInt8)}
  {rx : Option (ℕ × List UInt8)} {d : Option (List UInt8)} {rx' : Option (ℕ × List UInt8)}
  {n n' : Node}

theorem Begun.cont (h : Begun mtu len segs acc) {info : List UInt8}
    (hfit : acc.length + info.length ≤ len) :
    Begun mtu len (segs ++ [⟨.cont, info⟩]) (acc ++ info) := by
  obtain ⟨first, parts, rfl, htwo, hlen, hmtu, rfl, -⟩ := h
  refine ⟨first, parts ++ [info], ?_, htwo, hlen, hmtu, ?_, ?_⟩
  · rw [List.map_append, List.map_singleton, List.cons_append]
  · rw [List.flatten_append, List.flatten_singleton, List.append_assoc]
  · rw [List.length_append]
    exact hfit

/-- An SDU that is not complete is announced within the MTU. -/
theorem InOrder.le_mtu (h : InOrder mtu segs (some (len, acc)) ds) : len ≤ mtu := by
  cases h with
  | begun h hb =>
    obtain ⟨info, parts, -, -, -, hmtu, -, -⟩ := hb
    exact hmtu

theorem collect_part {payload : List UInt8} : collect len acc payload false = some (rx, d) ↔
      acc.length + payload.length ≤ len ∧ rx = some (len, acc ++ payload) ∧ d = none := by
  simp only [collect, Bool.false_eq_true, false_and, if_false]
  split
  case isTrue hlong => exact iff_of_false (by simp) fun h => absurd h.1 (not_le.mpr hlong)
  case isFalse hfit =>
    rw [Option.some.injEq, Prod.mk.injEq, and_iff_right (not_lt.mp hfit), eq_comm,
      eq_comm (b := d)]

theorem collect_last {payload : List UInt8} : collect len acc payload true = some (rx, d) ↔
      acc.length + payload.length = len ∧ rx = none ∧ d = some (acc ++ payload) := by
  simp only [collect, true_and, if_true]
  split
  case isTrue hlong => exact iff_of_false (by simp) fun h => absurd h.1 hlong.ne'
  case isFalse =>
    split
    case isTrue hne => exact iff_of_false (by simp) fun h => hne h.1
    case isFalse hlen =>
      rw [Option.some.injEq, Prod.mk.injEq, and_iff_right (not_not.mp hlen), eq_comm,
        eq_comm (b := d)]

theorem InOrder.step {s : Seg} (h : InOrder mtu segs rx ds)
    (hs : sarStep mtu rx s = some (rx', d)) : InOrder mtu (segs ++ [s]) rx' (ds ++ d.toList) := by
  obtain ⟨sar, info⟩ := s
  cases rx with
  | none =>
    cases sar with
    | unseg =>
      cases hs
      exact h.unseg info
    | start =>
      simp only [sarStep] at hs
      split at hs
      · cases hs
      case isFalse hlong =>
        split at hs
        · cases hs
        case isFalse hmtu =>
          obtain ⟨hfit, rfl, rfl⟩ := collect_part.mp hs
          rw [List.nil_append, Option.toList_none, List.append_nil]
          rw [List.length_nil, Nat.zero_add] at hfit
          refine h.begun ⟨info, [], rfl, not_lt.mp hlong, rfl, not_lt.mp hmtu, ?_, hfit⟩
          rw [List.flatten_nil, List.append_nil]
    -- a segment without a start is refused
    | cont | final => cases hs
  | some sdu =>
    obtain ⟨len, acc⟩ := sdu
    cases h with
    | begun h hb =>
      rw [List.append_assoc]
      cases sar with
      | unseg | start => cases hs
      | cont =>
        obtain ⟨hfit, rfl, rfl⟩ := collect_part.mp hs
        rw [Option.toList_none, List.append_nil]
        exact h.begun (hb.cont hfit)
      | final =>
        obtain ⟨hlen, rfl, rfl⟩ := collect_last.mp hs
        exact h.sdu hb hlen

theorem InOrder.run {more : List Seg} {ds' : List (List UInt8)} (h : InOrder mtu segs rx ds)
    (hmore : sarRun mtu rx more = some (rx', ds')) :
    InOrder mtu (segs ++ more) rx' (ds ++ ds') := by
  induction more generalizing segs rx ds ds' with
  | nil =>
    cases hmore
    rw [List.append_nil, List.append_nil]
    exact h
  | cons s more ih =>
    simp only [sarRun, Option.bind_eq_bind, Option.bind_eq_some_iff, Option.pure_def,
      Option.some.injEq, Prod.mk.injEq] at hmore
    obtain ⟨⟨rx₁, d⟩, hstep, ⟨rx₂, ds₂⟩, hrun, rfl, rfl⟩ := hmore
    rw [← List.append_assoc, ← List.singleton_append, ← List.append_assoc]
    exact ih (h.step hstep) hrun

theorem sarRun_parts {parts : List (List UInt8)} (hfit : (acc ++ parts.flatten).length ≤ len) :
    sarRun mtu (some (len, acc)) (parts.map (Seg.mk .cont)) =
      some (some (len, acc ++ parts.flatten), []) := by
  induction parts generalizing acc with
  | nil =>
    rw [List.flatten_nil, List.append_nil]
    rfl
  | cons part parts ih =>
    rw [List.flatten_cons, ← List.append_assoc] at hfit ⊢
    have hpart : acc.length + part.length ≤ len := by
      rw [List.length_append, List.length_append] at hfit
      omega
    have hstep : sarStep mtu (some (len, acc)) ⟨.cont, part⟩ =
        some (some (len, acc ++ part), none) :=
      collect_part.mpr ⟨hpart, rfl, rfl⟩
    exact sarRun_cons hstep (ih hfit)

theorem sarRun_begun (h : Begun mtu len segs acc) :
    sarRun mtu none segs = some (some (len, acc), []) := by
  obtain ⟨info, parts, rfl, htwo, rfl, hmtu, rfl, hfit⟩ := h
  have hfirst : sarStep mtu none ⟨.start, info⟩ = some (some (rd16 info 0, info.drop 2), none) := by
    rw [List.length_append] at hfit
    simp only [sarStep]
    rw [if_neg (not_lt.mpr htwo), if_neg (not_lt.mpr hmtu), collect_part, List.length_nil]
    exact ⟨by omega, rfl, rfl⟩
  exact sarRun_cons hfirst (sarRun_parts hfit)

/-- `sarStep` accepts the sequences that are in order. -/
theorem sarRun_iff : sarRun mtu none segs = some (rx, ds) ↔ InOrder mtu segs rx ds := by
  refine ⟨InOrder.nil.run, fun h => ?_⟩
  induction h with
  | nil => rfl
  | unseg h info ih =>
    have hstep : sarStep mtu none ⟨.unseg, info⟩ = some (none, some info) := rfl
    exact sarRun_concat ih hstep
  | @begun segs sdu ds len acc h hb ih =>
    have hrun := sarRun_append ih (sarRun_begun hb)
    rwa [List.append_nil] at hrun
  | @sdu segs sdu ds len acc last h hb hlen ih =>
    have hstep : sarStep mtu (some (len, acc)) ⟨.final, last⟩ = some (none, some (acc ++ last)) :=
      collect_last.mpr ⟨hlen, rfl, rfl⟩
    exact sarRun_append ih (sarRun_concat (sarRun_begun hb) hstep)

/-! ### What is delivered -/

variable (c : ChanCfg)

/-- SDUs are delivered while the channel is open, and it does not open again. -/
structure Delivers (n n' : Node) (ds : List (List UInt8)) : Prop where
  closed : n.isOpen = false → n'.isOpen = false ∧ n'.delivered = n.delivered
  initial : ∃ ds', ds' <+: ds ∧ n'.delivered = n.delivered ++ ds'
  whole : n'.isOpen = true → n'.delivered = n.delivered ++ ds

theorem Delivers.refl (n : Node) : Delivers n n [] where
  closed h := ⟨h, rfl⟩
  initial := ⟨[], List.nil_prefix, (List.append_nil _).symm⟩
  whole _ := (List.append_nil _).symm

theorem Delivers.trans {n₁ : Node} {ds' : List (List UInt8)} (h : Delivers n n₁ ds)
    (h' : Delivers n₁ n' ds') : Delivers n n' (ds ++ ds') where
  closed hn := by
    obtain ⟨hclosed, heq⟩ := h.closed hn
    obtain ⟨hclosed', heq'⟩ := h'.closed hclosed
    exact ⟨hclosed', heq'.trans heq⟩
  initial := by
    cases ho : n₁.isOpen with
    | true =>
      obtain ⟨ds₁, hpre, heq⟩ := h'.initial
      refine ⟨ds ++ ds₁, (List.prefix_append_right_inj ds).mpr hpre, ?_⟩
      rw [heq, h.whole ho, List.append_assoc]
    | false =>
      obtain ⟨ds₁, hpre, heq⟩ := h.initial
      exact ⟨ds₁, hpre.trans (List.prefix_append ds ds'), (h'.closed ho).2.trans heq⟩
  whole ho := by
    have ho₁ : n₁.isOpen = true := by
      by_contra hclosed
      rw [(h'.closed (Bool.eq_false_of_not_eq_true hclosed)).1] at ho
      cases ho
    rw [h'.whole ho, h.whole ho₁, List.append_assoc]

theorem csmSdu_delivers {d : List UInt8} (h : csmSdu c n d = .ok n') :
    Delivers n n' [d] ∧ n'.fcrb.pRxSdu = n.fcrb.pRxSdu := by
  unfold csmSdu at h
  split at h
  case isTrue ho =>
    obtain ⟨hdelivered, hsdu⟩ := callOut_sameRxSdu c h
    refine ⟨⟨fun hclosed => ?_, ⟨[d], List.prefix_rfl, hdelivered⟩, fun _ => hdelivered⟩, hsdu⟩
    rw [ho] at hclosed
    cases hclosed
  case isFalse hclosed =>
    cases h
    exact ⟨⟨fun hn => ⟨hn, rfl⟩, ⟨[], List.nil_prefix, (List.append_nil _).symm⟩,
      fun ho => absurd ho hclosed⟩, rfl⟩

theorem passOn_delivers {ok : Bool} (h : passOn c n d = .ok (n', ok)) :
    ok = true ∧ Delivers n n' d.toList ∧ n'.fcrb.pRxSdu = n.fcrb.pRxSdu ∧ (d = none → n' = n) := by
  cases d with
  | none =>
    cases h
    exact ⟨rfl, .refl n, rfl, fun _ => rfl⟩
  | some d =>
    obtain ⟨n₁, hn₁, hpure⟩ := bind_eq_ok h
    cases hpure
    obtain ⟨hdelivers, hsdu⟩ := csmSdu_delivers c hn₁
    exact ⟨rfl, hdelivers, hsdu, nofun⟩

/-! ### Every sequence of frames -/

/-- The segment in a received buffer with its control word. -/
def rxSeg (p : BtHdr × ℕ) : Seg := ⟨sarOf p.2, p.1.bytes⟩

theorem sarStep_delivers {s : Seg} {d : List UInt8} (h : sarStep mtu rx s = some (rx', some d)) :
    rx' = none := by
  unfold sarStep at h
  split at h
  · cases h
    rfl
  · split at h
    · cases h
    · split at h
      · cases h
      · cases (collect_part.mp h).2.2
  · cases (collect_part.mp h).2.2
  · exact (collect_last.mp h).2.1
  · cases h

/-- A frame is accepted just if `sarStep` accepts it, and with the same result. -/
theorem doSarReassembly_iff (hn : RxOk n) {p : BtHdr × ℕ} (hb : RxBuf p.1) {ok : Bool}
    (h : doSarReassembly c n p.1 p.2 = .ok (n', ok)) :
    (ok = false ∧ sarStep c.maxRxMtu n.core.rx (rxSeg p) = none) ∨
      (ok = true ∧ RxOk n' ∧ ∃ d, sarStep c.maxRxMtu n.core.rx (rxSeg p) = some (n'.core.rx, d) ∧
        Delivers n n' d.toList) := by
  have houtcome := doSarReassembly_outcome c hn hb p.2
  rw [← rxSeg] at houtcome
  cases hstep : sarStep c.maxRxMtu n.core.rx (rxSeg p) with
  | none =>
    rw [hstep] at houtcome
    obtain ⟨len, sdu, -, heq⟩ := houtcome
    rw [heq] at h
    cases h
    exact .inl ⟨rfl, rfl⟩
  | some r =>
    obtain ⟨rx, d⟩ := r
    rw [hstep] at houtcome
    obtain ⟨len, sdu, hrxOk, hrx, heq⟩ := houtcome
    rw [heq] at h
    obtain ⟨hok, hdelivers, hsame, hkeep⟩ := passOn_delivers c h
    have hdelivers : Delivers n n' d.toList :=
      ⟨hdelivers.closed, hdelivers.initial, hdelivers.whole⟩
    cases d with
    | none =>
      rw [hkeep rfl] at hdelivers ⊢
      exact .inr ⟨hok, hrxOk, none, by rw [hrx], hdelivers⟩
    | some d =>
      -- the SDU is complete, so nothing is being received
      have hnone : rx = none := sarStep_delivers hstep
      have hsdu : n'.fcrb.pRxSdu = none := by
        rw [hsame]
        exact Option.map_eq_none_iff.mp (hrx.trans hnone)
      have hrx' : n'.core.rx = rx := by
        rw [hnone, Node.core, hsdu]
        rfl
      refine .inr ⟨hok, ?_, some d, by rw [hrx'], hdelivers⟩
      intro b hb'
      rw [hsdu] at hb'
      cases hb'

theorem reassemble_iff {frames : List (BtHdr × ℕ)} (hn : RxOk n)
    (hframes : ∀ p ∈ frames, RxBuf p.1) {ok : Bool} (h : reassemble c n frames = .ok (n', ok)) :
    (ok = false ∧ sarRun c.maxRxMtu n.core.rx (frames.map rxSeg) = none) ∨
      (ok = true ∧ RxOk n' ∧
        ∃ ds, sarRun c.maxRxMtu n.core.rx (frames.map rxSeg) = some (n'.core.rx, ds) ∧
          Delivers n n' ds) := by
  induction frames generalizing n with
  | nil =>
    cases h
    exact .inr ⟨rfl, hn, [], rfl, .refl _⟩
  | cons p frames ih =>
    obtain ⟨⟨n₁, ok₁⟩, hfirst, h⟩ := bind_eq_ok h
    rw [List.map_cons, sarRun]
    obtain ⟨rfl, hstep⟩ | ⟨rfl, hn₁, d, hstep, hdelivers⟩ :=
      doSarReassembly_iff c hn (hframes p List.mem_cons_self) hfirst
    · cases h
      rw [hstep]
      exact .inl ⟨rfl, rfl⟩
    · obtain ⟨rfl, hrun⟩ | ⟨rfl, hn', ds, hrun, hdelivers'⟩ :=
        ih hn₁ (fun q hq => hframes q (List.mem_cons_of_mem p hq)) h
      · rw [hstep]
        refine .inl ⟨rfl, ?_⟩
        simp only [Option.bind_eq_bind, Option.bind_some, hrun, Option.bind_none]
      · refine .inr ⟨rfl, hn', d.toList ++ ds, ?_, hdelivers.trans hdelivers'⟩
        simp only [hstep, Option.bind_eq_bind, Option.bind_some, hrun, Option.pure_def]

theorem csmSdu_returns (h : n.env = []) (d : List UInt8) :
    ∃ n', csmSdu c n d = .ok n' ∧ n'.env = [] := by
  unfold csmSdu
  split
  · refine ⟨{ n with delivered := n.delivered ++ [d] }, ?_, h⟩
    simp only [callOut, h]
  · exact ⟨n, rfl, h⟩

theorem passOn_returns (h : n.env = []) (d : Option (List UInt8)) :
    ∃ n', passOn c n d = .ok (n', true) ∧ n'.env = [] := by
  cases d with
  | none => exact ⟨n, rfl, h⟩
  | some d =>
    obtain ⟨n', hn', henv⟩ := csmSdu_returns c h d
    refine ⟨n', ?_, henv⟩
    rw [passOn, hn']
    rfl

theorem reassemble_returns {frames : List (BtHdr × ℕ)} (hn : RxOk n) (henv : n.env = [])
    (hframes : ∀ p ∈ frames, RxBuf p.1) : ∃ r, reassemble c n frames = .ok r := by
  induction frames generalizing n with
  | nil => exact ⟨_, rfl⟩
  | cons p frames ih =>
    have hp := hframes p List.mem_cons_self
    have hrest := fun q hq => hframes q (List.mem_cons_of_mem p hq)
    have houtcome := doSarReassembly_outcome c hn hp p.2
    cases hstep : sarStep c.maxRxMtu n.core.rx ⟨sarOf p.2, p.1.bytes⟩ with
    | none =>
      rw [hstep] at houtcome
      obtain ⟨len, sdu, -, heq⟩ := houtcome
      refine ⟨(n.setRx len sdu, false), ?_⟩
      rw [reassemble, heq]
      rfl
    | some r =>
      rw [hstep] at houtcome
      obtain ⟨len, sdu, -, -, heq⟩ := houtcome
      obtain ⟨n₁, hn₁, henv₁⟩ := passOn_returns c (n := n.setRx len sdu) henv r.2
      have hfirst := heq.trans hn₁
      obtain ⟨hfalse, -⟩ | ⟨-, hrx, -⟩ := doSarReassembly_iff c hn hp hfirst
      · cases hfalse
      · rw [reassemble, hfirst]
        exact ih hrx henv₁ hrest

/-- With no SDU half received, `do_sar_reassembly` accepts a sequence of frames just if it is in
order. The SDU it is then at is the one that is not complete, within the MTU, and it has delivered
the others, as long as the channel was open. Only what the upper layer does with an SDU can fail. -/
theorem sar_reassembly_safe {n : Node} (hnone : n.fcrb.pRxSdu = none) {frames : List (BtHdr × ℕ)}
    (hframes : ∀ p ∈ frames, RxBuf p.1) :
    (n.env = [] → ∃ r, reassemble c n frames = .ok r) ∧
      ∀ n' ok, reassemble c n frames = .ok (n', ok) →
        (ok = true ↔ ∃ rx ds, InOrder c.maxRxMtu (frames.map rxSeg) rx ds) ∧
        (ok = true →
          (∀ sdu, n'.fcrb.pRxSdu = some sdu →
            sdu.len ≤ n'.fcrb.rxSduLen ∧ n'.fcrb.rxSduLen ≤ c.maxRxMtu ∧
              RxSduOk n'.fcrb.rxSduLen sdu) ∧
          ∃ ds, InOrder c.maxRxMtu (frames.map rxSeg)
              (n'.fcrb.pRxSdu.map fun sdu => (n'.fcrb.rxSduLen, sdu.bytes)) ds ∧
            Delivers n n' ds) := by
  have hcore : n.core.rx = none := by simp only [Node.core, hnone, Option.map_none]
  have hn : RxOk n := fun b hb => by
    rw [hnone] at hb
    cases hb
  refine ⟨fun henv => reassemble_returns c hn henv hframes, fun n' ok h => ?_⟩
  obtain ⟨rfl, hrun⟩ | ⟨rfl, hn', ds, hrun, hdelivers⟩ := reassemble_iff c hn hframes h
  · refine ⟨iff_of_false Bool.false_ne_true ?_, fun hok => by cases hok⟩
    rintro ⟨rx, ds, horder⟩
    rw [hcore, sarRun_iff.mpr horder] at hrun
    cases hrun
  · rw [hcore, sarRun_iff] at hrun
    refine ⟨iff_of_true rfl ⟨_, _, hrun⟩, fun _ => ⟨fun sdu hsdu => ?_, ds, hrun, hdelivers⟩⟩
    have hok := hn' sdu hsdu
    refine ⟨hok.len, ?_, hok⟩
    have hrx : n'.core.rx = some (n'.fcrb.rxSduLen, sdu.bytes) := by
      simp only [Node.core, hsdu, Option.map_some]
    rw [hrx] at hrun
    exact hrun.le_mtu

/-- A START frame that announces three bytes and has one, and the END frame with the others. -/
def threeInTwo : List (BtHdr × ℕ) :=
  [({ len := 3, offset := 10, data := List.replicate 10 0 ++ [3, 0, 7] }, 0x4000),
    ({ len := 2, offset := 10, data := List.replicate 10 0 ++ [8, 9] }, 0x8000)]

theorem sar_reassembly_safe_three_in_two :
    (Node.init.env = [] → ∃ r, reassemble ChanCfg.default Node.init threeInTwo = .ok r) ∧
      ∀ n' ok, reassemble ChanCfg.default Node.init threeInTwo = .ok (n', ok) →
        (ok = true ↔ ∃ rx ds, InOrder ChanCfg.default.maxRxMtu (threeInTwo.map rxSeg) rx ds) ∧
        (ok = true →
          (∀ sdu, n'.fcrb.pRxSdu = some sdu →
            sdu.len ≤ n'.fcrb.rxSduLen ∧ n'.fcrb.rxSduLen ≤ ChanCfg.default.maxRxMtu ∧
              RxSduOk n'.fcrb.rxSduLen sdu) ∧
          ∃ ds, InOrder ChanCfg.default.maxRxMtu (threeInTwo.map rxSeg)
              (n'.fcrb.pRxSdu.map fun sdu => (n'.fcrb.rxSduLen, sdu.bytes)) ds ∧
            Delivers Node.init n' ds) := by
  refine sar_reassembly_safe ChanCfg.default rfl ?_
  intro p hp
  rcases List.mem_pair.mp hp with rfl | rfl
  · exact ⟨by decide, by decide, by decide⟩
  · exact ⟨by decide, by decide, by decide⟩

end BluetoothStack.L2cap
