import BluetoothStack.Ag.AtParser

/-!
# BluetoothStack.Ag.AtFraming

How `bta_ag_at_parse` cuts a byte stream into command lines.

`lineRun` is the parser without its buffer: it keeps the bytes of the line under way, in
the manner of `fill`. `parseAll_spec` says that any sequence of RFCOMM buffers has the
effect of `lineRun` on the bytes in them, so the split into buffers does not matter. What
the parser holds at a line terminator is then `lastPiece` of the line: the line itself if
it fits, and otherwise the last of the pieces it was cut into, which is processed as if
it were a line of its own.
-/

namespace BluetoothStack.Ag

open BluetoothStack.Lib

/-! ### Lines -/

/-- The line terminators. -/
def isLineEnd (x : UInt8) : Bool := x == 13 || x == 10 || x == 0x1A || x == 0x1B

/-- A null character. -/
def isNul (x : UInt8) : Bool := x == 0

/-- The line under way after `pre`, without the nulls in front. -/
def currentLine (pre : List UInt8) : List UInt8 := (lastRun isLineEnd pre).dropWhile isNul

/-- The calls at the end of a line. -/
def endCalls (line : List UInt8) (x : UInt8) : List Call :=
  if x = 13 ∨ x = 10 then if isAtLine line then [.processAt line] else []
  else [.errCback (line ++ [x])]

/-- One byte, with `n` bytes of room. -/
def lineStep (n : Nat) (acc : List UInt8) (x : UInt8) : List UInt8 × List Call :=
  if isLineEnd x then ([], endCalls (emptied n acc) x) else (fill isNul n acc x, [])

/-- A sequence of bytes. -/
def lineRun (n : Nat) (acc : List UInt8) : List UInt8 → List UInt8 × List Call
  | [] => (acc, [])
  | x :: p =>
    ((lineRun n (lineStep n acc x).1 p).1,
      (lineStep n acc x).2 ++ (lineRun n (lineStep n acc x).1 p).2)

theorem lineRun_append (n : Nat) (acc p q : List UInt8) :
    lineRun n acc (p ++ q) =
      ((lineRun n (lineRun n acc p).1 q).1,
        (lineRun n acc p).2 ++ (lineRun n (lineRun n acc p).1 q).2) := by
  induction p generalizing acc with
  | nil => rfl
  | cons x p ih => simp only [List.cons_append, lineRun, ih, List.append_assoc]

variable {acc : List UInt8} {m : Nat} {b : CmdBuf} {cfg : Cfg}

/-- A full buffer is as good as an empty one for what comes next. -/
theorem lineRun_full {n : Nat} (h : n ≤ acc.length) {p : List UInt8} (hp : p ≠ []) :
    lineRun n acc p = lineRun n [] p := by
  cases p with
  | nil => exact absurd rfl hp
  | cons x p =>
    have hacc : emptied n acc = emptied n [] := by
      rw [emptied, if_pos h, emptied, ite_self]
    have hstep : lineStep n acc x = lineStep n [] x := by
      rw [lineStep, lineStep, hacc, fill_full h]
    rw [lineRun, hstep, lineRun]

/-- What is collected of the line under way. -/
theorem lineRun_fst (n : Nat) (pre : List UInt8) :
    (lineRun n [] pre).1 = (lastRun isLineEnd pre).foldl (fill isNul n) [] := by
  induction pre using List.reverseRecOn with
  | nil => rfl
  | append_singleton pre x ih =>
    rw [lineRun_append]
    change (lineStep n (lineRun n [] pre).1 x).1 = _
    by_cases hx : isLineEnd x = true
    · rw [lineStep, if_pos hx, lastRun_concat_end hx]
      rfl
    · rw [lineStep, if_neg hx, lastRun_concat (Bool.eq_false_iff.mpr hx), List.foldl_append, ← ih]
      rfl

/-! ### The command buffer -/

/-- The command buffer holds `acc`. -/
structure Holds (cmdMaxLen : Nat) (b : CmdBuf) (acc : List UInt8) : Prop where
  length : b.buf.length = cmdMaxLen
  pos : b.cmdPos = acc.length
  content : b.buf.take b.cmdPos = acc
  bound : acc.length ≤ cmdMaxLen - 1

theorem Holds.reset (h : Holds m b acc) : Holds m { b with cmdPos := 0 } [] :=
  ⟨h.length, rfl, rfl, Nat.zero_le _⟩

theorem take_set_succ {l : List UInt8} {i : Nat} (h : i < l.length) (x : UInt8) :
    (l.set i x).take (i + 1) = l.take i ++ [x] := by
  rw [List.take_succ_eq_append_getElem (by simpa using h), List.take_set_of_le le_rfl,
    List.getElem_set_self]

theorem takeByte_spec (h : Holds m b acc) (hroom : acc.length < m - 1) (x : UInt8) :
    Holds m (takeByte b x).1 (lineStep (m - 1) acc x).1 ∧
      (takeByte b x).2 = (lineStep (m - 1) acc x).2 := by
  obtain ⟨hlen, hpos, hcont, -⟩ := h
  have hacc : emptied (m - 1) acc = acc := if_neg (by omega)
  have hset : ∀ y, (b.buf.set b.cmdPos y).take b.cmdPos = acc := by
    intro y
    rw [List.take_set_of_le le_rfl, hcont]
  have hsucc : ∀ y, (b.buf.set b.cmdPos y).take (b.cmdPos + 1) = acc ++ [y] := by
    intro y
    rw [take_set_succ (by omega), hcont]
  unfold takeByte
  by_cases hnul : b.cmdPos = 0 ∧ x = 0
  · obtain ⟨h0, rfl⟩ := hnul
    have hnil : acc = [] := List.length_eq_zero_iff.mp (hpos ▸ h0)
    subst hnil
    have hstep : lineStep (m - 1) [] 0 = ([], []) := by
      rw [lineStep, if_neg (by decide), fill, hacc]
      rfl
    rw [if_pos ⟨h0, rfl⟩, hstep]
    exact ⟨⟨hlen, hpos, hcont, Nat.zero_le _⟩, rfl⟩
  · rw [if_neg hnul]
    dsimp only
    by_cases hcr : x = 13 ∨ x = 10
    · have hend : isLineEnd x = true := by
        rcases hcr with rfl | rfl <;> decide
      rw [if_pos hcr, lineStep, if_pos hend, hacc, endCalls, if_pos hcr, List.set_set, hset]
      exact ⟨⟨by rw [List.length_set]; exact hlen, rfl, rfl, Nat.zero_le _⟩, rfl⟩
    · rw [if_neg hcr]
      -- Ctrl-Z and ESC end the line too, and stay in it
      by_cases hsub : x = 0x1A ∨ x = 0x1B
      · have hend : isLineEnd x = true := by
          rcases hsub with rfl | rfl <;> decide
        rw [if_pos hsub, lineStep, if_pos hend, hacc, endCalls, if_neg hcr,
          List.take_set_of_le le_rfl, hsucc]
        exact ⟨⟨by rw [List.length_set, List.length_set]; exact hlen, rfl, rfl, Nat.zero_le _⟩, rfl⟩
      · have hend : ¬ isLineEnd x = true := by
          simp only [isLineEnd, Bool.or_eq_true, beq_iff_eq]
          tauto
        have hfill : fill isNul (m - 1) acc x = acc ++ [x] := by
          rw [fill, hacc, if_neg]
          intro hblank
          simp only [isNul, Bool.and_eq_true, List.isEmpty_iff, beq_iff_eq] at hblank
          exact hnul ⟨by rw [hpos, hblank.1]; rfl, hblank.2⟩
        rw [if_neg hsub, lineStep, if_neg hend, hfill]
        refine ⟨⟨by rw [List.length_set]; exact hlen, ?_, hsucc x, ?_⟩, rfl⟩
        · rw [List.length_append, hpos]
          rfl
        · rw [List.length_append, List.length_singleton]
          omega

/-- The inner loop stops at the end of the input or with a full buffer. -/
theorem innerLoop_spec (p : List UInt8) (h : Holds m b acc) : ∃ used b' rest, p = used ++ rest ∧
      innerLoop m b p = (b', rest, (lineRun (m - 1) acc used).2) ∧
      Holds m b' (lineRun (m - 1) acc used).1 ∧
      (rest ≠ [] → m - 1 ≤ (lineRun (m - 1) acc used).1.length) ∧
      (acc.length < m - 1 → p ≠ [] → used ≠ []) := by
  induction p generalizing b acc with
  | nil =>
    refine ⟨[], b, [], rfl, rfl, h, ?_, ?_⟩
    · intro hne
      exact absurd rfl hne
    · intro _ hne
      exact absurd rfl hne
  | cons x p ih =>
    have hpos := h.pos
    by_cases hroom : acc.length < m - 1
    · obtain ⟨hstep, hcalls⟩ := takeByte_spec h hroom x
      obtain ⟨used, b', rest, hsplit, hloop, hholds, hfull, -⟩ := ih hstep
      refine ⟨x :: used, b', rest, by rw [hsplit]; rfl, ?_, hholds, hfull, ?_⟩
      · rw [innerLoop, if_pos (by omega)]
        dsimp only
        rw [hloop, hcalls]
        rfl
      · intro _ _ hnil
        cases hnil
    · refine ⟨[], b, x :: p, rfl, ?_, h, ?_, ?_⟩
      · rw [innerLoop, if_neg (by omega)]
        rfl
      · intro _
        change m - 1 ≤ acc.length
        omega
      · intro hlt
        exact absurd hlt hroom

/-- The outer loop uses up its input, and does to it what `lineRun` does. -/
theorem outerLoop_spec (hm : 2 ≤ m) (k : Nat) {p : List UInt8} (h : Holds m b acc)
    (hk : p.length < k ∨ (p.length ≤ k ∧ acc.length < m - 1)) :
    ∃ b', outerLoop m k b p = some (b', (lineRun (m - 1) acc p).2) ∧
      Holds m b' (lineRun (m - 1) acc p).1 := by
  induction k generalizing p b acc with
  | zero =>
    have hnil : p = [] := List.length_eq_zero_iff.mp (by omega)
    subst hnil
    exact ⟨b, rfl, h⟩
  | succ k ih =>
    cases p with
    | nil => exact ⟨b, rfl, h⟩
    | cons x p =>
      obtain ⟨used, b₁, rest, hsplit, hloop, hholds, hfull, hused⟩ := innerLoop_spec (x :: p) h
      have hlen := congrArg List.length hsplit
      rw [List.length_append] at hlen
      rw [outerLoop, hloop, hsplit, lineRun_append]
      dsimp only
      by_cases hrest : rest = []
      · subst hrest
        simp only [List.isEmpty_nil, if_true]
        refine ⟨b₁, ?_, hholds⟩
        cases k <;> rfl
      · have hne : rest.isEmpty = false := List.isEmpty_eq_false_iff.mpr hrest
        -- the inner loop takes a byte unless it starts with a full buffer
        have hfuel : rest.length ≤ k := by
          rcases hk with hk | ⟨hk, hroom⟩
          · omega
          · have hpos := List.length_pos_iff.mpr (hused hroom (List.cons_ne_nil x p))
            omega
        obtain ⟨b₂, hrun, hholds₂⟩ :=
          ih hholds.reset (p := rest) (Or.inr ⟨hfuel, by rw [List.length_nil]; omega⟩)
        simp only [hne, Bool.false_eq_true, if_false]
        rw [lineRun_full (hfull hrest) hrest, hrun]
        exact ⟨b₂, rfl, hholds₂⟩

/-- The control block holds `acc`; without a command buffer it holds nothing. -/
def CbHolds (cmdMaxLen : Nat) (cb : AtCb) (acc : List UInt8) : Prop :=
  match cb.pCmdBuf with
  | none => acc = []
  | some buf => Holds cmdMaxLen { buf := buf, cmdPos := cb.cmdPos } acc

theorem btaAgAtParse_spec (hm : 2 ≤ cfg.cmdMaxLen) {cb : AtCb} (h : CbHolds cfg.cmdMaxLen cb acc)
    (p : List UInt8) :
    ∃ cb', btaAgAtParse cfg cb p = some (cb', (lineRun (cfg.cmdMaxLen - 1) acc p).2) ∧
      CbHolds cfg.cmdMaxLen cb' (lineRun (cfg.cmdMaxLen - 1) acc p).1 := by
  obtain ⟨pCmdBuf, cmdPos⟩ := cb
  cases pCmdBuf with
  | none =>
    have hnil : acc = [] := h
    subst hnil
    have hinit : Holds cfg.cmdMaxLen { buf := List.replicate cfg.cmdMaxLen 0, cmdPos := 0 } [] :=
      ⟨List.length_replicate, rfl, rfl, Nat.zero_le _⟩
    obtain ⟨b', hrun, hb'⟩ := outerLoop_spec hm (p.length + 1) hinit (p := p) (Or.inl (by omega))
    refine ⟨{ pCmdBuf := some b'.buf, cmdPos := b'.cmdPos }, ?_, hb'⟩
    simp only [btaAgAtParse, hrun]
    rfl
  | some buf =>
    obtain ⟨b', hrun, hb'⟩ := outerLoop_spec hm (p.length + 1) h (p := p) (Or.inl (by omega))
    refine ⟨{ pCmdBuf := some b'.buf, cmdPos := b'.cmdPos }, ?_, hb'⟩
    simp only [btaAgAtParse, hrun]
    rfl

theorem parseAll_spec (hm : 2 ≤ cfg.cmdMaxLen) (packets : List (List UInt8)) {cb : AtCb}
    (h : CbHolds cfg.cmdMaxLen cb acc) :
    ∃ cb', parseAll cfg cb packets =
      some (cb', (lineRun (cfg.cmdMaxLen - 1) acc packets.flatten).2) ∧
      CbHolds cfg.cmdMaxLen cb' (lineRun (cfg.cmdMaxLen - 1) acc packets.flatten).1 := by
  induction packets generalizing cb acc with
  | nil => exact ⟨cb, rfl, h⟩
  | cons p ps ih =>
    obtain ⟨cb₁, hp, h₁⟩ := btaAgAtParse_spec hm h p
    obtain ⟨cb₂, hps, h₂⟩ := ih h₁
    rw [List.flatten_cons, lineRun_append]
    refine ⟨cb₂, ?_, h₂⟩
    rw [parseAll, hp, Option.bind_eq_bind, Option.bind_some]
    dsimp only
    rw [hps]
    rfl

/-! ### The calls of a session -/

/-- The calls made for the byte `x` of a stream, after the bytes `pre`. -/
def callsAt (cfg : Cfg) (pre : List UInt8) (x : UInt8) : List Call :=
  (((parseAll cfg {} [pre]).bind fun r => btaAgAtParse cfg r.1 [x]).map Prod.snd).getD []

theorem callsAt_eq (hm : 2 ≤ cfg.cmdMaxLen) (pre : List UInt8) (x : UInt8) : callsAt cfg pre x =
      if isLineEnd x then endCalls (lastPiece isNul (cfg.cmdMaxLen - 1) (currentLine pre)) x
      else [] := by
  have hinit : CbHolds cfg.cmdMaxLen {} [] := rfl
  obtain ⟨cb, hpre, hcb⟩ := parseAll_spec hm [pre] hinit
  obtain ⟨cb', hx, -⟩ := btaAgAtParse_spec hm hcb [x]
  rw [callsAt, hpre, Option.bind_some, hx, Option.map_some, Option.getD_some,
    List.flatten_singleton]
  change (lineStep _ _ x).2 ++ [] = _
  rw [List.append_nil, lineRun_fst, lineStep, currentLine, ← emptied_foldl_fill (by omega)]
  split <;> rfl

/-- The line handed to `bta_ag_process_at` for the byte `x` after `pre` is the one that ends
there. -/
structure IsWholeLine (cmdMaxLen : Nat) (pre : List UInt8) (x : UInt8) (line : List UInt8) :
    Prop where
  ended : x = 13 ∨ x = 10
  whole : line = currentLine pre
  short : line.length < cmdMaxLen
  starts : isAtLine line = true

/-- Command framing for a session: the buffers do not matter, whole lines are processed, and no
part of a line that does not fit the command buffer. -/
structure FramesCommands (cfg : Cfg) (packets : List (List UInt8)) : Prop where
  returns : (dispatches cfg packets).isSome
  unsplit : dispatches cfg packets = dispatches cfg [packets.flatten]
  whole : ∀ pre x post, packets.flatten = pre ++ x :: post → ∀ line,
    .processAt line ∈ callsAt cfg pre x → IsWholeLine cfg.cmdMaxLen pre x line
  overlong : ∀ pre x post, packets.flatten = pre ++ x :: post →
    cfg.cmdMaxLen - 1 ≤ (currentLine pre).length → ∀ line, .processAt line ∉ callsAt cfg pre x

/-- A line is handed over exactly at a carriage return or line feed, if what is left of the line
under way is a command line. -/
theorem mem_callsAt_iff (hm : 2 ≤ cfg.cmdMaxLen) {pre : List UInt8} {x : UInt8}
    {line : List UInt8} : .processAt line ∈ callsAt cfg pre x ↔
      (x = 13 ∨ x = 10) ∧ line = lastPiece isNul (cfg.cmdMaxLen - 1) (currentLine pre) ∧
        isAtLine line = true := by
  rw [callsAt_eq hm]
  by_cases hcr : x = 13 ∨ x = 10
  · have hend : isLineEnd x = true := by
      rcases hcr with rfl | rfl <;> decide
    rw [if_pos hend, endCalls, if_pos hcr]
    split
    · next hat =>
      rw [List.mem_singleton, Call.processAt.injEq]
      constructor
      · rintro rfl
        exact ⟨hcr, rfl, hat⟩
      · intro h
        exact h.2.1
    · next hat =>
      constructor
      · intro h
        cases h
      · rintro ⟨-, rfl, h⟩
        exact absurd h hat
  · constructor
    · intro h
      split at h
      · rw [endCalls, if_neg hcr, List.mem_singleton] at h
        cases h
      · cases h
    · intro h
      exact absurd h.1 hcr

theorem lastPiece_of_short {n : Nat} {l : List UInt8} (h : l.length < n) :
    lastPiece isNul n l = l := by
  rw [lastPiece, if_pos (Or.inr h)]

theorem currentLine_length_le (pre : List UInt8) : (currentLine pre).length ≤ pre.length := by
  have hdrop := (List.dropWhile_sublist isNul (l := lastRun isLineEnd pre)).length_le
  have hrun : (lastRun isLineEnd pre).length ≤ pre.length := by
    have htake := (List.takeWhile_sublist (l := pre.reverse) fun x => !isLineEnd x).length_le
    rw [List.length_reverse] at htake
    rw [lastRun, List.length_reverse]
    exact htake
  exact hdrop.trans hrun

theorem dispatches_eq (hm : 2 ≤ cfg.cmdMaxLen) (packets : List (List UInt8)) :
    dispatches cfg packets =
      some ((lineRun (cfg.cmdMaxLen - 1) [] packets.flatten).2.map (Call.dispatch cfg.atTbl)) := by
  have hinit : CbHolds cfg.cmdMaxLen {} [] := rfl
  obtain ⟨cb, h, -⟩ := parseAll_spec hm packets hinit
  rw [dispatches, h, Option.map_some]

/-- Commands are framed as they should be exactly in the sessions where no line that does not fit
the command buffer ends in a piece that looks like a command line. -/
theorem bta_ag_at_framing_iff (cfg : Cfg) (hmax : 4 ≤ cfg.cmdMaxLen) (packets : List (List UInt8)) :
    FramesCommands cfg packets ↔
      ∀ pre x post, packets.flatten = pre ++ x :: post → (x = 13 ∨ x = 10) →
        cfg.cmdMaxLen - 1 ≤ (currentLine pre).length →
        isAtLine (lastPiece isNul (cfg.cmdMaxLen - 1) (currentLine pre)) = false := by
  have hm : 2 ≤ cfg.cmdMaxLen := by omega
  constructor
  · intro h pre x post hsplit hcr hlong
    by_contra hat
    rw [Bool.not_eq_false] at hat
    exact h.overlong pre x post hsplit hlong _ ((mem_callsAt_iff hm).mpr ⟨hcr, rfl, hat⟩)
  · intro hcond
    -- a line that is processed was not cut
    have hfits : ∀ pre x post, packets.flatten = pre ++ x :: post → ∀ line,
        .processAt line ∈ callsAt cfg pre x → (currentLine pre).length < cfg.cmdMaxLen - 1 := by
      intro pre x post hsplit line hmem
      obtain ⟨hcr, rfl, hat⟩ := (mem_callsAt_iff hm).mp hmem
      by_contra hlong
      rw [hcond pre x post hsplit hcr (not_lt.mp hlong)] at hat
      cases hat
    refine ⟨?_, ?_, ?_, ?_⟩
    · rw [dispatches_eq hm]
      rfl
    · rw [dispatches_eq hm, dispatches_eq hm, List.flatten_singleton]
    · intro pre x post hsplit line hmem
      have hshort := hfits pre x post hsplit line hmem
      obtain ⟨hcr, rfl, hat⟩ := (mem_callsAt_iff hm).mp hmem
      have hpiece := lastPiece_of_short hshort
      refine ⟨hcr, hpiece, ?_, hat⟩
      rw [hpiece]
      omega
    · intro pre x post hsplit hlong line hmem
      exact absurd (hfits pre x post hsplit line hmem) (not_lt.mpr hlong)

/-- A table with the command that answers a call, and room for five bytes. -/
def answerCfg : Cfg where
  atTbl := [{ pCmd := [65], commandId := 10, argType := 0x01, fmt := .str, min := 0, max := 0 }]
  cmdMaxLen := 6

/-- `ATA` in two buffers. -/
theorem bta_ag_at_framing_answer : FramesCommands answerCfg [[65, 84], [65, 13]] := by
  refine (bta_ag_at_framing_iff answerCfg (by decide) _).mpr ?_
  intro pre x post hsplit _ hlong
  -- no line is that long
  have hlen := congrArg List.length hsplit
  have hcur := currentLine_length_le pre
  simp only [List.flatten_cons, List.flatten_nil, List.append_nil, List.length_append,
    List.length_cons, List.length_nil, answerCfg] at hlen hlong
  omega

/-- The end of a line of eight bytes, processed as a command. -/
theorem overlong_line_executed :
    ¬ FramesCommands answerCfg [[43, 43, 43, 43, 43, 65, 84, 65, 13]] ∧
      dispatches answerCfg [[43, 43, 43, 43, 43, 65, 84, 65, 13]] = some [.cmd 10 .none [] 0] := by
  refine ⟨?_, by decide⟩
  intro h
  exact h.overlong [43, 43, 43, 43, 43, 65, 84, 65] 13 [] rfl (by decide) [65, 84, 65] (by decide)

end BluetoothStack.Ag
