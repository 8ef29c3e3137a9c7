import BluetoothStack.L2cap.ErtmSrej

/-!
# BluetoothStack.L2cap.ErtmStream

Segmentation followed by reassembly gives back the SDUs.

The sender cuts SDUs into segments one at a time, and may be asked for more SDUs or be
left in the middle of one at any moment. `Stream` relates all segments cut so far, the
SDUs not yet cut and all SDUs written: reassembling the segments in order gives the SDUs
already cut and the part of the SDU being cut, and what is on the hold queue completes
it. A receiver that has accepted a part of the segments, from the first on, has delivered
a part of the SDUs written, from the first on (`Stream.delivered_initial`).
-/

namespace BluetoothStack.L2cap

open BluetoothStack.Lib

/-- An MTU that no announced SDU length exceeds. -/
abbrev maxMtu : Nat := 65535

variable {mtu : Nat} {rx rx₁ rx₂ : Option (Nat × List UInt8)} {segs : List Seg}
  {ds : List (List UInt8)} {hold : List (Bool × List UInt8)} {d : List UInt8} {sent : List Seg}
  {written : List (List UInt8)}

/-- A segment accepted under an MTU is accepted without one. -/
theorem sarStep_maxMtu {s : Seg} {r : Option (Nat × List UInt8) × Option (List UInt8)}
    (h : sarStep mtu rx s = some r) : sarStep maxMtu rx s = some r := by
  obtain ⟨sar, info⟩ := s
  have hlen : ¬ maxMtu < rd16 info 0 := not_lt.mpr (Nat.le_of_lt_succ (rd16_lt info 0))
  cases sar <;> cases rx <;> simp only [sarStep] at h ⊢ <;> try exact h
  -- only the first segment of an SDU is compared with the MTU
  split at h
  · cases h
  · next hshort =>
    split at h
    · cases h
    · rw [if_neg hshort, if_neg hlen]
      exact h

theorem sarRun_append {segs' : List Seg} {ds' : List (List UInt8)}
    (h : sarRun mtu rx segs = some (rx₁, ds)) (h' : sarRun mtu rx₁ segs' = some (rx₂, ds')) :
    sarRun mtu rx (segs ++ segs') = some (rx₂, ds ++ ds') := by
  induction segs generalizing rx ds with
  | nil => cases h; exact h'
  | cons s segs ih =>
    simp only [sarRun, Option.bind_eq_bind, Option.bind_eq_some_iff, Option.pure_def,
      Option.some.injEq, Prod.mk.injEq] at h
    obtain ⟨⟨rx', d⟩, hstep, ⟨rx'', ds₁⟩, hrun, rfl, rfl⟩ := h
    rw [List.append_assoc]
    exact sarRun_cons hstep (ih hrun)

theorem sarRun_concat {s : Seg} {d : Option (List UInt8)}
    (h : sarRun mtu rx segs = some (rx₁, ds)) (hs : sarStep mtu rx₁ s = some (rx₂, d)) :
    sarRun mtu rx (segs ++ [s]) = some (rx₂, ds ++ d.toList) := by
  refine sarRun_append h ?_
  rw [sarRun_cons hs rfl, List.append_nil]

/-- Reassembly of an initial part of the segments delivers an initial part of the SDUs. -/
theorem sarRun_initial {segs' : List Seg} {ds' : List (List UInt8)}
    (h : sarRun mtu rx segs = some (rx₁, ds))
    (h' : sarRun mtu rx (segs ++ segs') = some (rx₂, ds')) : ds <+: ds' := by
  induction segs generalizing rx ds ds' with
  | nil => cases h; exact List.nil_prefix
  | cons s segs ih =>
    simp only [List.cons_append, sarRun, Option.bind_eq_bind, Option.bind_eq_some_iff,
      Option.pure_def, Option.some.injEq, Prod.mk.injEq] at h h'
    obtain ⟨⟨rx', d⟩, hstep, ⟨rx'', ds₁⟩, hrun, rfl, rfl⟩ := h
    obtain ⟨⟨rx', d⟩, hstep', ⟨rx'', ds₂⟩, hrun', rfl, rfl⟩ := h'
    rw [hstep] at hstep'
    cases hstep'
    exact List.prefix_append_right_inj _ |>.mpr (ih hrun hrun')

/-- SDUs on the hold queue that have not been cut into. -/
def Uncut (hold : List (Bool × List UInt8)) : Prop :=
  ∀ p ∈ hold, p.1 = false ∧ p.2.length < 65536

/-- What is on the hold queue, given the SDU that the segments cut so far leave incomplete; and
the SDUs that will be completed from it. -/
inductive Cutting : Option (Nat × List UInt8) → List (Bool × List UInt8) → List (List UInt8) → Prop
  | whole {hold : List (Bool × List UInt8)} (h : Uncut hold) :
      Cutting none hold (hold.map Prod.snd)
  | inside (acc d : List UInt8) {hold : List (Bool × List UInt8)} (h : Uncut hold) :
      Cutting (some (acc.length + d.length, acc)) ((true, d) :: hold)
        ((acc ++ d) :: hold.map Prod.snd)

/-- The segments cut so far, the hold queue and the SDUs written belong together. -/
def Stream (sent : List Seg) (hold : List (Bool × List UInt8)) (written : List (List UInt8)) :
    Prop :=
  ∃ rx ds left, sarRun maxMtu none sent = some (rx, ds) ∧ Cutting rx hold left ∧
    written = ds ++ left

theorem Uncut.concat (h : Uncut hold) (hd : d.length < 65536) : Uncut (hold ++ [(false, d)]) := by
  intro p hp
  rcases List.mem_append.mp hp with hp | hp
  · exact h p hp
  · rw [List.mem_singleton] at hp
    rw [hp]
    exact ⟨rfl, hd⟩

theorem Cutting.write {left : List (List UInt8)} (h : Cutting rx hold left)
    (hd : d.length < 65536) : Cutting rx (hold ++ [(false, d)]) (left ++ [d]) := by
  cases h with
  | whole hu =>
    have hnew := Cutting.whole (hu.concat hd)
    rwa [List.map_append] at hnew
  | inside acc e hu =>
    have hnew := Cutting.inside acc e (hu.concat hd)
    rwa [List.map_append] at hnew

theorem Stream.write (h : Stream sent hold written) (hd : d.length < 65536) :
    Stream sent (hold ++ [(false, d)]) (written ++ [d]) := by
  obtain ⟨rx, ds, left, hrun, hcut, rfl⟩ := h
  exact ⟨rx, ds, left ++ [d], hrun, hcut.write hd, List.append_assoc _ _ _⟩

/-- Reassembly of the first segment of an SDU: it announces the length, or is the whole SDU. -/
theorem sarStep_cutSeg_first (mtu mps : Nat) (hd : d.length < 65536) (hmtu : d.length ≤ mtu) :
    sarStep mtu none (cutSeg mps false d).1 =
      some (if mps < d.length then (some (d.length, d.take (mps - 2)), none)
        else (none, some d)) := by
  by_cases hlong : mps < d.length
  · have hlen : ¬ d.length < min (mps - 2) d.length := by omega
    have hinfo : (le16 d.length ++ d.take (mps - 2)).drop 2 = d.take (mps - 2) := rfl
    have htwo : 1 < 2 + min (mps - 2) d.length := by omega
    simp [cutSeg, hlong, sarStep, collect, rd16_le16_append hd, not_lt.mpr hmtu, hlen, hinfo, htwo]
  · simp [cutSeg, hlong, sarStep]

/-- Reassembly of a later segment, with `acc` received before. -/
theorem sarStep_cutSeg_next (mtu mps : Nat) (acc d : List UInt8) :
    sarStep mtu (some (acc.length + d.length, acc)) (cutSeg mps true d).1 =
      some (if mps < d.length then (some (acc.length + d.length, acc ++ d.take mps), none)
        else (none, some (acc ++ d))) := by
  by_cases hlong : mps < d.length
  · have hlen : ¬ acc.length + d.length < acc.length + min mps d.length := by omega
    simp [cutSeg, hlong, sarStep, collect, hlen]
  · simp [cutSeg, hlong, sarStep, collect]

/-- What is taken of an SDU and what is left have its length together. -/
theorem length_take_add_length_drop (k : Nat) (d : List UInt8) :
    (d.take k).length + (d.drop k).length = d.length := by
  rw [← List.length_append, List.take_append_drop]

/-- The next segment, and what it completes: `left` splits accordingly. -/
theorem Cutting.cut (mps : Nat) {started : Bool} {rest : List (Bool × List UInt8)}
    {left : List (List UInt8)} (h : Cutting rx ((started, d) :: rest) left) :
    ∃ rx' out left', sarStep maxMtu rx (cutSeg mps started d).1 = some (rx', out) ∧
      Cutting rx' (((cutSeg mps started d).2.map (Prod.mk true)).toList ++ rest) left' ∧
      left = out.toList ++ left' := by
  cases h with
  | whole hu =>
    obtain ⟨rfl, hd⟩ : started = false ∧ d.length < 65536 := hu _ List.mem_cons_self
    have hrest : Uncut rest := fun p hp => hu p (List.mem_cons_of_mem _ hp)
    have hstep := sarStep_cutSeg_first maxMtu mps hd (Nat.le_of_lt_succ hd)
    by_cases hlong : mps < d.length
    · rw [if_pos hlong] at hstep
      refine ⟨_, none, d :: rest.map Prod.snd, hstep, ?_, rfl⟩
      have hcut := Cutting.inside (d.take (mps - 2)) (d.drop (mps - 2)) hrest
      rw [List.take_append_drop, length_take_add_length_drop] at hcut
      simpa [cutSeg, hlong] using hcut
    · rw [if_neg hlong] at hstep
      refine ⟨_, some d, rest.map Prod.snd, hstep, ?_, rfl⟩
      simpa [cutSeg, hlong] using Cutting.whole hrest
  | inside acc _ hu =>
    have hstep := sarStep_cutSeg_next maxMtu mps acc d
    by_cases hlong : mps < d.length
    · rw [if_pos hlong] at hstep
      refine ⟨_, none, (acc ++ d) :: rest.map Prod.snd, hstep, ?_, rfl⟩
      have hcut := Cutting.inside (acc ++ d.take mps) (d.drop mps) hu
      rw [List.append_assoc, List.take_append_drop, List.length_append, Nat.add_assoc,
        length_take_add_length_drop] at hcut
      simpa [cutSeg, hlong] using hcut
    · rw [if_neg hlong] at hstep
      refine ⟨_, some (acc ++ d), rest.map Prod.snd, hstep, ?_, rfl⟩
      simpa [cutSeg, hlong] using Cutting.whole hu

theorem Stream.cut (mps : Nat) {started : Bool} {rest : List (Bool × List UInt8)}
    (h : Stream sent ((started, d) :: rest) written) : Stream (sent ++ [(cutSeg mps started d).1])
      (((cutSeg mps started d).2.map (Prod.mk true)).toList ++ rest) written := by
  obtain ⟨rx, ds, left, hrun, hcut, rfl⟩ := h
  obtain ⟨rx', out, left', hstep, hcut', rfl⟩ := hcut.cut mps
  exact ⟨rx', ds ++ out.toList, left', sarRun_concat hrun hstep, hcut',
    (List.append_assoc _ _ _).symm⟩

/-- Whoever has accepted an initial part of the segments has delivered an initial part of the
SDUs written. -/
theorem Stream.delivered_initial (h : Stream sent hold written) {m : Nat}
    {delivered : List (List UInt8)}
    (hrx : sarRun maxMtu none (sent.take m) = some (rx, delivered)) : delivered <+: written := by
  obtain ⟨rx', ds, left, hrun, -, rfl⟩ := h
  rw [← List.take_append_drop m sent] at hrun
  exact (sarRun_initial hrx hrun).trans (List.prefix_append ds left)

end BluetoothStack.L2cap
