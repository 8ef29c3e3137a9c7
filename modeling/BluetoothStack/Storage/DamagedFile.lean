import BluetoothStack.Storage.LegacyConfigFile

/-!
# BluetoothStack.Storage.DamagedFile

Reading a config file with any content.

A line is skipped, names a section, sets a property or is malformed (`lineKind`). Reading stops at
the first malformed line. A property before it with an empty key, or in a section with an empty
name, gets to the assertions of `SetProperty`, since `Read` itself looks at neither.
-/

namespace BluetoothStack.Storage

/-! ### Kinds of lines -/

inductive LineKind where
  | skipped
  | section (name : Str)
  | property (key value : Str)
  | malformed
deriving DecidableEq, Repr

def lineKind (line : Str) : LineKind :=
  match stringTrim line with
  | [] => .skipped
  | front :: rest =>
    if front = '\x00' ∨ front = '#' then .skipped
    else if front = '[' then
      if (front :: rest).getLast? = some ']' then .section rest.dropLast else .malformed
    else
      match splitAtFirst ['='] (front :: rest) with
      | some (key, value) => .property (stringTrim key) (stringTrim value)
      | none => .malformed

/-- The section of the lines that come after these. -/
def sectionAfter (start : Str) (lines : List Str) : Str :=
  lines.foldl (fun current line => match lineKind line with
    | .section name => name
    | _ => current) start

/-- Before any malformed line there is a property with an empty key, or in a section with an empty
name. -/
def HasNameless (start : Str) (lines : List Str) : Prop :=
  ∃ before line after key value, lines = before ++ line :: after ∧
    (∀ l ∈ before, lineKind l ≠ .malformed) ∧ lineKind line = .property key value ∧
    (key = [] ∨ sectionAfter start before = [])

theorem hasNameless_nil (start : Str) : ¬ HasNameless start [] := by
  rintro ⟨before, line, after, key, value, hlines, -⟩
  exact absurd hlines.symm (by simp)

theorem hasNameless_cons (start : Str) (line : Str) (lines : List Str) :
    HasNameless start (line :: lines) ↔
      (∃ key value, lineKind line = .property key value ∧ (key = [] ∨ start = [])) ∨
        lineKind line ≠ .malformed ∧ HasNameless (sectionAfter start [line]) lines := by
  constructor
  · rintro ⟨before, line', after, key, value, hlines, hbefore, hkind, hempty⟩
    cases before with
    | nil =>
      cases hlines
      exact .inl ⟨key, value, hkind, hempty⟩
    | cons l before =>
      cases hlines
      refine .inr ⟨hbefore line List.mem_cons_self, before, line', after, key, value, rfl, ?_,
        hkind, hempty⟩
      exact fun l hl => hbefore l (List.mem_cons_of_mem line hl)
  · rintro (⟨key, value, hkind, hempty⟩ |
      ⟨hline, before, line', after, key, value, rfl, hbefore, hkind, hempty⟩)
    · exact ⟨[], line, lines, key, value, rfl, by simp, hkind, hempty⟩
    · refine ⟨line :: before, line', after, key, value, rfl, ?_, hkind, hempty⟩
      intro l hl
      rcases List.mem_cons.mp hl with rfl | hl
      · exact hline
      · exact hbefore l hl

/-! ### Lines have no newline -/

theorem not_mem_of_mem_getlines {delim : Char} {text line : Str} (h : line ∈ getlines delim text) :
    delim ∉ line := by
  induction text generalizing line with
  | nil => cases h
  | cons c text ih =>
    rw [getlines] at h
    split at h
    · rcases List.mem_cons.mp h with rfl | h
      · exact List.not_mem_nil
      · exact ih h
    next hc =>
      split at h
      · rw [List.mem_singleton] at h
        subst h
        simpa using Ne.symm hc
      next first rest hrest =>
        rcases List.mem_cons.mp h with rfl | h
        · rw [List.mem_cons, not_or]
          exact ⟨Ne.symm hc, ih (by rw [hrest]; exact List.mem_cons_self)⟩
        · exact ih (by rw [hrest]; exact List.mem_cons_of_mem first h)

theorem splitAtFirst_eq {delim : Char} {s before after : Str}
    (h : splitAtFirst [delim] s = some (before, after)) : s = before ++ delim :: after := by
  induction s generalizing before with
  | nil => cases h
  | cons c s ih =>
    rw [splitAtFirst] at h
    split at h
    next hprefix =>
      cases h
      have hc : delim = c := by simpa using hprefix
      rw [hc]
      rfl
    · rw [Option.map_eq_some_iff] at h
      obtain ⟨⟨before', after'⟩, hsplit, heq⟩ := h
      cases heq
      rw [ih hsplit, List.cons_append]

theorem stringSplit_two_eq {delim : Char} (s : Str) :
    stringSplit s [delim] 2 = match splitAtFirst [delim] s with
      | some (before, after) => [before, after]
      | none => [s] := by
  rw [stringSplit, stringSplitLoop, if_pos (by simp)]
  cases hsplit : splitAtFirst [delim] s with
  | none => rfl
  | some p =>
    obtain ⟨before, after⟩ := p
    have hs := splitAtFirst_eq hsplit
    have hlength : s.length = before.length + after.length + 1 := by
      rw [hs, List.length_append, List.length_cons]
      omega
    dsimp only
    rw [hlength, stringSplitLoop, if_neg (by simp)]
    rfl

def LineKind.NoNewline : LineKind → Prop
  | .section name => '\n' ∉ name
  | .property key value => '\n' ∉ key ∧ '\n' ∉ value
  | .skipped => True
  | .malformed => True

theorem noNewline_lineKind {line : Str} (h : '\n' ∉ line) : (lineKind line).NoNewline := by
  have htrim : ∀ c ∈ stringTrim line, c ∈ line := fun c hc => (isInfix_stringTrim line).subset hc
  unfold lineKind
  cases hline : stringTrim line with
  | nil => trivial
  | cons front rest =>
    rw [hline] at htrim
    dsimp only
    split
    · trivial
    split
    · split
      · intro hmem
        exact h (htrim _ (List.mem_cons_of_mem front (List.dropLast_subset rest hmem)))
      · trivial
    · cases hsplit : splitAtFirst ['='] (front :: rest) with
      | none => trivial
      | some p =>
        obtain ⟨key, value⟩ := p
        have hs := splitAtFirst_eq hsplit
        rw [hs] at htrim
        refine ⟨fun hmem => h (htrim _ ?_), fun hmem => h (htrim _ ?_)⟩
        · exact List.mem_append_left _ ((isInfix_stringTrim key).subset hmem)
        · exact List.mem_append_right _
            (List.mem_cons_of_mem '=' ((isInfix_stringTrim value).subset hmem))

namespace LegacyConfigFile

variable {keystore : Option Keystore}

/-! ### Reading -/

theorem readLine_eq (s : ConfigCache × Str) (line : Str) :
    readLine keystore s line = match lineKind line with
      | .skipped => .ok s
      | .section name => .ok (s.1, name)
      | .property key value =>
        match s.1.setProperty keystore s.2 key value with
        | some cache => .ok (cache, s.2)
        | none => .error .assertion
      | .malformed =>
        .error (if (stringTrim line).head? = some '[' then .unterminatedSectionName
          else .noSeparator) := by
  unfold readLine lineKind
  cases hline : stringTrim line with
  | nil => rfl
  | cons front rest =>
    dsimp only
    split
    · rfl
    split
    next hfront =>
      subst hfront
      by_cases hlast : ('[' :: rest).getLast? = some ']'
      · rw [if_neg (not_not.mpr hlast), if_pos hlast]
      · rw [if_pos hlast, if_neg hlast]
        rfl
    next hfront =>
      rw [stringSplit_two_eq]
      cases splitAtFirst ['='] (front :: rest) with
      | none => simp [hfront]
      | some p => rfl

/-- The assertions of `SetProperty`, for names without a newline. -/
theorem setProperty_eq_none_iff (c : ConfigCache) {name key value : Str} (hname : '\n' ∉ name)
    (hkey : '\n' ∉ key) :
    c.setProperty keystore name key value = none ↔ key = [] ∨ name = [] := by
  unfold ConfigCache.setProperty
  dsimp only
  rw [trimAfterNewLine_of_not_mem hname, trimAfterNewLine_of_not_mem hkey]
  split
  next hempty => exact iff_of_true rfl hempty.symm
  next hempty => exact iff_of_false (by simp) fun h => hempty h.symm

/-- From any section on, by induction on the lines. -/
theorem readLines_asserts_iff {lines : List Str} (hlines : ∀ line ∈ lines, '\n' ∉ line)
    (s : ConfigCache × Str) (hs : '\n' ∉ s.2) :
    lines.foldlM (readLine keystore) s = .error .assertion ↔ HasNameless s.2 lines := by
  induction lines generalizing s with
  | nil => exact iff_of_false (by simp [pure, Except.pure]) (hasNameless_nil s.2)
  | cons line lines ih =>
    have hline := noNewline_lineKind (hlines line List.mem_cons_self)
    replace ih := ih fun l hl => hlines l (List.mem_cons_of_mem line hl)
    rw [List.foldlM_cons, readLine_eq, hasNameless_cons]
    cases hkind : lineKind line with
    | skipped =>
      have hafter : sectionAfter s.2 [line] = s.2 := by simp [sectionAfter, hkind]
      rw [hafter, ← ih s hs]
      simp [bind, Except.bind]
    | «section» name =>
      have hafter : sectionAfter s.2 [line] = name := by simp [sectionAfter, hkind]
      rw [hkind] at hline
      rw [hafter, ← ih (s.1, name) hline]
      simp [bind, Except.bind]
    -- reading ends here with an error that is no assertion
    | malformed =>
      refine iff_of_false ?_ ?_
      · simp only [bind, Except.bind, Except.error.injEq]
        split <;> simp
      · simp
    | property key value =>
      rw [hkind] at hline
      have hafter : sectionAfter s.2 [line] = s.2 := by simp [sectionAfter, hkind]
      have hnone : s.1.setProperty keystore s.2 key value = none ↔ key = [] ∨ s.2 = [] :=
        setProperty_eq_none_iff s.1 hs hline.1
      rw [hafter]
      dsimp only
      cases hset : s.1.setProperty keystore s.2 key value with
      | none =>
        rw [hset] at hnone
        exact iff_of_true rfl (.inl ⟨key, value, rfl, hnone.mp rfl⟩)
      | some cache =>
        rw [hset] at hnone
        have hnot : ¬ (key = [] ∨ s.2 = []) := fun h => absurd (hnone.mpr h) (by simp)
        rw [← ih (cache, s.2) hs]
        simp [bind, Except.bind, hnot]

/-- Reading a file reaches no failing assertion exactly if no property before the first malformed
line has an empty key or stands in a section with an empty name. -/
theorem read_asserts_nothing_iff (keystore : Option Keystore) (tempDevicesCapacity : Nat)
    (h : 0 < tempDevicesCapacity) (text : Str) :
    read keystore tempDevicesCapacity h text ≠ .error .assertion ↔
      ¬ HasNameless kDefaultSectionName (getlines '\n' text) := by
  have hglobal : '\n' ∉ kDefaultSectionName := by decide
  refine not_congr ?_
  rw [← readLines_asserts_iff (fun line hline => not_mem_of_mem_getlines hline)
    (.init tempDevicesCapacity h kLinkKeyProperties, kDefaultSectionName) hglobal, read]
  cases (getlines '\n' text).foldlM (readLine keystore)
      (.init tempDevicesCapacity h kLinkKeyProperties, kDefaultSectionName) with
  | error e => simp [bind, Except.bind]
  | ok s => simp [bind, Except.bind, pure, Except.pure]

/-- A section, a property and a line without a separator. -/
theorem read_asserts_nothing_iff_no_separator :
    read none 1 Nat.one_pos "[a]\nb = c\nd\n=e".toList ≠ .error .assertion ∧
      ¬ HasNameless kDefaultSectionName (getlines '\n' "[a]\nb = c\nd\n=e".toList) :=
  have hread : read none 1 Nat.one_pos "[a]\nb = c\nd\n=e".toList ≠ .error .assertion := by
    decide +kernel
  ⟨hread, (read_asserts_nothing_iff none 1 Nat.one_pos _).mp hread⟩

/-- An empty section name, and a line that starts with the separator. -/
theorem nameless_asserts :
    read none 1 Nat.one_pos "[]\nkey = value\n".toList = .error .assertion ∧
      read none 1 Nat.one_pos "=value\n".toList = .error .assertion := by
  decide +kernel

end LegacyConfigFile

end BluetoothStack.Storage
