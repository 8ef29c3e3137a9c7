import Mathlib

/-!
# BluetoothStack.Storage.Text

Strings as the config file code takes them apart (`strings.cc`, `address.cc`).

A `std::string` is the list of its bytes, each the character of its code.
-/

namespace BluetoothStack.Storage

abbrev Str := List Char

/-- `isspace`. -/
def isSpace (c : Char) : Bool := c.toNat == 0x20 || (0x09 ≤ c.toNat && c.toNat ≤ 0x0d)

/-- `isxdigit`. -/
def isHexDigit (c : Char) : Bool :=
  ('0' ≤ c && c ≤ '9') || ('a' ≤ c && c ≤ 'f') || ('A' ≤ c && c ≤ 'F')

/-- What `getline` yields until the end of the stream. Nothing comes after a last delimiter. -/
def getlines (delim : Char) : Str → List Str
  | [] => []
  | c :: s =>
    if c = delim then [] :: getlines delim s
    else
      match getlines delim s with
      | [] => [[c]]
      | line :: lines => (c :: line) :: lines

/-- `StringTrim`. -/
def stringTrim (s : Str) : Str := (s.dropWhile isSpace).rdropWhile isSpace

/-- The parts before and after the first `delim`. -/
def splitAtFirst (delim : Str) : Str → Option (Str × Str)
  | [] => if delim = [] then some ([], []) else none
  | c :: s =>
    if delim.isPrefixOf (c :: s) then some ([], (c :: s).drop delim.length)
    else (splitAtFirst delim s).map fun (before, after) => (c :: before, after)

/-- The loop of `StringSplit`; a `maxToken` of 0 is no limit. -/
def stringSplitLoop (delim : Str) (maxToken : Nat) : Nat → List Str → Str → List Str
  | 0, tokens, s => tokens ++ [s]
  | fuel + 1, tokens, s =>
    if maxToken = 0 ∨ tokens.length < maxToken - 1 then
      match splitAtFirst delim s with
      | none => tokens ++ [s]
      | some (before, after) => stringSplitLoop delim maxToken fuel (tokens ++ [before]) after
    else tokens ++ [s]

/-- `StringSplit`; each round takes a character. -/
def stringSplit (s delim : Str) (maxToken : Nat) : List Str :=
  stringSplitLoop delim maxToken (s.length + 1) [] s

/-- The bytes that `strtol` reads to their end, of those of length two. -/
def isOctet : Str → Bool
  | [a, b] => isHexDigit b && (isHexDigit a || isSpace a || a == '+' || a == '-')
  | _ => false

/-- `Address::IsValidAddress`. -/
def isValidAddress (address : Str) : Bool :=
  address.length == 17 && (getlines ':' address).length == 6 &&
    (getlines ':' address).all isOctet

/-! ### Lines -/

/-- A line ends at its delimiter. -/
theorem getlines_append {delim : Char} {line : Str} (hline : delim ∉ line) (s : Str) :
    getlines delim (line ++ delim :: s) = line :: getlines delim s := by
  induction line with
  | nil => simp [getlines]
  | cons c line ih =>
    rw [List.mem_cons, not_or] at hline
    rw [List.cons_append, getlines, if_neg (Ne.symm hline.1), ih hline.2]

/-! ### Trimming -/

theorem stringTrim_of_ends {s : Str} (hfirst : ∀ c ∈ s.head?, isSpace c = false)
    (hlast : ∀ c ∈ s.getLast?, isSpace c = false) : stringTrim s = s := by
  have hdrop : s.dropWhile isSpace = s := by
    cases s with
    | nil => rfl
    | cons c s => exact List.dropWhile_cons_of_neg (by simp [hfirst c rfl])
  rw [stringTrim, hdrop, List.rdropWhile_eq_self_iff]
  intro hne
  simpa using hlast _ (List.getLast?_eq_some_getLast hne)

theorem rdropWhile_append_cons {p : Char → Bool} {c : Char} (hc : p c = false) (s t : Str) :
    (s ++ c :: t).rdropWhile p = s ++ c :: t.rdropWhile p := by
  have hrest : (c :: s.reverse).dropWhile p = c :: s.reverse :=
    List.dropWhile_cons_of_neg (by simp [hc])
  have hreverse : (s ++ c :: t).reverse = t.reverse ++ (c :: s.reverse) := by simp
  rw [List.rdropWhile, List.rdropWhile, hreverse, List.dropWhile_append, hrest]
  split
  next hempty => simp [List.isEmpty_iff.mp hempty]
  · simp

theorem stringTrim_rdropWhile (s : Str) : stringTrim (s.rdropWhile isSpace) = stringTrim s := by
  induction s with
  | nil => rfl
  | cons c s ih =>
    by_cases hc : isSpace c = true
    · rw [stringTrim, stringTrim, List.dropWhile_cons_of_pos hc]
      by_cases hs : s.rdropWhile isSpace = []
      · -- only blanks
        have hall := List.rdropWhile_eq_nil_iff.mp hs
        have hcs : (c :: s).rdropWhile isSpace = [] := by
          rw [List.rdropWhile_eq_nil_iff]
          intro x hx
          rcases List.mem_cons.mp hx with rfl | hx
          · exact hc
          · exact hall x hx
        rw [hcs, List.dropWhile_eq_nil_iff.mpr hall]
        rfl
      · have hcs : (c :: s).rdropWhile isSpace = c :: s.rdropWhile isSpace := by
          obtain ⟨t, d, u, rfl, hd⟩ : ∃ t d u, s = t ++ d :: u ∧ isSpace d = false := by
            rw [List.rdropWhile_eq_nil_iff] at hs
            push Not at hs
            obtain ⟨d, hmem, hd⟩ := hs
            obtain ⟨t, u, rfl⟩ := List.append_of_mem hmem
            exact ⟨t, d, u, rfl, by simpa using hd⟩
          rw [← List.cons_append, rdropWhile_append_cons hd, rdropWhile_append_cons hd,
            List.cons_append]
        rw [hcs, List.dropWhile_cons_of_pos hc]
        exact ih
    · have hc : isSpace c = false := by simpa using hc
      have hcs := rdropWhile_append_cons hc [] s
      rw [List.nil_append, List.nil_append] at hcs
      rw [hcs, stringTrim, stringTrim, List.dropWhile_cons_of_neg (by simp [hc]),
        List.dropWhile_cons_of_neg (by simp [hc]), ← hcs, List.rdropWhile_idempotent]

theorem isInfix_stringTrim (s : Str) : stringTrim s <:+: s :=
  (List.rdropWhile_prefix _ _).isInfix.trans (List.dropWhile_suffix _).isInfix

/-! ### Splitting -/

theorem splitAtFirst_append {delim : Char} {before : Str} (hbefore : delim ∉ before) (after : Str) :
    splitAtFirst [delim] (before ++ delim :: after) = some (before, after) := by
  induction before with
  | nil => simp [splitAtFirst]
  | cons c before ih =>
    rw [List.mem_cons, not_or] at hbefore
    simp [splitAtFirst, hbefore.1, ih hbefore.2]

theorem stringSplit_two {delim : Char} {before : Str} (hbefore : delim ∉ before) (after : Str) :
    stringSplit (before ++ delim :: after) [delim] 2 = [before, after] := by
  have hlength : (before ++ delim :: after).length + 1 = (before.length + after.length) + 2 := by
    simp
    omega
  rw [stringSplit, hlength, stringSplitLoop, if_pos (by simp), splitAtFirst_append hbefore]
  simp [stringSplitLoop]

end BluetoothStack.Storage
