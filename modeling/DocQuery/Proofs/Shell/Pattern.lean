import DocQuery.Proofs.Shell.Expression
import Mathlib.Data.List.DropRight

namespace DocQuery.Shell

open Text

/-- Repetitions are of one class of characters, and in a literal capital letters do not matter. -/
inductive Pattern where
  | one (p : Char → Bool)
  | literal (letters : List Char)
  | many (p : Char → Bool)
  | fewest (p : Char → Bool)
  | both (first second : Pattern)
  | either (first second : Pattern)
  | group (inner : Pattern)
  | finish

namespace Pattern

/-- What is to be matched after a part: the rest of the text, with the groups captured so far. -/
abbrev Continuation := List Char → List (List Char) → Option (List (List Char))

def greedy (p : Char → Bool) (next : Continuation) : Continuation
  | [], found => next [] found
  | c :: rest, found =>
      if p c then (greedy p next rest found).or (next (c :: rest) found) else next (c :: rest) found

def reluctant (p : Char → Bool) (next : Continuation) : Continuation
  | [], found => next [] found
  | c :: rest, found =>
      (next (c :: rest) found).or (if p c then reluctant p next rest found else none)

def run : Pattern → Continuation → Continuation
  | one p, next => fun cs found =>
      match cs with
      | [] => none
      | c :: rest => if p c then next rest found else none
  | literal letters, next => fun cs found =>
      if (cs.take letters.length).map Char.toLower = letters then next (cs.drop letters.length) found else none
  | many p, next => greedy p next
  | fewest p, next => reluctant p next
  | both first second, next => first.run (second.run next)
  | either first second, next => fun cs found => (first.run next cs found).or (second.run next cs found)
  | group inner, next => fun cs found =>
      inner.run (fun rest found => next rest (found ++ [cs.take (cs.length - rest.length)])) cs found
  | finish, next => fun cs found => if cs = [] then next cs found else none

def captured : Continuation := fun _ found => some found

def captures? (pattern : Pattern) (text : List Char) : Option (List (List Char)) :=
  pattern.run captured text []

def solid (c : Char) : Bool := !isBlank c

def atLeastOne (p : Char → Bool) : Pattern := both (one p) (many p)

def notIn : Pattern := both (literal ['n', 'o', 't']) (both (atLeastOne isBlank) (literal ['i', 'n']))

def operator : Pattern := group (either notIn (atLeastOne solid))

def value : Pattern := both (group (fewest (· ≠ '\n'))) (both (many isBlank) finish)

def expression : Pattern :=
  both (many isBlank) <| both (group (atLeastOne solid)) <| both (atLeastOne isBlank) <|
    both operator <| both (atLeastOne isBlank) value

/-! ## Repetitions -/

variable {p : Char → Bool} {next : Continuation} {cs rest : List Char} {found : List (List Char)}

theorem greedy_eq (h : ∀ cs, (next cs found).isSome = true → (next (cs.dropWhile p) found).isSome = true)
    (cs : List Char) :
    greedy p next cs found = next (cs.dropWhile p) found := by
  induction cs with
  | nil => rfl
  | cons c rest ih =>
      rw [greedy, ih]
      by_cases within : p c = true
      · rw [if_pos within, List.dropWhile_cons_of_pos within]
        have back := h (c :: rest)
        rw [List.dropWhile_cons_of_pos within] at back
        cases first : next (rest.dropWhile p) found with
        | some captured => rfl
        | none =>
            rw [first] at back
            cases second : next (c :: rest) found with
            | none => rfl
            | some captured => simp [second] at back
      · rw [if_neg within, List.dropWhile_cons_of_neg within]

theorem isSome_of_stuck (h : ∀ c rest, p c = true → next (c :: rest) found = none) (cs : List Char)
    (some : (next cs found).isSome = true) : (next (cs.dropWhile p) found).isSome = true := by
  cases cs with
  | nil => exact some
  | cons c rest =>
      by_cases within : p c = true
      · rw [h c rest within] at some
        cases some
      · rwa [List.dropWhile_cons_of_neg within]

/-! ## Blanks and words -/

theorem blanks_stuck {c : Char} (h : isBlank c = false) (inner : Pattern) (next : Continuation) (rest : List Char)
    (found : List (List Char)) : (both (atLeastOne isBlank) inner).run next (c :: rest) found = none := by
  simp [run, atLeastOne, h]

theorem blanks_run {inner : Pattern} {next : Continuation} (ends : AtBreak rest)
    (h : ∀ cs, (inner.run next cs found).isSome = true → (inner.run next (trimLeft cs) found).isSome = true) :
    (both (atLeastOne isBlank) inner).run next rest found =
      if rest = [] then none else inner.run next (trimLeft rest) found := by
  cases rest with
  | nil => rfl
  | cons c rest =>
      have blank : isBlank c = true := ends c rfl
      have taken : trimLeft (c :: rest) = rest.dropWhile isBlank := List.dropWhile_cons_of_pos blank
      rw [if_neg (List.cons_ne_nil _ _), taken, ← greedy_eq h]
      simp [run, atLeastOne, blank]

theorem word_run {word : List Char} (unbroken : Unbroken word) (ends : AtBreak rest)
    (stuck : ∀ c rest found, isBlank c = false → next (c :: rest) found = none) :
    (atLeastOne solid).run next (word ++ rest) found = next rest found := by
  obtain ⟨c, others, rfl⟩ := List.exists_cons_of_ne_nil unbroken.1
  obtain ⟨first, more⟩ := List.forall_mem_cons.mp unbroken.2
  have behind : (others ++ rest).dropWhile solid = rest :=
    dropWhile_append_stop (fun c hc => by rw [solid, more c hc]; rfl) fun c hc => by rw [solid, ends c hc]; rfl
  have all := greedy_eq (p := solid)
    (isSome_of_stuck fun c rest h => stuck c rest found (by simpa [solid] using h)) (others ++ rest)
  rw [behind] at all
  simp [run, atLeastOne, solid, first, ← all]

theorem toLower_of_isBlank {c : Char} (h : isBlank c = true) : c.toLower = c := by
  refine dif_neg fun ⟨least, greatest⟩ => ?_
  have least := UInt32.le_iff_toNat_le.mp least
  have greatest := UInt32.le_iff_toNat_le.mp greatest
  simp [isBlank, blankRanges] at h
  have upper : 65 ≤ c.toNat ∧ c.toNat ≤ 90 := ⟨least, greatest⟩
  omega

theorem literal_stuck {c letter : Char} {letters : List Char} (blank : isBlank c = true) (h : isBlank letter = false) :
    (literal (letter :: letters)).run next (c :: rest) found = none := by
  refine if_neg fun same => ?_
  have first : c.toLower = letter := (List.cons_eq_cons.mp same).1
  rw [← first, toLower_of_isBlank blank, blank] at h
  cases h

theorem literal_run {letters word : List Char} (plain : Unbroken letters) (ends : AtBreak rest)
    (stuck : ∀ c rest found, isBlank c = false → next (c :: rest) found = none) (unbroken : Unbroken word) :
    (literal letters).run next (word ++ rest) found =
      if word.map Char.toLower = letters then next rest found else none := by
  simp only [run]
  by_cases same : word.map Char.toLower = letters
  · have length : letters.length = word.length := by rw [← same, List.length_map]
    rw [length, List.take_left, List.drop_left]
  · rw [if_neg same]
    split <;> rename_i matched
    · rcases Nat.lt_trichotomy letters.length word.length with shorter | equal | longer
      · have more : word.drop letters.length ≠ [] := by simpa using shorter
        obtain ⟨c, others, behind⟩ := List.exists_cons_of_ne_nil more
        rw [List.drop_append_of_le_length (Nat.le_of_lt shorter), behind]
        exact stuck c _ found (unbroken.2 c (List.mem_of_mem_drop (behind ▸ List.mem_cons_self)))
      · rw [equal, List.take_left] at matched
        exact absurd matched same
      · -- the literal goes on where the word ends, but no letter of it is blank
        rw [List.take_append, List.take_of_length_le (Nat.le_of_lt longer)] at matched
        obtain ⟨more, beyond⟩ := Nat.exists_eq_add_of_lt longer
        cases rest with
        | nil => simp [same] at matched
        | cons b rest =>
            have blank : isBlank b = true := ends b rfl
            have within : b.toLower ∈ letters := by
              rw [← matched]
              have : letters.length - word.length = more + 1 := by omega
              simp [this]
            rw [toLower_of_isBlank blank] at within
            rw [plain.2 b within] at blank
            cases blank
    · rfl

/-! ## The value -/

theorem finish_run (cs : List Char) (found : List (List Char)) :
    (both (many isBlank) finish).run captured cs found = if AllBlank cs then some found else none := by
  have stuck (c : Char) (rest : List Char) (_ : isBlank c = true) : finish.run captured (c :: rest) found = none := by
    simp [run]
  exact (greedy_eq (isSome_of_stuck stuck) cs).trans (if_congr trimLeft_eq_nil_iff rfl rfl)

/-- As few characters are taken as leave only blanks behind. -/
theorem reluctant_run (f : List Char → List (List Char) → List (List Char)) (cs : List Char)
    (found : List (List Char)) :
    reluctant (· ≠ '\n') (fun rest found => if AllBlank rest then some (f rest found) else none) cs found =
      if '\n' ∈ trimRight cs then none else some (f (cs.drop (trimRight cs).length) found) := by
  induction cs with
  | nil => rfl
  | cons c rest ih =>
      rw [reluctant, ih]
      by_cases blank : AllBlank (c :: rest)
      · rw [if_pos blank, trimRight_eq_nil_iff.mpr blank]
        rfl
      · rw [if_neg blank, trimRight_cons blank, Option.none_or]
        by_cases lineFeed : c = '\n'
        · simp [lineFeed]
        · simp [lineFeed, Ne.symm lineFeed]

theorem value_run (cs : List Char) (found : List (List Char)) :
    value.run captured cs found =
      if '\n' ∈ trimRight cs then none else some (found ++ [trimRight cs]) := by
  have last : (both (many isBlank) finish).run captured =
      fun rest found => if AllBlank rest then some found else none := by
    funext rest found
    exact finish_run rest found
  have taken : cs.take (cs.length - (cs.drop (trimRight cs).length).length) = trimRight cs := by
    have front : trimRight cs <+: cs := List.rdropWhile_prefix isBlank cs
    rw [List.length_drop, Nat.sub_sub_self front.length_le]
    exact (List.prefix_iff_eq_take.mp front).symm
  rw [value, run, last]
  refine (reluctant_run (fun rest found => found ++ [cs.take (cs.length - rest.length)]) cs found).trans ?_
  rw [taken]

theorem mem_trimRight_of_trimLeft {c : Char} (h : c ∈ trimRight (trimLeft cs)) : c ∈ trimRight cs := by
  induction cs with
  | nil => exact h
  | cons d rest ih =>
      by_cases blank : isBlank d = true
      · rw [trimLeft, List.dropWhile_cons_of_pos blank, ← trimLeft] at h
        have more := ih h
        have solid : ¬ AllBlank (d :: rest) := fun all => by
          rw [trimRight_eq_nil_iff.mpr (List.forall_mem_cons.mp all).2] at more
          cases more
        exact trimRight_cons solid ▸ List.mem_cons_of_mem d more
      · rwa [trimLeft, List.dropWhile_cons_of_neg blank] at h

theorem blanks_value_run (ends : AtBreak rest) (found : List (List Char)) :
    (both (atLeastOne isBlank) value).run captured rest found =
      (Expression.value? rest).map fun raw => found ++ [raw] := by
  rw [blanks_run ends, Expression.value?]
  · rw [value_run, ← trim]
    by_cases none : rest = []
    · simp [none]
    · by_cases lineFeed : '\n' ∈ trim rest <;> simp [none, lineFeed]
  · intro cs
    rw [value_run, value_run]
    by_cases lineFeed : '\n' ∈ trimRight (trimLeft cs)
    · simp [mem_trimRight_of_trimLeft lineFeed]
    · simp [lineFeed]

/-! ## The operator -/

theorem secondWord_run (ends : AtBreak rest) (next : Continuation) (found : List (List Char)) :
    (both (atLeastOne isBlank) (literal ['i', 'n'])).run next rest found =
      (literal ['i', 'n']).run next (trimLeft rest) found := by
  rw [blanks_run ends (isSome_of_stuck fun _ _ blank => literal_stuck blank (by decide))]
  split <;> rename_i none
  · rw [none]
    rfl
  · rfl

variable {word second rest' : List Char}

theorem notIn_run (unbroken : Unbroken word) (ends : AtBreak rest) (next : Continuation) (found : List (List Char)) :
    notIn.run next (word ++ rest) found =
      if word.map Char.toLower = ['n', 'o', 't'] then (literal ['i', 'n']).run next (trimLeft rest) found
      else none := by
  rw [← secondWord_run ends]
  exact literal_run (by decide) ends (fun c rest found h => blanks_stuck h _ _ _ _) unbroken

/-- The parts of an expression as the groups tell them; of the operator, blanks between its words do not count. -/
def parts? : List (List Char) → Option (List Char × List Char × List Char)
  | [field, token, raw] => some (field, [' '].intercalate (wordsOf token), raw)
  | _ => none

theorem take_sub_length (cs rest : List Char) : (cs ++ rest).take ((cs ++ rest).length - rest.length) = cs := by
  rw [List.length_append, Nat.add_sub_cancel, List.take_left]

theorem intercalate_wordsOf (unbroken : Unbroken word) (ends : AtBreak rest) (h : FirstWord rest second rest') :
    [' '].intercalate (wordsOf ((word ++ rest).take ((word ++ rest).length - rest'.length))) =
      word ++ ' ' :: second := by
  obtain ⟨solid, -, blanks, blank, rfl⟩ := h
  have first : FirstWord (word ++ (blanks ++ second)) word (blanks ++ second) := by
    refine ⟨unbroken, fun c hc => ends c ?_, [], allBlank_nil, rfl⟩
    rw [← List.append_assoc, List.head?_append, Option.mem_def.mp hc]
    rfl
  have split : word ++ (blanks ++ (second ++ rest')) = word ++ (blanks ++ second) ++ rest' := by
    simp only [List.append_assoc]
  rw [split, take_sub_length, first.wordsOf_eq, wordsOf_blanks_append blank, wordsOf_of_unbroken solid,
    List.intercalate_cons_cons, List.intercalate_singleton, List.append_assoc]
  rfl

theorem operator_run (unbroken : Unbroken word) (ends : AtBreak rest) (field : List Char) :
    ((both operator (both (atLeastOne isBlank) value)).run captured (word ++ rest) [field]).bind parts? =
      match Expression.twoWords? word rest with
      | some (token, raw) => some (field, token, raw)
      | none => (Expression.value? rest).map fun raw => (field, word, raw) := by
  let next : Continuation := fun behind found => (both (atLeastOne isBlank) value).run captured behind
    (found ++ [(word ++ rest).take ((word ++ rest).length - behind.length)])
  have stuck (c : Char) (behind : List Char) (found : List (List Char)) (h : isBlank c = false) :
      next (c :: behind) found = none := blanks_stuck h _ _ _ _
  have oneWord : (atLeastOne solid).run next (word ++ rest) [field] =
      (Expression.value? rest).map fun raw => [field, word, raw] := by
    rw [word_run unbroken ends stuck]
    refine (blanks_value_run ends _).trans ?_
    rw [take_sub_length]
    rfl
  have single : wordsOf word = [word] := wordsOf_of_unbroken unbroken
  have alternatives : (both operator (both (atLeastOne isBlank) value)).run captured (word ++ rest) [field] =
      (notIn.run next (word ++ rest) [field]).or ((atLeastOne solid).run next (word ++ rest) [field]) := rfl
  rw [alternatives, oneWord, notIn_run unbroken ends]
  have ofOneWord : ((Expression.value? rest).map fun raw => [field, word, raw]).bind parts? =
      (Expression.value? rest).map fun raw => (field, word, raw) := by
    cases Expression.value? rest with
    | none => rfl
    | some raw => simp [parts?, single]
  rcases allBlank_or_firstWord rest with blank | ⟨second, rest', h⟩
  · have nothing : (literal ['i', 'n']).run next [] [field] = none := rfl
    rw [Expression.twoWords?_of_allBlank blank, trimLeft_eq_nil_iff.mpr blank, nothing, ite_self, Option.none_or,
      ofOneWord]
  · have token := intercalate_wordsOf unbroken ends h
    have behind : next rest' [field] = (Expression.value? rest').map fun raw =>
        [field, (word ++ rest).take ((word ++ rest).length - rest'.length), raw] := blanks_value_run h.ends _
    rw [Expression.twoWords?_of_firstWord h, h.trimLeft_eq, literal_run (by decide) h.ends stuck h.unbroken, behind,
      ← ite_and]
    by_cases operator : word.map Char.toLower = ['n', 'o', 't'] ∧ second.map Char.toLower = ['i', 'n']
    · rw [if_pos operator, if_pos operator]
      cases Expression.value? rest' with
      | none => exact ofOneWord
      | some raw => simp only [Option.map_some, Option.some_or, Option.bind_some, parts?, token]
    · rw [if_neg operator, if_neg operator, Option.none_or]
      exact ofOneWord

theorem operator_stuck {c : Char} (h : isBlank c = true) (inner : Pattern) :
    (both operator inner).run captured (c :: rest) found = none := by
  have solidWord (next : Continuation) : (atLeastOne solid).run next (c :: rest) found = none := by
    simp [run, atLeastOne, solid, h]
  have alternatives (next : Continuation) : (either notIn (atLeastOne solid)).run next (c :: rest) found = none := by
    have notWord : notIn.run next (c :: rest) found = none := literal_stuck h (by decide)
    simp only [run, notWord, solidWord, Option.or_none]
  exact alternatives _

/-- Reading word by word gives what the groups of the pattern capture. -/
theorem parts?_captures? (text : List Char) : (expression.captures? text).bind parts? = Expression.parts? text := by
  let behindField : Pattern := both operator (both (atLeastOne isBlank) value)
  let next : Continuation := fun behind found => (both (atLeastOne isBlank) behindField).run captured behind
    (found ++ [(trimLeft text).take ((trimLeft text).length - behind.length)])
  have start : expression.captures? text = (atLeastOne solid).run next (trimLeft text) [] := by
    refine greedy_eq (isSome_of_stuck fun c rest blank => ?_) text
    simp [run, atLeastOne, solid, blank]
  rw [start]
  rcases allBlank_or_firstWord text with blank | ⟨field, rest, first⟩
  · rw [Expression.parts?_of_allBlank blank, trimLeft_eq_nil_iff.mpr blank]
    rfl
  · have stuck (c : Char) (behind : List Char) (found : List (List Char)) (h : isBlank c = false) :
        next (c :: behind) found = none := blanks_stuck h _ _ _ _
    have name : next rest [] = (both (atLeastOne isBlank) behindField).run captured rest [field] := by
      simp only [next, first.trimLeft_eq, take_sub_length, List.nil_append]
    rw [first.trimLeft_eq, word_run first.unbroken first.ends stuck, name,
      blanks_run first.ends (isSome_of_stuck fun _ _ h => operator_stuck h _)]
    rcases allBlank_or_firstWord rest with blank | ⟨word, rest', second⟩
    · rw [Expression.parts?_of_oneWord first blank, trimLeft_eq_nil_iff.mpr blank]
      exact congrArg (Option.bind · parts?) (ite_self none)
    · have more : rest ≠ [] := by
        rintro rfl
        exact second.not_allBlank allBlank_nil
      rw [Expression.parts?_of_words first second, if_neg more, second.trimLeft_eq]
      exact operator_run second.unbroken second.ends field

end Pattern

end DocQuery.Shell
