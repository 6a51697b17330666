import DocQuery.Shell.Expression
import DocQuery.Proofs.Text.Words
import DocQuery.Proofs.Value.Path
import DocQuery.Proofs.Value.RoundTrip

namespace DocQuery.Shell.Expression

open Text

variable {cs field word second rest rest' rest'' blanks : List Char}

/-! ## Parts and words -/

theorem splitWord_of_firstWord (h : FirstWord cs word rest) : splitWord (trimLeft cs) = (word, rest) := by
  rw [splitWord, h.takeWhile_eq, h.dropWhile_eq]

theorem splitWord_of_allBlank (h : AllBlank cs) : splitWord (trimLeft cs) = ([], []) := by
  rw [trimLeft_eq_nil_iff.mpr h]
  rfl

theorem parts?_of_words (h : FirstWord cs field rest) (h' : FirstWord rest word rest') :
    parts? cs = match twoWords? word rest' with
      | some (token, raw) => some (field, token, raw)
      | none => (value? rest').map fun raw => (field, word, raw) := by
  rw [parts?, splitWord_of_firstWord h]
  simp only
  rw [splitWord_of_firstWord h']
  exact if_neg (by simp [h.unbroken.1, h'.unbroken.1])

theorem parts?_of_allBlank (h : AllBlank cs) : parts? cs = none := by
  rw [parts?, splitWord_of_allBlank h]
  exact if_pos (.inl rfl)

theorem parts?_of_oneWord (h : FirstWord cs field rest) (h' : AllBlank rest) : parts? cs = none := by
  rw [parts?, splitWord_of_firstWord h]
  simp only
  rw [splitWord_of_allBlank h']
  exact if_pos (.inr rfl)

theorem parts?_blanks_append (h : AllBlank blanks) (cs : List Char) : parts? (blanks ++ cs) = parts? cs := by
  rw [parts?, parts?, trimLeft_blanks_append h]

theorem twoWords?_of_allBlank (h : AllBlank rest) (word : List Char) : twoWords? word rest = none := by
  rw [twoWords?, splitWord_of_allBlank h]
  simp

theorem twoWords?_of_firstWord (h : FirstWord rest second rest') (word : List Char) :
    twoWords? word rest =
      if word.map Char.toLower = ['n', 'o', 't'] ∧ second.map Char.toLower = ['i', 'n'] then
        (value? rest').map ((word ++ ' ' :: second), ·)
      else none := by
  rw [twoWords?, splitWord_of_firstWord h]

theorem value?_append_blanks (h : AllBlank blanks) (more : rest ≠ []) : value? (rest ++ blanks) = value? rest := by
  simp [value?, trim_append_blanks h, more]

theorem value?_of_allBlank (h : AllBlank rest) (more : rest ≠ []) : value? rest = some [] := by
  simp [value?, trim_of_allBlank h, more]

/-! ## Expressions with a value -/

def complete? (text : List Char) : Option (List Char × List Char × List Char) :=
  (parts? text).filter (·.2.2 ≠ [])

theorem toOption_parse (kind : Connective) (text : String) :
    (parse kind text).toOption = (complete? text.toList).map fun (field, token, raw) =>
      let operator := Operator.ofToken (String.ofList token)
      ⟨kind, String.ofList field, operator, readOperand operator raw⟩ := by
  rw [parse, complete?]
  rcases parts? text.toList with _ | ⟨field, token, _ | ⟨c, raw⟩⟩ <;> rfl

theorem complete?_of_few (few : (wordsOf cs).length < 3) : complete? cs = none := by
  rcases allBlank_or_firstWord cs with blank | ⟨field, rest, first⟩
  · rw [complete?, parts?_of_allBlank blank]
    rfl
  · rcases allBlank_or_firstWord rest with blank | ⟨word, rest', next⟩
    · rw [complete?, parts?_of_oneWord first blank]
      rfl
    · have blank : AllBlank rest' := by
        rw [first.wordsOf_eq, next.wordsOf_eq, List.length_cons, List.length_cons] at few
        exact wordsOf_eq_nil_iff.mp (List.length_eq_zero_iff.mp (by omega))
      rw [complete?, parts?_of_words first next, twoWords?_of_allBlank blank]
      rcases eq_or_ne rest' [] with rfl | more
      · rfl
      · rw [value?_of_allBlank blank more]
        rfl

theorem error_of_few {text : String} (few : (wordsOf text.toList).length < 3) (kind : Connective) :
    ∃ e, parse kind text = .error e := by
  have none := toOption_parse kind text
  rw [complete?_of_few few] at none
  cases parsed : parse kind text with
  | error e => exact ⟨e, rfl⟩
  | ok e =>
      rw [parsed] at none
      cases none

/-! ## Expressions laid out -/

/-- The parts of an expression with one word for its operator, and the blanks around and between them. -/
structure Layout where
  before : String
  field : String
  gap : String
  token : String
  space : String
  value : String
  after : String
  before_blank : AllBlank before.toList
  field_unbroken : Unbroken field.toList
  gap_blank : AllBlank gap.toList ∧ gap ≠ ""
  token_unbroken : Unbroken token.toList
  token_ne_not : lowered token ≠ "not"
  space_blank : AllBlank space.toList ∧ space ≠ ""
  value_trimmed : trimmed value = value ∧ value ≠ ""
  after_blank : AllBlank after.toList

namespace Layout

def text (l : Layout) : String := l.before ++ l.field ++ l.gap ++ l.token ++ l.space ++ l.value ++ l.after

/-- What a text stands for: the value that it is the JSON of, or else itself. -/
def reading (text : String) : Value := (Value.ofText? text).getD (.string text)

theorem reading_of_isNone {text : String} (h : (Value.ofText? text).isNone = true) : reading text = .string text := by
  rw [reading, Option.isNone_iff_eq_none.mp h, Option.getD_none]

theorem reading_text {v : Value} (wf : v.WellFormed) (nests : v.NestsWithin Value.maxDepth) : reading v.text = v := by
  rw [reading, Value.ofText?_text wf nests, Option.getD_some]

def parts (l : Layout) : List String := (l.value.toList.splitOn ',').map fun part => trimmed (String.ofList part)

def operand (l : Layout) : Value :=
  if (Operator.ofToken l.token).expectsSequence then .array (l.parts.map reading) else reading l.value

theorem parts?_text (l : Layout) :
    parts? l.text.toList =
      if '\n' ∈ l.value.toList then none else some (l.field.toList, l.token.toList, l.value.toList) := by
  obtain ⟨before, field, gap, token, space, value, after, before_blank, field_unbroken, ⟨gap_blank, gap_ne⟩,
    token_unbroken, token_ne_not, ⟨space_blank, space_ne⟩, ⟨value_trimmed, value_ne⟩, after_blank⟩ := l
  rw [ne_eq, ← String.toList_eq_nil_iff] at gap_ne space_ne
  have behindField := FirstWord.of_append before_blank field_unbroken (gap_blank.atBreak_append gap_ne
    (token.toList ++ (space.toList ++ (value.toList ++ after.toList))))
  have behindToken := FirstWord.of_append gap_blank token_unbroken (space_blank.atBreak_append space_ne
    (value.toList ++ after.toList))
  have oneWord : twoWords? token.toList (space.toList ++ (value.toList ++ after.toList)) = none := by
    have other : token.toList.map Char.toLower ≠ ['n', 'o', 't'] := fun same =>
      token_ne_not (congrArg String.ofList same)
    rcases allBlank_or_firstWord (space.toList ++ (value.toList ++ after.toList)) with blank | ⟨second, rest, next⟩
    · exact twoWords?_of_allBlank blank _
    · rw [twoWords?_of_firstWord next, if_neg fun both => other both.1]
  have raw : trim (space.toList ++ (value.toList ++ after.toList)) = value.toList := by
    rw [trim_blanks_append space_blank, trim_append_blanks after_blank,
      ← String.toList_ofList (l := trim value.toList)]
    exact congrArg String.toList value_trimmed
  simp only [text, String.toList_append, List.append_assoc]
  rw [parts?_of_words behindField behindToken, oneWord, value?, raw]
  by_cases within : '\n' ∈ value.toList
  · simp [within]
  · simp [within, space_ne]

theorem readOperand_value (l : Layout) : readOperand (Operator.ofToken l.token) l.value.toList = l.operand := by
  simp [readOperand, operand, parts, scalar, reading, splitOn_eq, trimmed, Function.comp_def]

theorem parse_text (l : Layout) (kind : Connective) :
    parse kind l.text =
      if '\n' ∈ l.value.toList then .error (.malformed l.text)
      else .ok ⟨kind, l.field, Operator.ofToken l.token, l.operand⟩ := by
  rw [parse, parts?_text]
  by_cases within : '\n' ∈ l.value.toList
  · rw [if_pos within, if_pos within]
  · have some : l.value.toList ≠ [] := by simpa using l.value_trimmed.2
    obtain ⟨c, rest, value⟩ := List.exists_cons_of_ne_nil some
    rw [if_neg within, if_neg within, ← readOperand_value, value]
    simp

end Layout

/-- The text is a field with two words for its operator, and no value. -/
def LacksValue (cs : List Char) : Prop :=
  ∃ field first second, wordsOf cs = [field, first, second] ∧
    first.map Char.toLower = ['n', 'o', 't'] ∧ second.map Char.toLower = ['i', 'n']

theorem complete?_append_blanks_of_lacksValue (lacks : LacksValue cs) (tight : ¬ EndsInBlank cs) (h : AllBlank blanks)
    (nonempty : blanks ≠ []) : complete? (cs ++ blanks) = none ∧ (complete? cs).isSome = true := by
  obtain ⟨field, first, second, split, operator⟩ := lacks
  obtain ⟨rest, behindField, split⟩ := exists_firstWord split
  obtain ⟨rest', behindNot, split⟩ := exists_firstWord split
  obtain ⟨rest'', behindIn, split⟩ := exists_firstWord split
  obtain rfl : rest'' = [] := by
    by_contra more
    have last : EndsInBlank rest'' := (wordsOf_eq_nil_iff.mp split).endsInBlank more
    exact tight (behindField.endsInBlank (behindNot.endsInBlank (behindIn.endsInBlank last)))
  constructor
  · rw [complete?, parts?_of_words (behindField.append_blanks h) (behindNot.append_blanks h),
      twoWords?_of_firstWord (behindIn.append_blanks h), if_pos operator, List.nil_append,
      value?_of_allBlank h nonempty]
    rfl
  · -- without blanks behind it, the second word is not part of the operator
    have more : rest' ≠ [] := by
      rintro rfl
      exact behindIn.not_allBlank allBlank_nil
    have noLineFeed : '\n' ∉ second := fun within => by
      have solid := behindIn.unbroken.2 _ within
      exact absurd solid (by decide)
    rw [complete?, parts?_of_words behindField behindNot, twoWords?_of_firstWord behindIn, if_pos operator]
    simp [value?, more, behindIn.trim_eq, noLineFeed, behindIn.unbroken.1]

theorem complete?_append_blanks (complete : ¬ LacksValue cs) (h : AllBlank blanks) :
    complete? (cs ++ blanks) = complete? cs := by
  by_cases few : (wordsOf cs).length < 3
  · rw [complete?_of_few few, complete?_of_few (by rwa [wordsOf_append_blanks h])]
  · obtain ⟨field, first, second, others, split⟩ : ∃ field first second others,
        wordsOf cs = field :: first :: second :: others := by
      match wordsOf cs, few with
      | field :: first :: second :: others, _ => exact ⟨field, first, second, others, rfl⟩
      | [_, _], few | [_], few | [], few => exact absurd (by simp) few
    obtain ⟨rest, behindField, split'⟩ := exists_firstWord split
    obtain ⟨rest', behindFirst, split'⟩ := exists_firstWord split'
    obtain ⟨rest'', behindSecond, rfl⟩ := exists_firstWord split'
    have more : rest' ≠ [] := by
      rintro rfl
      exact behindSecond.not_allBlank allBlank_nil
    rw [complete?, complete?, parts?_of_words (behindField.append_blanks h) (behindFirst.append_blanks h),
      parts?_of_words behindField behindFirst, twoWords?_of_firstWord (behindSecond.append_blanks h),
      twoWords?_of_firstWord behindSecond, value?_append_blanks h more]
    by_cases operator : first.map Char.toLower = ['n', 'o', 't'] ∧ second.map Char.toLower = ['i', 'n']
    · have value : rest'' ≠ [] := by
        rintro rfl
        exact complete ⟨field, first, second, split, operator⟩
      rw [value?_append_blanks h value]
    · rw [if_neg operator, if_neg operator]

/-- The blanks around an expression do not count, with one exception: behind a field with the words `not` and `in` and
nothing else, they make the two words an operator that lacks its value, and without them `in` is the value. -/
theorem parse_trimmed_iff (kind : Connective) (text : String) :
    (parse kind text).toOption = (parse kind (trimmed text)).toOption ↔
      ¬ (EndsInBlank text.toList ∧ LacksValue text.toList) := by
  obtain ⟨before, after, before_blank, after_blank, split⟩ := exists_padding text.toList
  have tight := not_endsInBlank_trim text.toList
  rw [toOption_parse, toOption_parse, trimmed, String.toList_ofList]
  generalize trim text.toList = core at split tight
  have complete : complete? text.toList = complete? (core ++ after) := by
    rw [split, complete?, parts?_blanks_append before_blank, complete?]
  have lacks_iff : LacksValue text.toList ↔ LacksValue core := by
    rw [LacksValue, split, wordsOf_blanks_append before_blank, wordsOf_append_blanks after_blank, LacksValue]
  rw [complete, lacks_iff]
  by_cases lacks : LacksValue core
  · rcases eq_or_ne after [] with rfl | nonempty
    · have some : core ≠ [] := by
        rintro rfl
        obtain ⟨field, first, second, words, -⟩ := lacks
        cases words
      rw [List.append_nil] at split ⊢
      refine iff_of_true rfl fun ⟨last, _⟩ => tight ?_
      rw [split] at last
      exact last.of_append some
    · obtain ⟨padded, alone⟩ := complete?_append_blanks_of_lacksValue lacks tight after_blank nonempty
      obtain ⟨parts, found⟩ := Option.isSome_iff_exists.mp alone
      have last : EndsInBlank text.toList := by
        rw [split]
        exact ((after_blank.endsInBlank nonempty).append core).append before
      rw [padded, found]
      exact iff_of_false (by simp) fun h => h ⟨last, lacks⟩
  · rw [complete?_append_blanks lacks after_blank]
    exact iff_of_true rfl fun h => lacks h.2

theorem parse_notIn_padded :
    trimmed "a not in " = "a not in" ∧ parse .and "a not in " = .error (.missingValue "a not in ") ∧
      parse .and "a not in" = .ok ⟨.and, "a", .eq, .string "in"⟩ := by
  have padded : parts? "a not in ".toList = some (['a'], ['n', 'o', 't', ' ', 'i', 'n'], []) := by decide +kernel
  have tight : parts? "a not in".toList = some (['a'], ['n', 'o', 't'], ['i', 'n']) := by decide +kernel
  have operator : Operator.ofToken "not" = .eq := by decide
  have operand : readOperand .eq "in".toList = .string "in" := by
    have plain : Layout.reading "in" = .string "in" := Layout.reading_of_isNone (by decide +kernel)
    rw [readOperand, if_neg (by decide), scalar, String.ofList_toList]
    exact plain
  refine ⟨by decide, ?_, ?_⟩
  · rw [parse, padded]
  · rw [parse, tight]
    have value : readOperand .eq ['i', 'n'] = .string "in" := operand
    simp only [String.reduceOfList, operator, value]

end DocQuery.Shell.Expression
