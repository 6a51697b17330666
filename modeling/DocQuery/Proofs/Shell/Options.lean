import DocQuery.Shell.Options
import Mathlib.Data.List.Nodup
import Mathlib.Data.List.TakeWhile

namespace DocQuery.Shell

/-! ## Words -/

namespace Word

def optionText (name : String) : Option String → String
  | none => "--" ++ name
  | some value => "--" ++ name ++ "=" ++ value

theorem toList_optionText (name : String) (value : Option String) :
    (optionText name value).toList = '-' :: '-' :: (name.toList ++ value.elim [] fun v => '=' :: v.toList) := by
  cases value <;> simp [optionText]

theorem ofText_of_toList {text : String} {rest : List Char} (characters : text.toList = '-' :: '-' :: rest)
    (filled : rest ≠ []) :
    ofText text =
      match rest.dropWhile (· ≠ '=') with
      | [] => .long (String.ofList (rest.takeWhile (· ≠ '='))) none
      | _ :: value => .long (String.ofList (rest.takeWhile (· ≠ '='))) (some (String.ofList value)) := by
  rw [ofText, characters]
  cases rest with
  | nil => exact absurd rfl filled
  | cons c rest => rfl

theorem ofText_optionText {name : String} (filled : name ≠ "") (clear : '=' ∉ name.toList) (value : Option String) :
    ofText (optionText name value) = .long name value := by
  have among : ∀ c ∈ name.toList, decide (c ≠ '=') = true :=
    fun c member => decide_eq_true fun equal => clear (equal ▸ member)
  have characters : name.toList ≠ [] := fun empty => filled (String.toList_eq_nil_iff.mp empty)
  rw [ofText_of_toList (toList_optionText name value) (List.append_ne_nil_of_left_ne_nil characters _),
    List.dropWhile_append_of_pos among, List.takeWhile_append_of_pos among]
  cases value <;> simp

theorem eq_optionText_of_ofText {text name : String} {value : Option String} (reads : ofText text = .long name value) :
    text = optionText name value := by
  rw [ofText] at reads
  split at reads
  case h_2 rest _ characters =>
    have apart : rest.takeWhile (· ≠ '=') ++ rest.dropWhile (· ≠ '=') = rest := List.takeWhile_append_dropWhile
    rw [← String.toList_inj, toList_optionText, characters]
    split at reads
    case h_1 dropped =>
      cases reads
      rw [dropped] at apart
      rw [String.toList_ofList]
      exact congrArg _ (congrArg _ apart.symm)
    case h_2 c value dropped =>
      cases reads
      have first : c = '=' := by
        have stopped := List.head?_dropWhile_not (· ≠ '=') rest
        rw [dropped] at stopped
        simpa using stopped
      rw [dropped, first] at apart
      simp only [Option.elim_some, String.toList_ofList]
      exact congrArg _ (congrArg _ apart.symm)
  all_goals cases reads

end Word

/-! ## Grammars of valued options -/

structure Grammar.OnlyValued (g : Grammar) : Prop where
  valued : ∀ rule ∈ g.options, rule.takesValue
  distinct : (g.options.map OptionRule.name).Nodup
  named : ∀ rule ∈ g.options, rule.name ≠ "" ∧ '=' ∉ rule.name.toList
  noPositionals : g.positionals = 0
  plainSubcommands : ∀ name ∈ g.subcommands, Word.ofText name = .plain

/-- An option on a command line with its value, which stands in the word of the option or is the next word. -/
structure Occurrence (g : Grammar) where
  rule : OptionRule
  known : rule ∈ g.options
  value : String
  joined : Bool := false

namespace Occurrence

variable {g : Grammar}

def words (o : Occurrence g) : List String :=
  if o.joined then [Word.optionText o.rule.name (some o.value)]
  else [Word.optionText o.rule.name none, o.value]

def entry (o : Occurrence g) : String × String := (o.rule.name, o.value)

end Occurrence

namespace Scan

variable {g : Grammar} {s t next : Scan} {text : String} {words : List String}

/-! ## One word -/

theorem bind_eq_ok_iff {ε α β : Type} {x : Except ε α} {f : α → Except ε β} {b : β} :
    x.bind f = .ok b ↔ ∃ a, x = .ok a ∧ f a = .ok b := by
  cases x with
  | error e => simp [Except.bind]
  | ok a => simp [Except.bind]

theorem map_eq_ok_iff {ε α β : Type} {x : Except ε α} {f : α → β} {b : β} :
    x.map f = .ok b ↔ ∃ a, x = .ok a ∧ f a = b := by
  cases x with
  | error e => simp [Except.map]
  | ok a => simp [Except.map]

theorem record_ok {rule : OptionRule} {value : String} (records : s.record rule value = .ok next) :
    next = { s with settled := s.settled ++ [(rule.name, value)], pending := none } := by
  rw [record] at records
  split at records
  · cases records
  · split at records
    · cases records
    · exact (Except.ok.inj records).symm

theorem settle_ok (settles : s.settle = .ok t) : t.onlyPositionals = s.onlyPositionals ∧ s.awaitsValue = false := by
  rw [settle] at settles
  split at settles
  case h_1 settled =>
    cases settles
    exact ⟨rfl, by rw [awaitsValue, settled]⟩
  case h_2 => cases settles
  case h_3 rule value complete =>
    rw [record_ok settles]
    exact ⟨rfl, by rw [awaitsValue, complete]⟩

theorem answer_ne_ok (request : UsageError) : s.answer request ≠ .ok next := by
  intro answers
  obtain ⟨_, _, impossible⟩ := bind_eq_ok_iff.mp answers
  cases impossible

theorem shortOptions_ne_ok (letters : List Char) : s.shortOptions g letters ≠ .ok next := by
  intro answers
  unfold shortOptions at answers
  split at answers
  · exact answer_ne_ok _ answers
  · split at answers
    · exact answer_ne_ok _ answers
    · cases answers
  · cases answers

theorem positional_ne_ok (valued : g.OnlyValued) : s.positional g text ≠ .ok next := by
  intro answers
  rw [positional, valued.noPositionals, if_neg (Nat.not_lt_zero _)] at answers
  split at answers <;> cases answers

/-- What an option does to a settled scan: its value is recorded if it is there, and awaited otherwise. -/
def Takes (rule : OptionRule) (value : Option String) (before after : Scan) : Prop :=
  match value with
  | none => after = { before with pending := some (rule, none) }
  | some v => before.record rule v = .ok after

theorem longOption_ok (valued : g.OnlyValued) {name : String} {value : Option String}
    (accepted : s.longOption g name value = .ok next) :
    ∃ rule ∈ g.options, rule.name = name ∧ ∃ before, s.settle = .ok before ∧ Takes rule value before next := by
  rw [longOption] at accepted
  cases found : g.options.find? (·.name = name) with
  | none =>
      rw [found] at accepted
      dsimp only at accepted
      split at accepted
      · split at accepted
        · cases accepted
        · exact absurd accepted (answer_ne_ok _)
      · cases accepted
  | some rule =>
      have member := List.mem_of_find?_eq_some found
      have same : rule.name = name := by simpa using List.find?_some found
      rw [found] at accepted
      simp only [valued.valued rule member, if_true] at accepted
      cases value with
      | none =>
          obtain ⟨before, settles, outcome⟩ := map_eq_ok_iff.mp accepted
          exact ⟨rule, member, same, before, settles, outcome.symm⟩
      | some v =>
          obtain ⟨before, settles, outcome⟩ := bind_eq_ok_iff.mp accepted
          exact ⟨rule, member, same, before, settles, outcome⟩

theorem word_cases (valued : g.OnlyValued) (options : s.onlyPositionals = false) (accepted : s.word g text = .ok next) :
    next.onlyPositionals = true ∨
      (Word.ofText text = .plain ∧
        ∃ rule, s.pending = some (rule, none) ∧ next = { s with pending := some (rule, some text) }) ∨
      ∃ rule ∈ g.options, ∃ value, text = Word.optionText rule.name value ∧
        ∃ before, s.settle = .ok before ∧ Takes rule value before next := by
  rw [word, if_neg (ne_true_of_eq_false options)] at accepted
  split at accepted
  case h_1 =>
    cases accepted
    exact .inl rfl
  case h_2 name value reads =>
    obtain ⟨rule, member, same, taken⟩ := longOption_ok valued accepted
    exact .inr (.inr ⟨rule, member, value, same ▸ Word.eq_optionText_of_ofText reads, taken⟩)
  case h_3 letters reads => exact absurd accepted (shortOptions_ne_ok letters)
  case h_4 reads =>
    split at accepted
    case h_1 rule awaited => exact .inr (.inl ⟨reads, rule, awaited, (Except.ok.inj accepted).symm⟩)
    case h_2 => exact absurd accepted (positional_ne_ok valued)

/-! ## All words of a level -/

theorem level_cons_ok {result : Scan × Option (String × List String)}
    (reads : level g (text :: words) s = .ok result) :
    (s.namesSubcommand g text ∧ result = (s, some (text, words))) ∨
      (s.namesSubcommand g text = false ∧ ∃ next, s.word g text = .ok next ∧ level g words next = .ok result) := by
  rw [level] at reads
  split at reads
  case isTrue names => exact .inl ⟨names, (Except.ok.inj reads).symm⟩
  case isFalse names =>
    split at reads
    · cases reads
    case h_2 next accepted => exact .inr ⟨eq_false_of_ne_true names, next, accepted, reads⟩

theorem level_ne_of_onlyPositionals (valued : g.OnlyValued) (ended : s.onlyPositionals = true)
    (rest : String × List String) : level g words s ≠ .ok (t, some rest) := by
  intro reads
  cases words with
  | nil => cases reads
  | cons text words =>
      rcases level_cons_ok reads with ⟨names, _⟩ | ⟨_, next, accepted, _⟩
      · simp [namesSubcommand, ended] at names
      · rw [word, if_pos ended] at accepted
        exact positional_ne_ok valued accepted

structure Ready (s : Scan) : Prop where
  options : s.onlyPositionals = false
  complete : s.awaitsValue = false

theorem Takes.onlyPositionals_eq {rule : OptionRule} {value : Option String} (taken : Takes rule value s next) :
    next.onlyPositionals = s.onlyPositionals := by
  cases value with
  | none => rw [taken]
  | some v => rw [record_ok taken]

theorem level_optionText (valued : g.OnlyValued) {rule : OptionRule} (known : rule ∈ g.options) {value : Option String}
    {rest : String × List String} (ready : s.Ready)
    (reads : level g (Word.optionText rule.name value :: words) s = .ok (t, some rest)) :
    ∃ before next, s.settle = .ok before ∧ Takes rule value before next ∧ next.onlyPositionals = false ∧
      level g words next = .ok (t, some rest) := by
  have long : Word.ofText (Word.optionText rule.name value) = .long rule.name value :=
    Word.ofText_optionText (valued.named rule known).1 (valued.named rule known).2 value
  rcases level_cons_ok reads with ⟨names, _⟩ | ⟨_, next, accepted, continues⟩
  · simp only [namesSubcommand, Bool.and_eq_true, decide_eq_true_eq] at names
    rw [valued.plainSubcommands _ names.2] at long
    cases long
  · rcases word_cases valued ready.options accepted with
      ended | ⟨plain, _⟩ | ⟨other, member, value', same, before, settles, taken⟩
    · exact absurd continues (level_ne_of_onlyPositionals valued ended rest)
    · rw [plain] at long
      cases long
    · have reread := Word.ofText_optionText (valued.named other member).1 (valued.named other member).2 value'
      rw [← same, long] at reread
      obtain ⟨names, rfl⟩ := Word.long.inj reread
      obtain rfl := List.inj_on_of_nodup_map valued.distinct known member names
      refine ⟨before, next, settles, taken, ?_, continues⟩
      rw [taken.onlyPositionals_eq, (settle_ok settles).1, ready.options]

theorem level_awaited (valued : g.OnlyValued) {rule : OptionRule} {rest : String × List String}
    (options : s.onlyPositionals = false) (awaits : s.pending = some (rule, none))
    (reads : level g (text :: words) s = .ok (t, some rest)) :
    level g words { s with pending := some (rule, some text) } = .ok (t, some rest) := by
  rcases level_cons_ok reads with ⟨names, _⟩ | ⟨_, next, accepted, continues⟩
  · simp [namesSubcommand, awaitsValue, awaits] at names
  · rcases word_cases valued options accepted with
      ended | ⟨_, other, same, rfl⟩ | ⟨_, _, _, _, _, settles, _⟩
    · exact absurd continues (level_ne_of_onlyPositionals valued ended rest)
    · rw [awaits] at same
      cases same
      exact continues
    · rw [settle, awaits] at settles
      cases settles

theorem level_occurrence (valued : g.OnlyValued) (o : Occurrence g) {rest : String × List String} (ready : s.Ready)
    (reads : level g (o.words ++ words) s = .ok (t, some rest)) :
    ∃ next : Scan, next.Ready ∧ level g words next = .ok (t, some rest) ∧
      ∀ after, next.settle = .ok after →
        ∃ before, s.settle = .ok before ∧ after.settled = before.settled ++ [o.entry] := by
  rw [Occurrence.words] at reads
  split at reads
  case isTrue =>
    obtain ⟨before, next, settles, taken, options, continues⟩ := level_optionText valued o.known ready reads
    have complete := record_ok taken
    refine ⟨next, ⟨options, by rw [complete]; rfl⟩, continues, fun after settled => ⟨before, settles, ?_⟩⟩
    rw [complete] at settled
    cases settled
    rfl
  case isFalse =>
    obtain ⟨before, next, settles, taken, options, continues⟩ := level_optionText valued o.known ready reads
    obtain rfl : next = _ := taken
    refine ⟨_, ?_, level_awaited valued options rfl continues, fun after settled => ⟨before, settles, ?_⟩⟩
    · exact ⟨options, rfl⟩
    · rw [record_ok settled]
      rfl

/-- What is settled at the subcommand are the options before it, each with its value. -/
theorem level_words (valued : g.OnlyValued) {command : String} (known : command ∈ g.subcommands)
    {after : List String} {rest : String × List String} (given : List (Occurrence g)) (ready : s.Ready)
    (reads : level g (given.flatMap Occurrence.words ++ command :: after) s = .ok (t, some rest)) :
    rest = (command, after) ∧ ∀ settled, t.settle = .ok settled →
      ∃ before, s.settle = .ok before ∧ settled.settled = before.settled ++ given.map Occurrence.entry := by
  induction given generalizing s with
  | nil =>
      rcases level_cons_ok reads with ⟨_, result⟩ | ⟨unnamed, _⟩
      · cases result
        exact ⟨rfl, fun settled settles => ⟨settled, settles, (List.append_nil _).symm⟩⟩
      · simp [namesSubcommand, ready.options, ready.complete, known] at unnamed
  | cons o given ih =>
      rw [List.flatMap_cons, List.append_assoc] at reads
      obtain ⟨next, continued, continues, entered⟩ := level_occurrence valued o ready reads
      obtain ⟨same, settled⟩ := ih continued continues
      refine ⟨same, fun last settles => ?_⟩
      obtain ⟨middle, settlesMiddle, added⟩ := settled last settles
      obtain ⟨before, settlesBefore, entry⟩ := entered middle settlesMiddle
      exact ⟨before, settlesBefore, by rw [added, entry, List.append_assoc]; rfl⟩

def unfinished (s : Scan) : List String :=
  match s.pending with
  | some (rule, none) => [Word.optionText rule.name none]
  | _ => []

theorem unfinished_eq_nil (complete : s.awaitsValue = false) : s.unfinished = [] := by
  rw [unfinished]
  split
  case h_1 rule pending =>
    rw [awaitsValue, pending] at complete
    cases complete
  case h_2 => rfl

/-- The words of a level that ends at a subcommand are those of some options and then the subcommand.  In the midst of
the level an option may still await its value, and its word counts to those that come. -/
theorem exists_words (valued : g.OnlyValued) {rest : String × List String} (options : s.onlyPositionals = false)
    (known : ∀ rule value, s.pending = some (rule, value) → rule ∈ g.options)
    (reads : level g words s = .ok (t, some rest)) :
    rest.1 ∈ g.subcommands ∧ ∃ given : List (Occurrence g),
      s.unfinished ++ words = given.flatMap Occurrence.words ++ rest.1 :: rest.2 := by
  induction words generalizing s with
  | nil => cases reads
  | cons text words ih =>
      rcases level_cons_ok reads with ⟨names, result⟩ | ⟨_, next, accepted, continues⟩
      · cases result
        simp only [namesSubcommand, Bool.and_eq_true, Bool.not_eq_true', decide_eq_true_eq] at names
        exact ⟨names.2, [], by rw [unfinished_eq_nil names.1.2]; rfl⟩
      · rcases word_cases valued options accepted with
          ended | ⟨_, rule, awaits, rfl⟩ | ⟨rule, member, value, rfl, before, settles, taken⟩
        · exact absurd continues (level_ne_of_onlyPositionals valued ended rest)
        -- the value of the option before: the two words make up one occurrence
        · have member := known rule none awaits
          have optionsNext : ({ s with pending := some (rule, some text) } : Scan).onlyPositionals = false := options
          obtain ⟨named, given, same⟩ :=
            ih optionsNext (fun other _ pending => by cases pending; exact member) continues
          refine ⟨named, ⟨rule, member, text, false⟩ :: given, ?_⟩
          have whole : words = given.flatMap Occurrence.words ++ rest.1 :: rest.2 := same
          rw [unfinished, awaits, whole]
          rfl
        · obtain ⟨kept, complete⟩ := settle_ok settles
          have optionsNext : next.onlyPositionals = false := by rw [taken.onlyPositionals_eq, kept, options]
          rw [unfinished_eq_nil complete]
          cases value with
          | none =>
              obtain rfl : next = _ := taken
              exact ih optionsNext (fun other _ pending => by cases pending; exact member) continues
          | some v =>
              have recorded := record_ok taken
              obtain ⟨named, given, same⟩ :=
                ih optionsNext (fun other _ pending => by rw [recorded] at pending; cases pending) continues
              refine ⟨named, ⟨rule, member, v, true⟩ :: given, ?_⟩
              have whole : words = given.flatMap Occurrence.words ++ rest.1 :: rest.2 := by
                rw [recorded] at same
                exact same
              rw [whole]
              rfl

end Scan

end DocQuery.Shell
