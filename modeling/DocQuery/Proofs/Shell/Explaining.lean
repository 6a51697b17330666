import DocQuery.Proofs.Client.Grouping
import DocQuery.Proofs.Shell.Conditions
import DocQuery.Shell.Response

namespace DocQuery.Shell

/-! ## Conditions as calls -/

namespace Expression

variable {kind : Connective} {text : String} {e : Expression} {conditions : List (Connective × String)}
  {calls : List ConditionCall}

def comparison : Connective → String → Operator → Value → ConditionCall
  | .and => .compare
  | .or => .orCompare

def AddedBy (condition : Connective × String) (call : ConditionCall) : Prop :=
  ∃ e, parse condition.1 condition.2 = .ok e ∧ call = comparison condition.1 e.field e.operator e.operand

theorem kind_of_parse (parsed : parse kind text = .ok e) : e.kind = kind := by
  rw [parse] at parsed
  split at parsed <;> cases parsed
  rfl

theorem inScope_comparison (parsed : parse kind text = .ok e) :
    (comparison kind e.field e.operator e.operand).inScope = e.toStep := by
  rw [toStep, kind_of_parse parsed]
  cases kind <;> rfl

theorem parseAll_ok (valid : List.Forall₂ AddedBy conditions calls) :
    ∃ expressions, parseAll conditions = .ok expressions ∧
      calls.map ConditionCall.inScope = expressions.map toStep := by
  induction valid with
  | nil => exact ⟨[], rfl, rfl⟩
  | @cons condition call rest calls added _ ih =>
      obtain ⟨e, parsed, rfl⟩ := added
      obtain ⟨expressions, others, same⟩ := ih
      refine ⟨e :: expressions, ?_, ?_⟩
      · rw [parseAll, parsed, others]
        rfl
      · rw [List.map_cons, List.map_cons, same, inScope_comparison parsed]

theorem parseAll_error {condition : Connective × String} {fault : ExpressionError} (member : condition ∈ conditions)
    (invalid : parse condition.1 condition.2 = .error fault) :
    ∃ stopped ∈ conditions, ∃ cause, parse stopped.1 stopped.2 = .error cause ∧ parseAll conditions = .error cause := by
  induction conditions with
  | nil => cases member
  | cons first rest ih =>
      rw [parseAll]
      cases parsed : parse first.1 first.2 with
      | error cause => exact ⟨first, List.mem_cons_self, cause, parsed, rfl⟩
      | ok e =>
          rcases List.mem_cons.mp member with rfl | member
          · rw [parsed] at invalid
            cases invalid
          · obtain ⟨stopped, among, cause, stops, outcome⟩ := ih member
            exact ⟨stopped, List.mem_cons_of_mem _ among, cause, stops, by rw [outcome]; rfl⟩

end Expression

section Query

variable {inv : Invocation} {expressions : List Expression} {calls : List ConditionCall}

theorem queryFor_eq_callAll (same : calls.map ConditionCall.inScope = expressions.map Expression.toStep)
    (client : Client) :
    queryFor inv expressions client = (client.newQuery.inTable (inv.table.getD "")).callAll calls := by
  have each : Query.call = fun q call => q.addCondition call.inScope := by
    funext q call
    exact q.call_eq_addCondition call
  let add (q : Query) (step : ConditionStep) : Query := q.addCondition step
  let start := client.newQuery.inTable (inv.table.getD "")
  calc queryFor inv expressions client = (expressions.map Expression.toStep).foldl add start := by
        rw [List.foldl_map]
        rfl
    _ = (calls.map ConditionCall.inScope).foldl add start := by rw [same]
    _ = start.callAll calls := by rw [List.foldl_map, Query.callAll, each]

theorem filter?_queryFor (same : calls.map ConditionCall.inScope = expressions.map Expression.toStep)
    (client other : Client) :
    (queryFor inv expressions client).filter? = (other.newQuery.callAll calls).filter? := by
  rw [queryFor_eq_callAll same, Query.callAll_eq_runAll, Query.callAll_eq_runAll, Query.inTable]
  split <;> rfl

theorem exists_filter?_callAll (client : Client) (calls : List ConditionCall) :
    ∃ filter, (client.newQuery.callAll calls).filter? = .ok filter := by
  have new : client.newQuery.assembly = { promotion := .relabel } := rfl
  rw [Query.callAll_eq_runAll, Query.filter?, Query.group?, new, ConditionStep.group?_runAll]
  exact ⟨_, rfl⟩

end Query

/-! ## The run -/

theorem assembly_shaped (shape : Shape) (q : Query) : (shaped shape q).assembly = q.assembly := by
  rw [shaped]
  by_cases unselected : shape.select = [] <;> by_cases unordered : shape.orderBy = [] <;>
    simp [unselected, unordered, Query.select, Query.orderBy]

theorem explain_shaped (shape : Shape) {q : Query} {filter : Value} (compiled : q.filter? = .ok filter) :
    ∃ x : Explanation, (shaped shape q).explain = .ok x ∧ x.filter = filter := by
  rw [Query.filter?, Query.group?, ← assembly_shaped shape q] at compiled
  rw [Query.explain, Query.filter?, Query.group?, compiled]
  exact ⟨_, rfl, rfl⟩

theorem loadSeed_ok {file : String → Option String} {path text : String} {seed : Seed} (settings : Settings)
    (found : file path = some text) (parsed : Seed.parse text = .ok seed) (s : Session MemoryStore) :
    (loadSeed file settings path s).1 = .ok () := by
  rw [loadSeed, found]
  dsimp only
  rw [parsed]
  cases settings.database <;> rfl

def Invocation.SeedReadable (inv : Invocation) (file : String → Option String) : Prop :=
  ∀ path ∈ inv.seed, ∃ text seed, file path = some text ∧ Seed.parse text = .ok seed

theorem exists_run_eq {inv : Invocation} {file : String → Option String} (readable : inv.SeedReadable file)
    (expressions : List Expression) (settings : Settings) (s : Session MemoryStore) :
    ∃ client after, run inv expressions file settings s =
      carryOut client (queryFor inv expressions client) inv.command after := by
  rw [run]
  cases chosen : inv.seed with
  | none => exact ⟨_, _, rfl⟩
  | some path =>
      obtain ⟨text, seed, found, parsed⟩ := readable path chosen
      have loaded := loadSeed_ok (settingsFor inv settings) found parsed s
      dsimp only
      cases outcome : loadSeed file (settingsFor inv settings) path s with
      | mk answer after =>
          rw [outcome] at loaded
          obtain rfl : answer = .ok () := loaded
          exact ⟨_, _, rfl⟩

theorem parseCommand_explain {words : List String} {command : Command}
    (commanded : parseCommand "explain" words = .ok command) : ∃ shape, command = .explain shape := by
  have known : commandGrammars.lookup "explain" = some { options := shapeRules } := rfl
  rw [parseCommand, known] at commanded
  dsimp only at commanded
  split at commanded
  · cases commanded
  · obtain ⟨settled, _, outcome⟩ := Scan.bind_eq_ok_iff.mp commanded
    exact ⟨shapeOf settled, (Except.ok.inj outcome).symm⟩

theorem run_explain {inv : Invocation} {shape : Shape} (asked : inv.command = .explain shape)
    {file : String → Option String} (readable : inv.SeedReadable file) {expressions : List Expression}
    {calls : List ConditionCall} (same : calls.map ConditionCall.inScope = expressions.map Expression.toStep)
    (settings : Settings) (s : Session MemoryStore) :
    ∃ x : Explanation, (run inv expressions file settings s).1 = .ok x.toValue ∧
      ∀ client : Client, (client.newQuery.callAll calls).filter? = .ok x.filter := by
  obtain ⟨client, after, reached⟩ := exists_run_eq readable expressions settings s
  obtain ⟨filter, compiled⟩ := exists_filter?_callAll client calls
  have asQuery : (queryFor inv expressions client).filter? = .ok filter :=
    (filter?_queryFor same client client).trans compiled
  obtain ⟨x, explained, rfl⟩ := explain_shaped shape asQuery
  refine ⟨x, ?_, fun other => (filter?_queryFor same client other).symm.trans asQuery⟩
  rw [reached, asked, carryOut, asking, explained]
  rfl

/-! ## The response -/

namespace CommandLine

/-- A command line that is accepted consists of options, a subcommand and the words after it, and `explain` prints the
filter of the calls of the builder, one for each condition in their order. -/
theorem explained_as_called {place : Nat → Nat} (grows : StrictMono place) {words : List String} {inv : Invocation}
    (accepted : Invocation.parse words place = .ok inv) :
    (∃ line : CommandLine, line.words = words) ∧
      ∀ line : CommandLine, line.words = words →
        (∀ calls, List.Forall₂ Expression.AddedBy line.conditions calls → line.command = "explain" →
          ∀ env file ids settings, Settings.ofEnvironment env = .ok settings → inv.SeedReadable file →
          ∃ x : Explanation,
            respond words env file ids place = { exitCode := 0, output := x.toValue.prettyText ++ "\n" } ∧
            ∀ client : Client, (client.newQuery.callAll calls).filter? = .ok x.filter) ∧
        ∀ condition ∈ line.conditions, ∀ fault, Expression.parse condition.1 condition.2 = .error fault →
          ∃ stopped ∈ line.conditions, ∃ cause, Expression.parse stopped.1 stopped.2 = .error cause ∧
            ∀ env file ids, respond words env file ids place = failure [cause.message] := by
  refine ⟨Invocation.exists_commandLine accepted, ?_⟩
  rintro line rfl
  obtain ⟨commanded, conditions⟩ := Invocation.parse_words grows accepted
  constructor
  · intro calls added asked env file ids settings configured readable
    rw [asked] at commanded
    obtain ⟨shape, command⟩ := parseCommand_explain commanded
    obtain ⟨expressions, valid, same⟩ := Expression.parseAll_ok added
    obtain ⟨x, printed, filter⟩ := run_explain command readable same settings { store := {}, ids }
    refine ⟨x, ?_, filter⟩
    rw [respond, accepted]
    dsimp only
    rw [conditions, valid, configured]
    dsimp only
    rw [printed]
  · intro condition member fault invalid
    obtain ⟨stopped, among, cause, stops, outcome⟩ := Expression.parseAll_error member invalid
    refine ⟨stopped, among, cause, stops, fun env file ids => ?_⟩
    rw [respond, accepted]
    dsimp only
    rw [conditions, outcome]

theorem explained_as_called_interleaved :
    let unset : String → Option String := fun _ => none
    StrictMono valuePlace ∧
      (∀ ids, ∃ x : Explanation,
        respond ["--table", "t", "--where", "a = x", "--or-where=b > y", "--where", "c = z", "explain"]
          unset unset ids = { exitCode := 0, output := x.toValue.prettyText ++ "\n" } ∧
        x.filter = .object [("$or", .array [.object [("a", .object [("$eq", .string "x")])],
          .object [("b", .object [("$gt", .string "y")])], .object [("c", .object [("$eq", .string "z")])]])]) ∧
      ∀ ids, respond ["--where", "a = x", "--or-where", "b", "count"] unset unset ids =
        failure ["invalid condition 'b': expected '<field> <op> <value>'"] := by
  intro unset
  have grows : StrictMono valuePlace := fun m n before => by simp only [valuePlace]; omega
  have first : Expression.parse .and "a = x" = .ok ⟨.and, "a", .eq, .string "x"⟩ := by rfl
  refine ⟨grows, fun ids => ?_, fun ids => ?_⟩
  · let line : CommandLine := {
      options := [⟨{ name := "table" }, by simp [mainGrammar], "t", false⟩,
        ⟨{ name := "where", repeatable := true }, by simp [mainGrammar], "a = x", false⟩,
        ⟨{ name := "or-where", repeatable := true }, by simp [mainGrammar], "b > y", true⟩,
        ⟨{ name := "where", repeatable := true }, by simp [mainGrammar], "c = z", false⟩]
      command := "explain"
      known := by decide }
    let calls : List ConditionCall :=
      [.compare "a" .eq (.string "x"), .orCompare "b" .gt (.string "y"), .compare "c" .eq (.string "z")]
    have second : Expression.parse .or "b > y" = .ok ⟨.or, "b", .gt, .string "y"⟩ := by rfl
    have third : Expression.parse .and "c = z" = .ok ⟨.and, "c", .eq, .string "z"⟩ := by rfl
    have added : List.Forall₂ Expression.AddedBy line.conditions calls :=
      .cons ⟨_, first, rfl⟩ (.cons ⟨_, second, rfl⟩ (.cons ⟨_, third, rfl⟩ .nil))
    have accepted : Invocation.parse
        ["--table", "t", "--where", "a = x", "--or-where=b > y", "--where", "c = z", "explain"] =
          .ok { table := some "t"
                conditions := conditionsOf valuePlace { settled := line.options.map Occurrence.entry }
                command := .explain {} } := by rfl
    have readable : Invocation.SeedReadable { table := some "t", command := .explain {} } unset := nofun
    obtain ⟨x, printed, filter⟩ :=
      ((explained_as_called grows accepted).2 line rfl).1 calls added rfl unset unset ids {} rfl readable
    refine ⟨x, printed, ?_⟩
    exact Except.ok.inj ((filter ⟨{}, none⟩).symm.trans rfl)
  · let line : CommandLine := {
      options := [⟨{ name := "where", repeatable := true }, by simp [mainGrammar], "a = x", false⟩,
        ⟨{ name := "or-where", repeatable := true }, by simp [mainGrammar], "b", false⟩]
      command := "count"
      known := by decide }
    have last : Expression.parse .or "b" = .error (.malformed "b") := by rfl
    have accepted : Invocation.parse ["--where", "a = x", "--or-where", "b", "count"] =
        .ok { conditions := conditionsOf valuePlace { settled := line.options.map Occurrence.entry }
              command := .count } := by rfl
    obtain ⟨stopped, among, cause, stops, outcome⟩ :=
      ((explained_as_called grows accepted).2 line rfl).2 (.or, "b") (.tail _ (.head _)) _ last
    have conditions : line.conditions = [(.and, "a = x"), (.or, "b")] := by rfl
    rw [conditions] at among
    rcases List.mem_pair.mp among with rfl | rfl
    · rw [first] at stops
      cases stops
    · rw [last] at stops
      cases stops
      exact outcome unset unset ids

end CommandLine

end DocQuery.Shell
