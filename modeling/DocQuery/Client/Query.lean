import DocQuery.Client.Event
import DocQuery.Client.Settings

namespace DocQuery

/-! ## Conditions -/

inductive ConditionStep where
  | compare (kind : Connective) (field : String) (operator : Operator) (operand : Value)
  | compareByToken (kind : Connective) (field token : String) (operand : Value)
  | group (kind : Connective) (steps : List ConditionStep)

namespace ConditionStep

def equal (kind : Connective) (field : String) (operand : Value) : ConditionStep :=
  compare kind field .eq operand

def notEqual (kind : Connective) (field : String) (operand : Value) : ConditionStep :=
  compare kind field .ne operand

def greater (kind : Connective) (field : String) (operand : Value) : ConditionStep :=
  compare kind field .gt operand

def greaterOrEqual (kind : Connective) (field : String) (operand : Value) : ConditionStep :=
  compare kind field .gte operand

def less (kind : Connective) (field : String) (operand : Value) : ConditionStep :=
  compare kind field .lt operand

def lessOrEqual (kind : Connective) (field : String) (operand : Value) : ConditionStep :=
  compare kind field .lte operand

def oneOf (kind : Connective) (field : String) (candidates : List Value) : ConditionStep :=
  compare kind field .isIn (.array candidates)

def noneOf (kind : Connective) (field : String) (candidates : List Value) : ConditionStep :=
  compare kind field .notIn (.array candidates)

mutual

def toAssemblyStep : ConditionStep → AssemblyStep
  | compare kind field operator operand => .add kind ⟨field, operator, operand⟩
  | compareByToken kind field token operand => .add kind ⟨field, .ofToken token, operand⟩
  | group kind steps => .nest kind (toAssemblySteps steps)

def toAssemblySteps : List ConditionStep → List AssemblyStep
  | [] => []
  | step :: rest => toAssemblyStep step :: toAssemblySteps rest

end

def run (step : ConditionStep) (a : Assembly) : Assembly := step.toAssemblyStep.run a

def runAll (steps : List ConditionStep) (a : Assembly) : Assembly :=
  AssemblyStep.runAll (toAssemblySteps steps) a

def nameEvents (field : String) (operator : Operator) : List Event :=
  if field = "" then [.unnamedField operator] else []

def tokenEvents (token : String) : List Event :=
  if (Operator.ofToken? token).isNone then [.unknownOperator token] else []

def closingEvents (a : Assembly) : List Event :=
  match a.scopes with
  | scope :: _ => if scope.group.isEmpty then [.emptyGroup a.depth] else []
  | [] => []

mutual

def events : ConditionStep → Assembly → List Event
  | compare _ field operator _, _ => nameEvents field operator
  | compareByToken _ field token _, _ => tokenEvents token ++ nameEvents field (.ofToken token)
  | group kind steps, a =>
      eventsAll steps (a.openGroup kind) ++ closingEvents (runAll steps (a.openGroup kind))

def eventsAll : List ConditionStep → Assembly → List Event
  | [], _ => []
  | step :: rest, a => events step a ++ eventsAll rest (run step a)

end

end ConditionStep

/-! ## Queries -/

structure Query where
  database : Option String := none
  table : Option String := none
  assembly : Assembly := {}
  projection : Projection := {}
  sort : SortOrder := {}

structure Explanation where
  filter : Value
  projection : Value
  sort : Value

def Explanation.toValue (e : Explanation) : Value :=
  .object [("filter", e.filter), ("projection", e.projection), ("sort", e.sort)]

namespace Query

def ofSettings (settings : Settings) : Query :=
  { database := settings.database.filter (· ≠ "") }

def inDatabase (name : String) (q : Query) : Query :=
  if name = "" then q else { q with database := some name }

def inTable (name : String) (q : Query) : Query :=
  if name = "" then q else { q with table := some name }

def addCondition (step : ConditionStep) (q : Query) : Query :=
  { q with assembly := step.run q.assembly }

def setPromotion (promotion : Promotion) (q : Query) : Query :=
  { q with assembly := q.assembly.setPromotion promotion }

def select (fields : List String) (q : Query) : Query :=
  { q with projection := .ofFields fields }

def orderBy (fields : List String) (direction : Direction) (q : Query) : Query :=
  { q with sort := .uniform fields direction }

def namespace? (q : Query) : Except QueryError Namespace :=
  match q.database, q.table with
  | none, _ => .error (.notSet .database)
  | some _, none => .error (.notSet .table)
  | some database, some table => .ok ⟨database, table⟩

def group? (q : Query) : Except QueryError Group := q.assembly.group?.mapError .filter

def filter? (q : Query) : Except QueryError Value := q.group?.map Group.toFilter

def findOptions (limit : Nat) (q : Query) : FindOptions :=
  { limit := if limit = 0 then none else some limit, projection := q.projection, sort := q.sort }

def explain (q : Query) : Except QueryError Explanation :=
  q.filter?.map fun filter => ⟨filter, q.projection.toValue, q.sort.toValue⟩

end Query

end DocQuery
