import DocQuery.Filter.Condition
import DocQuery.Shell.Options

namespace DocQuery.Shell

structure Shape where
  select : List String := []
  orderBy : List String := []
  descending : Bool := false
deriving DecidableEq

inductive Command where
  | find (limit : Nat) (shape : Shape)
  | first (shape : Shape)
  | count
  | delete
  | update (fields : String)
  | insert (documents : String)
  | explain (shape : Shape)
deriving DecidableEq

structure Invocation where
  seed : Option String := none
  database : Option String := none
  table : Option String := none
  conditions : List (Connective × String) := []
  command : Command
deriving DecidableEq

/-! ## The grammar -/

def limit? (text : String) : Option Nat := Text.unsigned? Text.wordLimit text.toList

def limitRule : OptionRule :=
  { name := "limit", fault? := fun text => if (limit? text).isSome then none else some .malformedValue }

def seedRule : OptionRule :=
  { name := "seed", fault? := fun text => if text = "" then some .missingOrEmptyValue else none }

def shapeRules : List OptionRule :=
  [{ name := "select", repeatable := true }, { name := "order-by", repeatable := true },
   { name := "desc", takesValue := false }]

def commandGrammars : List (String × Grammar) :=
  [("find", { options := limitRule :: shapeRules }), ("first", { options := shapeRules }),
   ("count", {}), ("delete", {}), ("update", { positionals := 1 }), ("insert", { positionals := 1 }),
   ("explain", { options := shapeRules })]

def helpCommand : String := "help"

def mainGrammar : Grammar where
  options := [seedRule, { name := "db" }, { name := "table" }, { name := "where", repeatable := true },
    { name := "or-where", repeatable := true }]
  subcommands := commandGrammars.map Prod.fst ++ [helpCommand]
  hasVersion := true

/-! ## Reading an invocation -/

def listedFields (text : String) : List String := (Text.splitOn ',' text.toList).map String.ofList

def shapeOf (s : Scan) : Shape where
  select := (s.values "select").flatMap listedFields
  orderBy := (s.values "order-by").flatMap listedFields
  descending := s.has "desc"

def commandOf (name : String) (s : Scan) : Except UsageError Command :=
  match name, s.positionals with
  | "find", _ => .ok (.find (((s.value? "limit").bind limit?).getD 0) (shapeOf s))
  | "first", _ => .ok (.first (shapeOf s))
  | "count", _ => .ok .count
  | "delete", _ => .ok .delete
  | "update", [fields] => .ok (.update fields)
  | "insert", [documents] => .ok (.insert documents)
  | "explain", _ => .ok (.explain (shapeOf s))
  | _, _ => .error .missingArgument

def helpOn : List String → UsageError
  | [] => .help
  | [name] => if name ∈ mainGrammar.subcommands then .help else .invalidSubcommand
  | _ => .invalidSubcommand

def parseCommand (name : String) (words : List String) : Except UsageError Command :=
  match commandGrammars.lookup name with
  | none => .error (helpOn words)
  | some grammar =>
      match Scan.level grammar words {} with
      | .error e => .error e
      | .ok (s, _) => s.settle.bind (commandOf name)

/-- The place of the value that comes after `n` others: an option takes up one place and its value the next one, and
places are counted from one. -/
def valuePlace (n : Nat) : Nat := 2 * n + 2

def conditionOptions : List (String × Connective) := [("where", .and), ("or-where", .or)]

/-- The values of the two options come as two lists, and their places tell how to put them together. -/
def conditionsOf (place : Nat → Nat) (s : Scan) : List (Connective × String) :=
  let placed := conditionOptions.flatMap fun (name, kind) =>
    ((s.places place name).zip (s.values name)).map fun (position, text) => (position, kind, text)
  (placed.mergeSort fun a b => a.1 ≤ b.1).map (·.2)

/-- Reads a command line.  The faults of the subcommand come before those of an option that is still
pending where the subcommand is named. -/
def Invocation.parse (words : List String) (place : Nat → Nat := valuePlace) : Except UsageError Invocation :=
  match Scan.level mainGrammar words {} with
  | .error e => .error e
  | .ok (s, none) =>
      match s.settle with
      | .error e => .error e
      | .ok settled => .error (if settled.settled = [] then .helpForNothing else .missingSubcommand)
  | .ok (s, some (name, rest)) =>
      match parseCommand name rest with
      | .error e => .error e
      | .ok command =>
          s.settle.map fun settled => {
            seed := settled.value? "seed"
            database := settled.value? "db"
            table := settled.value? "table"
            conditions := conditionsOf place settled
            command }

end DocQuery.Shell
