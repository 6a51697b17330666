import DocQuery.Client.Session
import DocQuery.Shell.Expression
import DocQuery.Shell.Invocation
import DocQuery.Store.Memory
import DocQuery.Value.Reader

namespace DocQuery.Shell

/-! ## Seeds -/

abbrev Seed := List (String × List Document)

inductive SeedError where
  | notJson
  | notAnObject
  | notAnArray (table : String)
  | notADocument (table : String) (index : Nat)
deriving DecidableEq

namespace Seed

def documents? (table : String) (index : Nat) : List Value → Except SeedError (List Document)
  | [] => .ok []
  | .object doc :: rest => (documents? table (index + 1) rest).map (doc :: ·)
  | _ :: _ => .error (.notADocument table index)

def tables? : List (String × Value) → Except SeedError Seed
  | [] => .ok []
  | (table, .array items) :: rest =>
      match documents? table 0 items with
      | .error e => .error e
      | .ok docs => (tables? rest).map ((table, docs) :: ·)
  | (table, _) :: _ => .error (.notAnArray table)

def parse (text : String) : Except SeedError Seed :=
  match Value.ofText? text with
  | none => .error .notJson
  | some (.object fields) => tables? fields
  | some _ => .error .notAnObject

end Seed

/-! ## Errors -/

inductive Cause where
  | message (text : String)
  | malformedJson
  | missingFile
deriving DecidableEq

inductive RunError where
  | expression (cause : ExpressionError)
  | seedMissing (path : String)
  | seedInvalid (path : String) (cause : SeedError)
  | malformedArgument (text : String)
  | notInsertable
  | query (cause : QueryError)

def SeedError.cause : SeedError → Cause
  | notJson => .malformedJson
  | notAnObject => .message "top level must be an object mapping table names to document arrays"
  | notAnArray table => .message ("table '" ++ table ++ "' must be an array of documents")
  | notADocument table index =>
      .message ("table '" ++ table ++ "' entry " ++ toString index ++ " is not an object")

def RunError.chain : RunError → List Cause
  | expression cause => [.message cause.message]
  | seedMissing path => [.message ("failed to read seed file " ++ path), .missingFile]
  | seedInvalid path cause => [.message ("invalid seed file " ++ path), cause.cause]
  | malformedArgument text => [.message ("invalid JSON argument: " ++ text), .malformedJson]
  | notInsertable => [.message "insert expects a JSON object or an array of objects"]
  | query cause => [.message cause.message]

/-! ## Carrying out a command -/

abbrev Job (α : Type) := Session MemoryStore → Except RunError α × Session MemoryStore

def asking {α : Type} (task : Task MemoryStore α) (report : α → Value) : Job Value := fun s =>
  let (answer, after) := task s
  ((answer.map report).mapError .query, after)

def shaped (shape : Shape) (q : Query) : Query :=
  let selected := if shape.select = [] then q else q.select shape.select
  if shape.orderBy = [] then selected
  else selected.orderBy shape.orderBy (if shape.descending then .descending else .ascending)

def documentsReport (docs : List Document) : Value := .array (docs.map .object)

def firstReport (doc : Option Document) : Value := (doc.map .object).getD .null

def countReport (label : String) (n : Nat) : Value := .object [(label, .ofNat n)]

def updateReport (counts : UpdateCounts) : Value :=
  .object [("matched", .ofNat counts.matched), ("modified", .ofNat counts.modified)]

def insertReport (identities : List Value) : Value := .object [("inserted", .array identities)]

def insertText (client : Client) (q : Query) (text : String) : Job Value :=
  match Value.ofText? text with
  | none => fun s => (.error (.malformedArgument text), s)
  | some (.array vs) => asking (q.createMany client vs) insertReport
  | some (.object fields) =>
      asking (q.create client (Value.object fields)) fun id => insertReport [id]
  | some _ => fun s => (.error .notInsertable, s)

def updateText (client : Client) (q : Query) (text : String) : Job Value :=
  match Value.ofText? text with
  | none => fun s => (.error (.malformedArgument text), s)
  | some fields => asking (q.update client fields) updateReport

def carryOut (client : Client) (q : Query) : Command → Job Value
  | .find limit shape => asking ((shaped shape q).get client limit) documentsReport
  | .first shape => asking ((shaped shape q).first client) firstReport
  | .count => asking (q.count client) (countReport "count")
  | .delete => asking (q.delete client) (countReport "deleted")
  | .update fields => updateText client q fields
  | .insert documents => insertText client q documents
  | .explain shape => asking (fun s => ((shaped shape q).explain, s)) Explanation.toValue

/-! ## The whole run -/

def load (database : String) : Seed → Session MemoryStore → Session MemoryStore
  | [], s => s
  | (table, docs) :: rest, s =>
      let logged := s.record (.seeding database table docs.length)
      load database rest { logged with store := logged.store.seed ⟨database, table⟩ docs }

def loadSeed (file : String → Option String) (settings : Settings) (path : String) : Job Unit := fun s =>
  match file path with
  | none => (.error (.seedMissing path), s)
  | some text =>
      match Seed.parse text, settings.database with
      | .error cause, _ => (.error (.seedInvalid path cause), s)
      | .ok seed, some database => (.ok (), load database seed s)
      | .ok _, none => (.ok (), s.record .seedNotLoaded)

def settingsFor (inv : Invocation) (settings : Settings) : Settings :=
  match inv.database with
  | some name => settings.withDatabase name
  | none => settings

def queryFor (inv : Invocation) (expressions : List Expression) (client : Client) : Query :=
  let start := client.newQuery.inTable (inv.table.getD "")
  expressions.foldl (fun q e => q.addCondition e.toStep) start

def conditionEvents (expressions : List Expression) : List Event :=
  ConditionStep.eventsAll (expressions.map Expression.toStep) {}

def run (inv : Invocation) (expressions : List Expression) (file : String → Option String)
    (settings : Settings) : Job Value := fun s =>
  let settings := settingsFor inv settings
  let seeded := match inv.seed with
    | some path => loadSeed file settings path s
    | none => (.ok (), s)
  match seeded with
  | (.error e, after) => (.error e, after)
  | (.ok (), after) =>
      let (client, connected) := Client.connect settings after
      carryOut client (queryFor inv expressions client) inv.command
        (connected.recordAll (conditionEvents expressions))

def Invocation.run (inv : Invocation) (file : String → Option String) (settings : Settings) : Job Value :=
  fun s =>
    let parsed := s.recordAll (Expression.eventsAll inv.conditions)
    match Expression.parseAll inv.conditions with
    | .error e => (.error (.expression e), parsed)
    | .ok expressions => Shell.run inv expressions file settings parsed

/-! ## Responses -/

structure Response where
  exitCode : UInt8
  output : String := ""
  complaint : String := ""

def usageText : String :=
  "Usage: quarry [--seed FILE] [--db NAME] [--table NAME] [--where COND]... [--or-where COND]... COMMAND\n"
  ++ "Commands: find, first, count, delete, update JSON, insert JSON, explain\n"

def versionText : String := "quarry 0.3.0\n"

def Cause.text : Cause → String
  | message text => text
  | malformedJson => "malformed JSON"
  | missingFile => "no such file"

def failure (causes : List String) : Response :=
  { exitCode := 1, complaint := "Error: " ++ String.intercalate ": " causes ++ "\n" }

def respond (words : List String) (env file : String → Option String) (ids : IdSupply)
    (place : Nat → Nat := valuePlace) : Response :=
  match Invocation.parse words place with
  | .error .help => { exitCode := 0, output := usageText }
  | .error .version => { exitCode := 0, output := versionText }
  | .error _ => { exitCode := 2, complaint := usageText }
  | .ok inv =>
      match Expression.parseAll inv.conditions, Settings.ofEnvironment env with
      | .error e, _ => failure [e.message]
      | .ok _, .error e => failure [e.message]
      | .ok expressions, .ok settings =>
          match (run inv expressions file settings { store := {}, ids }).1 with
          | .error e => failure (e.chain.map Cause.text)
          | .ok answer => { exitCode := 0, output := answer.prettyText ++ "\n" }

end DocQuery.Shell
