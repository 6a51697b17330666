/-!
# Options on a command line

A long option starts with two hyphens and takes its value after `=` or from the next word; a word of one hyphen and
letters is a run of short options.  After the word `--` only positional arguments follow.

An option without its value is complete only when the next word or the end shows whether the value is there.
Until then it is pending, and it is settled, with its faults, before the next option is accepted.  A word that
fits nowhere is a fault of its own and comes before those of a pending option.
-/

namespace DocQuery.Shell

inductive UsageError where
  | unknownArgument | invalidSubcommand | missingSubcommand | missingArgument | missingOrEmptyValue
  | malformedValue | repeatedOption | needlessValue | help | version | helpForNothing
deriving DecidableEq

structure OptionRule where
  name : String
  takesValue : Bool := true
  repeatable : Bool := false
  fault? : String → Option UsageError := fun _ => none

structure Grammar where
  options : List OptionRule := []
  positionals : Nat := 0
  subcommands : List String := []
  hasVersion : Bool := false

inductive Word where
  | separator
  | long (name : String) (value : Option String)
  | short (letters : List Char)
  | plain
deriving DecidableEq

def Word.ofText (text : String) : Word :=
  match text.toList with
  | ['-', '-'] => separator
  | '-' :: '-' :: rest =>
      let name := String.ofList (rest.takeWhile (· ≠ '='))
      match rest.dropWhile (· ≠ '=') with
      | [] => long name none
      | _ :: value => long name (some (String.ofList value))
  | '-' :: letter :: letters => short (letter :: letters)
  | _ => plain

structure Scan where
  settled : List (String × String) := []
  /-- An option that is not settled yet, with its value once that has been read. -/
  pending : Option (OptionRule × Option String) := none
  positionals : List String := []
  onlyPositionals : Bool := false

namespace Scan

def record (rule : OptionRule) (value : String) (s : Scan) : Except UsageError Scan :=
  if !rule.repeatable && s.settled.any (·.1 = rule.name) then .error .repeatedOption
  else
    match rule.fault? value with
    | some e => .error e
    | none => .ok { s with settled := s.settled ++ [(rule.name, value)], pending := none }

def settle (s : Scan) : Except UsageError Scan :=
  match s.pending with
  | none => .ok s
  | some (_, none) => .error .missingOrEmptyValue
  | some (rule, some value) => s.record rule value

def awaitsValue (s : Scan) : Bool :=
  match s.pending with
  | some (_, none) => true
  | _ => false

def answer (request : UsageError) (s : Scan) : Except UsageError Scan := s.settle.bind fun _ => .error request

def longOption (g : Grammar) (name : String) (value : Option String) (s : Scan) : Except UsageError Scan :=
  match g.options.find? (·.name = name) with
  | some rule =>
      if rule.takesValue then
        match value with
        | some v => s.settle.bind (record rule v)
        | none => s.settle.map fun settled => { settled with pending := some (rule, none) }
      else if value.isSome then .error .needlessValue
      else s.settle.bind (record rule "")
  | none =>
      if name = "help" ∨ (name = "version" ∧ g.hasVersion) then
        if value.isSome then .error .needlessValue
        else s.answer (if name = "help" then .help else .version)
      else .error .unknownArgument

/-- The first letter decides, for each of them ends the reading. -/
def shortOptions (g : Grammar) (letters : List Char) (s : Scan) : Except UsageError Scan :=
  match letters with
  | 'h' :: _ => s.answer .help
  | 'V' :: _ => if g.hasVersion then s.answer .version else .error .unknownArgument
  | _ => .error .unknownArgument

def positional (g : Grammar) (text : String) (s : Scan) : Except UsageError Scan :=
  if s.positionals.length < g.positionals then
    s.settle.map fun settled => { settled with positionals := settled.positionals ++ [text] }
  else if g.subcommands = [] ∨ (s.onlyPositionals ∧ text ∈ g.subcommands) then .error .unknownArgument
  else .error .invalidSubcommand

def word (g : Grammar) (text : String) (s : Scan) : Except UsageError Scan :=
  if s.onlyPositionals then s.positional g text
  else
    match Word.ofText text with
    | .separator => .ok { s with onlyPositionals := true }
    | .long name value => s.longOption g name value
    | .short letters => s.shortOptions g letters
    | .plain =>
        match s.pending with
        | some (rule, none) => .ok { s with pending := some (rule, some text) }
        | _ => s.positional g text

def namesSubcommand (g : Grammar) (text : String) (s : Scan) : Bool :=
  !s.onlyPositionals && !s.awaitsValue && text ∈ g.subcommands

def level (g : Grammar) : List String → Scan → Except UsageError (Scan × Option (String × List String))
  | [], s => .ok (s, none)
  | text :: rest, s =>
      if s.namesSubcommand g text then .ok (s, some (text, rest))
      else
        match s.word g text with
        | .error e => .error e
        | .ok next => level g rest next

def values (name : String) (s : Scan) : List String :=
  (s.settled.filter (·.1 = name)).map (·.2)

def places (place : Nat → Nat) (name : String) (s : Scan) : List Nat :=
  (s.settled.zipIdx.filter (·.1.1 = name)).map (place ·.2)

def value? (name : String) (s : Scan) : Option String := s.settled.lookup name

def has (name : String) (s : Scan) : Bool := s.settled.any (·.1 = name)

end Scan

end DocQuery.Shell
