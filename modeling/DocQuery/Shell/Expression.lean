import DocQuery.Client.Query
import DocQuery.Value.Reader

namespace DocQuery.Shell

open Text

structure Expression where
  kind : Connective
  field : String
  operator : Operator
  operand : Value

inductive ExpressionError where
  | malformed (text : String)
  | missingValue (text : String)
deriving DecidableEq

def ExpressionError.message : ExpressionError → String
  | malformed text => "invalid condition '" ++ text ++ "': expected '<field> <op> <value>'"
  | missingValue text => "invalid condition '" ++ text ++ "': missing value"

namespace Expression

def splitWord (cs : List Char) : List Char × List Char :=
  (cs.takeWhile (!isBlank ·), cs.dropWhile (!isBlank ·))

/-- The value after an operator: blanks come first, and there is no line feed within. -/
def value? (afterOperator : List Char) : Option (List Char) :=
  let raw := trim afterOperator
  if afterOperator = [] ∨ '\n' ∈ raw then none else some raw

def twoWords? (first afterFirst : List Char) : Option (List Char × List Char) :=
  let (second, afterSecond) := splitWord (trimLeft afterFirst)
  if first.map Char.toLower = ['n', 'o', 't'] ∧ second.map Char.toLower = ['i', 'n'] then
    (value? afterSecond).map ((first ++ ' ' :: second), ·)
  else none

def parts? (text : List Char) : Option (List Char × List Char × List Char) :=
  let (field, afterField) := splitWord (trimLeft text)
  let (word, afterWord) := splitWord (trimLeft afterField)
  if field = [] ∨ word = [] then none
  else
    match twoWords? word afterWord with
    | some (token, raw) => some (field, token, raw)
    | none => (value? afterWord).map fun raw => (field, word, raw)

def scalar (raw : List Char) : Value :=
  (Value.ofText? (String.ofList raw)).getD (.string (String.ofList raw))

def readOperand (operator : Operator) (raw : List Char) : Value :=
  if operator.expectsSequence then .array ((splitOn ',' raw).map fun part => scalar (trim part))
  else scalar raw

def parse (kind : Connective) (text : String) : Except ExpressionError Expression :=
  match parts? text.toList with
  | none => .error (.malformed text)
  | some (_, _, []) => .error (.missingValue text)
  | some (field, token, raw) =>
      let operator := Operator.ofToken (String.ofList token)
      .ok ⟨kind, String.ofList field, operator, readOperand operator raw⟩

def events (text : String) : List Event :=
  match parts? text.toList with
  | none => []
  | some (_, token, _) => ConditionStep.tokenEvents (String.ofList token)

def parseAll : List (Connective × String) → Except ExpressionError (List Expression)
  | [] => .ok []
  | (kind, text) :: rest =>
      match parse kind text with
      | .error e => .error e
      | .ok expression => (parseAll rest).map (expression :: ·)

def eventsAll : List (Connective × String) → List Event
  | [] => []
  | (kind, text) :: rest =>
      match parse kind text with
      | .error _ => events text
      | .ok _ => events text ++ eventsAll rest

def toStep (e : Expression) : ConditionStep := .compare e.kind e.field e.operator e.operand

end Expression

end DocQuery.Shell
