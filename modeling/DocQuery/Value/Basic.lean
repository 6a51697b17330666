import DocQuery.Number.Basic
import DocQuery.Text.Basic

/-!
# Values and documents

In a document order counts: a field keeps its place when it is set again, and a new field comes last.  Reading a field
finds the first of its name, and no operation here makes a second one.

A path is written as names between points, and every point separates: `a..b` has an empty name in the middle, and the
empty text is the path of the one empty name.
-/

namespace DocQuery

inductive Value where
  | null
  | bool (b : Bool)
  | number (n : Number)
  | string (s : String)
  | array (items : List Value)
  | object (fields : List (String × Value))

instance : Inhabited Value := ⟨.null⟩

abbrev Document := List (String × Value)

namespace Document

def keys (doc : Document) : List String := doc.map Prod.fst

def get? (doc : Document) (key : String) : Option Value := doc.lookup key

def insert (key : String) (value : Value) : Document → Document
  | [] => [(key, value)]
  | field :: rest =>
      if field.1 = key then (key, value) :: rest else field :: insert key value rest

/-- Removes a field; the last field takes its place. -/
def removeBySwap (key : String) (doc : Document) : Document :=
  match doc.getLast? with
  | none => []
  | some last =>
      if last.1 = key then doc.dropLast
      else if (doc.get? key).isNone then doc
      else doc.dropLast.map fun field => if field.1 = key then last else field

def ofFields (fields : List (String × Value)) : Document :=
  fields.foldl (fun doc field => doc.insert field.1 field.2) []

end Document

namespace Value

def one : Value := .number (.int 1 (by decide))

def minusOne : Value := .number (.int (-1) (by decide))

def ofNat (n : Nat) : Value := ((Number.ofInt? n).map number).getD null

def kindName : Value → String
  | null => "null"
  | bool _ => "boolean"
  | number _ => "number"
  | string _ => "string"
  | array _ => "array"
  | object _ => "object"

end Value

/-! ## Paths -/

abbrev Path := List String

def Path.ofText (path : String) : Path := (Text.splitOn '.' path.toList).map String.ofList

namespace Value

def position? (name : String) : Option Nat := Text.unsigned? Text.wordLimit name.toList

def follow? : Path → Value → Option Value
  | [], v => some v
  | name :: rest, object fields => (Document.get? fields name).bind (follow? rest)
  | name :: rest, array items =>
      (position? name).bind fun i => (items[i]?).bind (follow? rest)
  | _ :: _, _ => none

end Value

def Document.lookup? (doc : Document) (path : String) : Option Value :=
  (Value.object doc).follow? (Path.ofText path)

end DocQuery
