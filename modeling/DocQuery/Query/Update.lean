import DocQuery.Query.Options
import DocQuery.Value.Text

namespace DocQuery

inductive Rejection where
  | duplicateId (id : Value)
  | immutableId (path : String)
  | conflictingPaths (outer inner : String)
  | notAnObject (path name : String)
  | other (reason : String)

def Rejection.message : Rejection → String
  | duplicateId id => "duplicate key _id: " ++ id.text
  | immutableId path => "field _id is immutable (update path " ++ path ++ ")"
  | conflictingPaths outer inner => "update paths " ++ outer ++ " and " ++ inner ++ " conflict"
  | notAnObject path name => "cannot set " ++ path ++ ": " ++ name ++ " is not an object"
  | other reason => reason

structure Update where
  fields : Document

def Path.isBelow (path outer : Path) : Bool := outer.isPrefixOf path && outer.length < path.length

namespace Document

def setPath (v : Value) : Path → Document → Document × Bool
  | [], doc => (doc, false)
  | [name], doc =>
      if (doc.get? name).any (·.equiv v) then (doc, false) else (doc.insert name v, true)
  | name :: rest, doc =>
      match (doc.get? name).getD (.object []) with
      | .object inner =>
          let (updated, changed) := setPath v rest inner
          (doc.insert name (.object updated), changed)
      | _ => (doc, false)

def blockedAt? : Path → Document → Option String
  | [], _ | [_], _ => none
  | name :: rest, doc =>
      match doc.get? name with
      | none => none
      | some (.object inner) => blockedAt? rest inner
      | some _ => some name

end Document

namespace Update

def toValue (u : Update) : Value := .object [("$set", .object u.fields)]

def paths (u : Update) : List String := u.fields.keys

def pathFault? (paths : List String) (path : String) : Option Rejection :=
  if (Path.ofText path).head? = some idField then some (.immutableId path)
  else
    (paths.find? fun outer => (Path.ofText path).isBelow (Path.ofText outer)).map
      (.conflictingPaths · path)

def fault? (u : Update) : Option Rejection := u.paths.findSome? (pathFault? u.paths)

def blocked? (u : Update) (doc : Document) : Option Rejection :=
  u.paths.findSome? fun path =>
    (doc.blockedAt? (Path.ofText path)).map (.notAnObject path)

def apply (u : Update) (doc : Document) : Document × Bool :=
  u.fields.foldl
    (fun (doc, changed) (path, v) =>
      let (updated, changedHere) := doc.setPath v (Path.ofText path)
      (updated, changed || changedHere))
    (doc, false)

end Update

end DocQuery
