import DocQuery.Filter.Condition
import DocQuery.Query.Update

/-!
# Collections and stores

An operation that writes goes on in steps, and a step can refuse; what the steps before have written stays written.
Whatever could refuse is therefore checked before the first write.
-/

namespace DocQuery

abbrev Collection := List Document

/-- Names for new identities: the one in place `used` is next. -/
structure IdSupply where
  name : Nat → String
  used : Nat := 0

def IdSupply.next (ids : IdSupply) : String × IdSupply :=
  (ids.name ids.used, { ids with used := ids.used + 1 })

structure UpdateCounts where
  matched : Nat
  modified : Nat
deriving DecidableEq

/-- Steps on a collection.  When one of them refuses, the collection stays as it is at that point. -/
abbrev CollectionAction (α : Type) := ExceptT Rejection (StateM Collection) α

namespace CollectionAction

def on {α : Type} (action : CollectionAction α) (docs : Collection) : Except Rejection α × Collection :=
  action.run.run docs

def refuseFor : Option Rejection → CollectionAction Unit
  | some cause => throw cause
  | none => pure ()

end CollectionAction

open CollectionAction

namespace Collection

/-! ## Reading -/

def select (filter : Group) (docs : Collection) : Collection := docs.filter filter.accepts

def find (filter : Group) (options : FindOptions) (docs : Collection) : List Document :=
  (options.cut (options.sort.arrange (docs.select filter))).map options.projection.apply

def count (filter : Group) (docs : Collection) : Nat := (docs.select filter).length

/-! ## Inserting -/

def identities (docs : Collection) : List Value := docs.filterMap (Document.get? · idField)

def identify (doc : Document) (ids : IdSupply) : Value × Document × IdSupply :=
  match doc.get? idField with
  | some id => (id, doc, ids)
  | none =>
      let (name, rest) := ids.next
      (.string name, doc ++ [(idField, .string name)], rest)

def duplicate? (taken : List Value) (id : Value) : Option Rejection :=
  if taken.any (·.equiv id) then some (.duplicateId id) else none

def insertOne (doc : Document) (ids : IdSupply) : CollectionAction (Value × IdSupply) := do
  let (id, identified, rest) := identify doc ids
  refuseFor (duplicate? (identities (← get)) id)
  modify (· ++ [identified])
  return (id, rest)

def prepare : List Document → IdSupply → List Value →
    Except Rejection (List Value × IdSupply × List Document)
  | [], ids, _ => .ok ([], ids, [])
  | doc :: batch, ids, taken =>
      let (id, identified, rest) := identify doc ids
      match duplicate? taken id with
      | some fault => .error fault
      | none =>
          match prepare batch rest (taken ++ [id]) with
          | .error fault => .error fault
          | .ok (others, rest, prepared) => .ok (id :: others, rest, identified :: prepared)

def insertMany (batch : List Document) (ids : IdSupply) : CollectionAction (List Value × IdSupply) := do
  let (given, rest, prepared) ← liftExcept (prepare batch ids (identities (← get)))
  modify (· ++ prepared)
  return (given, rest)

/-! ## Updating and deleting -/

def applyUpdate (filter : Group) (u : Update) : Collection → UpdateCounts × Collection
  | [] => (⟨0, 0⟩, [])
  | doc :: docs =>
      let (counts, updatedDocs) := applyUpdate filter u docs
      if filter.accepts doc then
        let (updated, changed) := u.apply doc
        (⟨counts.matched + 1, counts.modified + if changed then 1 else 0⟩, updated :: updatedDocs)
      else (counts, doc :: updatedDocs)

def update (filter : Group) (u : Update) : CollectionAction UpdateCounts := do
  refuseFor u.fault?
  (select filter (← get)).forM fun doc => refuseFor (u.blocked? doc)
  modifyGet (applyUpdate filter u)

def delete (filter : Group) (docs : Collection) : Nat × Collection :=
  let kept := docs.filter fun doc => !filter.accepts doc
  (docs.length - kept.length, kept)

end Collection

/-! ## Stores -/

inductive StoreError where
  | unreachable (reason : String)
  | timeout (reason : String)
  | rejected (cause : Rejection)

def StoreError.message : StoreError → String
  | unreachable reason => "store unreachable: " ++ reason
  | timeout reason => "store operation timed out: " ++ reason
  | rejected cause => "store rejected the operation: " ++ cause.message

structure Namespace where
  database : String
  table : String
deriving DecidableEq

def Namespace.text (ns : Namespace) : String := ns.database ++ "." ++ ns.table

abbrev StoreAction (σ α : Type) := σ → Except StoreError α × σ

class DocumentStore (σ : Type) where
  probe : σ → Except StoreError Unit
  select : Namespace → StoreAction σ Unit
  find : Namespace → Group → FindOptions → StoreAction σ (List Document)
  insertOne : Namespace → Document → IdSupply → StoreAction σ (Value × IdSupply)
  insertMany : Namespace → List Document → IdSupply → StoreAction σ (List Value × IdSupply)
  update : Namespace → Group → Update → StoreAction σ UpdateCounts
  delete : Namespace → Group → StoreAction σ Nat
  count : Namespace → Group → StoreAction σ Nat

end DocQuery
