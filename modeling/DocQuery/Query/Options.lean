import DocQuery.Value.Order

namespace DocQuery

def idField : String := "_id"

structure Projection where
  fields : List String := []
deriving DecidableEq

namespace Projection

def add (p : Projection) (field : String) : Projection :=
  if field = "" ∨ field ∈ p.fields then p else ⟨p.fields ++ [field]⟩

def ofFields (fields : List String) : Projection := fields.foldl add {}

def isEmpty (p : Projection) : Bool := p.fields.isEmpty

def toValue (p : Projection) : Value := .object (p.fields.map fun field => (field, Value.one))

def copyPath : Path → Document → Document → Document
  | [], _, target => target
  | [name], source, target =>
      match source.get? name with
      | some v => target.insert name v
      | none => target
  | name :: rest, source, target =>
      match source.get? name with
      | some (.object inner) =>
          match (target.get? name).getD (.object []) with
          | .object partialCopy =>
              let copied := copyPath rest inner partialCopy
              let updated := target.insert name (.object copied)
              if copied.isEmpty then updated.removeBySwap name else updated
          | _ => target
      | _ => target

def copyField (source target : Document) (field : String) : Document :=
  copyPath (Path.ofText field) source target

def apply (p : Projection) (doc : Document) : Document :=
  if p.isEmpty then doc
  else
    let start : Document := match doc.get? idField with
      | some id => [(idField, id)]
      | none => []
    p.fields.foldl (copyField doc) start

end Projection

/-! ## Sorting -/

inductive Direction where
  | ascending | descending
deriving DecidableEq

namespace Direction

def ofKeyword (keyword : String) : Direction :=
  if Text.lowered (Text.trimmed keyword) = "asc" then ascending else descending

def keyword : Direction → String
  | ascending => "asc"
  | descending => "desc"

def toValue : Direction → Value
  | ascending => .one
  | descending => .minusOne

def apply : Direction → Ordering → Ordering
  | ascending, o => o
  | descending, o => o.swap

end Direction

structure SortKey where
  field : String
  direction : Direction
deriving DecidableEq

structure SortOrder where
  keys : List SortKey := []
deriving DecidableEq

namespace SortOrder

def add (s : SortOrder) (key : SortKey) : SortOrder :=
  if key.field = "" ∨ key.field ∈ s.keys.map SortKey.field then s else ⟨s.keys ++ [key]⟩

def ofKeys (keys : List SortKey) : SortOrder := keys.foldl add {}

def uniform (fields : List String) (direction : Direction) : SortOrder :=
  ofKeys (fields.map (SortKey.mk · direction))

def isEmpty (s : SortOrder) : Bool := s.keys.isEmpty

def toValue (s : SortOrder) : Value := .object (s.keys.map fun key => (key.field, key.direction.toValue))

def compareBy (key : SortKey) (a b : Document) : Ordering :=
  key.direction.apply (Value.orderMissing (a.lookup? key.field) (b.lookup? key.field))

def compareAll : List SortKey → Document → Document → Ordering
  | [], _, _ => .eq
  | key :: rest, a, b => (compareBy key a b).then (compareAll rest a b)

protected def compare (s : SortOrder) (a b : Document) : Ordering := compareAll s.keys a b

/-- The documents in order; documents that tie keep their order. -/
def arrange (s : SortOrder) (docs : List Document) : List Document :=
  if s.isEmpty then docs else docs.mergeSort fun a b => s.compare a b != .gt

end SortOrder

/-! ## All options -/

structure FindOptions where
  limit : Option Nat := none
  projection : Projection := {}
  sort : SortOrder := {}
deriving DecidableEq

namespace FindOptions

def toValue (o : FindOptions) : Value :=
  .object [("limit", .ofNat (o.limit.getD 0)), ("projection", o.projection.toValue),
    ("sort", o.sort.toValue)]

def cut (o : FindOptions) (docs : List Document) : List Document :=
  match o.limit with
  | none => docs
  | some n => docs.take n

end FindOptions

end DocQuery
