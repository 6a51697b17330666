import DocQuery.Filter.Operator
import DocQuery.Value.Order

/-!
# Conditions

An array field satisfies a comparison if the array itself or one of its items does; for the ordering
operators only the items count.  The negative operators hold exactly where their positive ones fail, so
they hold of a missing field.
-/

namespace DocQuery

inductive Connective where
  | and | or
deriving DecidableEq

def Connective.keyword : Connective → String
  | and => "$and"
  | or => "$or"

structure Clause where
  field : String
  operator : Operator
  operand : Value

inductive Condition where
  | clause (c : Clause)
  | group (kind : Connective) (children : List Condition)

structure Group where
  kind : Connective
  children : List Condition

namespace Clause

def candidates (c : Clause) : List Value :=
  match c.operand with
  | .array items => items
  | scalar => [scalar]

def writtenOperand (c : Clause) : Value :=
  if c.operator.expectsSequence then .array c.candidates else c.operand

def toValue (c : Clause) : Value :=
  .object [(c.field, .object [(c.operator.keyword, c.writtenOperand)])]

def anyOf (test : Value → Bool) (v : Value) : Bool :=
  match v with
  | .array items => test v || items.any test
  | _ => test v

def anyWithin (test : Value → Bool) (v : Value) : Bool :=
  match v with
  | .array items => items.any test
  | _ => test v

def equals (c : Clause) (v : Value) : Bool := anyOf (·.equiv c.operand) v

def isMember (c : Clause) (v : Value) : Bool := anyOf (fun x => c.candidates.any (x.equiv ·)) v

def isOrdered (c : Clause) (v : Value) : Bool :=
  anyWithin (fun x => (x.compareAlike c.operand).any c.operator.admits) v

def accepts (c : Clause) (doc : Document) : Bool :=
  let field := doc.lookup? c.field
  match c.operator with
  | .eq => field.any c.equals
  | .ne => !field.any c.equals
  | .isIn => field.any c.isMember
  | .notIn => !field.any c.isMember
  | .gt | .gte | .lt | .lte => field.any c.isOrdered

end Clause

namespace Condition

mutual

def accepts (doc : Document) : Condition → Bool
  | clause c => c.accepts doc
  | group .and children => allAccept doc children
  | group .or children => anyAccepts doc children

def allAccept (doc : Document) : List Condition → Bool
  | [] => true
  | c :: rest => accepts doc c && allAccept doc rest

def anyAccepts (doc : Document) : List Condition → Bool
  | [] => false
  | c :: rest => accepts doc c || anyAccepts doc rest

end

mutual

def toValue : Condition → Value
  | clause c => c.toValue
  | group kind children => .object [(kind.keyword, .array (toValues children))]

def toValues : List Condition → List Value
  | [] => []
  | c :: rest => toValue c :: toValues rest

end

mutual

def depth : Condition → Nat
  | clause _ => 0
  | group _ children => 1 + maxDepth children

def maxDepth : List Condition → Nat
  | [] => 0
  | c :: rest => max (depth c) (maxDepth rest)

end

end Condition

namespace Group

def toCondition (g : Group) : Condition := .group g.kind g.children

def isEmpty (g : Group) : Bool := g.children.isEmpty

def accepts (g : Group) (doc : Document) : Bool := g.toCondition.accepts doc

def depth (g : Group) : Nat := g.toCondition.depth

def toValue (g : Group) : Value := g.toCondition.toValue

def toFilter (g : Group) : Value := if g.isEmpty then .object [] else g.toValue

end Group

end DocQuery
