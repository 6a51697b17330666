import DocQuery.Filter.Condition

/-!
# Assembling a filter

An assembly is the group at the root and, innermost first, the groups that have been opened and not closed.
A condition is merged into the innermost group:

* an empty group takes the connective asked for;
* *or* turns an *and* group into an *or* group, and how the conditions already there fare is the matter of
  the promotion policy;
* in every other case the group keeps its connective.
-/

namespace DocQuery

/-- What becomes of the conditions of an *and* group that turns into an *or* group: they are relabelled as
alternatives, or wrapped so that together they make up one alternative. -/
inductive Promotion where
  | relabel | wrap
deriving DecidableEq

/-- A group that has been opened, with the connective that it will have in the group around it. -/
structure Scope where
  group : Group
  attach : Connective

structure Assembly where
  root : Group := ⟨.and, []⟩
  scopes : List Scope := []
  promotion : Promotion := .relabel

inductive AssemblyError where
  | noOpenGroup
  | openGroups (count : Nat)
deriving DecidableEq

def AssemblyError.message : AssemblyError → String
  | noOpenGroup => "no condition group is open"
  | openGroups count => toString count ++ " condition group(s) still open"

namespace Group

def promoted (promotion : Promotion) (children : List Condition) : List Condition :=
  if promotion = .wrap ∧ 1 < children.length then [.group .and children] else children

def merge (promotion : Promotion) (kind : Connective) (c : Condition) (g : Group) : Group :=
  if g.children.isEmpty then ⟨kind, [c]⟩
  else if g.kind = .and ∧ kind = .or then ⟨.or, promoted promotion g.children ++ [c]⟩
  else ⟨g.kind, g.children ++ [c]⟩

end Group

namespace Assembly

def depth (a : Assembly) : Nat := a.scopes.length

def isEmpty (a : Assembly) : Bool := a.root.isEmpty && a.scopes.isEmpty

def setPromotion (promotion : Promotion) (a : Assembly) : Assembly := { a with promotion }

def addCondition (kind : Connective) (c : Condition) (a : Assembly) : Assembly :=
  match a.scopes with
  | [] => { a with root := a.root.merge a.promotion kind c }
  | scope :: outer =>
      { a with scopes := { scope with group := scope.group.merge a.promotion kind c } :: outer }

def add (kind : Connective) (c : Clause) (a : Assembly) : Assembly :=
  if c.field = "" then a else a.addCondition kind (.clause c)

def openGroup (kind : Connective) (a : Assembly) : Assembly :=
  { a with scopes := ⟨⟨.and, []⟩, kind⟩ :: a.scopes }

def closeGroup? (a : Assembly) : Except AssemblyError Assembly :=
  match a.scopes with
  | [] => .error .noOpenGroup
  | scope :: outer =>
      let around := { a with scopes := outer }
      if scope.group.isEmpty then .ok around
      else .ok (around.addCondition scope.attach scope.group.toCondition)

def closeGroup (a : Assembly) : Assembly :=
  match a.closeGroup? with
  | .ok closed => closed
  | .error _ => a

def closeGroups : Nat → Assembly → Assembly
  | 0, a => a
  | n + 1, a => closeGroups n a.closeGroup

def closeDownTo (depth : Nat) (a : Assembly) : Assembly := a.closeGroups (a.depth - depth)

def group? (a : Assembly) : Except AssemblyError Group :=
  if a.scopes.isEmpty then .ok a.root else .error (.openGroups a.depth)

def filter? (a : Assembly) : Except AssemblyError Value := a.group?.map Group.toFilter

end Assembly

/-! ## Programs of steps -/

/-- What can be done to an assembly.  A nested program runs in a group of its own, which is closed after it
with all groups that the program left open. -/
inductive AssemblyStep where
  | add (kind : Connective) (c : Clause)
  | addCondition (kind : Connective) (c : Condition)
  | openGroup (kind : Connective)
  | closeGroup
  | nest (kind : Connective) (steps : List AssemblyStep)
  | setPromotion (promotion : Promotion)

namespace AssemblyStep

mutual

def run : AssemblyStep → Assembly → Assembly
  | add kind c, a => a.add kind c
  | addCondition kind c, a => a.addCondition kind c
  | openGroup kind, a => a.openGroup kind
  | closeGroup, a => a.closeGroup
  | nest kind steps, a => (runAll steps (a.openGroup kind)).closeDownTo a.depth
  | setPromotion promotion, a => a.setPromotion promotion

def runAll : List AssemblyStep → Assembly → Assembly
  | [], a => a
  | step :: rest, a => runAll rest (run step a)

end

def fault? : AssemblyStep → Assembly → Option AssemblyError
  | closeGroup, a =>
      match a.closeGroup? with
      | .ok _ => none
      | .error e => some e
  | _, _ => none

end AssemblyStep

end DocQuery
