import DocQuery.Proofs.Filter.Nesting

namespace DocQuery

/-! ## Clauses in order -/

namespace Condition

mutual

def clauses : Condition → List Clause
  | clause c => [c]
  | group _ children => clausesAll children

def clausesAll : List Condition → List Clause
  | [] => []
  | c :: rest => clauses c ++ clausesAll rest

end

theorem clausesAll_append (cs ds : List Condition) :
    clausesAll (cs ++ ds) = clausesAll cs ++ clausesAll ds := by
  induction cs with
  | nil => rfl
  | cons c cs ih => rw [List.cons_append, clausesAll, clausesAll, ih, List.append_assoc]

theorem clausesAll_singleton (c : Condition) : clausesAll [c] = c.clauses := by
  rw [clausesAll, clausesAll, List.append_nil]

end Condition

namespace Group

def clauses (g : Group) : List Clause := g.toCondition.clauses

theorem clauses_mk (kind : Connective) (children : List Condition) :
    clauses ⟨kind, children⟩ = Condition.clausesAll children := by
  rw [clauses, toCondition, Condition.clauses]

theorem clauses_of_isEmpty {g : Group} (empty : g.isEmpty = true) : g.clauses = [] := by
  obtain ⟨kind, children⟩ := g
  obtain rfl : children = [] := List.isEmpty_iff.mp empty
  rw [clauses_mk, Condition.clausesAll]

theorem clausesAll_promoted (promotion : Promotion) (children : List Condition) :
    Condition.clausesAll (promoted promotion children) = Condition.clausesAll children := by
  rw [promoted]
  split
  · rw [Condition.clausesAll_singleton, Condition.clauses]
  · rfl

theorem clauses_merge (promotion : Promotion) (kind : Connective) (c : Condition) (g : Group) :
    (g.merge promotion kind c).clauses = g.clauses ++ c.clauses := by
  have last (cs : List Condition) : Condition.clausesAll (cs ++ [c]) = Condition.clausesAll cs ++ c.clauses := by
    rw [Condition.clausesAll_append, Condition.clausesAll_singleton]
  obtain ⟨held, children⟩ := g
  rw [merge]
  split <;> rename_i empty
  · rw [clauses_of_isEmpty (g := ⟨held, children⟩) empty, clauses_mk, Condition.clausesAll_singleton,
      List.nil_append]
  · split
    · rw [clauses_mk, clauses_mk, last, clausesAll_promoted]
    · rw [clauses_mk, clauses_mk, last]

end Group

/-! ## The clauses of the root and of the open groups -/

namespace Assembly

def clauses (a : Assembly) : List Clause := a.groups.reverse.flatMap Group.clauses

theorem clauses_nil (root : Group) (promotion : Promotion) : clauses ⟨root, [], promotion⟩ = root.clauses := by
  simp [clauses, groups]

theorem clauses_cons (root : Group) (scope : Scope) (outer : List Scope) (promotion : Promotion) :
    clauses ⟨root, scope :: outer, promotion⟩ =
      clauses ⟨root, outer, promotion⟩ ++ scope.group.clauses := by
  simp [clauses, groups]

theorem clauses_setPromotion (promotion : Promotion) (a : Assembly) :
    (a.setPromotion promotion).clauses = a.clauses := rfl

theorem clauses_addCondition (kind : Connective) (c : Condition) (a : Assembly) :
    (a.addCondition kind c).clauses = a.clauses ++ c.clauses := by
  obtain ⟨root, _ | ⟨scope, outer⟩, promotion⟩ := a
  · rw [addCondition, clauses_nil, clauses_nil, Group.clauses_merge]
  · rw [addCondition, clauses_cons, clauses_cons, Group.clauses_merge, List.append_assoc]

theorem clauses_add (kind : Connective) (c : Clause) (a : Assembly) :
    (a.add kind c).clauses = a.clauses ++ if c.field = "" then [] else [c] := by
  rw [add]
  split
  · rw [List.append_nil]
  · rw [clauses_addCondition, Condition.clauses]

theorem clauses_openGroup (kind : Connective) (a : Assembly) : (a.openGroup kind).clauses = a.clauses := by
  rw [openGroup, clauses_cons, Group.clauses_of_isEmpty rfl, List.append_nil]

theorem clauses_closeGroup (a : Assembly) : a.closeGroup.clauses = a.clauses := by
  obtain ⟨root, _ | ⟨scope, outer⟩, promotion⟩ := a
  · rfl
  · rw [closeGroup_cons, clauses_cons]
    split <;> rename_i empty
    · rw [Group.clauses_of_isEmpty empty, List.append_nil]
    · rw [clauses_addCondition]
      rfl

theorem clauses_closeGroups (n : Nat) (a : Assembly) : (a.closeGroups n).clauses = a.clauses := by
  induction n generalizing a with
  | zero => rfl
  | succ n ih => rw [closeGroups, ih, clauses_closeGroup]

theorem group?_eq_error_iff {a : Assembly} {e : AssemblyError} :
    a.group? = .error e ↔ 0 < a.depth ∧ e = .openGroups a.depth := by
  obtain ⟨root, _ | ⟨scope, outer⟩, promotion⟩ := a
  · simp [group?, depth]
  · simp [group?, depth, eq_comm]

theorem group?_eq_ok_iff {a : Assembly} {g : Group} : a.group? = .ok g ↔ a.depth = 0 ∧ a.root = g := by
  obtain ⟨root, _ | ⟨scope, outer⟩, promotion⟩ := a <;> simp [group?, depth]

theorem clauses_of_group? {a : Assembly} {g : Group} (h : a.group? = .ok g) : a.clauses = g.clauses := by
  obtain ⟨root, _ | ⟨scope, outer⟩, promotion⟩ := a <;> cases h
  exact clauses_nil root promotion

end Assembly

/-! ## Running a program -/

namespace AssemblyStep

open Assembly

mutual

def given : AssemblyStep → List Clause
  | add _ c => if c.field = "" then [] else [c]
  | addCondition _ c => c.clauses
  | nest _ steps => givenAll steps
  | openGroup _ | closeGroup | setPromotion _ => []

def givenAll : List AssemblyStep → List Clause
  | [] => []
  | step :: rest => given step ++ givenAll rest

end

mutual

theorem clauses_run (step : AssemblyStep) (a : Assembly) : (step.run a).clauses = a.clauses ++ step.given := by
  cases step with
  | add kind c => exact clauses_add kind c a
  | addCondition kind c => exact clauses_addCondition kind c a
  | openGroup kind => exact (clauses_openGroup kind a).trans (List.append_nil _).symm
  | closeGroup => exact (clauses_closeGroup a).trans (List.append_nil _).symm
  | nest kind steps =>
      rw [run, closeDownTo, clauses_closeGroups, clauses_runAll steps, clauses_openGroup, given]
  | setPromotion promotion => exact (clauses_setPromotion promotion a).trans (List.append_nil _).symm

theorem clauses_runAll (steps : List AssemblyStep) (a : Assembly) :
    (runAll steps a).clauses = a.clauses ++ givenAll steps := by
  cases steps with
  | nil => exact (List.append_nil _).symm
  | cons step rest => rw [runAll, clauses_runAll rest, clauses_run step, givenAll, List.append_assoc]

end

/-! ## Every moment of a run -/

/-- While the program runs on `a` there is a moment at which the assembly is `b`; what the program has handed
in by then is `given`. -/
inductive Passes : List AssemblyStep → Assembly → List Clause → Assembly → Prop where
  | start {steps : List AssemblyStep} {a : Assembly} : Passes steps a [] a
  | after {step : AssemblyStep} {rest : List AssemblyStep} {a b : Assembly} {given : List Clause}
      (later : Passes rest (step.run a) given b) : Passes (step :: rest) a (step.given ++ given) b
  | inside {kind : Connective} {steps rest : List AssemblyStep} {a b : Assembly} {given : List Clause}
      (nested : Passes steps (a.openGroup kind) given b) : Passes (nest kind steps :: rest) a given b
  | closing {kind : Connective} {steps rest : List AssemblyStep} {a : Assembly} {n : Nat}
      (opened : n ≤ (runAll steps (a.openGroup kind)).depth - a.depth) :
      Passes (nest kind steps :: rest) a (givenAll steps) ((runAll steps (a.openGroup kind)).closeGroups n)

theorem passes_runAll (steps : List AssemblyStep) (a : Assembly) :
    Passes steps a (givenAll steps) (runAll steps a) := by
  induction steps generalizing a with
  | nil => exact .start
  | cons step rest ih => exact .after (ih (step.run a))

theorem Passes.clauses_eq {steps : List AssemblyStep} {a b : Assembly} {given : List Clause}
    (passes : Passes steps a given b) : b.clauses = a.clauses ++ given := by
  induction passes with
  | start => exact (List.append_nil _).symm
  | @after step _ a _ _ _ ih => rw [ih, clauses_run step a, List.append_assoc]
  | inside _ ih => rw [ih, clauses_openGroup]
  | closing _ => rw [clauses_closeGroups, clauses_runAll, clauses_openGroup]

theorem run_closeGroup_of_fault? {a : Assembly} {e : AssemblyError} (failed : closeGroup.fault? a = some e) :
    closeGroup.run a = a := by
  rw [run, Assembly.closeGroup]
  cases outcome : a.closeGroup? with
  | ok closed => simp [fault?, outcome] at failed
  | error => rfl

/-- At every moment of a run the clauses are those handed in so far, in this order. -/
theorem clauses_throughout (promotion : Promotion) (steps : List AssemblyStep) :
    (∀ given a, Passes steps { promotion } given a →
      a.clauses = given ∧ (∀ g, a.group? = .ok g → g.clauses = given) ∧
        (∀ e, closeGroup.fault? a = some e → closeGroup.run a = a) ∧
        ∀ e, a.group? = .error e ↔ 0 < a.depth ∧ e = .openGroups a.depth) ∧
      Passes steps { promotion } (givenAll steps) (runAll steps { promotion }) := by
  refine ⟨fun given a passes => ?_, passes_runAll steps _⟩
  have clauses : a.clauses = given := passes.clauses_eq
  refine ⟨clauses, fun g compiled => ?_, fun _ => run_closeGroup_of_fault?, fun _ => group?_eq_error_iff⟩
  rw [← clauses_of_group? compiled, clauses]

theorem clauses_throughout_closing_around :
    let c (name : String) : Clause := ⟨name, .eq, .null⟩
    let inner : List AssemblyStep :=
      [.addCondition .and (.group .or [.clause (c "b"), .clause (c "c")]), .closeGroup, .closeGroup, .closeGroup,
        .add .or (c "d"), .add .or (c "")]
    let steps : List AssemblyStep := [.add .and (c "a"), .openGroup .and, .nest .or inner, .closeGroup]
    let around : Assembly := ((({ promotion := .wrap } : Assembly).add .and (c "a")).openGroup .and).openGroup .or
    let given := [c "a", c "b", c "c", c "d"]
    Passes steps { promotion := .wrap } given (runAll inner around) ∧ (runAll inner around).clauses = given := by
  intro c inner steps around given
  have passes : Passes steps { promotion := .wrap } given (runAll inner around) :=
    .after (.after (.inside (passes_runAll inner around)))
  exact ⟨passes, ((clauses_throughout .wrap steps).1 given _ passes).1⟩

end AssemblyStep

end DocQuery
