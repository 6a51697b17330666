import DocQuery.Proofs.Filter.Clauses

namespace DocQuery

/-! ## Lists in a filter document -/

/-- In the filter document stands this list of conditions under the connective, at the top or inside of another such
list. -/
inductive Value.Lists (kind : Connective) (items : List Value) : Value → Prop where
  | top {fields : Document} (stands : (kind.keyword, .array items) ∈ fields) : Lists kind items (.object fields)
  | inside {fields : Document} {outer : Connective} {others : List Value} {v : Value}
      (stands : (outer.keyword, .array others) ∈ fields) (member : v ∈ others) (lists : Lists kind items v) :
      Lists kind items (.object fields)

theorem Value.Lists.of_field {kind : Connective} {items : List Value} {name : String} {v : Value}
    (lists : Lists kind items (.object [(name, v)])) :
    v = .array items ∨ ∃ others, v = .array others ∧ ∃ w ∈ others, w.Lists kind items := by
  cases lists with
  | top stands => exact .inl (Prod.mk.inj (List.mem_singleton.mp stands)).2.symm
  | inside stands member lists =>
      exact .inr ⟨_, (Prod.mk.inj (List.mem_singleton.mp stands)).2.symm, _, member, lists⟩

/-! ## Conditions -/

namespace Condition

inductive Proper : Condition → Prop where
  | clause {c : Clause} (named : c.field ≠ "") : Proper (.clause c)
  | group {kind : Connective} {children : List Condition} (filled : children ≠ [])
      (each : ∀ c ∈ children, Proper c) : Proper (.group kind children)

theorem toValues_eq_map (cs : List Condition) : toValues cs = cs.map toValue := by
  induction cs with
  | nil => rfl
  | cons c cs ih => rw [toValues, ih, List.map_cons]

variable {c : Condition} {cs : List Condition}

theorem Proper.clauses_ne_nil (proper : c.Proper) : c.clauses ≠ [] := by
  induction proper with
  | clause named => exact List.cons_ne_nil _ _
  | @group kind children filled each ih =>
      obtain ⟨first, rest, rfl⟩ := List.exists_cons_of_ne_nil filled
      rw [clauses, clausesAll]
      exact List.append_ne_nil_of_left_ne_nil (ih first List.mem_cons_self) _

theorem clausesAll_eq_nil_iff (each : ∀ c ∈ cs, c.Proper) : clausesAll cs = [] ↔ cs = [] := by
  constructor
  · intro none
    cases cs with
    | nil => rfl
    | cons first rest =>
        have given := (each first List.mem_cons_self).clauses_ne_nil
        exact absurd (List.append_eq_nil_iff.mp none).1 given
  · rintro rfl
    rfl

theorem Proper.not_lists_nil (proper : c.Proper) (kind : Connective) : ¬ c.toValue.Lists kind [] := by
  induction proper with
  | clause named =>
      intro lists
      -- the field has an object for its value
      rcases lists.of_field with list | ⟨others, list, -⟩ <;> cases list
  | @group outer children filled each ih =>
      rw [toValue, toValues_eq_map]
      intro lists
      rcases lists.of_field with empty | ⟨others, list, v, member, within⟩
      · exact filled (List.map_eq_nil_iff.mp (Value.array.inj empty))
      · rw [← Value.array.inj list] at member
        obtain ⟨child, present, rfl⟩ := List.mem_map.mp member
        exact ih child present within

end Condition

/-! ## The root and the open groups -/

namespace Group

structure Proper (g : Group) : Prop where
  each : ∀ c ∈ g.children, c.Proper
  kind_of_isEmpty : g.isEmpty = true → g.kind = .and

variable {g : Group} {c : Condition}

theorem proper_empty : Proper ⟨.and, []⟩ := ⟨by simp, fun _ => rfl⟩

theorem Proper.eq_of_isEmpty (proper : g.Proper) (empty : g.isEmpty = true) : g = ⟨.and, []⟩ := by
  have kind := proper.kind_of_isEmpty empty
  obtain ⟨held, children⟩ := g
  obtain rfl : children = [] := List.isEmpty_iff.mp empty
  exact congrArg (Group.mk · []) kind

theorem Proper.toCondition (proper : g.Proper) (filled : ¬ g.isEmpty = true) : g.toCondition.Proper :=
  .group (fun none => filled (List.isEmpty_iff.mpr none)) proper.each

theorem forall_promoted {promotion : Promotion} {children : List Condition} (each : ∀ c ∈ children, c.Proper) :
    ∀ c ∈ promoted promotion children, c.Proper := by
  rw [promoted]
  split <;> rename_i wraps
  · refine List.forall_mem_singleton.mpr (.group ?_ each)
    rintro rfl
    exact absurd wraps.2 (Nat.not_lt_zero 1)
  · exact each

theorem Proper.merge (proper : g.Proper) (promotion : Promotion) (kind : Connective) (last : c.Proper) :
    (g.merge promotion kind c).Proper := by
  have append {cs : List Condition} (each : ∀ c ∈ cs, c.Proper) : ∀ d ∈ cs ++ [c], d.Proper :=
    List.forall_mem_append.mpr ⟨each, List.forall_mem_singleton.mpr last⟩
  have filled (held : Connective) (cs : List Condition) : ¬ (Group.mk held (cs ++ [c])).isEmpty = true := by
    simp [isEmpty]
  rw [Group.merge]
  split
  · exact ⟨List.forall_mem_singleton.mpr last, fun empty => absurd empty (filled kind [])⟩
  · split
    · exact ⟨append (forall_promoted proper.each), fun empty => absurd empty (filled _ _)⟩
    · exact ⟨append proper.each, fun empty => absurd empty (filled _ _)⟩

theorem Proper.clauses_eq_nil_iff (proper : g.Proper) : g.clauses = [] ↔ g.isEmpty = true := by
  rw [isEmpty, List.isEmpty_iff]
  exact Condition.clausesAll_eq_nil_iff proper.each

theorem toFilter_eq_iff : g.toFilter = .object [] ↔ g.isEmpty = true := by
  rw [toFilter]
  split <;> rename_i empty
  · simp [empty]
  · rw [toValue, Group.toCondition, Condition.toValue]
    simp [empty]

theorem Proper.not_lists_nil (proper : g.Proper) (kind : Connective) : ¬ g.toFilter.Lists kind [] := by
  rw [toFilter]
  split <;> rename_i empty
  · rintro (⟨stands⟩ | ⟨stands, -, -⟩) <;> cases stands
  · exact (proper.toCondition empty).not_lists_nil kind

end Group

namespace Assembly

def Proper (a : Assembly) : Prop := ∀ g ∈ a.groups, g.Proper

theorem proper_nil_iff {root : Group} {promotion : Promotion} : Proper ⟨root, [], promotion⟩ ↔ root.Proper :=
  List.forall_mem_singleton

theorem proper_cons_iff {root : Group} {scope : Scope} {outer : List Scope} {promotion : Promotion} :
    Proper ⟨root, scope :: outer, promotion⟩ ↔ scope.group.Proper ∧ Proper ⟨root, outer, promotion⟩ :=
  List.forall_mem_cons

namespace Proper

variable {a : Assembly} {c : Condition}

theorem addCondition (proper : a.Proper) (kind : Connective) (last : c.Proper) :
    (a.addCondition kind c).Proper := by
  obtain ⟨root, _ | ⟨scope, outer⟩, promotion⟩ := a
  · exact proper_nil_iff.mpr ((proper_nil_iff.mp proper).merge promotion kind last)
  · obtain ⟨innermost, around⟩ := proper_cons_iff.mp proper
    exact proper_cons_iff.mpr ⟨innermost.merge promotion kind last, around⟩

theorem add (proper : a.Proper) (kind : Connective) (c : Clause) : (a.add kind c).Proper := by
  rw [Assembly.add]
  split <;> rename_i named
  · exact proper
  · exact proper.addCondition kind (.clause named)

theorem openGroup (proper : a.Proper) (kind : Connective) : (a.openGroup kind).Proper :=
  proper_cons_iff.mpr ⟨Group.proper_empty, proper⟩

theorem closeGroup (proper : a.Proper) : a.closeGroup.Proper := by
  obtain ⟨root, _ | ⟨scope, outer⟩, promotion⟩ := a
  · exact proper
  · obtain ⟨innermost, around⟩ := proper_cons_iff.mp proper
    rw [closeGroup_cons]
    split <;> rename_i filled
    · exact around
    · exact around.addCondition scope.attach (innermost.toCondition filled)

theorem closeGroups (proper : a.Proper) (n : Nat) : (a.closeGroups n).Proper := by
  induction n generalizing a with
  | zero => exact proper
  | succ n ih => exact ih proper.closeGroup

end Proper

end Assembly

/-! ## Running a program -/

namespace AssemblyStep

open Assembly

inductive Proper : AssemblyStep → Prop where
  | add (kind : Connective) (c : Clause) : Proper (.add kind c)
  | addCondition (kind : Connective) {c : Condition} (proper : c.Proper) : Proper (.addCondition kind c)
  | openGroup (kind : Connective) : Proper (.openGroup kind)
  | closeGroup : Proper .closeGroup
  | nest (kind : Connective) {steps : List AssemblyStep} (each : ∀ step ∈ steps, Proper step) :
      Proper (.nest kind steps)
  | setPromotion (promotion : Promotion) : Proper (.setPromotion promotion)

theorem forall_runAll {P : Assembly → Prop} {steps : List AssemblyStep}
    (each : ∀ step ∈ steps, ∀ a, P a → P (step.run a)) {a : Assembly} (start : P a) : P (runAll steps a) := by
  induction steps generalizing a with
  | nil => exact start
  | cons step rest ih =>
      obtain ⟨first, others⟩ := List.forall_mem_cons.mp each
      exact ih others (first a start)

theorem Proper.run {step : AssemblyStep} (given : step.Proper) : ∀ a : Assembly, a.Proper → (step.run a).Proper := by
  induction given with
  | add kind c => exact fun _ proper => proper.add kind c
  | addCondition kind last => exact fun _ proper => proper.addCondition kind last
  | openGroup kind => exact fun _ proper => proper.openGroup kind
  | closeGroup => exact fun _ proper => proper.closeGroup
  | nest kind _ inside => exact fun _ proper => (forall_runAll inside (proper.openGroup kind)).closeGroups _
  | setPromotion _ => exact fun _ proper => proper

theorem proper_runAll {steps : List AssemblyStep} (each : ∀ step ∈ steps, step.Proper) {a : Assembly}
    (proper : a.Proper) : (runAll steps a).Proper :=
  forall_runAll (fun step member => (each step member).run) proper

theorem Passes.proper {steps : List AssemblyStep} {a b : Assembly} {given : List Clause}
    (passes : Passes steps a given b) (each : ∀ step ∈ steps, step.Proper) (proper : a.Proper) : b.Proper := by
  induction passes with
  | start => exact proper
  | after _ ih =>
      obtain ⟨first, others⟩ := List.forall_mem_cons.mp each
      exact ih others (first.run _ proper)
  | @inside kind _ _ _ _ _ _ ih =>
      cases (List.forall_mem_cons.mp each).1 with
      | nest _ inner => exact ih inner (proper.openGroup kind)
  | @closing kind _ _ _ n _ =>
      cases (List.forall_mem_cons.mp each).1 with
      | nest _ inner => exact (proper_runAll inner (proper.openGroup kind)).closeGroups n

/-- At every moment of a run that hands in proper conditions, only the group at the root can be empty, and then it
accepts every document. -/
theorem proper_throughout (promotion : Promotion) {steps : List AssemblyStep}
    (each : ∀ step ∈ steps, step.Proper) {given : List Clause} {a : Assembly}
    (passes : Passes steps { promotion } given a) :
    (∀ g ∈ a.groups, (∀ c ∈ g.children, c.Proper) ∧ (g.isEmpty = true → g.kind = .and)) ∧
    ∀ g, a.group? = .ok g →
      (g.toFilter = .object [] ↔ given = []) ∧ (∀ kind, ¬ g.toFilter.Lists kind []) ∧
        (g.isEmpty = true → ∀ doc, g.accepts doc = true) := by
  have proper : a.Proper := passes.proper each (proper_nil_iff.mpr Group.proper_empty)
  refine ⟨fun g member => ⟨(proper g member).each, (proper g member).kind_of_isEmpty⟩, fun g compiled => ?_⟩
  have root : g.Proper := by
    rw [← (group?_eq_ok_iff.mp compiled).2]
    exact proper _ (List.mem_append_right _ List.mem_cons_self)
  have clauses : g.clauses = given := by
    rw [← clauses_of_group? compiled, passes.clauses_eq]
    rfl
  refine ⟨?_, root.not_lists_nil, fun empty doc => ?_⟩
  · rw [Group.toFilter_eq_iff, ← root.clauses_eq_nil_iff, clauses]
  · rw [root.eq_of_isEmpty empty]
    rfl

theorem proper_throughout_dropped :
    let c (name : String) : Clause := ⟨name, .eq, .null⟩
    let steps : List AssemblyStep :=
      [.openGroup .or, .nest .and [.openGroup .or], .add .and (c ""), .closeGroup,
        .addCondition .and (.group .or [.clause (c "a")]), .add .and (c "b"),
        .nest .and [.closeGroup, .openGroup .or], .add .or (c "d")]
    (∀ step ∈ steps, step.Proper) ∧
      Passes steps { promotion := .wrap } [c "a", c "b", c "d"] (runAll steps { promotion := .wrap }) ∧
      ∃ g, (runAll steps { promotion := .wrap }).group? = .ok g ∧ g.toFilter ≠ .object [] ∧
        ∀ kind, ¬ g.toFilter.Lists kind [] := by
  intro c steps
  have ready : Condition.Proper (.group .or [.clause (c "a")]) :=
    .group (List.cons_ne_nil _ _) (List.forall_mem_singleton.mpr (.clause (by decide : "a" ≠ "")))
  have each : ∀ step ∈ steps, step.Proper := by
    simp only [steps, List.forall_mem_cons]
    exact ⟨.openGroup _, .nest _ (List.forall_mem_singleton.mpr (.openGroup _)), .add _ _, .closeGroup,
      .addCondition _ ready, .add _ _,
      .nest _ (List.forall_mem_cons.mpr ⟨.closeGroup, List.forall_mem_singleton.mpr (.openGroup _)⟩), .add _ _,
      List.forall_mem_nil _⟩
  have passes : Passes steps { promotion := .wrap } [c "a", c "b", c "d"] (runAll steps { promotion := .wrap }) :=
    passes_runAll steps _
  obtain ⟨g, compiled⟩ : ∃ g, (runAll steps { promotion := .wrap }).group? = .ok g := ⟨_, rfl⟩
  obtain ⟨written, filled, -⟩ := (proper_throughout .wrap each passes).2 g compiled
  exact ⟨each, passes, g, compiled, mt written.mp (List.cons_ne_nil _ _), filled⟩

end AssemblyStep

end DocQuery
