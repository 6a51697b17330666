import DocQuery.Proofs.Filter.Outline

/-!
# What a nested program leaves of the groups around it

Nothing keeps a nested program from closing the group that was opened for it, or groups around that one.  Where it
closes no group but its own, it does the same as in an assembly of its own, which stands in the place of its group
(`Assembly.within`).
-/

namespace DocQuery

/-! ## Groups that a program has opened -/

namespace AssemblyStep

mutual

/-- How many groups of its own a program has open after a step, when there were `n` before; nothing, if the
step closes a group that is not its own. -/
def openAfter? (n : Nat) : AssemblyStep → Option Nat
  | openGroup _ => some (n + 1)
  | closeGroup => if n = 0 then none else some (n - 1)
  | nest _ steps => (openAfterAll? (n + 1) steps).map (min n)
  | add _ _ | addCondition _ _ | setPromotion _ => some n

def openAfterAll? (n : Nat) : List AssemblyStep → Option Nat
  | [] => some n
  | step :: rest => (openAfter? n step).bind fun m => openAfterAll? m rest

end

end AssemblyStep

namespace Assembly

/-! ## Closing -/

theorem closeGroup_cons (root : Group) (scope : Scope) (outer : List Scope) (promotion : Promotion) :
    closeGroup ⟨root, scope :: outer, promotion⟩ =
      if scope.group.isEmpty then ⟨root, outer, promotion⟩
      else addCondition scope.attach scope.group.toCondition ⟨root, outer, promotion⟩ := by
  by_cases empty : scope.group.isEmpty <;> simp [closeGroup, closeGroup?, empty]

theorem depth_addCondition (kind : Connective) (c : Condition) (a : Assembly) :
    (a.addCondition kind c).depth = a.depth := by
  obtain ⟨root, _ | ⟨scope, outer⟩, promotion⟩ := a <;> rfl

theorem depth_add (kind : Connective) (c : Clause) (a : Assembly) : (a.add kind c).depth = a.depth := by
  rw [add]
  split
  · rfl
  · exact depth_addCondition _ _ _

theorem depth_closeGroup (a : Assembly) : a.closeGroup.depth = a.depth - 1 := by
  obtain ⟨root, _ | ⟨scope, outer⟩, promotion⟩ := a
  · rfl
  · rw [closeGroup_cons]
    split
    · rfl
    · exact depth_addCondition _ _ _

theorem depth_closeGroups (n : Nat) (a : Assembly) : (a.closeGroups n).depth = a.depth - n := by
  induction n generalizing a with
  | zero => rfl
  | succ n ih => rw [closeGroups, ih, depth_closeGroup, Nat.sub_sub, Nat.add_comm]

theorem depth_closeDownTo (depth : Nat) (a : Assembly) :
    (a.closeDownTo depth).depth = min depth a.depth := by
  rw [closeDownTo, depth_closeGroups]
  omega

theorem closeGroups_add (m n : Nat) (a : Assembly) :
    a.closeGroups (m + n) = (a.closeGroups m).closeGroups n := by
  induction m generalizing a with
  | zero => rw [Nat.zero_add, closeGroups]
  | succ m ih => rw [Nat.succ_add, closeGroups, closeGroups, ih]

theorem closeGroup_closeDownTo {depth : Nat} {a : Assembly} (above : depth < a.depth) :
    (a.closeDownTo (depth + 1)).closeGroup = a.closeDownTo depth := by
  have steps : a.depth - depth = (a.depth - (depth + 1)) + 1 := by omega
  rw [closeDownTo, closeDownTo, steps, closeGroups_add]
  rfl

/-! ## An assembly inside another one -/

/-- The assembly `inner` in the place of a group that has been opened in `outer`. -/
def within (outer : Assembly) (kind : Connective) (inner : Assembly) : Assembly :=
  { outer with scopes := inner.scopes ++ ⟨inner.root, kind⟩ :: outer.scopes, promotion := inner.promotion }

variable (outer : Assembly) (kind : Connective)

theorem depth_within (inner : Assembly) : (outer.within kind inner).depth = inner.depth + 1 + outer.depth := by
  simp only [within, depth, List.length_append, List.length_cons]
  omega

theorem addCondition_within (attach : Connective) (c : Condition) (inner : Assembly) :
    (outer.within kind inner).addCondition attach c = outer.within kind (inner.addCondition attach c) := by
  obtain ⟨root, _ | ⟨scope, scopes⟩, promotion⟩ := inner <;> rfl

theorem add_within (attach : Connective) (c : Clause) (inner : Assembly) :
    (outer.within kind inner).add attach c = outer.within kind (inner.add attach c) := by
  rw [add, add, addCondition_within, apply_ite (outer.within kind)]

theorem closeGroup_within {inner : Assembly} (opened : 0 < inner.depth) :
    (outer.within kind inner).closeGroup = outer.within kind inner.closeGroup := by
  obtain ⟨root, _ | ⟨scope, scopes⟩, promotion⟩ := inner
  · cases opened
  · rw [closeGroup_cons, apply_ite (outer.within kind), ← addCondition_within]
    exact closeGroup_cons ..

theorem closeGroups_within {n : Nat} {inner : Assembly} (opened : n ≤ inner.depth) :
    (outer.within kind inner).closeGroups n = outer.within kind (inner.closeGroups n) := by
  induction n generalizing inner with
  | zero => rfl
  | succ n ih =>
      rw [closeGroups, closeGroups, closeGroup_within outer kind (Nat.zero_lt_of_lt opened), ih]
      rw [depth_closeGroup]
      omega

theorem closeGroup_within_of_depth {inner : Assembly} (closed : inner.depth = 0) :
    (outer.within kind inner).closeGroup =
      if inner.root.isEmpty then outer.setPromotion inner.promotion
      else (outer.setPromotion inner.promotion).addCondition kind inner.root.toCondition := by
  obtain ⟨root, _ | ⟨scope, scopes⟩, promotion⟩ := inner
  · exact closeGroup_cons ..
  · cases closed

theorem closeDownTo_within (depth : Nat) (inner : Assembly) :
    (outer.within kind inner).closeDownTo (depth + 1 + outer.depth) =
      outer.within kind (inner.closeDownTo depth) := by
  rw [closeDownTo, closeDownTo, depth_within, ← closeGroups_within outer kind (Nat.sub_le _ _)]
  congr 1
  omega

/-! ## What changes around a nested program -/

def groups (a : Assembly) : List Group := a.scopes.map Scope.group ++ [a.root]

structure MergesAtMostOne (kind : Connective) (a after : Assembly) : Prop where
  depth : after.depth = a.depth
  attach : after.scopes.map Scope.attach = a.scopes.map Scope.attach
  around : after.groups.tail = a.groups.tail
  innermost : after.current = a.current ∨ ∃ g : Group, g.isEmpty = false ∧
    after.current = a.current.merge after.promotion kind g.toCondition

theorem mergesAtMostOne_setPromotion (kind : Connective) (a : Assembly) (promotion : Promotion) :
    MergesAtMostOne kind a (a.setPromotion promotion) := ⟨rfl, rfl, rfl, .inl rfl⟩

theorem mergesAtMostOne_addCondition (kind : Connective) (a : Assembly) (promotion : Promotion) {g : Group}
    (proper : g.isEmpty = false) :
    MergesAtMostOne kind a ((a.setPromotion promotion).addCondition kind g.toCondition) := by
  obtain ⟨root, _ | ⟨scope, outer⟩, current⟩ := a <;> exact ⟨rfl, rfl, rfl, .inr ⟨g, proper, rfl⟩⟩

end Assembly

namespace AssemblyStep

open Assembly

/-! ## Steps inside another assembly -/

section

variable (outer : Assembly) (kind : Connective)

mutual

theorem run_within (step : AssemblyStep) {inner : Assembly} {m : Nat}
    (own : openAfter? inner.depth step = some m) :
    step.run (outer.within kind inner) = outer.within kind (step.run inner) ∧ (step.run inner).depth = m := by
  cases step with
  | add attach c =>
      obtain rfl := Option.some.inj own
      exact ⟨add_within outer kind attach c inner, depth_add attach c inner⟩
  | addCondition attach c =>
      obtain rfl := Option.some.inj own
      exact ⟨addCondition_within outer kind attach c inner, depth_addCondition attach c inner⟩
  | openGroup attach =>
      obtain rfl := Option.some.inj own
      exact ⟨rfl, rfl⟩
  | closeGroup =>
      rw [openAfter?] at own
      split at own <;> cases own
      exact ⟨closeGroup_within outer kind (by omega), depth_closeGroup inner⟩
  | nest attach steps =>
      -- the group of the inner program is one that this program has opened, so closing down stays inside
      obtain ⟨k, opened, rfl⟩ := Option.map_eq_some_iff.mp own
      have ownInside : openAfterAll? (inner.openGroup attach).depth steps = some k := opened
      obtain ⟨inside, depth⟩ := runAll_within steps ownInside
      simp only [run, depth_closeDownTo, depth, and_true]
      rw [depth_within, ← closeDownTo_within, ← inside]
      rfl
  | setPromotion promotion =>
      obtain rfl := Option.some.inj own
      exact ⟨rfl, rfl⟩

theorem runAll_within (steps : List AssemblyStep) {inner : Assembly} {m : Nat}
    (own : openAfterAll? inner.depth steps = some m) :
    runAll steps (outer.within kind inner) = outer.within kind (runAll steps inner) ∧
      (runAll steps inner).depth = m := by
  cases steps with
  | nil => exact ⟨rfl, Option.some.inj own⟩
  | cons step rest =>
      obtain ⟨k, first, others⟩ := Option.bind_eq_some_iff.mp own
      obtain ⟨inside, depth⟩ := run_within step first
      rw [runAll, runAll, inside]
      exact runAll_within rest (depth.symm ▸ others)

end

end

/-! ## A nested program -/

theorem run_nest_of_own (kind : Connective) {steps : List AssemblyStep} {a inner : Assembly}
    (own : (openAfterAll? 0 steps).isSome)
    (outcome : (runAll steps { promotion := a.promotion }).closeDownTo 0 = inner) :
    (nest kind steps).run a =
      if inner.root.isEmpty then a.setPromotion inner.promotion
      else (a.setPromotion inner.promotion).addCondition kind inner.root.toCondition := by
  let start : Assembly := { promotion := a.promotion }
  obtain ⟨m, own⟩ := Option.isSome_iff_exists.mp own
  have ownInside : openAfterAll? start.depth steps = some m := own
  obtain ⟨inside, -⟩ := runAll_within a kind steps ownInside
  have above : a.depth < (a.within kind (runAll steps start)).depth := by
    rw [depth_within]
    omega
  have closed : inner.depth = 0 := by rw [← outcome, depth_closeDownTo, Nat.zero_min]
  calc (nest kind steps).run a
    _ = (a.within kind (runAll steps start)).closeDownTo a.depth := by rw [← inside]; rfl
    _ = ((a.within kind (runAll steps start)).closeDownTo (0 + 1 + a.depth)).closeGroup := by
      rw [← closeGroup_closeDownTo above, Nat.zero_add, Nat.add_comm]
    _ = (a.within kind inner).closeGroup := by rw [closeDownTo_within, outcome]
    _ = _ := closeGroup_within_of_depth a kind closed

/-- After a nested program no more groups are open than before it, and no more than it has left open. -/
theorem nest_mergesAtMostOne (kind : Connective) (steps : List AssemblyStep) (a : Assembly) :
    ((nest kind steps).run a).depth = min a.depth (runAll steps (a.openGroup kind)).depth ∧
      ((openAfterAll? 0 steps).isSome → a.MergesAtMostOne kind ((nest kind steps).run a)) := by
  refine ⟨depth_closeDownTo _ _, fun own => ?_⟩
  rw [run_nest_of_own kind own rfl]
  split <;> rename_i inside
  · exact mergesAtMostOne_setPromotion kind a _
  · exact mergesAtMostOne_addCondition kind a _ (Bool.eq_false_iff.mpr inside)

theorem nest_mergesAtMostOne_unevenly :
    let c : Clause := ⟨"a", .eq, .null⟩
    let steps : List AssemblyStep :=
      [.openGroup .and, .nest .or [.add .and c, .closeGroup, .closeGroup], .setPromotion .wrap,
        .openGroup .or, .add .and c]
    let a : Assembly := (({} : Assembly).add .and c).openGroup .or
    (openAfterAll? 0 steps).isSome ∧ a.MergesAtMostOne .and ((nest .and steps).run a) := by
  intro c steps a
  have own : (openAfterAll? 0 steps).isSome := rfl
  exact ⟨own, (nest_mergesAtMostOne .and steps a).2 own⟩

theorem nest_closing_around :
    let a : Assembly := ({} : Assembly).openGroup .and
    let after := (nest .and [.closeGroup, .closeGroup]).run a
    a.depth = 1 ∧ after.depth = 0 ∧ ¬ a.MergesAtMostOne .and after :=
  ⟨rfl, rfl, fun h => absurd h.depth (by decide)⟩

end AssemblyStep

end DocQuery
