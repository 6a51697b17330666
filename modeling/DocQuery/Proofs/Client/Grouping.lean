import DocQuery.Client.Methods
import DocQuery.Proofs.Client.Building
import DocQuery.Proofs.Filter.Proper

namespace DocQuery

/-! ## The methods of queries and scopes -/

namespace Query

theorem call_eq_addCondition (q : Query) (call : ConditionCall) : q.call call = q.addCondition call.inScope := by
  cases call <;> rfl

theorem callAll_eq_runAll (calls : List ConditionCall) (q : Query) :
    q.callAll calls = { q with assembly := ConditionStep.runAll (ConditionCall.allInScope calls) q.assembly } := by
  induction calls generalizing q with
  | nil => rfl
  | cons call rest ih => exact (congrArg (callAll rest) (q.call_eq_addCondition call)).trans (ih _)

end Query

/-! ## Groups of condition steps -/

namespace ConditionStep

mutual

theorem openAfter?_toAssemblyStep (n : Nat) (step : ConditionStep) :
    AssemblyStep.openAfter? n step.toAssemblyStep = some n := by
  cases step with
  | compare kind field operator operand => rfl
  | compareByToken kind field token operand => rfl
  | group kind steps =>
      rw [toAssemblyStep, AssemblyStep.openAfter?, openAfterAll?_toAssemblySteps (n + 1) steps]
      exact congrArg some (Nat.min_eq_left (Nat.le_succ n))

theorem openAfterAll?_toAssemblySteps (n : Nat) (steps : List ConditionStep) :
    AssemblyStep.openAfterAll? n (toAssemblySteps steps) = some n := by
  cases steps with
  | nil => rfl
  | cons step rest =>
      rw [toAssemblySteps, AssemblyStep.openAfterAll?, openAfter?_toAssemblyStep n step]
      exact openAfterAll?_toAssemblySteps n rest

end

mutual

theorem proper_toAssemblyStep (step : ConditionStep) : step.toAssemblyStep.Proper := by
  cases step with
  | compare kind field operator operand => exact .add _ _
  | compareByToken kind field token operand => exact .add _ _
  | group kind steps => exact .nest kind (proper_toAssemblySteps steps)

theorem proper_toAssemblySteps (steps : List ConditionStep) : ∀ step ∈ toAssemblySteps steps, step.Proper := by
  cases steps with
  | nil => exact List.forall_mem_nil _
  | cons step rest => exact List.forall_mem_cons.mpr ⟨proper_toAssemblyStep step, proper_toAssemblySteps rest⟩

end

theorem run_group (kind : Connective) (steps : List ConditionStep) (a : Assembly) :
    let inner := runAll steps { promotion := a.promotion }
    (group kind steps).run a =
      if inner.root.isEmpty then a.setPromotion inner.promotion
      else (a.setPromotion inner.promotion).addCondition kind inner.root.toCondition := by
  intro inner
  have own : (AssemblyStep.openAfterAll? 0 (toAssemblySteps steps)).isSome := by
    rw [openAfterAll?_toAssemblySteps]
    rfl
  have closed : inner.depth = 0 := depth_runAll steps _
  have outcome : inner.closeDownTo 0 = inner := by
    rw [Assembly.closeDownTo, closed]
    rfl
  exact AssemblyStep.run_nest_of_own kind own outcome

theorem group?_runAll (steps : List ConditionStep) (promotion : Promotion) :
    (runAll steps { promotion }).group? = .ok (runAll steps { promotion }).root :=
  Assembly.group?_eq_ok_iff.mpr ⟨depth_runAll steps _, rfl⟩

theorem group?_group (kind : Connective) (steps : List ConditionStep) (promotion : Promotion) :
    let root := (runAll steps { promotion }).root
    (root.isEmpty = false ∧ ((group kind steps).run { promotion }).group? = .ok ⟨kind, [root.toCondition]⟩) ∨
      (root = ⟨.and, []⟩ ∧ ((group kind steps).run { promotion }).group? = .ok ⟨.and, []⟩) := by
  intro root
  have proper : root.Proper := by
    have whole := AssemblyStep.proper_runAll (proper_toAssemblySteps steps)
      (Assembly.proper_nil_iff.mpr Group.proper_empty : Assembly.Proper { promotion })
    exact whole root (List.mem_append_right _ List.mem_cons_self)
  rw [run_group]
  cases empty : root.isEmpty with
  | true => exact .inr ⟨proper.eq_of_isEmpty empty, rfl⟩
  | false => exact .inl ⟨rfl, rfl⟩

end ConditionStep

/-! ## Queries -/

def ConditionCall.grouped : Connective → List ConditionCall → ConditionCall
  | .and, calls => group calls
  | .or, calls => orGroup calls

theorem ConditionCall.inScope_grouped (kind : Connective) (calls : List ConditionCall) :
    (grouped kind calls).inScope = .group kind (allInScope calls) := by
  cases kind <;> rfl

namespace Query

/-- The same calls in a group of another new query give the group of its connective around the filter, unless there is
nothing in either of them. -/
theorem group?_grouped (client : Client) (promotion : Promotion) (calls : List ConditionCall) :
    let new := client.newQuery.setPromotion promotion
    ∃ g, (new.callAll calls).group? = .ok g ∧ ∀ kind,
      (g.isEmpty = false ∧ (new.call (.grouped kind calls)).group? = .ok ⟨kind, [g.toCondition]⟩) ∨
        (g = ⟨.and, []⟩ ∧ (new.call (.grouped kind calls)).group? = .ok ⟨.and, []⟩) := by
  intro new
  let steps := ConditionCall.allInScope calls
  refine ⟨(ConditionStep.runAll steps { promotion }).root, ?_, fun kind => ?_⟩
  · rw [callAll_eq_runAll]
    exact mapError_eq_ok_iff.mpr (ConditionStep.group?_runAll steps promotion)
  · have grouped (h : Group) (compiled : ((ConditionStep.group kind steps).run { promotion }).group? = .ok h) :
        (new.call (.grouped kind calls)).group? = .ok h := by
      rw [call_eq_addCondition, ConditionCall.inScope_grouped]
      exact mapError_eq_ok_iff.mpr compiled
    rcases ConditionStep.group?_group kind steps promotion with ⟨filled, compiled⟩ | ⟨empty, compiled⟩
    · exact .inl ⟨filled, grouped _ compiled⟩
    · exact .inr ⟨empty, grouped _ compiled⟩

end Query

end DocQuery
