import DocQuery.Proofs.Filter.Clauses
import DocQuery.Proofs.Filter.Congruence

/-!
# The two promotion policies beside each other

Wherever an *and* group is promoted the assemblies of two runs come to differ in shape.  What stays the same is that the
same groups are open, with the same connectives, and that each group of the first run accepts no document that the group
in its place in the second run refuses.

For groups that may still be promoted this is not enough: relabelled conditions are alternatives, and each of
them has to accept at least what the one in its place accepts.  `Group.Below` asks for that in *and* groups, and
for *or* groups, which are never promoted, only for the whole.
-/

namespace DocQuery

def Condition.Implies (c d : Condition) : Prop := ∀ doc, c.accepts doc = true → d.accepts doc = true

namespace Condition

variable {cs ds : List Condition} {c d : Condition} {doc : Document}

theorem accepts_and_iff : accepts doc (.group .and cs) = true ↔ ∀ c ∈ cs, c.accepts doc = true := by
  rw [accepts, allAccept_eq, List.all_map, List.all_eq_true]
  rfl

theorem accepts_or_iff : accepts doc (.group .or cs) = true ↔ ∃ c ∈ cs, c.accepts doc = true := by
  rw [accepts, anyAccepts_eq, List.any_map, List.any_eq_true]
  rfl

theorem implies_and (each : List.Forall₂ Implies cs ds) : Implies (.group .and cs) (.group .and ds) := by
  intro doc accepted
  rw [accepts_and_iff] at accepted ⊢
  induction each with
  | nil => simp
  | cons first _ ih =>
      obtain ⟨head, tail⟩ := List.forall_mem_cons.mp accepted
      exact List.forall_mem_cons.mpr ⟨first doc head, ih tail⟩

theorem implies_or (each : List.Forall₂ Implies cs ds) : Implies (.group .or cs) (.group .or ds) := by
  intro doc accepted
  rw [accepts_or_iff] at accepted ⊢
  induction each with
  | nil => exact accepted
  | cons first _ ih =>
      rw [List.exists_mem_cons_iff] at accepted ⊢
      exact accepted.imp (first doc) ih

theorem implies_or_append (groups : Implies (.group .or cs) (.group .or ds)) (last : Implies c d) :
    Implies (.group .or (cs ++ [c])) (.group .or (ds ++ [d])) := by
  intro doc accepted
  have before := groups doc
  simp only [accepts_or_iff, List.mem_append, List.mem_singleton, or_and_right, exists_or, exists_eq_left]
    at accepted before ⊢
  exact accepted.imp before (last doc)

end Condition

/-! ## Groups -/

def Promotion.Below (p q : Promotion) : Prop := p = .wrap ∨ q = .relabel

theorem Promotion.Below.refl (p : Promotion) : p.Below p := by
  cases p with
  | relabel => exact .inr rfl
  | wrap => exact .inl rfl

namespace Group

open Condition

inductive Below : Group → Group → Prop where
  | and {cs ds : List Condition} (each : List.Forall₂ Implies cs ds) : Below ⟨.and, cs⟩ ⟨.and, ds⟩
  | or {cs ds : List Condition} (whole : Implies (.group .or cs) (.group .or ds)) (left : cs ≠ [])
      (right : ds ≠ []) : Below ⟨.or, cs⟩ ⟨.or, ds⟩

variable {g h : Group} {cs ds : List Condition} {c d : Condition} {p q : Promotion}

theorem Below.implies (below : g.Below h) : g.toCondition.Implies h.toCondition := by
  cases below with
  | and each => exact implies_and each
  | or whole _ _ => exact whole

theorem Below.isEmpty_eq (below : g.Below h) : g.isEmpty = h.isEmpty := by
  cases below with
  | and each => cases each <;> rfl
  | or _ left right =>
      rw [isEmpty, isEmpty, List.isEmpty_eq_false_iff.mpr left, List.isEmpty_eq_false_iff.mpr right]

theorem implies_or_of_promoted (p : Promotion) (proper : cs ≠ []) :
    Implies (.group .or (promoted p cs)) (.group .or cs) := by
  intro doc accepted
  rw [promoted] at accepted
  split at accepted
  · obtain ⟨first, rest, rfl⟩ := List.exists_cons_of_ne_nil proper
    rw [accepts_or_iff] at accepted ⊢
    obtain ⟨wrapped, hw, accepted⟩ := accepted
    obtain rfl := List.mem_singleton.mp hw
    exact ⟨first, List.mem_cons_self, accepts_and_iff.mp accepted first List.mem_cons_self⟩
  · exact accepted

theorem implies_or_promoted (policies : p.Below q) (each : List.Forall₂ Implies cs ds) (proper : cs ≠ []) :
    Implies (.group .or (promoted p cs)) (.group .or (promoted q ds)) := by
  have alike (p : Promotion) : Implies (.group .or (promoted p cs)) (.group .or (promoted p ds)) := by
    simp only [promoted, each.length_eq]
    split
    · exact implies_or (.cons (implies_and each) .nil)
    · exact implies_or each
  have relabelled : Implies (.group .or (promoted p cs)) (.group .or ds) := fun doc accepted =>
    implies_or each doc (implies_or_of_promoted p proper doc accepted)
  rcases policies with rfl | rfl
  · cases q with
    | wrap => exact alike .wrap
    | relabel => exact relabelled
  · exact relabelled

theorem Below.merge (below : g.Below h) (policies : p.Below q) (kind : Connective) (last : c.Implies d) :
    (g.merge p kind c).Below (h.merge q kind d) := by
  have empty := below.isEmpty_eq
  rw [Group.merge, Group.merge]
  rw [isEmpty, isEmpty] at empty
  rw [← empty]
  split <;> rename_i begun
  · cases kind with
    | and => exact .and (.cons last .nil)
    | or => exact .or (implies_or (.cons last .nil)) (by simp) (by simp)
  · cases below with
    | @and cs ds each =>
        cases kind with
        | and => exact .and (List.rel_append each (.cons last .nil))
        | or =>
            have proper : cs ≠ [] := fun h => begun (List.isEmpty_iff.mpr h)
            have before := implies_or_promoted policies each proper
            exact .or (implies_or_append before last) (by simp) (by simp)
    | @or cs ds whole left right =>
        cases kind <;> exact .or (implies_or_append whole last) (by simp) (by simp)

end Group

/-! ## Assemblies -/

namespace Assembly

structure Below (a b : Assembly) : Prop where
  root : a.root.Below b.root
  scopes : List.Forall₂ (fun s t : Scope => s.group.Below t.group ∧ s.attach = t.attach) a.scopes b.scopes
  promotion : a.promotion.Below b.promotion

namespace Below

variable {a b : Assembly} {c d : Condition}

theorem depth_eq (below : a.Below b) : a.depth = b.depth := below.scopes.length_eq

theorem addCondition (below : a.Below b) (kind : Connective) (last : c.Implies d) :
    (a.addCondition kind c).Below (b.addCondition kind d) := by
  obtain ⟨root, scopes, promotion⟩ := below
  obtain ⟨rootA, scopesA, p⟩ := a
  obtain ⟨rootB, scopesB, q⟩ := b
  cases scopes with
  | nil => exact ⟨root.merge promotion kind last, .nil, promotion⟩
  | cons innermost outer =>
      exact ⟨root, .cons ⟨innermost.1.merge promotion kind last, innermost.2⟩ outer, promotion⟩

theorem add (below : a.Below b) (kind : Connective) (c : Clause) : (a.add kind c).Below (b.add kind c) := by
  rw [Assembly.add, Assembly.add]
  split
  · exact below
  · exact below.addCondition kind fun _ accepted => accepted

theorem openGroup (below : a.Below b) (kind : Connective) : (a.openGroup kind).Below (b.openGroup kind) :=
  ⟨below.root, .cons ⟨.and .nil, rfl⟩ below.scopes, below.promotion⟩

theorem setPromotion (below : a.Below b) (promotion : Promotion) :
    (a.setPromotion promotion).Below (b.setPromotion promotion) :=
  ⟨below.root, below.scopes, .refl promotion⟩

theorem closeGroup (below : a.Below b) : a.closeGroup.Below b.closeGroup := by
  obtain ⟨root, scopes, promotion⟩ := below
  obtain ⟨rootA, scopesA, p⟩ := a
  obtain ⟨rootB, scopesB, q⟩ := b
  cases scopes with
  | nil => exact ⟨root, .nil, promotion⟩
  | @cons s t outerA outerB innermost outer =>
      have around : Below ⟨rootA, outerA, p⟩ ⟨rootB, outerB, q⟩ := ⟨root, outer, promotion⟩
      rw [closeGroup_cons, closeGroup_cons, innermost.1.isEmpty_eq, innermost.2]
      split
      · exact around
      · exact around.addCondition t.attach innermost.1.implies

theorem closeGroups (below : a.Below b) (n : Nat) : (a.closeGroups n).Below (b.closeGroups n) := by
  induction n generalizing a b with
  | zero => exact below
  | succ n ih => exact ih below.closeGroup

end Below

end Assembly

/-! ## Running a program twice -/

namespace AssemblyStep

open Assembly

mutual

theorem below_run (step : AssemblyStep) {a b : Assembly} (below : a.Below b) :
    (step.run a).Below (step.run b) := by
  cases step with
  | add kind c => exact below.add kind c
  | addCondition kind c => exact below.addCondition kind fun _ accepted => accepted
  | openGroup kind => exact below.openGroup kind
  | closeGroup => exact below.closeGroup
  | nest kind steps =>
      have inside := below_runAll steps (below.openGroup kind)
      rw [run, run, closeDownTo, closeDownTo, inside.depth_eq, below.depth_eq]
      exact inside.closeGroups _
  | setPromotion promotion => exact below.setPromotion promotion

theorem below_runAll (steps : List AssemblyStep) {a b : Assembly} (below : a.Below b) :
    (runAll steps a).Below (runAll steps b) := by
  cases steps with
  | nil => exact below
  | cons step rest => exact below_runAll rest (below_run step below)

end

end AssemblyStep

namespace BalancedStep

open Assembly

/-- What the wrapping policy assembles accepts only documents that the relabelling one accepts as well. -/
theorem accepts_relabelled_of_wrapped (steps : List BalancedStep) :
    ∃ g h, (AssemblyStep.runAll (toSteps steps) { promotion := .wrap }).group? = .ok g ∧
      (AssemblyStep.runAll (toSteps steps) { promotion := .relabel }).group? = .ok h ∧
      (∀ doc, g.accepts doc = true → h.accepts doc = true) ∧ g.clauses = h.clauses := by
  have start : Assembly.Below { promotion := .wrap } { promotion := .relabel } :=
    ⟨.and .nil, .nil, .inl rfl⟩
  have below := (AssemblyStep.below_runAll (toSteps steps) start).root
  have clauses (p : Promotion) := AssemblyStep.clauses_runAll (toSteps steps) { promotion := p }
  have assembled (p : Promotion) := congrArg group? (runAll_eq_outline p steps)
  refine ⟨outline .wrap steps, outline .relabel steps, assembled .wrap, assembled .relabel, ?_, ?_⟩
  · rw [runAll_eq_outline, runAll_eq_outline] at below
    exact below.implies
  · rw [← clauses_of_group? (assembled .wrap), ← clauses_of_group? (assembled .relabel), clauses, clauses]
    rfl

end BalancedStep

end DocQuery
