import DocQuery.Filter.Assembly

/-!
# The filter that a program of balanced steps assembles

For programs that close every group where it ends, the outcome can be read off without a stack: a group is determined
by its arrivals, that is, by the conditions that were not left out, each with the connective it asked for and the
promotion policy in force when it came.

The agreement with a run is an induction over programs.  It keeps the innermost open group equal to the group of its
arrivals, and the groups around it as they were.
-/

namespace DocQuery

structure Arrival where
  kind : Connective
  /-- The policy in force when the condition is merged; for a group, when it is closed. -/
  promotion : Promotion
  condition : Condition

/-- The group that these arrivals make up.  It is an *or* group once one of them asks for *or*; then, under
the wrapping policy, two or more conditions before that one are a group of their own. -/
def Group.ofArrivals (arrivals : List Arrival) : Group :=
  let conditions := arrivals.map Arrival.condition
  match arrivals.findIdx? (·.kind = .or) with
  | none => ⟨.and, conditions⟩
  | some k =>
      if (arrivals[k]?).map Arrival.promotion = some .wrap ∧ 2 ≤ k then
        ⟨.or, .group .and (conditions.take k) :: conditions.drop k⟩
      else ⟨.or, conditions⟩

/-! ## Balanced programs -/

inductive BalancedStep where
  | add (kind : Connective) (c : Clause)
  | nest (kind : Connective) (steps : List BalancedStep)
  | setPromotion (promotion : Promotion)

namespace BalancedStep

mutual

def toStep : BalancedStep → AssemblyStep
  | add kind c => .add kind c
  | nest kind steps => .nest kind (toSteps steps)
  | setPromotion promotion => .setPromotion promotion

def toSteps : List BalancedStep → List AssemblyStep
  | [] => []
  | step :: rest => toStep step :: toSteps rest

end

mutual

def promotionAfter (p : Promotion) : BalancedStep → Promotion
  | add _ _ => p
  | nest _ steps => promotionAfterAll p steps
  | setPromotion promotion => promotion

def promotionAfterAll (p : Promotion) : List BalancedStep → Promotion
  | [] => p
  | step :: rest => promotionAfterAll (promotionAfter p step) rest

end

mutual

def arrivals (p : Promotion) : BalancedStep → List Arrival
  | add kind c => if c.field = "" then [] else [⟨kind, p, .clause c⟩]
  | nest kind steps =>
      let inner := Group.ofArrivals (arrivalsAll p steps)
      if inner.isEmpty then [] else [⟨kind, promotionAfterAll p steps, inner.toCondition⟩]
  | setPromotion _ => []

def arrivalsAll (p : Promotion) : List BalancedStep → List Arrival
  | [] => []
  | step :: rest => arrivals p step ++ arrivalsAll (promotionAfter p step) rest

end

def outline (p : Promotion) (steps : List BalancedStep) : Group :=
  Group.ofArrivals (arrivalsAll p steps)

end BalancedStep

/-! ## Arrivals one after another -/

namespace Group

theorem ofArrivals_of_and {before : List Arrival} (h : ∀ a ∈ before, a.kind = .and) :
    ofArrivals before = ⟨.and, before.map Arrival.condition⟩ := by
  have absent : before.findIdx? (·.kind = .or) = none := by
    rw [List.findIdx?_eq_none_iff]
    intro a ha
    simp [h a ha]
  simp only [ofArrivals, absent]

theorem ofArrivals_of_or {before after : List Arrival} {first : Arrival}
    (h : ∀ a ∈ before, a.kind = .and) (hf : first.kind = .or) :
    ofArrivals (before ++ first :: after) =
      ⟨.or, promoted first.promotion (before.map Arrival.condition) ++
        first.condition :: after.map Arrival.condition⟩ := by
  have position : (before ++ first :: after).findIdx? (·.kind = .or) = some before.length := by
    rw [List.findIdx?_append, List.findIdx?_eq_none_iff.mpr fun a ha => by simp [h a ha]]
    simp [List.findIdx?_cons, hf]
  have wraps : (((before ++ first :: after)[before.length]?).map Arrival.promotion = some .wrap ∧
      2 ≤ before.length) ↔ first.promotion = .wrap ∧ 1 < (before.map Arrival.condition).length := by
    simp [Nat.lt_iff_add_one_le]
  simp only [ofArrivals, position, promoted, wraps]
  split <;> simp

theorem split_arrivals (arrivals : List Arrival) :
    (∀ a ∈ arrivals, a.kind = .and) ∨
      ∃ before first after, arrivals = before ++ first :: after ∧
        (∀ a ∈ before, a.kind = .and) ∧ first.kind = .or := by
  induction arrivals with
  | nil => exact .inl (by simp)
  | cons a rest ih =>
      cases kind : a.kind with
      | or => exact .inr ⟨[], a, rest, rfl, by simp, kind⟩
      | and =>
          rcases ih with all | ⟨before, first, after, rfl, all, asks⟩
          · exact .inl (List.forall_mem_cons.mpr ⟨kind, all⟩)
          · exact .inr ⟨a :: before, first, after, rfl, List.forall_mem_cons.mpr ⟨kind, all⟩, asks⟩

theorem merge_ofArrivals (promotion : Promotion) (kind : Connective) (c : Condition)
    (arrivals : List Arrival) :
    (ofArrivals arrivals).merge promotion kind c = ofArrivals (arrivals ++ [⟨kind, promotion, c⟩]) := by
  rcases split_arrivals arrivals with all | ⟨before, first, after, rfl, all, asks⟩
  · rw [ofArrivals_of_and all]
    cases kind with
    | and =>
        rw [ofArrivals_of_and (by simpa [or_imp, forall_and] using all)]
        cases arrivals <;> simp [merge]
    | or =>
        rw [ofArrivals_of_or all rfl]
        cases arrivals <;> simp [merge, promoted]
  · rw [List.append_assoc, List.cons_append, ofArrivals_of_or all asks, ofArrivals_of_or all asks]
    simp [merge]

end Group

/-! ## The innermost group of an assembly -/

namespace Assembly

def current (a : Assembly) : Group :=
  match a.scopes with
  | [] => a.root
  | scope :: _ => scope.group

def withCurrent (g : Group) (a : Assembly) : Assembly :=
  match a.scopes with
  | [] => { a with root := g }
  | scope :: outer => { a with scopes := { scope with group := g } :: outer }

theorem withCurrent_current (a : Assembly) : a.withCurrent a.current = a := by
  obtain ⟨root, _ | ⟨scope, outer⟩, promotion⟩ := a <;> rfl

theorem current_withCurrent (a : Assembly) (g : Group) : (a.withCurrent g).current = g := by
  obtain ⟨root, _ | ⟨scope, outer⟩, promotion⟩ := a <;> rfl

theorem addCondition_eq (kind : Connective) (c : Condition) (a : Assembly) :
    a.addCondition kind c = a.withCurrent (a.current.merge a.promotion kind c) := by
  obtain ⟨root, _ | ⟨scope, outer⟩, promotion⟩ := a <;> rfl

/-- The assembly whose innermost group consisted of `arrived`, once more arrivals have come to it; the
policy is then `p`. -/
def extend (a : Assembly) (arrived more : List Arrival) (p : Promotion) : Assembly :=
  (a.withCurrent (Group.ofArrivals (arrived ++ more))).setPromotion p

theorem promotion_extend (a : Assembly) (arrived more : List Arrival) (p : Promotion) :
    (a.extend arrived more p).promotion = p := rfl

theorem current_extend (a : Assembly) (arrived more : List Arrival) (p : Promotion) :
    (a.extend arrived more p).current = Group.ofArrivals (arrived ++ more) :=
  current_withCurrent a _

theorem extend_nil {a : Assembly} {arrived : List Arrival} (h : a.current = Group.ofArrivals arrived)
    (p : Promotion) : a.extend arrived [] p = a.setPromotion p := by
  rw [extend, List.append_nil, ← h, withCurrent_current]

theorem extend_extend (a : Assembly) (arrived more last : List Arrival) (p q : Promotion) :
    (a.extend arrived more p).extend (arrived ++ more) last q = a.extend arrived (more ++ last) q := by
  obtain ⟨root, _ | ⟨scope, outer⟩, promotion⟩ := a <;>
    simp [extend, withCurrent, setPromotion]

theorem addCondition_extend {a : Assembly} {arrived : List Arrival}
    (h : a.current = Group.ofArrivals arrived) (kind : Connective) (c : Condition) (p : Promotion) :
    (a.setPromotion p).addCondition kind c = a.extend arrived [⟨kind, p, c⟩] p := by
  have current : (a.setPromotion p).current = Group.ofArrivals arrived := h
  rw [addCondition_eq, current, Group.merge_ofArrivals]
  obtain ⟨root, _ | ⟨scope, outer⟩, promotion⟩ := a <;> rfl

theorem current_openGroup (a : Assembly) (kind : Connective) :
    (a.openGroup kind).current = Group.ofArrivals [] := rfl

theorem closeDownTo_of_depth {a : Assembly} {depth : Nat} (h : a.depth = depth + 1) :
    a.closeDownTo depth = a.closeGroup := by
  rw [closeDownTo, h, Nat.add_sub_cancel_left]
  rfl

theorem closeDownTo_openGroup (a : Assembly) (kind : Connective) (inner : List Arrival) (p : Promotion) :
    ((a.openGroup kind).extend [] inner p).closeDownTo a.depth =
      if (Group.ofArrivals inner).isEmpty then a.setPromotion p
      else (a.setPromotion p).addCondition kind (Group.ofArrivals inner).toCondition := by
  rw [closeDownTo_of_depth rfl]
  simp only [extend, openGroup, withCurrent, setPromotion, closeGroup, closeGroup?, List.nil_append]
  split <;> rename_i closing <;> split at closing <;> simp_all

end Assembly

/-! ## Running a program -/

namespace BalancedStep

open Assembly

mutual

theorem run_eq_extend (step : BalancedStep) {a : Assembly} {arrived : List Arrival}
    (h : a.current = Group.ofArrivals arrived) :
    step.toStep.run a =
      a.extend arrived (step.arrivals a.promotion) (step.promotionAfter a.promotion) := by
  cases step with
  | add kind c =>
      simp only [toStep, AssemblyStep.run, Assembly.add, arrivals, promotionAfter]
      split
      · exact (extend_nil h _).symm
      · exact addCondition_extend h kind _ _
  | nest kind steps =>
      simp only [toStep, AssemblyStep.run, arrivals, promotionAfter]
      rw [runAll_eq_extend steps (current_openGroup a kind), closeDownTo_openGroup]
      split <;> rename_i inner <;> simp only [openGroup] at inner ⊢
      · rw [if_pos inner, extend_nil h]
      · rw [if_neg inner, addCondition_extend h]
  | setPromotion promotion => exact (extend_nil h promotion).symm

theorem runAll_eq_extend (steps : List BalancedStep) {a : Assembly} {arrived : List Arrival}
    (h : a.current = Group.ofArrivals arrived) :
    AssemblyStep.runAll (toSteps steps) a =
      a.extend arrived (arrivalsAll a.promotion steps) (promotionAfterAll a.promotion steps) := by
  cases steps with
  | nil => exact (extend_nil h a.promotion).symm
  | cons step rest =>
      simp only [toSteps, AssemblyStep.runAll, arrivalsAll, promotionAfterAll]
      rw [run_eq_extend step h, runAll_eq_extend rest (current_extend ..), promotion_extend,
        extend_extend]

end

theorem runAll_eq_outline (p : Promotion) (steps : List BalancedStep) :
    AssemblyStep.runAll (toSteps steps) { promotion := p } =
      { root := outline p steps, promotion := promotionAfterAll p steps } := by
  have start : ({ promotion := p } : Assembly).current = Group.ofArrivals [] := rfl
  rw [runAll_eq_extend steps start]
  rfl

theorem group?_runAll_eq_outline (p : Promotion) (steps : List BalancedStep) :
    (AssemblyStep.runAll (toSteps steps) { promotion := p }).group? = .ok (outline p steps) := by
  rw [runAll_eq_outline]
  rfl

/-- A policy that is set inside a group is in force after it, even if the group itself is left out. -/
example :
    outline .relabel [.add .and ⟨"a", .eq, .null⟩, .add .and ⟨"b", .eq, .null⟩,
      .nest .and [.setPromotion .wrap], .add .or ⟨"c", .eq, .null⟩] =
    ⟨.or, [.group .and [.clause ⟨"a", .eq, .null⟩, .clause ⟨"b", .eq, .null⟩],
      .clause ⟨"c", .eq, .null⟩]⟩ := rfl

end BalancedStep

end DocQuery
