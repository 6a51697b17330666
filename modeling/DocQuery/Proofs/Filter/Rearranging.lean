import DocQuery.Proofs.Filter.Congruence
import DocQuery.Proofs.Filter.Outline

/-!
# Steps in another order

Each arrival casts a vote: the connective that it asks for, and its answer on the document.  One vote for *or* makes it
an *or* group, wherever that vote comes, and nothing else about the order of votes counts.  A group that is nested casts
one vote for all that is in it, or none.
-/

namespace DocQuery

/-! ## Votes -/

/-- What an arrival contributes to its group on a document: the connective that it asks for, and its answer. -/
abbrev Vote := Connective × Bool

def Arrival.vote (doc : Document) (a : Arrival) : Vote := (a.kind, a.condition.accepts doc)

def Vote.outcome (votes : List Vote) : Bool :=
  (if votes.any (·.1 = .or) then Connective.or else .and).join (votes.map Prod.snd)

theorem Connective.join_perm {answers others : List Bool} (perm : answers.Perm others) (kind : Connective) :
    kind.join answers = kind.join others := by
  cases kind with
  | and => exact perm.all_eq
  | or => exact perm.any_eq

theorem Vote.outcome_perm {votes others : List Vote} (perm : votes.Perm others) : outcome votes = outcome others := by
  rw [outcome, outcome, perm.any_eq, Connective.join_perm (perm.map Prod.snd)]

namespace Group

theorem ofArrivals_of_relabel {arrivals : List Arrival} (relabelled : ∀ a ∈ arrivals, a.promotion = .relabel) :
    ofArrivals arrivals =
      ⟨if arrivals.any (·.kind = .or) then .or else .and, arrivals.map Arrival.condition⟩ := by
  rcases split_arrivals arrivals with all | ⟨before, first, after, rfl, all, asks⟩
  · have none : arrivals.any (·.kind = .or) = false := by
      rw [List.any_eq_false]
      intro a ha
      simp [all a ha]
    rw [ofArrivals_of_and all, none]
    rfl
  · have relabelled := relabelled first (by simp)
    rw [ofArrivals_of_or all asks]
    simp [promoted, relabelled, asks]

theorem accepts_ofArrivals {arrivals : List Arrival} (relabelled : ∀ a ∈ arrivals, a.promotion = .relabel)
    (doc : Document) : (ofArrivals arrivals).accepts doc = Vote.outcome (arrivals.map (Arrival.vote doc)) := by
  rw [ofArrivals_of_relabel relabelled, accepts, toCondition, Condition.accepts_group, Vote.outcome, List.any_map,
    List.map_map, List.map_map]
  rfl

end Group

namespace BalancedStep

/-! ## Programs that keep the policy -/

inductive Plain : BalancedStep → Prop where
  | add (kind : Connective) (c : Clause) : Plain (add kind c)
  | nest (kind : Connective) {steps : List BalancedStep} (each : ∀ step ∈ steps, Plain step) :
      Plain (nest kind steps)

variable {steps others : List BalancedStep} {step : BalancedStep} {p : Promotion}

theorem plain_nest_iff {kind : Connective} : Plain (nest kind steps) ↔ ∀ step ∈ steps, step.Plain :=
  ⟨fun | .nest _ each => each, .nest kind⟩

theorem promotionAfterAll_of_each (each : ∀ step ∈ steps, promotionAfter p step = p) :
    promotionAfterAll p steps = p := by
  induction steps with
  | nil => rfl
  | cons step rest ih =>
      obtain ⟨first, others⟩ := List.forall_mem_cons.mp each
      rw [promotionAfterAll, first, ih others]

theorem Plain.promotionAfter (plain : step.Plain) : promotionAfter p step = p := by
  induction plain with
  | add kind c => rfl
  | nest kind each ih => exact promotionAfterAll_of_each ih

theorem arrivalsAll_eq_flatMap (plain : ∀ step ∈ steps, step.Plain) :
    arrivalsAll p steps = steps.flatMap (arrivals p) := by
  induction steps with
  | nil => rfl
  | cons step rest ih =>
      obtain ⟨first, others⟩ := List.forall_mem_cons.mp plain
      rw [arrivalsAll, first.promotionAfter, ih others, List.flatMap_cons]

theorem promotion_of_mem_arrivals (plain : step.Plain) {a : Arrival} (ha : a ∈ arrivals p step) :
    a.promotion = p := by
  cases plain with
  | add kind c =>
      rw [arrivals] at ha
      split at ha
      · cases ha
      · rw [List.mem_singleton.mp ha]
  | nest kind each =>
      rw [arrivals] at ha
      split at ha
      · cases ha
      · rw [List.mem_singleton.mp ha]
        exact promotionAfterAll_of_each fun step hs => (each step hs).promotionAfter

theorem promotion_of_mem_arrivalsAll (plain : ∀ step ∈ steps, step.Plain) :
    ∀ a ∈ arrivalsAll p steps, a.promotion = p := by
  rw [arrivalsAll_eq_flatMap plain]
  intro a ha
  obtain ⟨step, hs, ha⟩ := List.mem_flatMap.mp ha
  exact promotion_of_mem_arrivals (plain step hs) ha

/-! ## The votes of a program -/

def votes (doc : Document) (steps : List BalancedStep) : List Vote :=
  (arrivalsAll .relabel steps).map (Arrival.vote doc)

theorem accepts_outline (plain : ∀ step ∈ steps, step.Plain) (doc : Document) :
    (outline .relabel steps).accepts doc = Vote.outcome (votes doc steps) :=
  Group.accepts_ofArrivals (promotion_of_mem_arrivalsAll plain) doc

theorem isEmpty_outline (plain : ∀ step ∈ steps, step.Plain) (doc : Document) :
    (outline .relabel steps).isEmpty = (votes doc steps).isEmpty := by
  rw [outline, Group.ofArrivals_of_relabel (promotion_of_mem_arrivalsAll plain)]
  simp [Group.isEmpty, votes]

theorem votes_eq_flatMap (plain : ∀ step ∈ steps, step.Plain) (doc : Document) :
    votes doc steps = steps.flatMap fun step => (arrivals .relabel step).map (Arrival.vote doc) := by
  rw [votes, arrivalsAll_eq_flatMap plain, List.map_flatMap]

theorem votes_nest (kind : Connective) (plain : ∀ step ∈ steps, step.Plain) (doc : Document) :
    (arrivals .relabel (nest kind steps)).map (Arrival.vote doc) =
      if (votes doc steps).isEmpty then [] else [(kind, Vote.outcome (votes doc steps))] := by
  rw [arrivals, ← isEmpty_outline plain doc, ← accepts_outline plain doc]
  dsimp only [outline]
  rw [apply_ite (List.map (Arrival.vote doc))]
  rfl

/-! ## Rearranging -/

inductive Rearranged : List BalancedStep → List BalancedStep → Prop where
  | permuted {steps others : List BalancedStep} (perm : steps.Perm others) : Rearranged steps others
  | inside (before after : List BalancedStep) (kind : Connective) {inner others : List BalancedStep}
      (nested : Rearranged inner others) :
      Rearranged (before ++ nest kind inner :: after) (before ++ nest kind others :: after)
  | trans {steps middle others : List BalancedStep} (first : Rearranged steps middle)
      (second : Rearranged middle others) : Rearranged steps others

theorem Rearranged.plain (rearranged : Rearranged steps others) (plain : ∀ step ∈ steps, step.Plain) :
    ∀ step ∈ others, step.Plain := by
  induction rearranged with
  | permuted perm => exact fun step hs => plain step (perm.mem_iff.mpr hs)
  | inside _ _ _ _ ih =>
      simp only [List.forall_mem_append, List.forall_mem_cons, plain_nest_iff] at plain ⊢
      exact ⟨plain.1, ih plain.2.1, plain.2.2⟩
  | trans _ _ ihFirst ihSecond => exact ihSecond (ihFirst plain)

theorem Rearranged.votes_perm (rearranged : Rearranged steps others) (plain : ∀ step ∈ steps, step.Plain)
    (doc : Document) : (votes doc steps).Perm (votes doc others) := by
  induction rearranged with
  | permuted perm =>
      rw [votes_eq_flatMap plain, votes_eq_flatMap fun step hs => plain step (perm.mem_iff.mpr hs)]
      exact perm.flatMap_right _
  | inside before after kind nested ih =>
      have plainAfter := (inside before after kind nested).plain plain
      rw [votes_eq_flatMap plain, votes_eq_flatMap plainAfter]
      simp only [List.flatMap_append, List.flatMap_cons]
      simp only [List.forall_mem_append, List.forall_mem_cons, plain_nest_iff] at plain plainAfter
      have alike := ih plain.2.1
      rw [votes_nest kind plain.2.1, votes_nest kind plainAfter.2.1, Vote.outcome_perm alike, alike.isEmpty_eq]
  | trans first _ ihFirst ihSecond => exact (ihFirst plain).trans (ihSecond (first.plain plain))

/-- Under the relabelling policy the steps inside a group can come in any order. -/
theorem accepts_rearranged (plain : ∀ step ∈ steps, step.Plain) (rearranged : Rearranged steps others) :
    ∃ g h, (AssemblyStep.runAll (toSteps steps) { promotion := .relabel }).group? = .ok g ∧
      (AssemblyStep.runAll (toSteps others) { promotion := .relabel }).group? = .ok h ∧
      ∀ doc, g.accepts doc = h.accepts doc := by
  have assembled (steps : List BalancedStep) := congrArg Assembly.group? (runAll_eq_outline .relabel steps)
  refine ⟨_, _, assembled steps, assembled others, fun doc => ?_⟩
  rw [accepts_outline plain, accepts_outline (rearranged.plain plain),
    Vote.outcome_perm (rearranged.votes_perm plain doc)]

theorem accepts_rearranged_nested :
    let clause (kind : Connective) (name : String) : BalancedStep := .add kind ⟨name, .eq, .null⟩
    let inner := [clause .and "a", clause .or "b", clause .and "d"]
    let turned := [clause .or "b", clause .and "d", clause .and "a"]
    let steps := [clause .and "e", .nest .or inner, clause .and "f"]
    let others := [.nest .or turned, clause .and "f", clause .and "e"]
    (∀ step ∈ steps, step.Plain) ∧ Rearranged steps others ∧
      ∃ g h, (AssemblyStep.runAll (toSteps steps) { promotion := .relabel }).group? = .ok g ∧
        (AssemblyStep.runAll (toSteps others) { promotion := .relabel }).group? = .ok h ∧
        ∀ doc, g.accepts doc = h.accepts doc := by
  intro clause inner turned steps others
  have plain : ∀ step ∈ steps, step.Plain := by
    simp [steps, inner, clause, plain_nest_iff, Plain.add]
  have turns : ([clause .and "a"] ++ [clause .or "b", clause .and "d"]).Perm turned := List.perm_append_comm
  have inside : Rearranged steps ([clause .and "e"] ++ [.nest .or turned, clause .and "f"]) :=
    .inside [clause .and "e"] [clause .and "f"] .or (.permuted turns)
  have moves : ([clause .and "e"] ++ [.nest .or turned, clause .and "f"]).Perm others := List.perm_append_comm
  have rearranged : Rearranged steps others := inside.trans (.permuted moves)
  exact ⟨plain, rearranged, accepts_rearranged plain rearranged⟩

end BalancedStep

end DocQuery
