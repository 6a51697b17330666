import DocQuery.Proofs.Filter.Operators
import DocQuery.Proofs.Store.Counting

namespace DocQuery

/-! ## Keywords -/

def Operator.ofKeyword? (keyword : String) : Option Operator :=
  [eq, ne, gt, gte, lt, lte, isIn, notIn].find? (·.keyword = keyword)

theorem Operator.ofKeyword?_keyword (operator : Operator) : ofKeyword? operator.keyword = some operator := by
  cases operator <;> decide

def Connective.ofKeyword? (keyword : String) : Option Connective :=
  [and, or].find? (·.keyword = keyword)

theorem Connective.ofKeyword?_keyword (kind : Connective) : ofKeyword? kind.keyword = some kind := by
  cases kind <;> decide

/-! ## Reading -/

namespace Value

def comparison? (field : String) : Operator → Value → Option (Document → Bool)
  | .isIn, array candidates => some fun doc => candidates.any fun v => Clause.accepts ⟨field, .eq, v⟩ doc
  | .notIn, array candidates => some fun doc => candidates.all fun v => Clause.accepts ⟨field, .ne, v⟩ doc
  | .isIn, _ | .notIn, _ => none
  | operator, operand => some (Clause.accepts ⟨field, operator, operand⟩)

mutual

def test? : Value → Option (Document → Bool)
  | object [] => some fun _ => true
  | object [(name, array items)] => do
      let kind ← Connective.ofKeyword? name
      let tests ← tests? items
      some fun doc => kind.join (tests.map (· doc))
  | object [(field, object [(keyword, operand)])] => do
      let operator ← Operator.ofKeyword? keyword
      comparison? field operator operand
  | _ => none

def tests? : List Value → Option (List (Document → Bool))
  | [] => some []
  | v :: rest => do
      let first ← test? v
      let others ← tests? rest
      some (first :: others)

end

end Value

/-! ## Clauses -/

namespace Clause

theorem test?_toValue (c : Clause) : c.toValue.test? = some c.accepts := by
  obtain ⟨field, operator, operand⟩ := c
  rw [toValue, Value.test?, Operator.ofKeyword?_keyword]
  cases operator with
  | isIn => exact congrArg some (funext fun doc => (accepts_of_membership field operand doc).1.symm)
  | notIn => exact congrArg some (funext fun doc => (accepts_of_membership field operand doc).2.symm)
  | _ => rfl

end Clause

/-! ## Conditions -/

namespace Condition

mutual

theorem test?_toValue : ∀ c : Condition, c.toValue.test? = some fun doc => c.accepts doc
  | .clause c => c.test?_toValue
  | .group kind children => by
      rw [toValue, Value.test?, Connective.ofKeyword?_keyword, tests?_toValues children]
      refine congrArg some (funext fun doc => ?_)
      rw [accepts_group, List.map_map]
      rfl

theorem tests?_toValues :
    ∀ cs : List Condition, Value.tests? (toValues cs) = some (cs.map fun c doc => c.accepts doc)
  | [] => rfl
  | c :: cs => by
      rw [toValues, Value.tests?, test?_toValue c, tests?_toValues cs]
      rfl

end

end Condition

/-! ## Groups -/

namespace Group

/-- A store that reads the document written for a group accepts the same documents, except for an empty *or* group. -/
theorem test?_toFilter {g : Group} (proper : g ≠ ⟨.or, []⟩) :
    ∃ test, g.toFilter.test? = some test ∧ (∀ doc, test doc = g.accepts doc) ∧
      ∀ docs : Collection, docs.select g = docs.filter test ∧ docs.count g = docs.countP test ∧
        docs.delete g = (docs.countP test, docs.filter fun doc => !test doc) := by
  have same : g.toFilter.test? = some g.accepts := by
    obtain ⟨kind, _ | ⟨c, cs⟩⟩ := g
    · cases kind with
      | and => rfl
      | or => exact absurd rfl proper
    · exact Condition.test?_toValue (.group kind (c :: cs))
  refine ⟨g.accepts, same, fun doc => rfl, fun docs => ?_⟩
  have counted : docs.count g = docs.countP g.accepts := List.countP_eq_length_filter.symm
  exact ⟨rfl, counted, Prod.ext ((Collection.delete_fst g docs).trans counted) rfl⟩

theorem test?_toFilter_emptyInside :
    let g : Group := ⟨.or, [.clause ⟨"a.b", .notIn, .one⟩, .group .or [], .group .and [.group .or []]]⟩
    g ≠ ⟨.or, []⟩ ∧ ∃ test, g.toFilter.test? = some test ∧ ∀ doc, test doc = g.accepts doc := by
  intro g
  have proper : g ≠ ⟨.or, []⟩ := by simp [g]
  obtain ⟨test, read, accepts, -⟩ := test?_toFilter proper
  exact ⟨proper, test, read, accepts⟩

theorem toFilter_of_emptyOr :
    let g : Group := ⟨.or, []⟩
    (g.toFilter.test? = some fun _ => true) ∧ (∀ doc, g.accepts doc = false) ∧
      ¬ ∃ test, g.toFilter.test? = some test ∧ ∀ doc, test doc = g.accepts doc := by
  intro g
  have everything : g.toFilter.test? = some fun _ => true := rfl
  refine ⟨everything, fun _ => rfl, ?_⟩
  rintro ⟨test, read, same⟩
  obtain rfl := Option.some.inj (everything.symm.trans read)
  exact absurd (same []) (by decide)

end Group

end DocQuery
