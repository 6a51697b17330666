import DocQuery.Proofs.Filter.Rendering

namespace DocQuery

namespace Operator

def compares (operator : Operator) : Bool := operator == eq || operator.isOrdering

theorem existsUnique_admits (o : Ordering) : ∃! operator, operator ∈ [lt, eq, gt] ∧ operator.admits o = true := by
  cases o
  case lt =>
    refine ⟨lt, by decide, ?_⟩
    rintro (_ | _) <;> simp [admits]
  case eq =>
    refine ⟨eq, by decide, ?_⟩
    rintro (_ | _) <;> simp [admits]
  case gt =>
    refine ⟨gt, by decide, ?_⟩
    rintro (_ | _) <;> simp [admits]

end Operator

/-! ## Scalars -/

namespace Value

theorem isSome_compareAlike_iff {v w : Value} :
    (v.compareAlike w).isSome = true ↔ v.kindName = w.kindName ∧ w.isScalar = true := by
  cases v <;> cases w <;> simp [compareAlike, kindName, isScalar]

theorem equiv_of_scalar {w : Value} (scalar : w.isScalar = true) (v : Value) :
    v.equiv w = (v.compareAlike w).any Operator.eq.admits := by
  cases w <;> cases v <;> try first | rfl | cases scalar
  case bool.bool b c => cases b <;> cases c <;> rfl
  case number.number m n =>
    rw [equiv, compareAlike, Number.compare?_eq_some]
    rfl
  case string.string s t =>
    rw [equiv, compareAlike, Option.any_some, Operator.admits, Bool.eq_iff_iff, beq_iff_eq, beq_iff_eq,
      Std.LawfulEqCmp.compare_eq_iff_eq]

end Value

namespace Clause

variable {field : String} {operator : Operator} {v w : Value} {doc : Document}

/-! ## Comparisons -/

theorem anyWithin_or (test other : Value → Bool) (v : Value) :
    anyWithin (fun x => test x || other x) v = (anyWithin test v || anyWithin other v) := by
  cases v with
  | array items =>
      rw [Bool.eq_iff_iff]
      simp only [anyWithin, Bool.or_eq_true, List.any_eq_true, and_or_left, exists_or]
  | _ => rfl

theorem anyWithin_of_single (single : v.isArray = false) (test : Value → Bool) : anyWithin test v = test v := by
  cases v <;> first | rfl | cases single

theorem equals_of_scalar (scalar : w.isScalar = true) : equals ⟨field, .eq, w⟩ = isOrdered ⟨field, .eq, w⟩ := by
  funext v
  simp only [equals, isOrdered, anyOf_eq_or, ← Value.equiv_of_scalar scalar]
  cases array : v.isArray with
  | true =>
      -- an array is never equal to a scalar, so only its items count
      obtain ⟨items, rfl⟩ := Value.isArray_iff.mp array
      have unequal : (Value.array items).equiv w = false := by
        cases w <;> first | rfl | cases scalar
      rw [unequal, Bool.false_or]
  | false => rw [anyWithin_of_single array, Bool.or_self]

theorem accepts_of_scalar (scalar : w.isScalar = true) (comparison : operator.compares = true) (doc : Document) :
    accepts ⟨field, operator, w⟩ doc = (doc.lookup? field).any (isOrdered ⟨field, operator, w⟩) := by
  cases operator <;> try first | rfl | cases comparison
  rw [accepts, equals_of_scalar scalar]

theorem accepts_or_of_admits (scalar : w.isScalar = true) {f g h : Operator}
    (comparisons : ∀ operator ∈ [f, g, h], operator.compares = true)
    (admits : ∀ o, f.admits o = (g.admits o || h.admits o)) (doc : Document) :
    accepts ⟨field, f, w⟩ doc = (accepts ⟨field, g, w⟩ doc || accepts ⟨field, h, w⟩ doc) := by
  simp only [List.forall_mem_cons] at comparisons
  obtain ⟨hf, hg, hh, -⟩ := comparisons
  rw [accepts_of_scalar scalar hf, accepts_of_scalar scalar hg, accepts_of_scalar scalar hh]
  cases doc.lookup? field with
  | none => rfl
  | some v =>
      simp only [Option.any_some, isOrdered, ← anyWithin_or]
      congr 1
      funext x
      cases x.compareAlike w with
      | none => rfl
      | some o => exact admits o

theorem existsUnique_comparison (scalar : w.isScalar = true) (found : doc.lookup? field = some v)
    (kinds : v.kindName = w.kindName) :
    ∃! operator, operator ∈ [Operator.lt, .eq, .gt] ∧ accepts ⟨field, operator, w⟩ doc = true := by
  obtain ⟨o, compared⟩ := Option.isSome_iff_exists.mp (Value.isSome_compareAlike_iff.mpr ⟨kinds, scalar⟩)
  have single : v.isArray = false := by
    cases v <;> try rfl
    cases w <;> cases compared
  have answer {operator : Operator} (asked : operator ∈ [Operator.lt, .eq, .gt]) :
      accepts ⟨field, operator, w⟩ doc = operator.admits o := by
    have comparison : operator.compares = true := by
      revert operator
      decide
    rw [accepts_of_scalar scalar comparison, found, Option.any_some, isOrdered, anyWithin_of_single single, compared,
      Option.any_some]
  obtain ⟨operator, ⟨asked, admitted⟩, only⟩ := Operator.existsUnique_admits o
  refine ⟨operator, ⟨asked, (answer asked).trans admitted⟩, ?_⟩
  rintro other ⟨asked, accepted⟩
  exact only other ⟨asked, (answer asked).symm.trans accepted⟩

theorem accepts_of_nested (nested : w.isScalar = false) (ordering : operator.isOrdering = true) (doc : Document) :
    accepts ⟨field, operator, w⟩ doc = false := by
  have incomparable (x : Value) : x.compareAlike w = none := by
    rw [← Option.not_isSome_iff_eq_none, Value.isSome_compareAlike_iff, nested]
    simp
  have unordered (v : Value) : isOrdered ⟨field, operator, w⟩ v = false := by
    simp only [isOrdered, incomparable, Option.any_none]
    cases v <;> simp [anyWithin]
  have refused : (doc.lookup? field).any (isOrdered ⟨field, operator, w⟩) = false := by
    cases doc.lookup? field with
    | none => rfl
    | some v => exact unordered v
  cases operator <;> first | exact refused | cases ordering

/-- With a scalar for its operand, a field of the operand's kind satisfies just one of the strict comparisons and
equality.  With an array or an object nothing is ordered. -/
theorem order_beside_equality (field : String) (doc : Document) :
    (∀ w : Value, w.isScalar = true →
      accepts ⟨field, .gte, w⟩ doc = (accepts ⟨field, .gt, w⟩ doc || accepts ⟨field, .eq, w⟩ doc) ∧
        accepts ⟨field, .lte, w⟩ doc = (accepts ⟨field, .lt, w⟩ doc || accepts ⟨field, .eq, w⟩ doc) ∧
        ∀ v, doc.lookup? field = some v → v.kindName = w.kindName →
          ∃! operator, operator ∈ [Operator.lt, .eq, .gt] ∧ accepts ⟨field, operator, w⟩ doc = true) ∧
    ∀ w : Value, w.isScalar = false → ∀ operator : Operator, operator.isOrdering = true →
      accepts ⟨field, operator, w⟩ doc = false := by
  refine ⟨fun w scalar => ⟨?_, ?_, fun v found kinds => existsUnique_comparison scalar found kinds⟩,
    fun w nested operator ordering => accepts_of_nested nested ordering doc⟩
  · refine accepts_or_of_admits scalar (by decide) (fun o => ?_) doc
    cases o <;> rfl
  · refine accepts_or_of_admits scalar (by decide) (fun o => ?_) doc
    cases o <;> rfl

theorem order_beside_equality_mixed :
    let real : Value := .number (.float ⟨false, 4503599627370496, 1022, by decide⟩)
    let doc : Document := [("a", .array [real, .array [.one]])]
    Value.one.isScalar = true ∧ doc.lookup? "a.0" = some real ∧ real.kindName = Value.one.kindName ∧
      (∃! operator, operator ∈ [Operator.lt, .eq, .gt] ∧ accepts ⟨"a.0", operator, .one⟩ doc = true) ∧
      accepts ⟨"a", .gte, .one⟩ doc = (accepts ⟨"a", .gt, .one⟩ doc || accepts ⟨"a", .eq, .one⟩ doc) ∧
      (Value.array [.one]).isScalar = false ∧ Operator.gte.isOrdering = true ∧
      accepts ⟨"a", .gte, .array [.one]⟩ doc = false := by
  intro real doc
  have found : doc.lookup? "a.0" = some real := by rfl
  refine ⟨rfl, found, rfl, ?_, ?_, rfl, rfl, ?_⟩
  · exact ((order_beside_equality "a.0" doc).1 .one rfl).2.2 real found rfl
  · exact ((order_beside_equality "a" doc).1 .one rfl).1
  · exact (order_beside_equality "a" doc).2 _ rfl .gte rfl

/-! ## Membership -/

theorem anyOf_any (candidates : List Value) (v : Value) :
    anyOf (fun x => candidates.any (x.equiv ·)) v = candidates.any fun w => anyOf (·.equiv w) v := by
  cases v with
  | array items =>
      rw [Bool.eq_iff_iff]
      simp only [anyOf, Bool.or_eq_true, List.any_eq_true]
      constructor
      · rintro (⟨w, member, equal⟩ | ⟨x, inside, w, member, equal⟩)
        · exact ⟨w, member, .inl equal⟩
        · exact ⟨w, member, .inr ⟨x, inside, equal⟩⟩
      · rintro ⟨w, member, equal | ⟨x, inside, equal⟩⟩
        · exact .inl ⟨w, member, equal⟩
        · exact .inr ⟨x, inside, w, member, equal⟩
  | _ => rfl

theorem isMember_eq_any (c : Clause) (v : Value) :
    c.isMember v = c.candidates.any fun w => equals ⟨c.field, .eq, w⟩ v :=
  anyOf_any c.candidates v

theorem accepts_of_membership (field : String) (operand : Value) (doc : Document) :
    accepts ⟨field, .isIn, operand⟩ doc =
      (candidates ⟨field, .isIn, operand⟩).any (fun v => accepts ⟨field, .eq, v⟩ doc) ∧
    accepts ⟨field, .notIn, operand⟩ doc =
      (candidates ⟨field, .notIn, operand⟩).all (fun v => accepts ⟨field, .ne, v⟩ doc) := by
  cases found : doc.lookup? field with
  | none => simp [accepts, found]
  | some v => simp [accepts, found, isMember_eq_any, List.not_any_eq_all_not, candidates, equals]

/-- A membership test is the *or* group of the equalities with its candidates, and its negation the *and* group of the
inequalities. -/
theorem membership_beside_equality (field : String) (doc : Document) :
    (∀ candidates : List Value,
      accepts ⟨field, .isIn, .array candidates⟩ doc =
          Group.accepts ⟨.or, candidates.map fun v => .clause ⟨field, .eq, v⟩⟩ doc ∧
        accepts ⟨field, .notIn, .array candidates⟩ doc =
          Group.accepts ⟨.and, candidates.map fun v => .clause ⟨field, .ne, v⟩⟩ doc) ∧
    (∀ operator : Operator, operator.expectsSequence = true → ∀ v : Value, v.isArray = false →
      accepts ⟨field, operator, v⟩ doc = accepts ⟨field, operator, .array [v]⟩ doc) ∧
    ∀ v : Value, accepts ⟨field, .notIn, v⟩ doc = !accepts ⟨field, .isIn, v⟩ doc ∧
      accepts ⟨field, .ne, v⟩ doc = !accepts ⟨field, .eq, v⟩ doc := by
  refine ⟨fun candidates => ?_, fun operator membership v single => (accepts_listed membership single doc).symm,
    fun v => ⟨rfl, rfl⟩⟩
  obtain ⟨isIn, notIn⟩ := accepts_of_membership field (.array candidates) doc
  rw [isIn, notIn, Group.accepts, Group.accepts, Group.toCondition, Group.toCondition, Condition.accepts_group,
    Condition.accepts_group, List.map_map]
  simp [Connective.join, Clause.candidates, Condition.accepts, Function.comp_def]

theorem membership_beside_equality_nested :
    let doc : Document := [("a", .array [.one, .null])]
    let candidates : List Value := [.array [.one, .null], .null, .array []]
    accepts ⟨"a", .isIn, .array candidates⟩ doc =
        Group.accepts ⟨.or, candidates.map fun v => .clause ⟨"a", .eq, v⟩⟩ doc ∧
      Operator.isIn.expectsSequence = true ∧ Value.null.isArray = false ∧
      accepts ⟨"a", .isIn, .null⟩ doc = true ∧
      accepts ⟨"a", .isIn, .null⟩ doc = accepts ⟨"a", .isIn, .array [.null]⟩ doc := by
  intro doc candidates
  obtain ⟨listed, single, -⟩ := membership_beside_equality "a" doc
  exact ⟨(listed candidates).1, rfl, rfl, by decide +kernel, single .isIn rfl .null rfl⟩

end Clause

end DocQuery
