import DocQuery.Proofs.Filter.Congruence

namespace DocQuery

/-! ## Documents that are the same part by part -/

namespace Value

def isArray : Value → Bool
  | array _ => true
  | _ => false

theorem isArray_iff {v : Value} : v.isArray = true ↔ ∃ items, v = .array items := by
  cases v <;> simp [isArray]

/-- A sense of being the same in which arrays have the same items, and objects with one field the same name and
value. -/
structure Partwise (R : Value → Value → Prop) : Prop where
  field : ∀ {k l v w}, R (.object [(k, v)]) (.object [(l, w)]) → k = l ∧ R v w
  items : ∀ {xs ys}, R (.array xs) (.array ys) → List.Forall₂ R xs ys
  isArray_eq : ∀ {v w}, R v w → v.isArray = w.isArray

theorem partwise_eq : Partwise (· = ·) where
  field := by simp
  items := by
    intro xs ys same
    cases same
    exact List.forall₂_same.mpr fun _ _ => rfl
  isArray_eq := congrArg isArray

theorem partwise_same : Partwise Same where
  field := by
    intro k l v w same
    have found := same.get? k
    rw [Document.get?_cons, if_pos rfl, Document.get?_cons] at found
    split at found <;> rename_i names
    · cases found with
      | some values => exact ⟨names.symm, values⟩
    · cases found
  items := Same.items
  isArray_eq := by
    intro v w same
    cases v <;> cases w <;> first | rfl | cases same.1

end Value

/-! ## Clauses -/

theorem Operator.keyword_injective : Function.Injective Operator.keyword := by
  intro f g same
  cases f <;> cases g <;> first | rfl | exact absurd same (by decide)

namespace Clause

variable {R : Value → Value → Prop} {field : String} {operator : Operator} {v : Value} {c d : Clause}

/-- The same comparison with the same operand, save that a single candidate may be given by itself on one side and as
a list of one on the other. -/
inductive Respelled (R : Value → Value → Prop) : Clause → Clause → Prop where
  | same {field : String} {operator : Operator} {v w : Value} (operands : R v w) :
      Respelled R ⟨field, operator, v⟩ ⟨field, operator, w⟩
  | listed {field : String} {operator : Operator} {v w : Value} (membership : operator.expectsSequence = true)
      (single : v.isArray = false) (operands : R v w) :
      Respelled R ⟨field, operator, v⟩ ⟨field, operator, .array [w]⟩
  | unlisted {field : String} {operator : Operator} {v w : Value} (membership : operator.expectsSequence = true)
      (single : w.isArray = false) (operands : R v w) :
      Respelled R ⟨field, operator, .array [v]⟩ ⟨field, operator, w⟩

theorem candidates_of_single (single : v.isArray = false) : candidates ⟨field, operator, v⟩ = [v] := by
  cases v <;> first | rfl | cases single

theorem respelled_of_partwise (partwise : Value.Partwise R) (written : R c.toValue d.toValue) :
    c.Respelled R d := by
  obtain ⟨field, operator, v⟩ := c
  obtain ⟨other, operator', w⟩ := d
  obtain ⟨rfl, comparisons⟩ := partwise.field written
  obtain ⟨keywords, operands⟩ := partwise.field comparisons
  obtain rfl := Operator.keyword_injective keywords
  simp only [writtenOperand] at operands
  split at operands <;> rename_i membership
  · have each := partwise.items operands
    cases hv : v.isArray with
    | true =>
        obtain ⟨xs, rfl⟩ := Value.isArray_iff.mp hv
        cases hw : w.isArray with
        | true =>
            obtain ⟨ys, rfl⟩ := Value.isArray_iff.mp hw
            exact .same operands
        | false =>
            rw [candidates_of_single hw] at each
            obtain ⟨x, xs, same, none, rfl⟩ := List.forall₂_cons_right_iff.mp each
            obtain rfl := List.forall₂_nil_right_iff.mp none
            exact .unlisted membership hw same
    | false =>
        rw [candidates_of_single hv] at each
        obtain ⟨y, ys, same, none, written⟩ := List.forall₂_cons_left_iff.mp each
        obtain rfl := List.forall₂_nil_left_iff.mp none
        cases hw : w.isArray with
        | true =>
            obtain ⟨ys, rfl⟩ := Value.isArray_iff.mp hw
            obtain rfl : ys = [y] := written
            exact .listed membership hv same
        | false =>
            rw [candidates_of_single hw] at written
            cases written
            exact .same same
  · exact .same operands

theorem candidates_listed (single : v.isArray = false) :
    candidates ⟨field, operator, .array [v]⟩ = candidates ⟨field, operator, v⟩ :=
  (candidates_of_single single).symm

theorem toValue_listed (membership : operator.expectsSequence = true) (single : v.isArray = false) :
    toValue ⟨field, operator, .array [v]⟩ = toValue ⟨field, operator, v⟩ := by
  simp only [toValue, writtenOperand, membership, ↓reduceIte, candidates_listed single]

theorem accepts_listed (membership : operator.expectsSequence = true) (single : v.isArray = false)
    (doc : Document) : accepts ⟨field, operator, .array [v]⟩ doc = accepts ⟨field, operator, v⟩ doc := by
  have alike : isMember ⟨field, operator, .array [v]⟩ = isMember ⟨field, operator, v⟩ := by
    funext x
    simp only [isMember, candidates_listed single]
  cases operator <;> simp_all [accepts, Operator.expectsSequence]

theorem Respelled.toValue_eq (respelled : c.Respelled (· = ·) d) : c.toValue = d.toValue := by
  cases respelled with
  | same operands => rw [operands]
  | listed membership single operands => rw [← operands, toValue_listed membership single]
  | unlisted membership single operands => rw [operands, toValue_listed membership single]

theorem Respelled.accepts_eq (respelled : c.Respelled R d) (partwise : Value.Partwise R) {doc : Document}
    (alike : ∀ field operator v w, R v w → accepts ⟨field, operator, v⟩ doc = accepts ⟨field, operator, w⟩ doc) :
    c.accepts doc = d.accepts doc := by
  cases respelled with
  | same operands => exact alike _ _ _ _ operands
  | listed membership single operands =>
      have single' := (partwise.isArray_eq operands).symm.trans single
      rw [accepts_listed membership single', alike _ _ _ _ operands]
  | unlisted membership single operands =>
      have single' := (partwise.isArray_eq operands).trans single
      rw [accepts_listed membership single', alike _ _ _ _ operands]

end Clause

/-! ## Conditions -/

theorem Connective.keyword_injective : Function.Injective Connective.keyword := by
  intro k l same
  cases k <;> cases l <;> first | rfl | exact absurd same (by decide)

namespace Condition

variable {R : Value → Value → Prop}

inductive Respelled (R : Value → Value → Prop) : Condition → Condition → Prop where
  | clause {c d : Clause} (h : c.Respelled R d) : Respelled R (.clause c) (.clause d)
  | group {kind : Connective} {children others : List Condition}
      (each : List.Forall₂ (Respelled R) children others) :
      Respelled R (.group kind children) (.group kind others)

mutual

theorem respelled_of_partwise (partwise : Value.Partwise R) :
    ∀ {c d : Condition}, R c.toValue d.toValue → c.Respelled R d
  | .clause c, .clause d, written => .clause (Clause.respelled_of_partwise partwise written)
  | .clause c, .group kind others, written => by
      -- an object under a field, against an array
      have under := (partwise.field written).2
      cases partwise.isArray_eq under
  | .group kind children, .clause d, written => by
      have under := (partwise.field written).2
      cases partwise.isArray_eq under
  | .group kind children, .group kind' others, written => by
      obtain ⟨keywords, lists⟩ := partwise.field written
      obtain rfl := Connective.keyword_injective keywords
      exact .group (forall₂_of_partwise partwise (partwise.items lists))

theorem forall₂_of_partwise (partwise : Value.Partwise R) :
    ∀ {cs ds : List Condition}, List.Forall₂ R (toValues cs) (toValues ds) → List.Forall₂ (Respelled R) cs ds
  | [], [], _ => .nil
  | c :: cs, d :: ds, .cons first rest =>
      .cons (respelled_of_partwise partwise first) (forall₂_of_partwise partwise rest)

end

mutual

theorem toValue_eq_of_respelled : ∀ {c d : Condition}, c.Respelled (· = ·) d → c.toValue = d.toValue
  | .clause c, .clause d, .clause respelled => respelled.toValue_eq
  | .group kind children, .group _ others, .group each => by
      rw [toValue, toValue, toValues_eq_of_respelled each]

theorem toValues_eq_of_respelled :
    ∀ {cs ds : List Condition}, List.Forall₂ (Respelled (· = ·)) cs ds → toValues cs = toValues ds
  | [], [], .nil => rfl
  | c :: cs, d :: ds, .cons first rest => by
      rw [toValues, toValues, toValue_eq_of_respelled first, toValues_eq_of_respelled rest]

end

mutual

theorem Respelled.accepts_eq (partwise : Value.Partwise R) {doc : Document}
    (alike : ∀ field operator v w, R v w →
      Clause.accepts ⟨field, operator, v⟩ doc = Clause.accepts ⟨field, operator, w⟩ doc) :
    ∀ {c d : Condition}, c.Respelled R d → c.accepts doc = d.accepts doc
  | .clause _, .clause _, .clause respelled => respelled.accepts_eq partwise alike
  | .group kind _, .group _ _, .group each =>
      accepts_group_eq kind (map_accepts_eq_of_respelled partwise alike each)

theorem map_accepts_eq_of_respelled (partwise : Value.Partwise R) {doc : Document}
    (alike : ∀ field operator v w, R v w →
      Clause.accepts ⟨field, operator, v⟩ doc = Clause.accepts ⟨field, operator, w⟩ doc) :
    ∀ {cs ds : List Condition}, List.Forall₂ (Respelled R) cs ds → cs.map (accepts doc) = ds.map (accepts doc)
  | [], [], .nil => rfl
  | c :: cs, d :: ds, .cons first rest => by
      rw [List.map_cons, List.map_cons, Respelled.accepts_eq partwise alike first,
        map_accepts_eq_of_respelled partwise alike rest]

end

/-- Two conditions are written as the same document exactly if they are the same tree, save for single candidates
given by themselves or as lists of one. -/
theorem toValue_eq_iff_respelled (c d : Condition) :
    (c.toValue = d.toValue ↔ c.Respelled (· = ·) d) ∧
    (c.toValue.Same d.toValue → c.Respelled Value.Same d) ∧
    (c.toValue = d.toValue ∨ c.toValue.Same d.toValue → ∀ doc, c.accepts doc = d.accepts doc) := by
  refine ⟨⟨respelled_of_partwise Value.partwise_eq, toValue_eq_of_respelled⟩,
    respelled_of_partwise Value.partwise_same, ?_⟩
  rintro (written | written) doc
  · refine Respelled.accepts_eq Value.partwise_eq ?_ (respelled_of_partwise Value.partwise_eq written)
    rintro field operator v _ rfl
    rfl
  · refine Respelled.accepts_eq Value.partwise_same ?_ (respelled_of_partwise Value.partwise_same written)
    intro field operator v w same
    exact Clause.accepts_eq_of_operand field operator same doc

theorem toValue_eq_iff_respelled_keyword :
    let written (operand : Value) : Condition :=
      .group .and [.clause ⟨"$or", .notIn, operand⟩, .group .or [], .clause ⟨"$and", .eq, .array [.one]⟩]
    let c := written .one
    let d := written (.array [.one])
    c.toValue = d.toValue ∧ c.Respelled (· = ·) d ∧ ∀ doc, c.accepts doc = d.accepts doc := by
  intro written c d
  have same : c.toValue = d.toValue := rfl
  obtain ⟨iff, -, alike⟩ := toValue_eq_iff_respelled c d
  exact ⟨same, iff.mp same, alike (.inl same)⟩

end Condition

end DocQuery
