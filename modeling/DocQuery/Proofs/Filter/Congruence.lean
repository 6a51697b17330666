import DocQuery.Filter.Condition
import DocQuery.Proofs.Value.Equality

namespace DocQuery

section

variable {α β γ δ : Type} {R : α → β → Prop} {S : γ → δ → Prop}

theorem rel_bind {x : Option α} {y : Option β} {f : α → Option γ} {g : β → Option δ}
    (related : Option.Rel R x y) (next : ∀ a b, R a b → Option.Rel S (f a) (g b)) :
    Option.Rel S (x.bind f) (y.bind g) := by
  cases related with
  | none => exact .none
  | some h => exact next _ _ h

theorem any_eq_of_rel {x : Option α} {y : Option β} {f : α → Bool} {g : β → Bool}
    (related : Option.Rel R x y) (alike : ∀ a b, R a b → f a = g b) : x.any f = y.any g := by
  cases related with
  | none => rfl
  | some h => exact alike _ _ h

theorem any_eq_of_forall₂ {xs : List α} {ys : List β} {f : α → Bool} {g : β → Bool}
    (related : List.Forall₂ R xs ys) (alike : ∀ a b, R a b → f a = g b) : xs.any f = ys.any g := by
  induction related with
  | nil => rfl
  | cons h _ ih => rw [List.any_cons, List.any_cons, alike _ _ h, ih]

theorem rel_getElem? {xs : List α} {ys : List β} (related : List.Forall₂ R xs ys) (i : Nat) :
    Option.Rel R xs[i]? ys[i]? := by
  induction related generalizing i with
  | nil => exact .none
  | cons h _ ih =>
      cases i with
      | zero => exact .some h
      | succ i => exact ih i

end

/-! ## Equal values -/

namespace Value

namespace Same

variable {u v w : Value} {xs ys : List Value}

theorem compareAlike_left (same : Same u v) (w : Value) : u.compareAlike w = v.compareAlike w := by
  obtain ⟨equal, -⟩ := same
  cases u <;> cases v <;> simp only [equiv, beq_iff_eq, Bool.false_eq_true] at equal
  case number.number m n =>
    simp only [Number.compare?_eq_some, Option.some.injEq] at equal
    cases w <;> simp only [compareAlike, Number.compare?_eq_some]
    exact congrArg some (Std.TransCmp.congr_left equal)
  all_goals simp_all [compareAlike]

theorem compareAlike_right (same : Same v w) (u : Value) : u.compareAlike v = u.compareAlike w := by
  obtain ⟨equal, -⟩ := same
  cases v <;> cases w <;> simp only [equiv, beq_iff_eq, Bool.false_eq_true] at equal
  case number.number m n =>
    simp only [Number.compare?_eq_some, Option.some.injEq] at equal
    cases u <;> simp only [compareAlike, Number.compare?_eq_some]
    exact congrArg some (Std.TransCmp.congr_right equal)
  all_goals simp_all [compareAlike]

theorem items (same : Same (array xs) (array ys)) : List.Forall₂ Same xs ys := by
  obtain ⟨forth, back⟩ := same
  rw [equiv, equivItems_iff] at forth back
  induction forth with
  | nil => exact .nil
  | cons equal _ ih =>
      obtain ⟨converse, back⟩ := List.forall₂_cons.mp back
      exact .cons ⟨equal, converse⟩ (ih back)

theorem get? {xs ys : Document} (same : Same (object xs) (object ys)) (name : String) :
    Option.Rel Same (xs.get? name) (ys.get? name) := by
  have forth {x : Value} (h : xs.get? name = some x) : ∃ y, ys.get? name = some y ∧ x.equiv y = true :=
    (equiv_object_iff.mp same.1).2 _ (Document.mem_of_get? h)
  have back {y : Value} (h : ys.get? name = some y) : ∃ x, xs.get? name = some x ∧ y.equiv x = true :=
    (equiv_object_iff.mp same.2).2 _ (Document.mem_of_get? h)
  cases hx : xs.get? name with
  | none =>
      cases hy : ys.get? name with
      | none => exact .none
      | some y =>
          obtain ⟨x, present, -⟩ := back hy
          rw [hx] at present
          cases present
  | some x =>
      obtain ⟨y, hy, equal⟩ := forth hx
      obtain ⟨x', present, converse⟩ := back hy
      rw [hx] at present
      cases present
      rw [hy]
      exact .some ⟨equal, converse⟩

theorem follow? (same : Same v w) (path : Path) : Option.Rel Same (v.follow? path) (w.follow? path) := by
  induction path generalizing v w with
  | nil => exact .some same
  | cons name rest ih =>
      cases v <;> cases w <;> try exact .none
      all_goals try cases same.1
      case array.array xs ys =>
        rw [Value.follow?, Value.follow?]
        cases position? name with
        | none => exact .none
        | some i =>
            rw [Option.bind_some, Option.bind_some]
            exact rel_bind (rel_getElem? same.items i) fun _ _ inner => ih inner
      case object.object xs ys =>
        rw [Value.follow?, Value.follow?]
        exact rel_bind (same.get? name) fun _ _ inner => ih inner

theorem exists_follow? (same : Same v w) {path : Path} {y : Value} (found : w.follow? path = some y) :
    ∃ x, v.follow? path = some x ∧ Same x y := by
  have related := same.follow? path
  rw [found] at related
  generalize v.follow? path = reached at related ⊢
  cases related with
  | some alike => exact ⟨_, rfl, alike⟩

end Same

end Value

/-! ## Clauses -/

namespace Clause

variable {test : Value → Bool} {v w : Value} {c d : Clause} {doc other : Document}

theorem anyWithin_eq (alike : ∀ v w, v.Same w → test v = test w) (same : v.Same w) :
    anyWithin test v = anyWithin test w := by
  cases v <;> cases w <;> try cases same.1
  case array.array xs ys => exact any_eq_of_forall₂ same.items alike
  all_goals exact alike _ _ same

theorem anyOf_eq_or (test : Value → Bool) (v : Value) : anyOf test v = (test v || anyWithin test v) := by
  cases v <;> simp [anyOf, anyWithin]

theorem anyOf_eq (alike : ∀ v w, v.Same w → test v = test w) (same : v.Same w) :
    anyOf test v = anyOf test w := by
  rw [anyOf_eq_or, anyOf_eq_or, alike v w same, anyWithin_eq alike same]

theorem equals_eq_of_same (c : Clause) (same : v.Same w) : c.equals v = c.equals w :=
  anyOf_eq (fun _ _ h => h.equiv_left c.operand) same

theorem isMember_eq_of_same (c : Clause) (same : v.Same w) : c.isMember v = c.isMember w := by
  refine anyOf_eq (fun x y h => ?_) same
  simp only [h.equiv_left]

theorem isOrdered_eq_of_same (c : Clause) (same : v.Same w) : c.isOrdered v = c.isOrdered w := by
  refine anyWithin_eq (fun x y h => ?_) same
  rw [h.compareAlike_left]

theorem accepts_eq_of_same (c : Clause) (same : (Value.object doc).Same (.object other)) :
    c.accepts doc = c.accepts other := by
  have found : Option.Rel Value.Same (doc.lookup? c.field) (other.lookup? c.field) := same.follow? _
  have equals := any_eq_of_rel found fun _ _ => c.equals_eq_of_same
  have isMember := any_eq_of_rel found fun _ _ => c.isMember_eq_of_same
  have isOrdered := any_eq_of_rel found fun _ _ => c.isOrdered_eq_of_same
  simp only [accepts, equals, isMember, isOrdered]

section

variable (field : String) (operator : Operator)

theorem equals_eq_of_operand (same : v.Same w) : equals ⟨field, operator, v⟩ = equals ⟨field, operator, w⟩ := by
  funext x
  simp only [equals, same.equiv_right]

theorem candidates_of_operand (same : v.Same w) :
    List.Forall₂ Value.Same (candidates ⟨field, operator, v⟩) (candidates ⟨field, operator, w⟩) := by
  cases v <;> cases w <;> try cases same.1
  case array.array xs ys => exact same.items
  all_goals exact .cons same .nil

theorem isMember_eq_of_operand (same : v.Same w) :
    isMember ⟨field, operator, v⟩ = isMember ⟨field, operator, w⟩ := by
  have test (x : Value) := any_eq_of_forall₂ (candidates_of_operand field operator same)
    fun _ _ h => h.equiv_right x
  funext x
  simp only [isMember, test]

theorem isOrdered_eq_of_operand (same : v.Same w) :
    isOrdered ⟨field, operator, v⟩ = isOrdered ⟨field, operator, w⟩ := by
  funext x
  simp only [isOrdered, same.compareAlike_right]

theorem accepts_eq_of_operand (same : v.Same w) (doc : Document) :
    accepts ⟨field, operator, v⟩ doc = accepts ⟨field, operator, w⟩ doc := by
  simp only [accepts, equals_eq_of_operand field operator same, isMember_eq_of_operand field operator same,
    isOrdered_eq_of_operand field operator same]

end

end Clause

/-! ## Conditions -/

def Connective.join : Connective → List Bool → Bool
  | and, answers => answers.all id
  | or, answers => answers.any id

namespace Condition

variable {doc other : Document}

theorem allAccept_eq (doc : Document) (cs : List Condition) :
    allAccept doc cs = (cs.map (accepts doc)).all id := by
  induction cs with
  | nil => rfl
  | cons c cs ih => rw [allAccept, ih, List.map_cons, List.all_cons, id]

theorem anyAccepts_eq (doc : Document) (cs : List Condition) :
    anyAccepts doc cs = (cs.map (accepts doc)).any id := by
  induction cs with
  | nil => rfl
  | cons c cs ih => rw [anyAccepts, ih, List.map_cons, List.any_cons, id]

theorem accepts_group (doc : Document) (kind : Connective) (children : List Condition) :
    accepts doc (.group kind children) = kind.join (children.map (accepts doc)) := by
  cases kind with
  | and => exact allAccept_eq doc children
  | or => exact anyAccepts_eq doc children

theorem accepts_group_eq (kind : Connective) {children others : List Condition}
    (answers : children.map (accepts doc) = others.map (accepts other)) :
    accepts doc (.group kind children) = accepts other (.group kind others) := by
  rw [accepts_group, accepts_group, answers]

mutual

theorem accepts_eq_of_clauses (clauses : ∀ c : Clause, c.accepts doc = c.accepts other) :
    ∀ c : Condition, c.accepts doc = c.accepts other
  | .clause c => clauses c
  | .group kind children => accepts_group_eq kind (map_accepts_eq_of_clauses clauses children)

theorem map_accepts_eq_of_clauses (clauses : ∀ c : Clause, c.accepts doc = c.accepts other) :
    ∀ cs : List Condition, cs.map (accepts doc) = cs.map (accepts other)
  | [] => rfl
  | c :: cs => by
      rw [List.map_cons, List.map_cons, accepts_eq_of_clauses clauses c, map_accepts_eq_of_clauses clauses cs]

end

/-- Two conditions that differ at most in the operands of their clauses, and there only as equal values do. -/
inductive Alike : Condition → Condition → Prop where
  | clause {field : String} {operator : Operator} {v w : Value} (wf : v.WellFormed)
      (equal : v.equiv w = true) : Alike (.clause ⟨field, operator, v⟩) (.clause ⟨field, operator, w⟩)
  | group {kind : Connective} {children others : List Condition} (length : children.length = others.length)
      (each : ∀ pair ∈ children.zip others, Alike pair.1 pair.2) :
      Alike (.group kind children) (.group kind others)

theorem Alike.accepts_eq {c d : Condition} (alike : c.Alike d) (doc : Document) :
    c.accepts doc = d.accepts doc := by
  induction alike with
  | clause wf equal => exact Clause.accepts_eq_of_operand _ _ (.of_equiv wf equal) doc
  | @group kind children others length _ ih =>
      refine accepts_group_eq kind (List.forall₂_eq_eq_eq ▸ ?_)
      rw [List.forall₂_map_left_iff, List.forall₂_map_right_iff, List.forall₂_iff_zip]
      exact ⟨length, ih _⟩

end Condition

theorem Group.accepts_congr :
    (∀ (g : Group) (doc other : Document), doc.WellFormed →
      (Value.object doc).equiv (.object other) = true → g.accepts doc = g.accepts other) ∧
    ∀ g h : Group, g.toCondition.Alike h.toCondition → ∀ doc, g.accepts doc = h.accepts doc := by
  refine ⟨fun g doc other wf equal => ?_, fun g h alike doc => alike.accepts_eq doc⟩
  exact Condition.accepts_eq_of_clauses (fun c => c.accepts_eq_of_same (.of_equiv wf equal)) _

theorem Group.accepts_congr_rewritten :
    let real : Value := .number (.float ⟨false, 4503599627370496, 1022, by decide⟩)
    let doc : Document := [("x", .one), ("y", .array [.one])]
    let other : Document := [("y", .array [real]), ("x", real)]
    let g : Group :=
      ⟨.and, [.clause ⟨"y", .gte, .one⟩,
        .group .or [.clause ⟨"y", .isIn, .array [.object doc, .one]⟩]]⟩
    let h : Group :=
      ⟨.and, [.clause ⟨"y", .gte, real⟩,
        .group .or [.clause ⟨"y", .isIn, .array [.object other, real]⟩]]⟩
    doc.WellFormed ∧ (Value.object doc).equiv (.object other) = true ∧ g.toCondition.Alike h.toCondition ∧
      g.accepts doc = true ∧ g.accepts doc = g.accepts other ∧ g.accepts doc = h.accepts doc := by
  intro real doc other g h
  have wf : doc.WellFormed := by simp [doc, Document.keys, Value.one]
  have equal : (Value.object doc).equiv (.object other) = true := by decide +kernel
  have alike : g.toCondition.Alike h.toCondition := by
    refine .group rfl (List.forall_mem_cons.mpr ⟨.clause (.number _) (by decide +kernel), ?_⟩)
    refine List.forall_mem_singleton.mpr (.group rfl (List.forall_mem_singleton.mpr (.clause ?_ ?_)))
    · simp [doc, Document.keys, Value.one]
    · decide +kernel
  exact ⟨wf, equal, alike, by decide +kernel, Group.accepts_congr.1 g doc other wf equal,
    Group.accepts_congr.2 g h alike doc⟩

end DocQuery
