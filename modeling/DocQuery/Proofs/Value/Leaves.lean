import DocQuery.Proofs.Value.WellFormed

/-!
# The leaves of a value

An object is made of objects down to its leaves: the values that are not objects, and the objects without fields.  An
array is a leaf, whatever its items are.  Up to the order in which the objects have their fields, a value is determined
by its leaves and the places where they stand.
-/

namespace DocQuery

namespace Value

/-- Other than by `follow?`, a path leads through objects only. -/
def reach? : Path → Value → Option Value
  | [], v => some v
  | name :: rest, object fields => (Document.get? fields name).bind (reach? rest)
  | _ :: _, _ => none

def isObject : Value → Bool
  | object _ => true
  | _ => false

def isLeaf : Value → Bool
  | object fields => fields.isEmpty
  | _ => true

def leaf? (place : Path) (v : Value) : Option Value := (v.reach? place).filter isLeaf

variable {v w : Value} {name : String} {place rest : Path}

theorem leaf?_nil_iff : v.leaf? [] = some w ↔ v.isLeaf = true ∧ v = w := by
  rw [leaf?, reach?, Option.filter_eq_some_iff]
  constructor
  · rintro ⟨⟨⟩, leaf⟩
    exact ⟨leaf, rfl⟩
  · rintro ⟨leaf, rfl⟩
    exact ⟨rfl, leaf⟩

theorem leaf?_cons (doc : Document) (name : String) (rest : Path) :
    (object doc).leaf? (name :: rest) = (doc.get? name).bind (leaf? rest) := by
  rw [leaf?, reach?]
  cases doc.get? name <;> rfl

theorem reach?_append (place rest : Path) (v : Value) :
    v.reach? (place ++ rest) = (v.reach? place).bind (reach? rest) := by
  induction place generalizing v with
  | nil => rfl
  | cons name place ih =>
      cases v with
      | object fields =>
          rw [List.cons_append, reach?, reach?]
          cases Document.get? fields name with
          | none => rfl
          | some v => exact ih v
      | _ => rfl

theorem leaf?_append (place rest : Path) (v : Value) :
    v.leaf? (place ++ rest) = (v.reach? place).bind (leaf? rest) := by
  rw [leaf?, reach?_append]
  cases v.reach? place <;> rfl

theorem WellFormed.of_reach? (wf : v.WellFormed) (found : v.reach? place = some w) : w.WellFormed := by
  induction place generalizing v with
  | nil => exact Option.some.inj found ▸ wf
  | cons name place ih =>
      cases v with
      | object fields =>
          obtain ⟨inner, present, found⟩ := Option.bind_eq_some_iff.mp found
          exact ih (Document.WellFormed.of_get? wf present) found
      | _ => cases found

theorem leaf?_cons_of_not_object (h : v.isObject = false) : v.leaf? (name :: rest) = none := by
  cases v <;> first | rfl | cases h

theorem leaf?_eq_empty_iff : v.leaf? place = some (object []) ↔ v.reach? place = some (object []) := by
  simp [leaf?, Option.filter_eq_some_iff, isLeaf]

theorem eq_empty_of_leaf? (h : v.leaf? place = some w) (nested : w.isObject = true) : w = object [] := by
  have leaf := (Option.filter_eq_some_iff.mp h).2
  cases w with
  | object fields => rw [List.isEmpty_iff.mp leaf]
  | _ => cases nested

theorem reach?_single (doc : Document) (name : String) : (object doc).reach? [name] = doc.get? name := by
  rw [reach?]
  cases doc.get? name <;> rfl

theorem eq_object_of_reach? (found : v.reach? place = some w) (inside : place ≠ []) : ∃ fields, v = object fields := by
  obtain ⟨name, rest, rfl⟩ := List.exists_cons_of_ne_nil inside
  cases v with
  | object fields => exact ⟨fields, rfl⟩
  | _ => cases found

theorem exists_leaf (wf : v.WellFormed) : ∃ place, (v.leaf? place).isSome := by
  induction wf with
  | @object fields distinct _ ih =>
      cases fields with
      | nil => exact ⟨[], rfl⟩
      | cons field fields =>
          obtain ⟨place, found⟩ := ih field List.mem_cons_self
          refine ⟨field.1 :: place, ?_⟩
          rwa [leaf?_cons, Document.get?_of_mem distinct List.mem_cons_self]
  | _ => exact ⟨[], rfl⟩

/-- The same value, except that its objects may have their fields in another order. -/
inductive Reordered : Value → Value → Prop where
  | refl (v : Value) : Reordered v v
  | object {fields fields' : Document} (names : fields.keys.Perm fields'.keys)
      (each : ∀ name v v', fields.get? name = some v → fields'.get? name = some v' → Reordered v v') :
      Reordered (object fields) (object fields')

theorem Reordered.leaf?_eq (same : v.Reordered w) (place : Path) : v.leaf? place = w.leaf? place := by
  induction same generalizing place with
  | refl => rfl
  | @object fields fields' names _ ih =>
      cases place with
      | nil =>
          cases fields with
          | nil =>
              obtain rfl : fields' = [] := List.map_eq_nil_iff.mp names.symm.eq_nil
              rfl
          | cons field fields =>
              cases fields' with
              | nil => cases names.eq_nil
              | cons => rfl
      | cons name rest =>
          rw [leaf?_cons, leaf?_cons]
          cases found : fields.get? name with
          | none =>
              rw [Document.get?_eq_none_iff, names.mem_iff, ← Document.get?_eq_none_iff] at found
              rw [found]
          | some v =>
              obtain ⟨v', found'⟩ :=
                Document.exists_get?_of_mem_keys (names.mem_iff.mp (Document.mem_keys_of_get? found))
              rw [found']
              exact ih name v v' found found' rest

theorem mem_keys_iff_leaf? {doc : Document} (wf : doc.WellFormed) :
    name ∈ doc.keys ↔ ∃ rest, ((object doc).leaf? (name :: rest)).isSome := by
  simp only [leaf?_cons]
  constructor
  · intro present
    obtain ⟨v, found⟩ := Document.exists_get?_of_mem_keys present
    rw [found]
    exact exists_leaf (wf.of_get? found)
  · rintro ⟨rest, found⟩
    cases present : doc.get? name with
    | none =>
        rw [present] at found
        cases found
    | some v => exact Document.mem_keys_of_get? present

theorem reordered_of_leaf?_eq (wfv : v.WellFormed) (wfw : w.WellFormed)
    (same : ∀ place, v.leaf? place = w.leaf? place) : v.Reordered w := by
  induction wfv generalizing w with
  | @object fields distinct each ih =>
      by_cases leaf : w.isLeaf
      · obtain ⟨-, rfl⟩ := leaf?_nil_iff.mp ((same []).trans (leaf?_nil_iff.mpr ⟨leaf, rfl⟩))
        exact .refl _
      · cases w with
        | object fields' =>
            refine .object ?_ fun name v v' found found' => ?_
            · have distinct' : (Document.keys fields').Nodup := Document.WellFormed.distinct wfw
              refine (List.perm_ext_iff_of_nodup distinct distinct').mpr fun name => ?_
              rw [mem_keys_iff_leaf? (.object distinct each), mem_keys_iff_leaf? wfw]
              simp only [same]
            · have wfv' : v'.WellFormed := Document.WellFormed.of_get? wfw found'
              refine ih (name, v) (Document.mem_of_get? found) wfv' fun place => ?_
              have below := same (name :: place)
              rwa [leaf?_cons, leaf?_cons, found, found'] at below
        | _ => exact absurd rfl leaf
  | _ =>
      obtain ⟨-, rfl⟩ := leaf?_nil_iff.mp ((same []).symm.trans rfl)
      exact .refl _

theorem reordered_iff_leaf?_eq (wfv : v.WellFormed) (wfw : w.WellFormed) :
    v.Reordered w ↔ ∀ place, v.leaf? place = w.leaf? place :=
  ⟨Reordered.leaf?_eq, reordered_of_leaf?_eq wfv wfw⟩

theorem reordered_object_iff {doc doc' : Document} (wf : doc.WellFormed) (wf' : doc'.WellFormed) :
    (object doc).Reordered (object doc') ↔
      ∀ place, place ≠ [] → (object doc).leaf? place = (object doc').leaf? place := by
  refine ⟨fun same place _ => same.leaf?_eq place, fun same => reordered_of_leaf?_eq wf wf' fun place => ?_⟩
  cases place with
  | cons name rest => exact same _ (List.cons_ne_nil _ _)
  | nil =>
      have names (name : String) : name ∈ doc.keys ↔ name ∈ doc'.keys := by
        rw [mem_keys_iff_leaf? wf, mem_keys_iff_leaf? wf']
        simp only [same _ (List.cons_ne_nil _ _)]
      cases doc with
      | nil =>
          cases doc' with
          | nil => rfl
          | cons field => cases (names field.1).mpr List.mem_cons_self
      | cons field =>
          cases doc' with
          | nil => cases (names field.1).mp List.mem_cons_self
          | cons => rfl

/-! ## Through a missing field -/

variable {target inner : Document}

theorem leaf?_through (found : (target.get? name).getD (.object []) = .object inner) (more : rest ≠ []) :
    (object target).leaf? (name :: rest) = (object inner).leaf? rest := by
  rw [leaf?_cons]
  rcases Document.get?_of_getD found with present | ⟨absent, rfl⟩
  · rw [present, Option.bind_some]
  · obtain ⟨next, rest, rfl⟩ := List.exists_cons_of_ne_nil more
    rw [absent]
    rfl

theorem leaf?_single_through (found : (target.get? name).getD (.object []) = .object inner) :
    ((object target).leaf? [name]).filter (¬ ·.isObject) = none := by
  rw [leaf?_cons]
  rcases Document.get?_of_getD found with present | ⟨absent, -⟩
  · rw [present]
    cases inner <;> rfl
  · rw [absent]
    rfl

end Value

/-! ## Parts of a document -/

namespace Document

variable {part source inner : Document} {name : String} {rest : Path}

def PartOf (part source : Document) : Prop :=
  ∀ name rest v, (Value.object part).leaf? (name :: rest) = some v →
    (Value.object source).leaf? (name :: rest) = some v

theorem PartOf.refl (doc : Document) : doc.PartOf doc := fun _ _ _ stands => stands

theorem PartOf.nil (source : Document) : PartOf [] source := fun _ _ _ stands => by cases stands

theorem PartOf.leaf?_of_blocked (h : part.PartOf source)
    (blocked : ∀ inner, source.get? name ≠ some (.object inner)) {v : Value}
    (stands : (Value.object part).leaf? (name :: rest) = some v) : rest = [] ∧ v.isObject = false := by
  have inSource := h name rest v stands
  rw [Value.leaf?_cons] at inSource
  obtain ⟨w, found, inSource⟩ := Option.bind_eq_some_iff.mp inSource
  have notObject : w.isObject = false := by
    cases w with
    | object inner => exact absurd found (blocked inner)
    | _ => rfl
  cases rest with
  | nil =>
      obtain ⟨-, rfl⟩ := Value.leaf?_nil_iff.mp inSource
      exact ⟨rfl, notObject⟩
  | cons => cases (Value.leaf?_cons_of_not_object notObject).symm.trans inSource

theorem PartOf.leaf?_eq_none (h : part.PartOf source)
    (blocked : ∀ inner, source.get? name ≠ some (.object inner)) (more : rest ≠ []) :
    (Value.object part).leaf? (name :: rest) = none :=
  Option.eq_none_iff_forall_ne_some.mpr fun _ stands => more (h.leaf?_of_blocked blocked stands).1

theorem PartOf.within (h : part.PartOf source) (found : source.get? name = some (.object inner)) :
    ∃ innerPart, (part.get? name).getD (.object []) = .object innerPart ∧ PartOf innerPart inner := by
  cases present : part.get? name with
  | none => exact ⟨[], rfl, .nil inner⟩
  | some v =>
      have below (rest : Path) (w : Value) (stands : v.leaf? rest = some w) :
          (Value.object inner).leaf? rest = some w := by
        have := h name rest w
        rw [Value.leaf?_cons, Value.leaf?_cons, found, present] at this
        exact this stands
      cases v with
      | object innerPart => exact ⟨innerPart, rfl, fun next rest => below (next :: rest)⟩
      | _ => cases (Value.leaf?_nil_iff.mp (below [] _ rfl)).2

end Document

end DocQuery
