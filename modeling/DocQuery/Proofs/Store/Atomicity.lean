import DocQuery.Store.Collection

/-!
# Operations that write everything or nothing

A step on a collection can refuse, and it leaves what earlier steps have written.  So an operation is atomic only
because of the order of its steps: those that can refuse write nothing, and from the first write on no step refuses.
-/

namespace DocQuery

namespace CollectionAction

variable {α β : Type} {action : CollectionAction α} {next : α → CollectionAction β} {docs after : Collection}

/-! ## One step after another -/

theorem on_bind_of_ok {a : α} (first : action.on docs = (.ok a, after)) :
    (action >>= next).on docs = (next a).on after := by
  have ran : action.run.run docs = (Except.ok a, after) := first
  simp only [on, ExceptT.run_bind, StateT.run_bind, ran]
  rfl

theorem on_bind_of_error {cause : Rejection} (first : action.on docs = (.error cause, after)) :
    (action >>= next).on docs = (.error cause, after) := by
  have ran : action.run.run docs = (Except.error cause, after) := first
  simp only [on, ExceptT.run_bind, StateT.run_bind, ran]
  rfl

/-- What has been written before a refusal stays. -/
example (docs : Collection) (cause : Rejection) :
    CollectionAction.on (modify (· ++ [[]]) >>= fun _ => refuseFor (some cause)) docs = (.error cause, docs ++ [[]]) :=
  rfl

theorem on_get_bind (next : Collection → CollectionAction β) (docs : Collection) :
    (get >>= next).on docs = (next docs).on docs := rfl

theorem on_refuseFor_bind (fault? : Option Rejection) (next : Unit → CollectionAction β) (docs : Collection) :
    (refuseFor fault? >>= next).on docs =
      match fault? with
      | some cause => (.error cause, docs)
      | none => (next ()).on docs := by
  cases fault? <;> rfl

theorem forM_refuseFor (items : List α) (fault? : α → Option Rejection) :
    (items.forM fun item => refuseFor (fault? item)) = refuseFor (items.findSome? fault?) := by
  induction items with
  | nil => rfl
  | cons item items ih =>
      have first : (item :: items).forM (fun item => refuseFor (fault? item)) =
          refuseFor (fault? item) >>= fun _ => items.forM fun item => refuseFor (fault? item) := rfl
      rw [first, ih, List.findSome?_cons]
      cases fault? item <;> rfl

/-! ## Steps that read and steps that write -/

def ReadOnly (action : CollectionAction α) : Prop := ∀ docs, (action.on docs).2 = docs

def Unrefused (action : CollectionAction α) : Prop := ∀ docs, ∃ a after, action.on docs = (.ok a, after)

def Atomic (action : CollectionAction α) : Prop :=
  ∀ docs cause after, action.on docs = (.error cause, after) → after = docs

theorem readOnly_get : ReadOnly get := fun _ => rfl

theorem readOnly_refuseFor (fault? : Option Rejection) : ReadOnly (refuseFor fault?) := by
  cases fault? <;> exact fun _ => rfl

theorem readOnly_liftExcept (outcome : Except Rejection α) : ReadOnly (liftExcept outcome) := by
  cases outcome <;> exact fun _ => rfl

theorem unrefused_pure (a : α) : Unrefused (pure a) := fun docs => ⟨a, docs, rfl⟩

theorem unrefused_modifyGet (write : Collection → α × Collection) : Unrefused (modifyGet write) :=
  fun docs => ⟨(write docs).1, (write docs).2, rfl⟩

theorem Unrefused.bind (first : Unrefused action) (rest : ∀ a, Unrefused (next a)) : Unrefused (action >>= next) := by
  intro docs
  obtain ⟨a, middle, answered⟩ := first docs
  rw [on_bind_of_ok answered]
  exact rest a middle

theorem unrefused_modify (write : Collection → Collection) (answer : α) :
    Unrefused (modify write >>= fun _ => pure answer) :=
  (unrefused_modifyGet _).bind fun _ => unrefused_pure answer

theorem Unrefused.atomic (unrefused : Unrefused action) : Atomic action := by
  intro docs cause after refused
  obtain ⟨a, middle, answered⟩ := unrefused docs
  cases answered.symm.trans refused

theorem ReadOnly.atomic_bind (check : ReadOnly action) (rest : ∀ a, Atomic (next a)) : Atomic (action >>= next) := by
  intro docs cause after refused
  -- whether the check refuses or not, the rest has to answer for the collection as it was
  have same := check docs
  rcases outcome : action.on docs with ⟨_ | a, middle⟩ <;> rw [outcome] at same <;> subst same
  · rw [on_bind_of_error outcome] at refused
    cases refused
    rfl
  · rw [on_bind_of_ok outcome] at refused
    exact rest a _ cause after refused

end CollectionAction

/-! ## The operations -/

namespace Collection

open CollectionAction

theorem atomic_insertOne (doc : Document) (ids : IdSupply) : Atomic (insertOne doc ids) := by
  refine readOnly_get.atomic_bind fun docs => ?_
  exact (readOnly_refuseFor _).atomic_bind fun _ => (unrefused_modify _ _).atomic

theorem atomic_insertMany (batch : List Document) (ids : IdSupply) : Atomic (insertMany batch ids) := by
  refine readOnly_get.atomic_bind fun docs => ?_
  exact (readOnly_liftExcept _).atomic_bind fun _ => (unrefused_modify _ _).atomic

theorem atomic_update (filter : Group) (u : Update) : Atomic (update filter u) := by
  refine (readOnly_refuseFor _).atomic_bind fun _ => readOnly_get.atomic_bind fun docs => ?_
  -- the documents are checked one after another, and together these checks write nothing
  rw [forM_refuseFor]
  exact (readOnly_refuseFor _).atomic_bind fun _ => (unrefused_modifyGet _).atomic

theorem atomic_delete (filter : Group) : Atomic (modifyGet (delete filter)) := (unrefused_modifyGet _).atomic

end Collection

end DocQuery
