import DocQuery.Proofs.Store.Atomicity
import DocQuery.Proofs.Value.Equality

namespace DocQuery

def Value.Unequal (v w : Value) : Prop := v.equiv w = false ∧ w.equiv v = false

theorem Value.unequal_of_equiv {v w : Value} (wf : w.WellFormed) (h : v.equiv w = false) :
    v.Unequal w := by
  refine ⟨h, Bool.eq_false_iff.mpr fun equal => ?_⟩
  rw [equiv_symm wf equal] at h
  cases h

namespace Collection

def DistinctIdentities (docs : Collection) : Prop := docs.identities.Pairwise Value.Unequal

variable {docs after : Collection} {ids rest : IdSupply}

theorem identities_append (docs more : Collection) :
    identities (docs ++ more) = docs.identities ++ more.identities := List.filterMap_append

theorem identities_eq_filterMap_id (docs : Collection) :
    docs.identities = (docs.map (Document.get? · idField)).filterMap id := by
  rw [identities, List.filterMap_map]
  rfl

theorem distinctIdentities_of_sublist (h : after.Sublist docs) (distinct : docs.DistinctIdentities) :
    after.DistinctIdentities := distinct.sublist (h.filterMap _)

theorem duplicate?_eq_none_iff {taken : List Value} {id : Value} :
    duplicate? taken id = none ↔ ∀ v ∈ taken, v.equiv id = false := by
  simp [duplicate?]

theorem duplicate?_of_mem {taken : List Value} {id v : Value} (stored : v ∈ taken) (equal : v.equiv id = true) :
    duplicate? taken id = some (.duplicateId id) := if_pos (List.any_eq_true.mpr ⟨v, stored, equal⟩)

/-! ## Inserting -/

section

variable {doc identified : Document} {id : Value}

theorem get?_of_identify (h : identify doc ids = (id, identified, rest)) :
    identified.get? idField = some id := by
  unfold identify at h
  split at h <;> rename_i found <;> cases h
  · exact found
  · rw [← Document.insert_eq_append found, Document.get?_insert_self]

theorem wellFormed_of_identify (wf : doc.WellFormed) (h : identify doc ids = (id, identified, rest)) :
    id.WellFormed ∧ identified.WellFormed := by
  unfold identify at h
  split at h <;> rename_i found <;> cases h
  · exact ⟨wf.of_get? found, wf⟩
  · rw [← Document.insert_eq_append found]
    exact ⟨.string _, wf.insert (.string _)⟩

theorem insertOne_on (found : identify doc ids = (id, identified, rest)) (docs : Collection) :
    (insertOne doc ids).on docs =
      match duplicate? docs.identities id with
      | some cause => (.error cause, docs)
      | none => (.ok (id, rest), docs ++ [identified]) := by
  simp only [insertOne, found]
  rw [CollectionAction.on_get_bind, CollectionAction.on_refuseFor_bind]
  cases duplicate? docs.identities id <;> rfl

theorem insertOne_ok (h : (insertOne doc ids).on docs = (.ok (id, rest), after)) :
    ∃ identified, identify doc ids = (id, identified, rest) ∧ after = docs ++ [identified] ∧
      ∀ v ∈ docs.identities, v.equiv id = false := by
  rcases found : identify doc ids with ⟨id', identified, rest'⟩
  rw [insertOne_on found] at h
  cases free : duplicate? docs.identities id' with
  | some cause => simp [free] at h
  | none =>
      rw [free] at h
      cases h
      exact ⟨identified, rfl, rfl, duplicate?_eq_none_iff.mp free⟩

end

section

variable {batch : List Document} {taken identities : List Value} {prepared : List Document}

theorem prepare_cons_ok {doc : Document}
    (h : prepare (doc :: batch) ids taken = .ok (identities, rest, prepared)) :
    ∃ id identified between others more, identify doc ids = (id, identified, between) ∧
      (∀ v ∈ taken, v.equiv id = false) ∧
      prepare batch between (taken ++ [id]) = .ok (others, rest, more) ∧
      identities = id :: others ∧ prepared = identified :: more := by
  rcases found : identify doc ids with ⟨id, identified, between⟩
  simp only [prepare, found] at h
  split at h <;> rename_i fresh
  · cases h
  · split at h <;> rename_i outcome <;> cases h
    exact ⟨id, identified, between, _, _, rfl, duplicate?_eq_none_iff.mp fresh, outcome, rfl, rfl⟩

theorem prepare_cons_error {doc : Document} {cause : Rejection}
    (h : prepare (doc :: batch) ids taken = .error cause) :
    ∃ id identified between, identify doc ids = (id, identified, between) ∧
      (duplicate? taken id = some cause ∨
        duplicate? taken id = none ∧ prepare batch between (taken ++ [id]) = .error cause) := by
  rcases found : identify doc ids with ⟨id, identified, between⟩
  refine ⟨id, identified, between, rfl, ?_⟩
  simp only [prepare, found] at h
  split at h <;> rename_i fresh
  · cases h
    exact .inl fresh
  · split at h <;> rename_i outcome <;> cases h
    exact .inr ⟨fresh, outcome⟩

theorem map_get?_of_prepare (h : prepare batch ids taken = .ok (identities, rest, prepared)) :
    prepared.map (Document.get? · idField) = identities.map some := by
  induction batch generalizing ids taken identities prepared with
  | nil =>
      cases h
      rfl
  | cons doc batch ih =>
      obtain ⟨id, identified, between, others, more, found, -, outcome, rfl, rfl⟩ := prepare_cons_ok h
      rw [List.map_cons, List.map_cons, ih outcome, get?_of_identify found]

theorem identities_of_prepare (h : prepare batch ids taken = .ok (identities, rest, prepared)) :
    Collection.identities prepared = identities := by
  rw [identities_eq_filterMap_id, map_get?_of_prepare h, List.filterMap_map]
  exact List.filterMap_some

theorem pairwise_of_prepare (wf : ∀ doc ∈ batch, doc.WellFormed)
    (h : prepare batch ids taken = .ok (identities, rest, prepared))
    (distinct : taken.Pairwise Value.Unequal) : (taken ++ identities).Pairwise Value.Unequal := by
  induction batch generalizing ids taken identities prepared with
  | nil =>
      cases h
      rwa [List.append_nil]
  | cons doc batch ih =>
      obtain ⟨id, identified, between, others, more, found, fresh, outcome, rfl, rfl⟩ := prepare_cons_ok h
      obtain ⟨wfFirst, wfRest⟩ := List.forall_mem_cons.mp wf
      have wfId := (wellFormed_of_identify wfFirst found).1
      rw [List.append_cons]
      refine ih wfRest outcome (List.pairwise_append.mpr ⟨distinct, List.pairwise_singleton _ _, ?_⟩)
      intro v hv w hw
      rw [List.mem_singleton.mp hw]
      exact Value.unequal_of_equiv wfId (fresh v hv)

theorem wellFormed_of_prepare (wf : ∀ doc ∈ batch, doc.WellFormed)
    (h : prepare batch ids taken = .ok (identities, rest, prepared)) :
    ∀ doc ∈ prepared, doc.WellFormed := by
  induction batch generalizing ids taken identities prepared with
  | nil =>
      cases h
      simp
  | cons doc batch ih =>
      obtain ⟨id, identified, between, others, more, found, -, outcome, rfl, rfl⟩ := prepare_cons_ok h
      obtain ⟨wfFirst, wfRest⟩ := List.forall_mem_cons.mp wf
      exact List.forall_mem_cons.mpr ⟨(wellFormed_of_identify wfFirst found).2, ih wfRest outcome⟩

theorem insertMany_on (batch : List Document) (ids : IdSupply) (docs : Collection) :
    (insertMany batch ids).on docs =
      match prepare batch ids docs.identities with
      | .error cause => (.error cause, docs)
      | .ok (identities, rest, prepared) => (.ok (identities, rest), docs ++ prepared) := by
  rw [insertMany, CollectionAction.on_get_bind]
  cases prepare batch ids docs.identities <;> rfl

theorem insertMany_ok (h : (insertMany batch ids).on docs = (.ok (identities, rest), after)) :
    ∃ prepared, prepare batch ids docs.identities = .ok (identities, rest, prepared) ∧
      after = docs ++ prepared := by
  rw [insertMany_on] at h
  split at h <;> rename_i outcome <;> cases h
  exact ⟨_, outcome, rfl⟩

end

end Collection

end DocQuery
