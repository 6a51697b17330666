import Mathlib.Data.List.Forall2
import DocQuery.Proofs.Query.Update
import DocQuery.Proofs.Store.Atomicity

namespace DocQuery

/-! ## One document -/

structure Update.Carried (u : Update) (doc updated : Document) : Prop where
  set : ∀ field ∈ u.fields, ∃ w, updated.lookup? field.1 = some w ∧ w.equiv field.2 = true
  apart : ∀ path, (∀ field ∈ u.fields, (Path.ofText field.1).Apart (Path.ofText path)) →
    updated.lookup? path = doc.lookup? path
  identity : updated.get? idField = doc.get? idField
  /-- No value that is not an object was in the way. -/
  unimpeded : ∃ changed, u.applyStrictly? doc = some (updated, changed)

namespace Update

variable {u : Update} {doc : Document}

theorem get?_idField_apply (sound : u.fault? = none) :
    (u.apply doc).1.get? idField = doc.get? idField := by
  rw [apply_fst]
  refine get?_setAll fun field hf => ?_
  exact (fault?_eq_none_iff.mp sound field.1 (Document.mem_keys_of_mem hf)).1

theorem carried_apply (wf : u.fields.WellFormed) (sound : u.fault? = none)
    (admitted : u.blocked? doc = none) : u.Carried doc (u.apply doc).1 := by
  obtain ⟨distinct, each⟩ := Document.wellFormed_iff.mp wf
  have apart := apart_of_fault? distinct sound
  have free := free_of_blocked? admitted
  refine ⟨?_, ?_, get?_idField_apply sound, ⟨_, applyStrictly?_eq_apply apart free⟩⟩
  · rw [apply_fst]
    exact follow?_setAll apart each free
  · intro path others
    rw [apply_fst]
    exact follow?_setAll_of_apart others

end Update

/-! ## All documents -/

namespace Collection

variable {filter : Group} {u : Update} {docs updated : Collection} {counts : UpdateCounts}

theorem applyUpdate_snd (filter : Group) (u : Update) (docs : Collection) :
    (applyUpdate filter u docs).2 =
      docs.map fun doc => if filter.accepts doc then (u.apply doc).1 else doc := by
  induction docs with
  | nil => rfl
  | cons doc docs ih =>
      rw [List.map_cons, ← ih]
      by_cases selected : filter.accepts doc <;> simp [applyUpdate, selected]

theorem update_on (filter : Group) (u : Update) (docs : Collection) :
    (update filter u).on docs =
      match u.fault? <|> (docs.select filter).findSome? u.blocked? with
      | some cause => (.error cause, docs)
      | none => (.ok (applyUpdate filter u docs).1, (applyUpdate filter u docs).2) := by
  simp only [update, CollectionAction.forM_refuseFor]
  rw [CollectionAction.on_refuseFor_bind]
  cases u.fault? with
  | some cause => rfl
  | none =>
      rw [CollectionAction.on_get_bind, CollectionAction.on_refuseFor_bind]
      cases (docs.select filter).findSome? u.blocked? <;> rfl

theorem update_eq_ok_iff : (update filter u).on docs = (.ok counts, updated) ↔
    u.fault? = none ∧ (∀ doc ∈ docs, filter.accepts doc = true → u.blocked? doc = none) ∧
      applyUpdate filter u docs = (counts, updated) := by
  have admitted : (docs.select filter).findSome? u.blocked? = none ↔
      ∀ doc ∈ docs, filter.accepts doc = true → u.blocked? doc = none := by
    simp only [List.findSome?_eq_none_iff, select, List.mem_filter, and_imp]
  rw [← admitted, update_on]
  cases u.fault? with
  | some cause => simp
  | none => cases (docs.select filter).findSome? u.blocked? <;> simp [Prod.ext_iff]

theorem update_ok (h : (update filter u).on docs = (.ok counts, updated)) :
    u.fault? = none ∧ (∀ doc ∈ docs, filter.accepts doc = true → u.blocked? doc = none) ∧
      updated = docs.map fun doc => if filter.accepts doc then (u.apply doc).1 else doc := by
  obtain ⟨sound, admitted, applied⟩ := update_eq_ok_iff.mp h
  refine ⟨sound, admitted, ?_⟩
  rw [← applyUpdate_snd, applied]

theorem map_get?_of_update (h : (update filter u).on docs = (.ok counts, updated)) :
    updated.map (Document.get? · idField) = docs.map (Document.get? · idField) := by
  obtain ⟨sound, -, rfl⟩ := update_ok h
  rw [List.map_map]
  refine List.map_congr_left fun doc _ => ?_
  simp only [Function.comp_apply]
  split
  · exact Update.get?_idField_apply sound
  · rfl

theorem carried_of_update (wf : u.fields.WellFormed)
    (h : (update filter u).on docs = (.ok counts, updated)) :
    List.Forall₂
      (fun doc after => if filter.accepts doc then u.Carried doc after else after = doc)
      docs updated := by
  obtain ⟨sound, admitted, rfl⟩ := update_ok h
  rw [List.forall₂_map_right_iff, List.forall₂_same]
  intro doc hd
  split <;> rename_i selected
  · exact Update.carried_apply wf sound (admitted doc hd selected)
  · rfl

theorem carried_of_update_sharedObject :
    let filter : Group := ⟨.and, [.clause ⟨"open", .eq, .bool true⟩]⟩
    let u : Update := ⟨[("a.b", .null), ("a.c", .one)]⟩
    let docs : Collection :=
      [[("open", .bool true)], [("a", .null)],
        [("a", .object [("c", .one), ("d", .null)]), ("open", .bool true)]]
    let updated : Collection :=
      [[("open", .bool true), ("a", .object [("b", .null), ("c", .one)])], [("a", .null)],
        [("a", .object [("c", .one), ("d", .null), ("b", .null)]), ("open", .bool true)]]
    u.fields.WellFormed ∧ (update filter u).on docs = (.ok ⟨2, 2⟩, updated) ∧
      List.Forall₂
        (fun doc after => if filter.accepts doc then u.Carried doc after else after = doc)
        docs updated := by
  intro filter u docs updated
  have wf : u.fields.WellFormed := by simp [u, Document.keys, Value.one]
  have ok : (update filter u).on docs = (.ok ⟨2, 2⟩, updated) := rfl
  exact ⟨wf, ok, carried_of_update wf ok⟩

/-! ## Updating again -/

theorem matched_applyUpdate (filter : Group) (u : Update) (docs : Collection) :
    (applyUpdate filter u docs).1.matched = docs.count filter := by
  simp only [Collection.count, select]
  induction docs with
  | nil => rfl
  | cons doc docs ih => by_cases selected : filter.accepts doc <;> simp [applyUpdate, selected, ih]

theorem applyUpdate_of_unchanged
    (unchanged : ∀ doc ∈ docs, filter.accepts doc = true → u.apply doc = (doc, false)) :
    applyUpdate filter u docs = (⟨docs.count filter, 0⟩, docs) := by
  simp only [Collection.count, select]
  induction docs with
  | nil => rfl
  | cons doc docs ih =>
      obtain ⟨first, others⟩ := List.forall_mem_cons.mp unchanged
      by_cases selected : filter.accepts doc
      · simp [applyUpdate, selected, ih others, first selected]
      · simp [applyUpdate, selected, ih others]

theorem matched_of_update (h : (update filter u).on docs = (.ok counts, updated)) :
    counts.matched = docs.count filter := by
  obtain ⟨-, -, applied⟩ := update_eq_ok_iff.mp h
  rw [← matched_applyUpdate filter u docs, applied]

theorem count_map_le {f : Document → Document}
    (selected : ∀ doc ∈ docs, filter.accepts (f doc) = true → filter.accepts doc = true) :
    Collection.count filter (docs.map f) ≤ docs.count filter := by
  simp only [Collection.count, select, ← List.countP_eq_length_filter, List.countP_map]
  exact List.countP_mono_left selected

theorem update_again (wf : u.fields.WellFormed) (h : (update filter u).on docs = (.ok counts, updated)) :
    ∃ matched, (update filter u).on updated = (.ok ⟨matched, 0⟩, updated) ∧ matched ≤ counts.matched := by
  have before := matched_of_update h
  obtain ⟨sound, admitted, rfl⟩ := update_ok h
  generalize changed : (fun doc => if filter.accepts doc then (u.apply doc).1 else doc) = after
  have stays (doc : Document) (skipped : ¬ filter.accepts doc = true) : after doc = doc := by
    rw [← changed]
    exact if_neg skipped
  have carries (doc : Document) (selected : filter.accepts doc = true) : after doc = (u.apply doc).1 := by
    rw [← changed]
    exact if_pos selected
  have selectedBefore : ∀ doc ∈ docs, filter.accepts (after doc) = true → filter.accepts doc = true := by
    intro doc _ selected
    by_contra skipped
    rw [stays doc skipped] at selected
    exact skipped selected
  have admittedAgain : ∀ doc ∈ docs.map after, filter.accepts doc = true → u.blocked? doc = none := by
    refine List.forall_mem_map.mpr fun doc hd selected => ?_
    have selected := selectedBefore doc hd selected
    rw [carries doc selected]
    exact Update.blocked?_apply sound (admitted doc hd selected)
  have unchanged : ∀ doc ∈ docs.map after, filter.accepts doc = true → u.apply doc = (doc, false) := by
    refine List.forall_mem_map.mpr fun doc hd selected => ?_
    have selected := selectedBefore doc hd selected
    rw [carries doc selected]
    exact Update.apply_apply wf sound (admitted doc hd selected)
  refine ⟨Collection.count filter (docs.map after), ?_, before ▸ count_map_le selectedBefore⟩
  exact update_eq_ok_iff.mpr ⟨sound, admittedAgain, applyUpdate_of_unchanged unchanged⟩

theorem update_again_testedField :
    let filter : Group := ⟨.and, [.clause ⟨"n", .ne, .null⟩]⟩
    let u : Update := ⟨[("n", .null), ("a.b", .object [("x", .null), ("y", .one)])]⟩
    let docs : Collection :=
      [[("n", .bool true)], [("a", .object [("b", .object [("y", .one), ("x", .null)])])]]
    let updated : Collection :=
      [[("n", .null), ("a", .object [("b", .object [("x", .null), ("y", .one)])])],
        [("a", .object [("b", .object [("y", .one), ("x", .null)])]), ("n", .null)]]
    u.fields.WellFormed ∧ (update filter u).on docs = (.ok ⟨2, 2⟩, updated) ∧
      ∃ matched, (update filter u).on updated = (.ok ⟨matched, 0⟩, updated) ∧ matched ≤ 2 := by
  intro filter u docs updated
  have wf : u.fields.WellFormed := by simp [u, Document.keys, Value.one]
  have ok : (update filter u).on docs = (.ok ⟨2, 2⟩, updated) := rfl
  exact ⟨wf, ok, update_again wf ok⟩

end Collection

end DocQuery
