import Mathlib.Data.List.Basic
import DocQuery.Proofs.Filter.Congruence
import DocQuery.Proofs.Query.Arrangement
import DocQuery.Proofs.Store.Updating

namespace DocQuery

namespace Update

variable {u : Update} {doc : Document}

theorem apply_of_snd (wf : u.fields.WellFormed) (sound : u.fault? = none) (admitted : u.blocked? doc = none)
    (unchanged : (u.apply doc).2 = false) : u.apply doc = (doc, false) := by
  have free := free_of_blocked? admitted
  exact apply_of_follow? free ((apply_snd_eq_false_iff (apart_of_fault? wf.distinct sound) free).mp unchanged)

theorem apply_snd_eq (wf : u.fields.WellFormed) (document : doc.WellFormed) (sound : u.fault? = none)
    (admitted : u.blocked? doc = none) :
    (u.apply doc).2 = !(Value.object doc).equiv (.object (u.apply doc).1) := by
  cases changed : (u.apply doc).2 with
  | false =>
      rw [apply_of_snd wf sound admitted changed, Value.equiv_refl document]
      rfl
  | true =>
      obtain ⟨distinct, each⟩ := Document.wellFormed_iff.mp wf
      have apart := apart_of_fault? distinct sound
      have free := free_of_blocked? admitted
      cases equal : (Value.object doc).equiv (.object (u.apply doc).1) with
      | false => rfl
      | true =>
          -- the values of the update are found afterwards, so equal ones were there before
          have before : ∀ field ∈ u.fields, ∃ w,
              (Value.object doc).follow? (Path.ofText field.1) = some w ∧ w.equiv field.2 = true := by
            intro field hf
            obtain ⟨y, after, set⟩ := follow?_setAll apart each free field hf
            rw [← apply_fst] at after
            obtain ⟨x, found, alike⟩ := (Value.Same.of_equiv document equal).exists_follow? after
            exact ⟨x, found, Value.equiv_trans x alike.1 set⟩
          rw [(apply_snd_eq_false_iff apart free).mpr before] at changed
          cases changed

end Update

namespace Collection

variable {filter : Group} {u : Update} {docs updated : Collection} {counts : UpdateCounts}

theorem modified_applyUpdate (filter : Group) (u : Update) (docs : Collection) :
    (applyUpdate filter u docs).1.modified = docs.countP fun doc => filter.accepts doc && (u.apply doc).2 := by
  induction docs with
  | nil => rfl
  | cons doc docs ih => by_cases selected : filter.accepts doc <;> simp [applyUpdate, selected, ih, List.countP_cons]

/-- The note on a document is about single paths; here it comes to whether the whole document is equal to the one
before. -/
theorem counts_of_update (wf : u.fields.WellFormed) (documents : ∀ doc ∈ docs, doc.WellFormed)
    (h : (update filter u).on docs = (.ok counts, updated)) :
    counts.matched = docs.countP filter.accepts ∧
      counts.modified =
        (docs.zip updated).countP (fun place => !(Value.object place.1).equiv (.object place.2)) ∧
      List.Forall₂ (fun doc after => (Value.object doc).equiv (.object after) = true → after = doc)
        docs updated := by
  have matched : counts.matched = docs.countP filter.accepts :=
    (matched_of_update h).trans List.countP_eq_length_filter.symm
  obtain ⟨sound, admitted, applied⟩ := update_eq_ok_iff.mp h
  obtain ⟨-, -, rfl⟩ := update_ok h
  have modified : counts.modified = docs.countP fun doc => filter.accepts doc && (u.apply doc).2 := by
    rw [← modified_applyUpdate filter u docs, applied]
  have noted (doc) (hd : doc ∈ docs) (selected : filter.accepts doc = true) :=
    Update.apply_snd_eq wf (documents doc hd) sound (admitted doc hd selected)
  refine ⟨matched, ?_, ?_⟩
  · rw [modified, ← List.map_prod_left_eq_zip, List.countP_map]
    refine List.countP_congr fun doc hd => ?_
    by_cases selected : filter.accepts doc = true
    · simp [selected, noted doc hd selected]
    · simp [selected, Value.equiv_refl (documents doc hd)]
  · rw [List.forall₂_map_right_iff, List.forall₂_same]
    intro doc hd equal
    split at equal <;> rename_i selected
    · have unchanged : (u.apply doc).2 = false := by
        rw [noted doc hd selected, equal]
        rfl
      rw [if_pos selected, Update.apply_of_snd wf sound (admitted doc hd selected) unchanged]
    · rw [if_neg selected]

theorem counts_of_update_reordered :
    let filter : Group := ⟨.and, [.clause ⟨"closed", .ne, .bool true⟩]⟩
    let u : Update := ⟨[("n", .object [("x", .one), ("y", .null)]), ("a.b", .one)]⟩
    let inner : Value := .object [("b", .one)]
    let reordered : Value := .object [("y", .null), ("x", .one)]
    let docs : Collection := [[("a", inner), ("n", reordered)], [("closed", .bool true)], [("n", .null), ("a", inner)],
      [("n", reordered)]]
    let updated : Collection := [[("a", inner), ("n", reordered)], [("closed", .bool true)],
      [("n", .object [("x", .one), ("y", .null)]), ("a", inner)], [("n", reordered), ("a", inner)]]
    u.fields.WellFormed ∧ (∀ doc ∈ docs, doc.WellFormed) ∧ (update filter u).on docs = (.ok ⟨3, 2⟩, updated) ∧
      3 = docs.countP filter.accepts ∧
      2 = (docs.zip updated).countP (fun place => !(Value.object place.1).equiv (.object place.2)) ∧
      List.Forall₂ (fun doc after => (Value.object doc).equiv (.object after) = true → after = doc)
        docs updated := by
  intro filter u inner reordered docs updated
  have wf : u.fields.WellFormed := by simp [u, Document.keys, Value.one, or_imp, forall_and]
  have documents : ∀ doc ∈ docs, doc.WellFormed := by
    simp [docs, inner, reordered, Document.keys, Value.one, or_imp, forall_and]
  have ok : (update filter u).on docs = (.ok ⟨3, 2⟩, updated) := rfl
  exact ⟨wf, documents, ok, counts_of_update wf documents ok⟩

/-! ## What is found, counted and deleted -/

variable {o : FindOptions}

theorem length_find (unlimited : o.limit = none) : (docs.find filter o).length = docs.count filter := by
  rw [find, List.length_map, FindOptions.cut, unlimited]
  exact (o.sort.arranges_arrange (docs.select filter)).perm.length_eq

theorem find_limited (unlimited : o.limit = none) (n : Nat) :
    docs.find filter { o with limit := some n } = (docs.find filter o).take n := by
  rw [find, find, FindOptions.cut, FindOptions.cut, unlimited, List.map_take]

theorem delete_snd (filter : Group) (docs : Collection) :
    (docs.delete filter).2 = docs.filter fun doc => !filter.accepts doc := rfl

theorem count_add_length_delete (filter : Group) (docs : Collection) :
    docs.count filter + (docs.delete filter).2.length = docs.length :=
  (docs.length_eq_length_filter_add filter.accepts).symm

theorem delete_fst (filter : Group) (docs : Collection) : (docs.delete filter).1 = docs.count filter :=
  Nat.sub_eq_of_eq_add (count_add_length_delete filter docs).symm

theorem count_delete (filter : Group) (docs : Collection) : count filter (docs.delete filter).2 = 0 := by
  rw [count, select, List.length_eq_zero_iff, List.filter_eq_nil_iff]
  intro doc kept
  simpa using (List.mem_filter.mp kept).2

end Collection

end DocQuery
