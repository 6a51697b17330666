import DocQuery.Value.Basic

namespace DocQuery

theorem lookup_cons_eq_ite {κ β : Type} [DecidableEq κ] (entry : κ × β) (table : List (κ × β)) (key : κ) :
    (entry :: table).lookup key = if entry.1 = key then some entry.2 else table.lookup key := by
  obtain ⟨stored, v⟩ := entry
  rw [List.lookup_cons]
  by_cases same : stored = key
  · simp [same]
  · rw [if_neg same, beq_eq_false_iff_ne.mpr (Ne.symm same)]

namespace Document

variable {doc : Document} {key name : String} {v : Value}

/-! ## Reading -/

theorem get?_cons (field : String × Value) (doc : Document) (name : String) :
    get? (field :: doc) name = if field.1 = name then some field.2 else doc.get? name :=
  lookup_cons_eq_ite field doc name

theorem mem_of_get? (h : doc.get? name = some v) : (name, v) ∈ doc := by
  induction doc with
  | nil => simp [get?] at h
  | cons field doc ih =>
      rw [get?_cons] at h
      split at h <;> rename_i same
      · obtain rfl := Option.some.inj h
        exact same ▸ List.mem_cons_self
      · exact List.mem_cons_of_mem _ (ih h)

theorem mem_keys_of_mem {field : String × Value} (h : field ∈ doc) : field.1 ∈ doc.keys :=
  List.mem_map_of_mem h

theorem mem_keys_of_get? (h : doc.get? name = some v) : name ∈ doc.keys :=
  List.mem_map.mpr ⟨(name, v), mem_of_get? h, rfl⟩

theorem get?_of_mem (distinct : doc.keys.Nodup) {field : String × Value} (h : field ∈ doc) :
    doc.get? field.1 = some field.2 := by
  induction doc with
  | nil => cases h
  | cons first doc ih =>
      obtain ⟨fresh, distinct⟩ := List.nodup_cons.mp distinct
      rw [get?_cons]
      rcases List.mem_cons.mp h with rfl | h
      · exact if_pos rfl
      · have other : first.1 ≠ field.1 := fun same => fresh (same ▸ mem_keys_of_mem h)
        rw [if_neg other, ih distinct h]

theorem get?_eq_some_iff (distinct : doc.keys.Nodup) : doc.get? name = some v ↔ (name, v) ∈ doc :=
  ⟨mem_of_get?, fun h => get?_of_mem distinct h⟩

theorem get?_eq_none_iff : doc.get? name = none ↔ name ∉ doc.keys := by
  induction doc with
  | nil => simp [get?, keys]
  | cons field doc ih =>
      have names : keys (field :: doc) = field.1 :: keys doc := rfl
      rw [get?_cons, names, List.mem_cons, not_or, ← ih]
      split <;> rename_i same
      · simp [same]
      · simp [Ne.symm same]

theorem exists_get?_of_mem_keys (h : name ∈ doc.keys) : ∃ v, doc.get? name = some v :=
  Option.ne_none_iff_exists'.mp fun absent => get?_eq_none_iff.mp absent h

theorem mem_zip_iff {other : Document} (names : doc.keys = other.keys) (distinct : doc.keys.Nodup)
    {field field' : String × Value} : (field, field') ∈ doc.zip other ↔
      field.1 = field'.1 ∧ doc.get? field.1 = some field.2 ∧ other.get? field.1 = some field'.2 := by
  induction doc generalizing other with
  | nil => simp [get?]
  | cons first doc ih =>
      cases other with
      | nil => cases names
      | cons first' other =>
          obtain ⟨same, names⟩ := List.cons.inj names
          obtain ⟨fresh, distinct⟩ := List.nodup_cons.mp distinct
          rw [List.zip_cons_cons, List.mem_cons, ih names distinct, get?_cons, get?_cons, ← same]
          by_cases here : first.1 = field.1
          · have absent : get? doc field.1 = none := get?_eq_none_iff.mpr (here ▸ fresh)
            simp [here, absent, Prod.ext_iff, ← same, eq_comm, and_left_comm]
          · have other : field ≠ first := fun same => here (same ▸ rfl)
            simp [here, other]

theorem get?_of_getD {inner : Document} (found : (doc.get? name).getD (.object []) = .object inner) :
    doc.get? name = some (.object inner) ∨ doc.get? name = none ∧ inner = [] := by
  cases present : doc.get? name with
  | none =>
      rw [present] at found
      cases found
      exact .inr ⟨rfl, rfl⟩
  | some v =>
      rw [present] at found
      exact .inl (congrArg some found)

/-! ## Setting -/

theorem get?_insert (doc : Document) (key name : String) (v : Value) :
    (doc.insert key v).get? name = if key = name then some v else doc.get? name := by
  induction doc with
  | nil => simp [insert, get?_cons]
  | cons field doc ih =>
      rw [insert]
      split <;> rename_i same
      · subst same
        simp only [get?_cons]
        split <;> rfl
      · simp only [get?_cons, ih]
        grind

theorem get?_insert_self (doc : Document) (key : String) (v : Value) :
    (doc.insert key v).get? key = some v := by
  rw [get?_insert, if_pos rfl]

theorem get?_insert_of_ne (doc : Document) (v : Value) (h : key ≠ name) :
    (doc.insert key v).get? name = doc.get? name := by
  rw [get?_insert, if_neg h]

theorem insert_of_get? (h : doc.get? name = some v) : doc.insert name v = doc := by
  induction doc with
  | nil => cases h
  | cons field doc ih =>
      rw [get?_cons] at h
      rw [insert]
      split at h <;> rename_i same
      · obtain rfl := Option.some.inj h
        subst same
        rw [if_pos rfl]
      · rw [if_neg same, ih h]

theorem keys_insert (doc : Document) (key : String) (v : Value) :
    (doc.insert key v).keys = if key ∈ doc.keys then doc.keys else doc.keys ++ [key] := by
  induction doc with
  | nil => rfl
  | cons field doc ih =>
      rw [insert]
      split <;> rename_i same
      · simp [keys, same]
      · have other : key ≠ field.1 := Ne.symm same
        have unchanged (rest : Document) : keys (field :: rest) = field.1 :: rest.keys := rfl
        rw [unchanged, unchanged, ih]
        by_cases present : key ∈ keys doc <;> simp [present, other]

theorem nodup_keys_insert (distinct : doc.keys.Nodup) (key : String) (v : Value) :
    (doc.insert key v).keys.Nodup := by
  rw [keys_insert]
  split <;> rename_i present
  · exact distinct
  · exact List.nodup_append.mpr
      ⟨distinct, List.nodup_cons.mpr ⟨List.not_mem_nil, .nil⟩, by grind⟩

theorem mem_of_mem_insert {field : String × Value} (h : field ∈ doc.insert key v) :
    field = (key, v) ∨ field ∈ doc := by
  induction doc with
  | nil => exact .inl (List.mem_singleton.mp h)
  | cons first doc ih =>
      rw [insert] at h
      split at h
      · exact (List.mem_cons.mp h).imp_right (List.mem_cons_of_mem _)
      · rcases List.mem_cons.mp h with rfl | h
        · exact .inr List.mem_cons_self
        · exact (ih h).imp_right (List.mem_cons_of_mem _)

/-! ## Removing -/

theorem filter_ne_of_not_mem (absent : key ∉ doc.keys) : doc.filter (·.1 ≠ key) = doc :=
  List.filter_eq_self.mpr fun _ hf => decide_eq_true fun same => absent (same ▸ mem_keys_of_mem hf)

theorem map_replace_perm (distinct : doc.keys.Nodup) (present : key ∈ doc.keys) (last : String × Value) :
    (doc.map fun field => if field.1 = key then last else field).Perm (last :: doc.filter (·.1 ≠ key)) := by
  induction doc with
  | nil => cases present
  | cons field doc ih =>
      obtain ⟨fresh, distinct⟩ := List.nodup_cons.mp distinct
      rw [List.map_cons, List.filter_cons]
      by_cases same : field.1 = key
      · have absent : key ∉ keys doc := same ▸ fresh
        have unchanged : (doc.map fun field => if field.1 = key then last else field) = doc :=
          (List.map_congr_left fun other ho =>
            if_neg fun (same : other.1 = key) => absent (same ▸ mem_keys_of_mem ho)).trans (List.map_id doc)
        rw [filter_ne_of_not_mem absent, unchanged]
        simp [same]
      · have rest := ih distinct ((List.mem_cons.mp present).resolve_left (Ne.symm same))
        rw [if_neg same, if_pos (decide_eq_true same)]
        exact (rest.cons field).trans (.swap ..)

theorem removeBySwap_perm (distinct : doc.keys.Nodup) (key : String) :
    (doc.removeBySwap key).Perm (doc.filter (·.1 ≠ key)) := by
  rcases List.eq_nil_or_concat doc with rfl | ⟨rest, last, rfl⟩
  · exact .nil
  rw [List.concat_eq_append] at distinct ⊢
  have names : keys (rest ++ [last]) = keys rest ++ [last.1] := List.map_append
  rw [names] at distinct
  obtain ⟨distinctRest, -, apart⟩ := List.nodup_append.mp distinct
  rw [removeBySwap, List.getLast?_concat, List.dropLast_concat, List.filter_append]
  dsimp only
  split <;> rename_i place
  · have absent : key ∉ keys rest := fun h => apart _ h _ List.mem_cons_self place.symm
    rw [filter_ne_of_not_mem absent]
    simp [place]
  · have stays : [last].filter (·.1 ≠ key) = [last] := by simp [place]
    have missing : (get? (rest ++ [last]) key).isNone = true ↔ key ∉ keys rest := by
      rw [Option.isNone_iff_eq_none, get?_eq_none_iff, names]
      simp [Ne.symm place]
    simp only [stays, missing]
    split <;> rename_i found
    · rw [filter_ne_of_not_mem found]
    · exact (map_replace_perm distinctRest (Decidable.not_not.mp found) last).trans
        (List.perm_append_singleton last _).symm

theorem nodup_keys_removeBySwap (distinct : doc.keys.Nodup) (key : String) :
    (doc.removeBySwap key).keys.Nodup := by
  refine (((removeBySwap_perm distinct key).map Prod.fst).nodup_iff).mpr ?_
  exact distinct.sublist (List.filter_sublist.map Prod.fst)

theorem get?_removeBySwap (distinct : doc.keys.Nodup) (key name : String) :
    (doc.removeBySwap key).get? name = if key = name then none else doc.get? name := by
  have distinct' := nodup_keys_removeBySwap distinct key
  refine Option.ext fun v => ?_
  rw [get?_eq_some_iff distinct', (removeBySwap_perm distinct key).mem_iff, List.mem_filter]
  split <;> rename_i same
  · simp [same]
  · rw [get?_eq_some_iff distinct]
    simp [Ne.symm same]

end Document

end DocQuery
