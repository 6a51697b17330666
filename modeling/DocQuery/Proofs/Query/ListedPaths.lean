import DocQuery.Proofs.Query.Projection

namespace DocQuery

namespace Value

variable {v : Value} {place : Path}

theorem isSome_reach?_iff (wf : v.WellFormed) (place : Path) :
    (v.reach? place).isSome = true ↔ ∃ below leaf, v.leaf? (place ++ below) = some leaf := by
  simp only [leaf?_append]
  constructor
  · intro reached
    obtain ⟨w, found⟩ := Option.isSome_iff_exists.mp reached
    obtain ⟨below, stands⟩ := exists_leaf (wf.of_reach? found)
    obtain ⟨leaf, stands⟩ := Option.isSome_iff_exists.mp stands
    exact ⟨below, leaf, by rwa [found]⟩
  · rintro ⟨below, leaf, stands⟩
    obtain ⟨w, found, -⟩ := Option.bind_eq_some_iff.mp stands
    rw [found]
    rfl

theorem isSome_reach?_of_prefix {outer : Path} (above : outer <+: place) (reached : (v.reach? place).isSome = true) :
    (v.reach? outer).isSome = true := by
  obtain ⟨rest, rfl⟩ := above
  obtain ⟨w, found⟩ := Option.isSome_iff_exists.mp reached
  rw [reach?_append] at found
  obtain ⟨u, found, -⟩ := Option.bind_eq_some_iff.mp found
  rw [found]
  rfl

end Value

namespace Projection

variable {p : Projection} {doc : Document} {path place : Path} {chosen : List Path} {v : Value}

/-! ## Overlapping paths -/

theorem isEmpty_of_listed {field : String} (listed : field ∈ p.fields) : p.isEmpty = false := by
  rw [isEmpty, List.isEmpty_eq_false_iff]
  exact List.ne_nil_of_mem listed

theorem shows_of_asked (asked : path ∈ chosen) (place : Path) {leaf : Value} (scalar : leaf.isObject = false) :
    shows chosen (path ++ place) leaf = true := by
  rw [shows, scalar, if_neg Bool.false_ne_true, List.any_eq_true]
  exact ⟨path, asked, decide_eq_true (List.prefix_append path place)⟩

/-- A listed path leads to the same value in the result exactly when the projection shows every empty object in the
value. -/
theorem apply_keeps_listed_iff {field : String} (listed : field ∈ p.fields) (wf : doc.WellFormed)
    (found : (Value.object doc).reach? (.ofText field) = some v) :
    ((∃ kept, (Value.object (p.apply doc)).reach? (.ofText field) = some kept ∧ kept.Reordered v) ↔
      ∀ place, v.reach? place = some (.object []) →
        shows p.paths (.ofText field ++ place) (.object []) = true) ∧
    ((∀ place, v.reach? place = some (.object []) →
        ∀ other ∈ p.fields, (Path.ofText other).isBelow (.ofText field ++ place) = false) →
      (Value.object (p.apply doc)).reach? (.ofText field) = some v) := by
  have nonempty := isEmpty_of_listed listed
  have asked : Path.ofText field ∈ p.paths := List.mem_cons_of_mem _ (List.mem_map_of_mem listed)
  constructor
  · refine (reordered_reach?_apply_iff nonempty wf (Path.ofText_ne_nil field) found).trans
      ⟨fun shown place stands => ?_, fun shown place leaf stands => ?_⟩
    · exact shown place _ (Value.leaf?_eq_empty_iff.mpr stands)
    · cases nested : leaf.isObject with
      | false => exact shows_of_asked asked place nested
      | true =>
          obtain rfl := Value.eq_empty_of_leaf? stands nested
          exact shown place (Value.leaf?_eq_empty_iff.mp stands)
  · intro clear
    rw [apply_eq_copyPaths nonempty]
    refine reach?_copyPaths_of_clear wf p.paths_proper found asked fun rest hr place stands => ?_
    rcases List.mem_cons.mp hr with only | hr
    · obtain ⟨-, rfl⟩ := (List.append_eq_singleton_iff.mp only).resolve_left fun h => Path.ofText_ne_nil field h.1
      exact Path.isBelow_of_nil place
    · obtain ⟨other, ho, same⟩ := List.mem_map.mp hr
      have := clear place stands other ho
      rwa [same, Path.isBelow_append_append] at this

theorem apply_keeps_listed_overlapping :
    let doc : Document := [("a", .object [("e", .object []), ("n", .one)]), ("b", .null)]
    let relisted : Projection := .ofFields ["a.e", "a.e.k", "a"]
    let beside : Projection := .ofFields ["a.e", "b", "a.n.k"]
    doc.WellFormed ∧ (Value.object doc).reach? ["a", "e"] = some (.object []) ∧
      (∃ kept, (Value.object (relisted.apply doc)).reach? ["a", "e"] = some kept ∧ kept.Reordered (.object [])) ∧
      (Value.object (beside.apply doc)).reach? ["a", "e"] = some (.object []) := by
  intro doc relisted beside
  have wf : doc.WellFormed := by simp [doc, Document.keys, Value.one]
  have found : (Value.object doc).reach? (.ofText "a.e") = some (.object []) := rfl
  have onlyAt (place) (stands : (Value.object []).reach? place = some (.object [])) : place = [] := by
    cases place with
    | nil => rfl
    | cons => cases stands
  refine ⟨wf, found, (apply_keeps_listed_iff (p := relisted) (by decide) wf found).1.mpr ?_,
    (apply_keeps_listed_iff (p := beside) (by decide) wf found).2 ?_⟩
  · intro place stands
    rw [onlyAt place stands]
    decide
  · intro place stands
    rw [onlyAt place stands]
    decide

/-- The second path removes the object that the first one has copied, because nothing is below it. -/
theorem apply_drops_listed_empty :
    (Value.object [("a", .object [])]).reach? ["a"] = some (.object []) ∧
      (Value.object ((ofFields ["a", "a.x"]).apply [("a", .object [])])).reach? ["a"] = none :=
  ⟨rfl, by decide⟩

/-! ## Separate paths -/

/-- No path runs through the end of another one. -/
def Separate (chosen : List Path) : Prop := ∀ path ∈ chosen, ∀ other ∈ chosen, other.isBelow path = false

theorem shows_iff_of_separate (separate : Separate chosen) (place : Path) (leaf : Value) :
    shows chosen place leaf = true ↔ ∃ path ∈ chosen, path <+: place := by
  have last : (lastAlong? chosen place).any (· <+: place) = true ↔ ∃ path ∈ chosen, path <+: place := by
    rw [lastAlong?]
    constructor
    · intro above
      obtain ⟨path, found, above⟩ := Option.any_eq_true _ _ |>.mp above
      exact ⟨path, (List.mem_filter.mp (List.mem_of_getLast? found)).1, of_decide_eq_true above⟩
    · rintro ⟨path, asked, above⟩
      have along : path ∈ chosen.filter fun path => ¬ path.Apart place :=
        List.mem_filter.mpr ⟨asked, decide_eq_true fun apart => apart.1 above⟩
      have found := List.getLast?_eq_some_getLast (List.ne_nil_of_mem along)
      obtain ⟨askedLast, notApart⟩ := List.mem_filter.mp (List.mem_of_getLast? found)
      rw [found, Option.any_some, decide_eq_true_eq]
      rcases Decidable.not_and_iff_not_or_not.mp (of_decide_eq_true notApart) with above | through
      · exact Decidable.not_not.mp above
      · -- the last path runs through the end of the other one, so it is the same
        have through := above.trans (Decidable.not_not.mp through)
        rwa [← Path.eq_of_prefix through (separate path asked _ askedLast)]
  rw [shows]
  split
  · exact last
  · simp

theorem isSome_reach?_apply_iff (nonempty : p.isEmpty = false) (wf : doc.WellFormed) (separate : Separate p.paths)
    (inside : place ≠ []) :
    ((Value.object (p.apply doc)).reach? place).isSome = true ↔
      ((Value.object doc).reach? place).isSome = true ∧
        ((∃ path ∈ p.paths, path <+: place) ∨
          ∃ path ∈ p.paths, path.isBelow place = true ∧ ((Value.object doc).reach? path).isSome = true) := by
  have deeper (below : Path) : place ++ below ≠ [] := by simp [inside]
  rw [Value.isSome_reach?_iff (p.wellFormed_apply wf)]
  simp only [leaf?_apply nonempty wf (deeper _), Option.filter_eq_some_iff, shows_iff_of_separate separate]
  constructor
  · rintro ⟨below, leaf, stands, path, asked, above⟩
    have reached : ((Value.object doc).reach? (place ++ below)).isSome = true :=
      (Value.isSome_reach?_iff wf _).mpr ⟨[], leaf, by rwa [List.append_nil]⟩
    refine ⟨Value.isSome_reach?_of_prefix (List.prefix_append ..) reached, ?_⟩
    rcases List.prefix_or_prefix_of_prefix above (List.prefix_append ..) with covers | through
    · exact .inl ⟨path, asked, covers⟩
    · cases beyond : path.isBelow place with
      | false => exact .inl ⟨path, asked, Path.eq_of_prefix through beyond ▸ List.prefix_rfl⟩
      | true => exact .inr ⟨path, asked, beyond, Value.isSome_reach?_of_prefix above reached⟩
  · rintro ⟨reached, ⟨path, asked, covers⟩ | ⟨path, asked, beyond, resolves⟩⟩
    · obtain ⟨below, leaf, stands⟩ := (Value.isSome_reach?_iff wf _).mp reached
      exact ⟨below, leaf, stands, path, asked, covers.trans (List.prefix_append ..)⟩
    · obtain ⟨rest, -, rfl⟩ := Path.isBelow_iff.mp beyond
      obtain ⟨below, leaf, stands⟩ := (Value.isSome_reach?_iff wf _).mp resolves
      rw [List.append_assoc] at stands
      refine ⟨rest ++ below, leaf, stands, _, asked, ?_⟩
      rw [← List.append_assoc]
      exact List.prefix_append ..

theorem reach?_apply_of_separate (nonempty : p.isEmpty = false) (wf : doc.WellFormed) (separate : Separate p.paths)
    (asked : path ∈ p.paths) : (Value.object (p.apply doc)).reach? path = (Value.object doc).reach? path := by
  have inside := p.paths_proper path asked
  cases found : (Value.object doc).reach? path with
  | none =>
      rw [← Option.not_isSome_iff_eq_none, isSome_reach?_apply_iff nonempty wf separate inside, found]
      exact fun reached => Bool.false_ne_true reached.1
  | some v =>
      rw [apply_eq_copyPaths nonempty]
      refine reach?_copyPaths_of_clear wf p.paths_proper found asked fun rest deeper => ?_
      have ends := Path.eq_of_prefix (List.prefix_append path rest) (separate path asked _ deeper)
      rw [List.self_eq_append_right.mp ends]
      exact Value.clear_nil v

theorem exists_mem_paths_iff (P : Path → Prop) :
    (∃ path ∈ p.paths, P path) ↔ P [idField] ∨ ∃ field ∈ p.fields, P (.ofText field) := by
  simp [paths]

theorem separate_paths (separate : ∀ field ∈ p.fields, ∀ other ∈ p.fields,
      (Path.ofText other).isBelow (.ofText field) = false)
    (outside : ∀ field ∈ p.fields, (Path.ofText field).isBelow [idField] = false) : Separate p.paths := by
  have listed {path : Path} (asked : path ∈ p.paths) : path = [idField] ∨ ∃ field ∈ p.fields, .ofText field = path := by
    simpa [paths] using asked
  intro path asked other asked'
  rcases listed asked with rfl | ⟨field, hf, rfl⟩
  · rcases listed asked' with rfl | ⟨field', hf', rfl⟩
    · decide
    · exact outside field' hf'
  · rcases listed asked' with rfl | ⟨field', hf', rfl⟩
    · exact Path.isBelow_single (Path.ofText_ne_nil field)
    · exact separate field hf field' hf'

/-- If the listed paths are separate, from one another and from the identity, the result consists of what is at these
paths and the objects on the way to them. -/
theorem apply_of_separate (nonempty : p.isEmpty = false) (wf : doc.WellFormed)
    (separate : ∀ field ∈ p.fields, ∀ other ∈ p.fields, (Path.ofText other).isBelow (.ofText field) = false)
    (outside : ∀ field ∈ p.fields, (Path.ofText field).isBelow [idField] = false) :
    (∀ place, place ≠ [] → (((Value.object (p.apply doc)).reach? place).isSome = true ↔
      ((Value.object doc).reach? place).isSome = true ∧
        ([idField] <+: place ∨ (∃ field ∈ p.fields, Path.ofText field <+: place) ∨
          ∃ field ∈ p.fields, (Path.ofText field).isBelow place = true ∧
            ((Value.object doc).reach? (.ofText field)).isSome = true))) ∧
    (p.apply doc).get? idField = doc.get? idField ∧
    (∀ field ∈ p.fields,
      (Value.object (p.apply doc)).reach? (.ofText field) = (Value.object doc).reach? (.ofText field)) ∧
    ∀ place, place ≠ [] → (Value.object (p.apply doc)).reach? place = some (.object []) →
      [idField] <+: place ∨ ∃ field ∈ p.fields, Path.ofText field <+: place := by
  have apart := separate_paths separate outside
  have same {path : Path} (asked : path ∈ p.paths) := reach?_apply_of_separate nonempty wf apart asked
  have listed {field : String} (hf : field ∈ p.fields) : Path.ofText field ∈ p.paths :=
    List.mem_cons_of_mem _ (List.mem_map_of_mem hf)
  refine ⟨fun place inside => ?_, ?_, fun field hf => same (listed hf), fun place inside stands => ?_⟩
  · have single : Path.isBelow [idField] place = false := Path.isBelow_single inside
    rw [isSome_reach?_apply_iff nonempty wf apart inside, exists_mem_paths_iff, exists_mem_paths_iff, single, or_assoc]
    simp
  · rw [← Value.reach?_single, ← Value.reach?_single]
    exact same List.mem_cons_self
  · have leaf := Value.leaf?_eq_empty_iff.mpr stands
    rw [leaf?_apply nonempty wf inside, Option.filter_eq_some_iff, shows_iff_of_separate apart] at leaf
    exact (exists_mem_paths_iff _).mp leaf.2

theorem apply_of_separate_removed :
    let p : Projection := .ofFields ["a.b.x", "a.c", "d.e"]
    let doc : Document :=
      [("a", .object [("b", .object [("y", .one)]), ("c", .object [])]), ("_id", .one), ("d", .null)]
    p.isEmpty = false ∧ doc.WellFormed ∧
      (∀ field ∈ p.fields, ∀ other ∈ p.fields, (Path.ofText other).isBelow (.ofText field) = false) ∧
      (∀ field ∈ p.fields, (Path.ofText field).isBelow [idField] = false) ∧
      ((Value.object (p.apply doc)).reach? ["a"]).isSome = true ∧
      ((Value.object (p.apply doc)).reach? ["a", "b"]).isSome ≠ true ∧
      ((Value.object (p.apply doc)).reach? ["d"]).isSome ≠ true ∧
      (Value.object (p.apply doc)).reach? ["a", "c"] = some (.object []) ∧ (p.apply doc).get? idField = some .one := by
  intro p doc
  have nonempty : p.isEmpty = false := by decide
  have wf : doc.WellFormed := by simp [doc, Document.keys, Value.one]
  have separate : ∀ field ∈ p.fields, ∀ other ∈ p.fields, (Path.ofText other).isBelow (.ofText field) = false := by
    decide
  have outside : ∀ field ∈ p.fields, (Path.ofText field).isBelow [idField] = false := by decide
  obtain ⟨exactly, identity, values, -⟩ := apply_of_separate nonempty wf separate outside
  refine ⟨nonempty, wf, separate, outside, (exactly ["a"] (by decide)).mpr ?_,
    mt (exactly ["a", "b"] (by decide)).mp ?_, mt (exactly ["d"] (by decide)).mp ?_, values "a.c" (by decide), identity⟩
  · decide
  · decide
  · decide

/-! ## Projecting again -/

variable {p : Projection} {doc : Document}

theorem reordered_apply_iff (listed : p.isEmpty = false) (wf : doc.WellFormed) :
    (Value.object (p.apply doc)).Reordered (.object doc) ↔
      ∀ place, place ≠ [] → ∀ leaf, (Value.object doc).leaf? place = some leaf → shows p.paths place leaf = true := by
  rw [Value.reordered_object_iff (p.wellFormed_apply wf) wf]
  refine forall₂_congr fun place inside => ?_
  rw [leaf?_apply listed wf inside]
  cases (Value.object doc).leaf? place with
  | none => simp
  | some leaf => simp

theorem shows_of_leaf?_apply {place : Path} {leaf : Value} (listed : p.isEmpty = false) (wf : doc.WellFormed)
    (inside : place ≠ []) (stands : (Value.object (p.apply doc)).leaf? place = some leaf) :
    shows p.paths place leaf = true := by
  rw [leaf?_apply listed wf inside, Option.filter_eq_some_iff] at stands
  exact stands.2

theorem reordered_apply_apply (p : Projection) (wf : doc.WellFormed) :
    (Value.object (p.apply (p.apply doc))).Reordered (.object (p.apply doc)) := by
  cases listed : p.isEmpty with
  | true =>
      rw [apply, if_pos listed]
      exact .refl _
  | false =>
      exact (reordered_apply_iff listed (p.wellFormed_apply wf)).mpr fun _ inside _ =>
        shows_of_leaf?_apply listed wf inside

/-- The first application removes the empty object again and has the last field take its place, the second one never
creates it. -/
theorem reordered_apply_apply_swapped :
    let p : Projection := .ofFields ["b", "_id.k", "c", "d", "b.q"]
    let doc : Document := [("b", .object []), ("_id", .object [("k", .one)]), ("d", .null), ("c", .one)]
    doc.WellFormed ∧ (p.apply doc).keys = ["_id", "d", "c"] ∧ (p.apply (p.apply doc)).keys = ["_id", "c", "d"] ∧
      (Value.object (p.apply (p.apply doc))).Reordered (.object (p.apply doc)) := by
  intro p doc
  have wf : doc.WellFormed := by simp [doc, Document.keys, Value.one]
  exact ⟨wf, by decide +kernel, by decide +kernel, p.reordered_apply_apply wf⟩

end Projection

end DocQuery
