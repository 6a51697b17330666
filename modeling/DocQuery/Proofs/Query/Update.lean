import DocQuery.Proofs.Value.Equality
import DocQuery.Proofs.Value.Path

namespace DocQuery

namespace Document

/-! ## One path -/

/-- The same as `setPath`, except that it fails where a value that is not an object is in the way. -/
def setPath? (v : Value) : Path → Document → Option (Document × Bool)
  | [], _ => none
  | [name], doc =>
      some (if (doc.get? name).any (·.equiv v) then (doc, false) else (doc.insert name v, true))
  | name :: rest, doc =>
      match (doc.get? name).getD (.object []) with
      | .object inner =>
          (setPath? v rest inner).map fun (updated, changed) =>
            (doc.insert name (.object updated), changed)
      | _ => none

variable {v : Value} {name : String} {rest : Path} {doc inner : Document}

theorem setPath_through (more : rest ≠ []) (h : (doc.get? name).getD (.object []) = .object inner) :
    setPath v (name :: rest) doc =
      (doc.insert name (.object (setPath v rest inner).1), (setPath v rest inner).2) := by
  cases rest with
  | nil => contradiction
  | cons next rest => simp only [setPath, h]

theorem setPath?_through (more : rest ≠ []) (h : (doc.get? name).getD (.object []) = .object inner) :
    setPath? v (name :: rest) doc = (setPath? v rest inner).map fun (updated, changed) =>
      (doc.insert name (.object updated), changed) := by
  cases rest with
  | nil => contradiction
  | cons next rest => simp only [setPath?, h]

theorem setPath_cons_cases (v : Value) (name : String) (rest : Path) (doc : Document) :
    (doc.setPath v (name :: rest)).1 = doc ∨
      (rest = [] ∧ (doc.setPath v (name :: rest)).1 = doc.insert name v) ∨
      (rest ≠ [] ∧ ∃ inner, (doc.get? name).getD (.object []) = .object inner ∧
        (doc.setPath v (name :: rest)).1 = doc.insert name (.object (setPath v rest inner).1)) := by
  by_cases last : rest = []
  · subst last
    rw [setPath]
    split
    · exact .inl rfl
    · exact .inr (.inl ⟨rfl, rfl⟩)
  · cases found : (doc.get? name).getD (.object []) with
    | object inner =>
        rw [setPath_through last found]
        exact .inr (.inr ⟨last, inner, rfl, rfl⟩)
    | _ =>
        obtain ⟨next, rest, rfl⟩ := List.exists_cons_of_ne_nil last
        simp only [setPath, found]
        exact .inl trivial

theorem blockedAt?_cons_eq_none_iff (more : rest ≠ []) :
    doc.blockedAt? (name :: rest) = none ↔
      ∃ inner, (doc.get? name).getD (.object []) = .object inner ∧ blockedAt? rest inner = none := by
  obtain ⟨next, rest, rfl⟩ := List.exists_cons_of_ne_nil more
  simp only [blockedAt?]
  cases doc.get? name with
  | none => exact ⟨fun _ => ⟨[], rfl, by cases rest <;> rfl⟩, fun _ => rfl⟩
  | some w => cases w <;> simp

theorem get?_setPath_of_head? {path : Path} (differ : path.head? ≠ some name) :
    (doc.setPath v path).1.get? name = doc.get? name := by
  cases path with
  | nil => rfl
  | cons first rest =>
      have other : first ≠ name := fun same => differ (congrArg some same)
      rcases setPath_cons_cases v first rest doc with stays | ⟨-, set⟩ | ⟨-, inner, -, set⟩
      · rw [stays]
      · rw [set, get?_insert_of_ne _ _ other]
      · rw [set, get?_insert_of_ne _ _ other]

theorem follow?_setPath {path : Path} (proper : path ≠ []) (wf : v.WellFormed)
    (free : doc.blockedAt? path = none) :
    ∃ w, (Value.object (doc.setPath v path).1).follow? path = some w ∧ w.equiv v = true := by
  induction path generalizing doc with
  | nil => contradiction
  | cons name rest ih =>
      by_cases last : rest = []
      · subst last
        simp only [setPath, Value.follow?]
        split <;> rename_i same
        · obtain ⟨w, found, equal⟩ := (Option.any_eq_true _ _).mp same
          exact ⟨w, by rw [found]; rfl, equal⟩
        · exact ⟨v, by rw [get?_insert_self]; rfl, Value.equiv_refl wf⟩
      · obtain ⟨inner, found, within⟩ := (blockedAt?_cons_eq_none_iff last).mp free
        rw [setPath_through last found, Value.follow?, get?_insert_self]
        exact ih last within

theorem bind_follow? (found : (doc.get? name).getD (.object []) = .object inner) (more : rest ≠ []) :
    (doc.get? name).bind (Value.follow? rest) = (Value.object inner).follow? rest := by
  cases rest with
  | nil => contradiction
  | cons next rest =>
      rcases get?_of_getD found with present | ⟨absent, rfl⟩
      · rw [present, Option.bind_some]
      · rw [absent]
        rfl

theorem follow?_setPath_of_apart {path other : Path} (apart : path.Apart other) :
    (Value.object (doc.setPath v path).1).follow? other = (Value.object doc).follow? other := by
  induction path generalizing doc other with
  | nil => exact absurd rfl apart.ne_nil
  | cons name rest ih =>
      obtain ⟨name', rest', rfl⟩ := List.exists_cons_of_ne_nil apart.symm.ne_nil
      rw [Value.follow?, Value.follow?]
      by_cases same : name = name'
      · subst same
        have within := apart.of_cons
        rcases setPath_cons_cases v name rest doc with stays | ⟨last, -⟩ | ⟨-, inner, found, set⟩
        · rw [stays]
        · exact absurd last within.ne_nil
        · rw [set, get?_insert_self, Option.bind_some, ih within,
            bind_follow? found within.symm.ne_nil]
      · have differ : (name :: rest).head? ≠ some name' := fun h => same (Option.some.inj h)
        rw [get?_setPath_of_head? differ]

theorem blockedAt?_setPath {path other : Path} (above : ¬ path <+: other)
    (free : doc.blockedAt? other = none) : (doc.setPath v path).1.blockedAt? other = none := by
  induction path generalizing doc other with
  | nil => exact free
  | cons name rest ih =>
      cases other with
      | nil => rfl
      | cons name' rest' =>
          by_cases last : rest' = []
          · subst last
            rfl
          rw [blockedAt?_cons_eq_none_iff last] at free ⊢
          obtain ⟨inner, found, within⟩ := free
          by_cases same : name = name'
          · subst same
            rw [List.cons_prefix_cons, not_and] at above
            have more : rest ≠ [] := by
              rintro rfl
              exact above rfl List.nil_prefix
            rw [setPath_through more found, get?_insert_self]
            exact ⟨_, rfl, ih (above rfl) within⟩
          · have differ : (name :: rest).head? ≠ some name' := fun h => same (Option.some.inj h)
            rw [get?_setPath_of_head? differ]
            exact ⟨inner, found, within⟩

theorem blockedAt?_setPath_self {path : Path} (free : doc.blockedAt? path = none) :
    (doc.setPath v path).1.blockedAt? path = none := by
  induction path generalizing doc with
  | nil => exact free
  | cons name rest ih =>
      by_cases last : rest = []
      · subst last
        rfl
      · obtain ⟨inner, found, within⟩ := (blockedAt?_cons_eq_none_iff last).mp free
        rw [setPath_through last found, blockedAt?_cons_eq_none_iff last, get?_insert_self]
        exact ⟨_, rfl, ih within⟩

theorem blockedAt?_setPath_of_not_isBelow {path other : Path} (proper : other.isBelow path = false)
    (free : doc.blockedAt? other = none) : (doc.setPath v path).1.blockedAt? other = none := by
  by_cases same : path = other
  · subst same
    exact blockedAt?_setPath_self free
  · refine blockedAt?_setPath ?_ free
    rintro ⟨rest, split⟩
    have more : rest ≠ [] := by
      rintro rfl
      exact same (by simpa using split)
    rw [Path.isBelow_iff.mpr ⟨rest, more, split⟩] at proper
    cases proper

theorem setPath_of_follow? {path : Path} {w : Value} (free : doc.blockedAt? path = none)
    (found : (Value.object doc).follow? path = some w) (equal : w.equiv v = true) :
    doc.setPath v path = (doc, false) := by
  induction path generalizing doc with
  | nil => rfl
  | cons name rest ih =>
      rw [Value.follow?] at found
      by_cases last : rest = []
      · subst last
        have present : doc.get? name = some w := by simpa [Value.follow?] using found
        rw [setPath, present, if_pos (by simpa using equal)]
      · obtain ⟨inner, reached, within⟩ := (blockedAt?_cons_eq_none_iff last).mp free
        have foundInside : (Value.object inner).follow? rest = some w := by
          rwa [bind_follow? reached last] at found
        rcases get?_of_getD reached with present | ⟨absent, -⟩
        · rw [setPath_through last reached, ih within foundInside, insert_of_get? present]
        · rw [absent] at found
          cases found

theorem setPath_snd_eq_false_iff {path : Path} (proper : path ≠ []) (free : doc.blockedAt? path = none) :
    (doc.setPath v path).2 = false ↔ ∃ w, (Value.object doc).follow? path = some w ∧ w.equiv v = true := by
  induction path generalizing doc with
  | nil => contradiction
  | cons name rest ih =>
      by_cases last : rest = []
      · subst last
        have found : (Value.object doc).follow? [name] = doc.get? name := by simp [Value.follow?]
        rw [setPath, found, ← Option.any_eq_true]
        split <;> simp_all
      · obtain ⟨inner, reached, within⟩ := (blockedAt?_cons_eq_none_iff last).mp free
        rw [setPath_through last reached, Value.follow?, bind_follow? reached last]
        exact ih last within

theorem setPath?_eq_setPath {path : Path} (proper : path ≠ []) (free : doc.blockedAt? path = none) :
    setPath? v path doc = some (doc.setPath v path) := by
  induction path generalizing doc with
  | nil => contradiction
  | cons name rest ih =>
      by_cases last : rest = []
      · subst last
        rfl
      · obtain ⟨inner, found, within⟩ := (blockedAt?_cons_eq_none_iff last).mp free
        rw [setPath?_through last found, setPath_through last found, ih last within]
        rfl

theorem WellFormed.setPath {path : Path} (wf : doc.WellFormed) (hv : v.WellFormed) :
    (doc.setPath v path).1.WellFormed := by
  induction path generalizing doc with
  | nil => exact wf
  | cons name rest ih =>
      rcases setPath_cons_cases v name rest doc with stays | ⟨-, set⟩ | ⟨-, inner, found, set⟩
      · rwa [stays]
      · rw [set]
        exact wf.insert hv
      · rw [set]
        exact wf.insert (ih (wf.getD found))

end Document

namespace Update

/-! ## Sound paths -/

variable {u : Update} {doc : Document}

/-- The faults of a path, told by the texts of the paths. -/
theorem pathFault?_eq (paths : List String) (path : String) :
    pathFault? paths path =
      if path = idField ∨ idField.toList ++ ['.'] <+: path.toList then some (.immutableId path)
      else (paths.find? fun outer => (outer.toList ++ ['.']).isPrefixOf path.toList).map
        (.conflictingPaths · path) := by
  have single : Path.ofText idField = [idField] := by decide
  have below (outer : String) : (Path.ofText path).isBelow (Path.ofText outer) =
      (outer.toList ++ ['.']).isPrefixOf path.toList := by
    rw [Bool.eq_iff_iff, Path.isBelow_ofText_iff, List.isPrefixOf_iff_prefix]
  simp only [pathFault?, Path.head?_ofText_iff single, below]

theorem fault?_eq_none_iff :
    u.fault? = none ↔ ∀ path ∈ u.paths, (Path.ofText path).head? ≠ some idField ∧
      ∀ outer ∈ u.paths, (Path.ofText path).isBelow (Path.ofText outer) = false := by
  rw [fault?, List.findSome?_eq_none_iff]
  refine forall_congr' fun path => forall_congr' fun _ => ?_
  rw [pathFault?]
  split <;> rename_i first <;> simp [first]

theorem apart_of_fault? (distinct : u.paths.Nodup) (sound : u.fault? = none) :
    u.fields.Pairwise fun field other => (Path.ofText field.1).Apart (Path.ofText other.1) := by
  have separate {path other : String} (hp : path ∈ u.paths) (ho : other ∈ u.paths)
      (differ : path ≠ other) : ¬ Path.ofText path <+: Path.ofText other := by
    rintro ⟨rest, split⟩
    have more : rest ≠ [] := by
      rintro rfl
      exact differ (Path.ofText_inj.mp (by simpa using split))
    have below := Path.isBelow_iff.mpr ⟨rest, more, split⟩
    rw [(fault?_eq_none_iff.mp sound other ho).2 path hp] at below
    cases below
  refine (List.pairwise_map.mp distinct).imp_of_mem fun {field other} hf ho differ => ?_
  have hf := Document.mem_keys_of_mem hf
  have ho := Document.mem_keys_of_mem ho
  exact ⟨separate hf ho differ, separate ho hf (Ne.symm differ)⟩

theorem blocked?_eq_none_iff :
    u.blocked? doc = none ↔ ∀ path ∈ u.paths, doc.blockedAt? (Path.ofText path) = none := by
  simp only [blocked?, List.findSome?_eq_none_iff, Option.map_eq_none_iff]

theorem free_of_blocked? (admitted : u.blocked? doc = none) :
    ∀ field ∈ u.fields, doc.blockedAt? (Path.ofText field.1) = none := fun field hf =>
  blocked?_eq_none_iff.mp admitted field.1 (Document.mem_keys_of_mem hf)

/-! ## Setting all fields -/

def setAll (fields : List (String × Value)) (doc : Document) : Document :=
  fields.foldl (fun doc field => (doc.setPath field.2 (Path.ofText field.1)).1) doc

theorem setAll_cons (field : String × Value) (fields : List (String × Value)) (doc : Document) :
    setAll (field :: fields) doc = setAll fields (doc.setPath field.2 (Path.ofText field.1)).1 := rfl

theorem apply_fst (u : Update) (doc : Document) : (u.apply doc).1 = setAll u.fields doc := by
  rw [Update.apply]
  -- the note on changes is carried along and has no bearing on the document
  generalize false = changed
  generalize u.fields = fields
  induction fields generalizing doc changed with
  | nil => rfl
  | cons field fields ih => exact ih _ _

section

variable {fields : List (String × Value)} {name : String}

theorem get?_setAll (differ : ∀ field ∈ fields, (Path.ofText field.1).head? ≠ some name) :
    (setAll fields doc).get? name = doc.get? name := by
  induction fields generalizing doc with
  | nil => rfl
  | cons field fields ih =>
      obtain ⟨first, others⟩ := List.forall_mem_cons.mp differ
      rw [setAll_cons, ih others, Document.get?_setPath_of_head? first]

theorem follow?_setAll_of_apart {other : Path}
    (apart : ∀ field ∈ fields, (Path.ofText field.1).Apart other) :
    (Value.object (setAll fields doc)).follow? other = (Value.object doc).follow? other := by
  induction fields generalizing doc with
  | nil => rfl
  | cons field fields ih =>
      obtain ⟨first, others⟩ := List.forall_mem_cons.mp apart
      rw [setAll_cons, ih others, Document.follow?_setPath_of_apart first]

theorem free_setPath {field : String × Value}
    (apart : ∀ other ∈ fields, (Path.ofText field.1).Apart (Path.ofText other.1))
    (free : ∀ other ∈ fields, doc.blockedAt? (Path.ofText other.1) = none) :
    ∀ other ∈ fields,
      (doc.setPath field.2 (Path.ofText field.1)).1.blockedAt? (Path.ofText other.1) = none :=
  fun other ho => Document.blockedAt?_setPath (apart other ho).1 (free other ho)

theorem follow?_setAll
    (apart : fields.Pairwise fun field other => (Path.ofText field.1).Apart (Path.ofText other.1))
    (wf : ∀ field ∈ fields, field.2.WellFormed)
    (free : ∀ field ∈ fields, doc.blockedAt? (Path.ofText field.1) = none) :
    ∀ field ∈ fields, ∃ w, (Value.object (setAll fields doc)).follow? (Path.ofText field.1) = some w ∧
      w.equiv field.2 = true := by
  induction fields generalizing doc with
  | nil => exact fun _ hf => absurd hf List.not_mem_nil
  | cons first fields ih =>
      obtain ⟨apartFirst, apartRest⟩ := List.pairwise_cons.mp apart
      obtain ⟨wfFirst, wfRest⟩ := List.forall_mem_cons.mp wf
      obtain ⟨freeFirst, freeRest⟩ := List.forall_mem_cons.mp free
      intro field hf
      rw [setAll_cons]
      rcases List.mem_cons.mp hf with rfl | hf
      · rw [follow?_setAll_of_apart fun other ho => (apartFirst other ho).symm]
        exact Document.follow?_setPath (Path.ofText_ne_nil _) wfFirst freeFirst
      · exact ih apartRest wfRest (free_setPath apartFirst freeRest) field hf

theorem blockedAt?_setAll {path : Path} (free : doc.blockedAt? path = none)
    (proper : ∀ field ∈ fields, path.isBelow (Path.ofText field.1) = false) :
    (setAll fields doc).blockedAt? path = none := by
  induction fields generalizing doc with
  | nil => exact free
  | cons field fields ih =>
      obtain ⟨first, others⟩ := List.forall_mem_cons.mp proper
      rw [setAll_cons]
      exact ih (Document.blockedAt?_setPath_of_not_isBelow first free) others

theorem wellFormed_setAll (wf : doc.WellFormed) (each : ∀ field ∈ fields, field.2.WellFormed) :
    (setAll fields doc).WellFormed := by
  induction fields generalizing doc with
  | nil => exact wf
  | cons field fields ih =>
      obtain ⟨first, others⟩ := List.forall_mem_cons.mp each
      exact ih (wf.setPath first) others

end

theorem apply_of_follow? (free : ∀ field ∈ u.fields, doc.blockedAt? (Path.ofText field.1) = none)
    (found : ∀ field ∈ u.fields, ∃ w, (Value.object doc).follow? (Path.ofText field.1) = some w ∧
      w.equiv field.2 = true) :
    u.apply doc = (doc, false) := by
  obtain ⟨fields⟩ := u
  simp only [Update.apply] at *
  induction fields with
  | nil => rfl
  | cons first fields ih =>
      obtain ⟨freeFirst, freeRest⟩ := List.forall_mem_cons.mp free
      obtain ⟨⟨w, foundFirst, equal⟩, foundRest⟩ := List.forall_mem_cons.mp found
      rw [List.foldl_cons, Document.setPath_of_follow? freeFirst foundFirst equal]
      exact ih freeRest foundRest

theorem apply_snd_eq_false_iff
    (apart : u.fields.Pairwise fun field other => (Path.ofText field.1).Apart (Path.ofText other.1))
    (free : ∀ field ∈ u.fields, doc.blockedAt? (Path.ofText field.1) = none) :
    (u.apply doc).2 = false ↔
      ∀ field ∈ u.fields, ∃ w, (Value.object doc).follow? (Path.ofText field.1) = some w ∧ w.equiv field.2 = true := by
  obtain ⟨fields⟩ := u
  dsimp only [Update.apply] at *
  suffices general : ∀ changed, (fields.foldl _ (doc, changed)).2 = false ↔ changed = false ∧
      ∀ field ∈ fields, ∃ w, (Value.object doc).follow? (Path.ofText field.1) = some w ∧ w.equiv field.2 = true by
    simpa using general false
  induction fields generalizing doc with
  | nil => simp
  | cons first fields ih =>
      obtain ⟨apartFirst, apartRest⟩ := List.pairwise_cons.mp apart
      obtain ⟨freeFirst, freeRest⟩ := List.forall_mem_cons.mp free
      have here := Document.setPath_snd_eq_false_iff (v := first.2) (Path.ofText_ne_nil first.1) freeFirst
      have elsewhere (other) (ho : other ∈ fields) :
          (Value.object (doc.setPath first.2 (Path.ofText first.1)).1).follow? (Path.ofText other.1) =
            (Value.object doc).follow? (Path.ofText other.1) :=
        Document.follow?_setPath_of_apart (apartFirst other ho)
      intro changed
      rw [List.foldl_cons, ih apartRest (free_setPath apartFirst freeRest), List.forall_mem_cons, Bool.or_eq_false_iff,
        here, and_assoc]
      refine and_congr_right fun _ => and_congr_right fun _ => forall₂_congr fun other ho => ?_
      rw [elsewhere other ho]

theorem blocked?_apply (sound : u.fault? = none) (admitted : u.blocked? doc = none) :
    u.blocked? (u.apply doc).1 = none := by
  rw [blocked?_eq_none_iff, apply_fst]
  intro path hp
  refine blockedAt?_setAll (blocked?_eq_none_iff.mp admitted path hp) fun field hf => ?_
  exact (fault?_eq_none_iff.mp sound path hp).2 field.1 (Document.mem_keys_of_mem hf)

theorem apply_apply (wf : u.fields.WellFormed) (sound : u.fault? = none) (admitted : u.blocked? doc = none) :
    u.apply (u.apply doc).1 = ((u.apply doc).1, false) := by
  obtain ⟨distinct, each⟩ := Document.wellFormed_iff.mp wf
  refine apply_of_follow? (free_of_blocked? (blocked?_apply sound admitted)) ?_
  rw [apply_fst]
  exact follow?_setAll (apart_of_fault? distinct sound) each (free_of_blocked? admitted)

def applyStrictly? (u : Update) (doc : Document) : Option (Document × Bool) :=
  u.fields.foldlM
    (fun (doc, changed) (path, v) =>
      (doc.setPath? v (Path.ofText path)).map fun (updated, changedHere) =>
        (updated, changed || changedHere))
    (doc, false)

theorem applyStrictly?_eq_apply
    (apart : u.fields.Pairwise fun field other => (Path.ofText field.1).Apart (Path.ofText other.1))
    (free : ∀ field ∈ u.fields, doc.blockedAt? (Path.ofText field.1) = none) :
    u.applyStrictly? doc = some (u.apply doc) := by
  obtain ⟨fields⟩ := u
  simp only [applyStrictly?, Update.apply] at *
  generalize false = changed
  induction fields generalizing doc changed with
  | nil => rfl
  | cons first fields ih =>
      obtain ⟨apartFirst, apartRest⟩ := List.pairwise_cons.mp apart
      obtain ⟨freeFirst, freeRest⟩ := List.forall_mem_cons.mp free
      rw [List.foldlM_cons, List.foldl_cons,
        Document.setPath?_eq_setPath (Path.ofText_ne_nil _) freeFirst]
      exact ih apartRest (free_setPath apartFirst freeRest) _

end Update

end DocQuery
