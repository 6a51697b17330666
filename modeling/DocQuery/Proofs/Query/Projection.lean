import Mathlib.Data.List.Induction
import DocQuery.Query.Options
import DocQuery.Proofs.Value.Leaves
import DocQuery.Proofs.Value.Path

/-!
# What a projection shows of a document

A leaf that is not an object is shown if a path leads to it or to an object around it.  An empty object, however, is
also what is left when nothing could be copied into an object, and is taken for that: a path that leads below it removes
it, though an earlier path may have asked for it, and the empty object is shown only if a later path leads to it again.
-/

namespace DocQuery

variable {source target inner innerPart : Document} {name : String} {path place rest : Path}

namespace Document

def settle (doc : Document) (name : String) (copy : Document) : Document :=
  let updated := doc.insert name (.object copy)
  if copy.isEmpty then updated.removeBySwap name else updated

variable {doc copy : Document}

theorem get?_settle (distinct : doc.keys.Nodup) (name : String) (copy : Document) (other : String) :
    (doc.settle name copy).get? other =
      if name = other then if copy.isEmpty then none else some (.object copy) else doc.get? other := by
  rw [settle]
  split
  · rw [get?_removeBySwap (nodup_keys_insert distinct _ _), get?_insert]
    split <;> rfl
  · exact get?_insert ..

theorem leaf?_settle (distinct : doc.keys.Nodup) (name : String) (copy : Document) (below : Path) :
    (Value.object (doc.settle name copy)).leaf? (name :: below) =
      if below = [] then none else (Value.object copy).leaf? below := by
  rw [Value.leaf?_cons, get?_settle distinct, if_pos rfl]
  cases copy with
  | nil => cases below <;> rfl
  | cons => cases below <;> rfl

theorem settle_of_get? (found : doc.get? name = some (.object copy)) (more : copy.isEmpty = false) :
    doc.settle name copy = doc := by
  simp [settle, more, insert_of_get? found]

theorem reach?_settle {below : Path} {v : Value} (distinct : doc.keys.Nodup) (name : String) (more : below ≠ [])
    (found : (Value.object copy).reach? below = some v) :
    (Value.object (doc.settle name copy)).reach? (name :: below) = some v := by
  obtain ⟨next, below, rfl⟩ := List.exists_cons_of_ne_nil more
  cases copy with
  | nil => cases found
  | cons field copy => rwa [Value.reach?, get?_settle distinct, if_pos rfl]

theorem WellFormed.settle (wf : doc.WellFormed) (wfCopy : copy.WellFormed) :
    (doc.settle name copy).WellFormed := by
  have updated : (doc.insert name (.object copy)).WellFormed := wf.insert wfCopy
  rw [Document.settle]
  split
  · exact updated.removeBySwap name
  · exact updated

end Document

def Value.Clear (path : Path) (v : Value) : Prop :=
  ∀ place, v.reach? place = some (.object []) → path.isBelow place = false

theorem Value.clear_nil (v : Value) : v.Clear [] := fun place _ => Path.isBelow_of_nil place

theorem Value.Clear.of_get? {v : Value} (clear : Clear (name :: rest) (.object source))
    (found : source.get? name = some v) : v.Clear rest := by
  intro place stands
  rw [← Path.isBelow_cons_cons name]
  exact clear (name :: place) (by rwa [reach?, found])

theorem Value.Clear.isEmpty_eq_false (clear : Clear path (.object source)) (proper : path ≠ []) :
    source.isEmpty = false := by
  cases source with
  | nil => exact absurd (clear [] rfl) (by simp [Path.isBelow_nil_iff, proper])
  | cons => rfl

namespace Projection

/-! ## One path -/

theorem copyPath_single (name : String) (source target : Document) :
    copyPath [name] source target = ((source.get? name).map (target.insert name)).getD target := by
  rw [copyPath]
  cases source.get? name <;> rfl

theorem copyPath_of_absent (absent : source.get? name = none) :
    copyPath (name :: rest) source target = target := by
  cases rest <;> simp [copyPath, absent]

theorem copyPath_of_blocked (more : rest ≠ []) (blocked : ∀ inner, source.get? name ≠ some (.object inner)) :
    copyPath (name :: rest) source target = target := by
  obtain ⟨next, rest, rfl⟩ := List.exists_cons_of_ne_nil more
  rw [copyPath]
  split
  · exact absurd ‹_› (blocked _)
  · rfl
  · simp

theorem copyPath_through (more : rest ≠ []) (found : source.get? name = some (.object inner))
    (foundPart : (target.get? name).getD (.object []) = .object innerPart) :
    copyPath (name :: rest) source target = target.settle name (copyPath rest inner innerPart) := by
  obtain ⟨next, rest, rfl⟩ := List.exists_cons_of_ne_nil more
  simp only [copyPath, found, foundPart, Document.settle]

theorem copyPath_cons_cases (name : String) (rest : Path) (source target : Document) :
    copyPath (name :: rest) source target = target ∨
      (∃ v, source.get? name = some v ∧ copyPath (name :: rest) source target = target.insert name v) ∨
      (∃ inner innerPart, source.get? name = some (.object inner) ∧
        (target.get? name).getD (.object []) = .object innerPart ∧
        copyPath (name :: rest) source target = target.settle name (copyPath rest inner innerPart)) := by
  cases found : source.get? name with
  | none => exact .inl (copyPath_of_absent found)
  | some v =>
      by_cases last : rest = []
      · subst last
        exact .inr (.inl ⟨v, rfl, by rw [copyPath_single, found]; rfl⟩)
      obtain ⟨next, rest, rfl⟩ := List.exists_cons_of_ne_nil last
      cases v with
      | object inner =>
          cases foundPart : (target.get? name).getD (.object []) with
          | object innerPart =>
              exact .inr (.inr ⟨inner, innerPart, rfl, rfl, copyPath_through last found foundPart⟩)
          | _ => exact .inl (by simp only [copyPath, found, foundPart])
      | _ => exact .inl (by simp only [copyPath, found])

theorem get?_copyPath_of_head? (distinct : target.keys.Nodup) (differ : path.head? ≠ some name) :
    (copyPath path source target).get? name = target.get? name := by
  cases path with
  | nil => rfl
  | cons first rest =>
      have other : first ≠ name := fun same => differ (congrArg some same)
      rcases copyPath_cons_cases first rest source target with
        stays | ⟨v, -, set⟩ | ⟨inner, innerPart, -, -, settled⟩
      · rw [stays]
      · rw [set, Document.get?_insert_of_ne _ _ other]
      · rw [settled, Document.get?_settle distinct, if_neg other]

theorem wellFormed_copyPath (wf : source.WellFormed) (wfTarget : target.WellFormed) :
    (copyPath path source target).WellFormed := by
  induction path generalizing source target with
  | nil => exact wfTarget
  | cons name rest ih =>
      rcases copyPath_cons_cases name rest source target with
        stays | ⟨v, found, set⟩ | ⟨inner, innerPart, found, foundPart, settled⟩
      · rwa [stays]
      · rw [set]
        exact wfTarget.insert (wf.of_get? found)
      · rw [settled]
        exact wfTarget.settle (ih (wf.of_get? found) (wfTarget.getD foundPart))

/-! ## Leaves after one path -/

/-- What is a leaf after a path has been copied from a document to a part of it. -/
def leafAfter? (path place : Path) (source target : Document) : Option Value :=
  if path <+: place then (Value.object source).leaf? place
  else if place <+: path then ((Value.object target).leaf? place).filter (¬ ·.isObject)
  else (Value.object target).leaf? place

theorem leafAfter?_of_ne {first : String} {below : Path} (other : first ≠ name) :
    leafAfter? (first :: rest) (name :: below) source target = (Value.object target).leaf? (name :: below) := by
  simp [leafAfter?, other, Ne.symm other]

theorem leaf?_copyPath_single (part : target.PartOf source) (below : Path) :
    (Value.object (copyPath [name] source target)).leaf? (name :: below) =
      leafAfter? [name] (name :: below) source target := by
  have reached : [name] <+: name :: below := ⟨below, rfl⟩
  rw [leafAfter?, if_pos reached]
  cases found : source.get? name with
  | none =>
      have blocked : (Value.object source).leaf? (name :: below) = none := by
        rw [Value.leaf?_cons, found, Option.bind_none]
      rw [copyPath_of_absent found, blocked]
      refine Option.eq_none_iff_forall_ne_some.mpr fun v stands => ?_
      cases blocked.symm.trans (part name below v stands)
  | some v =>
      rw [copyPath_single, found, Option.map_some, Option.getD_some, Value.leaf?_cons, Value.leaf?_cons,
        Document.get?_insert_self, found]

theorem leaf?_eq_leafAfter?_of_blocked (part : target.PartOf source) (more : rest ≠ [])
    (blocked : ∀ inner, source.get? name ≠ some (.object inner)) (below : Path) :
    (Value.object target).leaf? (name :: below) = leafAfter? (name :: rest) (name :: below) source target := by
  rw [leafAfter?]
  split <;> rename_i reached
  · have deeper : below ≠ [] := by
      rintro rfl
      exact more (List.prefix_nil.mp (List.cons_prefix_cons.mp reached).2)
    rw [part.leaf?_eq_none blocked deeper, (Document.PartOf.refl source).leaf?_eq_none blocked deeper]
  · split
    · refine Option.ext fun v => ?_
      rw [Option.filter_eq_some_iff]
      refine ⟨fun stands => ⟨stands, ?_⟩, And.left⟩
      simp [(part.leaf?_of_blocked blocked stands).2]
    · rfl

theorem leafAfter?_through (more : rest ≠ []) (found : source.get? name = some (.object inner))
    (foundPart : (target.get? name).getD (.object []) = .object innerPart) (below : Path) :
    leafAfter? (name :: rest) (name :: below) source target =
      if below = [] then none else leafAfter? rest below inner innerPart := by
  simp only [leafAfter?, List.cons_prefix_cons, true_and]
  by_cases deeper : below = []
  · subst deeper
    rw [if_neg (by simpa using more), if_pos List.nil_prefix, Value.leaf?_single_through foundPart, if_pos rfl]
  · rw [Value.leaf?_through foundPart deeper, Value.leaf?_cons source, found, Option.bind_some, if_neg deeper]

theorem leaf?_copyPath (wf : target.WellFormed) (part : target.PartOf source) (proper : path ≠ [])
    (inside : place ≠ []) :
    (Value.object (copyPath path source target)).leaf? place = leafAfter? path place source target := by
  induction path generalizing source target place with
  | nil => contradiction
  | cons name rest ih =>
      obtain ⟨other, below, rfl⟩ := List.exists_cons_of_ne_nil inside
      by_cases same : name = other
      · subst same
        by_cases last : rest = []
        · subst last
          exact leaf?_copyPath_single part below
        by_cases through : ∃ inner, source.get? name = some (.object inner)
        · obtain ⟨inner, found⟩ := through
          -- what has been copied of an object is a part of that object
          obtain ⟨innerPart, foundPart, within⟩ := part.within found
          rw [leafAfter?_through last found foundPart, copyPath_through last found foundPart,
            Document.leaf?_settle wf.distinct]
          split <;> rename_i deeper
          · rfl
          · exact ih (wf.getD foundPart) within last deeper
        · have blocked := not_exists.mp through
          rw [copyPath_of_blocked last blocked]
          exact leaf?_eq_leafAfter?_of_blocked part last blocked below
      · have differ : (name :: rest).head? ≠ some other := fun h => same (Option.some.inj h)
        rw [leafAfter?_of_ne same, Value.leaf?_cons, Value.leaf?_cons, get?_copyPath_of_head? wf.distinct differ]

theorem partOf_copyPath (wf : target.WellFormed) (part : target.PartOf source) (proper : path ≠ []) :
    (copyPath path source target).PartOf source := by
  intro name rest v stands
  rw [leaf?_copyPath wf part proper (List.cons_ne_nil _ _), leafAfter?] at stands
  split at stands
  · exact stands
  · split at stands
    · exact part name rest v (Option.filter_eq_some_iff.mp stands).1
    · exact part name rest v stands

/-! ## Several paths -/

/-- The last of the chosen paths that runs through a place, or ends at it or above it. -/
def lastAlong? (chosen : List Path) (place : Path) : Option Path :=
  (chosen.filter fun path => ¬ path.Apart place).getLast?

/-- A value without leaves below it needs a path at it or above it, and no later one running through it. -/
def shows (chosen : List Path) (place : Path) (leaf : Value) : Bool :=
  if leaf.isObject then (lastAlong? chosen place).any (· <+: place) else chosen.any (· <+: place)

def copyPaths (chosen : List Path) (source : Document) : Document :=
  chosen.foldl (fun target path => copyPath path source target) []

theorem lastAlong?_append_singleton (chosen : List Path) (path place : Path) :
    lastAlong? (chosen ++ [path]) place = if path.Apart place then lastAlong? chosen place else some path := by
  rw [lastAlong?, List.filter_append]
  split <;> rename_i apart <;> simp [apart, lastAlong?]

theorem shows_append_singleton (chosen : List Path) (path place : Path) (leaf : Value) :
    shows (chosen ++ [path]) place leaf =
      if path <+: place then true
      else if place <+: path then shows chosen place leaf && !leaf.isObject
      else shows chosen place leaf := by
  rw [shows, lastAlong?_append_singleton, List.any_append]
  by_cases above : path <+: place
  · simp [above, Path.Apart]
  · by_cases through : place <+: path
    · cases object : leaf.isObject <;> simp [above, through, Path.Apart, shows, object]
    · have apart : path.Apart place := ⟨above, through⟩
      simp [above, through, apart, shows]

variable {doc : Document} {chosen : List Path}

theorem copyPaths_append_singleton (chosen : List Path) (path : Path) (doc : Document) :
    copyPaths (chosen ++ [path]) doc = copyPath path doc (copyPaths chosen doc) :=
  List.foldl_append

theorem copyPaths_invariant (wf : doc.WellFormed) (proper : ∀ path ∈ chosen, path ≠ []) :
    (copyPaths chosen doc).WellFormed ∧ (copyPaths chosen doc).PartOf doc := by
  induction chosen using List.reverseRecOn with
  | nil => exact ⟨Document.wellFormed_nil, Document.PartOf.nil doc⟩
  | append_singleton chosen path ih =>
      obtain ⟨wfCopied, part⟩ := ih fun path hp => proper path (List.mem_append_left _ hp)
      rw [copyPaths_append_singleton]
      exact ⟨wellFormed_copyPath wf wfCopied, partOf_copyPath wfCopied part (proper path (by simp))⟩

theorem leaf?_copyPaths (wf : doc.WellFormed) (proper : ∀ path ∈ chosen, path ≠ []) (inside : place ≠ []) :
    (Value.object (copyPaths chosen doc)).leaf? place =
      ((Value.object doc).leaf? place).filter (shows chosen place) := by
  induction chosen using List.reverseRecOn with
  | nil =>
      obtain ⟨name, rest, rfl⟩ := List.exists_cons_of_ne_nil inside
      symm
      rw [Option.filter_eq_none_iff.mpr fun leaf _ => by simp [shows, lastAlong?]]
      rfl
  | append_singleton chosen path ih =>
      have earlier : ∀ path ∈ chosen, path ≠ [] := fun path hp => proper path (List.mem_append_left _ hp)
      obtain ⟨wfCopied, part⟩ := copyPaths_invariant wf earlier
      rw [copyPaths_append_singleton, leaf?_copyPath wfCopied part (proper path (by simp)) inside,
        leafAfter?, ih earlier, funext (shows_append_singleton chosen path place)]
      by_cases above : path <+: place
      · cases (Value.object doc).leaf? place <;> simp [above, Option.filter_some]
      · by_cases through : place <+: path
        · simp [above, through, Option.filter_filter]
        · simp [above, through]

/-! ## The whole projection -/

def paths (p : Projection) : List Path := [idField] :: p.fields.map Path.ofText

theorem paths_proper (p : Projection) : ∀ path ∈ p.paths, path ≠ [] := by
  simp [paths, Path.ofText_ne_nil]

theorem apply_eq_copyPaths {p : Projection} (listed : p.isEmpty = false) (doc : Document) :
    p.apply doc = copyPaths p.paths doc := by
  simp only [apply, listed, copyPaths, paths, List.foldl_cons, List.foldl_map, copyPath_single]
  cases doc.get? idField <;> rfl

theorem wellFormed_apply (p : Projection) (wf : doc.WellFormed) : (p.apply doc).WellFormed := by
  cases listed : p.isEmpty with
  | true => simpa [apply, listed] using wf
  | false =>
      rw [apply_eq_copyPaths listed]
      exact (copyPaths_invariant wf p.paths_proper).1

theorem leaf?_apply {p : Projection} (listed : p.isEmpty = false) (wf : doc.WellFormed) (inside : place ≠ []) :
    (Value.object (p.apply doc)).leaf? place =
      ((Value.object doc).leaf? place).filter (shows p.paths place) := by
  rw [apply_eq_copyPaths listed, leaf?_copyPaths wf p.paths_proper inside]

theorem reordered_reach?_apply_iff {p : Projection} {v : Value} (listed : p.isEmpty = false)
    (wf : doc.WellFormed) (inside : place ≠ []) (found : (Value.object doc).reach? place = some v) :
    (∃ kept, (Value.object (p.apply doc)).reach? place = some kept ∧ kept.Reordered v) ↔
      ∀ below leaf, v.leaf? below = some leaf → shows p.paths (place ++ below) leaf = true := by
  have wfv : v.WellFormed := Value.WellFormed.of_reach? wf found
  have shown (below : Path) : ((Value.object (p.apply doc)).reach? place).bind (Value.leaf? below) =
      (v.leaf? below).filter (shows p.paths (place ++ below)) := by
    have deeper : place ++ below ≠ [] := by simp [inside]
    have := leaf?_apply listed wf deeper
    rwa [Value.leaf?_append, Value.leaf?_append, found, Option.bind_some] at this
  constructor
  · rintro ⟨kept, present, same⟩ below leaf stands
    have := shown below
    rw [present, Option.bind_some, same.leaf?_eq, stands] at this
    exact (Option.filter_eq_some_iff.mp this.symm).2
  · intro all
    have unchanged (below : Path) :
        ((Value.object (p.apply doc)).reach? place).bind (Value.leaf? below) = v.leaf? below := by
      rw [shown]
      refine Option.ext fun leaf => ?_
      rw [Option.filter_eq_some_iff]
      exact ⟨And.left, fun stands => ⟨stands, all below leaf stands⟩⟩
    cases present : (Value.object (p.apply doc)).reach? place with
    | none =>
        obtain ⟨below, stands⟩ := Value.exists_leaf wfv
        rw [← unchanged below, present] at stands
        cases stands
    | some kept =>
        refine ⟨kept, rfl, ?_⟩
        have wfKept : kept.WellFormed := Value.WellFormed.of_reach? (p.wellFormed_apply wf) present
        refine (Value.reordered_iff_leaf?_eq wfKept wfv).mpr fun below => ?_
        rw [← unchanged below, present, Option.bind_some]

/-! ## What has been copied stays -/

theorem copyPath_of_clear {v : Value} (found : source.get? name = some v) (same : target.get? name = some v)
    (clear : v.Clear rest) : copyPath (name :: rest) source target = target := by
  induction rest generalizing name source target v with
  | nil => rw [copyPath_single, found, Option.map_some, Option.getD_some, Document.insert_of_get? same]
  | cons next rest ih =>
      have more : next :: rest ≠ [] := List.cons_ne_nil _ _
      by_cases through : ∃ inner, v = .object inner
      · obtain ⟨inner, rfl⟩ := through
        have within : copyPath (next :: rest) inner inner = inner := by
          cases deeper : Document.get? inner next with
          | none => exact copyPath_of_absent deeper
          | some w => exact ih deeper deeper (clear.of_get? deeper)
        have reread : (target.get? name).getD (.object []) = .object inner := by rw [same, Option.getD_some]
        rw [copyPath_through more found reread, within]
        exact Document.settle_of_get? same (clear.isEmpty_eq_false more)
      · refine copyPath_of_blocked more fun inner present => through ⟨inner, ?_⟩
        exact Option.some.inj (found.symm.trans present)

variable {v : Value}

theorem reach?_copyPath_self (wf : target.WellFormed) (part : target.PartOf source) (proper : path ≠ [])
    (found : (Value.object source).reach? path = some v) :
    (Value.object (copyPath path source target)).reach? path = some v := by
  induction path generalizing source target with
  | nil => contradiction
  | cons name rest ih =>
      obtain ⟨w, present, below⟩ := Option.bind_eq_some_iff.mp found
      by_cases last : rest = []
      · subst last
        obtain rfl := Option.some.inj below
        rw [copyPath_single, present, Option.map_some, Option.getD_some, Value.reach?_single,
          Document.get?_insert_self]
      · obtain ⟨inner, rfl⟩ := Value.eq_object_of_reach? below last
        obtain ⟨innerPart, presentPart, within⟩ := part.within present
        rw [copyPath_through last present presentPart]
        exact Document.reach?_settle wf.distinct name last (ih (wf.getD presentPart) within last below)

theorem reach?_copyPath_of_clear (wf : target.WellFormed) (inside : place ≠ [])
    (found : (Value.object source).reach? place = some v) (kept : (Value.object target).reach? place = some v)
    (clear : ∀ rest, path = place ++ rest → v.Clear rest) :
    (Value.object (copyPath path source target)).reach? place = some v := by
  induction place generalizing path source target with
  | nil => contradiction
  | cons name below ih =>
      by_cases same : path.head? = some name
      · obtain ⟨rest, rfl⟩ := List.head?_eq_some_iff.mp same
        obtain ⟨w, present, foundBelow⟩ := Option.bind_eq_some_iff.mp found
        obtain ⟨wPart, presentPart, keptBelow⟩ := Option.bind_eq_some_iff.mp kept
        by_cases ends : below = []
        · subst ends
          obtain rfl := Option.some.inj foundBelow
          obtain rfl := Option.some.inj keptBelow
          rwa [copyPath_of_clear present presentPart (clear rest rfl)]
        · obtain ⟨inner, rfl⟩ := Value.eq_object_of_reach? foundBelow ends
          obtain ⟨innerPart, rfl⟩ := Value.eq_object_of_reach? keptBelow ends
          by_cases last : rest = []
          · subst last
            rw [copyPath_single, present, Option.map_some, Option.getD_some, Value.reach?, Document.get?_insert_self]
            exact foundBelow
          · have reread : (target.get? name).getD (.object []) = .object innerPart := by
              rw [presentPart, Option.getD_some]
            rw [copyPath_through last present reread]
            refine Document.reach?_settle wf.distinct name ends (ih (wf.getD reread) ends foundBelow keptBelow ?_)
            rintro deeper rfl
            exact clear deeper rfl
      · rwa [Value.reach?, get?_copyPath_of_head? wf.distinct same]

theorem reach?_copyPaths_of_clear (wf : doc.WellFormed) (proper : ∀ path ∈ chosen, path ≠ [])
    (found : (Value.object doc).reach? place = some v) (asked : place ∈ chosen)
    (clear : ∀ rest, place ++ rest ∈ chosen → v.Clear rest) :
    (Value.object (copyPaths chosen doc)).reach? place = some v := by
  induction chosen using List.reverseRecOn with
  | nil => cases asked
  | append_singleton chosen path ih =>
      have earlier : ∀ path ∈ chosen, path ≠ [] := fun path hp => proper path (List.mem_append_left _ hp)
      obtain ⟨wfCopied, part⟩ := copyPaths_invariant wf earlier
      rw [copyPaths_append_singleton]
      by_cases same : place = path
      · subst same
        exact reach?_copyPath_self wfCopied part (proper place asked) found
      · have before : place ∈ chosen := by simpa [same] using asked
        have kept := ih earlier before fun rest hr => clear rest (List.mem_append_left _ hr)
        refine reach?_copyPath_of_clear wfCopied (earlier place before) found kept ?_
        rintro rest rfl
        exact clear rest (by simp)

/-! ## The identity -/

variable {id : Value}

theorem get?_idField_copyPaths (wf : doc.WellFormed) (present : doc.get? idField = some id)
    (proper : ∀ path ∈ chosen, path ≠ []) (clear : ∀ rest, idField :: rest ∈ chosen → id.Clear rest) :
    (copyPaths ([idField] :: chosen) doc).get? idField = some id := by
  rw [← Value.reach?_single] at present ⊢
  refine reach?_copyPaths_of_clear wf (by simpa using proper) present List.mem_cons_self fun rest hr => ?_
  rcases List.mem_cons.mp hr with only | hr
  · obtain rfl : rest = [] := by simpa using only
    exact Value.clear_nil id
  · exact clear rest hr

theorem shows_of_idField (p : Projection) (place : Path) {leaf : Value} (scalar : leaf.isObject = false) :
    shows p.paths (idField :: place) leaf = true := by
  simp [shows, paths, scalar]

/-- The identity is kept exactly when the projection shows every empty object in it. -/
theorem apply_keeps_identity_iff (p : Projection) (wf : doc.WellFormed) (present : doc.get? idField = some id) :
    ((∃ kept, (p.apply doc).get? idField = some kept ∧ kept.Reordered id) ↔
      ∀ place, id.reach? place = some (.object []) → shows p.paths (idField :: place) (.object []) = true) ∧
    ((∀ place, id.reach? place = some (.object []) →
        ∀ field ∈ p.fields, (Path.ofText field).isBelow (idField :: place) = false) →
      (p.apply doc).get? idField = some id) := by
  constructor
  · cases listed : p.isEmpty with
    | true =>
        have unlisted : p.paths = [[idField]] := by rw [paths, List.isEmpty_iff.mp listed, List.map_nil]
        rw [apply, if_pos listed, unlisted]
        refine ⟨fun _ place _ => ?_, fun _ => ⟨id, present, .refl id⟩⟩
        simp [shows, lastAlong?, Path.Apart]
    | false =>
        have stands : (Value.object doc).reach? [idField] = some id := by rwa [Value.reach?_single]
        have := reordered_reach?_apply_iff listed wf (List.cons_ne_nil _ _) stands
        rw [Value.reach?_single] at this
        refine this.trans ⟨fun shown place stands => ?_, fun shown place leaf stands => ?_⟩
        · exact shown place _ (Value.leaf?_eq_empty_iff.mpr stands)
        · cases nested : leaf.isObject with
          | false => exact p.shows_of_idField place nested
          | true =>
              obtain rfl := Value.eq_empty_of_leaf? stands nested
              exact shown place (Value.leaf?_eq_empty_iff.mp stands)
  · intro clear
    cases listed : p.isEmpty with
    | true => rwa [apply, if_pos listed]
    | false =>
        rw [apply_eq_copyPaths listed, paths]
        refine get?_idField_copyPaths wf present (by simp [Path.ofText_ne_nil]) fun rest hr place stands => ?_
        obtain ⟨field, hf, same⟩ := List.mem_map.mp hr
        rw [← Path.isBelow_cons_cons idField, ← same]
        exact clear place stands field hf

/-- The first projection empties the object in the identity before it copies it again, the second passes by. -/
theorem apply_keeps_identity_relisted :
    let id : Value := .object [("a", .object []), ("b", .one)]
    let doc : Document := [("c", .null), ("_id", id)]
    doc.WellFormed ∧ doc.get? idField = some id ∧
      (∃ kept, ((ofFields ["_id.a.k", "_id.a"]).apply doc).get? idField = some kept ∧ kept.Reordered id) ∧
      ((ofFields ["_id.b"]).apply doc).get? idField = some id := by
  intro id doc
  have wf : doc.WellFormed := by simp [doc, id, Document.keys, Value.one]
  have present : doc.get? idField = some id := rfl
  have onlyAt (place) (stands : id.reach? place = some (.object [])) : place = ["a"] := by
    rcases place with _ | ⟨name, _ | ⟨next, rest⟩⟩
    · simp [id, Value.reach?] at stands
    · rw [Value.reach?_single, Document.get?_cons, Document.get?_cons] at stands
      split at stands <;> rename_i first
      · rw [← first]
      · split at stands <;> cases stands
    · simp only [id, Value.reach?, Document.get?_cons] at stands
      split at stands
      · cases stands
      · split at stands <;> cases stands
  refine ⟨wf, present, (apply_keeps_identity_iff _ wf present).1.mpr ?_, (apply_keeps_identity_iff _ wf present).2 ?_⟩
  · intro place stands
    rw [onlyAt place stands]
    decide
  · intro place stands
    rw [onlyAt place stands]
    decide

theorem apply_drops_empty_identity :
    Document.get? [("_id", .object []), ("a", .one)] idField = some (.object []) ∧
      ((ofFields ["_id.x"]).apply [("_id", .object []), ("a", .one)]).get? idField = none :=
  ⟨rfl, by decide⟩

end Projection

end DocQuery
