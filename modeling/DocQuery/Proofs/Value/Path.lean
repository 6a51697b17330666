import DocQuery.Query.Update

namespace DocQuery

theorem Text.splitOn_eq (separator : Char) (cs : List Char) :
    splitOn separator cs = cs.splitOn separator := by
  induction cs with
  | nil => rfl
  | cons c rest ih =>
      rw [splitOn, ih, List.splitOn_eq_splitOnP, List.splitOn_eq_splitOnP,
        List.splitOnP_cons_eq_if_modifyHead]
      simp only [beq_iff_eq]
      split
      · rfl
      · obtain ⟨part, parts, split⟩ :=
          List.exists_cons_of_ne_nil (List.splitOnP_ne_nil (· == separator) rest)
        rw [split]
        rfl

namespace Path

theorem ofText_ne_nil (path : String) : ofText path ≠ [] := by
  rw [ofText, Text.splitOn_eq, ne_eq, List.map_eq_nil_iff]
  exact List.splitOn_ne_nil _ _

theorem intercalate_ofText (path : String) :
    ['.'].intercalate ((ofText path).map String.toList) = path.toList := by
  have parts : (ofText path).map String.toList = path.toList.splitOn '.' := by
    simp [ofText, Text.splitOn_eq, Function.comp_def]
  rw [parts, List.intercalate_splitOn]

theorem ofText_inj {path other : String} : ofText path = ofText other ↔ path = other := by
  refine ⟨fun same => ?_, congrArg ofText⟩
  rw [← String.toList_inj, ← intercalate_ofText path, same, intercalate_ofText]

theorem ofText_append (outer rest : List Char) :
    ofText (String.ofList (outer ++ '.' :: rest)) =
      ofText (String.ofList outer) ++ ofText (String.ofList rest) := by
  simp [ofText, Text.splitOn_eq, List.splitOn_eq_splitOnP, List.splitOnP_append_cons]

/-! ## Paths through paths -/

private theorem intercalate_append {separator : List Char} {first last : List (List Char)}
    (hf : first ≠ []) (hl : last ≠ []) :
    separator.intercalate (first ++ last) =
      separator.intercalate first ++ separator ++ separator.intercalate last := by
  induction first with
  | nil => contradiction
  | cons part rest ih =>
      rw [List.cons_append, List.intercalate_cons_of_ne_nil (by simp [hl])]
      by_cases only : rest = []
      · subst only
        simp
      · rw [ih only, List.intercalate_cons_of_ne_nil only]
        simp only [List.append_assoc]

theorem isBelow_iff {path outer : Path} :
    path.isBelow outer = true ↔ ∃ rest, rest ≠ [] ∧ outer ++ rest = path := by
  rw [isBelow, Bool.and_eq_true, List.isPrefixOf_iff_prefix, decide_eq_true_eq]
  constructor
  · rintro ⟨⟨rest, rfl⟩, longer⟩
    refine ⟨rest, ?_, rfl⟩
    rintro rfl
    simp at longer
  · rintro ⟨rest, more, rfl⟩
    have := List.length_pos_iff.mpr more
    exact ⟨List.prefix_append _ _, by simpa using this⟩

theorem eq_of_prefix {path outer : Path} (above : outer <+: path) (apart : path.isBelow outer = false) :
    outer = path := by
  obtain ⟨rest, rfl⟩ := above
  by_cases more : rest = []
  · rw [more, List.append_nil]
  · rw [isBelow_iff.mpr ⟨rest, more, rfl⟩] at apart
    cases apart

theorem isBelow_nil_iff {path : Path} : path.isBelow [] = true ↔ path ≠ [] := by
  rw [isBelow_iff]
  exact ⟨fun ⟨_, more, split⟩ => split ▸ more, fun more => ⟨path, more, rfl⟩⟩

@[simp] theorem isBelow_cons_cons (name : String) (path outer : Path) :
    isBelow (name :: path) (name :: outer) = path.isBelow outer := by
  simp [isBelow]

@[simp] theorem isBelow_append_append (outer path place : Path) :
    isBelow (outer ++ path) (outer ++ place) = path.isBelow place := by
  induction outer with
  | nil => rfl
  | cons name outer ih => exact (isBelow_cons_cons ..).trans ih

@[simp] theorem isBelow_of_nil (outer : Path) : isBelow [] outer = false := by
  simp [isBelow]

theorem isBelow_single {name : String} {place : Path} (inside : place ≠ []) : isBelow [name] place = false := by
  rw [Bool.eq_false_iff, ne_eq, isBelow_iff]
  rintro ⟨rest, more, whole⟩
  rcases List.append_eq_singleton_iff.mp whole with ⟨none, -⟩ | ⟨-, none⟩
  · exact inside none
  · exact more none

theorem isBelow_ofText_iff {path outer : String} :
    (ofText path).isBelow (ofText outer) = true ↔ outer.toList ++ ['.'] <+: path.toList := by
  rw [isBelow_iff]
  constructor
  · rintro ⟨rest, more, split⟩
    refine ⟨['.'].intercalate (rest.map String.toList), ?_⟩
    rw [← intercalate_ofText path, ← split, List.map_append, ← intercalate_ofText outer,
      intercalate_append (by simp [ofText_ne_nil]) (by simpa using more)]
  · rintro ⟨rest, split⟩
    refine ⟨ofText (String.ofList rest), ofText_ne_nil _, ?_⟩
    have whole := ofText_append outer.toList rest
    simp only [List.append_assoc, List.singleton_append] at split
    rw [split] at whole
    simpa using whole.symm

theorem head?_ofText_iff {path name : String} (single : ofText name = [name]) :
    (ofText path).head? = some name ↔ path = name ∨ name.toList ++ ['.'] <+: path.toList := by
  rw [← isBelow_ofText_iff, isBelow_iff, single, ← ofText_inj, single, List.head?_eq_some_iff]
  constructor
  · rintro ⟨rest, split⟩
    by_cases only : rest = []
    · exact .inl (only ▸ split)
    · exact .inr ⟨rest, only, split.symm⟩
  · rintro (split | ⟨rest, -, split⟩)
    · exact ⟨[], split⟩
    · exact ⟨rest, split.symm⟩

/-! ## Paths apart -/

def Apart (p q : Path) : Prop := ¬ p <+: q ∧ ¬ q <+: p

namespace Apart

variable {p q : Path} {name : String}

instance (p q : Path) : Decidable (p.Apart q) := inferInstanceAs (Decidable (_ ∧ _))

theorem symm (h : p.Apart q) : q.Apart p := ⟨h.2, h.1⟩

theorem ne_nil (h : p.Apart q) : p ≠ [] := by
  rintro rfl
  exact h.1 List.nil_prefix

theorem of_cons (h : Path.Apart (name :: p) (name :: q)) : p.Apart q :=
  ⟨fun below => h.1 (List.cons_prefix_cons.mpr ⟨rfl, below⟩),
    fun below => h.2 (List.cons_prefix_cons.mpr ⟨rfl, below⟩)⟩

end Apart

end Path

end DocQuery
