import DocQuery.Text.Basic
import Mathlib.Data.List.TakeWhile

namespace DocQuery.Text

variable {cs word rest blanks : List Char}

def AllBlank (cs : List Char) : Prop := ∀ c ∈ cs, isBlank c = true

def Unbroken (cs : List Char) : Prop := cs ≠ [] ∧ ∀ c ∈ cs, isBlank c = false

/-- A word in front of this text ends where the text begins. -/
def AtBreak (cs : List Char) : Prop := ∀ c ∈ cs.head?, isBlank c = true

def EndsInBlank (cs : List Char) : Prop := ∃ c ∈ cs.getLast?, isBlank c = true

structure Solid (cs : List Char) : Prop where
  nonempty : cs ≠ []
  first : ∀ c ∈ cs.head?, isBlank c = false
  last : ¬ EndsInBlank cs

-- character by character; there is also an instance that goes through all characters that there are
instance (cs : List Char) : Decidable (AllBlank cs) := List.decidableBAll _ cs

instance (cs : List Char) : Decidable (Unbroken cs) := @instDecidableAnd _ _ inferInstance (List.decidableBAll _ cs)

theorem allBlank_nil : AllBlank [] := fun _ h => nomatch h

theorem AllBlank.append {more : List Char} (h : AllBlank cs) (h' : AllBlank more) : AllBlank (cs ++ more) :=
  fun c hc => (List.mem_append.mp hc).elim (h c) (h' c)

theorem AllBlank.atBreak (h : AllBlank cs) : AtBreak cs := fun c hc => h c (List.mem_of_mem_head? hc)

theorem AllBlank.atBreak_append (h : AllBlank blanks) (nonempty : blanks ≠ []) (cs : List Char) :
    AtBreak (blanks ++ cs) := by
  obtain ⟨c, others, rfl⟩ := List.exists_cons_of_ne_nil nonempty
  rintro _ ⟨⟩
  exact h c List.mem_cons_self

theorem AtBreak.append_blanks (h : AtBreak cs) (h' : AllBlank blanks) : AtBreak (cs ++ blanks) := by
  cases cs with
  | nil => exact h'.atBreak
  | cons => exact h

theorem AllBlank.endsInBlank (h : AllBlank cs) (nonempty : cs ≠ []) : EndsInBlank cs :=
  ⟨cs.getLast nonempty, List.getLast?_eq_some_getLast nonempty, h _ (List.getLast_mem nonempty)⟩

theorem Unbroken.solid (h : Unbroken cs) : Solid cs := by
  refine ⟨h.1, fun c first => h.2 c (List.mem_of_mem_head? first), fun ⟨c, last, blank⟩ => ?_⟩
  rw [h.2 c (List.mem_of_getLast? last)] at blank
  cases blank

theorem EndsInBlank.append (h : EndsInBlank cs) (before : List Char) : EndsInBlank (before ++ cs) := by
  obtain ⟨c, last, blank⟩ := h
  exact ⟨c, by rw [List.getLast?_append, Option.mem_def.mp last]; rfl, blank⟩

theorem EndsInBlank.of_append {more : List Char} (h : EndsInBlank (more ++ cs)) (nonempty : cs ≠ []) :
    EndsInBlank cs := by
  obtain ⟨c, last, blank⟩ := h
  rw [List.getLast?_append, List.getLast?_eq_some_getLast nonempty, Option.some_or] at last
  exact ⟨c, List.getLast?_eq_some_getLast nonempty ▸ last, blank⟩

theorem Solid.append {more : List Char} (h : Solid cs) (h' : Solid more) (between : List Char) :
    Solid (cs ++ (between ++ more)) := by
  obtain ⟨c, others, rfl⟩ := List.exists_cons_of_ne_nil h.nonempty
  refine ⟨List.cons_ne_nil _ _, h.first, fun last => h'.last ?_⟩
  rw [← List.append_assoc] at last
  exact last.of_append h'.nonempty

/-! ## Runs of characters -/

theorem takeWhile_append_stop {p : Char → Bool} (run : ∀ c ∈ cs, p c = true)
    (stop : ∀ c ∈ rest.head?, p c = false) :
    (cs ++ rest).takeWhile p = cs := by
  rw [List.takeWhile_append_of_pos run]
  cases rest with
  | nil => rw [List.takeWhile_nil, List.append_nil]
  | cons c rest => rw [List.takeWhile_cons_of_neg (by rw [stop c rfl]; exact Bool.false_ne_true), List.append_nil]

theorem dropWhile_append_stop {p : Char → Bool} (run : ∀ c ∈ cs, p c = true)
    (stop : ∀ c ∈ rest.head?, p c = false) :
    (cs ++ rest).dropWhile p = rest := by
  rw [List.dropWhile_append_of_pos run]
  cases rest with
  | nil => rfl
  | cons c rest => exact List.dropWhile_cons_of_neg (by rw [stop c rfl]; exact Bool.false_ne_true)

/-! ## Trimming -/

theorem trimLeft_eq_nil_iff : trimLeft cs = [] ↔ AllBlank cs := List.dropWhile_eq_nil_iff

theorem trimLeft_blanks_append (h : AllBlank blanks) (cs : List Char) : trimLeft (blanks ++ cs) = trimLeft cs :=
  List.dropWhile_append_of_pos h

theorem trimLeft_append (h : ¬ AllBlank cs) (more : List Char) : trimLeft (cs ++ more) = trimLeft cs ++ more := by
  rw [trimLeft, List.dropWhile_append, if_neg]
  · rfl
  · rwa [List.isEmpty_iff, List.dropWhile_eq_nil_iff]

theorem trimRight_append_blanks (h : AllBlank blanks) (cs : List Char) : trimRight (cs ++ blanks) = trimRight cs := by
  rw [trimRight, List.reverse_append, List.dropWhile_append_of_pos fun c hc => h c (List.mem_reverse.mp hc)]
  rfl

theorem trimRight_eq_nil_iff : trimRight cs = [] ↔ AllBlank cs := by
  rw [trimRight, List.reverse_eq_nil_iff, List.dropWhile_eq_nil_iff]
  exact ⟨fun h c hc => h c (List.mem_reverse.mpr hc), fun h c hc => h c (List.mem_reverse.mp hc)⟩

theorem trimRight_cons {c : Char} (h : ¬ AllBlank (c :: cs)) : trimRight (c :: cs) = c :: trimRight cs := by
  rw [trimRight, List.reverse_cons, List.dropWhile_append]
  split <;> rename_i blank
  · rw [List.isEmpty_iff, ← List.reverse_eq_nil_iff, ← trimRight, trimRight_eq_nil_iff] at blank
    have solid : isBlank c = false := Bool.eq_false_iff.mpr fun first => h (List.forall_mem_cons.mpr ⟨first, blank⟩)
    rw [trimRight_eq_nil_iff.mpr blank, List.dropWhile_cons_of_neg (by rw [solid]; exact Bool.false_ne_true)]
    rfl
  · rw [List.reverse_append]
    rfl

theorem trim_blanks_append (h : AllBlank blanks) (cs : List Char) : trim (blanks ++ cs) = trim cs := by
  rw [trim, trim, trimLeft_blanks_append h]

theorem trim_append_blanks (h : AllBlank blanks) (cs : List Char) : trim (cs ++ blanks) = trim cs := by
  by_cases blank : AllBlank cs
  · rw [trim, trim, trimLeft_eq_nil_iff.mpr blank, trimLeft_eq_nil_iff.mpr (blank.append h)]
  · rw [trim, trim, trimLeft_append blank, trimRight_append_blanks h]

theorem trim_of_allBlank (h : AllBlank cs) : trim cs = [] := by
  rw [trim, trimLeft_eq_nil_iff.mpr h]
  rfl

theorem Solid.trim_eq (h : Solid cs) : trim cs = cs := by
  obtain ⟨nonempty, first, last⟩ := h
  have left : trimLeft cs = cs := by
    obtain ⟨c, others, rfl⟩ := List.exists_cons_of_ne_nil nonempty
    exact List.dropWhile_cons_of_neg (by rw [first c rfl]; exact Bool.false_ne_true)
  rw [trim, left, trimRight, List.reverse_eq_iff]
  cases backwards : cs.reverse with
  | nil => rfl
  | cons c rest =>
      refine List.dropWhile_cons_of_neg fun blank => last ⟨c, ?_, blank⟩
      rw [← List.head?_reverse, backwards]
      rfl

theorem not_endsInBlank_trim (cs : List Char) : ¬ EndsInBlank (trim cs) := by
  rintro ⟨c, last, blank⟩
  have stop := List.head?_dropWhile_not isBlank (trimLeft cs).reverse
  rw [← List.getLast?_reverse, ← trimRight, ← trim, Option.mem_def.mp last] at stop
  rw [stop] at blank
  cases blank

theorem exists_padding (cs : List Char) :
    ∃ before after, AllBlank before ∧ AllBlank after ∧ cs = before ++ (trim cs ++ after) := by
  refine ⟨cs.takeWhile isBlank, ((trimLeft cs).reverse.takeWhile isBlank).reverse,
    fun c hc => List.mem_takeWhile_imp hc, fun c hc => List.mem_takeWhile_imp (List.mem_reverse.mp hc), ?_⟩
  rw [trim, trimRight, ← List.reverse_append, List.takeWhile_append_dropWhile, List.reverse_reverse]
  exact List.takeWhile_append_dropWhile.symm

theorem trim_eq_nil_iff : trim cs = [] ↔ AllBlank cs := by
  refine ⟨fun none => ?_, trim_of_allBlank⟩
  obtain ⟨before, after, blank, blank', split⟩ := exists_padding cs
  rw [split, none]
  exact blank.append blank'

theorem solid_trim (nonempty : trim cs ≠ []) : Solid (trim cs) := by
  refine ⟨nonempty, fun c first => ?_, not_endsInBlank_trim cs⟩
  cases skipped : trimLeft cs with
  | nil => exact absurd (by rw [trim, skipped]; rfl) nonempty
  | cons d rest =>
      have stop := List.head?_dropWhile_not isBlank cs
      have more : ¬ AllBlank (d :: rest) := fun blank => nonempty <| by
        rw [trim, skipped, trimRight_eq_nil_iff]
        exact blank
      rw [← trimLeft, skipped] at stop
      rw [trim, skipped, trimRight_cons more] at first
      cases first
      exact stop

/-! ## The first word -/

structure FirstWord (cs word rest : List Char) : Prop where
  unbroken : Unbroken word
  ends : AtBreak rest
  split : ∃ blanks, AllBlank blanks ∧ cs = blanks ++ (word ++ rest)

theorem allBlank_or_firstWord (cs : List Char) : AllBlank cs ∨ ∃ word rest, FirstWord cs word rest := by
  cases skipped : trimLeft cs with
  | nil => exact .inl (trimLeft_eq_nil_iff.mp skipped)
  | cons c others =>
      have solid := List.head?_dropWhile_not isBlank cs
      rw [← trimLeft, skipped] at solid
      refine .inr ⟨(c :: others).takeWhile (!isBlank ·), (c :: others).dropWhile (!isBlank ·), ⟨?_, ?_⟩, ?_,
        cs.takeWhile isBlank, fun c hc => List.mem_takeWhile_imp hc, ?_⟩
      · rw [List.takeWhile_cons_of_pos (by simpa using solid)]
        exact List.cons_ne_nil _ _
      · exact fun c hc => by simpa using List.mem_takeWhile_imp hc
      · intro d first
        have stop := List.head?_dropWhile_not (!isBlank ·) (c :: others)
        rw [Option.mem_def.mp first] at stop
        simpa using stop
      · rw [List.takeWhile_append_dropWhile, ← skipped]
        exact List.takeWhile_append_dropWhile.symm

namespace FirstWord

theorem of_append (h : AllBlank blanks) (h' : Unbroken word) (ends : AtBreak rest) :
    FirstWord (blanks ++ (word ++ rest)) word rest := ⟨h', ends, blanks, h, rfl⟩

theorem append_blanks (h : FirstWord cs word rest) (more : AllBlank blanks) :
    FirstWord (cs ++ blanks) word (rest ++ blanks) := by
  obtain ⟨unbroken, ends, before, blank, rfl⟩ := h
  exact ⟨unbroken, ends.append_blanks more, before, blank, by simp only [List.append_assoc]⟩

theorem trimLeft_eq (h : FirstWord cs word rest) : trimLeft cs = word ++ rest := by
  obtain ⟨⟨nonempty, solid⟩, -, before, blank, rfl⟩ := h
  obtain ⟨c, others, rfl⟩ := List.exists_cons_of_ne_nil nonempty
  rw [trimLeft_blanks_append blank]
  exact List.dropWhile_cons_of_neg (by rw [solid c List.mem_cons_self]; exact Bool.false_ne_true)

theorem takeWhile_eq (h : FirstWord cs word rest) : (trimLeft cs).takeWhile (!isBlank ·) = word := by
  rw [h.trimLeft_eq]
  exact takeWhile_append_stop (fun c hc => by rw [h.unbroken.2 c hc]; rfl) fun c hc => by rw [h.ends c hc]; rfl

theorem dropWhile_eq (h : FirstWord cs word rest) : (trimLeft cs).dropWhile (!isBlank ·) = rest := by
  rw [h.trimLeft_eq]
  exact dropWhile_append_stop (fun c hc => by rw [h.unbroken.2 c hc]; rfl) fun c hc => by rw [h.ends c hc]; rfl

theorem not_allBlank (h : FirstWord cs word rest) : ¬ AllBlank cs := by
  intro blank
  have none := trimLeft_eq_nil_iff.mpr blank
  rw [h.trimLeft_eq, List.append_eq_nil_iff] at none
  exact h.unbroken.1 none.1

theorem endsInBlank (h : FirstWord cs word rest) (last : EndsInBlank rest) : EndsInBlank cs := by
  obtain ⟨-, -, before, -, rfl⟩ := h
  exact (last.append word).append before

theorem trim_eq (h : FirstWord cs word []) : trim cs = word := by
  obtain ⟨unbroken, -, before, blank, rfl⟩ := h
  rw [trim_blanks_append blank, List.append_nil, unbroken.solid.trim_eq]

end FirstWord

/-! ## All words -/

def wordsOf (cs : List Char) : List (List Char) := (cs.splitOnP isBlank).filter (· ≠ [])

theorem wordsOf_append_cons {c : Char} (blank : isBlank c = true) (cs more : List Char) :
    wordsOf (cs ++ c :: more) = wordsOf cs ++ wordsOf more := by
  rw [wordsOf, List.splitOnP_append_cons cs more blank, List.filter_append]
  rfl

theorem wordsOf_blanks_append (h : AllBlank blanks) (cs : List Char) : wordsOf (blanks ++ cs) = wordsOf cs := by
  induction blanks with
  | nil => rfl
  | cons c blanks ih =>
      obtain ⟨blank, others⟩ := List.forall_mem_cons.mp h
      rw [← ih others]
      exact wordsOf_append_cons blank [] _

theorem wordsOf_of_allBlank (h : AllBlank cs) : wordsOf cs = [] := by
  have none := wordsOf_blanks_append h []
  rwa [List.append_nil] at none

theorem wordsOf_of_unbroken (h : Unbroken word) : wordsOf word = [word] := by
  rw [wordsOf, List.splitOnP_eq_singleton h.2]
  simp [h.1]

theorem FirstWord.wordsOf_eq (h : FirstWord cs word rest) : wordsOf cs = word :: wordsOf rest := by
  obtain ⟨unbroken, ends, before, blank, rfl⟩ := h
  rw [wordsOf_blanks_append blank]
  cases rest with
  | nil => rw [List.append_nil, wordsOf_of_unbroken unbroken, wordsOf_of_allBlank allBlank_nil]
  | cons c rest =>
      have behind : wordsOf (c :: rest) = wordsOf rest := wordsOf_append_cons (ends c rfl) [] rest
      rw [wordsOf_append_cons (ends c rfl), wordsOf_of_unbroken unbroken, behind]
      rfl

theorem wordsOf_append_blanks (h : AllBlank blanks) (cs : List Char) : wordsOf (cs ++ blanks) = wordsOf cs := by
  cases blanks with
  | nil => rw [List.append_nil]
  | cons c blanks =>
      obtain ⟨blank, others⟩ := List.forall_mem_cons.mp h
      rw [wordsOf_append_cons blank, wordsOf_of_allBlank others, List.append_nil]

theorem wordsOf_eq_nil_iff : wordsOf cs = [] ↔ AllBlank cs := by
  refine ⟨fun none => ?_, wordsOf_of_allBlank⟩
  rcases allBlank_or_firstWord cs with blank | ⟨word, rest, first⟩
  · exact blank
  · rw [first.wordsOf_eq] at none
    cases none

theorem exists_firstWord {more : List (List Char)} (h : wordsOf cs = word :: more) :
    ∃ rest, FirstWord cs word rest ∧ wordsOf rest = more := by
  rcases allBlank_or_firstWord cs with blank | ⟨word', rest, first⟩
  · rw [wordsOf_of_allBlank blank] at h
    cases h
  · rw [first.wordsOf_eq] at h
    obtain ⟨rfl, rfl⟩ := List.cons_eq_cons.mp h
    exact ⟨rest, first, rfl⟩

end DocQuery.Text
