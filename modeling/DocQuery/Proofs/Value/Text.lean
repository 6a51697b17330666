import DocQuery.Value.Text
import DocQuery.Proofs.Number.Numeral
import DocQuery.Proofs.Value.WellFormed

namespace DocQuery

open Text

/-! ## Lists with commas -/

def listed (texts : List (List Char)) : List Char := List.intercalate [','] texts

variable {texts : List (List Char)} {text : List Char}

@[simp] theorem listed_singleton (text : List Char) : listed [text] = text := List.intercalate_singleton

@[simp] theorem listed_cons_cons (text next : List Char) (texts : List (List Char)) :
    listed (text :: next :: texts) = text ++ ',' :: listed (next :: texts) := by
  rw [listed, List.intercalate_cons_cons, List.append_assoc]
  rfl

theorem listed_cons (text : List Char) (texts : List (List Char)) :
    listed (text :: texts) = text ++ texts.flatMap (',' :: ·) := by
  induction texts generalizing text with
  | nil => simp
  | cons next texts ih => rw [listed_cons_cons, ih]; rfl

theorem mem_listed {c : Char} (h : c ∈ listed texts) : c = ',' ∨ ∃ text ∈ texts, c ∈ text := by
  cases texts with
  | nil => cases h
  | cons text texts =>
      rw [listed_cons, List.mem_append, List.mem_flatMap] at h
      rcases h with first | ⟨other, among, h⟩
      · exact .inr ⟨text, List.mem_cons_self, first⟩
      · rcases List.mem_cons.mp h with comma | within
        · exact .inl comma
        · exact .inr ⟨other, List.mem_cons_of_mem _ among, within⟩

namespace Value

def fieldChars (field : String × Value) : List Char := stringLiteral field.1 ++ ':' :: field.2.chars

theorem moreItems_eq (items : List Value) : moreItems items = (items.map chars).flatMap (',' :: ·) ++ [']'] := by
  induction items with
  | nil => rw [moreItems]; rfl
  | cons x items ih => simp [moreItems, ih]

theorem moreFields_eq (fields : Document) :
    moreFields fields = (fields.map fieldChars).flatMap (',' :: ·) ++ ['\x7d'] := by
  induction fields with
  | nil => rw [moreFields]; rfl
  | cons field fields ih => simp [moreFields, fieldChars, ih]

@[simp] theorem chars_null : null.chars = ['n', 'u', 'l', 'l'] := by simp [chars, scalarChars]

@[simp] theorem chars_bool (b : Bool) : (bool b).chars = scalarChars (bool b) := by simp [chars]

@[simp] theorem chars_number (n : Number) : (number n).chars = n.numeral := by simp [chars, scalarChars]

@[simp] theorem chars_string (s : String) : (string s).chars = stringLiteral s := by simp [chars, scalarChars]

theorem chars_array (items : List Value) : (array items).chars = '[' :: (listed (items.map chars) ++ [']']) := by
  cases items with
  | nil => rw [chars]; rfl
  | cons x items => simp [chars, moreItems_eq, listed_cons]

theorem chars_object (fields : Document) :
    (object fields).chars = '\x7b' :: (listed (fields.map fieldChars) ++ ['\x7d']) := by
  cases fields with
  | nil => rw [chars]; rfl
  | cons field fields => simp [chars, moreFields_eq, listed_cons, fieldChars]

end Value

/-! ## No raw control -/

def Printable (cs : List Char) : Prop := ∀ c ∈ cs, 0x20 ≤ c.toNat

instance (cs : List Char) : Decidable (Printable cs) := List.decidableBAll _ cs

theorem Printable.append {cs ds : List Char} (h : Printable cs) (h' : Printable ds) : Printable (cs ++ ds) :=
  fun c hc => (List.mem_append.mp hc).elim (h c) (h' c)

theorem printable_escapedChar (c : Char) : Printable (escapedChar c) := by
  have digit : ∀ n < 16, 0x20 ≤ (Nat.digitChar n).toNat := by decide
  fun_cases escapedChar c with
  | case8 _ control =>
      intro d h
      rw [if_pos control] at h
      simp only [List.mem_cons, List.not_mem_nil, or_false] at h
      rcases h with rfl | rfl | rfl | rfl | rfl | rfl
      · decide
      · decide
      · decide
      · decide
      · exact digit _ (by omega)
      · exact digit _ (by omega)
  | case9 _ raw =>
      intro d h
      rw [if_neg raw] at h
      obtain rfl := List.mem_singleton.mp h
      exact Nat.not_lt.mp raw
  | _ => decide

theorem printable_stringLiteral (s : String) : Printable (stringLiteral s) := by
  intro c h
  rw [stringLiteral, List.cons_append, List.mem_cons, List.mem_append, List.mem_flatMap, List.mem_singleton] at h
  rcases h with rfl | ⟨d, -, within⟩ | rfl
  · decide
  · exact printable_escapedChar d c within
  · decide

theorem visible_of_isNumeralChar {c : Char} (h : Number.isNumeralChar c = true) :
    0x21 ≤ c.toNat ∧ c.toNat ≤ 0x7e := by
  simp only [Number.isNumeralChar, isDigit, Bool.or_eq_true, Bool.and_eq_true, decide_eq_true_eq] at h
  rcases h with ((((⟨least, greatest⟩ | rfl) | rfl) | rfl) | rfl) | rfl
  · have least := UInt32.le_iff_toNat_le.mp least
    have greatest := UInt32.le_iff_toNat_le.mp greatest
    exact ⟨Nat.le_trans (by decide) least, Nat.le_trans greatest (by decide)⟩
  all_goals decide

theorem printable_numeral (n : Number) : Printable n.numeral := fun _ h =>
  Nat.le_of_lt (visible_of_isNumeralChar (Number.isNumeralChar_of_mem_numeral h)).1

theorem printable_listed (each : ∀ text ∈ texts, Printable text) : Printable (listed texts) := by
  intro c h
  rcases mem_listed h with rfl | ⟨text, among, within⟩
  · decide
  · exact each text among c within

theorem printable_enclosed {opening closing : Char} (h : 0x20 ≤ opening.toNat) (h' : 0x20 ≤ closing.toNat)
    {cs : List Char} (inner : Printable cs) : Printable (opening :: (cs ++ [closing])) :=
  List.forall_mem_cons.mpr ⟨h, inner.append (List.forall_mem_singleton.mpr h')⟩

theorem Value.WellFormed.printable_chars {v : Value} (wf : v.WellFormed) : Printable v.chars := by
  induction wf with
  | null => exact chars_null ▸ by decide
  | bool b => exact chars_bool b ▸ by cases b <;> decide
  | number n => exact chars_number n ▸ printable_numeral n
  | string s => exact chars_string s ▸ printable_stringLiteral s
  | array each ih =>
      rw [chars_array]
      refine printable_enclosed (by decide) (by decide) (printable_listed fun text among => ?_)
      obtain ⟨x, hx, rfl⟩ := List.mem_map.mp among
      exact ih x hx
  | object distinct each ih =>
      rw [chars_object]
      refine printable_enclosed (by decide) (by decide) (printable_listed fun text among => ?_)
      obtain ⟨field, hf, rfl⟩ := List.mem_map.mp among
      have colon : Printable [':'] := by decide
      exact (printable_stringLiteral _).append (colon.append (ih field hf))

/-! ## No blank at the ends -/

theorem isBlank_eq_false {c : Char} (h : 0x21 ≤ c.toNat ∧ c.toNat ≤ 0x7e) : isBlank c = false := by
  simp [isBlank, blankRanges]
  omega

theorem solid_enclosed {opening closing : Char} (h : isBlank opening = false) (h' : isBlank closing = false)
    (cs : List Char) : Solid (opening :: (cs ++ [closing])) := by
  have alone {c : Char} (h : isBlank c = false) : Solid [c] :=
    Unbroken.solid ⟨List.cons_ne_nil _ _, List.forall_mem_singleton.mpr h⟩
  exact (alone h).append (alone h') cs

theorem solid_listed (each : ∀ text ∈ texts, Solid text) (nonempty : texts ≠ []) : Solid (listed texts) := by
  induction texts with
  | nil => exact absurd rfl nonempty
  | cons text texts ih =>
      obtain ⟨first, others⟩ := List.forall_mem_cons.mp each
      cases texts with
      | nil => rwa [listed_singleton]
      | cons next texts =>
          rw [listed_cons_cons]
          exact first.append (ih others (List.cons_ne_nil _ _)) [',']

theorem Value.solid_chars (v : Value) : Solid v.chars := by
  cases v with
  | null => exact Unbroken.solid (by decide)
  | bool b => exact Unbroken.solid (by cases b <;> decide)
  | number n =>
      rw [chars_number]
      exact Unbroken.solid ⟨Number.numeral_ne_nil n, fun c hc =>
        isBlank_eq_false (visible_of_isNumeralChar (Number.isNumeralChar_of_mem_numeral hc))⟩
  | string s =>
      rw [chars_string]
      exact solid_enclosed (by decide) (by decide) _
  | array items =>
      rw [chars_array]
      exact solid_enclosed (by decide) (by decide) _
  | object fields =>
      rw [chars_object]
      exact solid_enclosed (by decide) (by decide) _

end DocQuery
