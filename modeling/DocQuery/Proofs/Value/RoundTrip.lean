import DocQuery.Proofs.Value.Reader
import DocQuery.Proofs.Value.Text

namespace DocQuery

open Text

theorem Document.ofFields_eq_self {fields : Document} (distinct : fields.keys.Nodup) : ofFields fields = fields := by
  suffices general : ∀ doc : Document, (doc ++ fields).keys.Nodup →
      fields.foldl (fun doc field => doc.insert field.1 field.2) doc = doc ++ fields from general [] distinct
  clear distinct
  induction fields with
  | nil => exact fun doc _ => (List.append_nil doc).symm
  | cons field fields ih =>
      intro doc distinct
      have absent : doc.get? field.1 = none := by
        rw [get?_eq_none_iff]
        intro present
        rw [keys, List.map_append, List.nodup_append] at distinct
        exact distinct.2.2 _ present _ (List.mem_map_of_mem List.mem_cons_self) rfl
      rw [List.append_cons] at distinct ⊢
      rw [List.foldl_cons, insert_eq_append absent]
      exact ih _ distinct

namespace Reader

def Stops (rest : List Char) : Prop := ∀ c ∈ rest.head?, Number.isNumeralChar c = false

def Reads {α : Type} (reader : Reader α) (text : List Char) (x : α) : Prop :=
  ∀ rest, Stops rest → reader (text ++ rest) = some (x, rest)

/-! ## Strings -/

theorem codeUnit?_hexDigits {n : Nat} (h : n < 0x20) :
    codeUnit? '0' '0' (Nat.digitChar (n / 16)) (Nat.digitChar (n % 16)) = some n := by
  revert n
  decide

theorem stringRest_escapedChar (c : Char) (rest : List Char) :
    stringRest (escapedChar c ++ rest) = consRead c (stringRest rest) := by
  fun_cases escapedChar c with
  | case8 _ control =>
      have high : isHighSurrogate c.toNat = false := by simp [isHighSurrogate]; omega
      have low : isLowSurrogate c.toNat = false := by simp [isLowSurrogate]; omega
      simp [if_pos control, stringRest, codeUnit?_hexDigits control, high, low]
  | case9 _ raw quote backslash =>
      rw [if_neg raw, List.singleton_append, stringRest.eq_def]
      split <;> simp_all
  | _ => simp [stringRest, shortEscape?]

theorem stringRest_stringLiteral (s : String) (rest : List Char) :
    stringRest (s.toList.flatMap escapedChar ++ '"' :: rest) = some (s.toList, rest) := by
  generalize s.toList = cs
  induction cs with
  | nil => simp [stringRest]
  | cons c cs ih =>
      rw [List.flatMap_cons, List.append_assoc, stringRest_escapedChar, ih]
      rfl

/-! ## Lists -/

theorem skipBlanks_cons {c : Char} (h : isSeparator c = false) (cs : List Char) : skipBlanks (c :: cs) = c :: cs :=
  List.dropWhile_cons_of_neg (by rw [h]; exact Bool.false_ne_true)

theorem items_listed {α : Type} {item : Reader α} (write : α → List Char) (closing : Char) {xs : List α}
    {bound : Nat} (closes : isSeparator closing = false ∧ Number.isNumeralChar closing = false ∧ closing ≠ ',')
    (each : ∀ x ∈ xs, Reads item (write x) x) (nonempty : xs ≠ []) (few : xs.length ≤ bound)
    (rest : List Char) :
    items item closing bound (listed (xs.map write) ++ closing :: rest) = some (xs, rest) := by
  obtain ⟨separator, numeral, comma⟩ := closes
  induction xs generalizing bound with
  | nil => exact absurd rfl nonempty
  | cons x xs ih =>
      obtain ⟨reads, others⟩ := List.forall_mem_cons.mp each
      obtain ⟨bound, rfl⟩ := Nat.exists_eq_add_one_of_ne_zero (Nat.ne_zero_of_lt few)
      cases xs with
      | nil =>
          have stops : Stops (closing :: rest) := fun c hc => by
            cases hc
            exact numeral
          simp [items, reads _ stops, skipBlanks_cons separator, comma]
      | cons y ys =>
          have more := ih others (List.cons_ne_nil _ _) (Nat.le_of_succ_le_succ few)
          rw [List.map_cons, List.map_cons, listed_cons_cons, List.append_assoc, List.cons_append, ← List.map_cons]
          generalize listed ((y :: ys).map write) ++ closing :: rest = behind at more
          have stops : Stops (',' :: behind) := fun c hc => by
            cases hc
            rfl
          have comma : skipBlanks (',' :: behind) = ',' :: behind := skipBlanks_cons rfl _
          simp [items, reads _ stops, comma, more]

/-! ## Scalars -/

theorem value_of_scalar {c : Char} (h : isSeparator c = false ∧ c ≠ '[' ∧ c ≠ '\x7b') (bound depth : Nat)
    (cs : List Char) :
    value bound depth (c :: cs) = scalar (c :: cs) := by
  cases depth with
  | zero => simp [value, skipBlanks_cons h.1]
  | succ depth => simp [value, skipBlanks_cons h.1, h.2]

theorem ne_of_isNumeralChar {c d : Char} (h : Number.isNumeralChar c = true) (h' : Number.isNumeralChar d = false) :
    c ≠ d := by
  rintro rfl
  rw [h] at h'
  cases h'

theorem scalar_of_isNumeralChar {c : Char} (h : Number.isNumeralChar c = true) (cs : List Char) :
    scalar (c :: cs) = (Number.ofNumeral? ((c :: cs).takeWhile Number.isNumeralChar)).map fun n =>
      (.number n, (c :: cs).dropWhile Number.isNumeralChar) := by
  have other {d : Char} {ds : List Char} (letter : Number.isNumeralChar d = false) : c :: cs ≠ d :: ds :=
    fun same => ne_of_isNumeralChar h letter (List.cons_eq_cons.mp same).1
  rw [scalar.eq_def]
  split <;> rename_i same
  · exact absurd same (other rfl)
  · exact absurd same (other rfl)
  · exact absurd same (other rfl)
  · exact absurd same (other rfl)
  · rfl

theorem reads_number (n : Number) (bound depth : Nat) : Reads (value bound depth) n.numeral (.number n) := by
  intro rest stops
  have all : ∀ c ∈ n.numeral, Number.isNumeralChar c = true := fun _ => Number.isNumeralChar_of_mem_numeral
  have take := takeWhile_append_stop all stops
  have drop := dropWhile_append_stop all stops
  have numeral := n.ofNumeral?_numeral
  obtain ⟨c, cs, chars⟩ := List.exists_cons_of_ne_nil n.numeral_ne_nil
  rw [chars] at all take drop numeral ⊢
  have first := all c List.mem_cons_self
  have other (d : Char) (h : Number.isNumeralChar d = false) : c ≠ d := ne_of_isNumeralChar first h
  have apart : isSeparator c = false ∧ c ≠ '[' ∧ c ≠ '\x7b' := by
    simp [isSeparator, other ' ' rfl, other '\t' rfl, other '\n' rfl, other '\r' rfl, other '[' rfl, other '\x7b' rfl]
  rw [List.cons_append] at take drop ⊢
  rw [value_of_scalar apart, scalar_of_isNumeralChar first, take, drop, numeral]
  rfl

theorem reads_string (s : String) (bound depth : Nat) : Reads (value bound depth) (stringLiteral s) (.string s) := by
  intro rest _
  rw [stringLiteral, List.cons_append, List.cons_append, value_of_scalar (by decide), scalar, List.append_assoc]
  simp [stringRest_stringLiteral]

/-! ## Arrays and objects -/

theorem value_closing (bound depth : Nat) (cs : List Char) : value bound depth (']' :: cs) = none := by
  rw [value_of_scalar (by decide)]
  rfl

theorem isSeparator_of_not_isBlank {c : Char} (h : isBlank c = false) : isSeparator c = false := by
  have other {d : Char} (blank : isBlank d = true) : c ≠ d := by
    rintro rfl
    rw [blank] at h
    cases h
  simp [isSeparator, other (d := ' ') rfl, other (d := '\t') rfl, other (d := '\n') rfl, other (d := '\r') rfl]

theorem reads_array {items : List Value} {bound depth : Nat}
    (each : ∀ x ∈ items, Reads (value bound depth) x.chars x)
    (few : items.length ≤ bound) : Reads (value bound (depth + 1)) (Value.array items).chars (.array items) := by
  intro rest _
  rw [Value.chars_array]
  cases items with
  | nil => rfl
  | cons x xs =>
      have read := items_listed Value.chars ']' ⟨rfl, rfl, by decide⟩ each
        (List.cons_ne_nil _ _) few rest
      have solid := x.solid_chars
      have alone := each x List.mem_cons_self [] nofun
      obtain ⟨c, cs, chars⟩ := List.exists_cons_of_ne_nil solid.nonempty
      rw [chars] at solid alone
      have separator : isSeparator c = false := isSeparator_of_not_isBlank (solid.first c rfl)
      have item : c ≠ ']' := by
        rintro rfl
        rw [List.cons_append, value_closing] at alone
        cases alone
      rw [List.map_cons, listed_cons, chars] at read ⊢
      simp only [List.cons_append, List.append_assoc, List.nil_append] at read ⊢
      simp [value, skipBlanks_cons (c := '[') rfl, skipBlanks_cons separator, item, read]

theorem reads_field {item : Reader Value} {f : String × Value} (h : Reads item f.2.chars f.2) :
    Reads (field item) (Value.fieldChars f) f := by
  intro rest stops
  rw [Value.fieldChars, stringLiteral]
  simp only [List.cons_append, List.append_assoc, List.nil_append]
  simp [field, skipBlanks_cons (c := '"') rfl, skipBlanks_cons (c := ':') rfl, stringRest_stringLiteral, h rest stops]

theorem reads_object {fields : Document} {bound depth : Nat} (distinct : fields.keys.Nodup)
    (each : ∀ f ∈ fields, Reads (value bound depth) f.2.chars f.2) (few : fields.length ≤ bound) :
    Reads (value bound (depth + 1)) (Value.object fields).chars (.object fields) := by
  intro rest _
  rw [Value.chars_object]
  cases fields with
  | nil => rfl
  | cons f fields =>
      have read := items_listed Value.fieldChars '\x7d' ⟨rfl, rfl, by decide⟩
        (fun f hf => reads_field (each f hf)) (List.cons_ne_nil _ _) few rest
      rw [List.map_cons, listed_cons, Value.fieldChars, stringLiteral] at read ⊢
      simp only [List.cons_append, List.append_assoc, List.nil_append] at read ⊢
      simp [value, skipBlanks_cons (c := '\x7b') rfl, skipBlanks_cons (c := '"') rfl, read,
        Document.ofFields_eq_self distinct]

end Reader

/-! ## Values -/

theorem length_le_listed (texts : List (List Char)) :
    texts.length ≤ (listed texts).length + 1 ∧ ∀ text ∈ texts, text.length ≤ (listed texts).length := by
  induction texts with
  | nil => exact ⟨Nat.zero_le _, nofun⟩
  | cons text texts ih =>
      cases texts with
      | nil => simp
      | cons next texts =>
          obtain ⟨count, each⟩ := ih
          rw [listed_cons_cons]
          simp only [List.length_append, List.length_cons] at *
          refine ⟨by omega, List.forall_mem_cons.mpr ⟨by omega, fun text among => ?_⟩⟩
          have := each text among
          omega

namespace Value

def NestsWithin : Nat → Value → Prop
  | 0, array _ | 0, object _ => False
  | depth + 1, array items => ∀ x ∈ items, x.NestsWithin depth
  | depth + 1, object fields => ∀ field ∈ fields, field.2.NestsWithin depth
  | _, _ => True

end Value

namespace Reader

theorem reads_value {v : Value} (wf : v.WellFormed) {bound depth : Nat} (nests : v.NestsWithin depth)
    (short : v.chars.length ≤ bound) : Reads (value bound depth) v.chars v := by
  induction wf generalizing depth with
  | null =>
      intro rest _
      rw [Value.chars_null]
      exact value_of_scalar (by decide) _ _ _
  | bool b =>
      intro rest _
      rw [Value.chars_bool]
      cases b <;> exact value_of_scalar (by decide) _ _ _
  | number n => exact Value.chars_number n ▸ reads_number n bound depth
  | string s => exact Value.chars_string s ▸ reads_string s bound depth
  | @array items each ih =>
      cases depth with
      | zero => exact nests.elim
      | succ depth =>
          -- an item is written with fewer characters than the array, so the bound is enough for it
          obtain ⟨count, longest⟩ := length_le_listed (items.map Value.chars)
          rw [Value.chars_array, List.length_cons, List.length_append, List.length_singleton] at short
          rw [List.length_map] at count
          refine reads_array (fun x hx => ih x hx (nests x hx) ?_) (by omega)
          have := longest _ (List.mem_map_of_mem hx)
          omega
  | @object fields distinct each ih =>
      cases depth with
      | zero => exact nests.elim
      | succ depth =>
          obtain ⟨count, longest⟩ := length_le_listed (fields.map Value.fieldChars)
          rw [Value.chars_object, List.length_cons, List.length_append, List.length_singleton] at short
          rw [List.length_map] at count
          refine reads_object distinct (fun field hf => ih field hf (nests field hf) ?_) (by omega)
          have := longest _ (List.mem_map_of_mem hf)
          rw [Value.fieldChars, List.length_append, List.length_cons] at this
          omega

end Reader

namespace Value

theorem ofText?_text {v : Value} (wf : v.WellFormed) (nests : v.NestsWithin maxDepth) : ofText? v.text = some v := by
  have read := Reader.reads_value wf nests (Nat.le_refl _) [] nofun
  have toList : v.text.toList = v.chars := String.toList_ofList
  rw [List.append_nil] at read
  rw [ofText?, ofTextWithin?, toList, read]
  rfl

theorem eq_of_text {v w : Value} (wf : v.WellFormed) (nests : v.NestsWithin maxDepth) (wf' : w.WellFormed)
    (nests' : w.NestsWithin maxDepth) (same : v.text = w.text) : v = w := by
  have read := ofText?_text wf nests
  rw [same, ofText?_text wf' nests'] at read
  exact (Option.some.inj read).symm

theorem nestsWithin_ofText? {text : String} {v : Value} (h : ofText? text = some v) : v.NestsWithin maxDepth := by
  obtain ⟨bound, cs, rest, found⟩ := exists_reader_of_ofText? h
  have ofScalar (depth : Nat) : Reader.Yields (NestsWithin depth) Reader.scalar := by
    apply Reader.yields_scalar <;> cases depth <;> simp [NestsWithin]
  exact Reader.yields_value ofScalar (fun _ _ each => each) (fun _ _ each => Document.forall_mem_ofFields each)
    _ _ _ _ _ found

/-- The reader gives back just the values that a text can stand for: well-formed, and no deeper than it follows. -/
theorem ofText?_text_iff {v : Value} : ofText? v.text = some v ↔ v.WellFormed ∧ v.NestsWithin maxDepth :=
  ⟨fun h => ⟨wellFormed_ofText? h, nestsWithin_ofText? h⟩, fun ⟨wf, nests⟩ => ofText?_text wf nests⟩

end Value

end DocQuery
