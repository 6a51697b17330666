import DocQuery.Number.Numeral
import DocQuery.Proofs.Number.Decimal
import DocQuery.Proofs.Text.Digits

namespace DocQuery.Number

open Text

/-- Digits that stand before a point: at least one, and no zero in front of others. -/
structure WholePart (cs : List Char) : Prop where
  nonempty : cs ≠ []
  allDigits : AllDigits cs
  leading : cs.head? = some '0' → cs.length = 1

theorem wholePart_digits (n : Nat) : WholePart (digits n) :=
  ⟨digits_ne_nil n, allDigits_digits n, length_digits_of_zero⟩

/-! ## Spellings -/

structure Spelling where
  whole : List Char
  fraction : List Char
  exponent : Option Int
  isWhole : WholePart whole
  allDigits : AllDigits fraction

def fractionChars (fraction : List Char) : List Char := if fraction = [] then [] else '.' :: fraction

def exponentChars : Option Int → List Char
  | none => []
  | some e => 'e' :: (if e < 0 then '-' else '+') :: digits e.natAbs

namespace Spelling

def chars (s : Spelling) : List Char :=
  s.whole ++ (fractionChars s.fraction ++ exponentChars s.exponent)

def decimal (s : Spelling) : Decimal :=
  ⟨ofDigits (s.whole ++ s.fraction), s.exponent.getD 0 - s.fraction.length⟩

def IsInteger (s : Spelling) : Prop := s.fraction = [] ∧ s.exponent = none

instance (s : Spelling) : Decidable s.IsInteger := inferInstanceAs (Decidable (s.fraction = [] ∧ s.exponent = none))

def integer (n : Nat) : Spelling := ⟨digits n, [], none, wholePart_digits n, nofun⟩

theorem chars_integer (n : Nat) : (integer n).chars = digits n := List.append_nil _

def Spells (s : Spelling) (cs : List Char) (d : Decimal) : Prop :=
  s.chars = cs ∧ ¬ s.IsInteger ∧ ∃ zeros, s.decimal = d.refined zeros

end Spelling

variable {m : Nat} {e : Int}

theorem exists_spelling_whole (h : m = 0 → e = 0) (whole : 0 ≤ e) :
    ∃ s : Spelling, s.Spells (digits m ++ List.replicate e.toNat '0' ++ ['.', '0']) ⟨m, e⟩ := by
  have leading (front : (digits m ++ List.replicate e.toNat '0').head? = some '0') :
      (digits m ++ List.replicate e.toNat '0').length = 1 := by
    obtain ⟨c, others, ds⟩ := List.exists_cons_of_ne_nil (digits_ne_nil m)
    obtain rfl : m = 0 := by
      by_contra positive
      refine head?_digits_ne_zero positive ?_
      rwa [ds] at front ⊢
    rw [h rfl]
    rfl
  refine ⟨⟨digits m ++ List.replicate e.toNat '0', ['0'], none, ⟨by simp [digits_ne_nil],
    (allDigits_digits m).append (allDigits_zeros _), leading⟩, allDigits_zeros 1⟩,
    ?_, by simp [Spelling.IsInteger], e.toNat + 1, ?_⟩
  · simp [Spelling.chars, fractionChars, exponentChars]
  · have zeros : digits m ++ List.replicate e.toNat '0' ++ ['0'] = digits m ++ List.replicate (e.toNat + 1) '0' := by
      rw [List.replicate_succ', List.append_assoc]
    rw [Spelling.decimal, Decimal.refined, zeros, ofDigits_append_zeros, ofDigits_digits]
    simp
    omega

theorem exists_spelling_point (h : m = 0 → e = 0) (fraction : e < 0) (whole : 0 ≤ e + (digits m).length - 1) :
    let point := (e + (digits m).length - 1 + 1).toNat
    ∃ s : Spelling, s.Spells ((digits m).take point ++ '.' :: (digits m).drop point) ⟨m, e⟩ := by
  intro point
  have all := allDigits_digits m
  have within : 0 < point ∧ point < (digits m).length := by omega
  have positive : m ≠ 0 := fun zero => by
    have := h zero
    omega
  have front : ((digits m).take point).head? = (digits m).head? := by
    rw [List.head?_take, if_neg (by omega)]
  have notEmpty : (digits m).drop point ≠ [] := by simp [within.2]
  refine ⟨⟨(digits m).take point, (digits m).drop point, none,
    ⟨?_, fun c hc => all c (List.mem_of_mem_take hc), ?_⟩,
    fun c hc => all c (List.mem_of_mem_drop hc)⟩, ?_, fun h => notEmpty h.1, 0, ?_⟩
  · simp [digits_ne_nil]
    omega
  · rw [front]
    exact fun zero => absurd zero (head?_digits_ne_zero positive)
  · simp [Spelling.chars, fractionChars, exponentChars, notEmpty]
  · simp [Spelling.decimal, Decimal.refined]
    omega

theorem exists_spelling_small (small : e + (digits m).length - 1 < 0) :
    ∃ s : Spelling,
      s.Spells (['0', '.'] ++ List.replicate (-(e + (digits m).length - 1) - 1).toNat '0' ++ digits m) ⟨m, e⟩ := by
  have zero : AllDigits ['0'] := allDigits_zeros 1
  have value (n : Nat) : ofDigits ('0' :: (List.replicate n '0' ++ digits m)) = m := by
    rw [← List.cons_append, ← List.replicate_succ, ofDigits_zeros_append, ofDigits_digits]
  refine ⟨⟨['0'], List.replicate (-(e + (digits m).length - 1) - 1).toNat '0' ++ digits m, none,
    ⟨by simp, zero, fun _ => rfl⟩, (allDigits_zeros _).append (allDigits_digits m)⟩,
    ?_, by simp [Spelling.IsInteger, digits_ne_nil], 0, ?_⟩
  · simp [Spelling.chars, fractionChars, exponentChars, digits_ne_nil]
  · simp [Spelling.decimal, Decimal.refined, value]
    omega

theorem exists_spelling_scientific (m : Nat) (e : Int) :
    ∃ s : Spelling, s.Spells (scientificNumeral (digits m) e) ⟨m, e⟩ := by
  have all := allDigits_digits m
  have value := ofDigits_digits m
  rcases ds : digits m with _ | ⟨first, _ | ⟨second, rest⟩⟩
  · exact absurd ds (digits_ne_nil m)
  · rw [ds] at all value
    refine ⟨⟨[first], [], some e, ⟨by simp, all, fun _ => rfl⟩, by simp [AllDigits]⟩, ?_,
      by simp [Spelling.IsInteger], 0, ?_⟩
    · simp [Spelling.chars, fractionChars, exponentChars, scientificNumeral]
    · simp [Spelling.decimal, Decimal.refined, value]
  · rw [ds] at all value
    obtain ⟨one, others⟩ := List.forall_mem_cons.mp all
    refine ⟨⟨[first], second :: rest, some (e + (first :: second :: rest).length - 1),
      ⟨by simp, by simpa [AllDigits] using one, fun _ => rfl⟩, others⟩, ?_,
      by simp [Spelling.IsInteger], 0, ?_⟩
    · simp [Spelling.chars, fractionChars, exponentChars, scientificNumeral]
    · simp [Spelling.decimal, Decimal.refined, value]
      omega

theorem exists_spelling {d : Decimal} (h : d.digits = 0 → d.exponent = 0) :
    ∃ s : Spelling, s.Spells (decimalNumeral d) d := by
  rw [decimalNumeral]
  split
  · rw [positionalNumeral]
    split <;> rename_i whole
    · exact exists_spelling_whole h whole
    split <;> rename_i point
    · exact exists_spelling_point h (Int.not_le.mp whole) point
    · exact exists_spelling_small (Int.not_le.mp point)
  · exact exists_spelling_scientific _ _

/-! ## Reading -/

def signed (negative : Bool) (cs : List Char) : List Char := if negative then '-' :: cs else cs

theorem readExponent?_written (e : Int) :
    readExponent? ((if e < 0 then '-' else '+') :: digits e.natAbs) = some e := by
  have all : (digits e.natAbs).all isDigit = true := List.all_eq_true.mpr (allDigits_digits _)
  have some : digits e.natAbs ≠ [] ∧ (digits e.natAbs).all isDigit = true := ⟨digits_ne_nil _, all⟩
  split <;>
    simp only [readExponent?, if_pos some, ofDigits_digits, Option.some.injEq, if_true, Bool.false_eq_true, if_false]
    <;> omega

theorem exponentChars_stop (exponent : Option Int) :
    ∀ c ∈ (exponentChars exponent).head?, isDigit c = false ∧ c ≠ '.' := by
  cases exponent with
  | none => exact nofun
  | some e =>
      rintro _ ⟨⟩
      decide

theorem readFraction?_written {fraction rest : List Char} (all : AllDigits fraction)
    (stop : ∀ c ∈ rest.head?, isDigit c = false ∧ c ≠ '.') :
    readFraction? (fractionChars fraction ++ rest) = some (fraction, rest) := by
  rw [fractionChars]
  split <;> rename_i none
  · subst none
    cases rest with
    | nil => rfl
    | cons c rest => simp [readFraction?, (stop c rfl).2]
  · simp [readFraction?, takeWhile_append_stop all fun c hc => (stop c hc).1,
      dropWhile_append_stop all fun c hc => (stop c hc).1, none]

namespace Spelling

theorem behind_stop (s : Spelling) :
    ∀ c ∈ (fractionChars s.fraction ++ exponentChars s.exponent).head?, isDigit c = false := by
  rw [fractionChars]
  split
  · exact fun c hc => (exponentChars_stop _ c hc).1
  · rintro _ ⟨⟩
    decide

theorem ofNumeral?_signed (s : Spelling) (negative : Bool) :
    ofNumeral? (signed negative s.chars) =
      if s.IsInteger then ofWholeDigits? negative (ofDigits s.whole)
      else (Binary64.ofDecimal? negative s.decimal.digits s.decimal.exponent).map float := by
  have take : s.chars.takeWhile isDigit = s.whole := takeWhile_append_stop s.isWhole.allDigits s.behind_stop
  have drop : s.chars.dropWhile isDigit = fractionChars s.fraction ++ exponentChars s.exponent :=
    dropWhile_append_stop s.isWhole.allDigits s.behind_stop
  have fraction := readFraction?_written s.allDigits (exponentChars_stop s.exponent)
  have number : ¬ (s.whole = [] ∨ s.whole.head? = some '0' ∧ 1 < s.whole.length) := fun h =>
    h.elim s.isWhole.nonempty fun ⟨zero, more⟩ => by
      have := s.isWhole.leading zero
      omega
  have behind : fractionChars s.fraction ++ exponentChars s.exponent = [] ↔ s.IsInteger := by
    cases e : s.exponent <;> simp [IsInteger, fractionChars, exponentChars, e]
  have unsigned : ∀ rest, s.chars ≠ '-' :: rest := fun rest minus => by
    rw [minus] at take
    exact s.isWhole.nonempty take.symm
  have read : (exponentChars s.exponent = [] ∧ s.exponent.getD 0 = 0) ∨
      ∃ rest, exponentChars s.exponent = 'e' :: rest ∧ readExponent? rest = some (s.exponent.getD 0) := by
    cases s.exponent with
    | none => exact .inl ⟨rfl, rfl⟩
    | some e => exact .inr ⟨_, rfl, readExponent?_written e⟩
  unfold ofNumeral?
  cases negative <;>
    simp only [signed, Bool.false_eq_true, if_true, if_false, take, drop, number, behind, fraction, decimal,
      Option.bind_eq_bind, Option.bind_some]
  all_goals
    rcases read with ⟨nothing, zero⟩ | ⟨rest, marked, exponent⟩
    · simp only [nothing, zero, Option.map_eq_bind]
      rfl
    · simp only [marked, exponent, true_or, if_true, Option.bind_some, Option.map_eq_bind]
      rfl

end Spelling

theorem ofNumeral?_digits (negative : Bool) (n : Nat) :
    ofNumeral? (signed negative (digits n)) = ofWholeDigits? negative n := by
  rw [← Spelling.chars_integer, Spelling.ofNumeral?_signed, if_pos ⟨rfl, rfl⟩, Spelling.integer, ofDigits_digits]

theorem ofNumeral?_decimalNumeral {d : Decimal} (h : d.digits = 0 → d.exponent = 0) (negative : Bool) :
    ofNumeral? (signed negative (decimalNumeral d)) = (Binary64.ofDecimal? negative d.digits d.exponent).map float := by
  obtain ⟨s, chars, notInteger, zeros, value⟩ := exists_spelling h
  rw [← chars, s.ofNumeral?_signed, if_neg notInteger, value, Binary64.ofDecimal?_refined]

theorem ofWholeDigits?_of_isWord {negative : Bool} {n : Nat} {i : Int} (value : (if negative then -n else n : Int) = i)
    (isWord : IsWord i) (notZero : ¬ (negative ∧ n = 0)) : ofWholeDigits? negative n = some (int i isWord) := by
  subst value
  rw [ofWholeDigits?, if_neg notZero]
  exact dif_pos isWord

theorem ofNumeral?_numeral (n : Number) : ofNumeral? n.numeral = some n := by
  cases n with
  | int i isWord =>
      rw [numeral]
      split <;> rename_i negative
      · refine (ofNumeral?_digits true i.natAbs).trans (ofWholeDigits?_of_isWord ?_ isWord ?_)
        · rw [if_pos rfl]
          omega
        · omega
      · refine (ofNumeral?_digits false i.natAbs).trans (ofWholeDigits?_of_isWord ?_ isWord (by simp))
        rw [if_neg Bool.false_ne_true]
        omega
  | float x =>
      have written := ofNumeral?_decimalNumeral x.exponent_shortest_of_zero x.negative
      rw [x.ofDecimal?_shortest] at written
      exact written

/-! ## The characters of a numeral -/

theorem isNumeralChar_of_isDigit {c : Char} (h : isDigit c = true) : isNumeralChar c = true := by
  simp [isNumeralChar, h]

theorem Spelling.isNumeralChar_of_mem_chars (s : Spelling) {c : Char} (h : c ∈ s.chars) : isNumeralChar c = true := by
  rw [chars, List.mem_append, List.mem_append] at h
  rcases h with whole | fraction | exponent
  · exact isNumeralChar_of_isDigit (s.isWhole.allDigits c whole)
  · rw [fractionChars] at fraction
    split at fraction
    · cases fraction
    · rcases List.mem_cons.mp fraction with rfl | digit
      · rfl
      · exact isNumeralChar_of_isDigit (s.allDigits c digit)
  · cases e : s.exponent with
    | none => simp [e, exponentChars] at exponent
    | some e' =>
        rw [e, exponentChars] at exponent
        rcases List.mem_cons.mp exponent with rfl | exponent
        · rfl
        · rcases List.mem_cons.mp exponent with rfl | digit
          · split <;> rfl
          · exact isNumeralChar_of_isDigit (allDigits_digits _ c digit)

theorem exists_spelling_numeral (n : Number) :
    ∃ (s : Spelling) (negative : Bool), n.numeral = signed negative s.chars := by
  cases n with
  | int i isWord => exact ⟨.integer i.natAbs, i < 0, by simp [numeral, signed, Spelling.chars_integer]⟩
  | float x =>
      obtain ⟨s, chars, -⟩ := exists_spelling x.exponent_shortest_of_zero
      exact ⟨s, x.negative, by rw [chars]; rfl⟩

theorem isNumeralChar_of_mem_numeral {n : Number} {c : Char} (h : c ∈ n.numeral) : isNumeralChar c = true := by
  obtain ⟨s, negative, numeral⟩ := exists_spelling_numeral n
  rw [numeral, signed] at h
  split at h
  · rcases List.mem_cons.mp h with rfl | h
    · rfl
    · exact s.isNumeralChar_of_mem_chars h
  · exact s.isNumeralChar_of_mem_chars h

theorem numeral_ne_nil (n : Number) : n.numeral ≠ [] := by
  obtain ⟨s, negative, numeral⟩ := exists_spelling_numeral n
  rw [numeral, signed]
  split
  · exact List.cons_ne_nil _ _
  · exact List.append_ne_nil_of_left_ne_nil s.isWhole.nonempty _

end DocQuery.Number
