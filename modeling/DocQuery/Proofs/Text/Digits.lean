import DocQuery.Text.Basic
import DocQuery.Proofs.Text.Words
import Mathlib.Data.List.Induction

namespace DocQuery.Text

variable {c : Char} {n : Nat} {cs rest : List Char}

def AllDigits (cs : List Char) : Prop := ∀ c ∈ cs, isDigit c = true

theorem AllDigits.append (h : AllDigits cs) (h' : AllDigits rest) : AllDigits (cs ++ rest) :=
  fun c hc => (List.mem_append.mp hc).elim (h c) (h' c)

theorem allDigits_digits (n : Nat) : AllDigits (digits n) := fun _ h =>
  Nat.isDigit_of_mem_toDigits (by decide) (by decide) h

theorem allDigits_zeros (n : Nat) : AllDigits (List.replicate n '0') := fun c h => by
  rw [List.eq_of_mem_replicate h]
  rfl

theorem digits_ne_nil (n : Nat) : digits n ≠ [] := Nat.toDigits_ne_nil

theorem ofDigits_eq (cs : List Char) : ofDigits cs = Nat.ofDigitChars 10 cs 0 := rfl

@[simp] theorem ofDigits_digits (n : Nat) : ofDigits (digits n) = n := Nat.ofDigitChars_ten_toDigits

theorem ofDigits_append_zeros (cs : List Char) (n : Nat) :
    ofDigits (cs ++ List.replicate n '0') = ofDigits cs * Nat.pow 10 n := by
  rw [ofDigits_eq, Nat.ofDigitChars_append, Nat.ofDigitChars_replicate_zero, Nat.mul_comm, ofDigits_eq, Nat.pow_eq]

theorem ofDigits_zeros_append (n : Nat) (cs : List Char) : ofDigits (List.replicate n '0' ++ cs) = ofDigits cs := by
  rw [ofDigits_eq, Nat.ofDigitChars_append, Nat.ofDigitChars_replicate_zero, Nat.mul_zero, ofDigits_eq]

theorem head?_digits_ne_zero (h : n ≠ 0) : (digits n).head? ≠ some '0' := by
  induction n using Nat.strongRecOn with
  | ind n ih =>
      rcases Nat.lt_or_ge n 10 with small | large
      · intro first
        have single := Nat.toDigits_of_lt_base small
        rw [digits, single, List.head?_cons, Option.some_inj] at first
        refine h ?_
        rw [← ofDigits_digits n, digits, single, first]
        rfl
      · have front := ih (n / 10) (by omega) (by omega)
        obtain ⟨c, others, ds⟩ := List.exists_cons_of_ne_nil (digits_ne_nil (n / 10))
        rw [ds] at front
        rw [digits] at ds
        rwa [digits, Nat.toDigits_of_base_le (by decide) large, ds]

theorem length_digits_of_zero (h : (digits n).head? = some '0') : (digits n).length = 1 := by
  obtain rfl : n = 0 := by_contra fun positive => head?_digits_ne_zero positive h
  rfl

theorem exists_digit (h : isDigit c = true) : ∃ d < 10, c = Nat.digitChar d ∧ digitValue c = d := by
  rw [isDigit, Bool.and_eq_true, decide_eq_true_eq, decide_eq_true_eq, Char.le_def, Char.le_def,
    UInt32.le_iff_toNat_le, UInt32.le_iff_toNat_le] at h
  have first : ('0' : Char).val.toNat = 48 := rfl
  have last : ('9' : Char).val.toNat = 57 := rfl
  have written : ∀ d < 10, Char.ofNat (48 + d) = Nat.digitChar d := by decide
  have code : c.toNat = c.val.toNat := rfl
  refine ⟨c.toNat - 48, by omega, ?_, rfl⟩
  rw [← written _ (by omega), Nat.add_sub_cancel' (by omega), Char.ofNat_toNat]

theorem exists_zeros (all : AllDigits cs) (nonempty : cs ≠ []) :
    ∃ zeros, cs = List.replicate zeros '0' ++ digits (ofDigits cs) := by
  induction cs using List.reverseRecOn with
  | nil => exact absurd rfl nonempty
  | append_singleton front c ih =>
      obtain ⟨d, small, rfl, digit⟩ := exists_digit (all c (List.mem_append_right _ List.mem_cons_self))
      have single : digits d = [Nat.digitChar d] := Nat.toDigits_of_lt_base small
      have value : ofDigits (front ++ [d.digitChar]) = 10 * ofDigits front + d := by
        simp only [ofDigits, List.foldl_append, List.foldl_cons, List.foldl_nil, digit]
      rw [value]
      rcases eq_or_ne front [] with rfl | more
      · exact ⟨0, by rw [ofDigits, List.foldl_nil, Nat.mul_zero, Nat.zero_add, single]; rfl⟩
      · obtain ⟨zeros, split⟩ := ih (fun d hd => all d (List.mem_append_left _ hd)) more
        rcases Nat.eq_zero_or_pos (ofDigits front) with zero | positive
        · refine ⟨zeros + 1, ?_⟩
          rw [zero, Nat.mul_zero, Nat.zero_add, single, split, zero, List.replicate_succ']
          rfl
        · refine ⟨zeros, ?_⟩
          rw [digits, Nat.toDigits_of_base_le (by decide) (by omega), Nat.mul_add_div (by decide),
            Nat.div_eq_of_lt small, Nat.mul_add_mod, Nat.mod_eq_of_lt small, Nat.add_zero, ← List.append_assoc]
          exact congrArg (· ++ [d.digitChar]) split

/-! ## Numerals -/

/-- The text denotes the number in decimal, perhaps with a plus sign and with zeros in front. -/
def Numeral (n : Nat) (cs : List Char) : Prop :=
  ∃ sign zeros, (sign = [] ∨ sign = ['+']) ∧ cs = sign ++ (List.replicate zeros '0' ++ digits n)

theorem Numeral.unbroken (numeral : Numeral n cs) : Unbroken cs := by
  have digit (c : Char) (h : isDigit c = true) : isBlank c = false := by
    obtain ⟨d, small, rfl, -⟩ := exists_digit h
    have solid : ∀ d < 10, isBlank (Nat.digitChar d) = false := by decide
    exact solid d small
  obtain ⟨sign, zeros, plus, rfl⟩ := numeral
  refine ⟨by simp [digits_ne_nil], fun c hc => ?_⟩
  rcases List.mem_append.mp hc with signed | hc
  · rcases plus with rfl | rfl
    · cases signed
    · rw [List.mem_singleton.mp signed]
      decide
  · exact digit c ((allDigits_zeros zeros).append (allDigits_digits n) c hc)

theorem plus_not_mem_zeros_digits (zeros n : Nat) : '+' ∉ List.replicate zeros '0' ++ digits n := by
  intro present
  have digit := (allDigits_zeros zeros).append (allDigits_digits n) _ present
  cases digit

theorem unsigned?_eq_some_iff {limit : Nat} : unsigned? limit cs = some n ↔ n ≤ limit ∧ Numeral n cs := by
  have unsigned (ds : List Char) :
      (if ds ≠ [] ∧ ds.all isDigit = true ∧ ofDigits ds ≤ limit then some (ofDigits ds) else none) = some n ↔
        n ≤ limit ∧ ∃ zeros, ds = List.replicate zeros '0' ++ digits n := by
    rw [Option.ite_none_right_eq_some, List.all_eq_true, Option.some_inj]
    constructor
    · rintro ⟨⟨nonempty, all, within⟩, rfl⟩
      exact ⟨within, exists_zeros all nonempty⟩
    · rintro ⟨within, zeros, rfl⟩
      rw [ofDigits_zeros_append, ofDigits_digits]
      exact ⟨⟨by simp [digits_ne_nil], (allDigits_zeros zeros).append (allDigits_digits n), within⟩, rfl⟩
  by_cases plus : ∃ rest, cs = '+' :: rest
  · obtain ⟨rest, rfl⟩ := plus
    refine (unsigned rest).trans (and_congr_right fun _ => ⟨?_, ?_⟩)
    · rintro ⟨zeros, rfl⟩
      exact ⟨['+'], zeros, .inr rfl, rfl⟩
    · rintro ⟨_, zeros, rfl | rfl, same⟩
      · exact absurd (same ▸ List.mem_cons_self) (plus_not_mem_zeros_digits zeros n)
      · exact ⟨zeros, (List.cons.inj same).2⟩
  · rw [unsigned?]
    · refine (unsigned cs).trans (and_congr_right fun _ => ⟨?_, ?_⟩)
      · rintro ⟨zeros, same⟩
        exact ⟨[], zeros, .inl rfl, same⟩
      · rintro ⟨_, zeros, rfl | rfl, same⟩
        · exact ⟨zeros, same⟩
        · exact absurd ⟨_, same⟩ plus
    · exact fun rest same => plus ⟨rest, same⟩

end DocQuery.Text
