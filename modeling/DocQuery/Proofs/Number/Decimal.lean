import DocQuery.Number.Shortest
import Mathlib.Algebra.Order.Ring.Nat

namespace DocQuery

variable {num den num' den' : Nat}

/-! ## Rounding -/

theorem roundHalfEven_scaled {k : Nat} (hk : 0 < k) (num den : Nat) :
    roundHalfEven (k * num) (k * den) = roundHalfEven num den := by
  have below : 2 * (k * (num % den)) < k * den ↔ 2 * (num % den) < den := by
    rw [Nat.mul_left_comm, Nat.mul_lt_mul_left hk]
  have above : k * den < 2 * (k * (num % den)) ↔ den < 2 * (num % den) := by
    rw [Nat.mul_left_comm, Nat.mul_lt_mul_left hk]
  simp only [roundHalfEven, Nat.mul_div_mul_left num den hk, Nat.mul_mod_mul_left, below, above]

theorem roundHalfEven_mul (n : Nat) (hd : 0 < den) : roundHalfEven (n * den) den = n := by
  simp [roundHalfEven, Nat.mul_div_cancel n hd, hd]

theorem roundHalfEven_of_small (small : 2 * num < den) : roundHalfEven num den = 0 := by
  have less : num < den := by omega
  simp [roundHalfEven, Nat.div_eq_of_lt less, Nat.mod_eq_of_lt less, small]

/-! ## Decimals with zeros at the end -/

def Decimal.refined (zeros : Nat) (d : Decimal) : Decimal := ⟨d.digits * Nat.pow 10 zeros, d.exponent - zeros⟩

theorem Decimal.exists_refined_dropZeros (bound : Nat) (d : Decimal) :
    ∃ zeros, d = (d.dropZeros bound).refined zeros := by
  induction bound generalizing d with
  | zero => exact ⟨0, by simp [dropZeros, refined]⟩
  | succ bound ih =>
      rw [dropZeros]
      split <;> rename_i multiple
      · obtain ⟨zeros, same⟩ := ih ⟨d.digits / 10, d.exponent + 1⟩
        rw [refined, mk.injEq] at same
        refine ⟨zeros + 1, ?_⟩
        rw [refined, Nat.pow_eq, Nat.pow_succ, ← Nat.mul_assoc, ← Nat.pow_eq, ← same.1]
        exact congrArg₂ mk (Nat.div_mul_cancel (Nat.dvd_of_mod_eq_zero multiple)).symm (by omega)
      · exact ⟨0, by simp [refined]⟩

namespace Binary64

variable {negative : Bool}

/-! ## The nearest number -/

theorem nearest?_scaled {k : Nat} (hk : 0 < k) (negative : Bool) (num den : Nat) :
    nearest? negative (k * num) (k * den) = nearest? negative num den := by
  simp only [nearest?, Nat.mul_assoc, Nat.mul_div_mul_left _ den hk, roundHalfEven_scaled hk]

theorem nearest?_congr (hd : 0 < den) (hd' : 0 < den') (same : num * den' = num' * den) (negative : Bool) :
    nearest? negative num den = nearest? negative num' den' := by
  rw [← nearest?_scaled hd' negative num den, ← nearest?_scaled hd negative num' den', Nat.mul_comm den' num, same,
    Nat.mul_comm num' den, Nat.mul_comm den' den]

/-! ## Beyond the format -/

theorem le_log2_units {bits : Nat} (hd : 0 < den) (h : 2 ^ bits * den ≤ num) :
    bits + 1074 ≤ Nat.log2 (num * unitsPerOne / den) := by
  unfold unitsPerOne
  generalize 1074 = units
  have quotient : 2 ^ (bits + units) ≤ num * Nat.pow 2 units / den := by
    rw [Nat.le_div_iff_mul_le hd, Nat.pow_add, Nat.mul_right_comm]
    exact Nat.mul_le_mul_right _ h
  exact (Nat.le_log2 (Nat.ne_of_gt (Nat.lt_of_lt_of_le (Nat.two_pow_pos _) quotient))).mpr quotient

theorem nearest?_of_large (hd : 0 < den) (bits : Nat) (beyond : 1203 ≤ bits) (large : 2 ^ bits * den ≤ num) :
    nearest? negative num den = none := by
  have outside {significand scale : Nat} (h : 2045 < scale) : ofParts? negative significand scale = none :=
    dif_neg fun canonical => Nat.not_le_of_lt h canonical.2.1
  have log := le_log2_units hd large
  rw [nearest?]
  generalize Nat.log2 (num * unitsPerOne / den) = log' at log
  split
  · exact outside (by omega)
  · exact outside (by omega)

theorem nearest?_of_small (bits : Nat) (beyond : 1200 ≤ bits) (small : num * 2 ^ bits < den) :
    nearest? negative num den = some (zero negative) := by
  have half : 2 * (num * unitsPerOne) < den := by
    have units : 1074 + 1 ≤ bits := by omega
    refine Nat.lt_of_le_of_lt ?_ small
    rw [Nat.mul_left_comm]
    refine Nat.mul_le_mul_left num ?_
    unfold unitsPerOne
    generalize 1074 = exponent at units
    rw [Nat.pow_eq, Nat.mul_comm, ← Nat.pow_succ]
    exact Nat.pow_le_pow_right Nat.two_pos units
  have scale : Nat.log2 (num * unitsPerOne / den) - 52 = 0 := by
    rw [Nat.div_eq_of_lt (by omega), Nat.log2_zero]
  rw [nearest?, scale]
  simp only [Nat.pow_eq, Nat.pow_zero, Nat.mul_one, roundHalfEven_of_small half]
  rfl

theorem two_pow_le_ten_pow (n : Nat) : 2 ^ (3 * n) ≤ 10 ^ n := by
  rw [Nat.pow_mul]
  exact Nat.pow_le_pow_left (by decide) n

theorem ofDecimal?_eq_nearest? {digits : Nat} (h : digits ≠ 0) (negative : Bool) (exponent : Int) :
    ofDecimal? negative digits exponent =
      nearest? negative (digits * 10 ^ exponent.toNat) (10 ^ (-exponent).toNat) := by
  rw [ofDecimal?, if_neg h]
  split <;> rename_i high
  · have whole : (-exponent).toNat = 0 := by omega
    rw [whole, Nat.pow_zero]
    refine (nearest?_of_large Nat.one_pos (3 * exponent.toNat) (by omega) ?_).symm
    rw [Nat.mul_one]
    exact Nat.le_trans (two_pow_le_ten_pow _) (Nat.le_mul_of_pos_left _ (Nat.pos_of_ne_zero h))
  split <;> rename_i low
  · have whole : exponent.toNat = 0 := by omega
    rw [whole, Nat.pow_zero, Nat.mul_one]
    refine (nearest?_of_small (3 * (-exponent).toNat - (digits.log2 + 1)) (by omega) ?_).symm
    calc digits * 2 ^ (3 * (-exponent).toNat - (digits.log2 + 1))
      _ < 2 ^ (digits.log2 + 1) * 2 ^ (3 * (-exponent).toNat - (digits.log2 + 1)) :=
          Nat.mul_lt_mul_of_pos_right Nat.lt_log2_self (Nat.two_pow_pos _)
      _ = 2 ^ (3 * (-exponent).toNat) := by
          rw [← Nat.pow_add]
          congr 1
          omega
      _ ≤ 10 ^ (-exponent).toNat := two_pow_le_ten_pow _
  split <;> rename_i sign
  · have whole : (-exponent).toNat = 0 := by omega
    rw [whole, Nat.pow_zero]
    rfl
  · have fraction : exponent.toNat = 0 := by omega
    rw [fraction, Nat.pow_zero, Nat.mul_one]
    rfl

theorem ofDecimal?_refined (negative : Bool) (zeros : Nat) (d : Decimal) :
    ofDecimal? negative (d.refined zeros).digits (d.refined zeros).exponent =
      ofDecimal? negative d.digits d.exponent := by
  obtain ⟨digits, exponent⟩ := d
  rcases eq_or_ne digits 0 with rfl | h
  · simp [Decimal.refined, ofDecimal?]
  · have power (n : Nat) : 0 < 10 ^ n := Nat.pow_pos (by decide)
    have refined : digits * 10 ^ zeros ≠ 0 := Nat.mul_ne_zero h (power zeros).ne'
    simp only [Decimal.refined, Nat.pow_eq]
    rw [ofDecimal?_eq_nearest? refined, ofDecimal?_eq_nearest? h]
    refine nearest?_congr (power _) (power _) ?_ negative
    have exponents : zeros + (exponent - zeros).toNat + (-exponent).toNat =
        exponent.toNat + (-(exponent - zeros)).toNat := by omega
    rw [Nat.mul_assoc, Nat.mul_assoc, Nat.mul_assoc, ← Nat.pow_add, ← Nat.pow_add, ← Nat.pow_add, ← exponents]
    rw [Nat.add_assoc]

/-! ## Reading back -/

theorem nearest?_magnitude (x : Binary64) : nearest? x.negative x.magnitude unitsPerOne = some x := by
  obtain ⟨negative, significand, scale, canonical⟩ := x
  have unit : 0 < unitsPerOne := by
    unfold unitsPerOne
    generalize 1074 = units
    exact Nat.two_pow_pos units
  have scale_eq : Nat.log2 (significand * 2 ^ scale) - 52 = scale := by
    rcases canonical.2.2 with normal | rfl
    · have bits : Nat.log2 (significand * 2 ^ scale) = 52 + scale := by
        have positive : significand * 2 ^ scale ≠ 0 :=
          Nat.mul_ne_zero (Nat.ne_of_gt (Nat.lt_of_lt_of_le (Nat.two_pow_pos 52) normal)) (Nat.two_pow_pos scale).ne'
        rw [Nat.log2_eq_iff positive, Nat.pow_add, Nat.add_right_comm, Nat.pow_add]
        exact ⟨Nat.mul_le_mul_right _ normal, Nat.mul_lt_mul_of_pos_right canonical.1 (Nat.two_pow_pos scale)⟩
      omega
    · rw [Nat.pow_zero, Nat.mul_one]
      rcases eq_or_ne significand 0 with rfl | positive
      · rfl
      · have := (Nat.log2_lt positive).mpr canonical.1
        omega
  have rounded : roundHalfEven (significand * 2 ^ scale * unitsPerOne) (unitsPerOne * 2 ^ scale) = significand := by
    rw [Nat.mul_assoc, Nat.mul_comm (2 ^ scale)]
    exact roundHalfEven_mul significand (Nat.mul_pos unit (Nat.two_pow_pos scale))
  simp only [nearest?, magnitude, Nat.pow_eq, Nat.mul_div_cancel _ unit, scale_eq, rounded]
  rw [if_neg (Nat.ne_of_lt canonical.1)]
  exact dif_pos canonical

theorem ofDecimal?_expansion {x : Binary64} (h : x.magnitude ≠ 0) :
    ofDecimal? x.negative x.expansion.digits x.expansion.exponent = some x := by
  obtain ⟨units, unit, digits⟩ :
      ∃ units : Nat, unitsPerOne = Nat.pow 2 units ∧ x.expansion = ⟨x.magnitude * Nat.pow 5 units, -units⟩ :=
    ⟨_, rfl, rfl⟩
  simp only [Nat.pow_eq] at unit digits
  have positive : x.magnitude * 5 ^ units ≠ 0 := Nat.mul_ne_zero h (Nat.pow_pos (by decide)).ne'
  have whole : (-(units : Int)).toNat = 0 := by omega
  rw [digits, ofDecimal?_eq_nearest? positive, whole, Nat.pow_zero, Nat.mul_one, neg_neg, Int.toNat_natCast,
    show 10 = 5 * 2 from rfl, Nat.mul_pow, Nat.mul_comm, nearest?_scaled (Nat.pow_pos (by decide)), ← unit,
    nearest?_magnitude]

@[simp] theorem magnitude_zero (negative : Bool) : (zero negative).magnitude = 0 := by
  rw [zero, magnitude, Nat.zero_mul]

theorem eq_zero_of_magnitude {x : Binary64} (h : x.magnitude = 0) : x = zero x.negative := by
  obtain ⟨negative, significand, scale, canonical⟩ := x
  obtain rfl : significand = 0 := (Nat.mul_eq_zero.mp h).resolve_right (Nat.two_pow_pos scale).ne'
  obtain rfl : scale = 0 := canonical.2.2.resolve_left (Nat.not_le_of_lt (Nat.two_pow_pos 52))
  rfl

theorem ofDecimal?_zero (negative : Bool) (exponent : Int) : ofDecimal? negative 0 exponent = some (zero negative) :=
  if_pos rfl

theorem readsBack_iff {x : Binary64} {d : Decimal} :
    x.readsBack d = true ↔ ofDecimal? x.negative d.digits d.exponent = some x := by
  rw [readsBack, decide_eq_true_iff]

theorem exists_shortest {x : Binary64} (h : x.magnitude ≠ 0) :
    ∃ d : Decimal, x.readsBack d = true ∧ x.shortest = d.dropZeros (digitCount d.digits) := by
  rw [shortest, if_neg h]
  refine ⟨_, ?_, rfl⟩
  cases found : (List.range 17).findSome? fun (finer : Nat) =>
      (x.neighbours (x.leadingExponent - finer)).find? x.readsBack with
  | none => exact readsBack_iff.mpr (ofDecimal?_expansion h)
  | some d =>
      obtain ⟨finer, -, among⟩ := List.exists_of_findSome?_eq_some found
      exact List.find?_some among

theorem ofDecimal?_shortest (x : Binary64) :
    ofDecimal? x.negative x.shortest.digits x.shortest.exponent = some x := by
  by_cases h : x.magnitude = 0
  · rw [shortest, if_pos h, ofDecimal?_zero, ← eq_zero_of_magnitude h]
  · obtain ⟨d, reads, shortest⟩ := exists_shortest h
    obtain ⟨zeros, refined⟩ := d.exists_refined_dropZeros (digitCount d.digits)
    rw [shortest, ← ofDecimal?_refined _ zeros, ← refined, readsBack_iff.mp reads]

theorem exponent_shortest_of_zero {x : Binary64} (h : x.shortest.digits = 0) : x.shortest.exponent = 0 := by
  have zero := ofDecimal?_shortest x
  rw [h, ofDecimal?_zero, Option.some_inj] at zero
  have magnitude : x.magnitude = 0 := (congrArg Binary64.magnitude zero).symm.trans (magnitude_zero _)
  rw [shortest, if_pos magnitude]

end Binary64

end DocQuery
