import Mathlib.Algebra.Order.Field.Rat
import Mathlib.Data.Rat.Floor
import DocQuery.Proofs.Number.Order
import DocQuery.Proofs.Query.SortOrder

namespace DocQuery

namespace Binary64

variable (x : Binary64)

/-- What the number denotes; the unit is 2⁻¹⁰⁷⁴. -/
def value : ℚ := (if x.negative then -1 else 1) * x.significand * 2 ^ ((x.scale : ℤ) - 1074)

theorem unitsPerOne_pos_rat : (0 : ℚ) < unitsPerOne := by
  exact_mod_cast unitsPerOne_pos

theorem value_eq_units : x.value = x.units / unitsPerOne := by
  have power : (2 : ℚ) ^ ((x.scale : ℤ) - 1074) = (Nat.pow 2 x.scale : ℕ) / unitsPerOne := by
    unfold unitsPerOne
    generalize units : (1074 : ℕ) = exponent
    have unit : (1074 : ℤ) = exponent := congrArg Nat.cast units
    rw [unit, zpow_sub₀ two_ne_zero, zpow_natCast, zpow_natCast, Nat.pow_eq, Nat.pow_eq, Nat.cast_pow, Nat.cast_pow,
      Nat.cast_two]
  rw [value, power, ← mul_div_assoc, units, magnitude]
  congr 1
  split <;> push_cast <;> ring

theorem value_truncated : x.truncated.value = x.whole := by
  rw [value_eq_units, units_truncated, Int.cast_mul, Int.cast_natCast, mul_div_cancel_right₀]
  exact unitsPerOne_pos_rat.ne'

theorem whole_eq_rounded : x.whole = if 0 ≤ x.value then ⌊x.value⌋ else ⌈x.value⌉ := by
  have sign : 0 ≤ x.value ↔ 0 ≤ x.units := by
    rw [value_eq_units, le_div_iff₀ unitsPerOne_pos_rat, zero_mul, Int.cast_nonneg_iff]
  rw [whole, value_eq_units, Rat.floor_intCast_div_natCast, Rat.ceil_intCast_div_natCast, ← value_eq_units]
  split <;> rename_i positive
  · exact Int.tdiv_eq_ediv_of_nonneg (sign.mp positive)
  · have negative : 0 ≤ -x.units := by
      have := mt sign.mpr positive
      omega
    rw [← Int.tdiv_eq_ediv_of_nonneg negative, Int.neg_tdiv, neg_neg]

end Binary64

namespace Float64

theorem toWord_exact (x : Binary64) :
    ((finite x).compare? (finite (limit false))).any Ordering.isGE = true ∨
      ((finite x).compare? (finite (limit true))).any Ordering.isLT = true ∨
      ((finite x).truncated.toWord : ℚ) = x.truncated.value := by
  rw [isGE_limit_iff, isLT_limit_iff]
  rcases Int.lt_or_le x.units ((greatestWord + 1) * Binary64.unitsPerOne) with high | above
  · rcases Int.lt_or_le x.units (leastWord * Binary64.unitsPerOne) with below | low
    · exact .inr (.inl below)
    · exact .inr (.inr (by rw [toWord_truncated low high, x.value_truncated]))
  · exact .inl above

end Float64

namespace Number

def value : Number → ℚ
  | int i _ => i
  | float x => x.value

theorem value_eq_units (n : Number) : n.value = n.units / Binary64.unitsPerOne := by
  cases n with
  | int i _ =>
      rw [value, units, Int.cast_mul, Int.cast_natCast, mul_div_cancel_right₀]
      exact Binary64.unitsPerOne_pos_rat.ne'
  | float x => exact x.value_eq_units

theorem compare?_eq_value (m n : Number) : m.compare? n = some (compare m.value n.value) := by
  have scaled : StrictMono fun units : ℤ => (units : ℚ) / Binary64.unitsPerOne := fun _ _ less =>
    div_lt_div_of_pos_right (Int.cast_lt.mpr less) Binary64.unitsPerOne_pos_rat
  rw [compare?_eq_units, value_eq_units, value_eq_units, ← cmp_eq_compare, ← cmp_eq_compare]
  exact congrArg some (scaled.cmp_map_eq m.units n.units).symm

/-- Two numbers can always be compared, and they compare as the rational numbers that they denote; on the way nothing is
lost. -/
theorem compare?_exact :
    (∀ m n : Number, m.compare? n = some (compare m.value n.value)) ∧
    (∀ m n : Number, m.compare? n = some (m.compare n)) ∧ OrdersTotally Number.compare ∧
    (∀ negative negative' : Bool,
      (int 0 (by decide)).compare? (float (.zero negative)) = some .eq ∧
      (float (.zero negative)).compare? (float (.zero negative')) = some .eq) ∧
    ∀ x : Binary64, (x.truncated.value = if 0 ≤ x.value then (⌊x.value⌋ : ℚ) else ⌈x.value⌉) ∧
      (((Float64.finite x).compare? (.finite (Float64.limit false))).any Ordering.isGE = true ∨
        ((Float64.finite x).compare? (.finite (Float64.limit true))).any Ordering.isLT = true ∨
        ((Float64.finite x).truncated.toWord : ℚ) = x.truncated.value) := by
  refine ⟨compare?_eq_value, compare?_eq_some, ordersTotally_of_transCmp _, fun negative negative' => ?_,
    fun x => ⟨?_, Float64.toWord_exact x⟩⟩
  · have zero (negative : Bool) : (float (.zero negative)).value = 0 := by
      simp [value, Binary64.value, Binary64.zero]
    rw [compare?_eq_value, compare?_eq_value, zero, zero]
    exact ⟨rfl, rfl⟩
  · rw [x.value_truncated, x.whole_eq_rounded]
    split <;> rfl

end Number

end DocQuery
