import DocQuery.Number.Basic

/-!
# The order of numbers

Numbers compare as the integers that they are in units of the least positive floating-point number.  Where an integer
meets a floating-point number this needs an argument: what is truncated and cast to a word is whole and fits the word,
because a number beyond the ends of the word is told apart before, so nothing is rounded.
-/

namespace DocQuery

/-! ## Whole parts -/

namespace Binary64

theorem unitsPerOne_pos : (0 : Int) < unitsPerOne := by
  unfold unitsPerOne
  -- the power itself is not to be computed
  generalize 1074 = exponent
  exact Int.natCast_pos.mpr (Nat.two_pow_pos exponent)

theorem cut_scaled (significand scale : Nat) :
    significand * Nat.pow 2 scale / unitsPerOne * unitsPerOne =
      significand / Nat.pow 2 (1074 - scale) * Nat.pow 2 (1074 - scale) * Nat.pow 2 scale := by
  unfold unitsPerOne
  generalize 1074 = exponent
  simp only [Nat.pow_eq]
  rcases Nat.le_total scale exponent with fraction | whole
  · obtain ⟨bits, rfl⟩ := Nat.exists_eq_add_of_le' fraction
    rw [Nat.add_sub_cancel, Nat.pow_add, Nat.mul_div_mul_right _ _ (Nat.two_pow_pos scale), Nat.mul_assoc]
  · have multiple : 2 ^ exponent ∣ significand * 2 ^ scale :=
      Nat.dvd_mul_left_of_dvd (Nat.pow_dvd_pow 2 whole) significand
    rw [Nat.div_mul_cancel multiple, Nat.sub_eq_zero_of_le whole, Nat.pow_zero, Nat.div_one, Nat.mul_one]

theorem magnitude_truncated (x : Binary64) :
    x.truncated.magnitude = x.magnitude / unitsPerOne * unitsPerOne := by
  rw [magnitude, magnitude, cut_scaled, truncated]
  split <;> rename_i few
  · rfl
  · -- more bits lie below one than the significand has
    have below : x.significand < Nat.pow 2 (1074 - x.scale) :=
      Nat.lt_of_lt_of_le x.canonical.1 (Nat.pow_le_pow_right Nat.two_pos (Nat.lt_of_not_le few))
    rw [Nat.div_eq_of_lt below, Nat.zero_mul, Nat.zero_mul]
    exact Nat.zero_mul _

theorem negative_truncated (x : Binary64) : x.truncated.negative = x.negative := by
  rw [truncated]
  split <;> rfl

theorem whole_eq (x : Binary64) :
    x.whole = if x.negative then -((x.magnitude / unitsPerOne : Nat) : Int) else (x.magnitude / unitsPerOne : Nat) := by
  rw [whole, units, Int.ofNat_tdiv]
  split
  · exact Int.neg_tdiv _ _
  · rfl

theorem units_truncated (x : Binary64) : x.truncated.units = x.whole * unitsPerOne := by
  rw [whole_eq, units, negative_truncated, magnitude_truncated, Int.natCast_mul]
  split
  · rw [Int.neg_mul]
  · rfl

theorem whole_truncated (x : Binary64) : x.truncated.whole = x.whole := by
  rw [whole, units_truncated, Int.mul_tdiv_cancel _ (Int.ne_of_gt unitsPerOne_pos)]

end Binary64

/-! ## Integers beside floating-point numbers -/

/-- Where `n` is less than `d` away from `q * d`, a multiple of `d` compares with `n` as its factor does
with `q`, and on a tie as `q * d` does. -/
theorem compare_mul_eq_then {i q n d : Int} (below : q * d - d < n) (above : n < q * d + d) :
    compare (i * d) n = (compare i q).then (compare (q * d) n) := by
  have positive : 0 ≤ d := by omega
  rcases Int.lt_trichotomy i q with less | rfl | greater
  · have step := Int.mul_le_mul_of_nonneg_right (Int.add_one_le_of_lt less) positive
    rw [Int.add_mul, Int.one_mul] at step
    rw [Int.compare_eq_lt.mpr less, Int.compare_eq_lt.mpr (by omega), Ordering.lt_then]
  · rw [Int.compare_eq_eq.mpr rfl, Ordering.eq_then]
  · have step := Int.mul_le_mul_of_nonneg_right (Int.add_one_le_of_lt greater) positive
    rw [Int.add_mul, Int.one_mul] at step
    rw [Int.compare_eq_gt.mpr greater, Int.compare_eq_gt.mpr (by omega), Ordering.gt_then]

theorem compare_mul_right {i j d : Int} (positive : 0 < d) : compare (i * d) (j * d) = compare i j := by
  rw [compare_mul_eq_then (q := j) (by omega) (by omega), Int.compare_eq_eq.mpr rfl, Ordering.then_eq]

namespace Float64

open Binary64 (unitsPerOne unitsPerOne_pos)

variable {x : Binary64} {i : Int}

theorem magnitude_limit (negative : Bool) : (limit negative).magnitude = Nat.pow 2 127 * unitsPerOne := by
  unfold Binary64.magnitude limit unitsPerOne
  generalize units : 1074 = exponent
  have scale : 1149 = 75 + exponent := by omega
  dsimp only
  rw [scale]
  simp only [Nat.pow_eq, Nat.pow_add, ← Nat.mul_assoc]

theorem units_limit (negative : Bool) :
    (limit negative).units = (if negative then leastWord else greatestWord + 1) * unitsPerOne := by
  rw [Binary64.units, magnitude_limit, Int.natCast_mul]
  cases negative with
  | false => rfl
  | true => exact (Int.neg_mul ..).symm

theorem isGE_limit_iff :
    ((finite x).compare? (finite (limit false))).any Ordering.isGE = true ↔
      (greatestWord + 1) * unitsPerOne ≤ x.units := by
  rw [compare?, Option.any_some, Binary64.compare, Int.isGE_compare, units_limit]
  rfl

theorem isLT_limit_iff :
    ((finite x).compare? (finite (limit true))).any Ordering.isLT = true ↔ x.units < leastWord * unitsPerOne := by
  rw [compare?, Option.any_some, Binary64.compare, Ordering.isLT_iff_eq_lt, Int.compare_eq_lt, units_limit]
  rfl

theorem whole_within (low : leastWord * unitsPerOne ≤ x.units) (high : x.units < (greatestWord + 1) * unitsPerOne) :
    leastWord ≤ x.whole ∧ x.whole ≤ greatestWord := by
  refine ⟨Int.le_tdiv_of_mul_le unitsPerOne_pos low, ?_⟩
  rcases Int.le_total 0 x.units with positive | negative
  · rw [Binary64.whole, Int.tdiv_eq_ediv_of_nonneg positive]
    exact Int.le_of_lt_add_one (Int.ediv_lt_of_lt_mul unitsPerOne_pos high)
  · have below := Int.tdiv_le_tdiv unitsPerOne_pos negative
    rw [Int.zero_tdiv] at below
    exact Int.le_trans below (by decide)

theorem toWord_truncated (low : leastWord * unitsPerOne ≤ x.units)
    (high : x.units < (greatestWord + 1) * unitsPerOne) : (finite x).truncated.toWord = x.whole := by
  obtain ⟨least, greatest⟩ := whole_within low high
  rw [truncated, toWord, Binary64.whole_truncated, Int.min_eq_right greatest, Int.max_eq_right least]

theorem compareInt?_finite (x : Binary64) (least : leastWord ≤ i) (greatest : i ≤ greatestWord) :
    compareInt? i (finite x) = some (compare (i * unitsPerOne) x.units) := by
  have positive := unitsPerOne_pos
  have low := Int.mul_le_mul_of_nonneg_right least (Int.le_of_lt positive)
  have high := Int.mul_lt_mul_of_pos_right (Int.lt_add_one_of_le greatest) positive
  have isNumber : finite x ≠ nan := nofun
  simp only [compareInt?, if_neg isNumber, isGE_limit_iff, isLT_limit_iff]
  split <;> rename_i above
  · rw [Int.compare_eq_lt.mpr (Int.lt_of_lt_of_le high above)]
  split <;> rename_i below
  · rw [Int.compare_eq_gt.mpr (Int.lt_of_lt_of_le below low)]
  rw [toWord_truncated (Int.not_lt.mp below) (Int.not_le.mp above)]
  -- the whole part is the nearest integer towards zero, less than one away
  have split := Int.tdiv_mul_add_tmod x.units unitsPerOne
  have left := Int.lt_tmod_of_pos x.units positive
  have right := Int.tmod_lt_of_pos x.units positive
  rw [compare_mul_eq_then (q := x.whole) (by rw [Binary64.whole]; omega) (by rw [Binary64.whole]; omega),
    ← Binary64.units_truncated]
  cases compare i x.whole <;> rfl

end Float64

namespace Number

/-! ## The comparison of numbers -/

/-- The value, in units of the least positive floating-point number. -/
def units : Number → Int
  | int i _ => i * Binary64.unitsPerOne
  | float x => x.units

theorem compareInt?_isWord {i : Int} (isWord : IsWord i) (x : Binary64) :
    Float64.compareInt? i (.finite x) = some (compare (i * Binary64.unitsPerOne) x.units) :=
  Float64.compareInt?_finite x (Int.le_trans (by decide) isWord.1) (Int.le_trans isWord.2 (by decide))

theorem compare?_eq_units (m n : Number) : m.compare? n = some (compare m.units n.units) := by
  cases m with
  | int i isWord =>
      cases n with
      | int j _ => exact congrArg some (compare_mul_right Binary64.unitsPerOne_pos).symm
      | float y => exact compareInt?_isWord isWord y
  | float x =>
      cases n with
      | int j isWord =>
          rw [Number.compare?, compareInt?_isWord isWord, Option.map_some]
          exact congrArg some Std.OrientedOrd.eq_swap.symm
      | float y => rfl

theorem compare_eq_compareOn : Number.compare = compareOn units := by
  funext m n
  rw [Number.compare, compare?_eq_units]
  rfl

@[simp] theorem compare?_eq_some (m n : Number) : m.compare? n = some (m.compare n) := by
  rw [compare?_eq_units, compare_eq_compareOn]
  rfl

instance : Std.TransCmp Number.compare := by
  rw [compare_eq_compareOn]
  infer_instance

theorem compare_swap (m n : Number) : (m.compare n).swap = n.compare m := Std.OrientedCmp.eq_swap.symm

theorem compare_self (n : Number) : n.compare n = .eq := Std.ReflCmp.compare_self

theorem compare_eq_comm {m n : Number} : m.compare n = .eq ↔ n.compare m = .eq := Std.OrientedCmp.eq_comm

end Number

end DocQuery
