/-!
# Finite binary floating-point numbers of 64 bits

A finite number of the format is a whole multiple of the least positive one, 2⁻¹⁰⁷⁴, so it is held as a
sign and a magnitude counted in these units, in the canonical form `significand * 2 ^ scale`.
-/

namespace DocQuery

/-- The significand has at most 53 bits, all of them used unless the scale is the least one. -/
structure Binary64 where
  negative : Bool
  significand : Nat
  scale : Nat
  canonical : significand < Nat.pow 2 53 ∧ scale ≤ 2045 ∧ (Nat.pow 2 52 ≤ significand ∨ scale = 0)
deriving DecidableEq

def roundHalfEven (num den : Nat) : Nat :=
  let quotient := num / den
  let remainder := num % den
  if 2 * remainder < den then quotient
  else if den < 2 * remainder then quotient + 1
  else quotient + quotient % 2

namespace Binary64

def unitsPerOne : Nat := Nat.pow 2 1074

def magnitude (x : Binary64) : Nat := x.significand * Nat.pow 2 x.scale

def units (x : Binary64) : Int := if x.negative then -x.magnitude else x.magnitude

def whole (x : Binary64) : Int := x.units.tdiv unitsPerOne

protected def compare (x y : Binary64) : Ordering := compare x.units y.units

def zero (negative : Bool) : Binary64 := ⟨negative, 0, 0, by decide⟩

theorem canonical_cut {significand scale bits : Nat} (few : bits ≤ 52)
    (canonical : significand < Nat.pow 2 53 ∧ scale ≤ 2045 ∧ (Nat.pow 2 52 ≤ significand ∨ scale = 0)) :
    significand / Nat.pow 2 bits * Nat.pow 2 bits < Nat.pow 2 53 ∧ scale ≤ 2045 ∧
      (Nat.pow 2 52 ≤ significand / Nat.pow 2 bits * Nat.pow 2 bits ∨ scale = 0) := by
  obtain ⟨below, bounded, normal⟩ := canonical
  refine ⟨Nat.lt_of_le_of_lt (Nat.div_mul_le_self ..) below, bounded, normal.imp_left fun above => ?_⟩
  -- the bits that are cut off lie below the leading one
  obtain ⟨higher, split⟩ := Nat.pow_dvd_pow 2 few
  have leading : Nat.pow 2 52 = higher * Nat.pow 2 bits := split.trans (Nat.mul_comm ..)
  rw [leading] at above ⊢
  exact Nat.mul_le_mul_right _ ((Nat.le_div_iff_mul_le (Nat.two_pow_pos bits)).mpr above)

def truncated (x : Binary64) : Binary64 :=
  let bits := 1074 - x.scale
  if few : bits ≤ 52 then
    ⟨x.negative, x.significand / Nat.pow 2 bits * Nat.pow 2 bits, x.scale, canonical_cut few x.canonical⟩
  else zero x.negative

def ofParts? (negative : Bool) (significand scale : Nat) : Option Binary64 :=
  if canonical : significand < Nat.pow 2 53 ∧ scale ≤ 2045 ∧ (Nat.pow 2 52 ≤ significand ∨ scale = 0) then
    some ⟨negative, significand, scale, canonical⟩
  else none

/-- The number nearest to `num / den`; there is none from half a unit in the last place above the
greatest number on. -/
def nearest? (negative : Bool) (num den : Nat) : Option Binary64 :=
  let scale := Nat.log2 (num * unitsPerOne / den) - 52
  let significand := roundHalfEven (num * unitsPerOne) (den * Nat.pow 2 scale)
  if significand = Nat.pow 2 53 then ofParts? negative (Nat.pow 2 52) (scale + 1)
  else ofParts? negative significand scale

/-- The number nearest to `digits * 10 ^ exponent`.  Exponents far outside the format are settled without
computing the power: above 10⁴⁰⁰ there is no number, and below 2⁻¹²⁰⁰ zero is nearest. -/
def ofDecimal? (negative : Bool) (digits : Nat) (exponent : Int) : Option Binary64 :=
  if digits = 0 then some (zero negative)
  else if 400 < exponent then none
  else if digits.log2 + 1 + 3 * exponent < -1200 then some (zero negative)
  else if 0 ≤ exponent then nearest? negative (digits * Nat.pow 10 exponent.toNat) 1
  else nearest? negative digits (Nat.pow 10 (-exponent).toNat)

end Binary64

end DocQuery
