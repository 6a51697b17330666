import DocQuery.Number.Binary64

/-!
# The shortest decimal numeral of a number

Of all decimal numerals that read back as a given number, the shortest is the one with the fewest digits,
and of those the nearest to the number, a tie going to the even digit.  A grid is the set of multiples of
a power of ten.  If a point of a grid reads back as the number, so does one of the number's two neighbours
on that grid; so it suffices to try these two, on grids from the coarsest that matters to the finest.
-/

namespace DocQuery

structure Decimal where
  digits : Nat
  exponent : Int
deriving DecidableEq

namespace Decimal

def dropZeros : Nat → Decimal → Decimal
  | 0, d => d
  | bound + 1, d =>
      if d.digits % 10 = 0 then dropZeros bound ⟨d.digits / 10, d.exponent + 1⟩ else d

end Decimal

namespace Binary64

def digitCount (n : Nat) : Nat := (Nat.toDigits 10 n).length

def leadingExponent (x : Binary64) : Int :=
  if unitsPerOne ≤ x.magnitude then digitCount (x.magnitude / unitsPerOne) - 1
  else -digitCount ((unitsPerOne + x.magnitude - 1) / x.magnitude - 1)

/-- The neighbours of the number on the grid of `10 ^ exponent`, the nearer one first. -/
def neighbours (x : Binary64) (exponent : Int) : List Decimal :=
  let num := if 0 ≤ exponent then x.magnitude else x.magnitude * Nat.pow 10 (-exponent).toNat
  let den := if 0 ≤ exponent then unitsPerOne * Nat.pow 10 exponent.toNat else unitsPerOne
  let below := num / den
  if roundHalfEven num den = below then [⟨below, exponent⟩, ⟨below + 1, exponent⟩]
  else [⟨below + 1, exponent⟩, ⟨below, exponent⟩]

def readsBack (x : Binary64) (d : Decimal) : Bool :=
  ofDecimal? x.negative d.digits d.exponent = some x

def expansion (x : Binary64) : Decimal := ⟨x.magnitude * Nat.pow 5 1074, -1074⟩

/-- The shortest numeral that reads back.  Seventeen digits are always enough, and the full expansion
stands where no shorter numeral does. -/
def shortest (x : Binary64) : Decimal :=
  if x.magnitude = 0 then ⟨0, 0⟩
  else
    let leading := x.leadingExponent
    let found := (List.range 17).findSome? fun (finer : Nat) =>
      (x.neighbours (leading - finer)).find? x.readsBack
    let d := found.getD x.expansion
    d.dropZeros (digitCount d.digits)

end Binary64

end DocQuery
