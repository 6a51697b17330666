import DocQuery.Number.Binary64

/-!
# Numbers

The two kinds of numbers are told apart when a number is written, but not when it is compared: comparison is by value,
and an integer is never rounded for it.  Instead the floating-point value is truncated and its whole part is cast to a
128-bit word; only where that agrees with the integer the fraction decides.  The cast stops at the ends of the word, so
what lies beyond them is told apart before.
-/

namespace DocQuery

inductive Float64 where
  | finite (x : Binary64)
  | infinite (negative : Bool)
  | nan
deriving DecidableEq

namespace Float64

def compare? : Float64 → Float64 → Option Ordering
  | finite x, finite y => some (x.compare y)
  | finite _, infinite negative => some (if negative then .gt else .lt)
  | infinite negative, finite _ => some (if negative then .lt else .gt)
  | infinite negative, infinite negative' => some (compare negative' negative)
  | _, _ => none

def truncated : Float64 → Float64
  | finite x => finite x.truncated
  | special => special

def leastWord : Int := -170141183460469231731687303715884105728
def greatestWord : Int := 170141183460469231731687303715884105727

/-- The cast to a signed word of 128 bits: towards zero, and no further than the ends of the word. -/
def toWord : Float64 → Int
  | finite x => max leastWord (min greatestWord x.whole)
  | infinite negative => if negative then leastWord else greatestWord
  | nan => 0

/-- The powers 2¹²⁷ and -2¹²⁷, between which lie the words of 128 bits. -/
def limit (negative : Bool) : Binary64 := ⟨negative, Nat.pow 2 52, 1149, by decide⟩

def compareInt? (i : Int) (x : Float64) : Option Ordering :=
  if x = nan then none
  else if (x.compare? (finite (limit false))).any Ordering.isGE then some .lt
  else if (x.compare? (finite (limit true))).any Ordering.isLT then some .gt
  else
    match compare i x.truncated.toWord with
    | .eq => x.truncated.compare? x
    | unequal => some unequal

end Float64

/-- The integers of a signed or an unsigned 64-bit word, from -2⁶³ to 2⁶⁴ - 1. -/
abbrev IsWord (i : Int) : Prop := -9223372036854775808 ≤ i ∧ i ≤ 18446744073709551615

inductive Number where
  | int (value : Int) (isWord : IsWord value)
  | float (value : Binary64)
deriving DecidableEq

namespace Number

protected def compare? : Number → Number → Option Ordering
  | int i _, int j _ => some (compare i j)
  | float x, float y => Float64.compare? (.finite x) (.finite y)
  | int i _, float y => Float64.compareInt? i (.finite y)
  | float x, int j _ => (Float64.compareInt? j (.finite x)).map .swap

/-- An undefined comparison would be a tie, but numbers can always be compared. -/
protected def compare (m n : Number) : Ordering := (m.compare? n).getD .eq

def ofInt? (i : Int) : Option Number :=
  if isWord : IsWord i then some (int i isWord)
  else (Binary64.nearest? (i < 0) i.natAbs 1).map float

end Number

end DocQuery
