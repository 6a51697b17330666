import DocQuery.Number.Basic
import DocQuery.Number.Shortest
import DocQuery.Text.Basic

namespace DocQuery.Number

open Text

/-! ## Writing -/

def isPositional (leading : Int) : Bool := -5 ≤ leading && leading ≤ 15

def positionalNumeral (ds : List Char) (exponent : Int) : List Char :=
  let leading := exponent + ds.length - 1
  if 0 ≤ exponent then ds ++ List.replicate exponent.toNat '0' ++ ['.', '0']
  else if 0 ≤ leading then ds.take (leading + 1).toNat ++ '.' :: ds.drop (leading + 1).toNat
  else ['0', '.'] ++ List.replicate (-leading - 1).toNat '0' ++ ds

def scientificNumeral (ds : List Char) (exponent : Int) : List Char :=
  let leading := exponent + ds.length - 1
  let mantissa := match ds with
    | first :: second :: rest => first :: '.' :: second :: rest
    | short => short
  let sign := if leading < 0 then '-' else '+'
  mantissa ++ 'e' :: sign :: digits leading.natAbs

def decimalNumeral (d : Decimal) : List Char :=
  let ds := digits d.digits
  if isPositional (d.exponent + ds.length - 1) then positionalNumeral ds d.exponent
  else scientificNumeral ds d.exponent

def numeral : Number → List Char
  | int i _ => if i < 0 then '-' :: digits i.natAbs else digits i.natAbs
  | float x => if x.negative then '-' :: decimalNumeral x.shortest else decimalNumeral x.shortest

/-! ## Reading -/

def isNumeralChar (c : Char) : Bool :=
  isDigit c || c = '-' || c = '+' || c = '.' || c = 'e' || c = 'E'

def readFraction? : List Char → Option (List Char × List Char)
  | '.' :: rest =>
      let ds := rest.takeWhile isDigit
      if ds = [] then none else some (ds, rest.dropWhile isDigit)
  | rest => some ([], rest)

def readExponent? (cs : List Char) : Option Int :=
  let (negative, ds) := match cs with
    | '-' :: rest => (true, rest)
    | '+' :: rest => (false, rest)
    | _ => (false, cs)
  if ds ≠ [] ∧ ds.all isDigit then
    some (if negative then -(ofDigits ds : Int) else ofDigits ds)
  else none

def ofWholeDigits? (negative : Bool) (n : Nat) : Option Number :=
  let i : Int := if negative then -n else n
  if negative ∧ n = 0 then some (float (Binary64.zero true))
  else if isWord : IsWord i then some (int i isWord)
  else (Binary64.ofDecimal? negative n 0).map float

def ofNumeral? (cs : List Char) : Option Number :=
  let (negative, unsignedPart) := match cs with
    | '-' :: rest => (true, rest)
    | _ => (false, cs)
  let whole := unsignedPart.takeWhile isDigit
  let afterWhole := unsignedPart.dropWhile isDigit
  if whole = [] ∨ (whole.head? = some '0' ∧ 1 < whole.length) then none
  else if afterWhole = [] then ofWholeDigits? negative (ofDigits whole)
  else do
    let (fraction, afterFraction) ← readFraction? afterWhole
    let exponent ← match afterFraction with
      | [] => some 0
      | mark :: rest => if mark = 'e' ∨ mark = 'E' then readExponent? rest else none
    let x ← Binary64.ofDecimal? negative (ofDigits (whole ++ fraction)) (exponent - fraction.length)
    return float x

end DocQuery.Number
