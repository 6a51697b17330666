namespace DocQuery.Text

/-! ## Blank characters -/

/-- The ranges of the Unicode property White_Space. -/
def blankRanges : List (Nat × Nat) :=
  [(0x09, 0x0D), (0x20, 0x20), (0x85, 0x85), (0xA0, 0xA0), (0x1680, 0x1680), (0x2000, 0x200A),
   (0x2028, 0x2029), (0x202F, 0x202F), (0x205F, 0x205F), (0x3000, 0x3000)]

def isBlank (c : Char) : Bool :=
  blankRanges.any fun range => range.1 ≤ c.toNat && c.toNat ≤ range.2

def trimLeft (cs : List Char) : List Char := cs.dropWhile isBlank

def trimRight (cs : List Char) : List Char := (cs.reverse.dropWhile isBlank).reverse

def trim (cs : List Char) : List Char := trimRight (trimLeft cs)

def trimmed (s : String) : String := String.ofList (trim s.toList)

def lowered (s : String) : String := String.ofList (s.toList.map Char.toLower)

/-! ## Decimal digits -/

def isDigit (c : Char) : Bool := '0' ≤ c && c ≤ '9'

def digitValue (c : Char) : Nat := c.toNat - 48

def ofDigits (cs : List Char) : Nat := cs.foldl (fun n c => 10 * n + digitValue c) 0

def digits (n : Nat) : List Char := Nat.toDigits 10 n

/-- Reads an unsigned number of at most `limit`; nothing but the sign and the digits may stand there. -/
def unsigned? (limit : Nat) (cs : List Char) : Option Nat :=
  let unsignedPart := match cs with
    | '+' :: rest => rest
    | _ => cs
  if unsignedPart ≠ [] ∧ unsignedPart.all isDigit ∧ ofDigits unsignedPart ≤ limit then
    some (ofDigits unsignedPart)
  else none

def wordLimit : Nat := 18446744073709551615

/-! ## Splitting -/

def consFirst (c : Char) : List (List Char) → List (List Char)
  | [] => [[c]]
  | part :: parts => (c :: part) :: parts

def splitOn (separator : Char) : List Char → List (List Char)
  | [] => [[]]
  | c :: rest =>
      if c = separator then [] :: splitOn separator rest
      else consFirst c (splitOn separator rest)

end DocQuery.Text
