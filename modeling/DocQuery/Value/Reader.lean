import DocQuery.Value.Basic
import DocQuery.Number.Numeral

namespace DocQuery

abbrev Reader (α : Type) := List Char → Option (α × List Char)

namespace Reader

open Text

def isSeparator (c : Char) : Bool := c = ' ' || c = '\t' || c = '\n' || c = '\r'

def skipBlanks (cs : List Char) : List Char := cs.dropWhile isSeparator

/-! ## Strings -/

def hexValue? (c : Char) : Option Nat :=
  if isDigit c then some (digitValue c)
  else if 'a' ≤ c && c ≤ 'f' then some (c.toNat - 87)
  else if 'A' ≤ c && c ≤ 'F' then some (c.toNat - 55)
  else none

def codeUnit? (a b c d : Char) : Option Nat := do
  return ((← hexValue? a) * 16 + (← hexValue? b)) * 256 + ((← hexValue? c) * 16 + (← hexValue? d))

def isHighSurrogate (unit : Nat) : Bool := 0xD800 ≤ unit && unit < 0xDC00

def isLowSurrogate (unit : Nat) : Bool := 0xDC00 ≤ unit && unit < 0xE000

def surrogatePair (high low : Nat) : Char :=
  Char.ofNat (0x10000 + (high - 0xD800) * 0x400 + (low - 0xDC00))

def shortEscape? : Char → Option Char
  | '"' => some '"'
  | '\\' => some '\\'
  | '/' => some '/'
  | 'b' => some '\x08'
  | 'f' => some '\x0c'
  | 'n' => some '\n'
  | 'r' => some '\r'
  | 't' => some '\t'
  | _ => none

def consRead (c : Char) : Option (List Char × List Char) → Option (List Char × List Char) :=
  Option.map fun (read, rest) => (c :: read, rest)

def stringRest : Reader (List Char)
  | [] => none
  | '"' :: rest => some ([], rest)
  | '\\' :: 'u' :: a :: b :: c :: d :: rest =>
      match codeUnit? a b c d with
      | none => none
      | some unit =>
          if isHighSurrogate unit then
            match rest with
            | '\\' :: 'u' :: e :: f :: g :: h :: rest =>
                match codeUnit? e f g h with
                | none => none
                | some low =>
                    if isLowSurrogate low then consRead (surrogatePair unit low) (stringRest rest)
                    else none
            | _ => none
          else if isLowSurrogate unit then none
          else consRead (Char.ofNat unit) (stringRest rest)
  | '\\' :: c :: rest =>
      match shortEscape? c with
      | some e => consRead e (stringRest rest)
      | none => none
  | c :: rest => if c.toNat < 0x20 then none else consRead c (stringRest rest)

/-! ## Scalars -/

def scalar : Reader Value
  | 'n' :: 'u' :: 'l' :: 'l' :: rest => some (.null, rest)
  | 't' :: 'r' :: 'u' :: 'e' :: rest => some (.bool true, rest)
  | 'f' :: 'a' :: 'l' :: 's' :: 'e' :: rest => some (.bool false, rest)
  | '"' :: rest => (stringRest rest).map fun (s, rest) => (.string (String.ofList s), rest)
  | cs =>
      (Number.ofNumeral? (cs.takeWhile Number.isNumeralChar)).map fun n =>
        (.number n, cs.dropWhile Number.isNumeralChar)

/-! ## Arrays and objects

The items are read one by one until the closing bracket.  Each takes at least one character, so the length
of the text bounds their number. -/

def items {α : Type} (item : Reader α) (closing : Char) : Nat → Reader (List α)
  | 0, _ => none
  | bound + 1, cs => do
      let (x, rest) ← item cs
      match skipBlanks rest with
      | [] => none
      | c :: rest =>
          if c = ',' then do
            let (xs, rest) ← items item closing bound rest
            return (x :: xs, rest)
          else if c = closing then return ([x], rest)
          else none

def field (item : Reader Value) : Reader (String × Value) := fun cs =>
  match skipBlanks cs with
  | '"' :: rest => do
      let (name, rest) ← stringRest rest
      match skipBlanks rest with
      | ':' :: rest => do
          let (x, rest) ← item rest
          return ((String.ofList name, x), rest)
      | _ => none
  | _ => none

/-- A value in which arrays and objects nest at most `depth` deep; `bound` is the length of the text. -/
def value (bound : Nat) : Nat → Reader Value
  | 0 => fun cs => scalar (skipBlanks cs)
  | depth + 1 => fun cs =>
      match skipBlanks cs with
      | '[' :: rest =>
          match skipBlanks rest with
          | ']' :: rest => some (.array [], rest)
          | rest => (items (value bound depth) ']' bound rest).map fun (xs, rest) => (.array xs, rest)
      | '\x7b' :: rest =>
          match skipBlanks rest with
          | '\x7d' :: rest => some (.object [], rest)
          | rest =>
              (items (field (value bound depth)) '\x7d' bound rest).map fun (xs, rest) =>
                (.object (Document.ofFields xs), rest)
      | rest => scalar rest

end Reader

namespace Value

def ofTextWithin? (depth : Nat) (text : String) : Option Value := do
  let cs := text.toList
  let (v, rest) ← Reader.value cs.length depth cs
  if Reader.skipBlanks rest = [] then some v else none

def maxDepth : Nat := 127

def ofText? (text : String) : Option Value := ofTextWithin? maxDepth text

end Value

end DocQuery
