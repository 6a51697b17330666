import DocQuery.Value.Basic
import DocQuery.Number.Numeral

namespace DocQuery

namespace Text

def escapedChar (c : Char) : List Char :=
  match c with
  | '"' => ['\\', '"']
  | '\\' => ['\\', '\\']
  | '\x08' => ['\\', 'b']
  | '\x0c' => ['\\', 'f']
  | '\n' => ['\\', 'n']
  | '\r' => ['\\', 'r']
  | '\t' => ['\\', 't']
  | _ =>
      if c.toNat < 0x20 then
        ['\\', 'u', '0', '0', Nat.digitChar (c.toNat / 16), Nat.digitChar (c.toNat % 16)]
      else [c]

def stringLiteral (s : String) : List Char := '"' :: s.toList.flatMap escapedChar ++ ['"']

end Text

namespace Value

open Text

def scalarChars : Value → List Char
  | null => ['n', 'u', 'l', 'l']
  | bool true => ['t', 'r', 'u', 'e']
  | bool false => ['f', 'a', 'l', 's', 'e']
  | number n => n.numeral
  | string s => stringLiteral s
  | array _ => ['[', ']']
  | object _ => ['\x7b', '\x7d']

/-! ## Compact text -/

mutual

def chars : Value → List Char
  | array [] => ['[', ']']
  | array (x :: xs) => '[' :: chars x ++ moreItems xs
  | object [] => ['\x7b', '\x7d']
  | object ((key, x) :: rest) => '\x7b' :: stringLiteral key ++ ':' :: chars x ++ moreFields rest
  | scalar => scalarChars scalar

def moreItems : List Value → List Char
  | [] => [']']
  | x :: xs => ',' :: chars x ++ moreItems xs

def moreFields : List (String × Value) → List Char
  | [] => ['\x7d']
  | (key, x) :: rest => ',' :: stringLiteral key ++ ':' :: chars x ++ moreFields rest

end

def text (v : Value) : String := String.ofList v.chars

/-! ## Indented text -/

def newLine (level : Nat) : List Char := '\n' :: List.replicate (2 * level) ' '

mutual

def prettyChars (level : Nat) : Value → List Char
  | array [] => ['[', ']']
  | array (x :: xs) =>
      '[' :: newLine (level + 1) ++ prettyChars (level + 1) x ++ morePrettyItems level xs
  | object [] => ['\x7b', '\x7d']
  | object ((key, x) :: rest) =>
      '\x7b' :: newLine (level + 1) ++ stringLiteral key ++ [':', ' '] ++ prettyChars (level + 1) x
        ++ morePrettyFields level rest
  | scalar => scalarChars scalar

def morePrettyItems (level : Nat) : List Value → List Char
  | [] => newLine level ++ [']']
  | x :: xs =>
      ',' :: newLine (level + 1) ++ prettyChars (level + 1) x ++ morePrettyItems level xs

def morePrettyFields (level : Nat) : List (String × Value) → List Char
  | [] => newLine level ++ ['\x7d']
  | (key, x) :: rest =>
      ',' :: newLine (level + 1) ++ stringLiteral key ++ [':', ' '] ++ prettyChars (level + 1) x
        ++ morePrettyFields level rest

end

def prettyText (v : Value) : String := String.ofList (prettyChars 0 v)

end Value

end DocQuery
