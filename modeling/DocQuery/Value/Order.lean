import DocQuery.Value.Basic

namespace DocQuery.Value

/-! ## Equality -/

mutual

def equiv : Value → Value → Bool
  | null, null => true
  | bool b, bool c => b == c
  | number m, number n => m.compare? n == some .eq
  | string s, string t => s == t
  | array xs, array ys => equivItems xs ys
  | object xs, object ys => xs.length == ys.length && equivFields xs ys
  | _, _ => false

def equivItems : List Value → List Value → Bool
  | [], [] => true
  | x :: xs, y :: ys => equiv x y && equivItems xs ys
  | _, _ => false

def equivFields : List (String × Value) → Document → Bool
  | [], _ => true
  | (key, x) :: rest, doc =>
      (match doc.get? key with
        | some y => equiv x y
        | none => false) && equivFields rest doc

end

/-! ## Comparison within a kind -/

def compareAlike : Value → Value → Option Ordering
  | number m, number n => m.compare? n
  | string s, string t => some (compare s t)
  | bool b, bool c => some (compare b c)
  | null, null => some .eq
  | _, _ => none

/-! ## The order for sorting -/

def rank : Value → Nat
  | null => 0
  | number _ => 1
  | string _ => 2
  | object _ => 3
  | array _ => 4
  | bool _ => 5

mutual

def order : Value → Value → Ordering
  | number m, number n => m.compare n
  | string s, string t => compare s t
  | bool b, bool c => compare b c
  | array xs, array ys => orderItems xs ys
  | object xs, object ys => orderFields xs ys
  | x, y => compare x.rank y.rank

def orderItems : List Value → List Value → Ordering
  | [], [] => .eq
  | [], _ :: _ => .lt
  | _ :: _, [] => .gt
  | x :: xs, y :: ys => (order x y).then (orderItems xs ys)

def orderFields : List (String × Value) → List (String × Value) → Ordering
  | [], [] => .eq
  | [], _ :: _ => .lt
  | _ :: _, [] => .gt
  | (k, x) :: xs, (l, y) :: ys => (compare k l).then ((order x y).then (orderFields xs ys))

end

def orderMissing (x y : Option Value) : Ordering := order (x.getD null) (y.getD null)

end DocQuery.Value
