import DocQuery.Text.Basic

namespace DocQuery

inductive Operator where
  | eq | ne | gt | gte | lt | lte | isIn | notIn
deriving DecidableEq

namespace Operator

def keyword : Operator → String
  | eq => "$eq"
  | ne => "$ne"
  | gt => "$gt"
  | gte => "$gte"
  | lt => "$lt"
  | lte => "$lte"
  | isIn => "$in"
  | notIn => "$nin"

def tokens : List (String × Operator) :=
  [("$eq", eq), ("eq", eq), ("=", eq), ("==", eq),
   ("$ne", ne), ("ne", ne), ("!=", ne), ("<>", ne),
   ("$gt", gt), ("gt", gt), (">", gt),
   ("$gte", gte), ("gte", gte), (">=", gte),
   ("$lt", lt), ("lt", lt), ("<", lt),
   ("$lte", lte), ("lte", lte), ("<=", lte),
   ("$in", isIn), ("in", isIn),
   ("$nin", notIn), ("nin", notIn), ("not in", notIn), ("not_in", notIn)]

def ofToken? (token : String) : Option Operator := tokens.lookup (Text.lowered (Text.trimmed token))

def ofToken (token : String) : Operator := (ofToken? token).getD eq

def expectsSequence : Operator → Bool
  | isIn | notIn => true
  | _ => false

def isOrdering : Operator → Bool
  | gt | gte | lt | lte => true
  | _ => false

def admits : Operator → Ordering → Bool
  | eq, o => o == .eq
  | ne, o => o != .eq
  | gt, o => o == .gt
  | gte, o => o != .lt
  | lt, o => o == .lt
  | lte, o => o != .gt
  | isIn, _ | notIn, _ => false

end Operator

end DocQuery
