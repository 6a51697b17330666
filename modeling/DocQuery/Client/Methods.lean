import DocQuery.Client.Query

namespace DocQuery

inductive ConditionCall where
  | has (field : String) (operand : Value)
  | orHas (field : String) (operand : Value)
  | compare (field : String) (operator : Operator) (operand : Value)
  | orCompare (field : String) (operator : Operator) (operand : Value)
  | compareByToken (field : String) (operand : Value) (token : String)
  | orCompareByToken (field : String) (operand : Value) (token : String)
  | equal (field : String) (operand : Value)
  | notEqual (field : String) (operand : Value)
  | greater (field : String) (operand : Value)
  | greaterOrEqual (field : String) (operand : Value)
  | less (field : String) (operand : Value)
  | lessOrEqual (field : String) (operand : Value)
  | oneOf (field : String) (candidates : List Value)
  | noneOf (field : String) (candidates : List Value)
  | orEqual (field : String) (operand : Value)
  | orNotEqual (field : String) (operand : Value)
  | orGreater (field : String) (operand : Value)
  | orGreaterOrEqual (field : String) (operand : Value)
  | orLess (field : String) (operand : Value)
  | orLessOrEqual (field : String) (operand : Value)
  | orOneOf (field : String) (candidates : List Value)
  | orNoneOf (field : String) (candidates : List Value)
  | group (calls : List ConditionCall)
  | orGroup (calls : List ConditionCall)

namespace ConditionCall

mutual

/-- What the method of a scope adds to its group. -/
def inScope : ConditionCall → ConditionStep
  | has field operand => .equal .and field operand
  | orHas field operand => .equal .or field operand
  | compare field operator operand => .compare .and field operator operand
  | orCompare field operator operand => .compare .or field operator operand
  | compareByToken field operand token => .compareByToken .and field token operand
  | orCompareByToken field operand token => .compareByToken .or field token operand
  | equal field operand => .equal .and field operand
  | notEqual field operand => .notEqual .and field operand
  | greater field operand => .greater .and field operand
  | greaterOrEqual field operand => .greaterOrEqual .and field operand
  | less field operand => .less .and field operand
  | lessOrEqual field operand => .lessOrEqual .and field operand
  | oneOf field candidates => .oneOf .and field candidates
  | noneOf field candidates => .noneOf .and field candidates
  | orEqual field operand => .equal .or field operand
  | orNotEqual field operand => .notEqual .or field operand
  | orGreater field operand => .greater .or field operand
  | orGreaterOrEqual field operand => .greaterOrEqual .or field operand
  | orLess field operand => .less .or field operand
  | orLessOrEqual field operand => .lessOrEqual .or field operand
  | orOneOf field candidates => .oneOf .or field candidates
  | orNoneOf field candidates => .noneOf .or field candidates
  | group calls => .group .and (allInScope calls)
  | orGroup calls => .group .or (allInScope calls)

def allInScope : List ConditionCall → List ConditionStep
  | [] => []
  | call :: rest => inScope call :: allInScope rest

end

end ConditionCall

namespace Query

def handOn (call : ConditionCall) (q : Query) : Query := q.addCondition call.inScope

def compare (field : String) (operator : Operator) (operand : Value) (q : Query) : Query :=
  q.handOn (.compare field operator operand)

def orCompare (field : String) (operator : Operator) (operand : Value) (q : Query) : Query :=
  q.handOn (.orCompare field operator operand)

def call (q : Query) : ConditionCall → Query
  | .has field operand => q.compare field .eq operand
  | .orHas field operand => q.orCompare field .eq operand
  | .compare field operator operand => q.compare field operator operand
  | .orCompare field operator operand => q.orCompare field operator operand
  | .compareByToken field operand token => q.handOn (.compareByToken field operand token)
  | .orCompareByToken field operand token => q.handOn (.orCompareByToken field operand token)
  | .equal field operand => q.compare field .eq operand
  | .notEqual field operand => q.compare field .ne operand
  | .greater field operand => q.compare field .gt operand
  | .greaterOrEqual field operand => q.compare field .gte operand
  | .less field operand => q.compare field .lt operand
  | .lessOrEqual field operand => q.compare field .lte operand
  | .oneOf field candidates => q.compare field .isIn (.array candidates)
  | .noneOf field candidates => q.compare field .notIn (.array candidates)
  | .orEqual field operand => q.orCompare field .eq operand
  | .orNotEqual field operand => q.orCompare field .ne operand
  | .orGreater field operand => q.orCompare field .gt operand
  | .orGreaterOrEqual field operand => q.orCompare field .gte operand
  | .orLess field operand => q.orCompare field .lt operand
  | .orLessOrEqual field operand => q.orCompare field .lte operand
  | .orOneOf field candidates => q.orCompare field .isIn (.array candidates)
  | .orNoneOf field candidates => q.orCompare field .notIn (.array candidates)
  | .group calls => q.handOn (.group calls)
  | .orGroup calls => q.handOn (.orGroup calls)

def callAll (calls : List ConditionCall) (q : Query) : Query := calls.foldl call q

end Query

end DocQuery
