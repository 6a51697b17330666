import DocQuery.Filter.Assembly
import DocQuery.Store.Collection

namespace DocQuery

inductive Setting where
  | database | table
deriving DecidableEq

def Setting.label : Setting → String
  | database => "database name"
  | table => "table name"

inductive QueryError where
  | notSet (setting : Setting)
  | connection (reason : String)
  | filter (cause : AssemblyError)
  | store (cause : StoreError)
  | notADocument (kind : String)
  | serialization

namespace QueryError

def message : QueryError → String
  | notSet setting => setting.label ++ " has not been set"
  | connection reason => "could not connect to database: " ++ reason
  | filter cause => cause.message
  | store cause => cause.message
  | notADocument kind => "expected a document (JSON object), got " ++ kind
  | serialization => "document conversion failed"

def ofStore : StoreError → QueryError
  | .unreachable reason => connection reason
  | cause => store cause

end QueryError

inductive Operation where
  | find | findOne | insertOne | insertMany | updateMany | deleteMany | countDocuments
deriving DecidableEq

def Operation.label : Operation → String
  | find => "find"
  | findOne => "find_one"
  | insertOne => "insert_one"
  | insertMany => "insert_many"
  | updateMany => "update_many"
  | deleteMany => "delete_many"
  | countDocuments => "count_documents"

inductive Level where
  | debug | warn
deriving DecidableEq

def Level.label : Level → String
  | debug => "DEBUG"
  | warn => "WARN"

inductive Event where
  | storeUnreachable (uri : String) (cause : StoreError)
  | executing (ns : Namespace) (operation : Operation) (filter : Value)
  | failed (ns : Namespace) (operation : Operation) (cause : QueryError)
  | unknownOperator (token : String)
  | unnamedField (operator : Operator)
  | emptyGroup (depth : Nat)
  | seeding (database table : String) (documents : Nat)
  | seedNotLoaded

namespace Event

def level : Event → Level
  | storeUnreachable .. | seedNotLoaded => .warn
  | _ => .debug

def message : Event → String
  | storeUnreachable .. => "store unreachable, queries will fail"
  | executing .. => "executing query"
  | failed .. => "query failed"
  | unknownOperator _ => "unknown comparison operator, using $eq"
  | unnamedField _ => "ignoring condition with empty field name"
  | emptyGroup _ => "discarding empty condition group"
  | seeding .. => "seeding table"
  | seedNotLoaded => "no database selected, seed file not loaded"

def details : Event → List (String × String)
  | storeUnreachable uri cause => [("uri", uri), ("error", cause.message)]
  | executing ns operation filter =>
      [("namespace", ns.text), ("operation", operation.label), ("filter", filter.text)]
  | failed ns operation cause =>
      [("namespace", ns.text), ("operation", operation.label), ("error", cause.message)]
  | unknownOperator token => [("token", token)]
  | unnamedField operator => [("op", operator.keyword)]
  | emptyGroup depth => [("depth", toString depth)]
  | seeding database table documents =>
      [("database", database), ("table", table), ("documents", toString documents)]
  | seedNotLoaded => []

end Event

end DocQuery
