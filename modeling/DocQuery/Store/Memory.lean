import DocQuery.Store.Collection

namespace DocQuery

structure MemoryStore where
  reachable : Bool := true
  table : List (Namespace × Collection) := []
  calls : Nat := 0

namespace MemoryStore

def documents (s : MemoryStore) (ns : Namespace) : Collection := (s.table.lookup ns).getD []

def place (ns : Namespace) (docs : Collection) :
    List (Namespace × Collection) → List (Namespace × Collection)
  | [] => [(ns, docs)]
  | entry :: rest => if entry.1 = ns then (ns, docs) :: rest else entry :: place ns docs rest

def setDocuments (ns : Namespace) (docs : Collection) (s : MemoryStore) : MemoryStore :=
  { s with table := place ns docs s.table }

def seed (ns : Namespace) (docs : List Document) (s : MemoryStore) : MemoryStore :=
  s.setDocuments ns (s.documents ns ++ docs)

def call {α : Type} (run : MemoryStore → Except StoreError α × MemoryStore) : StoreAction MemoryStore α :=
  fun s =>
    let counted := { s with calls := s.calls + 1 }
    if s.reachable then run counted
    else (.error (.unreachable "connection refused by memory store"), counted)

def reading {α : Type} (ns : Namespace) (run : Collection → α) : StoreAction MemoryStore α :=
  call fun s => (.ok (run (s.documents ns)), s)

def writing {α : Type} (ns : Namespace) (action : CollectionAction α) : StoreAction MemoryStore α :=
  call fun s =>
    let (answer, docs) := action.on (s.documents ns)
    (answer.mapError .rejected, s.setDocuments ns docs)

instance : DocumentStore MemoryStore where
  probe s := if s.reachable then .ok () else .error (.unreachable "no memory store listening")
  select _ := call fun s => (.ok (), s)
  find ns filter options := reading ns fun docs => docs.find filter options
  insertOne ns doc ids := writing ns (Collection.insertOne doc ids)
  insertMany ns batch ids := writing ns (Collection.insertMany batch ids)
  update ns filter u := writing ns (Collection.update filter u)
  delete ns filter := writing ns (modifyGet (Collection.delete filter))
  count ns filter := reading ns fun docs => docs.count filter

end MemoryStore

end DocQuery
