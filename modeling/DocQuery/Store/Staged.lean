import DocQuery.Store.Memory

/-!
# A store with staged failures

A staged failure keeps the call from the store in memory, which does not count it.
-/

namespace DocQuery

inductive FailurePoint where
  | selection | operation
deriving DecidableEq

structure StagedStore where
  memory : MemoryStore := {}
  probe : Option (Except StoreError Unit) := none
  failure : Option (FailurePoint × StoreError) := none

namespace StagedStore

def unlessFailing {α : Type} (point : FailurePoint) (action : StoreAction MemoryStore α) :
    StoreAction StagedStore α := fun s =>
  match s.failure with
  | some (staged, e) => if staged = point then (.error e, s) else proceed s
  | none => proceed s
where
  proceed (s : StagedStore) : Except StoreError α × StagedStore :=
    let (answer, memory) := action s.memory
    (answer, { s with memory })

instance : DocumentStore StagedStore where
  probe s := s.probe.getD (DocumentStore.probe s.memory)
  select ns := unlessFailing .selection (DocumentStore.select ns)
  find ns filter options := unlessFailing .operation (DocumentStore.find ns filter options)
  insertOne ns doc ids := unlessFailing .operation (DocumentStore.insertOne ns doc ids)
  insertMany ns batch ids := unlessFailing .operation (DocumentStore.insertMany ns batch ids)
  update ns filter u := unlessFailing .operation (DocumentStore.update ns filter u)
  delete ns filter := unlessFailing .operation (DocumentStore.delete ns filter)
  count ns filter := unlessFailing .operation (DocumentStore.count ns filter)

end StagedStore

end DocQuery
