import DocQuery.Client.Query

namespace DocQuery

structure Session (σ : Type) where
  store : σ
  ids : IdSupply
  log : List Event := []

abbrev Task (σ α : Type) := Session σ → Except QueryError α × Session σ

structure Client where
  settings : Settings
  probeError : Option StoreError

namespace Session

variable {σ α : Type}

def record (event : Event) (s : Session σ) : Session σ := { s with log := s.log ++ [event] }

def recordAll (events : List Event) (s : Session σ) : Session σ := { s with log := s.log ++ events }

def perform (action : StoreAction σ α) : Task σ α := fun s =>
  let (answer, store) := action s.store
  (answer.mapError .ofStore, { s with store })

def performNaming (action : IdSupply → StoreAction σ (α × IdSupply)) : Task σ α := fun s =>
  match perform (action s.ids) s with
  | (.ok (answer, ids), after) => (.ok answer, { after with ids })
  | (.error e, after) => (.error e, after)

end Session

namespace Client

variable {σ : Type} [DocumentStore σ]

def isConnected (client : Client) : Bool := client.probeError.isNone

def connect (settings : Settings) (s : Session σ) : Client × Session σ :=
  match DocumentStore.probe s.store with
  | .ok () => (⟨settings, none⟩, s)
  | .error e => (⟨settings, some e⟩, s.record (.storeUnreachable settings.redacted.uri e))

def newQuery (client : Client) : Query := .ofSettings client.settings

def select (client : Client) (q : Query) : Task σ Namespace := fun s =>
  match client.probeError with
  | some e => (.error (.connection e.message), s)
  | none =>
      match q.namespace? with
      | .error e => (.error e, s)
      | .ok ns =>
          match Session.perform (DocumentStore.select ns) s with
          | (.ok (), after) => (.ok ns, after)
          | (.error e, after) => (.error e, after)

end Client

/-! ## Documents as arguments -/

/-- Data that can be handed over in place of a document: it is written as a value first, which can fail. -/
class Writable (τ : Type) where
  value? : τ → Option Value

instance : Writable Value := ⟨some⟩

def Value.document? : Value → Except QueryError Document
  | .object fields => .ok fields
  | v => .error (.notADocument v.kindName)

namespace Writable

variable {τ : Type} [Writable τ]

def document? (x : τ) : Except QueryError Document :=
  match value? x with
  | none => .error .serialization
  | some v => v.document?

def documents? : List τ → Except QueryError (List Document)
  | [] => .ok []
  | x :: rest =>
      match document? x with
      | .error e => .error e
      | .ok doc => (documents? rest).map (doc :: ·)

end Writable

/-! ## Running a query -/

namespace Query

variable {σ α β τ : Type} [DocumentStore σ] [Writable τ]

def execute (client : Client) (q : Query) (operation : Operation)
    (run : Namespace → Group → Task σ α) : Task σ α := fun s =>
  match client.select q s with
  | (.error e, selected) => (.error e, selected)
  | (.ok ns, selected) =>
      match q.group? with
      | .error e => (.error e, selected)
      | .ok filter =>
          match run ns filter (selected.record (.executing ns operation filter.toFilter)) with
          | (.ok answer, after) => (.ok answer, after)
          | (.error e, after) => (.error e, after.record (.failed ns operation e))

def checked (argument : Except QueryError β) (task : β → Task σ α) : Task σ α := fun s =>
  match argument with
  | .error e => (.error e, s)
  | .ok b => task b s

def get (client : Client) (q : Query) (limit : Nat) : Task σ (List Document) :=
  q.execute client .find fun ns filter =>
    Session.perform (DocumentStore.find ns filter (q.findOptions limit))

def getAs (client : Client) (q : Query) (decode : Document → Option α) (limit : Nat) :
    Task σ (List α) := fun s =>
  match q.get client limit s with
  | (.error e, after) => (.error e, after)
  | (.ok docs, after) =>
      match docs.mapM decode with
      | some decoded => (.ok decoded, after)
      | none => (.error .serialization, after)

def first (client : Client) (q : Query) : Task σ (Option Document) :=
  q.execute client .findOne fun ns filter s =>
    let (answer, after) := Session.perform (DocumentStore.find ns filter (q.findOptions 1)) s
    (answer.map List.head?, after)

def create (client : Client) (q : Query) (x : τ) : Task σ Value :=
  q.execute client .insertOne fun ns _ =>
    checked (Writable.document? x) fun doc => Session.performNaming (DocumentStore.insertOne ns doc)

def createMany (client : Client) (q : Query) (xs : List τ) : Task σ (List Value) :=
  q.execute client .insertMany fun ns _ =>
    checked (Writable.documents? xs) fun batch =>
      Session.performNaming (DocumentStore.insertMany ns batch)

def update (client : Client) (q : Query) (fields : τ) : Task σ UpdateCounts :=
  q.execute client .updateMany fun ns filter =>
    checked (Writable.document? fields) fun doc =>
      Session.perform (DocumentStore.update ns filter ⟨doc⟩)

def delete (client : Client) (q : Query) : Task σ Nat :=
  q.execute client .deleteMany fun ns filter => Session.perform (DocumentStore.delete ns filter)

def count (client : Client) (q : Query) : Task σ Nat :=
  q.execute client .countDocuments fun ns filter =>
    Session.perform (DocumentStore.count ns filter)

end Query

end DocQuery
