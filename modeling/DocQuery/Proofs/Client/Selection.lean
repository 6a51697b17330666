import DocQuery.Proofs.Client.Finding

namespace DocQuery

/-! ## Guards -/

namespace Client

variable {σ : Type} [DocumentStore σ] {client : Client} {q : Query} {s : Session σ}

theorem select_of_probeError {e : StoreError} (failed : client.probeError = some e) :
    client.select q s = (.error (.connection e.message), s) := by
  simp only [select, failed]

theorem select_of_namespace?_error {e : QueryError} (connected : client.probeError = none)
    (unnamed : q.namespace? = .error e) : client.select q s = (.error e, s) := by
  simp only [select, connected, unnamed]

theorem select_of_namespace? {ns : Namespace} (connected : client.probeError = none)
    (named : q.namespace? = .ok ns) :
    client.select q s = ((Session.perform (DocumentStore.select ns) s).1.map fun _ => ns,
      (Session.perform (DocumentStore.select ns) s).2) := by
  simp only [select, connected, named]
  rcases Session.perform (DocumentStore.select ns) s with ⟨e | _, after⟩ <;> rfl

end Client

namespace Query

variable {σ α : Type}

/-- What a query does once it has a collection and a filter. -/
def carryOut (ns : Namespace) (operation : Operation) (g : Group) (task : Task σ α) : Task σ α := fun s =>
  match task (s.record (.executing ns operation g.toFilter)) with
  | (.ok answer, after) => (.ok answer, after)
  | (.error e, after) => (.error e, after.record (.failed ns operation e))

section

variable (ns : Namespace) (operation : Operation) (g : Group) (task : Task σ α) (s : Session σ)

theorem carryOut_answer :
    (carryOut ns operation g task s).1 = (task (s.record (.executing ns operation g.toFilter))).1 := by
  unfold carryOut
  rcases task _ with ⟨e | answer, after⟩ <;> rfl

theorem carryOut_store :
    (carryOut ns operation g task s).2.store = (task (s.record (.executing ns operation g.toFilter))).2.store := by
  unfold carryOut
  rcases task _ with ⟨e | answer, after⟩ <;> rfl

end

variable [DocumentStore σ] {client : Client} {q : Query} {operation : Operation}
  {run : Namespace → Group → Task σ α} {s after : Session σ} {ns : Namespace} {g : Group} {e : QueryError}

theorem execute_of_select_error (stopped : client.select q s = (.error e, after)) :
    q.execute client operation run s = (.error e, after) := by
  simp only [execute, stopped]

theorem execute_of_select_ok (selected : client.select q s = (.ok ns, after)) (compiled : q.group? = .ok g) :
    q.execute client operation run s = carryOut ns operation g (run ns g) after := by
  rcases outcome : run ns g (after.record (.executing ns operation g.toFilter)) with ⟨e | answer, ended⟩ <;>
    simp only [execute, selected, compiled, carryOut, outcome]

end Query

theorem Terminal.run_of_select_error {σ α : Type} [DocumentStore σ] {client : Client} {q : Query}
    {s after : Session σ} {e : QueryError} (t : Terminal α) (stopped : client.select q s = (.error e, after)) :
    t.run client q s = (.error e, after) := by
  cases t <;>
    simp only [run, Query.get, Query.getAs, Query.first, Query.create, Query.createMany, Query.update,
      Query.delete, Query.count, Query.execute_of_select_error stopped]

/-! ## Counting calls -/

namespace MemoryStore

theorem calls_call {α : Type} {run : MemoryStore → Except StoreError α × MemoryStore}
    (uncounted : ∀ s, (run s).2.calls = s.calls) (s : MemoryStore) : (call run s).2.calls = s.calls + 1 := by
  simp only [call]
  split
  · exact uncounted _
  · rfl

theorem calls_writing {α : Type} (ns : Namespace) (action : CollectionAction α) (s : MemoryStore) :
    (writing ns action s).2.calls = s.calls + 1 := calls_call (fun _ => rfl) s

end MemoryStore

namespace Session

variable {α β : Type} {n : Nat}

def Calls (n : Nat) (task : Task MemoryStore α) : Prop := ∀ s, (task s).2.store.calls = s.store.calls + n

theorem calls_perform_reading (ns : Namespace) (run : Collection → α) :
    Calls 1 (perform (MemoryStore.reading ns run)) :=
  fun s => MemoryStore.calls_call (fun _ => rfl) s.store

theorem calls_perform_writing (ns : Namespace) (action : CollectionAction α) :
    Calls 1 (perform (MemoryStore.writing ns action)) :=
  fun s => MemoryStore.calls_writing ns action s.store

theorem calls_performNaming {action : IdSupply → StoreAction MemoryStore (α × IdSupply)}
    (h : ∀ ids, Calls n (perform (action ids))) : Calls n (performNaming action) := by
  intro s
  have counted := h s.ids s
  unfold performNaming
  rcases outcome : perform (action s.ids) s with ⟨e | ⟨answer, ids⟩, after⟩ <;> rw [outcome] at counted <;>
    exact counted

theorem calls_checked {argument : Except QueryError β} {task : β → Task MemoryStore α}
    (h : ∀ b, Calls n (task b)) : Calls (if argument.isOk then n else 0) (Query.checked argument task) := by
  intro s
  cases argument with
  | error e => rfl
  | ok b => exact h b s

end Session

namespace Client

variable {client : Client} {q : Query} {ns : Namespace} {s : Session MemoryStore}

theorem select_of_reachable (connected : client.probeError = none) (named : q.namespace? = .ok ns)
    (reachable : s.store.reachable = true) :
    client.select q s = (.ok ns, { s with store := s.store.counted }) := by
  rw [select_of_namespace? connected named]
  simp only [Session.perform, DocumentStore.select, MemoryStore.call_of_reachable reachable]
  rfl

theorem select_of_unreachable (connected : client.probeError = none) (named : q.namespace? = .ok ns)
    (unreachable : s.store.reachable = false) :
    client.select q s =
      (.error (.connection "connection refused by memory store"), { s with store := s.store.counted }) := by
  rw [select_of_namespace? connected named]
  simp only [Session.perform, DocumentStore.select, MemoryStore.call_of_unreachable unreachable]
  rfl

end Client

namespace Query

variable {α : Type} {client : Client} {q : Query} {operation : Operation}
  {run : Namespace → Group → Task MemoryStore α} {n : Nat} {ns : Namespace} {g : Group}

theorem calls_execute (connected : client.probeError = none) (named : q.namespace? = .ok ns)
    (compiled : q.group? = .ok g) (h : ∀ ns g, Session.Calls n (run ns g)) (s : Session MemoryStore) :
    (q.execute client operation run s).2.store.calls =
      s.store.calls + 1 + if s.store.reachable then n else 0 := by
  cases reachable : s.store.reachable with
  | true =>
      rw [execute_of_select_ok (Client.select_of_reachable connected named reachable) compiled, carryOut_store]
      exact h ns g _
  | false =>
      rw [execute_of_select_error (Client.select_of_unreachable connected named reachable)]
      rfl

end Query

namespace Terminal

def operations {α : Type} : Terminal α → Nat
  | create x | update x => if (Writable.document? x).isOk then 1 else 0
  | createMany xs => if (Writable.documents? xs).isOk then 1 else 0
  | get _ | getAs _ _ | first | delete | count => 1

theorem calls_run {α : Type} {client : Client} {q : Query} {ns : Namespace} {g : Group}
    (connected : client.probeError = none) (named : q.namespace? = .ok ns) (compiled : q.group? = .ok g)
    (t : Terminal α) (s : Session MemoryStore) :
    (t.run client q s).2.store.calls =
      s.store.calls + 1 + if s.store.reachable then t.operations else 0 := by
  have executed {β : Type} {operation : Operation} {run : Namespace → Group → Task MemoryStore β} {n : Nat}
      (h : ∀ ns g, Session.Calls n (run ns g)) : (q.execute client operation run s).2.store.calls =
        s.store.calls + 1 + if s.store.reachable then n else 0 :=
    Query.calls_execute connected named compiled h s
  cases t with
  | get limit => exact executed fun ns _ => Session.calls_perform_reading ns _
  | getAs decode limit =>
      have got : (q.get client limit s).2.store.calls = _ :=
        executed fun ns _ => Session.calls_perform_reading ns _
      simp only [run, Query.getAs]
      rcases outcome : q.get client limit s with ⟨e | docs, after⟩ <;> rw [outcome] at got
      · exact got
      · simp only
        split <;> exact got
  | first => exact executed fun ns g s => Session.calls_perform_reading ns (·.find g (q.findOptions 1)) s
  | create x =>
      exact executed fun ns _ => Session.calls_checked fun _ =>
        Session.calls_performNaming fun _ => Session.calls_perform_writing ns _
  | createMany xs =>
      exact executed fun ns _ => Session.calls_checked fun _ =>
        Session.calls_performNaming fun _ => Session.calls_perform_writing ns _
  | update fields =>
      exact executed fun ns _ => Session.calls_checked fun _ => Session.calls_perform_writing ns _
  | delete => exact executed fun ns _ => Session.calls_perform_writing ns _
  | count => exact executed fun ns _ => Session.calls_perform_reading ns _

end Terminal

end DocQuery
