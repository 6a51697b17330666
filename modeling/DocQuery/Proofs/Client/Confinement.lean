import DocQuery.Proofs.Client.Selection

namespace DocQuery

structure MemoryStore.Agree (P : Namespace → Prop) (a b : MemoryStore) : Prop where
  reachable : a.reachable = b.reachable
  documents : ∀ ns, P ns → a.documents ns = b.documents ns

theorem MemoryStore.Agree.trans {P : Namespace → Prop} {a b c : MemoryStore} (first : a.Agree P b)
    (second : b.Agree P c) : a.Agree P c :=
  ⟨first.reachable.trans second.reachable, fun ns here => (first.documents ns here).trans (second.documents ns here)⟩

namespace Session

variable {α β : Type} {P Q : Namespace → Prop} {s t : Session MemoryStore} {ns : Namespace}

/-- The sessions differ in nothing but the documents outside of `P` and the number of calls. -/
structure Agree (P : Namespace → Prop) (s t : Session MemoryStore) : Prop where
  store : s.store.Agree P t.store
  ids : s.ids = t.ids
  log : s.log = t.log

/-- The task sees the documents in the namespaces of `P` and no others, and changes no others. -/
structure Confined (P : Namespace → Prop) (task : Task MemoryStore α) : Prop where
  answer : ∀ {s t}, Agree P s t → (task s).1 = (task t).1
  agree : ∀ {s t}, Agree P s t → Agree P (task s).2 (task t).2
  reachable : ∀ s, (task s).2.store.reachable = s.store.reachable
  elsewhere : ∀ s ns, ¬ P ns → (task s).2.store.documents ns = s.store.documents ns

theorem Agree.weaken (agree : Agree Q s t) (narrower : ∀ ns, P ns → Q ns) : Agree P s t :=
  ⟨⟨agree.store.reachable, fun ns here => agree.store.documents ns (narrower ns here)⟩, agree.ids, agree.log⟩

theorem Confined.agree_wider {task : Task MemoryStore α} (h : Confined P task) (narrower : ∀ ns, P ns → Q ns)
    (agree : Agree Q s t) : Agree Q (task s).2 (task t).2 := by
  have inside := h.agree (agree.weaken narrower)
  refine ⟨⟨inside.store.reachable, fun ns wanted => ?_⟩, inside.ids, inside.log⟩
  by_cases here : P ns
  · exact inside.store.documents ns here
  · rw [h.elsewhere s ns here, h.elsewhere t ns here, agree.store.documents ns wanted]

theorem Confined.agree_apart {task : Task MemoryStore α} (h : Confined P task) (apart : ∀ ns, P ns → ¬ Q ns)
    (s : Session MemoryStore) : (task s).2.store.Agree Q s.store :=
  ⟨h.reachable s, fun ns there => h.elsewhere s ns fun here => apart ns here there⟩

/-! ## One task after another -/

theorem confined_answer (answer : Except QueryError α) : Confined P fun s => (answer, s) :=
  ⟨fun _ => rfl, id, fun _ => rfl, fun _ _ _ => rfl⟩

theorem confined_record (answer : Except QueryError α) (event : Event) :
    Confined P fun s => (answer, s.record event) :=
  ⟨fun _ => rfl, fun agree => ⟨agree.store, agree.ids, congrArg (· ++ [event]) agree.log⟩, fun _ => rfl,
    fun _ _ _ => rfl⟩

theorem confined_naming (answer : Except QueryError α) (ids : IdSupply) :
    Confined P fun s => (answer, { s with ids }) :=
  ⟨fun _ => rfl, fun agree => ⟨agree.store, rfl, agree.log⟩, fun _ => rfl, fun _ _ _ => rfl⟩

theorem Confined.mapAnswer {task : Task MemoryStore α} (h : Confined P task)
    (f : Except QueryError α → Except QueryError β) : Confined P fun s => (f (task s).1, (task s).2) :=
  ⟨fun agree => congrArg f (h.answer agree), h.agree, h.reachable, h.elsewhere⟩

theorem Confined.onto {task : Task MemoryStore α} {change : Session MemoryStore → Session MemoryStore}
    {answer : Except QueryError β} (h : Confined P task) (first : Confined P fun s => (answer, change s)) :
    Confined P fun s => task (change s) :=
  ⟨fun agree => h.answer (first.agree agree), fun agree => h.agree (first.agree agree),
    fun s => (h.reachable _).trans (first.reachable s),
    fun s ns outside => (h.elsewhere _ ns outside).trans (first.elsewhere s ns outside)⟩

theorem Confined.andThen {task : Task MemoryStore α} {whole : Task MemoryStore β} (first : Confined P task)
    (failed : QueryError → Task MemoryStore β) (next : α → Task MemoryStore β)
    (fails : ∀ {s e after}, task s = (.error e, after) → whole s = failed e after)
    (goesOn : ∀ {s a after}, task s = (.ok a, after) → whole s = next a after)
    (confinedFailed : ∀ e, Confined P (failed e))
    (confinedNext : ∀ s a, (task s).1 = .ok a → Confined P (next a)) : Confined P whole := by
  -- Sessions that agree get the same answer from the task, so the same rest is run from both.
  have rest (s : Session MemoryStore) : ∃ part : Task MemoryStore β, Confined P part ∧
      ∀ t, (task t).1 = (task s).1 → whole t = part (task t).2 := by
    cases outcome : (task s).1 with
    | error e => exact ⟨failed e, confinedFailed e, fun t same => fails (Prod.ext same rfl)⟩
    | ok a => exact ⟨next a, confinedNext s a outcome, fun t same => goesOn (Prod.ext same rfl)⟩
  refine ⟨fun {s t} agree => ?_, fun {s t} agree => ?_, fun s => ?_, fun s ns outside => ?_⟩
  · obtain ⟨part, confined, composed⟩ := rest s
    rw [composed s rfl, composed t (first.answer agree).symm]
    exact confined.answer (first.agree agree)
  · obtain ⟨part, confined, composed⟩ := rest s
    rw [composed s rfl, composed t (first.answer agree).symm]
    exact confined.agree (first.agree agree)
  · obtain ⟨part, confined, composed⟩ := rest s
    rw [composed s rfl, confined.reachable, first.reachable]
  · obtain ⟨part, confined, composed⟩ := rest s
    rw [composed s rfl, confined.elsewhere _ ns outside, first.elsewhere s ns outside]

theorem Confined.withNames {task : IdSupply → Task MemoryStore α} (h : ∀ ids, Confined P (task ids)) :
    Confined P fun s => task s.ids s := by
  refine ⟨fun {s t} agree => ?_, fun {s t} agree => ?_, fun s => (h _).reachable s, fun s => (h _).elsewhere s⟩
  · rw [← agree.ids]
    exact (h s.ids).answer agree
  · rw [← agree.ids]
    exact (h s.ids).agree agree

theorem Confined.ifReachable {up down : Task MemoryStore α} (h : Confined P up) (h' : Confined P down) :
    Confined P fun s => if s.store.reachable then up s else down s := by
  refine ⟨fun {s t} agree => ?_, fun {s t} agree => ?_, fun s => ?_, fun s ns outside => ?_⟩
  · simp only [agree.store.reachable]
    split
    · exact h.answer agree
    · exact h'.answer agree
  · simp only [agree.store.reachable]
    split
    · exact h.agree agree
    · exact h'.agree agree
  · split
    · exact h.reachable s
    · exact h'.reachable s
  · split
    · exact h.elsewhere s ns outside
    · exact h'.elsewhere s ns outside

/-! ## Operations of the store -/

theorem confined_counted (answer : Except QueryError α) :
    Confined P fun s => (answer, { s with store := s.store.counted }) :=
  ⟨fun _ => rfl, fun agree => ⟨⟨agree.store.reachable, agree.store.documents⟩, agree.ids, agree.log⟩, fun _ => rfl,
    fun _ _ _ => rfl⟩

theorem confined_perform_call {run : StoreAction MemoryStore α} (h : Confined P (perform run)) :
    Confined P (perform (MemoryStore.call run)) := by
  let down : Task MemoryStore α := fun s =>
    (.error (.connection "connection refused by memory store"), { s with store := s.store.counted })
  let up : Task MemoryStore α := fun s => perform run { s with store := s.store.counted }
  have called : perform (MemoryStore.call run) = fun s => if s.store.reachable then up s else down s := by
    funext s
    cases reachable : s.store.reachable with
    | true =>
        simp only [perform, MemoryStore.call_of_reachable reachable]
        rfl
    | false =>
        simp only [perform, MemoryStore.call_of_unreachable reachable]
        rfl
  rw [called]
  exact Confined.ifReachable (h.onto (confined_counted (.ok ()))) (confined_counted _)

theorem confined_perform_reading (here : P ns) (run : Collection → α) :
    Confined P (perform (MemoryStore.reading ns run)) := by
  refine confined_perform_call ⟨fun agree => ?_, id, fun _ => rfl, fun _ _ _ => rfl⟩
  simp only [perform, agree.store.documents ns here]

theorem confined_perform_writing (here : P ns) (action : CollectionAction α) :
    Confined P (perform (MemoryStore.writing ns action)) := by
  refine confined_perform_call ⟨fun agree => ?_, fun agree => ?_, fun _ => rfl, fun s other outside => ?_⟩
  · simp only [perform, agree.store.documents ns here]
  · refine ⟨⟨agree.store.reachable, fun wanted there => ?_⟩, agree.ids, agree.log⟩
    simp only [perform, MemoryStore.documents_setDocuments, agree.store.documents wanted there,
      agree.store.documents ns here]
  · have apart : ns ≠ other := fun same => outside (same ▸ here)
    exact (MemoryStore.documents_setDocuments _ ns other _).trans (if_neg apart)

theorem confined_performNaming {action : IdSupply → StoreAction MemoryStore (α × IdSupply)}
    (h : ∀ ids, Confined P (perform (action ids))) : Confined P (performNaming action) := by
  have fixed (ids : IdSupply) : Confined P (performNaming fun _ => action ids) := by
    refine (h ids).andThen (fun e s => (.error e, s)) (fun result s => (.ok result.1, { s with ids := result.2 }))
      (fun failed => ?_) (fun done => ?_) (fun e => confined_answer (.error e)) fun _ result _ =>
        confined_naming (.ok result.1) result.2
    · simp only [performNaming, failed]
    · simp only [performNaming, done]
  exact Confined.withNames fixed

theorem confined_checked {argument : Except QueryError β} {task : β → Task MemoryStore α}
    (h : ∀ b, Confined P (task b)) : Confined P (Query.checked argument task) := by
  cases argument with
  | error e => exact confined_answer (.error e)
  | ok b => exact h b

end Session

/-! ## Queries -/

open Session

def Client.Selects (client : Client) (q : Query) (ns : Namespace) : Prop :=
  client.probeError = none ∧ q.namespace? = .ok ns

variable {α : Type} {client : Client} {q : Query}

theorem Client.selects_of_select {s : Session MemoryStore} {ns : Namespace}
    (selected : (client.select q s).1 = .ok ns) : client.Selects q ns :=
  have passed := select_ok_iff.mp selected
  ⟨passed.1, passed.2.1⟩

theorem Client.confined_select (client : Client) (q : Query) : Confined (client.Selects q) (client.select q) := by
  cases connection : client.probeError with
  | some e =>
      have stopped : client.select q = fun s : Session MemoryStore => (.error (.connection e.message), s) :=
        funext fun s => select_of_probeError connection
      rw [stopped]
      exact confined_answer _
  | none =>
      cases names : q.namespace? with
      | error e =>
          have stopped : client.select q = fun s : Session MemoryStore => (.error e, s) :=
            funext fun s => select_of_namespace?_error connection names
          rw [stopped]
          exact confined_answer _
      | ok ns =>
          have called : client.select q = fun s : Session MemoryStore =>
              ((perform (DocumentStore.select ns) s).1.map fun _ => ns, (perform (DocumentStore.select ns) s).2) :=
            funext fun s => select_of_namespace? connection names
          have silent : Confined (client.Selects q) (perform fun s : MemoryStore => (.ok (), s)) := confined_answer _
          rw [called]
          exact (confined_perform_call silent).mapAnswer fun r => r.map fun _ => ns

namespace Query

theorem confined_carryOut {P : Namespace → Prop} {task : Task MemoryStore α} (ns : Namespace) (operation : Operation)
    (g : Group) (h : Confined P task) : Confined P (carryOut ns operation g task) := by
  refine (h.onto (confined_record (.ok ()) (.executing ns operation g.toFilter))).andThen
    (fun e s => (.error e, s.record (.failed ns operation e))) (fun a s => (.ok a, s)) (fun failed => ?_)
    (fun done => ?_) (fun e => confined_record (.error e) _) fun _ a _ => confined_answer (.ok a)
  · simp only [carryOut, failed]
  · simp only [carryOut, done]

theorem confined_execute {operation : Operation} {run : Namespace → Group → Task MemoryStore α}
    (h : ∀ ns g, client.Selects q ns → Confined (client.Selects q) (run ns g)) :
    Confined (client.Selects q) (q.execute client operation run) := by
  cases compiled : q.group? with
  | error e =>
      refine (client.confined_select q).andThen (fun e s => (.error e, s)) (fun _ s => (.error e, s))
        execute_of_select_error (fun selected => ?_) (fun e => confined_answer (.error e)) fun _ _ _ =>
          confined_answer (.error e)
      simp only [execute, selected, compiled]
  | ok g =>
      exact (client.confined_select q).andThen (fun e s => (.error e, s)) (fun ns => carryOut ns operation g (run ns g))
        execute_of_select_error (fun selected => execute_of_select_ok selected compiled)
        (fun e => confined_answer (.error e)) fun _ ns selected =>
          confined_carryOut ns operation g (h ns g (Client.selects_of_select selected))

theorem confined_get (client : Client) (q : Query) (limit : Nat) :
    Confined (client.Selects q) (q.get client limit) :=
  confined_execute fun _ _ here => confined_perform_reading here _

theorem confined_getAs (client : Client) (q : Query) (decode : Document → Option α) (limit : Nat) :
    Confined (client.Selects q) (q.getAs client decode limit) := by
  refine (confined_get client q limit).andThen (fun e s => (.error e, s))
    (fun docs s => ((docs.mapM decode).elim (.error .serialization) .ok, s)) (fun failed => ?_)
    (fun {_ docs _} found => ?_) (fun e => confined_answer (.error e)) fun _ _ _ => confined_answer _
  · simp only [getAs, failed]
  · simp only [getAs, found]
    cases docs.mapM decode <;> rfl

end Query

theorem Terminal.confined_run (t : Terminal α) (client : Client) (q : Query) :
    Confined (client.Selects q) (t.run client q) := by
  cases t with
  | get limit => exact q.confined_get client limit
  | getAs decode limit => exact q.confined_getAs client decode limit
  | first =>
      exact Query.confined_execute fun ns g here =>
        (confined_perform_reading here (·.find g (q.findOptions 1))).mapAnswer fun r => r.map List.head?
  | create x =>
      exact Query.confined_execute fun _ _ here => confined_checked fun _ =>
        confined_performNaming fun _ => confined_perform_writing here _
  | createMany xs =>
      exact Query.confined_execute fun _ _ here => confined_checked fun _ =>
        confined_performNaming fun _ => confined_perform_writing here _
  | update fields =>
      exact Query.confined_execute fun _ _ here => confined_checked fun _ => confined_perform_writing here _
  | delete => exact Query.confined_execute fun _ _ here => confined_perform_writing here _
  | count => exact Query.confined_execute fun _ _ here => confined_perform_reading here _

end DocQuery
