import DocQuery.Client.Session
import DocQuery.Proofs.Store.Memory

namespace DocQuery

inductive Terminal : Type → Type 1 where
  | get (limit : Nat) : Terminal (List Document)
  | getAs {α : Type} (decode : Document → Option α) (limit : Nat) : Terminal (List α)
  | first : Terminal (Option Document)
  | create {τ : Type} [Writable τ] (x : τ) : Terminal Value
  | createMany {τ : Type} [Writable τ] (xs : List τ) : Terminal (List Value)
  | update {τ : Type} [Writable τ] (fields : τ) : Terminal UpdateCounts
  | delete : Terminal Nat
  | count : Terminal Nat

def Terminal.run {σ α : Type} [DocumentStore σ] (client : Client) (q : Query) : Terminal α → Task σ α
  | get limit => q.get client limit
  | getAs decode limit => q.getAs client decode limit
  | first => q.first client
  | create x => q.create client x
  | createMany xs => q.createMany client xs
  | update fields => q.update client fields
  | delete => q.delete client
  | count => q.count client

/-! ## Tasks that keep documents -/

namespace Session

variable {α β : Type}

def ReadOnly (task : Task MemoryStore α) : Prop :=
  ∀ s ns, (task s).2.store.documents ns = s.store.documents ns

def Atomic (task : Task MemoryStore α) : Prop :=
  ∀ s e, (task s).1 = .error e → ∀ ns, (task s).2.store.documents ns = s.store.documents ns

theorem ReadOnly.atomic {task : Task MemoryStore α} (h : ReadOnly task) : Atomic task :=
  fun s _ _ => h s

theorem readOnly_perform_reading (ns : Namespace) (run : Collection → α) :
    ReadOnly (perform (MemoryStore.reading ns run)) :=
  fun s => MemoryStore.documents_reading ns run s.store

theorem atomic_perform_writing {action : CollectionAction α} (atomic : action.Atomic) (ns : Namespace) :
    Atomic (perform (MemoryStore.writing ns action)) := by
  intro s e failed
  rcases MemoryStore.writing_cases atomic ns s.store with ⟨-, same⟩ | ⟨answer, docs, -, succeeds, -⟩
  · exact same
  · simp only [perform, succeeds] at failed
    cases failed

theorem atomic_performNaming {action : IdSupply → StoreAction MemoryStore (α × IdSupply)}
    (h : ∀ ids, Atomic (perform (action ids))) : Atomic (performNaming action) := by
  intro s e failed
  unfold performNaming at failed ⊢
  rcases outcome : perform (action s.ids) s with ⟨_ | ⟨answer, ids⟩, after⟩ <;> rw [outcome] at failed
  · have same := h s.ids s
    rw [outcome] at same
    exact same _ rfl
  · cases failed

theorem atomic_checked {argument : Except QueryError β} {task : β → Task MemoryStore α}
    (h : ∀ b, Atomic (task b)) : Atomic (Query.checked argument task) := by
  cases argument with
  | error e => exact fun s _ _ _ => rfl
  | ok b => exact h b

end Session

/-! ## Running a query -/

open Session

theorem Client.select_cases {σ : Type} [DocumentStore σ] (client : Client) (q : Query) (s : Session σ) :
    (client.select q s).2.store = s.store ∨
      ∃ ns, (client.select q s).2.store = (DocumentStore.select ns s.store).2 := by
  unfold Client.select
  cases client.probeError with
  | some e => exact .inl rfl
  | none =>
      cases q.namespace? with
      | error e => exact .inl rfl
      | ok ns =>
          refine .inr ⟨ns, ?_⟩
          have store : (perform (DocumentStore.select ns) s).2.store = (DocumentStore.select ns s.store).2 := rfl
          simp only
          rcases selected : perform (DocumentStore.select ns) s with ⟨e | _, after⟩ <;>
            rwa [selected] at store

theorem Client.readOnly_select (client : Client) (q : Query) : ReadOnly (client.select q) := by
  intro s other
  rcases client.select_cases q s with same | ⟨ns, selected⟩
  · rw [same]
  · rw [selected, MemoryStore.documents_select]

namespace Query

variable {α τ : Type} [Writable τ] (client : Client) (q : Query) (operation : Operation)

theorem execute_cases {σ : Type} [DocumentStore σ] (run : Namespace → Group → Task σ α) (s : Session σ) :
    ((∃ e, (q.execute client operation run s).1 = .error e) ∧
        (q.execute client operation run s).2.store = (client.select q s).2.store) ∨
      ∃ ns filter started, started.store = (client.select q s).2.store ∧
        (q.execute client operation run s).1 = (run ns filter started).1 ∧
        (q.execute client operation run s).2.store = (run ns filter started).2.store := by
  unfold execute
  rcases client.select q s with ⟨e | ns, selected⟩
  · exact .inl ⟨⟨e, rfl⟩, rfl⟩
  · cases q.group? with
    | error e => exact .inl ⟨⟨e, rfl⟩, rfl⟩
    | ok filter =>
        refine .inr ⟨ns, filter, selected.record (.executing ns operation filter.toFilter), rfl, ?_⟩
        simp only
        rcases run ns filter _ with ⟨e | answer, after⟩ <;> exact ⟨rfl, rfl⟩

variable {client q operation}

theorem readOnly_execute {run : Namespace → Group → Task MemoryStore α}
    (h : ∀ ns filter, ReadOnly (run ns filter)) : ReadOnly (q.execute client operation run) := by
  intro s ns
  have selected := client.readOnly_select q s ns
  rcases execute_cases client q operation run s with ⟨-, same⟩ | ⟨place, filter, started, store, -, after⟩
  · rw [same, selected]
  · rw [after, h place filter started ns, store, selected]

theorem atomic_execute {run : Namespace → Group → Task MemoryStore α}
    (h : ∀ ns filter, Atomic (run ns filter)) : Atomic (q.execute client operation run) := by
  intro s e failed ns
  have selected := client.readOnly_select q s ns
  rcases execute_cases client q operation run s with ⟨-, same⟩ | ⟨place, filter, started, store, answer, after⟩
  · rw [same, selected]
  · rw [answer] at failed
    rw [after, h place filter started e failed ns, store, selected]

theorem readOnly_get (client : Client) (q : Query) (limit : Nat) : ReadOnly (q.get client limit) :=
  readOnly_execute fun ns _ => readOnly_perform_reading ns _

theorem readOnly_getAs (decode : Document → Option α) (limit : Nat) :
    ReadOnly (q.getAs client decode limit) := by
  intro s ns
  have same := readOnly_get client q limit s ns
  unfold getAs
  rcases found : q.get client limit s with ⟨e | docs, after⟩ <;> rw [found] at same
  · exact same
  · simp only
    split <;> exact same

end Query

namespace Terminal

variable {α : Type} (client : Client) (q : Query)

theorem atomic_run (t : Terminal α) : Atomic (t.run client q) := by
  cases t with
  | get limit => exact (Query.readOnly_get client q limit).atomic
  | getAs decode limit => exact (Query.readOnly_getAs decode limit).atomic
  | first =>
      refine (Query.readOnly_execute fun ns filter => ?_).atomic
      exact fun s => readOnly_perform_reading ns (·.find filter (q.findOptions 1)) s
  | create x =>
      exact Query.atomic_execute fun ns _ => atomic_checked fun doc =>
        atomic_performNaming fun ids => atomic_perform_writing (Collection.atomic_insertOne doc ids) ns
  | createMany xs =>
      exact Query.atomic_execute fun ns _ => atomic_checked fun batch =>
        atomic_performNaming fun ids => atomic_perform_writing (Collection.atomic_insertMany batch ids) ns
  | update fields =>
      exact Query.atomic_execute fun ns filter => atomic_checked fun doc =>
        atomic_perform_writing (Collection.atomic_update filter ⟨doc⟩) ns
  | delete =>
      exact Query.atomic_execute fun ns filter => atomic_perform_writing (Collection.atomic_delete filter) ns
  | count => exact (Query.readOnly_execute fun ns _ => readOnly_perform_reading ns _).atomic

variable {client q} {t : Terminal α} {s : Session MemoryStore} {e : QueryError}

theorem documents_of_failure (failed : (t.run client q s).1 = .error e) (ns : Namespace) :
    (t.run client q s).2.store.documents ns = s.store.documents ns :=
  atomic_run client q t s e failed ns

/-- The first document would admit the update, but the last one does not. -/
theorem documents_of_failure_notAnObject :
    let client : Client := ⟨{}, none⟩
    let ns : Namespace := ⟨"app", "items"⟩
    let q : Query := { database := some "app", table := some "items" }
    let t : Terminal UpdateCounts := .update (Value.object [("meta.seen", .bool true)])
    let store : MemoryStore := ({} : MemoryStore).seed ns [[("a", .null)], [("meta", .one)]]
    let s : Session MemoryStore := ⟨store, ⟨fun _ => "x", 0⟩, []⟩
    (t.run client q s).1 = .error (.store (.rejected (.notAnObject "meta.seen" "meta"))) ∧
      (t.run client q s).2.store.documents ns = s.store.documents ns := by
  intro client ns q t store s
  have failed : (t.run client q s).1 =
      .error (.store (.rejected (.notAnObject "meta.seen" "meta"))) := rfl
  exact ⟨failed, documents_of_failure failed ns⟩

end Terminal

end DocQuery
