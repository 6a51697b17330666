import DocQuery.Proofs.Store.Atomicity
import DocQuery.Proofs.Value.Fields
import DocQuery.Store.Memory

namespace DocQuery.MemoryStore

variable {α : Type}

theorem lookup_place (table : List (Namespace × Collection)) (ns other : Namespace) (docs : Collection) :
    (place ns docs table).lookup other = if ns = other then some docs else table.lookup other := by
  induction table with
  | nil => exact lookup_cons_eq_ite (ns, docs) [] other
  | cons entry table ih =>
      rw [place]
      split <;> rename_i found
      · subst found
        simp only [lookup_cons_eq_ite]
        split <;> rfl
      · simp only [lookup_cons_eq_ite, ih]
        grind

theorem documents_setDocuments (s : MemoryStore) (ns other : Namespace) (docs : Collection) :
    (s.setDocuments ns docs).documents other = if ns = other then docs else s.documents other := by
  simp only [documents, setDocuments, lookup_place]
  split <;> rfl

theorem documents_setDocuments_self (s : MemoryStore) (ns other : Namespace) :
    (s.setDocuments ns (s.documents ns)).documents other = s.documents other := by
  rw [documents_setDocuments]
  split <;> rename_i same
  · rw [same]
  · rfl

theorem documents_call_of_unchanged {run : MemoryStore → Except StoreError α × MemoryStore}
    (unchanged : ∀ s ns, (run s).2.documents ns = s.documents ns) (s : MemoryStore) (ns : Namespace) :
    (call run s).2.documents ns = s.documents ns := by
  simp only [call]
  split
  · exact unchanged _ ns
  · rfl

theorem documents_reading (ns : Namespace) (run : Collection → α) (s : MemoryStore) (other : Namespace) :
    (reading ns run s).2.documents other = s.documents other :=
  documents_call_of_unchanged (fun _ _ => rfl) s other

theorem documents_select (ns : Namespace) (s : MemoryStore) (other : Namespace) :
    (DocumentStore.select ns s).2.documents other = s.documents other :=
  documents_call_of_unchanged (fun _ _ => rfl) s other

def counted (s : MemoryStore) : MemoryStore := { s with calls := s.calls + 1 }

theorem documents_counted (s : MemoryStore) (ns : Namespace) : s.counted.documents ns = s.documents ns := rfl

theorem call_of_reachable {s : MemoryStore} (reachable : s.reachable = true)
    (run : MemoryStore → Except StoreError α × MemoryStore) : call run s = run s.counted := if_pos reachable

theorem call_of_unreachable {s : MemoryStore} (unreachable : s.reachable = false)
    (run : MemoryStore → Except StoreError α × MemoryStore) :
    call run s = (.error (.unreachable "connection refused by memory store"), s.counted) := by
  simp [call, counted, unreachable]

section

variable {ns : Namespace} {s : MemoryStore} {action : CollectionAction α} {docs : Collection}

theorem writing_of_on {outcome : Except Rejection α} (reachable : s.reachable = true)
    (ran : action.on (s.documents ns) = (outcome, docs)) :
    writing ns action s = (outcome.mapError .rejected, s.counted.setDocuments ns docs) := by
  rw [writing, call_of_reachable reachable]
  simp only [documents_counted, ran]

theorem writing_of_error {cause : Rejection} (reachable : s.reachable = true)
    (refused : action.on (s.documents ns) = (.error cause, docs)) :
    writing ns action s = (.error (.rejected cause), s.counted.setDocuments ns docs) :=
  writing_of_on reachable refused

theorem writing_of_ok {answer : α} (reachable : s.reachable = true)
    (done : action.on (s.documents ns) = (.ok answer, docs)) :
    writing ns action s = (.ok answer, s.counted.setDocuments ns docs) := writing_of_on reachable done

end

theorem writing_cases {action : CollectionAction α} (atomic : action.Atomic) (ns : Namespace) (s : MemoryStore) :
    ((∃ e, (writing ns action s).1 = .error e) ∧
        ∀ other, (writing ns action s).2.documents other = s.documents other) ∨
      ∃ answer docs, action.on (s.documents ns) = (.ok answer, docs) ∧ (writing ns action s).1 = .ok answer ∧
        ∀ other, (writing ns action s).2.documents other = if ns = other then docs else s.documents other := by
  cases reachable : s.reachable with
  | false =>
      rw [writing, call_of_unreachable reachable]
      exact .inl ⟨⟨_, rfl⟩, documents_counted s⟩
  | true =>
      rcases outcome : action.on (s.documents ns) with ⟨cause | answer, docs⟩
      · obtain rfl : docs = s.documents ns := atomic _ _ _ outcome
        rw [writing_of_error reachable outcome]
        exact .inl ⟨⟨_, rfl⟩, fun other => documents_setDocuments_self s.counted ns other⟩
      · rw [writing_of_ok reachable outcome]
        exact .inr ⟨answer, docs, rfl, rfl, fun other => documents_setDocuments _ ns other _⟩

end DocQuery.MemoryStore
