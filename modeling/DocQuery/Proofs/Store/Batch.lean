import DocQuery.Proofs.Store.Inserting
import DocQuery.Proofs.Store.Memory

namespace DocQuery

/-- Inserts documents one after another.  The first one that is refused ends it, and those before it stay. -/
def insertInTurn {σ : Type} [DocumentStore σ] (ns : Namespace) :
    List Document → IdSupply → StoreAction σ (List Value × IdSupply)
  | [], ids, s => (.ok ([], ids), s)
  | doc :: batch, ids, s =>
      match DocumentStore.insertOne ns doc ids s with
      | (.error e, after) => (.error e, after)
      | (.ok (id, rest), after) =>
          match insertInTurn ns batch rest after with
          | (.error e, last) => (.error e, last)
          | (.ok (others, rest), last) => (.ok (id :: others, rest), last)

namespace Collection

variable {docs : Collection} {ids rest : IdSupply} {doc identified : Document} {id : Value}

theorem identities_of_identify (docs : Collection) (found : identify doc ids = (id, identified, rest)) :
    identities (docs ++ [identified]) = docs.identities ++ [id] := by
  have given : identities [identified] = [id] := by simp [identities, get?_of_identify found]
  rw [identities_append, given]

end Collection

namespace MemoryStore

variable {ns : Namespace} {s : MemoryStore} {ids rest : IdSupply}

/-! ## One document -/

section

variable {doc identified : Document} {id : Value}

theorem insertOne_of_free (reachable : s.reachable = true)
    (found : Collection.identify doc ids = (id, identified, rest))
    (free : Collection.duplicate? (s.documents ns).identities id = none) :
    DocumentStore.insertOne ns doc ids s =
      (.ok (id, rest), s.counted.setDocuments ns (s.documents ns ++ [identified])) := by
  refine writing_of_ok reachable ?_
  rw [Collection.insertOne_on found, free]

theorem insertOne_of_taken {cause : Rejection} (reachable : s.reachable = true)
    (found : Collection.identify doc ids = (id, identified, rest))
    (taken : Collection.duplicate? (s.documents ns).identities id = some cause) :
    DocumentStore.insertOne ns doc ids s =
      (.error (.rejected cause), s.counted.setDocuments ns (s.documents ns)) := by
  refine writing_of_error reachable ?_
  rw [Collection.insertOne_on found, taken]

end

/-! ## One document after another -/

theorem insertInTurn_prepared {batch prepared : List Document} {given : List Value}
    (reachable : s.reachable = true)
    (h : Collection.prepare batch ids (s.documents ns).identities = .ok (given, rest, prepared)) :
    (insertInTurn ns batch ids s).1 = .ok (given, rest) ∧
      ∀ other, (insertInTurn ns batch ids s).2.documents other =
        if ns = other then s.documents ns ++ prepared else s.documents other := by
  induction batch generalizing ids s given prepared with
  | nil =>
      cases h
      refine ⟨rfl, fun other => ?_⟩
      split <;> rename_i same
      · rw [← same, List.append_nil]
        rfl
      · rfl
  | cons doc batch ih =>
      obtain ⟨id, identified, between, others, more, found, fresh, outcome, rfl, rfl⟩ :=
        Collection.prepare_cons_ok h
      have first := insertOne_of_free reachable found (Collection.duplicate?_eq_none_iff.mpr fresh)
      let after := s.counted.setDocuments ns (s.documents ns ++ [identified])
      have holds (other : Namespace) : after.documents other =
          if ns = other then s.documents ns ++ [identified] else s.documents other :=
        documents_setDocuments _ ns other _
      have inserted : after.documents ns = s.documents ns ++ [identified] := by simp [holds]
      rw [← Collection.identities_of_identify (s.documents ns) found, ← inserted] at outcome
      obtain ⟨answer, documents⟩ := ih (s := after) reachable outcome
      simp only [insertInTurn, first]
      rcases turns : insertInTurn ns batch between after with ⟨e | ⟨given, last⟩, final⟩ <;>
        rw [turns] at answer documents <;> cases answer
      refine ⟨rfl, fun other => ?_⟩
      simp only [documents, inserted, holds, List.append_assoc, List.singleton_append]
      split <;> rfl

theorem insertInTurn_refused {batch : List Document} {cause : Rejection} (reachable : s.reachable = true)
    (h : Collection.prepare batch ids (s.documents ns).identities = .error cause) :
    (insertInTurn ns batch ids s).1 = .error (.rejected cause) := by
  induction batch generalizing ids s with
  | nil => cases h
  | cons doc batch ih =>
      obtain ⟨id, identified, between, found, taken | ⟨free, later⟩⟩ := Collection.prepare_cons_error h
      · simp only [insertInTurn, insertOne_of_taken reachable found taken]
      · let after := s.counted.setDocuments ns (s.documents ns ++ [identified])
        have inserted : after.documents ns = s.documents ns ++ [identified] :=
          (documents_setDocuments _ ns ns _).trans (if_pos rfl)
        rw [← Collection.identities_of_identify (s.documents ns) found, ← inserted] at later
        have refused := ih (s := after) reachable later
        simp only [insertInTurn, insertOne_of_free reachable found free]
        rcases turns : insertInTurn ns batch between after with ⟨e | given, last⟩ <;> rw [turns] at refused
        · exact refused
        · cases refused

/-! ## Both ways side by side -/

/-- A batch gets the answer that its documents get one after another.  If one is refused, a batch leaves the documents
as they were. -/
theorem insertMany_eq_inTurn (reachable : s.reachable = true) (ns : Namespace) (batch : List Document)
    (ids : IdSupply) :
    let batched := DocumentStore.insertMany ns batch ids s
    let inTurn := insertInTurn ns batch ids s
    batched.1 = inTurn.1 ∧
      (∀ answer, inTurn.1 = .ok answer → ∀ other, batched.2.documents other = inTurn.2.documents other) ∧
      ∀ e, inTurn.1 = .error e → ∀ other, batched.2.documents other = s.documents other := by
  intro batched inTurn
  cases outcome : Collection.prepare batch ids (s.documents ns).identities with
  | error cause =>
      have refused : batched = (.error (.rejected cause), s.counted.setDocuments ns (s.documents ns)) := by
        refine writing_of_error reachable ?_
        rw [Collection.insertMany_on, outcome]
      have answer : inTurn.1 = .error (.rejected cause) := insertInTurn_refused reachable outcome
      rw [refused, answer]
      refine ⟨rfl, ?_, fun _ _ => documents_setDocuments_self s.counted ns⟩
      intro _ done
      cases done
  | ok result =>
      obtain ⟨given, rest, prepared⟩ := result
      have done : batched = (.ok (given, rest), s.counted.setDocuments ns (s.documents ns ++ prepared)) := by
        refine writing_of_ok reachable ?_
        rw [Collection.insertMany_on, outcome]
      obtain ⟨answer, documents⟩ := insertInTurn_prepared reachable outcome
      rw [done, answer]
      refine ⟨rfl, fun _ _ other => ?_, ?_⟩
      · rw [documents, documents_setDocuments]
        rfl
      · intro _ refused
        cases refused

theorem insertMany_eq_inTurn_equalObjects :
    let ns : Namespace := ⟨"app", "items"⟩
    let ids : IdSupply := ⟨fun _ => "x", 0⟩
    let s := ({} : MemoryStore).seed ns [[("_id", .null)]]
    let id : Value := .object [("b", .one), ("a", .null)]
    let batch : List Document := [[("a", .null)], [("_id", .object [("a", .null), ("b", .one)])], [("_id", id)]]
    let batched := DocumentStore.insertMany ns batch ids s
    let inTurn := insertInTurn ns batch ids s
    s.reachable = true ∧ inTurn.1 = .error (.rejected (.duplicateId id)) ∧
      (inTurn.2.documents ns).length = 3 ∧ batched.1 = inTurn.1 ∧ batched.2.documents ns = s.documents ns := by
  intro ns ids s id batch batched inTurn
  have reachable : s.reachable = true := rfl
  have refused : inTurn.1 = .error (.rejected (.duplicateId id)) := rfl
  obtain ⟨same, -, kept⟩ := insertMany_eq_inTurn reachable ns batch ids
  exact ⟨reachable, refused, rfl, same, kept _ refused ns⟩

end MemoryStore

end DocQuery
