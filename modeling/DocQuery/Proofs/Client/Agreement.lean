import DocQuery.Proofs.Client.Building
import DocQuery.Proofs.Store.Counting

namespace DocQuery

namespace Query

structure Reaches (client : Client) (q : Query) (ns : Namespace) (g : Group) (s : Session MemoryStore) : Prop where
  connected : client.probeError = none
  named : q.namespace? = .ok ns
  compiled : q.group? = .ok g
  reachable : s.store.reachable = true

namespace Reaches

variable {client : Client} {q : Query} {ns : Namespace} {g : Group} {s : Session MemoryStore}

section

variable {α : Type} {operation : Operation}

theorem execute (r : Reaches client q ns g s) (run : Namespace → Group → Task MemoryStore α) :
    q.execute client operation run s = carryOut ns operation g (run ns g) { s with store := s.store.counted } :=
  execute_of_select_ok (Client.select_of_reachable r.connected r.named r.reachable) r.compiled

theorem reading (r : Reaches client q ns g s) (f : Group → Collection → α) :
    (q.execute client operation (fun ns g => Session.perform (MemoryStore.reading ns (f g))) s).1 =
      .ok (f g (s.store.documents ns)) := by
  rw [r.execute, carryOut_answer]
  exact mapError_eq_ok_iff.mpr (MemoryStore.reading_ok_iff.mpr ⟨r.reachable, rfl⟩)

theorem writing (r : Reaches client q ns g s) {f : Group → CollectionAction α} {answer : α} {docs : Collection}
    (done : (f g).on (s.store.documents ns) = (.ok answer, docs)) :
    let task := q.execute client operation fun ns g => Session.perform (MemoryStore.writing ns (f g))
    (task s).1 = .ok answer ∧ (task s).2.store = s.store.counted.counted.setDocuments ns docs := by
  intro task
  have written : MemoryStore.writing ns (f g) s.store.counted =
      (.ok answer, s.store.counted.counted.setDocuments ns docs) := MemoryStore.writing_of_ok r.reachable done
  simp only [task, r.execute, carryOut_answer, carryOut_store]
  exact ⟨mapError_eq_ok_iff.mpr (congrArg Prod.fst written), congrArg Prod.snd written⟩

theorem writing_ok (r : Reaches client q ns g s) {f : Group → CollectionAction α} {answer : α}
    (succeeds : (q.execute client operation (fun ns g => Session.perform (MemoryStore.writing ns (f g))) s).1 =
      .ok answer) : ∃ docs, (f g).on (s.store.documents ns) = (.ok answer, docs) := by
  rcases ran : (f g).on (s.store.documents ns) with ⟨outcome, docs⟩
  have written : MemoryStore.writing ns (f g) s.store.counted = (outcome.mapError .rejected, _) :=
    MemoryStore.writing_of_on r.reachable ran
  rw [r.execute, carryOut_answer] at succeeds
  have answers := (congrArg Prod.fst written).symm.trans (mapError_eq_ok_iff.mp succeeds)
  exact ⟨docs, Prod.ext (mapError_eq_ok_iff.mp answers) rfl⟩

end

theorem get (r : Reaches client q ns g s) (limit : Nat) :
    (q.get client limit s).1 = .ok (Collection.find g (q.findOptions limit) (s.store.documents ns)) :=
  r.reading fun g docs => docs.find g (q.findOptions limit)

theorem first (r : Reaches client q ns g s) :
    (q.first client s).1 = .ok (Collection.find g (q.findOptions 1) (s.store.documents ns)).head? := by
  let started := Session.record (.executing ns .findOne g.toFilter) { s with store := s.store.counted }
  have found : (Session.perform (DocumentStore.find ns g (q.findOptions 1)) started).1 =
      .ok (Collection.find g (q.findOptions 1) (s.store.documents ns)) :=
    mapError_eq_ok_iff.mpr (MemoryStore.reading_ok_iff.mpr ⟨r.reachable, rfl⟩)
  rw [Query.first, r.execute, carryOut_answer]
  exact congrArg (Except.map List.head?) found

theorem count (r : Reaches client q ns g s) :
    (q.count client s).1 = .ok (Collection.count g (s.store.documents ns)) :=
  r.reading fun g docs => docs.count g

theorem matched_of_update (r : Reaches client q ns g s) {τ : Type} [Writable τ] {fields : τ} {counts : UpdateCounts}
    (succeeds : (q.update client fields s).1 = .ok counts) :
    counts.matched = Collection.count g (s.store.documents ns) := by
  cases written : Writable.document? fields with
  | error e =>
      rw [update, r.execute, carryOut_answer, written] at succeeds
      cases succeeds
  | ok doc =>
      simp only [update, written] at succeeds
      obtain ⟨docs, updated⟩ := r.writing_ok (f := fun g => Collection.update g ⟨doc⟩) succeeds
      exact Collection.matched_of_update updated

theorem delete (r : Reaches client q ns g s) :
    (q.delete client s).1 = .ok (Collection.count g (s.store.documents ns)) ∧
      (q.delete client s).2.store =
        s.store.counted.counted.setDocuments ns (Collection.delete g (s.store.documents ns)).2 := by
  rw [← Collection.delete_fst]
  exact r.writing rfl

theorem after_delete (r : Reaches client q ns g s) : Reaches client q ns g (q.delete client s).2 where
  connected := r.connected
  named := r.named
  compiled := r.compiled
  reachable := by
    rw [r.delete.2]
    exact r.reachable

theorem documents_delete (r : Reaches client q ns g s) :
    (q.delete client s).2.store.documents ns = (Collection.delete g (s.store.documents ns)).2 := by
  rw [r.delete.2, MemoryStore.documents_setDocuments, if_pos rfl]

end Reaches

theorem find_findOptions (q : Query) (g : Group) (docs : Collection) {n : Nat} (limited : 1 ≤ n) :
    docs.find g (q.findOptions n) = (docs.find g (q.findOptions 0)).take n := by
  have cut : q.findOptions n = { q.findOptions 0 with limit := some n } := by
    rw [findOptions, if_neg (Nat.ne_of_gt limited)]
    rfl
  rw [cut, Collection.find_limited rfl]

/-- All answers from one state of the store fit the documents that the query finds there without a limit. -/
theorem answers_agree {client : Client} (connected : client.probeError = none) {steps : List QueryStep}
    {ns : Namespace} (named : (QueryStep.runAll steps client.newQuery).namespace? = .ok ns)
    {s : Session MemoryStore} (reachable : s.store.reachable = true) :
    let q := QueryStep.runAll steps client.newQuery
    let docs := s.store.documents ns
    let deleted := (q.delete client s).2
    ∃ g found, q.group? = .ok g ∧ (q.get client 0 s).1 = .ok found ∧
      (q.count client s).1 = .ok found.length ∧
      (q.delete client s).1 = .ok found.length ∧
      (∀ {τ : Type} [Writable τ] (fields : τ) (counts : UpdateCounts),
        (q.update client fields s).1 = .ok counts → counts.matched = found.length) ∧
      (∀ n, 1 ≤ n → (q.get client n s).1 = .ok (found.take n)) ∧
      (q.first client s).1 = .ok found.head? ∧
      deleted.store.documents ns = docs.filter (fun doc => !g.accepts doc) ∧
      found.length + (deleted.store.documents ns).length = docs.length ∧
      (q.count client deleted).1 = .ok 0 := by
  intro q docs deleted
  obtain ⟨g, compiled⟩ := QueryStep.group?_runAll steps client
  have r : Reaches client q ns g s := ⟨connected, named, compiled, reachable⟩
  let found := docs.find g (q.findOptions 0)
  have length : found.length = docs.count g := Collection.length_find rfl
  have left : deleted.store.documents ns = docs.filter fun doc => !g.accepts doc :=
    r.documents_delete.trans (Collection.delete_snd g docs)
  refine ⟨g, found, compiled, r.get 0, ?_, ?_, fun fields counts succeeds => ?_, fun n limited => ?_, ?_, left, ?_, ?_⟩
  · rw [length]
    exact r.count
  · rw [length]
    exact r.delete.1
  · rw [length]
    exact r.matched_of_update succeeds
  · rw [← find_findOptions q g docs limited]
    exact r.get n
  · rw [r.first, find_findOptions q g docs (Nat.le_refl 1), List.head?_take, if_neg Nat.one_ne_zero]
  · rw [length, left, ← Collection.delete_snd]
    exact Collection.count_add_length_delete g docs
  · rw [r.after_delete.count, left, ← Collection.delete_snd, Collection.count_delete]

theorem answers_agree_projected :
    let client : Client := ⟨{}, none⟩
    let steps : List QueryStep :=
      [.inDatabase "app", .inTable "items", .addCondition (.equal .and "n" .one), .orderBy ["a"] .descending,
        .select ["a"]]
    let q := QueryStep.runAll steps client.newQuery
    let store : MemoryStore :=
      ({} : MemoryStore).seed ⟨"app", "items"⟩ [[("n", .one)], [("n", .null)], [("n", .one), ("a", .one)]]
    let s : Session MemoryStore := ⟨store, ⟨fun _ => "x", 0⟩, []⟩
    client.probeError = none ∧ q.namespace? = .ok ⟨"app", "items"⟩ ∧ s.store.reachable = true ∧
      ∃ found, (q.get client 0 s).1 = .ok found ∧ found.length = 2 ∧ (q.delete client s).1 = .ok 2 ∧
        (q.count client (q.delete client s).2).1 = .ok 0 := by
  intro client steps q store s
  have named : q.namespace? = .ok ⟨"app", "items"⟩ := rfl
  obtain ⟨g, found, -, all, count, delete, -, -, -, -, -, none⟩ :=
    @answers_agree client rfl steps _ named s rfl
  have two : found.length = 2 := Except.ok.inj (count.symm.trans (rfl : (q.count client s).1 = .ok 2))
  exact ⟨rfl, named, rfl, found, all, two, two ▸ delete, none⟩

end Query

end DocQuery
