import DocQuery.Proofs.Client.Terminal
import DocQuery.Proofs.Query.Arrangement

namespace DocQuery

namespace Collection

variable {filter : Group} {o : FindOptions} {docs : Collection} {found : List Document}

theorem find_eq_iff : docs.find filter o = found ↔ ∃ arranged,
    Arranges o.sort.compare (docs.filter filter.accepts) arranged ∧
      found = (o.cut arranged).map o.projection.apply := by
  constructor
  · rintro rfl
    exact ⟨_, o.sort.arranges_arrange _, rfl⟩
  · rintro ⟨arranged, arranges, rfl⟩
    rw [SortOrder.arranges_iff.mp arranges]
    rfl

theorem find_unprojected (filter : Group) (o : FindOptions) (docs : Collection) :
    docs.find filter o = (docs.find filter { o with projection := {} }).map o.projection.apply := by
  have whole : Projection.apply {} = id := by
    funext doc
    exact if_pos rfl
  rw [find, find, whole, List.map_id]
  rfl

end Collection

/-! ## Asking a store in memory -/

theorem mapError_eq_ok_iff {ε δ α : Type} {x : Except ε α} {f : ε → δ} {a : α} :
    x.mapError f = .ok a ↔ x = .ok a := by
  constructor
  · intro h
    cases x <;> cases h
    rfl
  · rintro rfl
    rfl

namespace MemoryStore

variable {ns : Namespace} {s : MemoryStore}

theorem reading_ok_iff {α : Type} {run : Collection → α} {a : α} :
    (reading ns run s).1 = .ok a ↔ s.reachable = true ∧ run (s.documents ns) = a := by
  rw [reading, call]
  cases s.reachable with
  | false => simp
  | true => simp [documents]

theorem select_ok_iff (ns : Namespace) (s : MemoryStore) :
    (DocumentStore.select ns s).1 = .ok () ↔ s.reachable = true := by
  simp only [DocumentStore.select, call]
  cases s.reachable <;> simp

theorem reachable_select (ns : Namespace) (s : MemoryStore) :
    (DocumentStore.select ns s).2.reachable = s.reachable := by
  simp only [DocumentStore.select, call]
  split <;> rfl

end MemoryStore

namespace Client

variable {client : Client} {q : Query} {s : Session MemoryStore} {ns : Namespace}

theorem select_ok_iff :
    (client.select q s).1 = .ok ns ↔
      client.probeError = none ∧ q.namespace? = .ok ns ∧ s.store.reachable = true := by
  rw [select]
  cases client.probeError with
  | some e => simp
  | none =>
      cases q.namespace? with
      | error e => simp
      | ok place =>
          have outcome :
              (Session.perform (DocumentStore.select place) s).1 = .ok () ↔ s.store.reachable = true :=
            mapError_eq_ok_iff.trans (MemoryStore.select_ok_iff place s.store)
          rw [← outcome]
          simp only
          rcases Session.perform (DocumentStore.select place) s with ⟨e | _, after⟩ <;> simp

theorem reachable_select (client : Client) (q : Query) (s : Session MemoryStore) :
    (client.select q s).2.store.reachable = s.store.reachable := by
  rcases client.select_cases q s with same | ⟨ns, selected⟩
  · rw [same]
  · rw [selected, MemoryStore.reachable_select]

end Client

namespace Query

variable {client : Client} {q : Query}

theorem execute_ok_iff {σ α : Type} [DocumentStore σ] {operation : Operation}
    {run : Namespace → Group → Task σ α} {s : Session σ} {a : α} :
    (q.execute client operation run s).1 = .ok a ↔
      ∃ ns g, (client.select q s).1 = .ok ns ∧ q.group? = .ok g ∧
        (run ns g ((client.select q s).2.record (.executing ns operation g.toFilter))).1 = .ok a := by
  rw [execute]
  rcases client.select q s with ⟨e | ns, selected⟩
  · simp
  · cases q.group? with
    | error e => simp
    | ok g =>
        simp only [Except.ok.injEq, exists_and_left, exists_eq_left']
        rcases run ns g _ with ⟨e | answer, after⟩ <;> simp

theorem get_ok_iff {limit : Nat} {s : Session MemoryStore} {found : List Document} :
    (q.get client limit s).1 = .ok found ↔ client.probeError = none ∧ s.store.reachable = true ∧
      ∃ ns g, q.namespace? = .ok ns ∧ q.group? = .ok g ∧
        Collection.find g (q.findOptions limit) (s.store.documents ns) = found := by
  have asked (ns : Namespace) (g : Group) :
      (Session.perform (DocumentStore.find ns g (q.findOptions limit))
          ((client.select q s).2.record (.executing ns .find g.toFilter))).1 = .ok found ↔
        s.store.reachable = true ∧ Collection.find g (q.findOptions limit) (s.store.documents ns) = found := by
    rw [← client.readOnly_select q s ns, ← client.reachable_select q s]
    exact mapError_eq_ok_iff.trans MemoryStore.reading_ok_iff
  simp only [get, execute_ok_iff, Client.select_ok_iff, asked]
  constructor
  · rintro ⟨ns, g, ⟨connected, named, reachable⟩, compiled, -, answer⟩
    exact ⟨connected, reachable, ns, g, named, compiled, answer⟩
  · rintro ⟨connected, reachable, ns, g, named, compiled, answer⟩
    exact ⟨ns, g, ⟨connected, named, reachable⟩, compiled, reachable, answer⟩

theorem cut_findOptions (q : Query) (limit : Nat) (docs : List Document) :
    (q.findOptions limit).cut docs = if limit = 0 then docs else docs.take limit := by
  rw [findOptions, FindOptions.cut]
  by_cases unlimited : limit = 0 <;> simp [unlimited]

/-- Every sort order arranges documents in one way.  A collection finds the documents that the filter accepts in this
arrangement, cut and projected, and a query gets that from the store. -/
theorem found_exactly_arranged :
    (∀ (sort : SortOrder) (docs : List Document), ∃! arranged, Arranges sort.compare docs arranged) ∧
    (∀ docs : List Document, Arranges (SortOrder.compare {}) docs docs) ∧
    (∀ (filter : Group) (o : FindOptions) (docs : Collection) (found : List Document),
      docs.find filter o = found ↔ ∃ arranged, Arranges o.sort.compare (docs.filter filter.accepts) arranged ∧
        found = (o.cut arranged).map o.projection.apply) ∧
    (∀ (filter : Group) (o : FindOptions) (docs : Collection),
      docs.find filter o = (docs.find filter { o with projection := {} }).map o.projection.apply) ∧
    ∀ (client : Client) (q : Query) (limit : Nat) (s : Session MemoryStore) (found : List Document),
      (q.get client limit s).1 = .ok found ↔ client.probeError = none ∧ s.store.reachable = true ∧
        ∃ ns g, q.namespace? = .ok ns ∧ q.group? = .ok g ∧
          ∃ arranged, Arranges q.sort.compare ((s.store.documents ns).filter g.accepts) arranged ∧
            found = (if limit = 0 then arranged else arranged.take limit).map q.projection.apply := by
  refine ⟨fun sort docs => ?_, SortOrder.arranges_arrange {}, fun _ _ _ _ => Collection.find_eq_iff,
    Collection.find_unprojected, fun client q limit s found => ?_⟩
  · exact ⟨sort.arrange docs, sort.arranges_arrange docs, fun _ => SortOrder.arranges_iff.mp⟩
  · simp only [get_ok_iff, Collection.find_eq_iff, cut_findOptions]
    rfl

end Query

end DocQuery
