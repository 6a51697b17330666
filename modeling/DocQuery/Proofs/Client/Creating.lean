import DocQuery.Proofs.Client.Agreement
import DocQuery.Proofs.Filter.Operators
import DocQuery.Proofs.Store.Batch

namespace DocQuery

/-! ## Asking for an identity -/

theorem Document.lookup?_idField (doc : Document) : doc.lookup? idField = doc.get? idField := by
  have single : Path.ofText idField = [idField] := by decide
  rw [lookup?, single, Value.follow?]
  cases doc.get? idField <;> rfl

def Group.ofIdentity (kind : Connective) (id : Value) : Group := ⟨kind, [.clause ⟨idField, .eq, id⟩]⟩

theorem Group.accepts_ofIdentity (kind : Connective) (id : Value) (doc : Document) :
    (ofIdentity kind id).accepts doc = (doc.get? idField).any (Clause.anyOf (·.equiv id)) := by
  rw [← doc.lookup?_idField]
  cases kind
  · exact Bool.and_true _
  · exact Bool.or_false _

def Query.groups (q : Query) : Group × List Scope := (q.assembly.root, q.assembly.scopes)

namespace QueryStep

def condition? : QueryStep → Option ConditionStep
  | addCondition step => some step
  | _ => none

theorem groups_run {step : QueryStep} (h : step.condition? = none) (q : Query) : (step.run q).groups = q.groups := by
  cases step with
  | addCondition => cases h
  | inDatabase name => by_cases empty : name = "" <;> simp [run, Query.inDatabase, empty, Query.groups]
  | inTable name => by_cases empty : name = "" <;> simp [run, Query.inTable, empty, Query.groups]
  | _ => rfl

theorem groups_runAll {steps : List QueryStep} (h : ∀ step ∈ steps, step.condition? = none) (q : Query) :
    (runAll steps q).groups = q.groups := by
  induction steps generalizing q with
  | nil => rfl
  | cons step steps ih =>
      obtain ⟨first, others⟩ := List.forall_mem_cons.mp h
      exact (ih others (step.run q)).trans (groups_run first q)

def ofClause (kind : Connective) (c : Clause) : QueryStep := addCondition (.compare kind c.field c.operator c.operand)

theorem groups_ofClause {q : Query} {c : Clause} (empty : q.groups = (⟨.and, []⟩, [])) (given : c.field ≠ "")
    (kind : Connective) : ((ofClause kind c).run q).groups = (⟨kind, [.clause c]⟩, []) := by
  obtain ⟨root, scopes⟩ := Prod.mk.inj empty
  simp [ofClause, run, Query.groups, Query.addCondition, ConditionStep.run, ConditionStep.toAssemblyStep,
    AssemblyStep.run, Assembly.add, given, Assembly.addCondition, root, scopes, Group.merge]

theorem group?_of_condition {steps : List QueryStep} {kind : Connective} {c : Clause} (given : c.field ≠ "")
    (only : steps.filterMap condition? = [.compare kind c.field c.operator c.operand]) (client : Client) :
    (runAll steps client.newQuery).group? = .ok ⟨kind, [.clause c]⟩ := by
  obtain ⟨before, step, later, rfl, unconditional, here, rest⟩ := List.filterMap_eq_cons_iff.mp only
  obtain rfl : step = ofClause kind c := by
    cases step <;> cases here
    rfl
  have added := groups_ofClause (groups_runAll unconditional client.newQuery) given kind
  have whole : (runAll (before ++ ofClause kind c :: later) client.newQuery).groups = (⟨kind, [.clause c]⟩, []) := by
    rw [runAll, List.foldl_append]
    exact (groups_runAll (List.filterMap_eq_nil_iff.mp rest) _).trans added
  obtain ⟨root, scopes⟩ := Prod.mk.inj whole
  rw [Query.group?, Assembly.group?, scopes, root]
  rfl

end QueryStep

structure AsksFor (id : Value) (ns : Namespace) (reader : Client) (steps : List QueryStep) : Prop where
  connected : reader.probeError = none
  named : (QueryStep.runAll steps reader.newQuery).namespace? = .ok ns
  only : ∃ kind, steps.filterMap QueryStep.condition? = [.equal kind idField id]
  whole : (QueryStep.runAll steps reader.newQuery).projection.isEmpty = true

namespace Collection

variable {docs : Collection} {identified : Document} {id : Value}

theorem select_inserted (free : ∀ v ∈ docs.identities, v.equiv id = false)
    (plain : ∀ v ∈ docs.identities, v.isArray = false) (given : identified.get? idField = some id)
    (wf : id.WellFormed) (kind : Connective) :
    select (.ofIdentity kind id) (docs ++ [identified]) = [identified] := by
  have others : select (.ofIdentity kind id) docs = [] := by
    refine List.filter_eq_nil_iff.mpr fun doc hd => ?_
    rw [Group.accepts_ofIdentity]
    cases found : doc.get? idField with
    | none => exact Bool.false_ne_true
    | some v =>
        have stored : v ∈ docs.identities := List.mem_filterMap.mpr ⟨doc, hd, found⟩
        rw [Option.any_some, Clause.anyOf_eq_or, Clause.anyWithin_of_single (plain v stored), free v stored]
        exact Bool.false_ne_true
  have itself : (Group.ofIdentity kind id).accepts identified = true := by
    rw [Group.accepts_ofIdentity, given, Option.any_some, Clause.anyOf_eq_or, Value.equiv_refl wf, Bool.true_or]
  rw [select, List.filter_append, ← select, others, List.filter_singleton, itself]
  rfl

theorem find_of_select_eq {g : Group} {q : Query} {doc : Document} (whole : q.projection.isEmpty = true)
    (selected : docs.select g = [doc]) (limit : Nat) : docs.find g (q.findOptions limit) = [doc] := by
  have arranged : q.sort.arrange [doc] = [doc] := List.perm_singleton.mp (q.sort.arranges_arrange [doc]).perm
  have shown : q.projection.apply doc = doc := if_pos whole
  have cut : (q.findOptions limit).cut [doc] = [doc] := by
    rw [Query.cut_findOptions]
    split
    · rfl
    · exact List.take_of_length_le (Nat.one_le_iff_ne_zero.mpr ‹_›)
  rw [find, selected]
  simp only [Query.findOptions] at cut ⊢
  rw [arranged, cut, List.map_singleton, shown]

theorem identified_eq {doc identified : Document} {ids rest : IdSupply}
    (found : identify doc ids = (id, identified, rest)) :
    identified = if (doc.get? idField).isSome then doc else doc ++ [(idField, id)] := by
  unfold identify at found
  split at found <;> rename_i present <;> cases found <;> rw [present] <;> rfl

end Collection

/-! ## Creating -/

namespace Query

variable {client : Client} {q : Query} {ns : Namespace} {g : Group} {s : Session MemoryStore}

theorem Reaches.of_execute_ok {α : Type} {operation : Operation} {run : Namespace → Group → Task MemoryStore α} {a : α}
    (succeeds : (q.execute client operation run s).1 = .ok a) (named : q.namespace? = .ok ns) :
    ∃ g, Reaches client q ns g s := by
  obtain ⟨_, g, selected, compiled, -⟩ := execute_ok_iff.mp succeeds
  obtain ⟨connected, -, reachable⟩ := Client.select_ok_iff.mp selected
  exact ⟨g, connected, named, compiled, reachable⟩

section

variable {τ : Type} [Writable τ] {x : τ} {doc identified : Document} {id : Value} {rest : IdSupply}

theorem Reaches.create_of_free (r : Reaches client q ns g s) (written : Writable.document? x = .ok doc)
    (found : Collection.identify doc s.ids = (id, identified, rest))
    (free : Collection.duplicate? (s.store.documents ns).identities id = none) :
    (q.create client x s).1 = .ok id ∧
      (q.create client x s).2.store =
        s.store.counted.counted.setDocuments ns (s.store.documents ns ++ [identified]) := by
  have inserted : DocumentStore.insertOne ns doc s.ids s.store.counted = _ :=
    MemoryStore.insertOne_of_free r.reachable found free
  simp only [create, r.execute, carryOut_answer, carryOut_store, written, checked, Session.performNaming,
    Session.perform, Session.record, inserted]
  exact ⟨rfl, rfl⟩

theorem Reaches.create_of_taken (r : Reaches client q ns g s) (written : Writable.document? x = .ok doc)
    (found : Collection.identify doc s.ids = (id, identified, rest)) {cause : Rejection}
    (taken : Collection.duplicate? (s.store.documents ns).identities id = some cause) :
    (q.create client x s).1 = .error (.store (.rejected cause)) := by
  have refused : DocumentStore.insertOne ns doc s.ids s.store.counted = _ :=
    MemoryStore.insertOne_of_taken r.reachable found taken
  simp only [create, r.execute, carryOut_answer, written, checked, Session.performNaming, Session.perform,
    Session.record, refused]
  rfl

theorem create_ok (named : q.namespace? = .ok ns) (written : Writable.document? x = .ok doc)
    (succeeds : (q.create client x s).1 = .ok id) :
    let after := (q.create client x s).2
    ∃ identified rest, Collection.identify doc s.ids = (id, identified, rest) ∧
      (∀ v ∈ (s.store.documents ns).identities, v.equiv id = false) ∧ after.store.reachable = true ∧
      after.store.documents ns = s.store.documents ns ++ [identified] := by
  intro after
  obtain ⟨g, r⟩ := Reaches.of_execute_ok succeeds named
  rcases found : Collection.identify doc s.ids with ⟨id', identified, rest⟩
  cases free : Collection.duplicate? (s.store.documents ns).identities id' with
  | some cause => cases succeeds.symm.trans (r.create_of_taken written found free)
  | none =>
      obtain ⟨answer, stored⟩ := r.create_of_free written found free
      obtain rfl : id = id' := Except.ok.inj (succeeds.symm.trans answer)
      refine ⟨identified, rest, rfl, Collection.duplicate?_eq_none_iff.mp free, stored ▸ r.reachable, ?_⟩
      rw [stored, MemoryStore.documents_setDocuments, if_pos rfl]

theorem Reaches.create_of_repeated (r : Reaches client q ns g s) (written : Writable.document? x = .ok doc)
    (wf : doc.WellFormed) (carried : doc.get? idField = some id) {v : Value}
    (stored : v ∈ (s.store.documents ns).identities) (equal : id.equiv v = true) :
    (q.create client x s).1 = .error (.store (.rejected (.duplicateId id))) := by
  have found : Collection.identify doc s.ids = (id, doc, s.ids) := by rw [Collection.identify, carried]
  exact r.create_of_taken written found
    (Collection.duplicate?_of_mem stored (Value.equiv_symm (wf.of_get? carried) equal))

theorem found_of_asksFor {reader : Client} {steps : List QueryStep} (asks : AsksFor id ns reader steps)
    (reachable : s.store.reachable = true)
    (selected : ∀ kind, Collection.select (.ofIdentity kind id) (s.store.documents ns) = [identified]) :
    let q := QueryStep.runAll steps reader.newQuery
    (∀ limit, (q.get reader limit s).1 = .ok [identified]) ∧ (q.first reader s).1 = .ok (some identified) := by
  intro q
  obtain ⟨kind, only⟩ := asks.only
  have compiled : q.group? = .ok (.ofIdentity kind id) :=
    QueryStep.group?_of_condition (c := ⟨idField, .eq, id⟩) (show idField ≠ "" by decide) only reader
  have r : Reaches reader q ns (.ofIdentity kind id) s := ⟨asks.connected, asks.named, compiled, reachable⟩
  have finds (limit : Nat) := Collection.find_of_select_eq asks.whole (selected kind) limit
  refine ⟨fun limit => ?_, ?_⟩
  · rw [r.get, finds]
  · rw [r.first, finds]
    rfl

/-- If an insertion gives an identity and no identity stored before is an array, then a query that asks for this
identity finds one document: the one that was inserted, with the identity behind its fields if it came without one.  A
document that comes with an identity equal to a stored one is refused. -/
theorem created_is_found (named : q.namespace? = .ok ns) (written : Writable.document? x = .ok doc)
    (wf : doc.WellFormed) :
    (∀ id, (q.create client x s).1 = .ok id → (∀ v ∈ (s.store.documents ns).identities, v.isArray = false) →
      let after := (q.create client x s).2
      let found := if (doc.get? idField).isSome then doc else doc ++ [(idField, id)]
      found.get? idField = some id ∧
        ∀ reader steps, AsksFor id ns reader steps →
          let q' := QueryStep.runAll steps reader.newQuery
          (∀ limit, (q'.get reader limit after).1 = .ok [found]) ∧ (q'.first reader after).1 = .ok (some found)) ∧
    ∀ id, doc.get? idField = some id → ∀ v ∈ (s.store.documents ns).identities, id.equiv v = true →
      (∃ e, (q.create client x s).1 = .error e) ∧
        ∀ g, Reaches client q ns g s → (q.create client x s).1 = .error (.store (.rejected (.duplicateId id))) := by
  constructor
  · intro id succeeds plain after found
    obtain ⟨identified, rest, outcome, free, reachable, documents⟩ := create_ok named written succeeds
    have given : identified.get? idField = some id := Collection.get?_of_identify outcome
    obtain ⟨wfId, -⟩ := Collection.wellFormed_of_identify wf outcome
    have same : identified = found := Collection.identified_eq outcome
    rw [← same]
    refine ⟨given, fun reader steps asks => found_of_asksFor asks reachable fun kind => ?_⟩
    rw [documents]
    exact Collection.select_inserted free plain given wfId kind
  · intro id carried v stored equal
    have refused (g : Group) (r : Reaches client q ns g s) := r.create_of_repeated written wf carried stored equal
    refine ⟨?_, refused⟩
    cases answer : (q.create client x s).1 with
    | error e => exact ⟨e, rfl⟩
    | ok given =>
        obtain ⟨g, r⟩ := Reaches.of_execute_ok answer named
        cases answer.symm.trans (refused g r)

theorem created_is_found_beside_object :
    let client : Client := ⟨{}, none⟩
    let target : List QueryStep := [.inDatabase "app", .inTable "items"]
    let q := QueryStep.runAll target client.newQuery
    let s : Session MemoryStore :=
      ⟨({} : MemoryStore).seed ⟨"app", "items"⟩ [[("_id", .object [("a", .null), ("b", .one)])], [("n", .one)]],
        ⟨fun _ => "x", 0⟩, []⟩
    let new : Document := [("n", .null)]
    let repeated : Document := [("_id", .object [("b", .one), ("a", .null)])]
    let after := (q.create client (Value.object new) s).2
    let asking := QueryStep.runAll (target ++ [.addCondition (.equal .or "_id" (.string "x"))]) client.newQuery
    q.namespace? = .ok ⟨"app", "items"⟩ ∧ new.WellFormed ∧ repeated.WellFormed ∧
      (asking.get client 0 after).1 = .ok [[("n", .null), ("_id", .string "x")]] ∧
      (q.create client (Value.object repeated) s).1 =
        .error (.store (.rejected (.duplicateId (.object [("b", .one), ("a", .null)])))) := by
  intro client target q s new repeated after asking
  have named : q.namespace? = .ok ⟨"app", "items"⟩ := rfl
  have wf : new.WellFormed := by simp [new, Document.keys]
  have wf' : repeated.WellFormed := by simp [repeated, Document.keys, Value.one]
  have asks : AsksFor (.string "x") ⟨"app", "items"⟩ client
      (target ++ [.addCondition (.equal .or "_id" (.string "x"))]) := ⟨rfl, rfl, ⟨.or, rfl⟩, rfl⟩
  obtain ⟨found, -⟩ := @created_is_found client q _ s _ _ (Value.object new) _ named rfl wf
  obtain ⟨-, refused⟩ := @created_is_found client q _ s _ _ (Value.object repeated) _ named rfl wf'
  have plain : ∀ v ∈ (s.store.documents ⟨"app", "items"⟩).identities, v.isArray = false := by decide +kernel
  obtain ⟨-, shown⟩ := found (.string "x") rfl plain
  exact ⟨named, wf, wf', (shown client _ asks).1 0,
    (refused _ rfl _ (.head _) rfl).2 ⟨.and, []⟩ ⟨rfl, named, rfl, rfl⟩⟩

end

end Query

end DocQuery
