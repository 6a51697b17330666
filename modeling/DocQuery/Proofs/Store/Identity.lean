import DocQuery.Proofs.Store.Inserting
import DocQuery.Proofs.Store.Memory
import DocQuery.Proofs.Store.Updating

namespace DocQuery

/-! ## Calls -/

/-- A call that writes.  An insertion has a supply of names of its own, whatever other calls have used. -/
inductive StoreCall where
  | insertOne (ns : Namespace) (doc : Document) (ids : IdSupply)
  | insertMany (ns : Namespace) (batch : List Document) (ids : IdSupply)
  | update (ns : Namespace) (filter : Group) (u : Update)
  | delete (ns : Namespace) (filter : Group)

namespace StoreCall

def target : StoreCall → Namespace
  | insertOne ns _ _ | insertMany ns _ _ | update ns _ _ | delete ns _ => ns

def run : StoreCall → MemoryStore → MemoryStore
  | insertOne ns doc ids, s => (DocumentStore.insertOne ns doc ids s).2
  | insertMany ns batch ids, s => (DocumentStore.insertMany ns batch ids s).2
  | update ns filter u, s => (DocumentStore.update ns filter u s).2
  | delete ns filter, s => (DocumentStore.delete ns filter s).2

def runAll (calls : List StoreCall) (s : MemoryStore) : MemoryStore :=
  calls.foldl (fun s call => call.run s) s

def WellFormed : StoreCall → Prop
  | insertOne _ doc _ => doc.WellFormed
  | insertMany _ batch _ => ∀ doc ∈ batch, doc.WellFormed
  | update _ _ u => u.fields.WellFormed
  | delete _ _ => True

inductive Change : StoreCall → Collection → Collection → Prop where
  | insertOne {ns doc ids id rest docs after}
      (h : (Collection.insertOne doc ids).on docs = (.ok (id, rest), after)) :
      Change (.insertOne ns doc ids) docs after
  | insertMany {ns batch ids identities rest docs after}
      (h : (Collection.insertMany batch ids).on docs = (.ok (identities, rest), after)) :
      Change (.insertMany ns batch ids) docs after
  | update {ns filter u counts docs after} (h : (Collection.update filter u).on docs = (.ok counts, after)) :
      Change (.update ns filter u) docs after
  | delete {ns filter docs} : Change (.delete ns filter) docs (docs.delete filter).2

def Keeps : StoreCall → Collection → Collection → Prop
  | insertOne _ _ _, docs, after | insertMany _ _ _, docs, after =>
      ∃ added, after = docs ++ added ∧ ∀ doc ∈ added, (doc.get? idField).isSome
  | update _ _ _, docs, after =>
      after.map (Document.get? · idField) = docs.map (Document.get? · idField)
  | delete _ _, docs, after => after.Sublist docs

def KeepsIdentities (call : StoreCall) (s after : MemoryStore) : Prop :=
  call.Keeps (s.documents call.target) (after.documents call.target) ∧
    ∀ ns, ns ≠ call.target → after.documents ns = s.documents ns

theorem run_cases (call : StoreCall) (s : MemoryStore) :
    (∀ ns, (call.run s).documents ns = s.documents ns) ∨
      ∃ after, call.Change (s.documents call.target) after ∧
        ∀ ns, (call.run s).documents ns = if call.target = ns then after else s.documents ns := by
  -- a call that is refused changes nothing because the operation is atomic
  cases call with
  | insertOne ns doc ids =>
      refine (MemoryStore.writing_cases (Collection.atomic_insertOne doc ids) ns s).imp And.right ?_
      exact fun ⟨_, after, outcome, _, changed⟩ => ⟨after, .insertOne outcome, changed⟩
  | insertMany ns batch ids =>
      refine (MemoryStore.writing_cases (Collection.atomic_insertMany batch ids) ns s).imp And.right ?_
      exact fun ⟨_, after, outcome, _, changed⟩ => ⟨after, .insertMany outcome, changed⟩
  | update ns filter u =>
      refine (MemoryStore.writing_cases (Collection.atomic_update filter u) ns s).imp And.right ?_
      exact fun ⟨_, after, outcome, _, changed⟩ => ⟨after, .update outcome, changed⟩
  | delete ns filter =>
      refine (MemoryStore.writing_cases (Collection.atomic_delete filter) ns s).imp And.right ?_
      rintro ⟨_, after, outcome, -, changed⟩
      cases outcome
      exact ⟨_, .delete, changed⟩

/-! ## One change -/

variable {call : StoreCall} {docs after : Collection}

theorem distinctIdentities_of_change (wf : call.WellFormed) (change : call.Change docs after)
    (distinct : docs.DistinctIdentities) : after.DistinctIdentities := by
  cases change with
  | insertOne h =>
      obtain ⟨identified, found, rfl, fresh⟩ := Collection.insertOne_ok h
      have identity := Collection.get?_of_identify found
      rw [Collection.DistinctIdentities, Collection.identities_append]
      refine List.pairwise_append.mpr ⟨distinct, by simp [Collection.identities, identity], ?_⟩
      intro v hv w hw
      obtain rfl : w = _ := by simpa [Collection.identities, identity] using hw
      exact Value.unequal_of_equiv (Collection.wellFormed_of_identify wf found).1 (fresh v hv)
  | insertMany h =>
      obtain ⟨prepared, outcome, rfl⟩ := Collection.insertMany_ok h
      rw [Collection.DistinctIdentities, Collection.identities_append,
        Collection.identities_of_prepare outcome]
      exact Collection.pairwise_of_prepare wf outcome distinct
  | update h =>
      rw [Collection.DistinctIdentities, Collection.identities_eq_filterMap_id,
        Collection.map_get?_of_update h, ← Collection.identities_eq_filterMap_id]
      exact distinct
  | delete => exact Collection.distinctIdentities_of_sublist List.filter_sublist distinct

theorem keeps_of_change (change : call.Change docs after) : call.Keeps docs after := by
  cases change with
  | insertOne h =>
      obtain ⟨identified, found, rfl, -⟩ := Collection.insertOne_ok h
      exact ⟨[identified], rfl, by simp [Collection.get?_of_identify found]⟩
  | insertMany h =>
      obtain ⟨prepared, outcome, rfl⟩ := Collection.insertMany_ok h
      refine ⟨prepared, rfl, fun doc hd => ?_⟩
      have given : doc.get? idField ∈ prepared.map (Document.get? · idField) := List.mem_map_of_mem hd
      rw [Collection.map_get?_of_prepare outcome] at given
      obtain ⟨id, -, same⟩ := List.mem_map.mp given
      rw [← same, Option.isSome_some]
  | update h => exact Collection.map_get?_of_update h
  | delete => exact List.filter_sublist

theorem keeps_refl (call : StoreCall) (docs : Collection) : call.Keeps docs docs := by
  cases call with
  | insertOne _ _ _ => exact ⟨[], (List.append_nil docs).symm, by simp⟩
  | insertMany _ _ _ => exact ⟨[], (List.append_nil docs).symm, by simp⟩
  | update _ _ _ => exact rfl
  | delete _ _ => exact List.Sublist.refl docs

theorem wellFormed_of_change (wf : call.WellFormed) (change : call.Change docs after)
    (each : ∀ doc ∈ docs, doc.WellFormed) : ∀ doc ∈ after, doc.WellFormed := by
  cases change with
  | insertOne h =>
      obtain ⟨identified, found, rfl, -⟩ := Collection.insertOne_ok h
      have added := (Collection.wellFormed_of_identify wf found).2
      exact List.forall_mem_append.mpr ⟨each, by simpa using added⟩
  | insertMany h =>
      obtain ⟨prepared, outcome, rfl⟩ := Collection.insertMany_ok h
      exact List.forall_mem_append.mpr ⟨each, Collection.wellFormed_of_prepare wf outcome⟩
  | @update _ _ u _ _ _ h =>
      obtain ⟨-, -, rfl⟩ := Collection.update_ok h
      refine List.forall_mem_map.mpr fun doc hd => ?_
      split
      · rw [Update.apply_fst]
        exact Update.wellFormed_setAll (each doc hd) (Document.wellFormed_iff.mp wf).2
      · exact each doc hd
  | delete => exact fun doc hd => each doc (List.mem_filter.mp hd).1

/-! ## Runs -/

theorem forall_documents_run {P : Collection → Prop} {s : MemoryStore}
    (preserved : ∀ docs after, call.Change docs after → P docs → P after)
    (before : ∀ ns, P (s.documents ns)) : ∀ ns, P ((call.run s).documents ns) := by
  intro ns
  rcases call.run_cases s with same | ⟨after, change, changed⟩
  · rw [same]
    exact before ns
  · rw [changed]
    split
    · exact preserved _ _ change (before _)
    · exact before ns

theorem forall_documents_runAll {P : Collection → Prop} {s : MemoryStore} {calls : List StoreCall}
    (preserved : ∀ call ∈ calls, ∀ docs after, call.Change docs after → P docs → P after)
    (before : ∀ ns, P (s.documents ns)) : ∀ ns, P ((runAll calls s).documents ns) := by
  induction calls generalizing s with
  | nil => exact before
  | cons call calls ih =>
      obtain ⟨first, others⟩ := List.forall_mem_cons.mp preserved
      exact ih others (forall_documents_run first before)

theorem wellFormed_runAll {s : MemoryStore} {calls : List StoreCall}
    (wf : ∀ call ∈ calls, call.WellFormed) (each : ∀ ns, ∀ doc ∈ s.documents ns, doc.WellFormed) :
    ∀ ns, ∀ doc ∈ (runAll calls s).documents ns, doc.WellFormed :=
  forall_documents_runAll (fun call hc _ _ => wellFormed_of_change (wf call hc)) each

theorem keepsIdentities_run (call : StoreCall) (s : MemoryStore) :
    call.KeepsIdentities s (call.run s) := by
  rcases call.run_cases s with same | ⟨after, change, changed⟩
  · refine ⟨?_, fun ns _ => same ns⟩
    rw [same]
    exact call.keeps_refl _
  · refine ⟨?_, fun ns other => ?_⟩
    · rw [changed, if_pos rfl]
      exact keeps_of_change change
    · rw [changed, if_neg other.symm]

/-- Whatever has been called, no two identities in a collection are equal, and whatever is called next, documents that
are inserted have identities and documents that stay keep theirs. -/
theorem identities_runAll {s : MemoryStore} {calls : List StoreCall}
    (wf : ∀ call ∈ calls, call.WellFormed) (distinct : ∀ ns, (s.documents ns).DistinctIdentities) :
    let reached := runAll calls s
    (∀ ns, (reached.documents ns).DistinctIdentities) ∧
      ∀ call : StoreCall, call.KeepsIdentities reached (call.run reached) :=
  ⟨forall_documents_runAll (fun call hc _ _ => distinctIdentities_of_change (wf call hc)) distinct,
    fun call => keepsIdentities_run call _⟩

theorem identities_runAll_colliding :
    let ns : Namespace := ⟨"app", "items"⟩
    let ids : IdSupply := ⟨fun _ => "x", 0⟩
    let s := ({} : MemoryStore).seed ns [[("_id", .object [("a", .null), ("b", .one)])]]
    let calls : List StoreCall :=
      [.insertOne ns [("_id", .object [("b", .one), ("a", .null)])] ids, .insertMany ns [[], []] ids,
        .insertOne ns [] ids]
    let reached := runAll calls s
    (∀ call ∈ calls, call.WellFormed) ∧ (∀ ns, (s.documents ns).DistinctIdentities) ∧
      (reached.documents ns).length = 2 ∧ (∀ ns, (reached.documents ns).DistinctIdentities) ∧
      ∀ call : StoreCall, call.KeepsIdentities reached (call.run reached) := by
  intro ns ids s calls
  have wf : ∀ call ∈ calls, call.WellFormed := by
    simp [calls, StoreCall.WellFormed, Document.keys, Value.one]
  have distinct : ∀ ns, (s.documents ns).DistinctIdentities := by
    intro other
    simp only [s, MemoryStore.seed, MemoryStore.documents_setDocuments]
    split
    · exact List.pairwise_singleton _ _
    · exact .nil
  exact ⟨wf, distinct, by decide +kernel, identities_runAll wf distinct⟩

end StoreCall

end DocQuery
