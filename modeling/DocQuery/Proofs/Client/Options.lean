import Mathlib.Data.List.Nodup
import DocQuery.Proofs.Client.Building
import DocQuery.Proofs.Query.SortKeys
import DocQuery.Proofs.Store.Counting
import DocQuery.Proofs.Value.RoundTrip

namespace DocQuery

/-! ## Fields and keys by name -/

namespace Value

variable {α : Type} {items : List α} {name : α → String} {value : α → Value}

theorem wellFormed_named (distinct : (items.map name).Nodup) (each : ∀ x, (value x).WellFormed) :
    (object (items.map fun x => (name x, value x))).WellFormed := by
  refine .object ?_ (List.forall_mem_map.mpr fun x _ => each x)
  rwa [Document.keys, List.map_map]

theorem nestsWithin_named {depth : Nat} (each : ∀ x, (value x).NestsWithin depth) :
    (object (items.map fun x => (name x, value x))).NestsWithin (depth + 1) :=
  List.forall_mem_map.mpr fun x _ => each x

theorem ofNat_of_isWord {n : Nat} (word : IsWord n) : ofNat n = number (.int n word) := by
  rw [ofNat, Number.ofInt?, dif_pos word]
  rfl

end Value

theorem Direction.toValue_injective : Function.Injective toValue := by
  intro d d' same
  cases d <;> cases d' <;> first | rfl | cases same

namespace Projection

variable {p p' : Projection}

theorem nodup_fields_add (distinct : p.fields.Nodup) (field : String) : (p.add field).fields.Nodup := by
  rw [add]
  split
  · exact distinct
  · rename_i new
    rw [← List.concat_eq_append]
    exact .concat (fun among => new (.inr among)) distinct

theorem nodup_fields_ofFields (fields : List String) : (ofFields fields).fields.Nodup := by
  suffices general : ∀ p : Projection, p.fields.Nodup → (fields.foldl add p).fields.Nodup from general {} .nil
  induction fields with
  | nil => exact fun _ distinct => distinct
  | cons field fields ih => exact fun p distinct => ih _ (nodup_fields_add distinct field)

theorem toValue_inj : p.toValue = p'.toValue ↔ p = p' := by
  refine ⟨fun same => ?_, congrArg _⟩
  have injective : Function.Injective fun field : String => (field, Value.one) := fun _ _ same => (Prod.mk.inj same).1
  obtain ⟨fields⟩ := p
  exact congrArg mk (List.map_injective_iff.mpr injective (Value.object.inj same))

end Projection

theorem SortOrder.toValue_inj {s s' : SortOrder} : s.toValue = s'.toValue ↔ s = s' := by
  refine ⟨fun same => ?_, congrArg _⟩
  have injective : Function.Injective fun key : SortKey => (key.field, key.direction.toValue) := by
    intro key key' same
    obtain ⟨fields, directions⟩ := Prod.mk.inj same
    cases key
    exact congr (congrArg SortKey.mk fields) (Direction.toValue_injective directions)
  obtain ⟨keys⟩ := s
  exact congrArg mk (List.map_injective_iff.mpr injective (Value.object.inj same))

/-! ## Options -/

namespace FindOptions

variable {o o' : FindOptions}

/-- The limit is a word, and neither a listed field nor the field of a sort key is repeated, as in all options whose
fields and keys were given one by one (`regular_of_given`). -/
structure Regular (o : FindOptions) : Prop where
  limit : ∀ n ∈ o.limit, IsWord (n : Nat)
  fields : o.projection.fields.Nodup
  keys : o.sort.fields.Nodup

theorem regular_of_given {limit : Option Nat} (word : ∀ n ∈ limit, IsWord (n : Nat)) (fields : List String)
    (keys : List SortKey) : Regular ⟨limit, .ofFields fields, .ofKeys keys⟩ :=
  ⟨word, Projection.nodup_fields_ofFields fields, SortOrder.nodup_fields_ofKeys keys⟩

theorem Regular.ofNat_limit (h : o.Regular) :
    ∃ word, Value.ofNat (o.limit.getD 0) = .number (.int (o.limit.getD 0 : Nat) word) := by
  have word : IsWord (o.limit.getD 0 : Nat) := by
    cases limit : o.limit with
    | none => decide
    | some n => exact h.limit n limit
  exact ⟨word, Value.ofNat_of_isWord word⟩

theorem Regular.wellFormed_toValue (h : o.Regular) : o.toValue.WellFormed := by
  obtain ⟨word, limit⟩ := h.ofNat_limit
  have fields : o.projection.toValue.WellFormed :=
    Value.wellFormed_named (by simpa using h.fields) fun _ => .number _
  have keys : o.sort.toValue.WellFormed :=
    Value.wellFormed_named h.keys fun key => by cases key.direction <;> exact .number _
  rw [toValue, limit]
  exact .object (by simp [Document.keys]) (by simp [fields, keys])

theorem Regular.nestsWithin_toValue (h : o.Regular) : o.toValue.NestsWithin Value.maxDepth := by
  obtain ⟨word, limit⟩ := h.ofNat_limit
  have fields : o.projection.toValue.NestsWithin 126 := Value.nestsWithin_named fun _ => trivial
  have keys : o.sort.toValue.NestsWithin 126 :=
    Value.nestsWithin_named fun key => by cases key.direction <;> trivial
  rw [toValue, limit]
  simp [Value.maxDepth, Value.NestsWithin, fields, keys]

theorem Regular.text_toValue_inj (h : o.Regular) (h' : o'.Regular) : o.toValue.text = o'.toValue.text ↔
    o.limit.getD 0 = o'.limit.getD 0 ∧ o.projection = o'.projection ∧ o.sort = o'.sort := by
  constructor
  · intro same
    have values := Value.eq_of_text h.wellFormed_toValue h.nestsWithin_toValue h'.wellFormed_toValue
      h'.nestsWithin_toValue same
    obtain ⟨word, limit⟩ := h.ofNat_limit
    obtain ⟨word', limit'⟩ := h'.ofNat_limit
    simp only [toValue, limit, limit', Value.object.injEq, List.cons.injEq, Prod.mk.injEq, Value.number.injEq,
      Number.int.injEq, Int.ofNat_inj, true_and, and_true, Projection.toValue_inj, SortOrder.toValue_inj] at values
    exact values
  · rintro ⟨limits, projections, sorts⟩
    rw [toValue, limits, projections, sorts, toValue]

theorem eq_of_limits (limits : o.limit.getD 0 = o'.limit.getD 0) (zero : o.limit = some 0 ↔ o'.limit = some 0)
    (projections : o.projection = o'.projection) (sorts : o.sort = o'.sort) : o = o' := by
  obtain ⟨limit, _, _⟩ := o
  obtain ⟨limit', _, _⟩ := o'
  obtain rfl : limit = limit' := by
    cases limit <;> cases limit' <;> simp_all
  simp_all

end FindOptions

/-! ## Finding -/

variable {o o' : FindOptions}

theorem Collection.find_of_zero (zero : o.limit = some 0) (filter : Group) (docs : Collection) :
    docs.find filter o = [] := by
  rw [find, FindOptions.cut, zero]
  rfl

theorem MemoryStore.find_collection_eq
    (same : ∀ ns filter (s : MemoryStore), DocumentStore.find ns filter o s = DocumentStore.find ns filter o' s)
    (filter : Group) (docs : Collection) : docs.find filter o = docs.find filter o' := by
  let ns : Namespace := ⟨"", ""⟩
  let s : MemoryStore := setDocuments ns docs {}
  have stored : s.documents ns = docs := (documents_setDocuments {} ns ns docs).trans (if_pos rfl)
  have found : (DocumentStore.find ns filter o s).1 = .ok (docs.find filter o) :=
    reading_ok_iff.mpr ⟨rfl, congrArg _ stored⟩
  rw [same] at found
  rw [← (reading_ok_iff.mp found).2, stored]

theorem FindOptions.limit_eq_zero_of_find_eq (zero : o.limit = some 0) (limits : o.limit.getD 0 = o'.limit.getD 0)
    (same : ∀ filter docs, Collection.find filter o docs = Collection.find filter o' docs) : o'.limit = some 0 := by
  rw [zero, Option.getD_some] at limits
  cases unlimited : o'.limit with
  | some n => rw [unlimited, Option.getD_some] at limits; rw [limits]
  | none =>
      -- of one document and a filter that accepts it, something is found without a limit
      have one : (Collection.find ⟨.and, []⟩ o' [[]]).length = 1 := Collection.length_find unlimited
      rw [← same, Collection.find_of_zero zero] at one
      cases one

namespace FindOptions

/-- A store in memory finds the same with options that are written alike, unless just one of them has the limit 0. -/
theorem find_eq_iff_of_text (h : o.Regular) (h' : o'.Regular) (same : o.toValue.text = o'.toValue.text) :
    o.projection = o'.projection ∧ o.sort = o'.sort ∧
      ((o.limit = some 0 ↔ o'.limit = some 0) ↔
        ∀ ns filter (s : MemoryStore), DocumentStore.find ns filter o s = DocumentStore.find ns filter o' s) := by
  obtain ⟨limits, projections, sorts⟩ := (h.text_toValue_inj h').mp same
  refine ⟨projections, sorts, fun zero ns filter s => ?_, fun found => ?_⟩
  · rw [eq_of_limits limits zero projections sorts]
  · have alike := MemoryStore.find_collection_eq found
    exact ⟨fun zero => limit_eq_zero_of_find_eq zero limits alike,
      fun zero => limit_eq_zero_of_find_eq zero limits.symm fun filter docs => (alike filter docs).symm⟩

theorem find_eq_iff_of_text_zero :
    let o : FindOptions := ⟨none, .ofFields ["a.b", "", "c", "a.b"], .uniform ["c", "c", "a"] .descending⟩
    let o' : FindOptions := { o with limit := some 0 }
    o.Regular ∧ o'.Regular ∧ o.toValue.text = o'.toValue.text ∧
      ¬ ∀ ns filter (s : MemoryStore), DocumentStore.find ns filter o s = DocumentStore.find ns filter o' s := by
  intro o o'
  have regular : o.Regular := regular_of_given (by simp) _ _
  have regular' : o'.Regular := regular_of_given (by simp [IsWord]) _ _
  have zero_iff : ¬ (o.limit = some 0 ↔ o'.limit = some 0) := by simp [o, o']
  exact ⟨regular, regular', rfl, mt (find_eq_iff_of_text regular regular' rfl).2.2.mpr zero_iff⟩

theorem text_of_limit_zero :
    let ns : Namespace := ⟨"app", "items"⟩
    let filter : Group := ⟨.and, []⟩
    let s := ({} : MemoryStore).seed ns [[("_id", .one)]]
    Regular {} ∧ Regular { limit := some 0 } ∧ (toValue {}).text = (toValue { limit := some 0 }).text ∧
      (DocumentStore.find ns filter {} s).1 = .ok [[("_id", .one)]] ∧
      (DocumentStore.find ns filter { limit := some 0 } s).1 = .ok [] :=
  ⟨regular_of_given (by simp) [] [], regular_of_given (by simp [IsWord]) [] [], rfl, rfl, rfl⟩

end FindOptions

/-! ## The options of a query -/

namespace QueryStep

theorem distinct_run (step : QueryStep) {q : Query} (h : q.projection.fields.Nodup ∧ q.sort.fields.Nodup) :
    (step.run q).projection.fields.Nodup ∧ (step.run q).sort.fields.Nodup := by
  cases step with
  | select fields => exact ⟨Projection.nodup_fields_ofFields fields, h.2⟩
  | orderBy fields direction => exact ⟨h.1, SortOrder.nodup_fields_ofKeys _⟩
  | inDatabase name => by_cases empty : name = "" <;> simpa [run, Query.inDatabase, empty] using h
  | inTable name => by_cases empty : name = "" <;> simpa [run, Query.inTable, empty] using h
  | _ => exact h

theorem distinct_runAll (steps : List QueryStep) {q : Query} (h : q.projection.fields.Nodup ∧ q.sort.fields.Nodup) :
    (runAll steps q).projection.fields.Nodup ∧ (runAll steps q).sort.fields.Nodup := by
  induction steps generalizing q with
  | nil => exact h
  | cons step steps ih => exact ih (step.distinct_run h)

theorem regular_findOptions (steps : List QueryStep) (client : Client) {limit : Nat} (word : IsWord limit) :
    ((runAll steps client.newQuery).findOptions limit).Regular := by
  obtain ⟨fields, keys⟩ := distinct_runAll steps (q := client.newQuery) ⟨.nil, .nil⟩
  refine ⟨fun n hn => ?_, fields, keys⟩
  rw [Query.findOptions] at hn
  split at hn <;> cases hn
  exact word

theorem findOptions_eq_of_text {steps steps' : List QueryStep} {client client' : Client} {limit limit' : Nat}
    (word : IsWord limit) (word' : IsWord limit') :
    let o := (runAll steps client.newQuery).findOptions limit
    let o' := (runAll steps' client'.newQuery).findOptions limit'
    o.toValue.text = o'.toValue.text ↔ o = o' := by
  intro o o'
  have never (q : Query) (limit : Nat) : (q.findOptions limit).limit ≠ some 0 := by
    rw [Query.findOptions]
    split <;> simp_all
  refine ⟨fun same => ?_, fun same => by rw [same]⟩
  obtain ⟨limits, projections, sorts⟩ :=
    ((regular_findOptions steps client word).text_toValue_inj (regular_findOptions steps' client' word')).mp same
  exact FindOptions.eq_of_limits limits (iff_of_false (never _ _) (never _ _)) projections sorts

end QueryStep

end DocQuery
