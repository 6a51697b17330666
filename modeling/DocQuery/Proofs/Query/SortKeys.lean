import Mathlib.Data.List.Nodup
import DocQuery.Proofs.Query.SortOrder

namespace DocQuery

theorem Direction.apply_eq_eq_iff (d : Direction) (o : Ordering) : d.apply o = .eq ↔ o = .eq := by
  cases d with
  | ascending => exact Iff.rfl
  | descending => cases o <;> decide

namespace SortOrder

variable {s : SortOrder} {key : SortKey} {keys : List SortKey} {a b : Document}

def fields (s : SortOrder) : List String := s.keys.map SortKey.field

def named (keys : List SortKey) : List SortKey := keys.filter (·.field ≠ "")

def firstOfEach (keys : List SortKey) : List SortKey := keys.eraseDupsBy (·.field == ·.field)

theorem named_cons (key : SortKey) (keys : List SortKey) :
    named (key :: keys) = if key.field = "" then named keys else key :: named keys := by
  by_cases unnamed : key.field = "" <;> simp [named, unnamed]

theorem firstOfEach_cons (key : SortKey) (keys : List SortKey) :
    firstOfEach (key :: keys) = key :: firstOfEach (keys.filter (·.field ≠ key.field)) := by
  rw [firstOfEach, List.eraseDupsBy_cons]
  simp [firstOfEach]

/-! ## One key -/

theorem add_of_unnamed (unnamed : key.field = "") : s.add key = s := if_pos (.inl unnamed)

theorem add_of_repeated (repeated : key.field ∈ s.fields) : s.add key = s := if_pos (.inr repeated)

theorem add_of_new (named : key.field ≠ "") (fresh : key.field ∉ s.fields) : s.add key = ⟨s.keys ++ [key]⟩ :=
  if_neg (not_or.mpr ⟨named, fresh⟩)

theorem nodup_fields_add (distinct : s.fields.Nodup) (key : SortKey) : (s.add key).fields.Nodup := by
  rw [add]
  split
  · exact distinct
  · rename_i new
    rw [fields, List.map_append, List.map_singleton, ← List.concat_eq_append]
    exact .concat (fun among => new (.inr among)) distinct

theorem compareAll_append (keys more : List SortKey) (a b : Document) :
    compareAll (keys ++ more) a b = (compareAll keys a b).then (compareAll more a b) := by
  induction keys with
  | nil => rfl
  | cons key keys ih => rw [List.cons_append, compareAll, compareAll, ih, Ordering.then_assoc]

theorem compareAll_eq_eq_iff : compareAll keys a b = .eq ↔ ∀ key ∈ keys, compareBy key a b = .eq := by
  induction keys with
  | nil => simp [compareAll]
  | cons key keys ih => rw [compareAll, Ordering.then_eq_eq, ih, List.forall_mem_cons]

theorem compareBy_eq_eq_iff :
    compareBy key a b = .eq ↔ Value.orderMissing (a.lookup? key.field) (b.lookup? key.field) = .eq :=
  key.direction.apply_eq_eq_iff _

theorem then_compareBy_of_repeated (repeated : key.field ∈ s.fields) (a b : Document) :
    (s.compare a b).then (compareBy key a b) = s.compare a b := by
  cases outcome : s.compare a b with
  | eq =>
      obtain ⟨first, among, same⟩ := List.mem_map.mp repeated
      have tie := compareAll_eq_eq_iff.mp outcome first among
      rwa [compareBy_eq_eq_iff, same, ← compareBy_eq_eq_iff] at tie
  | _ => rfl

theorem compare_add (named : key.field ≠ "") (s : SortOrder) (a b : Document) :
    (s.add key).compare a b = (s.compare a b).then (compareBy key a b) := by
  by_cases repeated : key.field ∈ s.fields
  · rw [add_of_repeated repeated, then_compareBy_of_repeated repeated]
  · rw [add_of_new named repeated, SortOrder.compare, compareAll_append, compareAll, compareAll, Ordering.then_eq]
    rfl

theorem find?_add (given : key.field ≠ "") (s : SortOrder) (name : String) :
    (s.add key).keys.find? (·.field = name) =
      (s.keys.find? (·.field = name)).or (if key.field = name then some key else none) := by
  by_cases repeated : key.field ∈ s.fields
  · rw [add_of_repeated repeated]
    split
    · subst name
      obtain ⟨first, among, same⟩ := List.mem_map.mp repeated
      have found : (s.keys.find? (·.field = key.field)).isSome :=
        List.find?_isSome.mpr ⟨first, among, decide_eq_true same⟩
      rw [Option.or_of_isSome found]
    · exact Option.or_none.symm
  · rw [add_of_new given repeated, List.find?_append, List.find?_singleton]
    simp

/-! ## Several keys -/

theorem nodup_fields_foldl_add (keys : List SortKey) (distinct : s.fields.Nodup) :
    (keys.foldl add s).fields.Nodup := by
  induction keys generalizing s with
  | nil => exact distinct
  | cons key keys ih => exact ih (nodup_fields_add distinct key)

theorem nodup_fields_ofKeys (keys : List SortKey) : (ofKeys keys).fields.Nodup := nodup_fields_foldl_add keys .nil

theorem keys_foldl_add (keys : List SortKey) (s : SortOrder) :
    (keys.foldl add s).keys = s.keys ++ firstOfEach ((named keys).filter (·.field ∉ s.fields)) := by
  induction keys generalizing s with
  | nil => exact (List.append_nil _).symm
  | cons key keys ih =>
      rw [List.foldl_cons, ih, named_cons]
      by_cases unnamed : key.field = ""
      · rw [add_of_unnamed unnamed, if_pos unnamed]
      · rw [if_neg unnamed]
        by_cases repeated : key.field ∈ s.fields
        · rw [add_of_repeated repeated, List.filter_cons_of_neg (by simpa using repeated)]
        · rw [add_of_new unnamed repeated, List.filter_cons_of_pos (by simpa using repeated), firstOfEach_cons,
            List.filter_filter, List.append_assoc]
          simp [fields, not_or, Bool.and_comm]

theorem keys_ofKeys (keys : List SortKey) : (ofKeys keys).keys = firstOfEach (named keys) := by
  have all : (named keys).filter (·.field ∉ fields {}) = named keys := List.filter_eq_self.mpr (by simp [fields])
  rw [ofKeys, keys_foldl_add, all, List.nil_append]

theorem find?_foldl_add (keys : List SortKey) (s : SortOrder) (name : String) :
    (keys.foldl add s).keys.find? (·.field = name) =
      (s.keys.find? (·.field = name)).or ((named keys).find? (·.field = name)) := by
  induction keys generalizing s with
  | nil => exact Option.or_none.symm
  | cons key keys ih =>
      rw [List.foldl_cons, ih, named_cons]
      split
      · rw [add_of_unnamed ‹_›]
      · rw [find?_add ‹_›, Option.or_assoc, List.find?_cons]
        by_cases asked : key.field = name <;> simp [asked]

theorem compare_foldl_add (keys : List SortKey) (s : SortOrder) (a b : Document) :
    (keys.foldl add s).compare a b = (s.compare a b).then (compareAll (named keys) a b) := by
  induction keys generalizing s with
  | nil => exact Ordering.then_eq.symm
  | cons key keys ih =>
      rw [List.foldl_cons, ih, named_cons]
      split
      · rw [add_of_unnamed ‹_›]
      · rw [compare_add ‹_›, compareAll, Ordering.then_assoc]

theorem compareAll_eq_find? (keys : List SortKey) (a b : Document) :
    compareAll keys a b = ((keys.map (compareBy · a b)).find? (· ≠ .eq)).getD .eq := by
  induction keys with
  | nil => rfl
  | cons key keys ih =>
      rw [compareAll, List.map_cons, List.find?_cons]
      cases compareBy key a b with
      | eq => exact ih
      | _ => rfl

/-- Of the keys of one field only the first one that was given counts. -/
theorem sorts_by_first_of_each (fields : List String) (direction : Direction) (keys : List SortKey) :
    let s := keys.foldl add (uniform fields direction)
    let given := named (fields.map (SortKey.mk · direction) ++ keys)
    s.keys = firstOfEach given ∧
      (∀ name, s.keys.find? (·.field = name) = given.find? (·.field = name)) ∧
      s.toValue = .object ((firstOfEach given).map fun key => (key.field, key.direction.toValue)) ∧
      (s.keys.map SortKey.field).Nodup ∧
      ∀ a b, s.compare a b = ((given.map (compareBy · a b)).find? (· ≠ .eq)).getD .eq := by
  intro s given
  have inTurn : s = ofKeys (fields.map (SortKey.mk · direction) ++ keys) := List.foldl_append.symm
  have kept : s.keys = firstOfEach given := inTurn ▸ keys_ofKeys _
  refine ⟨kept, fun name => ?_, ?_, inTurn ▸ nodup_fields_ofKeys _, fun a b => ?_⟩
  · rw [inTurn]
    exact find?_foldl_add _ {} name
  · rw [toValue, kept]
  · rw [inTurn, ← compareAll_eq_find?]
    exact compare_foldl_add _ {} a b

example : (ofKeys [⟨"b", .descending⟩, ⟨"", .ascending⟩, ⟨"a", .ascending⟩, ⟨"b", .ascending⟩]).keys =
    [⟨"b", .descending⟩, ⟨"a", .ascending⟩] := by decide

end SortOrder

end DocQuery
