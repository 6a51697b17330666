import DocQuery.Proofs.Value.Fields

namespace DocQuery

inductive Value.WellFormed : Value → Prop where
  | null : WellFormed .null
  | bool (b : Bool) : WellFormed (.bool b)
  | number (n : Number) : WellFormed (.number n)
  | string (s : String) : WellFormed (.string s)
  | array {items : List Value} (each : ∀ x ∈ items, WellFormed x) : WellFormed (.array items)
  | object {fields : Document} (distinct : fields.keys.Nodup)
      (each : ∀ field ∈ fields, WellFormed field.2) : WellFormed (.object fields)

attribute [simp] Value.WellFormed.null Value.WellFormed.bool Value.WellFormed.number
  Value.WellFormed.string

@[simp] theorem Value.wellFormed_array_iff {items : List Value} :
    (array items).WellFormed ↔ ∀ x ∈ items, x.WellFormed := by
  constructor
  · rintro (_ | _ | _ | _ | each)
    exact each
  · exact .array

namespace Document

variable {doc : Document} {key name : String} {v : Value}

def WellFormed (doc : Document) : Prop := (Value.object doc).WellFormed

@[simp] theorem wellFormed_object_iff : (Value.object doc).WellFormed ↔ doc.WellFormed := Iff.rfl

@[simp] theorem wellFormed_iff :
    doc.WellFormed ↔ doc.keys.Nodup ∧ ∀ field ∈ doc, field.2.WellFormed := by
  constructor
  · rintro (_ | _ | _ | _ | _ | ⟨distinct, each⟩)
    exact ⟨distinct, each⟩
  · rintro ⟨distinct, each⟩
    exact .object distinct each

theorem WellFormed.distinct (wf : doc.WellFormed) : doc.keys.Nodup := (wellFormed_iff.mp wf).1

theorem wellFormed_nil : WellFormed [] := wellFormed_iff.mpr ⟨.nil, by simp⟩

theorem WellFormed.of_get? (wf : doc.WellFormed) (h : doc.get? name = some v) : v.WellFormed :=
  (wellFormed_iff.mp wf).2 _ (mem_of_get? h)

theorem WellFormed.getD {inner : Document} (wf : doc.WellFormed)
    (found : (doc.get? name).getD (.object []) = .object inner) : inner.WellFormed := by
  rcases get?_of_getD found with present | ⟨-, rfl⟩
  · exact wf.of_get? present
  · exact wellFormed_nil

theorem WellFormed.insert (wf : doc.WellFormed) (hv : v.WellFormed) :
    (doc.insert key v).WellFormed := by
  obtain ⟨distinct, each⟩ := wellFormed_iff.mp wf
  refine wellFormed_iff.mpr ⟨nodup_keys_insert distinct key v, fun field hf => ?_⟩
  rcases mem_of_mem_insert hf with rfl | hf
  · exact hv
  · exact each field hf

theorem WellFormed.removeBySwap (wf : doc.WellFormed) (key : String) :
    (doc.removeBySwap key).WellFormed := by
  obtain ⟨distinct, each⟩ := wellFormed_iff.mp wf
  refine wellFormed_iff.mpr ⟨nodup_keys_removeBySwap distinct key, fun field hf => ?_⟩
  exact each field (List.mem_filter.mp ((removeBySwap_perm distinct key).mem_iff.mp hf)).1

theorem insert_eq_append (h : doc.get? key = none) (v : Value) :
    doc.insert key v = doc ++ [(key, v)] := by
  induction doc with
  | nil => rfl
  | cons field doc ih =>
      rw [get?_cons] at h
      split at h <;> rename_i other
      · cases h
      · rw [Document.insert, if_neg other, ih h]
        rfl

end Document

end DocQuery
