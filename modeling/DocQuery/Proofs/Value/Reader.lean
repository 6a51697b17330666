import DocQuery.Proofs.Value.WellFormed
import DocQuery.Value.Reader

namespace DocQuery

namespace Document

variable {fields : List (String × Value)}

theorem ofFields_induction {P : Document → Prop} (none : P [])
    (step : ∀ doc, P doc → ∀ field ∈ fields, P (doc.insert field.1 field.2)) : P (ofFields fields) := by
  suffices general : ∀ doc, P doc → P (fields.foldl (fun doc field => doc.insert field.1 field.2) doc) from
    general [] none
  induction fields with
  | nil => exact fun _ h => h
  | cons field fields ih =>
      intro doc h
      exact ih (fun doc h field hf => step doc h field (List.mem_cons_of_mem _ hf)) _
        (step doc h field List.mem_cons_self)

theorem wellFormed_ofFields (each : ∀ field ∈ fields, field.2.WellFormed) : (ofFields fields).WellFormed :=
  ofFields_induction wellFormed_nil fun _ wf field hf => wf.insert (each field hf)

theorem forall_mem_ofFields {P : Value → Prop} (each : ∀ field ∈ fields, P field.2) :
    ∀ field ∈ ofFields fields, P field.2 := by
  refine ofFields_induction (P := fun doc => ∀ field ∈ doc, P field.2) nofun fun doc holds field hf own ho => ?_
  rcases mem_of_mem_insert ho with rfl | ho
  · exact each field hf
  · exact holds own ho

end Document

namespace Reader

def Yields {α : Type} (P : α → Prop) (reader : Reader α) : Prop :=
  ∀ cs x rest, reader cs = some (x, rest) → P x

theorem yields_scalar {P : Value → Prop} (null : P .null) (bool : ∀ b, P (.bool b)) (number : ∀ n, P (.number n))
    (string : ∀ s, P (.string s)) : Yields P scalar := by
  intro cs v rest h
  rw [scalar.eq_def] at h
  split at h
  · cases h
    exact null
  · cases h
    exact bool true
  · cases h
    exact bool false
  · obtain ⟨read, -, same⟩ := Option.map_eq_some_iff.mp h
    cases same
    exact string _
  · obtain ⟨n, -, same⟩ := Option.map_eq_some_iff.mp h
    cases same
    exact number n

theorem yields_items {α : Type} {P : α → Prop} {item : Reader α} (h : Yields P item) (closing : Char)
    (bound : Nat) : Yields (fun xs => ∀ x ∈ xs, P x) (items item closing bound) := by
  induction bound with
  | zero => exact fun _ _ _ read => nomatch read
  | succ bound ih =>
      intro cs xs rest read
      rw [items, Option.bind_eq_bind, Option.bind_eq_some_iff] at read
      obtain ⟨⟨x, between⟩, first, read⟩ := read
      have holds := h _ _ _ first
      simp only at read
      split at read
      · cases read
      · split at read
        · rw [Option.bind_eq_bind, Option.bind_eq_some_iff] at read
          obtain ⟨⟨others, _⟩, more, same⟩ := read
          cases same
          exact List.forall_mem_cons.mpr ⟨holds, ih _ _ _ more⟩
        · split at read <;> cases read
          exact List.forall_mem_singleton.mpr holds

theorem yields_field {P : Value → Prop} {item : Reader Value} (h : Yields P item) :
    Yields (fun field => P field.2) (field item) := by
  intro cs x rest read
  unfold field at read
  split at read
  · rw [Option.bind_eq_bind, Option.bind_eq_some_iff] at read
    obtain ⟨⟨name, between⟩, -, read⟩ := read
    simp only at read
    split at read
    · rw [Option.bind_eq_bind, Option.bind_eq_some_iff] at read
      obtain ⟨⟨v, _⟩, found, same⟩ := read
      cases same
      exact h _ _ _ found
    · cases read
  · cases read

theorem yields_value {P : Nat → Value → Prop} (ofScalar : ∀ depth, Yields (P depth) scalar)
    (ofItems : ∀ depth items, (∀ x ∈ items, P depth x) → P (depth + 1) (.array items))
    (ofFields : ∀ depth (fields : Document), (∀ field ∈ fields, P depth field.2) →
      P (depth + 1) (.object (Document.ofFields fields)))
    (bound depth : Nat) : Yields (P depth) (value bound depth) := by
  induction depth with
  | zero => exact fun _ v rest read => ofScalar 0 _ v rest read
  | succ depth ih =>
      intro cs v rest read
      simp only [value] at read
      split at read
      · split at read
        · cases read
          exact ofItems depth [] (by simp)
        · obtain ⟨⟨xs, _⟩, found, same⟩ := Option.map_eq_some_iff.mp read
          cases same
          exact ofItems depth xs (yields_items ih _ _ _ _ _ found)
      · split at read
        · cases read
          exact ofFields depth [] (by simp)
        · obtain ⟨⟨xs, _⟩, found, same⟩ := Option.map_eq_some_iff.mp read
          cases same
          exact ofFields depth xs (yields_items (yields_field ih) _ _ _ _ _ found)
      · exact ofScalar _ _ _ _ read

end Reader

namespace Value

theorem exists_reader_of_ofText? {text : String} {v : Value} (h : ofText? text = some v) :
    ∃ bound cs rest, Reader.value bound maxDepth cs = some (v, rest) := by
  rw [ofText?, ofTextWithin?, Option.bind_eq_bind, Option.bind_eq_some_iff] at h
  obtain ⟨⟨read, rest⟩, found, h⟩ := h
  simp only at h
  split at h <;> cases h
  exact ⟨_, _, _, found⟩

theorem wellFormed_ofText? {text : String} {v : Value} (h : ofText? text = some v) : v.WellFormed := by
  obtain ⟨bound, cs, rest, found⟩ := exists_reader_of_ofText? h
  exact Reader.yields_value (P := fun _ => WellFormed) (fun _ => Reader.yields_scalar .null .bool .number .string)
    (fun _ _ => .array) (fun _ _ => Document.wellFormed_ofFields) _ _ _ _ _ found

end Value

end DocQuery
