import DocQuery.Proofs.Shell.Expression
import DocQuery.Proofs.Value.RoundTrip

namespace DocQuery.Shell.Expression

open Text

theorem ofToken_keyword (op : Operator) : Operator.ofToken op.keyword = op := by cases op <;> decide

theorem keyword_isToken (op : Operator) : Unbroken op.keyword.toList ∧ lowered op.keyword ≠ "not" := by
  cases op <;> decide

theorem parse_keyword (kind : Connective) {field : String} (named : Unbroken field.toList) (op : Operator)
    {cs : List Char} (solid : Solid cs) (noLineFeed : '\n' ∉ cs) :
    parse kind (field ++ " " ++ op.keyword ++ " " ++ String.ofList cs) = .ok ⟨kind, field, op, readOperand op cs⟩ := by
  have space : AllBlank " ".toList ∧ " " ≠ "" := by decide
  let l : Layout := ⟨"", field, " ", op.keyword, " ", String.ofList cs, "", allBlank_nil, named, space,
    (keyword_isToken op).1, (keyword_isToken op).2, space,
    ⟨by simp [trimmed, solid.trim_eq], by simp [solid.nonempty]⟩, allBlank_nil⟩
  have text : l.text = field ++ " " ++ op.keyword ++ " " ++ String.ofList cs := by simp [l, Layout.text]
  have value : l.value.toList = cs := String.toList_ofList
  rw [← text, l.parse_text, value, if_neg noLineFeed, ← l.readOperand_value, value, ofToken_keyword]

theorem scalar_chars {v : Value} (h : Value.ofText? v.text = some v) : scalar v.chars = v := by
  rw [scalar, ← Value.text, h, Option.getD_some]

theorem noLineFeed_of_printable {cs : List Char} (h : Printable cs) : '\n' ∉ cs :=
  fun within => absurd (h _ within) (by decide)

theorem readOperand_chars {op : Operator} (single : op.expectsSequence = false) {v : Value}
    (h : Value.ofText? v.text = some v) : readOperand op v.chars = v := by
  rw [readOperand, single, if_neg Bool.false_ne_true, scalar_chars h]

theorem readOperand_listed {op : Operator} (sequence : op.expectsSequence = true) {vs : List Value}
    (nonempty : vs ≠ []) (each : ∀ v ∈ vs, Value.ofText? v.text = some v ∧ ',' ∉ v.chars) :
    readOperand op (listed (vs.map Value.chars)) = .array vs := by
  have apart : (listed (vs.map Value.chars)).splitOn ',' = vs.map Value.chars := by
    refine List.splitOn_intercalate ',' ?_ (by simpa using nonempty)
    rintro _ among
    obtain ⟨v, hv, rfl⟩ := List.mem_map.mp among
    exact (each v hv).2
  have read : vs.map (fun v => scalar (trim v.chars)) = vs.map id :=
    List.map_congr_left fun v hv => by rw [v.solid_chars.trim_eq, scalar_chars (each v hv).1, id]
  rw [readOperand, sequence, if_pos rfl, splitOn_eq, apart, List.map_map]
  exact congrArg Value.array (read.trans (List.map_id vs))

end DocQuery.Shell.Expression
