import DocQuery.Proofs.Shell.Options
import DocQuery.Shell.Invocation
import Mathlib.Data.List.Sort

namespace DocQuery.Shell

/-! ## Taking apart -/

section Table

variable {α β κ ι : Type} [DecidableEq κ] (key : α → κ) (f : ι → α → β)

theorem flatMap_filter_perm (items : List α) {table : List (κ × ι)} (distinct : (table.map Prod.fst).Nodup) :
    (table.flatMap fun entry => (items.filter (key · = entry.1)).map (f entry.2)).Perm
      (items.filterMap fun x => (table.lookup (key x)).map (f · x)) := by
  induction table with
  | nil => simp
  | cons entry table ih =>
      obtain ⟨name, kind⟩ := entry
      obtain ⟨fresh, distinct⟩ := List.nodup_cons.mp distinct
      let under (x : α) : Bool := key x = name
      let found (table : List (κ × ι)) (x : α) : Option β := (table.lookup (key x)).map (f · x)
      have here : (items.filter under).map (f kind) =
          (items.filter under).filterMap (found ((name, kind) :: table)) := by
        rw [← List.filterMap_eq_map]
        refine List.filterMap_congr fun x member => ?_
        have same : key x = name := of_decide_eq_true (List.mem_filter.mp member).2
        simp [found, same]
      have elsewhere : items.filterMap (found table) =
          (items.filter (!under ·)).filterMap (found ((name, kind) :: table)) := by
        rw [List.filterMap_filter]
        refine List.filterMap_congr fun x _ => ?_
        by_cases same : key x = name
        · have absent : table.lookup name = none :=
            List.lookup_eq_none_iff.mpr fun other member =>
              bne_iff_ne.mpr fun equal => fresh (List.mem_map.mpr ⟨other, member, equal.symm⟩)
          simp [found, under, same, absent]
        · have skipped : (key x == name) = false := beq_eq_false_iff_ne.mpr same
          simp only [found, under, same, List.lookup_cons, skipped, decide_false, Bool.not_false, if_true]
      have apart : (items.filter under).map (f kind) ++ items.filterMap (found table) =
          (items.filter under ++ items.filter (!under ·)).filterMap (found ((name, kind) :: table)) := by
        rw [here, elsewhere, List.filterMap_append]
      rw [List.flatMap_cons]
      refine ((ih distinct).append_left _).trans (List.Perm.trans (.of_eq apart) ?_)
      exact (List.filter_append_perm under items).filterMap _

end Table

/-! ## Putting together -/

theorem mergeSort_eq_of_perm {β : Type} {l m : List (Nat × β)} (same : l.Perm m) (grows : m.Pairwise (·.1 < ·.1)) :
    (l.mergeSort fun a b => a.1 ≤ b.1) = m := by
  have sorted : (l.mergeSort fun a b => a.1 ≤ b.1).Pairwise (·.1 ≤ ·.1) := by
    have ordered := @List.pairwise_mergeSort (Nat × β) (fun a b => a.1 ≤ b.1)
      (fun a b c => by simpa using Nat.le_trans) (fun a b => by simpa using Nat.le_total a.1 b.1) l
    exact ordered.imp of_decide_eq_true
  have arranged : (l.mergeSort fun a b => a.1 ≤ b.1).Perm m := (List.mergeSort_perm l _).trans same
  have distinct : (m.map Prod.fst).Nodup := (List.pairwise_map.mpr grows).imp Nat.ne_of_lt
  refine arranged.eq_of_pairwise (fun a b memberA memberB le ge => ?_) sorted (grows.imp Nat.le_of_lt)
  exact List.inj_on_of_nodup_map distinct (arranged.mem_iff.mp memberA) memberB (Nat.le_antisymm le ge)

def condition? (option value : String) : Option (Connective × String) :=
  if option = "where" then some (.and, value)
  else if option = "or-where" then some (.or, value)
  else none

theorem condition?_eq_lookup (option value : String) :
    condition? option value = (conditionOptions.lookup option).map (·, value) := by
  rw [condition?, conditionOptions]
  split
  case isTrue conjunct =>
    rw [conjunct]
    rfl
  case isFalse notConjunct =>
    rw [List.lookup_cons, beq_eq_false_iff_ne.mpr notConjunct]
    split
    case isTrue alternative =>
      rw [alternative]
      rfl
    case isFalse neither =>
      rw [List.lookup_cons, beq_eq_false_iff_ne.mpr neither]
      rfl

section Places

variable (place : Nat → Nat) (s : Scan)

def placedConditions : List (Nat × Connective × String) :=
  s.settled.zipIdx.filterMap fun (given, n) =>
    (conditionOptions.lookup given.1).map fun kind => (place n, kind, given.2)

theorem map_placedConditions :
    (placedConditions place s).map (·.2) = s.settled.filterMap fun given => condition? given.1 given.2 := by
  rw [placedConditions, List.map_filterMap]
  conv_rhs => rw [← List.zipIdx_map_fst 0 s.settled, List.filterMap_map]
  refine List.filterMap_congr fun x _ => ?_
  rw [Option.map_map]
  exact (condition?_eq_lookup x.1.1 x.1.2).symm

theorem pairwise_placedConditions (grows : StrictMono place) :
    (placedConditions place s).Pairwise (·.1 < ·.1) := by
  have positions : s.settled.zipIdx.Pairwise (·.2 < ·.2) := by
    rw [← List.pairwise_map (f := Prod.snd), List.zipIdx_map_snd]
    exact List.pairwise_lt_range' 1
  refine List.pairwise_filterMap.mpr (positions.imp fun {x y} before a left b right => ?_)
  obtain ⟨_, _, rfl⟩ := Option.map_eq_some_iff.mp left
  obtain ⟨_, _, rfl⟩ := Option.map_eq_some_iff.mp right
  exact grows before

theorem zip_places_values (name : String) :
    (s.places place name).zip (s.values name) =
      (s.settled.zipIdx.filter (·.1.1 = name)).map fun (given, n) => (place n, given.2) := by
  have values : s.values name = (s.settled.zipIdx.filter (·.1.1 = name)).map (·.1.2) := by
    rw [Scan.values]
    conv_lhs => rw [← List.zipIdx_map_fst 0 s.settled, List.filter_map, List.map_map]
    rfl
  rw [values, Scan.places, List.zip_map']

-- sorting by distinct places undoes any permutation, so it does not matter in which order the two lists were joined
theorem conditionsOf_eq (grows : StrictMono place) :
    conditionsOf place s = s.settled.filterMap fun given => condition? given.1 given.2 := by
  have apart : (conditionOptions.flatMap fun entry =>
      ((s.places place entry.1).zip (s.values entry.1)).map fun placed => (placed.1, entry.2, placed.2)).Perm
        (placedConditions place s) := by
    simp only [zip_places_values, List.map_map]
    exact flatMap_filter_perm (fun x : (String × String) × Nat => x.1.1) (fun kind x => (place x.2, kind, x.1.2))
      s.settled.zipIdx (by decide)
  have sorted := mergeSort_eq_of_perm apart (pairwise_placedConditions place s grows)
  calc conditionsOf place s = (placedConditions place s).map (·.2) := congrArg (List.map Prod.snd) sorted
    _ = _ := map_placedConditions place s

end Places

/-! ## Command lines -/

structure CommandLine where
  options : List (Occurrence mainGrammar)
  command : String
  known : command ∈ mainGrammar.subcommands
  rest : List String := []

namespace CommandLine

def words (line : CommandLine) : List String :=
  line.options.flatMap Occurrence.words ++ line.command :: line.rest

def conditions (line : CommandLine) : List (Connective × String) :=
  line.options.filterMap fun o => condition? o.rule.name o.value

end CommandLine

namespace Invocation

variable {place : Nat → Nat} {inv : Invocation}

theorem onlyValued_mainGrammar : mainGrammar.OnlyValued where
  valued := by decide
  distinct := by decide
  named := by decide
  noPositionals := rfl
  plainSubcommands := by decide

theorem ready_start : Scan.Ready {} := ⟨rfl, rfl⟩

theorem parse_ok {words : List String} (accepted : parse words place = .ok inv) :
    ∃ s name rest, Scan.level mainGrammar words {} = .ok (s, some (name, rest)) ∧
      parseCommand name rest = .ok inv.command ∧
      ∃ settled, s.settle = .ok settled ∧ inv.conditions = conditionsOf place settled := by
  rw [parse] at accepted
  split at accepted
  case h_1 => cases accepted
  case h_2 => split at accepted <;> cases accepted
  case h_3 s name rest reads =>
    split at accepted
    case h_1 => cases accepted
    case h_2 command commanded =>
      obtain ⟨settled, settles, rfl⟩ := Scan.map_eq_ok_iff.mp accepted
      exact ⟨s, name, rest, reads, commanded, settled, settles, rfl⟩

theorem exists_commandLine {words : List String} (accepted : parse words place = .ok inv) :
    ∃ line : CommandLine, line.words = words := by
  obtain ⟨s, name, rest, reads, _⟩ := parse_ok accepted
  obtain ⟨known, options, same⟩ :=
    Scan.exists_words onlyValued_mainGrammar ready_start.options (fun _ _ pending => by cases pending) reads
  exact ⟨⟨options, name, known, rest⟩, same.symm⟩

theorem parse_words (grows : StrictMono place) {line : CommandLine} (accepted : parse line.words place = .ok inv) :
    parseCommand line.command line.rest = .ok inv.command ∧ inv.conditions = line.conditions := by
  obtain ⟨s, name, rest, reads, commanded, settled, settles, conditions⟩ := parse_ok accepted
  obtain ⟨same, given⟩ := Scan.level_words onlyValued_mainGrammar line.known line.options ready_start reads
  obtain ⟨before, start, entries⟩ := given settled settles
  cases same
  cases start
  refine ⟨commanded, ?_⟩
  rw [conditions, conditionsOf_eq place settled grows, entries, List.nil_append, List.filterMap_map]
  rfl

end Invocation

end DocQuery.Shell
