import Mathlib.Data.List.Forall2
import Mathlib.Data.List.Perm.Subperm
import DocQuery.Proofs.Number.Order
import DocQuery.Proofs.Value.WellFormed
import DocQuery.Value.Order

/-!
# Equality of values is an equivalence

`Value.equiv` looks up each field of the first object in the second one.  That this also holds the other way round is a
matter of counting: the first object has no name twice and as many fields as the second one, so no field of the second
one is left over.
-/

namespace DocQuery.Value

def isScalar : Value → Bool
  | null | bool _ | number _ | string _ => true
  | array _ | object _ => false

theorem equivItems_iff {xs ys : List Value} :
    equivItems xs ys = true ↔ List.Forall₂ (fun x y => x.equiv y = true) xs ys := by
  induction xs generalizing ys with
  | nil => cases ys <;> simp [equivItems]
  | cons x xs ih => cases ys <;> simp [equivItems, ih]

theorem equivFields_iff {fields doc : Document} :
    equivFields fields doc = true ↔
      ∀ field ∈ fields, ∃ y, doc.get? field.1 = some y ∧ field.2.equiv y = true := by
  induction fields with
  | nil => simp [equivFields]
  | cons field rest ih =>
      rw [equivFields, Bool.and_eq_true, ih, List.forall_mem_cons]
      refine and_congr_left fun _ => ?_
      cases doc.get? field.1 <;> simp

theorem equiv_object_iff {xs ys : Document} :
    (object xs).equiv (object ys) = true ↔ xs.length = ys.length ∧
      ∀ field ∈ xs, ∃ y, ys.get? field.1 = some y ∧ field.2.equiv y = true := by
  rw [equiv, Bool.and_eq_true, beq_iff_eq, equivFields_iff]

theorem equiv_refl {v : Value} (wf : v.WellFormed) : v.equiv v = true := by
  induction wf with
  | null => rfl
  | bool b => simp [equiv]
  | number n => simp [equiv, Number.compare_self]
  | string s => simp [equiv]
  | array each ih => exact equivItems_iff.mpr (List.forall₂_same.mpr ih)
  | object distinct each ih =>
      refine equiv_object_iff.mpr ⟨rfl, fun field hf => ?_⟩
      exact ⟨field.2, Document.get?_of_mem distinct hf, ih field hf⟩

theorem keys_perm {xs ys : Document} (distinct : xs.keys.Nodup) (length : xs.length = ys.length)
    (found : ∀ field ∈ xs, ∃ y, ys.get? field.1 = some y ∧ field.2.equiv y = true) :
    xs.keys.Perm ys.keys := by
  have subset : xs.keys ⊆ ys.keys := by
    intro name hn
    obtain ⟨field, hf, rfl⟩ := List.mem_map.mp hn
    obtain ⟨y, hy, -⟩ := found field hf
    exact Document.mem_keys_of_get? hy
  refine (List.subperm_of_subset distinct subset).perm_of_length_le ?_
  simp only [Document.keys, List.length_map, length, Nat.le_refl]

theorem equiv_symm {v w : Value} (wf : v.WellFormed) (h : v.equiv w = true) : w.equiv v = true := by
  induction wf generalizing w with
  | null => cases w <;> simp_all [equiv]
  | bool b => cases w <;> simp_all [equiv]
  | number n => cases w <;> simp_all [equiv, Number.compare_eq_comm (n := n)]
  | string s => cases w <;> simp_all [equiv]
  | @array xs each ih =>
      cases w <;> simp only [equiv, Bool.false_eq_true] at h ⊢
      rw [equivItems_iff] at h ⊢
      induction h with
      | nil => exact .nil
      | cons equal _ rest =>
          obtain ⟨first, others⟩ := List.forall_mem_cons.mp ih
          exact .cons (first equal) (rest (List.forall_mem_cons.mp each).2 others)
  | @object xs distinct each ih =>
      cases w with
      | object ys =>
          obtain ⟨length, found⟩ := equiv_object_iff.mp h
          have names := keys_perm distinct length found
          refine equiv_object_iff.mpr ⟨length.symm, fun field hf => ?_⟩
          obtain ⟨own, ho, same⟩ :=
            List.mem_map.mp (names.mem_iff.mpr (Document.mem_keys_of_mem hf))
          obtain ⟨y, hy, equal⟩ := found own ho
          -- the field of `ys` that the lookup finds is the given one
          rw [same, Document.get?_of_mem (names.nodup_iff.mp distinct) hf] at hy
          obtain rfl := Option.some.inj hy
          exact ⟨own.2, same ▸ Document.get?_of_mem distinct ho, ih own ho equal⟩
      | _ => simp [equiv] at h

theorem equiv_comm {v w : Value} (hv : v.WellFormed) (hw : w.WellFormed) : v.equiv w = w.equiv v :=
  Bool.eq_iff_iff.mpr ⟨equiv_symm hv, equiv_symm hw⟩

mutual

theorem equiv_trans (u : Value) {v w : Value} (huv : u.equiv v = true) (hvw : v.equiv w = true) :
    u.equiv w = true := by
  cases u with
  | null | bool b | string s =>
      cases v <;> simp only [equiv, beq_iff_eq, Bool.false_eq_true] at huv
      simp_all
  | number m =>
      cases v <;> simp only [equiv, beq_iff_eq, Bool.false_eq_true] at huv
      cases w <;> simp only [equiv, beq_iff_eq, Bool.false_eq_true] at hvw ⊢
      rw [Number.compare?_eq_some, Option.some.injEq] at huv hvw ⊢
      exact Std.TransCmp.eq_trans huv hvw
  | array xs =>
      cases v <;> simp only [equiv, Bool.false_eq_true] at huv
      cases w <;> simp only [equiv, Bool.false_eq_true] at hvw ⊢
      exact equivItems_trans xs huv hvw
  | object xs =>
      cases v <;> simp only [equiv, Bool.false_eq_true, Bool.and_eq_true, beq_iff_eq] at huv
      cases w <;> simp only [equiv, Bool.false_eq_true, Bool.and_eq_true, beq_iff_eq] at hvw ⊢
      exact ⟨huv.1.trans hvw.1, equivFields_trans xs huv.2 hvw.2⟩
termination_by structural u

theorem equivItems_trans (xs : List Value) {ys zs : List Value} (hxy : equivItems xs ys = true)
    (hyz : equivItems ys zs = true) : equivItems xs zs = true := by
  cases xs with
  | nil => cases ys <;> simp_all [equivItems]
  | cons x xs =>
      cases ys <;> simp only [equivItems, Bool.false_eq_true, Bool.and_eq_true] at hxy
      cases zs <;> simp only [equivItems, Bool.false_eq_true, Bool.and_eq_true] at hyz ⊢
      exact ⟨equiv_trans x hxy.1 hyz.1, equivItems_trans xs hxy.2 hyz.2⟩
termination_by structural xs

theorem equivFields_trans (xs : List (String × Value)) {ys zs : Document}
    (hxy : equivFields xs ys = true) (hyz : equivFields ys zs = true) : equivFields xs zs = true := by
  cases xs with
  | nil => rfl
  | cons field xs =>
      obtain ⟨name, x⟩ := field
      rw [equivFields, Bool.and_eq_true] at hxy ⊢
      refine ⟨?_, equivFields_trans xs hxy.2 hyz⟩
      cases found : ys.get? name with
      | none => simp [found] at hxy
      | some y =>
          simp only [found] at hxy
          obtain ⟨z, there, same⟩ := equivFields_iff.mp hyz _ (Document.mem_of_get? found)
          rw [there]
          exact equiv_trans x hxy.1 same
termination_by structural xs

end

/-- Equality in both directions; between well-formed values one of them is enough. -/
def Same (v w : Value) : Prop := v.equiv w = true ∧ w.equiv v = true

namespace Same

variable {u v w : Value}

theorem of_equiv (wf : v.WellFormed) (equal : v.equiv w = true) : Same v w :=
  ⟨equal, equiv_symm wf equal⟩

theorem equiv_left (same : Same u v) (w : Value) : u.equiv w = v.equiv w :=
  Bool.eq_iff_iff.mpr ⟨equiv_trans v same.2, equiv_trans u same.1⟩

theorem equiv_right (same : Same v w) (u : Value) : u.equiv v = u.equiv w :=
  Bool.eq_iff_iff.mpr ⟨fun h => equiv_trans u h same.1, fun h => equiv_trans u h same.2⟩

end Same

/-! ## Another order of fields -/

/-- The same value, except that its objects, at any depth, may have their fields in another order. -/
inductive Shuffled : Value → Value → Prop where
  | refl (v : Value) : Shuffled v v
  | array {xs ys : List Value} (length : xs.length = ys.length)
      (each : ∀ pair ∈ xs.zip ys, Shuffled pair.1 pair.2) : Shuffled (array xs) (array ys)
  | object {xs ys zs : Document} (moved : xs.Perm ys) (names : ys.keys = zs.keys)
      (each : ∀ pair ∈ ys.zip zs, Shuffled pair.1.2 pair.2.2) : Shuffled (object xs) (object zs)

theorem Shuffled.equiv {v w : Value} (shuffled : v.Shuffled w) (wf : v.WellFormed) : v.equiv w = true := by
  induction shuffled with
  | refl => exact equiv_refl wf
  | array length _ ih =>
      rw [wellFormed_array_iff] at wf
      refine equivItems_iff.mpr (List.forall₂_iff_zip.mpr ⟨length, fun paired => ?_⟩)
      exact ih _ paired (wf _ (List.of_mem_zip paired).1)
  | @object xs ys zs moved names _ ih =>
      obtain ⟨distinct, each⟩ := Document.wellFormed_iff.mp wf
      have distinct : ys.keys.Nodup := (moved.map Prod.fst).nodup_iff.mp distinct
      refine equiv_object_iff.mpr ⟨?_, fun field hf => ?_⟩
      · have sizes := congrArg List.length names
        simpa only [Document.keys, List.length_map, ← moved.length_eq] using sizes
      · have found := Document.get?_of_mem distinct (moved.mem_iff.mp hf)
        have named : field.1 ∈ zs.keys := names ▸ Document.mem_keys_of_get? found
        obtain ⟨z, there⟩ := Document.exists_get?_of_mem_keys named
        have paired : (field, (field.1, z)) ∈ ys.zip zs :=
          (Document.mem_zip_iff names distinct).mpr ⟨rfl, found, there⟩
        exact ⟨z, there, ih _ paired (each field hf)⟩

theorem equivalence_equiv :
    (Equivalence fun v w : {v : Value // v.WellFormed} => v.1.equiv w.1 = true) ∧
      ∀ v w : Value, v.WellFormed → v.Shuffled w → v.equiv w = true ∧
        ∀ u : Value, u.equiv v = u.equiv w ∧ v.equiv u = w.equiv u := by
  refine ⟨⟨fun v => equiv_refl v.2, fun {v _} => equiv_symm v.2, fun {u _ _} => equiv_trans u.1⟩,
    fun v w wf shuffled => ?_⟩
  have same := Same.of_equiv wf (shuffled.equiv wf)
  exact ⟨same.1, fun u => ⟨same.equiv_right u, same.equiv_left u⟩⟩

theorem equivalence_equiv_nested :
    let real : Value := .number (.float ⟨false, 4503599627370496, 1022, by decide⟩)
    let v : Value := .object [("a", .array [.object [("x", .null), ("y", .one)]]), ("b", .one)]
    let w : Value := .object [("b", .one), ("a", .array [.object [("y", .one), ("x", .null)]])]
    let u : Value := .object [("a", .array [.object [("y", real), ("x", .null)]]), ("b", .one)]
    let other : Value := .object [("a", .array [.object [("y", .minusOne), ("x", .null)]]), ("b", .one)]
    v.WellFormed ∧ v.Shuffled w ∧ v.equiv w = true ∧
      (u.equiv v = true ∧ u.equiv v = u.equiv w ∧ v.equiv u = w.equiv u) ∧
      (other.equiv v = false ∧ other.equiv v = other.equiv w ∧ v.equiv other = w.equiv other) := by
  intro real v w u other
  have wf : v.WellFormed := by simp [v, Document.keys, Value.one]
  have inner : Shuffled (.object [("x", .null), ("y", .one)]) (.object [("y", .one), ("x", .null)]) :=
    .object (.swap _ _ _) rfl (List.forall_mem_cons.mpr ⟨.refl _, List.forall_mem_singleton.mpr (.refl _)⟩)
  have shuffled : v.Shuffled w :=
    .object (.swap _ _ _) rfl (List.forall_mem_cons.mpr ⟨.refl _,
      List.forall_mem_singleton.mpr (.array rfl (List.forall_mem_singleton.mpr inner))⟩)
  obtain ⟨equal, either⟩ := equivalence_equiv.2 v w wf shuffled
  exact ⟨wf, shuffled, equal, ⟨by decide +kernel, either u⟩, by decide +kernel, either other⟩

end DocQuery.Value
