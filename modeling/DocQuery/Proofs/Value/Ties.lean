import DocQuery.Proofs.Value.Equality

namespace DocQuery.Value

/-! ## Objects inside a value -/

/-- One step into a value: to an item of an array or to a field of an object. -/
inductive Inward where
  | item (position : Nat)
  | field (name : String)

def inside? : List Inward → Value → Option Value
  | [], v => some v
  | .item position :: rest, array items => (items[position]?).bind (inside? rest)
  | .field name :: rest, object fields => (Document.get? fields name).bind (inside? rest)
  | _ :: _, _ => none

/-- Objects at the same place inside the two values have the same names in the same order. -/
def SameLayout (v w : Value) : Prop :=
  ∀ place xs ys, v.inside? place = some (object xs) → w.inside? place = some (object ys) →
    Document.keys xs = Document.keys ys

def FreeOfObjects (v : Value) : Prop := ∀ place fields, v.inside? place ≠ some (object fields)

variable {v w : Value} {xs ys : List Value} {fields others : Document}

theorem FreeOfObjects.sameLayout (free : v.FreeOfObjects) (w : Value) : v.SameLayout w :=
  fun place xs _ found _ => absurd found (free place xs)

theorem freeOfObjects_of_scalar (scalar : v.isScalar = true) : v.FreeOfObjects := by
  intro place fields found
  cases place with
  | nil =>
      cases found
      cases scalar
  | cons step place =>
      cases v with
      | array | object => cases scalar
      | _ => cases step <;> cases found

theorem freeOfObjects_array (each : ∀ x ∈ xs, x.FreeOfObjects) : (array xs).FreeOfObjects := by
  intro place fields found
  match place with
  | [] => cases found
  | .field name :: place => cases found
  | .item i :: place =>
      obtain ⟨x, here, found⟩ := Option.bind_eq_some_iff.mp found
      exact each x (List.mem_of_getElem? here) place fields found

theorem sameLayout_array_iff :
    SameLayout (array xs) (array ys) ↔ ∀ pair ∈ xs.zip ys, SameLayout pair.1 pair.2 := by
  constructor
  · intro same pair paired place xs ys hx hy
    obtain ⟨i, here⟩ := List.mem_iff_getElem?.mp paired
    obtain ⟨left, right⟩ := List.getElem?_zip_eq_some.mp here
    refine same (.item i :: place) xs ys ?_ ?_
    · rw [inside?, left, Option.bind_some, hx]
    · rw [inside?, right, Option.bind_some, hy]
  · intro each place fields others hx hy
    match place with
    | [] => cases hx
    | .field name :: place => cases hx
    | .item i :: place =>
        obtain ⟨x, left, hx⟩ := Option.bind_eq_some_iff.mp hx
        obtain ⟨y, right, hy⟩ := Option.bind_eq_some_iff.mp hy
        have paired : (x, y) ∈ xs.zip ys :=
          List.mem_iff_getElem?.mpr ⟨i, List.getElem?_zip_eq_some.mpr ⟨left, right⟩⟩
        exact each _ paired place fields others hx hy

theorem sameLayout_object_iff :
    SameLayout (object fields) (object others) ↔ fields.keys = others.keys ∧
      ∀ name x y, fields.get? name = some x → others.get? name = some y → SameLayout x y := by
  constructor
  · refine fun same => ⟨same [] fields others rfl rfl, fun name x y left right place xs ys hx hy => ?_⟩
    refine same (.field name :: place) xs ys ?_ ?_
    · rw [inside?, left, Option.bind_some, hx]
    · rw [inside?, right, Option.bind_some, hy]
  · rintro ⟨names, each⟩ place xs ys hx hy
    match place with
    | [] =>
        cases hx
        cases hy
        exact names
    | .item i :: place => cases hx
    | .field name :: place =>
        obtain ⟨x, left, hx⟩ := Option.bind_eq_some_iff.mp hx
        obtain ⟨y, right, hy⟩ := Option.bind_eq_some_iff.mp hy
        exact each name x y left right place xs ys hx hy

/-! ## Ties of arrays and objects -/

theorem orderItems_eq_eq_iff :
    orderItems xs ys = .eq ↔ xs.length = ys.length ∧ ∀ pair ∈ xs.zip ys, pair.1.order pair.2 = .eq := by
  induction xs generalizing ys with
  | nil => cases ys <;> simp [orderItems]
  | cons x xs ih =>
      cases ys with
      | nil => simp [orderItems]
      | cons y ys =>
          rw [orderItems, Ordering.then_eq_eq, ih, List.zip_cons_cons, List.forall_mem_cons, List.length_cons,
            List.length_cons, Nat.add_right_cancel_iff]
          exact and_left_comm

theorem orderFields_eq_eq_iff (distinct : fields.keys.Nodup) :
    orderFields fields others = .eq ↔ fields.keys = others.keys ∧
      ∀ name x y, fields.get? name = some x → others.get? name = some y → x.order y = .eq := by
  have inTurn : orderFields fields others = .eq ↔ fields.keys = others.keys ∧
      ∀ pair ∈ fields.zip others, pair.1.2.order pair.2.2 = .eq := by
    clear distinct
    induction fields generalizing others with
    | nil => cases others <;> simp [orderFields, Document.keys]
    | cons field fields ih =>
        cases others with
        | nil => simp [orderFields, Document.keys]
        | cons other others =>
            rw [orderFields, Ordering.then_eq_eq, Ordering.then_eq_eq, ih, List.zip_cons_cons,
              List.forall_mem_cons, Std.compare_eq_iff_eq]
            simp only [Document.keys, List.map_cons, List.cons_eq_cons, and_assoc, and_left_comm]
  rw [inTurn]
  refine and_congr_right fun names => ⟨fun each name x y left right => ?_, fun each pair paired => ?_⟩
  · exact each ((name, x), (name, y)) ((Document.mem_zip_iff names distinct).mpr ⟨rfl, left, right⟩)
  · obtain ⟨-, left, right⟩ := (Document.mem_zip_iff names distinct).mp paired
    exact each _ _ _ left right

theorem equiv_array_iff :
    (array xs).equiv (array ys) = true ↔ xs.length = ys.length ∧ ∀ pair ∈ xs.zip ys, pair.1.equiv pair.2 = true := by
  rw [equiv, equivItems_iff, List.forall₂_iff_zip]
  exact and_congr_right fun _ => ⟨fun each _ paired => each paired, fun each _ _ paired => each _ paired⟩

theorem equiv_object_iff_of_keys (distinct : fields.keys.Nodup) (names : fields.keys = others.keys) :
    (object fields).equiv (object others) = true ↔
      ∀ name x y, fields.get? name = some x → others.get? name = some y → x.equiv y = true := by
  have sizes := congrArg List.length names
  simp only [Document.keys, List.length_map] at sizes
  rw [equiv_object_iff, and_iff_right sizes]
  constructor
  · intro found name x y left right
    obtain ⟨y', there, equal⟩ := found (name, x) (Document.mem_of_get? left)
    rw [right] at there
    cases there
    exact equal
  · intro each field hf
    obtain ⟨y, there⟩ := Document.exists_get?_of_mem_keys (names ▸ Document.mem_keys_of_mem hf)
    exact ⟨y, there, each _ _ _ (Document.get?_of_mem distinct hf) there⟩

/-! ## All values -/

theorem order_eq_eq_iff_of_scalar (scalar : v.isScalar = true) (w : Value) :
    v.order w = .eq ↔ v.equiv w = true := by
  cases v with
  | array | object => cases scalar
  | _ => cases w <;> simp [order, equiv, rank]

theorem order_eq_eq_iff (wf : v.WellFormed) : v.order w = .eq ↔ v.equiv w = true ∧ v.SameLayout w := by
  induction wf generalizing w with
  | @array xs _ ih =>
      cases w with
      | array ys =>
          rw [order, orderItems_eq_eq_iff, equiv_array_iff, sameLayout_array_iff, and_assoc, ← forall₂_and]
          refine and_congr_right fun _ => forall₂_congr fun pair paired => ?_
          exact ih _ (List.of_mem_zip paired).1
      | _ => simp [order, equiv, rank]
  | @object fields distinct _ ih =>
      cases w with
      | object others =>
          rw [order, orderFields_eq_eq_iff distinct, sameLayout_object_iff, and_left_comm]
          refine and_congr_right fun names => ?_
          rw [equiv_object_iff_of_keys distinct names]
          have inside (name x y) (left : fields.get? name = some x) :
              order x y = .eq ↔ equiv x y = true ∧ SameLayout x y := ih _ (Document.mem_of_get? left)
          constructor
          · intro each
            exact ⟨fun name x y left right => ((inside name x y left).mp (each name x y left right)).1,
              fun name x y left right => ((inside name x y left).mp (each name x y left right)).2⟩
          · rintro ⟨equal, layout⟩ name x y left right
            exact (inside name x y left).mpr ⟨equal name x y left right, layout name x y left right⟩
      | _ => simp [order, equiv, rank]
  | _ => rw [order_eq_eq_iff_of_scalar rfl, and_iff_left ((freeOfObjects_of_scalar rfl).sameLayout w)]

/-- Values tie if and only if they are equal and objects inside them list their names in the same order. -/
theorem orderMissing_some_eq_eq_iff (v w : Value) (wf : v.WellFormed) :
    (orderMissing (some v) (some w) = .eq ↔ v.equiv w = true ∧ v.SameLayout w) ∧
      (orderMissing (some v) (some w) = .eq → v.equiv w = true) ∧
      (v.FreeOfObjects → (orderMissing (some v) (some w) = .eq ↔ v.equiv w = true)) := by
  have tie : orderMissing (some v) (some w) = .eq ↔ v.equiv w = true ∧ v.SameLayout w := order_eq_eq_iff wf
  refine ⟨tie, fun ties => (tie.mp ties).1, fun free => ?_⟩
  rw [tie, and_iff_left (free.sameLayout w)]

theorem orderMissing_some_eq_eq_iff_nested :
    let real : Value := .number (.float ⟨false, 4503599627370496, 1022, by decide⟩)
    let v : Value := .array [.object [("x", .null), ("y", .one)]]
    let w : Value := .array [.object [("x", .null), ("y", real)]]
    let u : Value := .array [.object [("y", .one), ("x", .null)]]
    let plain : Value := .array [.one, .null]
    (v.WellFormed ∧ orderMissing (some v) (some w) = .eq ∧ v.equiv w = true ∧ v.SameLayout w) ∧
      (v.equiv u = true ∧ orderMissing (some v) (some u) ≠ .eq ∧ ¬ v.SameLayout u) ∧
      plain.WellFormed ∧ plain.FreeOfObjects ∧ plain.equiv (.array [real, .null]) = true ∧
        orderMissing (some plain) (some (.array [real, .null])) = .eq := by
  intro real v w u plain
  have wf : v.WellFormed := by simp [v, Document.keys, Value.one]
  have equal : v.equiv u = true := by decide +kernel
  have apart : orderMissing (some v) (some u) ≠ .eq := by decide +kernel
  have tie : orderMissing (some v) (some w) = .eq := by decide +kernel
  have plainWf : plain.WellFormed := by simp [plain, Value.one]
  have free : plain.FreeOfObjects :=
    freeOfObjects_array (List.forall_mem_cons.mpr
      ⟨freeOfObjects_of_scalar rfl, List.forall_mem_singleton.mpr (freeOfObjects_of_scalar rfl)⟩)
  have plainEqual : plain.equiv (.array [real, .null]) = true := by decide +kernel
  refine ⟨⟨wf, tie, (orderMissing_some_eq_eq_iff v w wf).1.mp tie⟩, ⟨equal, apart, fun layout => apart ?_⟩,
    plainWf, free, plainEqual, ((orderMissing_some_eq_eq_iff plain _ plainWf).2.2 free).mpr plainEqual⟩
  exact (orderMissing_some_eq_eq_iff v u wf).1.mpr ⟨equal, layout⟩

end DocQuery.Value
