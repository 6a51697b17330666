import DocQuery.Proofs.Value.Order
import DocQuery.Query.Options

namespace DocQuery

/-- What sorting by a comparison rests on.  Of a chain of two comparisons neither of which descends, the
whole does not descend either, and it ascends if one of them does. -/
structure OrdersTotally {α : Type} (cmp : α → α → Ordering) : Prop where
  self (x : α) : cmp x x = .eq
  swap (x y : α) : cmp y x = (cmp x y).swap
  trans {x y z : α} : (cmp x y).isLE → (cmp y z).isLE → (cmp x z).isLE
  strict {x y z : α} : (cmp x y).isLE → (cmp y z).isLE → cmp x y = .lt ∨ cmp y z = .lt → cmp x z = .lt

theorem ordersTotally_of_transCmp {α : Type} (cmp : α → α → Ordering) [Std.TransCmp cmp] :
    OrdersTotally cmp where
  self _ := Std.ReflCmp.compare_self
  swap _ _ := Std.OrientedCmp.eq_swap
  trans := Std.TransCmp.isLE_trans
  strict := by
    rintro x y z hxy hyz (ascends | ascends)
    · exact Std.TransCmp.lt_of_lt_of_isLE ascends hyz
    · exact Std.TransCmp.lt_of_isLE_of_lt hxy ascends

def Direction.reversed : Direction → Direction
  | ascending => descending
  | descending => ascending

theorem Direction.apply_reversed (d : Direction) (o : Ordering) :
    d.reversed.apply o = (d.apply o).swap := by
  cases d with
  | ascending => rfl
  | descending => exact o.swap_swap.symm

def SortKey.reversed (key : SortKey) : SortKey := { key with direction := key.direction.reversed }

namespace SortOrder

def reversed (s : SortOrder) : SortOrder := ⟨s.keys.map SortKey.reversed⟩

theorem compareBy_reversed (key : SortKey) (a b : Document) :
    compareBy key.reversed a b = (compareBy key a b).swap :=
  key.direction.apply_reversed _

theorem compareAll_reversed (keys : List SortKey) (a b : Document) :
    compareAll (keys.map SortKey.reversed) a b = (compareAll keys a b).swap := by
  induction keys with
  | nil => rfl
  | cons key keys ih => rw [List.map_cons, compareAll, compareAll, compareBy_reversed, ih, Ordering.swap_then]

instance (key : SortKey) : Std.TransCmp (compareBy key) := by
  obtain ⟨field, direction⟩ := key
  have ascending := transCmp_comap Value.orderMissing fun doc : Document => doc.lookup? field
  cases direction with
  | ascending => exact ascending
  | descending =>
      have turned : compareBy ⟨field, .descending⟩ =
          fun a b => Value.orderMissing (b.lookup? field) (a.lookup? field) := by
        funext a b
        exact Std.OrientedCmp.eq_swap.symm
      rw [turned]
      exact ascending.opposite

instance (keys : List SortKey) : Std.TransCmp (compareAll keys) := by
  induction keys with
  | nil => exact { eq_swap := rfl, isLE_trans := fun _ _ => rfl }
  | cons key keys ih => exact inferInstanceAs (Std.TransCmp (compareLex (compareBy key) (compareAll keys)))

theorem ordersTotally_compare :
    OrdersTotally Value.orderMissing ∧ ∀ s : SortOrder, OrdersTotally s.compare ∧
      ∀ a b, s.reversed.compare a b = (s.compare a b).swap :=
  ⟨ordersTotally_of_transCmp _,
    fun s => ⟨ordersTotally_of_transCmp (compareAll s.keys), compareAll_reversed s.keys⟩⟩

end SortOrder

end DocQuery
