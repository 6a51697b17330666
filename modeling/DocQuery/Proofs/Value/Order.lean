import DocQuery.Proofs.Number.Order
import DocQuery.Value.Order

/-!
# The order of values is a total preorder

Transitivity is asked of two comparisons that follow one another and the one from end to end: where neither
of the two descends, the first of them that is not a tie is the one from end to end (`Chained`).  In this form
the question passes through lexicographic comparison, in which what comes later counts only on a tie.
-/

namespace DocQuery

/-! ## Comparisons that follow one another -/

def Chained (xy yz xz : Ordering) : Prop := xy.isLE → yz.isLE → xz = xy.then yz

theorem chained_of_transCmp {α : Type} (cmp : α → α → Ordering) [Std.TransCmp cmp] (x y z : α) :
    Chained (cmp x y) (cmp y z) (cmp x z) := by
  intro hxy hyz
  cases first : cmp x y with
  | lt => exact Std.TransCmp.lt_of_lt_of_isLE first hyz
  | eq => exact Std.TransCmp.congr_left first
  | gt => rw [first] at hxy; cases hxy

theorem transCmp_comap {α β : Type} (cmp : β → β → Ordering) [Std.TransCmp cmp] (f : α → β) :
    Std.TransCmp fun x y => cmp (f x) (f y) where
  eq_swap := Std.OrientedCmp.eq_swap
  isLE_trans := Std.TransCmp.isLE_trans

theorem Chained.then {xy yz xz xy' yz' xz' : Ordering} (first : Chained xy yz xz)
    (rest : xy = .eq → yz = .eq → Chained xy' yz' xz') :
    Chained (xy.then xy') (yz.then yz') (xz.then xz') := by
  intro hxy hyz
  rw [Ordering.isLE_then_iff_and] at hxy hyz
  rw [first hxy.1 hyz.1]
  cases xy with
  | lt => rfl
  | gt => cases hxy.1
  | eq =>
      cases yz with
      | lt => cases xy' <;> first | rfl | simp at hxy
      | gt => cases hyz.1
      | eq => exact rest rfl rfl (by simpa using hxy) (by simpa using hyz)

namespace Value

/-! ## Changing places -/

mutual

theorem order_swap (x y : Value) : (x.order y).swap = y.order x := by
  cases x with
  | null => cases y <;> rfl
  | bool b => cases y <;> first | rfl | exact Std.OrientedOrd.eq_swap.symm
  | number m => cases y <;> first | rfl | exact Number.compare_swap m _
  | string s => cases y <;> first | rfl | exact Std.OrientedOrd.eq_swap.symm
  | array xs => cases y <;> first | rfl | exact orderItems_swap xs _
  | object xs => cases y <;> first | rfl | exact orderFields_swap xs _

theorem orderItems_swap (xs ys : List Value) : (orderItems xs ys).swap = orderItems ys xs := by
  cases xs with
  | nil => cases ys <;> rfl
  | cons x xs =>
      cases ys with
      | nil => rfl
      | cons y ys => rw [orderItems, orderItems, Ordering.swap_then, order_swap x y, orderItems_swap xs ys]

theorem orderFields_swap (xs ys : List (String × Value)) :
    (orderFields xs ys).swap = orderFields ys xs := by
  cases xs with
  | nil => cases ys <;> rfl
  | cons field xs =>
      cases ys with
      | nil => rfl
      | cons other ys =>
          rw [orderFields, orderFields, Ordering.swap_then, Ordering.swap_then, order_swap field.2 other.2,
            orderFields_swap xs ys, ← Std.OrientedOrd.eq_swap]

end

/-! ## Transitivity -/

def orderWithinRank : Value → Value → Ordering
  | array xs, array ys => orderItems xs ys
  | object xs, object ys => orderFields xs ys
  | x, y => (compareAlike x y).getD .eq

theorem order_eq_then (x y : Value) : x.order y = (compare x.rank y.rank).then (orderWithinRank x y) := by
  cases x <;> cases y <;> rfl

mutual

theorem chained_order (x y z : Value) : Chained (x.order y) (y.order z) (x.order z) := by
  simp only [order_eq_then]
  refine (chained_of_transCmp compare x.rank y.rank z.rank).then fun hxy hyz => ?_
  have sameXY := Nat.compare_eq_eq.mp hxy
  have sameYZ := Nat.compare_eq_eq.mp hyz
  -- three values of one rank are of one kind
  cases x <;> cases y <;> cases sameXY <;> cases z <;> cases sameYZ
  next => exact fun _ _ => rfl
  next b c d => exact chained_of_transCmp compare b c d
  next m n k => exact chained_of_transCmp Number.compare m n k
  next s t u => exact chained_of_transCmp compare s t u
  next xs ys zs => exact chained_orderItems xs ys zs
  next xs ys zs => exact chained_orderFields xs ys zs
termination_by structural x

theorem chained_orderItems (xs ys zs : List Value) :
    Chained (orderItems xs ys) (orderItems ys zs) (orderItems xs zs) := by
  cases xs with
  | nil => cases ys <;> cases zs <;> simp [Chained, orderItems]
  | cons x xs =>
      cases ys with
      | nil => simp [Chained, orderItems]
      | cons y ys =>
          cases zs with
          | nil => simp [Chained, orderItems]
          | cons z zs => exact (chained_order x y z).then fun _ _ => chained_orderItems xs ys zs
termination_by structural xs

theorem chained_orderFields (xs ys zs : List (String × Value)) :
    Chained (orderFields xs ys) (orderFields ys zs) (orderFields xs zs) := by
  cases xs with
  | nil => cases ys <;> cases zs <;> simp [Chained, orderFields]
  | cons field xs =>
      obtain ⟨k, x⟩ := field
      cases ys with
      | nil => simp [Chained, orderFields]
      | cons other ys =>
          cases zs with
          | nil => simp [Chained, orderFields]
          | cons last zs =>
              refine (chained_of_transCmp compare k other.1 last.1).then fun _ _ => ?_
              exact (chained_order x other.2 last.2).then fun _ _ => chained_orderFields xs ys zs
termination_by structural xs

end

instance : Std.TransCmp order where
  eq_swap {x y} := (order_swap y x).symm
  isLE_trans {x y z} hxy hyz := by
    rw [chained_order x y z hxy hyz, Ordering.isLE_then_iff_and]
    exact ⟨hxy, .inr hyz⟩

instance : Std.TransCmp orderMissing := transCmp_comap order fun x : Option Value => x.getD null

end Value

end DocQuery
