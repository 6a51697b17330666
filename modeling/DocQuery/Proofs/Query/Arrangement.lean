import Mathlib.Logic.ExistsUnique
import DocQuery.Proofs.Query.SortOrder

/-!
# The arrangement of documents by a sort order

That there is an arrangement is a matter of stable sorting.  That it is unique follows from its front: the first
documents of two arrangements tie, and of the documents that tie with them both arrangements have the same one first.
-/

namespace DocQuery

variable {α : Type} {cmp : α → α → Ordering} {items xs ys : List α}

structure Arranges (cmp : α → α → Ordering) (items arranged : List α) : Prop where
  perm : arranged.Perm items
  sorted : arranged.Pairwise fun x y => (cmp x y).isLE = true
  /-- The items that tie with one another are in the order in which they came. -/
  ties (x : α) : arranged.filter (cmp x · = .eq) = items.filter (cmp x · = .eq)

section

variable [Std.TransCmp cmp]

theorem isLE_of_mem {x y : α} (sorted : (x :: xs).Pairwise fun x y => (cmp x y).isLE = true)
    (member : y ∈ x :: xs) : (cmp x y).isLE = true := by
  rcases List.mem_cons.mp member with rfl | later
  · exact Std.ReflCmp.isLE_rfl
  · exact List.rel_of_pairwise_cons sorted later

theorem eq_of_sorted_of_ties (perm : xs.Perm ys) (sorted : xs.Pairwise fun x y => (cmp x y).isLE = true)
    (sorted' : ys.Pairwise fun x y => (cmp x y).isLE = true)
    (ties : ∀ x, xs.filter (cmp x · = .eq) = ys.filter (cmp x · = .eq)) : xs = ys := by
  induction xs generalizing ys with
  | nil => exact perm.nil_eq
  | cons x xs ih =>
      cases ys with
      | nil => exact absurd perm.eq_nil (List.cons_ne_nil x xs)
      | cons y ys =>
          have tie : cmp x y = .eq :=
            Std.OrientedCmp.isLE_antisymm (isLE_of_mem sorted (perm.mem_iff.mpr List.mem_cons_self))
              (isLE_of_mem sorted' (perm.mem_iff.mp List.mem_cons_self))
          have front := ties x
          rw [List.filter_cons_of_pos (by simp [Std.ReflCmp.compare_self]),
            List.filter_cons_of_pos (by simp [tie])] at front
          obtain rfl := (List.cons.inj front).1
          have rest (z : α) : xs.filter (cmp z · = .eq) = ys.filter (cmp z · = .eq) := by
            have both := ties z
            rw [List.filter_cons, List.filter_cons] at both
            split at both
            · exact (List.cons.inj both).2
            · exact both
          rw [ih perm.cons_inv sorted.of_cons sorted'.of_cons rest]

theorem Arranges.unique (h : Arranges cmp items xs) (h' : Arranges cmp items ys) : xs = ys :=
  eq_of_sorted_of_ties (h.perm.trans h'.perm.symm) h.sorted h'.sorted fun x => (h.ties x).trans (h'.ties x).symm

theorem arranges_mergeSort (items : List α) : Arranges cmp items (items.mergeSort fun x y => cmp x y != .gt) := by
  have notDescending : (fun x y => cmp x y != .gt) = fun x y => (cmp x y).isLE := by
    funext x y
    cases cmp x y <;> rfl
  have trans (x y z : α) : (cmp x y).isLE = true → (cmp y z).isLE = true → (cmp x z).isLE = true :=
    Std.TransCmp.isLE_trans
  have total (x y : α) : ((cmp x y).isLE || (cmp y x).isLE) = true := by
    have swapped : cmp y x = (cmp x y).swap := Std.OrientedCmp.eq_swap
    rw [swapped]
    cases cmp x y <;> rfl
  rw [notDescending]
  have perm := items.mergeSort_perm fun x y => (cmp x y).isLE
  refine ⟨perm, List.pairwise_mergeSort trans total items, fun x => ?_⟩
  have tied : (items.filter (cmp x · = .eq)).Pairwise fun y z => (cmp y z).isLE = true := by
    refine List.pairwise_of_forall_mem_list fun y hy z hz => ?_
    have tieY : cmp x y = .eq := by simpa using (List.mem_filter.mp hy).2
    have tieZ : cmp x z = .eq := by simpa using (List.mem_filter.mp hz).2
    rw [← Std.TransCmp.congr_left tieY, tieZ]
    rfl
  have kept := (List.sublist_mergeSort trans total tied List.filter_sublist).filter (cmp x · = .eq)
  simp only [List.filter_filter, Bool.and_self] at kept
  exact (kept.eq_of_length (perm.filter _).length_eq.symm).symm

end

namespace SortOrder

instance (s : SortOrder) : Std.TransCmp s.compare := inferInstanceAs (Std.TransCmp (compareAll s.keys))

theorem arranges_arrange (s : SortOrder) (docs : List Document) : Arranges s.compare docs (s.arrange docs) := by
  rw [arrange]
  split <;> rename_i unsorted
  · have tie (a b : Document) : s.compare a b = .eq := by
      rw [SortOrder.compare, List.isEmpty_iff.mp unsorted, compareAll]
    exact ⟨.refl docs, List.pairwise_of_forall fun a b => by rw [tie]; rfl, fun _ => rfl⟩
  · exact arranges_mergeSort docs

theorem arranges_iff {s : SortOrder} {docs arranged : List Document} :
    Arranges s.compare docs arranged ↔ arranged = s.arrange docs := by
  constructor
  · exact fun h => h.unique (s.arranges_arrange docs)
  · rintro rfl
    exact s.arranges_arrange docs

end SortOrder

end DocQuery
