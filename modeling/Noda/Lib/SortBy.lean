import Mathlib.Data.List.Sort
import Mathlib.Order.Lattice

/-!
# Sorting by a key

`sortBy key` sorts a list by the keys of its elements.  Elements with equal keys stay in order, so it is one result of
`sort.Slice`, and the only one when no key occurs twice.
-/

variable {α κ : Type} [LinearOrder κ] {key : α → κ} {xs : List α}

def sortBy (key : α → κ) (xs : List α) : List α := xs.insertionSort fun a b => key a ≤ key b

theorem sortBy_perm (key : α → κ) (xs : List α) : (sortBy key xs).Perm xs := List.perm_insertionSort _ xs

@[simp] theorem mem_sortBy {x : α} : x ∈ sortBy key xs ↔ x ∈ xs := (sortBy_perm key xs).mem_iff

theorem sortBy_pairwise (key : α → κ) (xs : List α) : (sortBy key xs).Pairwise fun a b => key a ≤ key b := by
  have : Std.Total fun a b : α => key a ≤ key b := ⟨fun a b => le_total (key a) (key b)⟩
  have : IsTrans α fun a b => key a ≤ key b := ⟨fun _ _ _ => le_trans⟩
  exact List.pairwise_insertionSort _ xs

/-- No key occurs twice, so the keys increase strictly. -/
theorem sortBy_pairwise_lt (h : (xs.map key).Nodup) : (sortBy key xs).Pairwise fun a b => key a < key b := by
  have hne : (sortBy key xs).Pairwise fun a b => key a ≠ key b :=
    List.pairwise_map.1 (((sortBy_perm key xs).map key).nodup_iff.2 h)
  refine ((sortBy_pairwise key xs).and hne).imp ?_
  rintro a b ⟨hle, hab⟩
  exact lt_of_le_of_ne hle hab

/-- If no key occurs twice, then the order of the list does not matter. -/
theorem sortBy_eq_of_perm {ys : List α} (hperm : xs.Perm ys) (h : (xs.map key).Nodup) :
    sortBy key xs = sortBy key ys := by
  have hsorted : (sortBy key xs).Perm (sortBy key ys) :=
    (sortBy_perm key xs).trans (hperm.trans (sortBy_perm key ys).symm)
  refine List.Perm.eq_of_pairwise (fun a b ha hb hab hba => ?_) (sortBy_pairwise key xs)
    (sortBy_pairwise key ys) hsorted
  exact List.inj_on_of_nodup_map h (mem_sortBy.1 ha) (hperm.mem_iff.2 (mem_sortBy.1 hb)) (le_antisymm hab hba)

/-- In a sorted list the elements up to some key come before the others. -/
theorem filter_append_filter_lt (h : xs.Pairwise fun a b => key a ≤ key b) (k : κ) :
    xs.filter (key · ≤ k) ++ xs.filter (k < key ·) = xs := by
  induction xs with
  | nil => rfl
  | cons x xs ih =>
    rw [List.pairwise_cons] at h
    by_cases hx : key x ≤ k
    · rw [List.filter_cons_of_pos (by simpa using hx), List.filter_cons_of_neg (by simpa using hx), List.cons_append,
        ih h.2]
    · -- the elements after `x` are also beyond `k`
      have hnone : ∀ y ∈ xs, ¬key y ≤ k := fun y hy hyk => hx ((h.1 y hy).trans hyk)
      have hall : ∀ y ∈ xs, k < key y := fun y hy => not_le.1 (hnone y hy)
      rw [List.filter_cons_of_neg (by simpa using hx), List.filter_cons_of_pos (by simpa using hx),
        List.filter_eq_nil_iff.2 (by simpa using hall), List.filter_eq_self.2 (by simpa using hall), List.nil_append]

/-- The elements of a sorted list up to a number: those below it, then those of that number. -/
theorem filter_le_succ {key : α → Nat} (h : xs.Pairwise fun a b => key a ≤ key b) (k : Nat) :
    xs.filter (key · ≤ k + 1) = xs.filter (key · ≤ k) ++ xs.filter (key · = k + 1) := by
  rw [← filter_append_filter_lt (h.filter (key · ≤ k + 1)) k, List.filter_filter, List.filter_filter]
  congr 1
  · refine List.filter_congr fun x _ => ?_
    rw [← Bool.decide_and, decide_eq_decide]
    omega
  · refine List.filter_congr fun x _ => ?_
    rw [← Bool.decide_and, decide_eq_decide]
    omega
