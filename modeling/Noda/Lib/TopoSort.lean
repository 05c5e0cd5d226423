import Mathlib.Data.List.Nodup
import Mathlib.Data.List.Perm.Subperm
import Mathlib.Logic.Relation

/-!
# Sorting by dependencies

A depth-first search that emits a node after the nodes it depends on.  A node that is in progress is skipped when it is
met again, so the search also ends on cycles: a dependency comes before its dependent unless it depends on it in turn
(`sort_ordered`).  The number of nodes is enough fuel, as the nodes in progress are distinct.
-/

namespace TopoSort

variable {α : Type} [DecidableEq α] (deps : α → List α)

/-- Visits a node: `stack` are the nodes in progress, `sorted` those that are done. -/
def visit : Nat → List α → List α → α → List α
  | 0, _, sorted, _ => sorted
  | fuel + 1, stack, sorted, t =>
    if t ∈ sorted ∨ t ∈ stack then sorted
    else (deps t).foldl (fun sorted d => visit fuel (t :: stack) sorted d) sorted ++ [t]

def sort (nodes : List α) : List α := nodes.foldl (fun sorted t => visit deps nodes.length [] sorted t) []

/-- The first node depends on the second one, possibly through others. -/
abbrev Depends : α → α → Prop := Relation.TransGen fun t d => d ∈ deps t

/-- What a node depends on comes before it, or depends on it in turn. -/
def Ordered (sorted : List α) : Prop :=
  sorted.Nodup ∧ ∀ before t after, sorted = before ++ t :: after → ∀ d ∈ deps t, d ∈ before ∨ Depends deps d t

variable {deps} {nodes : List α}

/-- What has been achieved when the nodes have been visited. -/
structure Visited (deps : α → List α) (nodes stack sorted ts r : List α) : Prop where
  kept : sorted <+: r
  done : ∀ t ∈ ts, t ∈ r ∨ t ∈ stack
  ordered : Ordered deps r
  nodes : ∀ x ∈ r, x ∈ nodes
  apart : ∀ v ∈ stack, v ∉ r

omit [DecidableEq α] in
theorem Ordered.concat {sorted : List α} {t : α} (h : Ordered deps sorted) (ht : t ∉ sorted)
    (hdeps : ∀ d ∈ deps t, d ∈ sorted ∨ Depends deps d t) : Ordered deps (sorted ++ [t]) := by
  refine ⟨?_, fun before x after hx d hd => ?_⟩
  · rw [List.nodup_append]
    refine ⟨h.1, List.nodup_singleton t, fun a ha b hb => ?_⟩
    rw [List.mem_singleton.1 hb]
    rintro rfl
    exact ht ha
  · rcases List.eq_nil_or_concat after with rfl | ⟨after, y, rfl⟩
    · obtain ⟨rfl, hxt⟩ := List.append_inj' hx rfl
      obtain rfl : t = x := by simpa using hxt
      exact hdeps d hd
    · rw [List.concat_eq_append, ← List.cons_append, ← List.append_assoc] at hx
      exact h.2 before x after (List.append_inj' hx rfl).1 d hd

omit [DecidableEq α] in
private theorem foldl_visited {visit : List α → α → List α} {stack sorted ts : List α}
    (hvisit : ∀ sorted, ∀ t ∈ ts, Ordered deps sorted → (∀ x ∈ sorted, x ∈ nodes) → (∀ v ∈ stack, v ∉ sorted) →
      Visited deps nodes stack sorted [t] (visit sorted t))
    (hsorted : Ordered deps sorted) (hnodes : ∀ x ∈ sorted, x ∈ nodes) (hapart : ∀ v ∈ stack, v ∉ sorted) :
    Visited deps nodes stack sorted ts (ts.foldl visit sorted) := by
  induction ts generalizing sorted with
  | nil => exact ⟨List.prefix_rfl, by simp, hsorted, hnodes, hapart⟩
  | cons t ts ih =>
    have hfirst := hvisit sorted t List.mem_cons_self hsorted hnodes hapart
    have hrest := ih (fun sorted u hu => hvisit sorted u (List.mem_cons_of_mem _ hu)) hfirst.ordered hfirst.nodes
      hfirst.apart
    refine ⟨hfirst.kept.trans hrest.kept, fun u hu => ?_, hrest.ordered, hrest.nodes, hrest.apart⟩
    rcases List.mem_cons.1 hu with rfl | hu
    · exact (hfirst.done u List.mem_cons_self).imp_left (hrest.kept.subset ·)
    · exact hrest.done u hu

/-- The induction is on the fuel: the nodes in progress and the fuel left are at least as many as the nodes. -/
private theorem visit_visited (hclosed : ∀ t ∈ nodes, ∀ d ∈ deps t, d ∈ nodes) {fuel : Nat} {stack sorted : List α}
    {t : α} (ht : t ∈ nodes) (hstack : stack.Nodup) (hsub : ∀ v ∈ stack, v ∈ nodes)
    (hfuel : nodes.length ≤ fuel + stack.length) (hreach : ∀ v ∈ stack, Depends deps v t)
    (hsorted : Ordered deps sorted)
    (hnodes : ∀ x ∈ sorted, x ∈ nodes) (hapart : ∀ v ∈ stack, v ∉ sorted) :
    Visited deps nodes stack sorted [t] (visit deps fuel stack sorted t) := by
  -- a node that is skipped is done, or in progress
  have hskip : t ∈ sorted ∨ t ∈ stack → Visited deps nodes stack sorted [t] sorted := by
    intro h
    exact ⟨List.prefix_rfl, by simpa using h, hsorted, hnodes, hapart⟩
  induction fuel generalizing stack sorted t with
  | zero =>
    -- all nodes are in progress
    have hfull : stack.Perm nodes := (List.subperm_of_subset hstack hsub).perm_of_length_le (by omega)
    exact hskip (.inr (hfull.mem_iff.2 ht))
  | succ fuel ih =>
    rw [visit]
    split_ifs with hdone
    · exact hskip hdone
    · rw [not_or] at hdone
      have hstack' : (t :: stack).Nodup := List.nodup_cons.2 ⟨hdone.2, hstack⟩
      have hsub' : ∀ v ∈ t :: stack, v ∈ nodes := List.forall_mem_cons.2 ⟨ht, hsub⟩
      have hfuel' : nodes.length ≤ fuel + (t :: stack).length := by
        rw [List.length_cons]
        omega
      have hvisited : Visited deps nodes (t :: stack) sorted (deps t)
          ((deps t).foldl (fun sorted d => visit deps fuel (t :: stack) sorted d) sorted) := by
        refine foldl_visited (fun sorted d hd hsorted hnodes hapart => ?_) hsorted hnodes
          (List.forall_mem_cons.2 ⟨hdone.1, hapart⟩)
        have hreach' : ∀ v ∈ t :: stack, Depends deps v d :=
          List.forall_mem_cons.2 ⟨.single hd, fun v hv => (hreach v hv).tail hd⟩
        refine ih (hclosed t ht d hd) hstack' hsub' hfuel' hreach' hsorted hnodes hapart fun h => ?_
        exact ⟨List.prefix_rfl, by simpa using h, hsorted, hnodes, hapart⟩
      have hnew := hvisited.apart t List.mem_cons_self
      refine ⟨hvisited.kept.trans (List.prefix_append _ _), ?_, ?_, ?_, ?_⟩
      · intro u hu
        exact .inl (List.mem_append_right _ hu)
      · refine hvisited.ordered.concat hnew fun d hd => ?_
        rcases hvisited.done d hd with hd' | hd'
        · exact .inl hd'
        · rcases List.mem_cons.1 hd' with rfl | hd'
          · exact .inr (.single hd)
          · exact .inr (hreach d hd')
      · intro x hx
        rcases List.mem_append.1 hx with hx | hx
        · exact hvisited.nodes x hx
        · rw [List.mem_singleton.1 hx]
          exact ht
      · intro v hv hx
        rcases List.mem_append.1 hx with hx | hx
        · exact hvisited.apart v (List.mem_cons_of_mem _ hv) hx
        · rw [List.mem_singleton.1 hx] at hv
          exact hdone.2 hv

private theorem sort_visited (hclosed : ∀ t ∈ nodes, ∀ d ∈ deps t, d ∈ nodes) :
    Visited deps nodes [] [] nodes (sort deps nodes) := by
  refine foldl_visited (fun sorted t ht hsorted hnodes hapart => ?_) ⟨List.nodup_nil, ?_⟩ (fun _ h => nomatch h)
    (fun _ h => nomatch h)
  · exact visit_visited hclosed ht List.nodup_nil (fun _ h => nomatch h) (by simp) (fun _ h => nomatch h) hsorted hnodes
      hapart
  · intro before t after h
    simp at h

/-- Every node comes out once. -/
theorem sort_perm (hnodup : nodes.Nodup) (hclosed : ∀ t ∈ nodes, ∀ d ∈ deps t, d ∈ nodes) :
    (sort deps nodes).Perm nodes := by
  have h := sort_visited hclosed
  refine (List.perm_ext_iff_of_nodup h.ordered.1 hnodup).2 fun t => ⟨h.nodes t, fun ht => ?_⟩
  exact (h.done t ht).resolve_right List.not_mem_nil

theorem sort_ordered (hclosed : ∀ t ∈ nodes, ∀ d ∈ deps t, d ∈ nodes) : Ordered deps (sort deps nodes) :=
  (sort_visited hclosed).ordered

omit [DecidableEq α] in
theorem mem_before_of_depends {l before after : List α} {t d : α}
    (hl : ∀ before t after, l = before ++ t :: after → ∀ d ∈ deps t, d ∈ before ∨ d = t) (ht : l = before ++ t :: after)
    (h : Depends deps t d) : d ∈ before ∨ d = t := by
  induction h with
  | single hd => exact hl before t after ht _ hd
  | @tail x y _ hy ih =>
    rcases ih with hx | rfl
    · obtain ⟨before', after', rfl⟩ := List.append_of_mem hx
      rw [List.append_assoc, List.cons_append] at ht
      rcases hl before' x _ ht y hy with hy | rfl
      · exact .inl (List.mem_append_left _ hy)
      · exact .inl (List.mem_append_right _ List.mem_cons_self)
    · exact hl before x after ht y hy

end TopoSort
