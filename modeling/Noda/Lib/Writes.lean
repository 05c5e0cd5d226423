import Mathlib.Data.List.Induction
import Noda.Lib.GoMap

/-!
# Maps as their writes

A map that a program fills with one write after the other (`GoMap.ofWrites`).  The last write of a key counts.
-/

namespace GoMap

variable {α : Type}

/-- The map that the writes lead to, in order. -/
def ofWrites (ps : List (String × α)) : GoMap α := ps.foldl (fun m p => m.insert p.1 p.2) ∅

private theorem ofWrites_concat (ps : List (String × α)) (p : String × α) :
    ofWrites (ps ++ [p]) = (ofWrites ps).insert p.1 p.2 := by
  rw [ofWrites, List.foldl_append]
  rfl

/-- The last write of a key counts. -/
theorem lookup_ofWrites_append (ps qs : List (String × α)) (k : String) :
    (ofWrites (ps ++ qs)).lookup k = ((ofWrites qs).lookup k).or ((ofWrites ps).lookup k) := by
  induction qs using List.reverseRecOn with
  | nil =>
    rw [List.append_nil]
    rfl
  | append_singleton qs q ih =>
    rw [← List.append_assoc, ofWrites_concat, ofWrites_concat]
    by_cases h : k = q.1
    · rw [h, AList.lookup_insert, AList.lookup_insert]
      rfl
    · rw [AList.lookup_insert_ne h, AList.lookup_insert_ne h, ih]

theorem lookup_ofWrites_singleton (k k' : String) (v : α) :
    (ofWrites [(k, v)]).lookup k' = if k' = k then some v else none :=
  lookup_ofPairs_singleton k k' v

theorem mem_of_lookup_ofWrites {ps : List (String × α)} {k : String} {v : α}
    (h : (ofWrites ps).lookup k = some v) : (k, v) ∈ ps := by
  induction ps using List.reverseRecOn with
  | nil => cases h
  | append_singleton ps p ih =>
    rw [ofWrites_concat] at h
    by_cases hk : k = p.1
    · rw [hk, AList.lookup_insert] at h
      cases h
      rw [hk]
      simp
    · rw [AList.lookup_insert_ne hk] at h
      exact List.mem_append_left _ (ih h)

theorem lookup_ofWrites_eq_none {ps : List (String × α)} {k : String} :
    (ofWrites ps).lookup k = none ↔ k ∉ ps.map Prod.fst := by
  induction ps using List.reverseRecOn with
  | nil => simp [ofWrites]
  | append_singleton ps p ih =>
    rw [ofWrites_concat]
    by_cases hk : k = p.1
    · rw [hk, AList.lookup_insert]
      simp
    · rw [AList.lookup_insert_ne hk, ih]
      simp [hk]

theorem mem_ofWrites {ps : List (String × α)} {k : String} :
    k ∈ ofWrites ps ↔ k ∈ ps.map Prod.fst := by
  rw [← AList.lookup_isSome, Option.isSome_iff_ne_none, ne_eq, lookup_ofWrites_eq_none, not_not]

end GoMap
