import Mathlib.Data.Set.Insert

/-!
# Conflict of occurrences

Occurrences of a system have alternative causes: `needs e G` says that `e` happens only together with some member of
`G`.  Some pairs of occurrences exclude each other outright (`split`).  A set of occurrences is a configuration when it
has no two excluding members and a cause for each of its members from each set the member needs.

Two occurrences are in conflict when they exclude each other, or when every cause of one, from one of the sets it needs,
is in conflict with the other or with the one it causes.  (An occurrence with causes of the latter kind only never
happens.)  No configuration has two members in conflict (`Configuration.not_conflict`).
-/

namespace Conflict

variable {E : Type} {split : E → E → Prop} {needs : E → Set E → Prop}

/-- A set of occurrences that can have happened together. -/
structure Configuration (split : E → E → Prop) (needs : E → Set E → Prop) (X : Set E) : Prop where
  free : ∀ {e f}, e ∈ X → f ∈ X → ¬ split e f
  caused : ∀ {e G}, e ∈ X → needs e G → ∃ d ∈ G, d ∈ X

/-- Two occurrences that exclude each other, or that have causes which do. -/
inductive InConflict (split : E → E → Prop) (needs : E → Set E → Prop) : E → E → Prop
  | split {e f : E} (h : split e f) : InConflict split needs e f
  | cause {e f : E} (G : Set E) (h : needs e G) (other : E → E) (ho : ∀ d ∈ G, other d = e ∨ other d = f)
      (hG : ∀ d ∈ G, InConflict split needs d (other d)) : InConflict split needs e f
  | symm {e f : E} (h : InConflict split needs e f) : InConflict split needs f e

theorem InConflict.of_causes {e f : E} {G : Set E} (h : needs e G) (hG : ∀ d ∈ G, InConflict split needs d f) :
    InConflict split needs e f := .cause G h (fun _ => f) (fun _ _ => .inr rfl) hG

/-- Occurrences in conflict never happen together. -/
theorem Configuration.not_conflict {X : Set E} (hX : Configuration split needs X) {e f : E} (he : e ∈ X) (hf : f ∈ X) :
    ¬ InConflict split needs e f := by
  intro h
  induction h with
  | split h => exact hX.free he hf h
  | cause G h other ho _ ih =>
    obtain ⟨d, hd, hdX⟩ := hX.caused he h
    refine ih d hd hdX ?_
    rcases ho d hd with h | h
    · exact h ▸ he
    · exact h ▸ hf
  | symm _ ih => exact ih hf he

/-- A configuration can be extended by an occurrence whose causes are there and which no member excludes. -/
theorem Configuration.insert {X : Set E} (hX : Configuration split needs X) {e : E}
    (hfree : ∀ f ∈ X, ¬ split e f ∧ ¬ split f e) (hself : ¬ split e e) (hcaused : ∀ G, needs e G → ∃ d ∈ G, d ∈ X) :
    Configuration split needs (insert e X) := by
  refine ⟨fun {a b} ha hb => ?_, fun {a G} ha hG => ?_⟩
  · rcases ha with rfl | ha <;> rcases hb with rfl | hb
    · exact hself
    · exact (hfree b hb).1
    · exact (hfree a ha).2
    · exact hX.free ha hb
  · rcases ha with rfl | ha
    · obtain ⟨d, hd, hdX⟩ := hcaused G hG
      exact ⟨d, hd, Set.mem_insert_of_mem _ hdX⟩
    · obtain ⟨d, hd, hdX⟩ := hX.caused ha hG
      exact ⟨d, hd, Set.mem_insert_of_mem _ hdX⟩

end Conflict
