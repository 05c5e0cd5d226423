import Mathlib.Computability.RegularExpressions

/-!
# Patterns

Character classes and the usual abbreviations for the regular expressions of Mathlib, and what they match.
-/

namespace RegularExpression

variable {α : Type} [DecidableEq α]

def anyOf (Ps : List (RegularExpression α)) : RegularExpression α := Ps.foldr (· + ·) 0

/-- A character class. -/
def oneOf (cs : List α) : RegularExpression α := anyOf (cs.map char)

/-- One character of each class. -/
def word (classes : List (List α)) : RegularExpression α := classes.foldr (fun cs P => oneOf cs * P) 1

/-- `P?`. -/
def optional (P : RegularExpression α) : RegularExpression α := P + 1

/-- `P+`. -/
def many (P : RegularExpression α) : RegularExpression α := P * P.star

theorem anyOf_rmatch_iff (Ps : List (RegularExpression α)) (x : List α) :
    (anyOf Ps).rmatch x = true ↔ ∃ P ∈ Ps, P.rmatch x = true := by
  induction Ps with
  | nil => simp [anyOf]
  | cons P Ps ih =>
    rw [anyOf, List.foldr_cons, add_rmatch_iff, List.exists_mem_cons_iff, ← ih]
    rfl

theorem oneOf_rmatch_iff (cs x : List α) : (oneOf cs).rmatch x = true ↔ ∃ c ∈ cs, x = [c] := by
  simp only [oneOf, anyOf_rmatch_iff, List.mem_map, exists_exists_and_eq_and, char_rmatch_iff]

theorem optional_rmatch_iff (P : RegularExpression α) (x : List α) :
    (optional P).rmatch x = true ↔ P.rmatch x = true ∨ x = [] := by
  rw [optional, add_rmatch_iff, one_rmatch_iff]

/-- Any number of characters of a class. -/
theorem star_oneOf_rmatch_iff (cs x : List α) : (oneOf cs).star.rmatch x = true ↔ ∀ c ∈ x, c ∈ cs := by
  rw [star_rmatch_iff]
  constructor
  · rintro ⟨S, rfl, hS⟩ c hc
    obtain ⟨t, ht, hct⟩ := List.mem_flatten.1 hc
    obtain ⟨c', hc', rfl⟩ := (oneOf_rmatch_iff cs t).1 (hS t ht).2
    rwa [List.mem_singleton.1 hct]
  · intro h
    refine ⟨x.map fun c => [c], ?_, fun t ht => ?_⟩
    · simp [List.flatten_eq_flatMap, List.flatMap_map]
    · obtain ⟨c, hc, rfl⟩ := List.mem_map.1 ht
      exact ⟨List.cons_ne_nil _ _, (oneOf_rmatch_iff cs [c]).2 ⟨c, h c hc, rfl⟩⟩

theorem many_oneOf_rmatch_iff (cs x : List α) :
    (many (oneOf cs)).rmatch x = true ↔ x ≠ [] ∧ ∀ c ∈ x, c ∈ cs := by
  rw [many, mul_rmatch_iff]
  constructor
  · rintro ⟨t, u, rfl, ht, hu⟩
    obtain ⟨c, hc, rfl⟩ := (oneOf_rmatch_iff cs t).1 ht
    have hstar := (star_oneOf_rmatch_iff cs u).1 hu
    exact ⟨List.cons_ne_nil _ _, fun c' hc' => (List.mem_cons.1 hc').elim (fun h => h ▸ hc) (hstar c')⟩
  · rintro ⟨hne, hall⟩
    obtain ⟨c, u, rfl⟩ := List.exists_cons_of_ne_nil hne
    refine ⟨[c], u, rfl, (oneOf_rmatch_iff cs _).2 ⟨c, hall c List.mem_cons_self, rfl⟩, ?_⟩
    exact (star_oneOf_rmatch_iff cs u).2 fun c' hc' => hall c' (List.mem_cons_of_mem _ hc')

theorem word_rmatch_iff (classes : List (List α)) (x : List α) :
    (word classes).rmatch x = true ↔ List.Forall₂ (fun c cs => c ∈ cs) x classes := by
  induction classes generalizing x with
  | nil => simp [word]
  | cons cs classes ih =>
    rw [word, List.foldr_cons, mul_rmatch_iff, List.forall₂_cons_right_iff]
    constructor
    · rintro ⟨t, u, rfl, ht, hu⟩
      obtain ⟨c, hc, rfl⟩ := (oneOf_rmatch_iff cs t).1 ht
      exact ⟨c, u, hc, (ih u).1 hu, rfl⟩
    · rintro ⟨c, u, hc, hu, rfl⟩
      exact ⟨[c], u, rfl, (oneOf_rmatch_iff cs _).2 ⟨c, hc, rfl⟩, (ih u).2 hu⟩

end RegularExpression
