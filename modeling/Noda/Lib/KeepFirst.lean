import Mathlib.Data.List.Basic
import Mathlib.Data.List.Induction
import Mathlib.Data.List.Nodup

/-!
# First occurrences

`keepFirst` leaves out of a list what has occurred before.  Its order is that of the first occurrences
(`pairwise_keepFirst`).
-/

variable {α : Type} [DecidableEq α] {xs : List α} {x : α}

def keepFirst (xs : List α) : List α := xs.foldl (fun result x => if x ∈ result then result else result ++ [x]) []

private theorem keepFirst_concat (xs : List α) (x : α) :
    keepFirst (xs ++ [x]) = if x ∈ keepFirst xs then keepFirst xs else keepFirst xs ++ [x] := by
  unfold keepFirst
  rw [List.foldl_append, List.foldl_cons, List.foldl_nil]

@[simp] theorem mem_keepFirst : x ∈ keepFirst xs ↔ x ∈ xs := by
  induction xs using List.reverseRecOn with
  | nil => rfl
  | append_singleton xs y ih =>
    rw [keepFirst_concat]
    split_ifs with hy
    · rw [ih, List.mem_append, List.mem_singleton]
      refine ⟨Or.inl, ?_⟩
      rintro (hx | rfl)
      · exact hx
      · exact ih.1 hy
    · rw [List.mem_append, List.mem_append, ih]

/-- A relation between what is kept, in order, is one between each first occurrence and what stands before it. -/
theorem pairwise_keepFirst {R : α → α → Prop} :
    (keepFirst xs).Pairwise R ↔ ∀ before y after, xs = before ++ y :: after → y ∉ before → ∀ x ∈ before, R x y := by
  induction xs using List.reverseRecOn with
  | nil =>
    constructor
    · intro _ before y after h
      simp at h
    · intro _
      exact .nil
  | append_singleton xs z ih =>
    have hlast : (keepFirst (xs ++ [z])).Pairwise R ↔
        (keepFirst xs).Pairwise R ∧ (z ∉ xs → ∀ x ∈ xs, R x z) := by
      rw [keepFirst_concat]
      split_ifs with hz
      · rw [mem_keepFirst] at hz
        exact ⟨fun h => ⟨h, fun hnot => absurd hz hnot⟩, And.left⟩
      · rw [mem_keepFirst] at hz
        simp [List.pairwise_append, hz]
    rw [hlast, ih]
    constructor
    · rintro ⟨hold, hnew⟩ before y after heq hy
      rcases List.eq_nil_or_concat after with rfl | ⟨after, w, rfl⟩
      · obtain ⟨rfl, hyz⟩ := List.append_inj' heq rfl
        obtain rfl : z = y := by simpa using hyz
        exact hnew hy
      · rw [List.concat_eq_append, ← List.cons_append, ← List.append_assoc] at heq
        exact hold before y after (List.append_inj' heq rfl).1 hy
    · intro h
      refine ⟨?_, h xs z [] rfl⟩
      intro before y after heq hy
      exact h before y (after ++ [z]) (by simp [heq]) hy

theorem nodup_keepFirst (xs : List α) : (keepFirst xs).Nodup := by
  refine pairwise_keepFirst.2 ?_
  intro before y after _ hy x hx hxy
  rw [hxy] at hx
  exact hy hx

omit [DecidableEq α] in
/-- The lists of some sources one after the other, and then more: what stands before the first occurrence of an element
is of its source or of one before that. -/
theorem exists_source_of_flatMap {κ : Type} {R : κ → κ → Prop} {f : κ → List α} {ks : List κ} (hks : ks.Pairwise R)
    {rest before after : List α} {y : α} (heq : ks.flatMap f ++ rest = before ++ y :: after) (hy : y ∉ before) {k : κ}
    (hk : k ∈ ks) (hyk : y ∈ f k) (hx : x ∈ before) : ∃ k' ∈ ks, x ∈ f k' ∧ (k' = k ∨ R k' k) := by
  induction ks generalizing before with
  | nil => cases hk
  | cons a ks ih =>
    rw [List.pairwise_cons] at hks
    rw [List.flatMap_cons, List.append_assoc] at heq
    have hfirst : x ∈ f a → ∃ k' ∈ a :: ks, x ∈ f k' ∧ (k' = k ∨ R k' k) := by
      intro hxa
      refine ⟨a, List.mem_cons_self, hxa, ?_⟩
      rcases List.mem_cons.1 hk with rfl | hk
      · exact .inl rfl
      · exact .inr (hks.1 k hk)
    rcases List.append_eq_append_iff.1 heq with ⟨more, rfl, hmore⟩ | ⟨more, ha, -⟩
    · rcases List.mem_append.1 hx with hxa | hxmore
      · exact hfirst hxa
      · rcases List.mem_cons.1 hk with rfl | hk
        · exact absurd (List.mem_append_left more hyk) hy
        · obtain ⟨k', hk', hxk', hR⟩ := ih hks.2 hmore (fun h => hy (List.mem_append_right _ h)) hk hxmore
          exact ⟨k', List.mem_cons_of_mem a hk', hxk', hR⟩
    · rw [ha] at hfirst
      exact hfirst (List.mem_append_left more hx)
