import Mathlib.Data.List.Nodup

/-!
# Association lists

`List.lookup` in a list of entries.  Without repeated keys it finds exactly the entries of the list, in any order of
them.  An entry is replaced where it stands, or comes last (`put`); an entry is taken out (`remove`).
-/

namespace Assoc

variable {α β : Type} [DecidableEq α] {l l' : List (α × β)} {a : α} {b : β}

theorem mem_of_lookup (h : l.lookup a = some b) : (a, b) ∈ l := by
  obtain ⟨l₁, l₂, rfl, -⟩ := List.lookup_eq_some_iff.1 h
  exact List.mem_append_right _ List.mem_cons_self

theorem lookup_eq_none : l.lookup a = none ↔ ∀ b, (a, b) ∉ l := by
  rw [List.lookup_eq_none_iff]
  constructor
  · intro h b hb
    simpa using h (a, b) hb
  · rintro h ⟨a', b⟩ hb
    rw [bne_iff_ne]
    rintro rfl
    exact h b hb

/-- The entry of a key in a list in which all entries of a key are the same. -/
theorem lookup_eq_some_of_unique (h : ∀ e ∈ l, ∀ e' ∈ l, e.1 = e'.1 → e = e') :
    l.lookup a = some b ↔ (a, b) ∈ l := by
  refine ⟨mem_of_lookup, fun hb => ?_⟩
  cases hl : l.lookup a with
  | none => exact absurd hb (lookup_eq_none.1 hl b)
  | some b' =>
    have hsame := h _ hb _ (mem_of_lookup hl) rfl
    rw [(Prod.mk.inj hsame).2]

/-- The entry of a key in a list without repeated keys. -/
theorem lookup_eq_some (h : (l.map Prod.fst).Nodup) : l.lookup a = some b ↔ (a, b) ∈ l :=
  lookup_eq_some_of_unique fun _ he _ he' => List.inj_on_of_nodup_map h he he'

/-- Lists of the same entries, without repeated keys, have the same entry of a key. -/
theorem lookup_congr (h : (l.map Prod.fst).Nodup) (hp : l.Perm l') (a : α) : l.lookup a = l'.lookup a := by
  have h' : (l'.map Prod.fst).Nodup := (hp.map _).nodup_iff.1 h
  ext b
  rw [lookup_eq_some h, lookup_eq_some h', hp.mem_iff]

theorem lookup_map {γ : Type} (f : β → γ) (a : α) : (l.map fun e => (e.1, f e.2)).lookup a = (l.lookup a).map f := by
  induction l with
  | nil => rfl
  | cons e l ih =>
    rw [List.map_cons, List.lookup_cons, List.lookup_cons, ih]
    cases a == e.1 with
    | true => rfl
    | false => rfl

theorem lookup_filter (p : α → Bool) (a : α) :
    (l.filter fun e => p e.1).lookup a = if p a = true then l.lookup a else none := by
  induction l with
  | nil => simp
  | cons e l ih =>
    obtain ⟨a', b⟩ := e
    rw [List.filter_cons]
    by_cases heq : a = a'
    · subst heq
      by_cases hp : p a = true
      · simp [hp]
      · simp [hp, ih]
    · have hbeq : (a == a') = false := beq_false_of_ne heq
      by_cases hp : p a' = true
      · rw [if_pos hp, List.lookup_cons, hbeq, ih, List.lookup_cons, hbeq]
      · rw [if_neg hp, ih, List.lookup_cons, hbeq]

/-- The entry of the key, replaced or added. -/
def put (a : α) (b : β) : List (α × β) → List (α × β)
  | [] => [(a, b)]
  | e :: l => if e.1 = a then (a, b) :: l else e :: put a b l

/-- The entries of the other keys. -/
def remove (a : α) (l : List (α × β)) : List (α × β) := l.filter fun e => e.1 ≠ a

theorem lookup_put_self (a : α) (b : β) (l : List (α × β)) : (put a b l).lookup a = some b := by
  induction l with
  | nil => simp [put]
  | cons e l ih =>
    rw [put]
    split_ifs with h
    · simp
    · rw [List.lookup_cons, beq_false_of_ne (Ne.symm h), ih]

theorem lookup_put_of_ne {a' : α} (h : a' ≠ a) (b : β) (l : List (α × β)) : (put a b l).lookup a' = l.lookup a' := by
  induction l with
  | nil => simp [put, h]
  | cons e l ih =>
    rw [put]
    split_ifs with he
    · rw [List.lookup_cons, List.lookup_cons, he, beq_false_of_ne h]
    · rw [List.lookup_cons, List.lookup_cons, ih]

/-- To put an entry where it is already changes nothing. -/
theorem put_of_lookup (h : l.lookup a = some b) : put a b l = l := by
  induction l with
  | nil => cases h
  | cons e l ih =>
    obtain ⟨a', b'⟩ := e
    rw [put]
    split_ifs with he
    · have he : a' = a := he
      subst he
      rw [List.lookup_cons_self, Option.some.injEq] at h
      rw [h]
    · rw [List.lookup_cons, beq_false_of_ne (Ne.symm he)] at h
      rw [ih h]

theorem mem_put {e : α × β} (h : e ∈ put a b l) : e = (a, b) ∨ e ∈ l := by
  induction l with
  | nil => exact .inl (List.mem_singleton.1 h)
  | cons e' l ih =>
    rw [put] at h
    split_ifs at h
    · rcases List.mem_cons.1 h with he | he
      · exact .inl he
      · exact .inr (List.mem_cons_of_mem _ he)
    · rcases List.mem_cons.1 h with he | he
      · exact .inr (he ▸ List.mem_cons_self)
      · exact (ih he).imp id (List.mem_cons_of_mem _)

theorem nodup_put (h : (l.map Prod.fst).Nodup) : ((put a b l).map Prod.fst).Nodup := by
  induction l with
  | nil => simp [put]
  | cons e l ih =>
    rw [List.map_cons, List.nodup_cons] at h
    rw [put]
    split_ifs with he
    · rw [List.map_cons, List.nodup_cons, ← he]
      exact h
    · rw [List.map_cons, List.nodup_cons]
      refine ⟨fun hmem => ?_, ih h.2⟩
      obtain ⟨e', he', heq⟩ := List.mem_map.1 hmem
      rcases mem_put he' with rfl | he'
      · exact he heq.symm
      · exact h.1 (heq ▸ List.mem_map_of_mem he')

theorem lookup_remove_self (a : α) (l : List (α × β)) : (remove a l).lookup a = none := by
  rw [lookup_eq_none]
  intro b hb
  have hne := (List.mem_filter.1 hb).2
  simp at hne

theorem lookup_remove_of_ne {a' : α} (h : a' ≠ a) (l : List (α × β)) : (remove a l).lookup a' = l.lookup a' := by
  induction l with
  | nil => rfl
  | cons e l ih =>
    rw [remove, List.filter_cons]
    by_cases he : e.1 = a
    · rw [if_neg (by simp [he]), List.lookup_cons, he, beq_false_of_ne h]
      exact ih
    · rw [if_pos (by simp [he]), List.lookup_cons, List.lookup_cons]
      rw [remove] at ih
      rw [ih]

theorem mem_remove {e : α × β} : e ∈ remove a l ↔ e ∈ l ∧ e.1 ≠ a := by
  rw [remove, List.mem_filter, decide_eq_true_eq]

theorem nodup_remove (h : (l.map Prod.fst).Nodup) : ((remove a l).map Prod.fst).Nodup :=
  h.sublist (List.filter_sublist.map _)

theorem remove_of_lookup (h : l.lookup a = none) : remove a l = l := by
  rw [remove, List.filter_eq_self]
  rintro ⟨a', b⟩ he
  simp only [ne_eq, decide_eq_true_eq]
  rintro rfl
  exact lookup_eq_none.1 h b he

end Assoc
