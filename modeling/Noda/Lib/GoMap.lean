import Mathlib.Data.List.AList
import Mathlib.Data.List.Sort
import Mathlib.Data.List.Dedup
import Mathlib.Order.Lattice

/-!
# String-keyed maps

Go's `map[string]T` as an association list without repeated keys (`AList`).  The order of the entries stands for one
order in which a `range` loop may visit the map: a statement about every such map is a statement about every
iteration order.  Reading an absent key yields the zero value (`AList.getD`), and `m[k] = f(m[k])` is `AList.modify`.
-/

/-- `map[string]α`. -/
abbrev GoMap (α : Type) := AList fun _ : String => α

/-- A map literal. -/
def GoMap.ofPairs {α : Type} (ps : List (String × α)) : GoMap α := ps.foldr (fun p m => m.insert p.1 p.2) ∅

namespace AList

variable {α : Type}

/-- `m[k]`, with the zero value `d` for an absent key. -/
def getD (m : GoMap α) (k : String) (d : α) : α := (m.lookup k).getD d

/-- `m[k] = f(m[k])`, with the zero value `d` for an absent key. -/
def modify (m : GoMap α) (k : String) (d : α) (f : α → α) : GoMap α := m.insert k (f (m.getD k d))

/-- The entries of the map as pairs, in iteration order. -/
def toPairs (m : GoMap α) : List (String × α) := m.entries.map fun e => (e.1, e.2)

@[simp] theorem getD_empty (k : String) (d : α) : getD (∅ : GoMap α) k d = d := by
  simp [getD]

theorem getD_of_lookup {m : GoMap α} {k : String} {v d : α} (h : m.lookup k = some v) : m.getD k d = v := by
  simp [getD, h]

@[simp] theorem getD_insert_self (m : GoMap α) (k : String) (v d : α) : (m.insert k v).getD k d = v := by
  simp [getD]

theorem getD_insert_of_ne (m : GoMap α) {k k' : String} (v d : α) (h : k' ≠ k) :
    (m.insert k v).getD k' d = m.getD k' d := by
  simp [getD, AList.lookup_insert_ne h]

@[simp] theorem getD_modify_self (m : GoMap α) (k : String) (d : α) (f : α → α) :
    (m.modify k d f).getD k d = f (m.getD k d) := by
  simp [modify]

theorem getD_modify_of_ne (m : GoMap α) {k k' : String} (d : α) (f : α → α) (h : k' ≠ k) :
    (m.modify k d f).getD k' d = m.getD k' d := by
  simp [modify, getD_insert_of_ne m _ _ h]

theorem mem_toPairs {m : GoMap α} {k : String} {v : α} : (k, v) ∈ m.toPairs ↔ m.lookup k = some v := by
  rw [← Option.mem_def, AList.mem_lookup_iff]
  simp only [toPairs, List.mem_map, Prod.mk.injEq]
  constructor
  · rintro ⟨⟨k', v'⟩, h, rfl, rfl⟩; exact h
  · intro h; exact ⟨⟨k, v⟩, h, rfl, rfl⟩

theorem keys_eq_map_toPairs (m : GoMap α) : m.keys = m.toPairs.map Prod.fst := by
  simp [AList.keys, List.keys, toPairs, Function.comp_def]

theorem nodup_toPairs (m : GoMap α) : (m.toPairs.map Prod.fst).Nodup := by
  rw [← keys_eq_map_toPairs]
  exact AList.keys_nodup m

theorem mem_iff_lookup {m : GoMap α} {k : String} : k ∈ m ↔ ∃ v, m.lookup k = some v := by
  rw [← AList.lookup_isSome, Option.isSome_iff_exists]

theorem exists_lookup_of_mem {m : GoMap α} {k : String} (h : k ∈ m) : ∃ v, m.lookup k = some v := mem_iff_lookup.1 h

theorem mem_of_lookup {m : GoMap α} {k : String} {v : α} (h : m.lookup k = some v) : k ∈ m := mem_iff_lookup.2 ⟨v, h⟩

/-- The keys that are left after some have been deleted in a loop. -/
theorem mem_foldl_erase {β : Type} (p : β → Bool) (f : β → String) (xs : List β) (m : GoMap α) {k : String} :
    k ∈ xs.foldl (fun m x => if p x then m.erase (f x) else m) m ↔ k ∈ m ∧ ∀ x ∈ xs, p x = true → f x ≠ k := by
  induction xs generalizing m with
  | nil => simp
  | cons x xs ih =>
    rw [List.foldl_cons, ih, List.forall_mem_cons]
    by_cases hp : p x = true
    · simp only [hp, if_true, AList.mem_erase, forall_const, ne_comm, and_assoc]
      exact ⟨fun ⟨h₁, h₂, h₃⟩ => ⟨h₂, h₁, h₃⟩, fun ⟨h₁, h₂, h₃⟩ => ⟨h₂, h₁, h₃⟩⟩
    · simp [hp]

/-- `result[k] = f(k, v)` for the entries of a map. -/
def mapVal {β : Type} (f : String → α → β) (m : GoMap α) : GoMap β where
  entries := m.entries.map fun e => ⟨e.1, f e.1 e.2⟩
  nodupKeys := by
    have hkeys : (m.entries.map fun e => (⟨e.1, f e.1 e.2⟩ : Sigma fun _ : String => β)).keys = m.entries.keys := by
      simp [List.keys, Function.comp_def]
    rw [List.NodupKeys, hkeys]
    exact m.nodupKeys

end AList

/-- Of two entries with one key the first one counts. -/
theorem GoMap.lookup_ofPairs {α : Type} (ps : List (String × α)) (k : String) :
    (GoMap.ofPairs ps).lookup k = ps.lookup k := by
  induction ps with
  | nil => rfl
  | cons p ps ih =>
    show ((GoMap.ofPairs ps).insert p.1 p.2).lookup k = _
    by_cases h : k = p.1
    · rw [h, AList.lookup_insert, List.lookup_cons, beq_self_eq_true]
    · rw [AList.lookup_insert_ne h, ih, List.lookup_cons, beq_false_of_ne h]

theorem GoMap.mem_ofPairs {α : Type} {ps : List (String × α)} {k : String} :
    k ∈ GoMap.ofPairs ps ↔ k ∈ ps.map Prod.fst := by
  rw [← AList.lookup_isSome, lookup_ofPairs, List.lookup_isSome_iff, List.mem_map]
  constructor
  · rintro ⟨p, hp, hk⟩
    exact ⟨p, hp, (eq_of_beq hk).symm⟩
  · rintro ⟨p, hp, rfl⟩
    exact ⟨p, hp, beq_self_eq_true _⟩

/-- The values of a map literal, changed one by one. -/
theorem GoMap.mapVal_ofPairs {α β : Type} (f : α → β) (ps : List (String × α)) :
    (GoMap.ofPairs ps).mapVal (fun _ => f) = GoMap.ofPairs (ps.map (Prod.map id f)) := by
  induction ps with
  | nil => rfl
  | cons p ps ih =>
    have hinsert : ∀ m : GoMap α, (m.insert p.1 p.2).mapVal (fun _ => f) =
        (m.mapVal fun _ => f).insert p.1 (f p.2) := by
      intro m
      refine AList.ext ?_
      simp only [AList.mapVal, AList.entries_insert, List.map_cons, List.kerase, List.eraseP_map]
      rfl
    rw [List.map_cons]
    exact (hinsert _).trans (congrArg (AList.insert p.1 (f p.2)) ih)

theorem GoMap.lookup_ofPairs_singleton {α : Type} (k k' : String) (v : α) :
    (GoMap.ofPairs [(k, v)]).lookup k' = if k' = k then some v else none := by
  by_cases h : k' = k
  · subst h
    rw [if_pos rfl]
    exact AList.lookup_insert ..
  · rw [if_neg h]
    exact (AList.lookup_insert_ne h).trans (AList.lookup_empty ..)

/-- `sort.Strings`. -/
def sortStrings (xs : List String) : List String := xs.insertionSort (· ≤ ·)

@[simp] theorem mem_sortStrings {x : String} {xs : List String} : x ∈ sortStrings xs ↔ x ∈ xs := by
  exact (List.perm_insertionSort _ xs).mem_iff

theorem nodup_sortStrings {xs : List String} : (sortStrings xs).Nodup ↔ xs.Nodup := by
  exact (List.perm_insertionSort _ xs).nodup_iff

theorem sortStrings_eq_of_perm {xs ys : List String} (h : xs.Perm ys) : sortStrings xs = sortStrings ys := by
  have hsorted : (sortStrings xs).Perm (sortStrings ys) :=
    (List.perm_insertionSort _ xs).trans (h.trans (List.perm_insertionSort _ ys).symm)
  exact hsorted.eq_of_pairwise' (List.pairwise_insertionSort _ xs) (List.pairwise_insertionSort _ ys)
