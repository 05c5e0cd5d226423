import Mathlib.Data.List.AList
import Mathlib.Data.List.Perm.Basic

/-!
# Indexes

A table of values, and an index of it by an attribute: for each value of the attribute the set of the keys whose entry
has it.  An entry that is added or removed is added to or removed from one set (`add`, `remove`); a set that becomes
empty is removed, so that the index holds no empty set.  What a lookup through the index finds are the entries with that
attribute, each once (`Indexes.find_perm`).
-/

namespace Index

variable {K A V : Type} [DecidableEq K] [DecidableEq A]

/-- The sets of keys by attribute, each as a map to `true`. -/
abbrev Sets (A K : Type) := AList fun _ : A => AList fun _ : K => Bool

def add (sets : Sets A K) (a : A) (k : K) : Sets A K := sets.insert a (((sets.lookup a).getD ∅).insert k true)

def remove (sets : Sets A K) (a : A) (k : K) : Sets A K :=
  match sets.lookup a with
  | none => sets
  | some set => if (set.erase k).keys.length = 0 then sets.erase a else sets.insert a (set.erase k)

/-- The keys with the attribute. -/
def keys (sets : Sets A K) (a : A) : List K := ((sets.lookup a).getD ∅).keys

/-- The entries of the table that are found through the index. -/
def find (table : AList fun _ : K => V) (sets : Sets A K) (a : A) : List V := (keys sets a).filterMap table.lookup

def select (attr : V → A) (table : AList fun _ : K => V) (a : A) : List V :=
  (table.entries.filter fun e => attr e.2 = a).map (·.2)

/-- The index is one of the table. -/
structure Indexes (attr : V → A) (table : AList fun _ : K => V) (sets : Sets A K) : Prop where
  mem_iff : ∀ a k, k ∈ keys sets a ↔ ∃ v, table.lookup k = some v ∧ attr v = a
  nonempty : ∀ a set, sets.lookup a = some set → set.keys ≠ []

variable {attr : V → A} {table : AList fun _ : K => V} {sets : Sets A K} {a b : A} {k : K} {v : V}

omit [DecidableEq K] in
theorem keys_nodup (sets : Sets A K) (a : A) : (keys sets a).Nodup := AList.keys_nodup _

private theorem keys_add_self : keys (add sets a k) a = k :: (keys sets a).erase k := by
  simp [keys, add]

theorem keys_add_of_ne (h : b ≠ a) : keys (add sets a k) b = keys sets b := by
  simp [keys, add, AList.lookup_insert_ne h]

private theorem mem_keys_add {k' : K} : k' ∈ keys (add sets a k) b ↔ b = a ∧ k' = k ∨ k' ∈ keys sets b := by
  by_cases h : b = a
  · subst h
    rw [keys_add_self, List.mem_cons, (keys_nodup sets b).mem_erase_iff]
    by_cases hk : k' = k
    · simp [hk]
    · simp [hk]
  · rw [keys_add_of_ne h]
    simp [h]

private theorem keys_remove_self : keys (remove sets a k) a = (keys sets a).erase k := by
  unfold remove
  cases hset : sets.lookup a with
  | none => simp [keys, hset]
  | some set =>
    dsimp only
    split_ifs with hempty
    · simpa [keys, hset] using (List.length_eq_zero_iff.1 hempty).symm
    · simp [keys, hset]

theorem keys_remove_of_ne (h : b ≠ a) : keys (remove sets a k) b = keys sets b := by
  unfold remove
  cases hset : sets.lookup a with
  | none => rfl
  | some set =>
    dsimp only
    split_ifs with hempty
    · simp [keys, AList.lookup_erase_ne h]
    · simp [keys, AList.lookup_insert_ne h]

private theorem mem_keys_remove {k' : K} : k' ∈ keys (remove sets a k) b ↔ k' ∈ keys sets b ∧ ¬(b = a ∧ k' = k) := by
  by_cases h : b = a
  · subst h
    rw [keys_remove_self, (keys_nodup sets b).mem_erase_iff]
    simp [and_comm]
  · rw [keys_remove_of_ne h]
    simp [h]

theorem length_keys_add_le (sets : Sets A K) (a : A) (k : K) : (keys (add sets a k) a).length ≤
    (keys sets a).length + 1 := by
  rw [keys_add_self, List.length_cons]
  exact Nat.succ_le_succ List.length_erase_le

theorem length_keys_remove_le (sets : Sets A K) (a : A) (k : K) : (keys (remove sets a k) a).length ≤
    (keys sets a).length := by
  rw [keys_remove_self]
  exact List.length_erase_le

/-! ### The table -/

theorem length_insert (h : k ∉ table) : (table.insert k v).keys.length = table.keys.length + 1 := by
  rw [AList.keys_insert, List.erase_of_not_mem h, List.length_cons]

theorem length_erase (h : table.lookup k = some v) : (table.erase k).keys.length + 1 = table.keys.length := by
  have hmem : k ∈ table.keys := by
    rw [← AList.mem_keys, ← AList.lookup_isSome, h]
    rfl
  have hpos := List.length_pos_of_mem hmem
  rw [AList.keys_erase, List.length_erase_of_mem hmem]
  omega

theorem indexes_empty (attr : V → A) : Indexes attr (∅ : AList fun _ : K => V) ∅ where
  mem_iff a k := by simp [keys]
  nonempty a set h := by simp at h

/-- An entry with a new key. -/
theorem Indexes.insert (h : Indexes attr table sets) (hk : k ∉ table) :
    Indexes attr (table.insert k v) (add sets (attr v) k) where
  mem_iff a k' := by
    rw [mem_keys_add]
    by_cases heq : k' = k
    · subst heq
      have hnone : k' ∉ keys sets a := by
        intro hmem
        obtain ⟨v', hv', -⟩ := (h.mem_iff a k').1 hmem
        rw [AList.lookup_eq_none.2 hk] at hv'
        exact nomatch hv'
      simp [hnone, eq_comm]
    · rw [AList.lookup_insert_ne heq, ← h.mem_iff a k']
      simp [heq]
  nonempty a set hset := by
    by_cases heq : a = attr v
    · subst heq
      rw [add, AList.lookup_insert] at hset
      obtain rfl := Option.some.inj hset
      simp
    · rw [add, AList.lookup_insert_ne heq] at hset
      exact h.nonempty a set hset

theorem Indexes.erase (h : Indexes attr table sets) (hk : table.lookup k = some v) :
    Indexes attr (table.erase k) (remove sets (attr v) k) where
  mem_iff a k' := by
    rw [mem_keys_remove, h.mem_iff]
    by_cases heq : k' = k
    · subst heq
      rw [AList.lookup_erase, hk]
      simp [eq_comm]
    · rw [AList.lookup_erase_ne heq]
      simp [heq]
  nonempty a set hset := by
    unfold remove at hset
    cases hold : sets.lookup (attr v) with
    | none =>
      rw [hold] at hset
      exact h.nonempty a set hset
    | some old =>
      simp only [hold] at hset
      by_cases heq : a = attr v
      · subst heq
        split_ifs at hset with hempty
        · rw [AList.lookup_erase] at hset
          exact nomatch hset
        · rw [AList.lookup_insert] at hset
          obtain rfl := Option.some.inj hset
          exact fun hnil => hempty (List.length_eq_zero_iff.2 hnil)
      · split_ifs at hset
        · rw [AList.lookup_erase_ne heq] at hset
          exact h.nonempty a set hset
        · rw [AList.lookup_insert_ne heq] at hset
          exact h.nonempty a set hset

theorem Indexes.keys_perm (h : Indexes attr table sets) (a : A) :
    (keys sets a).Perm ((table.entries.filter fun e => attr e.2 = a).map Sigma.fst) := by
  have hnodup : ((table.entries.filter fun e => attr e.2 = a).map Sigma.fst).Nodup :=
    table.keys_nodup.sublist (List.filter_sublist.map Sigma.fst)
  refine (List.perm_ext_iff_of_nodup (keys_nodup sets a) hnodup).2 fun k => ?_
  rw [h.mem_iff]
  constructor
  · rintro ⟨v, hv, rfl⟩
    exact List.mem_map.2 ⟨⟨k, v⟩, List.mem_filter.2 ⟨AList.mem_lookup_iff.1 hv, by simp⟩, rfl⟩
  · intro hmem
    obtain ⟨⟨k, v⟩, hfilter, rfl⟩ := List.mem_map.1 hmem
    obtain ⟨hentry, hattr⟩ := List.mem_filter.1 hfilter
    exact ⟨v, AList.mem_lookup_iff.2 hentry, by simpa using hattr⟩

private theorem filterMap_lookup {es : List (Sigma fun _ : K => V)} (h : ∀ e ∈ es, e ∈ table.entries) :
    (es.map Sigma.fst).filterMap table.lookup = es.map (·.2) := by
  induction es with
  | nil => rfl
  | cons e es ih =>
    have hlookup : table.lookup e.1 = some e.2 := AList.mem_lookup_iff.2 (h e List.mem_cons_self)
    simp only [List.map_cons, List.filterMap_cons, hlookup]
    rw [ih fun e' he' => h e' (List.mem_cons_of_mem _ he')]

/-- What is found through an index are the entries with the attribute. -/
theorem Indexes.find_perm (h : Indexes attr table sets) (a : A) : (find table sets a).Perm (select attr table a) := by
  have hperm := (h.keys_perm a).filterMap table.lookup
  rwa [filterMap_lookup fun e he => (List.mem_filter.1 he).1] at hperm

theorem Indexes.length_keys (h : Indexes attr table sets) (a : A) :
    (keys sets a).length = (select attr table a).length := by
  rw [(h.keys_perm a).length_eq, select, List.length_map, List.length_map]

end Index
