import Noda.Engine.Graph

/-!
# Eviction tracker

`NewEvictionTracker` of `eviction.go`: for the output key of every node that is not terminal, the number of nodes that
consume it, and for every node the keys it consumes.

* `mem_consumedKeys`: a node consumes the keys of the tracked nodes it is a consumer of;
* `refs_lookup`: the initial count of a tracked key is the number of its consumers.
-/

namespace Noda.Engine

/-- The nodes whose config refers to an output key: `reverseConfigRefs[key]`. -/
def reverseConfigRefs (g : CompiledGraph) (key : String) : List String :=
  (g.nodes.toPairs.filter fun p => key ∈ p.2.configRefs).map Prod.fst

/-- The consumers of a node's output: the targets of its edges and the other nodes whose config refers to its key. -/
def consumerSet (g : CompiledGraph) (n : String) : List String :=
  (g.successors n ++ (reverseConfigRefs g (g.outputKey n)).filter (· ≠ n)).dedup

/-- The counts by output key, and the keys each node consumes. -/
structure EvictionTracker where
  refs : GoMap Int
  consumers : GoMap (List String)

/-- Register the output key of `n` with its consumers. -/
def EvictionTracker.register (g : CompiledGraph) (t : EvictionTracker) (n : String) : EvictionTracker :=
  if n ∈ g.terminalNodes ∨ consumerSet g n = [] then t
  else
    { refs := t.refs.insert (g.outputKey n) (consumerSet g n).length
      consumers := (consumerSet g n).foldl (fun m c => m.modify c [] (· ++ [g.outputKey n])) t.consumers }

/-- `NewEvictionTracker`. -/
def newEvictionTracker (g : CompiledGraph) : EvictionTracker :=
  g.nodes.keys.foldl (EvictionTracker.register g) ⟨∅, ∅⟩

/-- The output keys `NodeCompleted` releases for a node. -/
def consumedKeys (g : CompiledGraph) (c : String) : List String := (newEvictionTracker g).consumers.getD c []

/-! ### The counts and the consumed keys -/

/-- The output of `n` is subject to eviction. -/
def Tracked (g : CompiledGraph) (n : String) : Prop := n ∈ g.nodes ∧ n ∉ g.terminalNodes ∧ consumerSet g n ≠ []

variable {g : CompiledGraph}

theorem mem_consumerSet {n c : String} :
    c ∈ consumerSet g n ↔ c ∈ g.successors n ∨ c ∈ reverseConfigRefs g (g.outputKey n) ∧ c ≠ n := by
  simp [consumerSet]

private theorem nodup_consumerSet (g : CompiledGraph) (n : String) : (consumerSet g n).Nodup := List.nodup_dedup _

private theorem foldl_modify (key c : String) : ∀ (cs : List String) (m : GoMap (List String)), cs.Nodup →
    (cs.foldl (fun m c => m.modify c [] (· ++ [key])) m).getD c [] =
      m.getD c [] ++ if c ∈ cs then [key] else [] := by
  intro cs
  induction cs with
  | nil => simp
  | cons a cs ih =>
    intro m hnd
    rw [List.nodup_cons] at hnd
    rw [List.foldl_cons, ih _ hnd.2]
    by_cases hca : c = a
    · subst hca
      simp [hnd.1]
    · simp [AList.getD_modify_of_ne _ _ _ hca, hca]

private theorem consumers_foldl (c : String) : ∀ (ns : List String) (t : EvictionTracker),
    (ns.foldl (EvictionTracker.register g) t).consumers.getD c [] =
      t.consumers.getD c [] ++
        (ns.filter fun n => n ∉ g.terminalNodes ∧ c ∈ consumerSet g n).map g.outputKey := by
  intro ns
  induction ns with
  | nil => simp
  | cons n ns ih =>
    intro t
    rw [List.foldl_cons, ih, EvictionTracker.register]
    by_cases hn : n ∈ g.terminalNodes ∨ consumerSet g n = []
    · have hout : ¬(n ∉ g.terminalNodes ∧ c ∈ consumerSet g n) := by
        rintro ⟨h1, h2⟩
        rcases hn with hn | hn
        · exact h1 hn
        · simp [hn] at h2
      rw [if_pos hn, List.filter_cons_of_neg (by simpa using hout)]
    · rw [if_neg hn]
      rw [not_or] at hn
      dsimp only
      rw [foldl_modify _ _ _ _ (nodup_consumerSet g n)]
      by_cases hc : c ∈ consumerSet g n
      · simp [hc, hn.1]
      · simp [hc]

theorem mem_consumedKeys {c key : String} : key ∈ consumedKeys g c ↔
    ∃ n, Tracked g n ∧ c ∈ consumerSet g n ∧ g.outputKey n = key := by
  rw [consumedKeys, newEvictionTracker, consumers_foldl]
  simp only [AList.getD_empty, List.nil_append, List.mem_map, List.mem_filter, decide_eq_true_eq]
  constructor
  · rintro ⟨n, ⟨hn, ht, hc⟩, hk⟩
    exact ⟨n, ⟨AList.mem_keys.2 hn, ht, List.ne_nil_of_mem hc⟩, hc, hk⟩
  · rintro ⟨n, ⟨hn, ht, -⟩, hc, hk⟩
    exact ⟨n, ⟨AList.mem_keys.1 hn, ht, hc⟩, hk⟩

theorem nodup_consumedKeys (hg : Compiled g) (c : String) : (consumedKeys g c).Nodup := by
  rw [consumedKeys, newEvictionTracker, consumers_foldl]
  simp only [AList.getD_empty, List.nil_append]
  refine List.Nodup.map_on ?_ (g.nodes.keys_nodup.filter _)
  intro n hn m hm hk
  have hn' := (List.mem_filter.1 hn).1
  have hm' := (List.mem_filter.1 hm).1
  exact hg.key_inj (AList.mem_keys.2 hn') (AList.mem_keys.2 hm') hk

private theorem refs_foldl {k : String} : ∀ (ns : List String) (t : EvictionTracker),
    (∀ r, (ns.foldl (EvictionTracker.register g) t).refs.lookup k = some r →
      t.refs.lookup k = some r ∨ ∃ n ∈ ns, (n ∉ g.terminalNodes ∧ consumerSet g n ≠ []) ∧ g.outputKey n = k ∧
        r = (consumerSet g n).length) ∧
    (k ∈ t.refs ∨ (∃ n ∈ ns, n ∉ g.terminalNodes ∧ consumerSet g n ≠ [] ∧ g.outputKey n = k) →
      k ∈ (ns.foldl (EvictionTracker.register g) t).refs) := by
  intro ns
  induction ns with
  | nil => simp
  | cons n ns ih =>
    intro t
    rw [List.foldl_cons]
    obtain ⟨ih1, ih2⟩ := ih (EvictionTracker.register g t n)
    constructor
    · intro r hr
      rcases ih1 r hr with h | ⟨m, hm, htr, hk, hr⟩
      · rw [EvictionTracker.register] at h
        split at h
        · exact .inl h
        · rename_i htr
          by_cases hk : k = g.outputKey n
          · subst hk
            simp only [AList.lookup_insert, Option.some.injEq] at h
            exact .inr ⟨n, by simp, not_or.1 htr, rfl, h.symm⟩
          · rw [AList.lookup_insert_ne hk] at h
            exact .inl h
      · exact .inr ⟨m, List.mem_cons_of_mem _ hm, htr, hk, hr⟩
    · rintro (h | ⟨m, hm, ht, hc, hk⟩)
      · refine ih2 (.inl ?_)
        rw [EvictionTracker.register]
        split
        · exact h
        · simp [AList.mem_insert, h]
      · rcases List.mem_cons.1 hm with rfl | hm
        · refine ih2 (.inl ?_)
          rw [EvictionTracker.register, if_neg (by simp [ht, hc])]
          simp [AList.mem_insert, hk]
        · exact ih2 (.inr ⟨m, hm, ht, hc, hk⟩)

theorem refs_lookup (hg : Compiled g) {n : String} (hn : Tracked g n) :
    (newEvictionTracker g).refs.lookup (g.outputKey n) = some ((consumerSet g n).length : Int) := by
  obtain ⟨h1, h2⟩ := refs_foldl (g := g) (k := g.outputKey n) g.nodes.keys ⟨∅, ∅⟩
  obtain ⟨r, hr⟩ := AList.exists_lookup_of_mem (h2 (.inr ⟨n, AList.mem_keys.1 hn.1, hn.2.1, hn.2.2, rfl⟩))
  rcases h1 r hr with h | ⟨m, hm, -, hk, hrm⟩
  · simp at h
  · have hmn : m = n := hg.key_inj (AList.mem_keys.2 hm) hn.1 hk
    subst hmn
    rw [newEvictionTracker, hr, hrm]

/-- Only keys of tracked nodes are counted. -/
theorem tracked_of_refs {k : String} (h : k ∈ (newEvictionTracker g).refs) : ∃ n, Tracked g n ∧ g.outputKey n = k := by
  obtain ⟨r, hr⟩ := AList.exists_lookup_of_mem h
  rcases (refs_foldl (g := g) g.nodes.keys ⟨∅, ∅⟩).1 r hr with h | ⟨n, hn, htr, hk, -⟩
  · simp at h
  · exact ⟨n, ⟨AList.mem_keys.2 hn, htr⟩, hk⟩

theorem consumer_of_key (hg : Compiled g) {n c : String} (hn : n ∈ g.nodes) (hc : g.outputKey n ∈ consumedKeys g c) :
    Tracked g n ∧ c ∈ consumerSet g n := by
  obtain ⟨m, hm, hcm, hk⟩ := mem_consumedKeys.1 hc
  have hmn : m = n := hg.key_inj hm.1 hn hk
  exact hmn ▸ ⟨hm, hcm⟩

end Noda.Engine
