import Noda.Engine.Joins

/-!
# Safety of eviction

An output is evicted when the last of its consumers has completed.  A consumer that is a join may run without the node
whose output it consumes, if the compiler has put independent sources into one group; then the output can be evicted
before it is stored.

* `eviction_safe`: where grouped sources are in conflict, an evicted output is not stored any more, and no output is
  deleted before all its consumers have completed;
* `eviction_not_safe`: a graph that `Compile` accepts, with a run that stores an output after its eviction.
-/

namespace Noda.Engine

variable {D : Type} {g : CompiledGraph} {reg : Registries D} {s s' : RunState D} {log : List (Event D)}
  {n m t o c key : String} {i : Nat} {pc pc' : Pc D} {eff : Effect D}

/-! ### The keys outputs are stored under -/

/-- The goroutine is between the registration of its alias and the storing of its output. -/
def Pc.isCalling : Pc D → Bool
  | .executing .. => true
  | .storing .. => true
  | _ => false

/-- The registered aliases are those of the graph, and a node registers its alias before it is executed. -/
structure KeysOk (g : CompiledGraph) (s : RunState D) : Prop where
  aliases : ∀ n a, s.exec.aliases.lookup n = some a → a = (g.node n).asName ∧ a ≠ ""
  registered : ∀ n pc, (n, pc) ∈ s.goroutines → pc.isCalling = true → (g.node n).asName ≠ "" →
    s.exec.aliases.lookup n = some (g.node n).asName

theorem Compiled.node_id_eq (hg : Compiled g) (hn : n ∈ g.nodes) : (g.node n).id = n := by
  obtain ⟨node, hl⟩ := AList.exists_lookup_of_mem hn
  rw [CompiledGraph.node, AList.getD_of_lookup hl]
  exact hg.node_id hl

private theorem outputKey_eq (hn : n ∈ g.nodes) :
    g.outputKey n = if (g.node n).asName = "" then n else (g.node n).asName := by
  obtain ⟨node, hl⟩ := AList.exists_lookup_of_mem hn
  rw [CompiledGraph.outputKey, CompiledGraph.node, AList.getD_of_lookup hl, hl]

private theorem perform_aliases (hr : eff ≠ .register) : (s.perform g n eff).exec.aliases = s.exec.aliases := by
  cases eff with
  | register => exact absurd rfl hr
  | store r avail =>
    simp only [RunState.perform, conclude]
    split
    · rfl
    · split <;> rfl
    · split
      · rfl
      · split <;> rfl
  | evict key =>
    simp only [RunState.perform, ExecutionContext.evictOutput]
    split <;> rfl
  | count t =>
    simp only [RunState.perform]
    split <;> rfl
  | _ => rfl

private theorem mem_of_calling {q : Pc D} (hnd : (s.goroutines.map Prod.fst).Nodup)
    (hi : s.goroutines[i]? = some (n, pc))
    (hq : (m, q) ∈ (RunState.perform g { s with goroutines := s.goroutines.set i (n, pc') } n eff).goroutines)
    (hcall : q.isCalling = true) : m = n ∧ q = pc' ∨ (m, q) ∈ s.goroutines := by
  rcases perform_mem_goroutines hq with hq | hq
  · rcases mem_set_goroutines hnd hi hq with hq | ⟨hq, -⟩
    · cases hq
      exact .inl ⟨rfl, rfl⟩
    · exact .inr hq
  · rw [show q = .start from hq] at hcall
    cases hcall

private theorem keysOk_register (hg : Compiled g) (hn : n ∈ g.nodes) (h : KeysOk g s)
    (hnd : (s.goroutines.map Prod.fst).Nodup) (hi : s.goroutines[i]? = some (n, pc)) :
    KeysOk g (RunState.perform g { s with goroutines := s.goroutines.set i (n, pc') } n .register) := by
  have hset : ∀ m, (RunState.perform g { s with goroutines := s.goroutines.set i (n, pc') } n
      .register).exec.aliases.lookup m =
        if m = n ∧ (g.node n).asName ≠ "" then some (g.node n).asName else s.exec.aliases.lookup m := by
    intro m
    simp only [RunState.perform, registerNode]
    by_cases ha : (g.node n).asName = ""
    · simp [ha]
    · simp only [ha, ↓reduceIte, ExecutionContext.registerAlias, hg.node_id_eq hn, not_false_eq_true, and_true, ne_eq]
      by_cases hmn : m = n
      · subst hmn
        simp
      · simp [hmn, AList.lookup_insert_ne hmn]
  refine ⟨fun m a hma => ?_, fun m q hq hcall ha => ?_⟩
  · rw [hset] at hma
    split at hma
    · rename_i hmn
      cases hma
      exact ⟨by rw [hmn.1], hmn.2⟩
    · exact h.aliases m a hma
  · rw [hset]
    split
    · rename_i hmn
      rw [hmn.1]
    · rename_i hmn
      rcases mem_of_calling hnd hi hq hcall with ⟨rfl, -⟩ | hq
      · exact absurd ⟨rfl, ha⟩ hmn
      · exact h.registered m q hq hcall ha

/-- A goroutine comes to call its executor only by registering its alias. -/
private theorem Move.isCalling (hm : Move g reg s n pc pc' eff) (hr : eff ≠ .register) (h : pc'.isCalling = true) :
    pc.isCalling = true := by
  cases hm <;> first | rfl | exact absurd rfl hr | cases h

private theorem keysOk_move (hg : Compiled g) (hinv : Inv g s) (h : KeysOk g s)
    (hi : s.goroutines[i]? = some (n, pc)) (hm : Move g reg s n pc pc' eff) :
    KeysOk g (RunState.perform g { s with goroutines := s.goroutines.set i (n, pc') } n eff) := by
  have hmem := List.mem_of_getElem? hi
  have hnd := hinv.goroutines.nodup
  by_cases hr : eff = .register
  · subst hr
    have hn : n ∈ g.nodes :=
      hinv.goroutines.lawful.dispatched_mem ((hinv.goroutines.mem_iff n).1 (List.mem_map.2 ⟨_, hmem, rfl⟩))
    exact keysOk_register hg hn h hnd hi
  · refine ⟨fun m a hma => ?_, fun m q hq hcall ha => ?_⟩ <;> rw [perform_aliases hr] at *
    · exact h.aliases m a hma
    · rcases mem_of_calling hnd hi hq hcall with ⟨rfl, rfl⟩ | hq
      · exact h.registered m pc hmem (hm.isCalling hr hcall) ha
      · exact h.registered m q hq hcall ha

private theorem keysOk_of_reachable (hg : Compiled g) {retain : Bool}
    (h : Transition.Reachable (step g reg) (initial g retain) s) : KeysOk g s := by
  have hboth := h.invariant (P := fun s => Inv g s ∧ KeysOk g s)
    ⟨inv_initial hg retain, by simp [initial], by simp [initial]⟩ fun s a s' hs ha => ?_
  · exact hboth.2
  · obtain ⟨-, -, hc⟩ := step_cases ha
    refine ⟨inv_step hg hs.1 hc, ?_⟩
    cases hc with
    | startEntry t ts hts =>
      refine ⟨hs.2.aliases, fun m q hq hcall ha => ?_⟩
      rcases List.mem_append.1 hq with hq | hq
      · exact hs.2.registered m q hq hcall ha
      · cases List.mem_singleton.1 hq
        cases hcall
    | move i n pc pc' eff hi hm => exact keysOk_move hg hs.1 hs.2 hi hm
    | ctxEnd e hc => exact ⟨hs.2.aliases, hs.2.registered⟩
    | finish inherited hw => exact ⟨hs.2.aliases, hs.2.registered⟩

theorem KeysOk.outputKey (h : KeysOk g s) (hn : n ∈ g.nodes) {retry : Option RetryLoop} {r : ExecResult D}
    {avail : List String} (hst : (n, .storing retry r avail) ∈ s.goroutines) : s.exec.outputKey n = g.outputKey n := by
  rw [outputKey_eq hn, ExecutionContext.outputKey, AList.getD]
  split
  · rename_i ha
    cases hl : s.exec.aliases.lookup n with
    | none => rfl
    | some a => exact absurd ((h.aliases n a hl).1.trans ha) (h.aliases n a hl).2
  · rename_i ha
    rw [h.registered n _ hst rfl ha]
    rfl

/-! ### Reference counts -/

/-- No key is counted that was not counted from the start. -/
private theorem refs_mem_of_reachable {retain : Bool} (h : Transition.Reachable (step g reg) (initial g retain) s) :
    ∀ k ∈ s.refs, k ∈ (newEvictionTracker g).refs := by
  refine h.invariant (P := fun s => ∀ k ∈ s.refs, k ∈ (newEvictionTracker g).refs) (fun k hk => hk)
    fun s a s' hs ha => ?_
  obtain ⟨-, -, hc⟩ := step_cases ha
  cases hc with
  | startEntry t ts hts => exact hs
  | move i n pc pc' eff hi hm =>
    by_cases hcount : ∃ t, eff = .count t
    · obtain ⟨t, rfl⟩ := hcount
      simp only [RunState.perform]
      split <;> exact hs
    · replace hcount : ∀ t, eff ≠ .count t := fun t ht => hcount ⟨t, ht⟩
      by_cases hrel : ∃ key, eff = .release key
      · obtain ⟨key, rfl⟩ := hrel
        have hkey : key ∈ s.refs := by
          cases hm with
          | release _ _ _ _ hl | lastRelease _ _ _ hl => exact AList.mem_of_lookup hl
        intro k hk
        rcases (AList.mem_insert _).1 hk with rfl | hk
        · exact hs k hkey
        · exact hs k hk
      · rw [perform_refs hcount fun key he => hrel ⟨key, he⟩]
        exact hs
  | ctxEnd e hc => exact hs
  | finish inherited hw => exact hs

theorem Inv.refs_nonneg (h : Inv g s) (hg : Compiled g) (hmem : ∀ k ∈ s.refs, k ∈ (newEvictionTracker g).refs)
    {ref : Int} (hk : s.refs.lookup key = some ref) : 0 ≤ ref := by
  obtain ⟨n, hn, rfl⟩ := tracked_of_refs (hmem key (AList.mem_of_lookup hk))
  have hle := (h.goroutines.lawful.releasers_le hg hn).1
  rw [h.refs n hn, Option.some.injEq] at hk
  omega

/-! ### Evictions -/

def Consumer (g : CompiledGraph) (n c : String) : Prop :=
  (∃ o, c ∈ g.targets n o) ∨ ∃ node, g.nodes.lookup c = some node ∧ g.outputKey n ∈ node.configRefs

/-- The eviction protocol, in one state of a run. -/
structure EvictionSafe (g : CompiledGraph) (s : RunState D) : Prop where
  /-- distinct nodes write distinct keys -/
  written : ∀ n retry r avail, (n, .storing retry r avail) ∈ s.goroutines → s.exec.outputKey n = g.outputKey n
  distinct : ∀ n m, n ∈ g.nodes → m ∈ g.nodes → g.outputKey n = g.outputKey m → n = m
  /-- when a key is evicted, all consumers have completed; a node that refers to itself has, if it has stored it -/
  consumed : ∀ n ∈ g.nodes, ∀ later past c, s.log = later ++ .evicted c (g.outputKey n) :: past →
    ∀ x, Consumer g n x → (x = n → ∃ r, .stored n r ∈ past) → Completed past x
  /-- an evicted output is not stored afterwards, for the first time or again -/
  not_stored : ∀ n ∈ g.nodes, ∀ later past c, s.log = later ++ .evicted c (g.outputKey n) :: past →
    ∀ r, .stored n r ∉ later
  not_terminal : ∀ n ∈ g.nodes, ∀ c, .evicted c (g.outputKey n) ∈ s.log → n ∉ g.terminalNodes
  nonneg : ∀ key ref, s.refs.lookup key = some ref → 0 ≤ ref

theorem Consumer.mem_consumerSet (h : Consumer g n c) (hne : c ≠ n) : c ∈ consumerSet g n := by
  rw [Noda.Engine.mem_consumerSet, mem_successors]
  refine h.imp_right ?_
  rintro ⟨node, hl, href⟩
  exact ⟨List.mem_map.2 ⟨(c, node), List.mem_filter.2 ⟨AList.mem_toPairs.2 hl, by simpa using href⟩, rfl⟩, hne⟩

theorem Lawful.evicted_completed {later past : List (Event D)}
    (h : Lawful g (later ++ .evicted m (g.outputKey n) :: past))
    (hg : Compiled g) (hn : n ∈ g.nodes) : Tracked g n ∧ ∀ c ∈ consumerSet g n, Completed past c := by
  obtain ⟨⟨hk, hall⟩, hpast⟩ := h.split
  obtain ⟨htr, -⟩ := consumer_of_key hg hn hk
  refine ⟨htr, fun c hc => ?_⟩
  exact Lawful.completed_of_released hpast (hall c (mem_consumedKeys.2 ⟨n, htr, hc, rfl⟩))

/-- A tracked node has an edge. -/
theorem Tracked.exists_target (h : Tracked g n) (hg : Compiled g) : ∃ o t, t ∈ g.targets n o := by
  by_contra hno
  simp only [not_exists] at hno
  exact h.2.1 (hg.terminal_iff.2 ⟨h.1, fun o _ => List.eq_nil_iff_forall_not_mem.2 (hno o)⟩)

theorem Lawful.completed_of_target (h : Lawful g log) (hg : Compiled g) (hc : GroupsConflict g)
    (hn : .dispatched n ∈ log) (ht : .dispatched t ∈ log) (hedge : t ∈ g.targets n o) : Completed log n := by
  by_contra hno
  simp only [Completed, not_exists] at hno
  obtain ⟨m, o', harr, hchain⟩ := h.exists_arrival hg ht (hg.mem_sources.2 ⟨o, hedge⟩)
  obtain ⟨hcm, htm⟩ := h.completed_of_arrival harr
  have hne : m ≠ n := fun hmn => hno o' (hmn ▸ hcm)
  exact (h.configuration_insert hg hn hno o).not_conflict (e := (m, some o')) (f := (n, some o)) (.inr hcm) (.inl rfl)
    (hc t m n o' o hne hchain htm hedge)

private theorem Lawful.stored_not_evicted {later past : List (Event D)}
    (h : Lawful g (later ++ .evicted m (g.outputKey n) :: past)) (hg : Compiled g) (hc : GroupsConflict g)
    (hn : n ∈ g.nodes) (r : ExecResult D) : .stored n r ∉ later := by
  intro hr
  obtain ⟨l₁, l₂, rfl⟩ := List.append_of_mem hr
  rw [List.append_assoc, List.cons_append] at h
  obtain ⟨⟨hw, -⟩, hlaw⟩ := h.split
  -- `n` works when it stores, but a target of `n` has run, so `n` has completed
  obtain ⟨htr, hall⟩ := Lawful.evicted_completed hlaw hg hn
  obtain ⟨o, t, ht⟩ := htr.exists_target hg
  obtain ⟨o', hco⟩ := hall t (Noda.Engine.mem_consumerSet.2 (.inl (mem_successors.2 ⟨o, ht⟩)))
  have hdt : .dispatched t ∈ l₂ ++ .evicted m (g.outputKey n) :: past :=
    Lawful.dispatched_of_ends hlaw (e := .completed t o') (by simp [hco]) rfl
  obtain ⟨o'', ho''⟩ := Lawful.completed_of_target hlaw hg hc hw.1 hdt ht
  exact hw.ne_completed ho''

private theorem Lawful.consumers_completed {later past : List (Event D)}
    (h : Lawful g (later ++ .evicted m (g.outputKey n) :: past)) (hg : Compiled g) (hc : GroupsConflict g)
    (hn : n ∈ g.nodes) (hx : Consumer g n c) (hself : c = n → ∃ r, .stored n r ∈ past) : Completed past c := by
  obtain ⟨htr, hall⟩ := h.evicted_completed hg hn
  obtain ⟨-, hpast⟩ := h.split
  by_cases hcn : c = n
  · -- the tracker does not count `n` itself; its targets have run after it
    subst hcn
    obtain ⟨r, hr⟩ := hself rfl
    obtain ⟨o, t, ht⟩ := htr.exists_target hg
    obtain ⟨o', hco⟩ := hall t (Noda.Engine.mem_consumerSet.2 (.inl (mem_successors.2 ⟨o, ht⟩)))
    exact Lawful.completed_of_target hpast hg hc (Lawful.dispatched_of_stored hpast hr)
      (Lawful.dispatched_of_ends hpast hco rfl) ht
  · exact hall c (hx.mem_consumerSet hcn)

/-- Where grouped sources are in conflict, every run follows the eviction protocol. -/
theorem eviction_safe {wf : WorkflowConfig} {resolver : Option NodeOutputResolver} {g : CompiledGraph}
    (hcompile : compile wf resolver = .ok g) (hconflict : GroupsConflict g) (reg : Registries D) (retain : Bool)
    {s : RunState D} (hs : Transition.Reachable (step g reg) (initial g retain) s) : EvictionSafe g s := by
  have hg := compile_compiled hcompile
  have hinv := inv_of_reachable hg hs
  have hlaw := hinv.goroutines.lawful
  have hkeys := keysOk_of_reachable hg hs
  refine ⟨fun n retry r avail hst => ?_, fun n m => hg.key_inj, fun n hn later past c hlog x hx hself => ?_,
    fun n hn later past c hlog r => ?_, fun n hn c hev => ?_,
    fun key ref hk => hinv.refs_nonneg hg (refs_mem_of_reachable hs) hk⟩
  · have hn := hlaw.dispatched_mem ((hinv.goroutines.mem_iff n).1 (List.mem_map.2 ⟨_, hst, rfl⟩))
    exact hkeys.outputKey hn hst
  · exact Lawful.consumers_completed (hlog ▸ hlaw) hg hconflict hn hx hself
  · exact Lawful.stored_not_evicted (hlog ▸ hlaw) hg hconflict hn r
  · obtain ⟨later, past, hlog⟩ := List.append_of_mem hev
    exact (Lawful.evicted_completed (hlog ▸ hlaw) hg hn).1.2.1

theorem eviction_safe_diamond : ∃ g, compile diamond (some coreOutputs) = .ok g ∧ Tracked g "c" ∧
    ∀ s, Transition.Reachable (step g anyType) (initial g false) s → EvictionSafe g s := by
  obtain ⟨g, hg, -, hconflict⟩ := diamond_conflict
  obtain ⟨g', hg', hp⟩ := exists_compile diamond (some coreOutputs)
    (p := fun g => decide ("c" ∈ g.nodes.keys) && decide ("c" ∉ g.terminalNodes) && decide (consumerSet g "c" ≠ []))
    (by decide +kernel)
  obtain rfl : g = g' := Except.ok.inj (hg.symm.trans hg')
  simp only [Bool.and_eq_true, decide_eq_true_eq] at hp
  obtain ⟨⟨hc, ht⟩, hne⟩ := hp
  exact ⟨g, hg, ⟨AList.mem_keys.2 hc, ht, hne⟩, fun s hs => eviction_safe hg hconflict anyType false hs⟩

/-- `j` completes while `s3`, which the compiler has grouped with `s1`, is still to store its output: the key of `s3` is
evicted first. -/
theorem eviction_not_safe : ∃ (g : CompiledGraph) (s : RunState Unit), compile twoChoices (some coreOutputs) = .ok g ∧
    Transition.Reachable (step g anyType) (initial g false) s ∧ ¬ EvictionSafe g s := by
  obtain ⟨g, hg, hp⟩ := exists_compile twoChoices (some coreOutputs)
    (p := fun g => decide ("s3" ∈ g.nodes.keys) && decide (g.outputKey "s3" = "s3") &&
      (Transition.run (step g anyType) (initial g false)
        (twoChoicesRun ++ goes 4 2 ++ fires 4 "" ++ goes 4 8 ++ goes 3 2 ++ fires 3 "" ++ goes 3 1)).any
        fun s : RunState Unit =>
          let later := s.log.takeWhile (· ≠ .evicted "j" "s3")
          let past := (s.log.dropWhile (· ≠ .evicted "j" "s3")).tail
          decide (s.log = later ++ .evicted "j" "s3" :: past) && decide (.stored "s3" (.ok "" ()) ∈ later))
    (by decide +kernel)
  simp only [Bool.and_eq_true, decide_eq_true_eq] at hp
  obtain ⟨⟨hmem, hkey⟩, hp⟩ := hp
  obtain ⟨s, hs, hr⟩ := Transition.exists_run _ _ _ hp
  simp only [Bool.and_eq_true, decide_eq_true_eq] at hr
  refine ⟨g, s, hg, ⟨_, hs⟩, fun h => ?_⟩
  exact h.not_stored "s3" (AList.mem_keys.2 hmem) _ _ "j" (by rw [hkey]; exact hr.1) _ hr.2

end Noda.Engine
