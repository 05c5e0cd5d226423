import Noda.Engine.Invariants

/-!
# Exactly-once scheduling

Every run of a compiled graph is finite: `weight` bounds the steps a goroutine has left, and the measure of a state adds
the cost of the nodes that are not dispatched yet.  No run gets stuck before it has a result (`progress`).

* `scheduled_exactly_once`: nodes are dispatched at most once, entry nodes exactly once and the others exactly when all
  their join groups have an arrival; edges are followed along one output only, all look-ups are in range, and runs end.
-/

namespace Noda.Engine

variable {D : Type} {g : CompiledGraph} {reg : Registries D} {s s' : RunState D} {n t : String} {pc pc' : Pc D}
  {eff : Effect D} {i : Nat}

/-! ### The steps a goroutine has left -/

def policyCost : List RetryConfig → Nat
  | [] => 0
  | policy :: rest => policyCost rest + 5 * policy.attempts.toNat + 1

/-- Steps from the completion of a node on. -/
def completionCost (g : CompiledGraph) (n : String) : Nat :=
  2 * (consumedKeys g n).length + 2 * (g.successors n).length + 2

/-- Steps of a retry loop that is about to make its next attempt. -/
def loopCost (g : CompiledGraph) (n : String) (loop : RetryLoop) : Nat :=
  completionCost g n + policyCost loop.rest + 5 * (loop.policy.attempts.toNat + 1 - loop.attempt) + 4

/-- Steps after `dispatchNode` has returned. -/
def returnCost (g : CompiledGraph) (n : String) : Option RetryLoop → Nat
  | none => completionCost g n + policyCost (retryPolicies g n) + 4
  | some loop => loopCost g n { loop with attempt := loop.attempt + 1 } + 1

/-- A bound on the steps a goroutine has left. -/
def weight (g : CompiledGraph) (n : String) : Pc D → Nat
  | .start => returnCost g n none + 4
  | .dispatching retry => returnCost g n retry + 3
  | .executing retry _ => returnCost g n retry + 2
  | .storing retry _ _ => returnCost g n retry + 1
  | .returned retry _ => returnCost g n retry
  | .retrying loop => loopCost g n loop
  | .failing _ => 2
  | .cancelling => 1
  | .completing _ keys => 2 * keys.length + 2 * (g.successors n).length + 2
  | .evicting _ _ keys => 2 * keys.length + 2 * (g.successors n).length + 3
  | .following _ ts => 2 * ts.length + 1
  | .arriving _ _ ts => 2 * ts.length + 2
  | .finished => 0

private theorem length_targets_le (g : CompiledGraph) (n o : String) :
    (g.targets n o).length ≤ (g.successors n).length := by
  rw [CompiledGraph.targets]
  cases hl : (g.outputs n).lookup o with
  | none => simp [AList.getD, hl]
  | some ts =>
    rw [AList.getD_of_lookup hl, CompiledGraph.successors, List.flatMap_def]
    have hmem : ts ∈ (g.outputs n).toPairs.map Prod.snd := List.mem_map.2 ⟨(o, ts), AList.mem_toPairs.2 hl, rfl⟩
    exact (List.sublist_flatten_of_mem hmem).length_le

private theorem weight_nextRetry {policy : RetryConfig} {rest : List RetryConfig} :
    loopCost g n ⟨policy, 1, rest⟩ = completionCost g n + policyCost (policy :: rest) + 3 := by
  simp only [loopCost, policyCost]
  omega

/-- Every move of a goroutine uses up a step. -/
theorem Move.weight_lt (hm : Move g reg s n pc pc' eff) : weight g n pc' < weight g n pc := by
  cases hm with
  | leave | absent => exact Nat.succ_pos _
  | begin => exact Nat.lt_succ_self _
  | reject => simp only [weight]; omega
  | register | ret | store => exact Nat.lt_succ_self _
  | broken retry res e => cases retry <;> simp only [weight, returnCost, loopCost, completionCost] <;> omega
  | firstRetry policy rest hp =>
    simp only [weight, returnCost, hp]
    rw [weight_nextRetry]
    omega
  | again loop => exact Nat.lt_succ_self _
  | settle retry o ho => cases retry <;> simp only [weight, returnCost, loopCost, completionCost] <;> omega
  | attempt loop hle =>
    simp only [weight, returnCost, loopCost]
    omega
  | nextRetry loop policy rest hp =>
    simp only [weight]
    rw [weight_nextRetry, loopCost, hp]
    omega
  | giveUp loop =>
    simp only [weight, loopCost, completionCost]
    omega
  | fail | cancel | done | outOfRange => simp only [weight]; omega
  | follow o =>
    have := length_targets_le g n o
    simp only [weight, List.length_nil]
    omega
  | untracked | release | lastRelease | evict | repeated | arrive | count =>
    simp only [weight, List.length_cons]
    omega

/-! ### The measure of a run -/

def RunState.names (s : RunState D) : List String := s.goroutines.map Prod.fst

/-- The cost of the nodes that are not dispatched yet. -/
def unstartedCost (g : CompiledGraph) (names : List String) : Nat :=
  ((g.nodes.keys.filter (· ∉ names)).map fun n => weight g n (.start : Pc Unit) + 1).sum

/-- The steps a run has left at most. -/
def runMeasure (g : CompiledGraph) (s : RunState D) : Nat :=
  unstartedCost g s.names + (s.goroutines.map fun p => weight g p.1 p.2).sum +
    (if s.ctxErr = none then 1 else 0) + (if s.result = none then 1 else 0)

private theorem sum_filter_notMem (f : String → Nat) {names keys : List String} (hnd : keys.Nodup) (ht : t ∈ keys)
    (hnew : t ∉ names) : ((keys.filter (· ∉ names)).map f).sum =
      ((keys.filter (· ∉ names ++ [t])).map f).sum + f t := by
  induction keys with
  | nil => cases ht
  | cons k keys ih =>
    obtain ⟨hk, hnd⟩ := List.nodup_cons.1 hnd
    by_cases hkt : k = t
    · subst hkt
      have hsame : keys.filter (· ∉ names ++ [k]) = keys.filter (· ∉ names) := by
        refine List.filter_congr fun x hx => ?_
        have hxk : x ≠ k := fun h => hk (h ▸ hx)
        simp [hxk]
      rw [List.filter_cons_of_pos (by simpa using hnew), List.filter_cons_of_neg (by simp), hsame, List.map_cons,
        List.sum_cons, Nat.add_comm]
    · have ih := ih hnd (List.mem_of_ne_of_mem (Ne.symm hkt) ht)
      by_cases hkn : k ∈ names
      · rw [List.filter_cons_of_neg (by simpa using hkn), List.filter_cons_of_neg (by simp [hkn]), ih]
      · rw [List.filter_cons_of_pos (by simpa using hkn), List.filter_cons_of_pos (by simp [hkn, hkt]), List.map_cons,
          List.map_cons, List.sum_cons, List.sum_cons, ih]
        omega

private theorem sum_map_set {α : Type} (f : α → Nat) {l : List α} {i : Nat} {a b : α} (h : l[i]? = some a) :
    ((l.set i b).map f).sum + f a = (l.map f).sum + f b := by
  induction l generalizing i with
  | nil => cases h
  | cons x l ih =>
    cases i with
    | zero =>
      rw [List.getElem?_cons_zero, Option.some.injEq] at h
      subst h
      simp only [List.set_cons_zero, List.map_cons, List.sum_cons]
      omega
    | succ i =>
      have := ih (i := i) h
      simp only [List.set_cons_succ, List.map_cons, List.sum_cons]
      omega

/-- The dispatch of a new node costs a step. -/
private theorem measure_dispatch (ht : t ∈ g.nodes) (hnew : t ∉ s.names) :
    runMeasure g (s.dispatch t) < runMeasure g s := by
  have hcost := sum_filter_notMem (fun n => weight g n (.start : Pc Unit) + 1) g.nodes.keys_nodup (AList.mem_keys.1 ht)
    hnew
  have hnames : (s.dispatch t).names = s.names ++ [t] := by simp [RunState.names, RunState.dispatch]
  have hsum : ((s.dispatch t).goroutines.map fun p => weight g p.1 p.2).sum =
      (s.goroutines.map fun p => weight g p.1 p.2).sum + weight g t (.start : Pc D) := by
    simp [RunState.dispatch]
  have hstart : weight g t (.start : Pc Unit) = weight g t (.start : Pc D) := rfl
  have hctx : (s.dispatch t).ctxErr = s.ctxErr := rfl
  have hres : (s.dispatch t).result = s.result := rfl
  rw [runMeasure, runMeasure, hnames, hsum, hctx, hres, unstartedCost, unstartedCost]
  omega

private theorem perform_ctxErr (h : s.ctxErr ≠ none) : (s.perform g n eff).ctxErr ≠ none := by
  cases eff with
  | count t => simp only [RunState.perform]; split <;> exact h
  | cancel =>
    obtain ⟨e, he⟩ := Option.ne_none_iff_exists'.1 h
    simp [RunState.perform, he]
  | _ => exact h

private theorem perform_result : (s.perform g n eff).result = s.result := by
  cases eff with
  | count t => simp only [RunState.perform]; split <;> rfl
  | _ => rfl

private theorem measure_move (hi : s.goroutines[i]? = some (n, pc)) (hm : Move g reg s n pc pc' eff)
    (hinv : Inv g (RunState.perform g { s with goroutines := s.goroutines.set i (n, pc') } n eff)) :
    runMeasure g (RunState.perform g { s with goroutines := s.goroutines.set i (n, pc') } n eff) < runMeasure g s := by
  have hlt := hm.weight_lt
  have hsum := sum_map_set (fun p : String × Pc D => weight g p.1 p.2) (b := (n, pc')) hi
  dsimp only at hsum
  have hnames : (s.goroutines.set i (n, pc')).map Prod.fst = _ := map_fst_set hi
  by_cases hcount : ∃ t, eff = .count t
  · obtain ⟨t, rfl⟩ := hcount
    have hset : runMeasure g { s with goroutines := s.goroutines.set i (n, pc') } < runMeasure g s := by
      simp only [runMeasure, RunState.names, hnames]
      omega
    simp only [RunState.perform] at hinv ⊢
    split
    · rename_i heq
      rw [if_pos heq] at hinv
      have ha := hinv.goroutines.lawful.1
      have hmem := hinv.goroutines.nodup
      simp only [RunState.dispatch, List.map_append, List.map_cons, List.map_nil] at hmem
      have hnew : t ∉ (s.goroutines.set i (n, pc')).map Prod.fst :=
        fun h => (List.nodup_append.1 hmem).2.2 t h t (List.mem_singleton_self t) rfl
      exact lt_trans (measure_dispatch ha.1 hnew) hset
    · exact hset
  · replace hcount : ∀ t, eff ≠ .count t := fun t ht => hcount ⟨t, ht⟩
    simp only [runMeasure, RunState.names, perform_goroutines hcount, hnames, perform_result]
    have hctx : (if (RunState.perform g { s with goroutines := s.goroutines.set i (n, pc') } n eff).ctxErr = none
        then 1 else 0) ≤ if s.ctxErr = none then 1 else 0 := by
      by_cases hc : s.ctxErr = none
      · simp only [hc, ↓reduceIte]
        split <;> omega
      · rw [if_neg (perform_ctxErr (g := g) (s := { s with goroutines := s.goroutines.set i (n, pc') }) hc)]
        omega
    omega

private theorem measure_step (hg : Compiled g) (h : Inv g s) {a : Action D} (ha : step g reg s a = some s') :
    runMeasure g s' < runMeasure g s := by
  obtain ⟨hres, -, hs⟩ := step_cases ha
  have hinv := inv_step hg h hs
  cases hs with
  | startEntry t ts hts =>
    obtain ⟨hent, hnot⟩ := h.entries.entry t (hts ▸ List.mem_cons_self ..)
    exact measure_dispatch (s := { s with toStart := ts }) (hg.entry_iff.1 hent).1 fun hmem =>
      hnot ((h.goroutines.mem_iff t).1 hmem)
  | move i n pc pc' eff hi hm => exact measure_move hi hm hinv
  | ctxEnd e hc =>
    simp only [runMeasure, RunState.names, hc, reduceCtorEq, ↓reduceIte]
    omega
  | finish inherited hw =>
    simp only [runMeasure, RunState.names, hres, reduceCtorEq, ↓reduceIte]
    omega

/-! ### Progress -/

/-- A goroutine that has not returned can make a step. -/
private theorem exists_localStep (g : CompiledGraph) (reg : Registries D) (s : RunState D) (n : String)
    (h : pc.isFinished = false) :
    ∃ c r, localStep g reg s n pc c = some r := by
  cases pc with
  | start =>
    refine ⟨.go, ?_⟩
    simp only [localStep]
    split
    · exact ⟨_, rfl⟩
    · split <;> exact ⟨_, rfl⟩
  | dispatching retry =>
    refine ⟨.go, ?_⟩
    simp only [localStep]
    split <;> exact ⟨_, rfl⟩
  | executing retry services => exact ⟨.execute (.panic ""), _, rfl⟩
  | storing | returned | failing | cancelling | evicting | arriving => exact ⟨.go, _, rfl⟩
  | retrying loop =>
    refine ⟨.go, ?_⟩
    simp only [localStep]
    split <;> exact ⟨_, rfl⟩
  | completing o keys =>
    refine ⟨.go, ?_⟩
    cases keys with
    | nil => exact ⟨_, rfl⟩
    | cons key keys =>
      simp only [localStep]
      split <;> exact ⟨_, rfl⟩
  | following o ts =>
    refine ⟨.go, ?_⟩
    cases ts with
    | nil => exact ⟨_, rfl⟩
    | cons t ts =>
      simp only [localStep]
      split <;> exact ⟨_, rfl⟩
  | finished => cases h

/-- A run that has no result yet can go on, without the end of the context. -/
theorem progress (h : Inv g s) (hres : s.result = none) :
    ∃ a s', (∀ e, a ≠ .ctxEnd e) ∧ step g reg s a = some s' := by
  have hrun : ¬(s.result ≠ none ∨ s.panicked = true) := by simp [hres, h.calm]
  cases hts : s.toStart with
  | cons t ts => exact ⟨.startEntry, RunState.dispatch { s with toStart := ts } t, nofun, by simp [step, hrun, hts]⟩
  | nil =>
    by_cases hw : s.waited = true
    · exact ⟨.finish none, { s with result := some (runResult g s none) }, nofun, by simp [step, hrun, hw]⟩
    · simp only [RunState.waited, hts, List.isEmpty_nil, Bool.true_and, List.all_eq_true, not_forall] at hw
      obtain ⟨⟨n, pc⟩, hmem, hpc⟩ := hw
      obtain ⟨i, hi⟩ := List.mem_iff_getElem?.1 hmem
      obtain ⟨c, ⟨pc', eff⟩, hc⟩ := exists_localStep g reg s n (Bool.eq_false_iff.2 hpc)
      refine ⟨.advance i c, RunState.perform g { s with goroutines := s.goroutines.set i (n, pc') } n eff, nofun, ?_⟩
      simp [step, hrun, hi, hc]

/-! ### Results -/

/-- A run has a result only when all goroutines have returned. -/
def ResultOk (g : CompiledGraph) (s : RunState D) : Prop :=
  ∀ res, s.result = some res → s.waited = true ∧
    ((g.entryNodes = [] ∧ s.log = [] ∧ res = some (.noEntryNodes g.workflowID)) ∨
      (g.entryNodes ≠ [] ∧ ∃ inherited, res = runResult g s inherited))

private theorem resultOk_step {a : Action D} (h : g.entryNodes ≠ []) (ha : step g reg s a = some s') :
    ResultOk g s' := by
  obtain ⟨hres, -, hs⟩ := step_cases ha
  intro res hr
  cases hs with
  | startEntry t ts hts => exact absurd (hres.symm.trans hr) nofun
  | move i n pc pc' eff hi hm =>
    rw [perform_result] at hr
    exact absurd (hres.symm.trans hr) nofun
  | ctxEnd e hc => exact absurd (hres.symm.trans hr) nofun
  | finish inherited hw =>
    cases hr
    exact ⟨hw, .inr ⟨h, inherited, rfl⟩⟩

theorem resultOk_of_reachable {retain : Bool} (h : Transition.Reachable (step g reg) (initial g retain) s) :
    ResultOk g s := by
  by_cases hent : g.entryNodes = []
  · obtain ⟨as, has⟩ := h
    cases as with
    | nil =>
      cases has
      intro res hr
      simp only [initial, hent, ↓reduceIte, Option.some.injEq] at hr
      exact ⟨by simp [initial, RunState.waited, hent], .inl ⟨hent, rfl, hr.symm⟩⟩
    | cons a as =>
      obtain ⟨s', ha, -⟩ := Transition.run_cons.1 has
      have hres := (step_cases ha).1
      simp [initial, hent] at hres
  · refine h.invariant (P := ResultOk g) (fun res hr => ?_) fun s a s' _ ha => resultOk_step hent ha
    simp [initial, hent] at hr

theorem waited_iff : s.waited = true ↔ s.toStart = [] ∧ ∀ p ∈ s.goroutines, p.2 = .finished := by
  have hfin : ∀ pc : Pc D, pc.isFinished = true ↔ pc = .finished := by
    intro pc
    cases pc <;> simp [Pc.isFinished]
  simp [RunState.waited, hfin]

/-- When all goroutines have returned, no arrival is left uncounted. -/
theorem arriving_eq_zero (hw : s.waited = true) (t : String) : s.arriving t = 0 := by
  refine List.countP_eq_zero.2 fun p hp => ?_
  rw [(waited_iff.1 hw).2 p hp]
  simp [Pc.isArriving]

/-! ### Scheduling -/

/-- The nodes dispatched in a run, the last one first. -/
def dispatches (log : List (Event D)) : List String :=
  log.filterMap fun
    | .dispatched n => some n
    | _ => none

theorem mem_dispatches {log : List (Event D)} : n ∈ dispatches log ↔ .dispatched n ∈ log := by
  rw [dispatches, List.mem_filterMap]
  constructor
  · rintro ⟨e, he, hn⟩
    cases e with
    | dispatched m =>
      cases hn
      exact he
    | _ => cases hn
  · exact fun h => ⟨_, h, rfl⟩

theorem Lawful.nodup_dispatches {log : List (Event D)} (h : Lawful g log) : (dispatches log).Nodup := by
  induction log with
  | nil => exact List.nodup_nil
  | cons e log ih =>
    cases e with
    | dispatched n =>
      exact List.nodup_cons.2 ⟨fun hn => h.1.2.1 (mem_dispatches.1 hn), ih h.2⟩
    | _ => exact ih h.2

/-- Exactly-once scheduling, in one state of a run. -/
structure ExactlyOnce (g : CompiledGraph) (s : RunState D) : Prop where
  at_most_once : (dispatches s.log).Nodup
  bounded : (dispatches s.log).length ≤ g.nodes.keys.length
  /-- at the end every entry node has been dispatched -/
  entry : s.result ≠ none → ∀ n ∈ g.entryNodes, n ∈ dispatches s.log
  /-- another node has been dispatched when all its groups have an arrival, and all arrivals at it are counted -/
  join_iff : ∀ n ∈ g.nodes, n ∉ g.entryNodes →
    (n ∈ dispatches s.log ↔ s.arriving n = 0 ∧ ∀ i < g.groupCount n,
      ∃ m o, g.groupOf n m = some i ∧ .completed m o ∈ s.log ∧ .arrival m o n ∈ s.log)
  counted : s.result ≠ none → ∀ n, s.arriving n = 0
  /-- edges are followed along one output, the final one -/
  one_output : ∀ n o t, .arrival n o t ∈ s.log →
    .completed n o ∈ s.log ∧ (∀ o', .completed n o' ∈ s.log → o' = o) ∧ ∀ o' t', .arrival n o' t' ∈ s.log → o' = o
  in_range : ∀ n o t ts, (n, .following o (t :: ts)) ∈ s.goroutines →
    ∃ i, g.groupOf t n = some i ∧ i < (s.groupSeen t).length
  calm : s.panicked = false

theorem dispatched_iff_arrived (hg : Compiled g) (h : Inv g s) (hn : n ∈ g.nodes) (hne : n ∉ g.entryNodes) :
    .dispatched n ∈ s.log ↔ s.arriving n = 0 ∧ ∀ i < g.groupCount n,
      ∃ m o, g.groupOf n m = some i ∧ .completed m o ∈ s.log ∧ .arrival m o n ∈ s.log := by
  have hsrc : g.sources n ≠ [] := fun hs => hne (hg.entry_iff.2 ⟨hn, hs⟩)
  have hadd := h.joins.arrived_add n
  have hlen := h.joins.seen_length n
  have hle := List.count_le_length (a := true) (l := s.groupSeen n)
  rw [h.joins.dispatched_iff n hsrc]
  constructor
  · intro heq
    refine ⟨by omega, fun i hi => ?_⟩
    obtain ⟨m, o, hm, hgr⟩ := h.joins.all_arrived (by omega) hi
    exact ⟨m, o, hgr, (h.goroutines.lawful.completed_of_arrival hm).1, hm⟩
  · rintro ⟨h0, hall⟩
    have htrue : ∀ b ∈ s.groupSeen n, true = b := by
      intro b hb
      obtain ⟨i, hi, rfl⟩ := List.mem_iff_getElem.1 hb
      obtain ⟨m, o, hgr, -, hm⟩ := hall i (hlen ▸ hi)
      have := (h.joins.seen_iff n i).2 ⟨m, o, hm, hgr⟩
      rw [List.getElem?_eq_getElem hi, Option.some.injEq] at this
      exact this.symm
    have := List.count_eq_length.2 htrue
    omega

private theorem exactlyOnce_of_inv (hg : Compiled g) (h : Inv g s) (hres : ResultOk g s) : ExactlyOnce g s := by
  have hlaw := h.goroutines.lawful
  have hwait : s.result ≠ none → s.waited = true := by
    intro hr
    obtain ⟨res, hr⟩ := Option.ne_none_iff_exists'.1 hr
    exact (hres res hr).1
  refine ⟨hlaw.nodup_dispatches, ?_, fun hr n hn => ?_, fun n hn hne => ?_, fun hr => arriving_eq_zero (hwait hr),
    fun n o t ht => ?_, fun n o t ts hmem => ?_, h.calm⟩
  · refine (List.subperm_of_subset hlaw.nodup_dispatches fun n hn => ?_).length_le
    exact AList.mem_keys.1 (hlaw.dispatched_mem (mem_dispatches.1 hn))
  · rcases h.entries.started n hn with hs | hs
    · rw [(waited_iff.1 (hwait hr)).1] at hs
      exact absurd hs List.not_mem_nil
    · exact mem_dispatches.2 hs
  · rw [mem_dispatches]
    exact dispatched_iff_arrived hg h hn hne
  · obtain ⟨hc, -⟩ := hlaw.completed_of_arrival ht
    refine ⟨hc, fun o' ho' => hlaw.completed_unique ho' hc, fun o' t' ht' => ?_⟩
    exact hlaw.completed_unique (hlaw.completed_of_arrival ht').1 hc
  · obtain ⟨-, -, hf⟩ := h.goroutines.localOk n _ hmem
    obtain ⟨i, hi, hlt⟩ := hg.group_lt (hg.mem_sources.2 ⟨o, hf.edge t (List.mem_cons_self ..)⟩)
    exact ⟨i, hi, by rwa [h.joins.seen_length]⟩

/-- Every run of a compiled graph dispatches its nodes exactly once, is bounded in length, and can go on until it has a
result. -/
theorem scheduled_exactly_once {wf : WorkflowConfig} {resolver : Option NodeOutputResolver} {g : CompiledGraph}
    (hcompile : compile wf resolver = .ok g) (reg : Registries D) (retain : Bool) {as : List (Action D)}
    {s : RunState D}
    (hrun : Transition.run (step g reg) (initial g retain) as = some s) :
    ExactlyOnce g s ∧ as.length ≤ runMeasure g (initial (D := D) g retain) ∧
      (s.result = none → ∃ a s', (∀ e, a ≠ .ctxEnd e) ∧ step g reg s a = some s') := by
  have hg := compile_compiled hcompile
  have hinv := inv_of_reachable hg ⟨as, hrun⟩
  refine ⟨exactlyOnce_of_inv hg hinv (resultOk_of_reachable ⟨as, hrun⟩), ?_, progress hinv⟩
  have hlen := Transition.run_length_le (P := Inv g) (runMeasure g)
    (fun s a s' hs ha => inv_step hg hs (step_cases ha).2.2) (fun s a s' hs ha => measure_step hg hs ha)
    (inv_initial hg retain) hrun
  omega

/-! ### A run with a retry

The nodes of the sample runs have any type, and their data is trivial. -/

def anyType : Registries Unit := ⟨fun _ => true, ∅⟩

/-- `k` steps of the goroutine `i` in which the environment has nothing to decide. -/
def goes (i k : Nat) : List (Action Unit) := List.replicate k (.advance i .go)

/-- The executor of goroutine `i` fires an output. -/
def fires (i : Nat) (o : String) : List (Action Unit) := [.advance i (.execute (.ok o ()))]

/-- Two equal edges to `b`, and an error edge with a retry. -/
def retryWorkflow : WorkflowConfig where
  id := "retry"
  nodes := GoMap.ofPairs [("a", { type := "http.call" }), ("b", { type := "log" }), ("c", { type := "log" })]
  edges := [⟨"a", "b", "", none⟩, ⟨"a", "b", "", none⟩, ⟨"a", "c", "error", some ⟨1, "", "1s"⟩⟩]

/-- `a` fails, is retried and fires `"success"`; then `b` runs. -/
def retryRun : List (Action Unit) :=
  [.startEntry] ++ goes 0 2 ++ [.advance 0 (.execute (.fail ⟨"TIMEOUT", "timed out"⟩))] ++ goes 0 4 ++ fires 0 "" ++
    goes 0 7 ++ goes 1 2 ++ fires 1 "" ++ goes 1 5 ++ [.finish none]

theorem scheduled_exactly_once_retry : ∃ g s, compile retryWorkflow none = .ok g ∧
    Transition.run (step g anyType) (initial g false) retryRun = some s ∧ s.result = some none ∧ ExactlyOnce g s := by
  obtain ⟨g, hg, hp⟩ := exists_compile retryWorkflow none
    (p := fun g => (Transition.run (step g anyType) (initial g false) retryRun).any
      fun s : RunState Unit => decide (s.result = some none)) (by decide +kernel)
  obtain ⟨s, hs, hr⟩ := Transition.exists_run _ _ _ hp
  exact ⟨g, s, hg, hs, of_decide_eq_true hr, (scheduled_exactly_once hg anyType false hs).1⟩

end Noda.Engine
