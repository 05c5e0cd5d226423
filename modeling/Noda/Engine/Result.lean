import Noda.Engine.Scheduling

/-!
# The result of a run

`ExecuteGraph` infers its result after the fact from the first recorded error, the state of the context and the arrival
counters.  `CompleteRun` says what a complete run is in terms of its events.

* `result_truthful`: a run returns no error only if it was complete; it returns an error only if it was not, or the
  caller's context had ended, or the graph has no entry node.
-/

namespace Noda.Engine

variable {D : Type} {g : CompiledGraph} {reg : Registries D} {s s' : RunState D} {log : List (Event D)} {n o : String}

/-! ### Recorded errors -/

/-- The recorded errors agree with the log. -/
structure ErrorsOk (s : RunState D) : Prop where
  firstErr_iff : s.firstErr ≠ none ↔ ∃ n e, .failed n e ∈ s.log
  ctxErr_iff : s.ctxErr ≠ none ↔ (∃ e, .ctxEnded e ∈ s.log) ∨ ∃ n, .cancelled n ∈ s.log
  leftEarly : ∀ n, .leftEarly n ∈ s.log → s.ctxErr ≠ none

private theorem ErrorsOk.of_log (h : ErrorsOk s) (es : List (Event D)) (hf : s'.firstErr = s.firstErr)
    (hc : s'.ctxErr = s.ctxErr) (hlog : s'.log = es ++ s.log) (h1 : ∀ n e, .failed n e ∉ es)
    (h2 : ∀ e, .ctxEnded e ∉ es) (h3 : ∀ n, .cancelled n ∉ es) (h4 : ∀ n, .leftEarly n ∈ es → s.ctxErr ≠ none) :
    ErrorsOk s' := by
  refine ⟨?_, ?_, fun n hn => ?_⟩
  · rw [hf, h.firstErr_iff, hlog]
    simp [h1]
  · rw [hc, h.ctxErr_iff, hlog]
    simp [h2, h3]
  · rw [hc]
    rw [hlog, List.mem_append] at hn
    exact hn.elim (h4 n) (h.leftEarly n)

private theorem errorsOk_move {i : Nat} {pc pc' : Pc D} {eff : Effect D} (hm : Move g reg s n pc pc' eff)
    (h : ErrorsOk s) :
    ErrorsOk (RunState.perform g { s with goroutines := s.goroutines.set i (n, pc') } n eff) := by
  cases eff with
  | leave =>
    cases hm with
    | leave hc => exact h.of_log [.leftEarly n] rfl rfl rfl (by simp) (by simp) (by simp) fun _ _ => hc
  | fail e =>
    refine ⟨?_, ?_, fun m hm => ?_⟩
    · simp only [RunState.perform, List.mem_cons]
      exact ⟨fun _ => ⟨n, e, .inl rfl⟩, fun _ => by simp⟩
    · simpa [RunState.perform] using h.ctxErr_iff
    · simp only [RunState.perform, List.mem_cons, reduceCtorEq, false_or] at hm ⊢
      exact h.leftEarly m hm
  | cancel =>
    have hsome : s.ctxErr.or (some .canceled) ≠ none := by simp
    refine ⟨?_, ?_, fun m hm => hsome⟩
    · simpa [RunState.perform] using h.firstErr_iff
    · simp only [RunState.perform, List.mem_cons]
      exact ⟨fun _ => .inr ⟨n, .inl rfl⟩, fun _ => hsome⟩
  | count t =>
    simp only [RunState.perform]
    split
    · exact h.of_log [.dispatched t] rfl rfl rfl (by simp) (by simp) (by simp) (by simp)
    · exact h.of_log [] rfl rfl rfl (by simp) (by simp) (by simp) (by simp)
  | quiet | register | panic => exact h.of_log [] rfl rfl rfl (by simp) (by simp) (by simp) (by simp)
  | ret | store | complete | release | evict | arrive =>
    exact h.of_log [_] rfl rfl rfl (by simp) (by simp) (by simp) (by simp)

theorem errorsOk_of_reachable {retain : Bool} (h : Transition.Reachable (step g reg) (initial g retain) s) :
    ErrorsOk s := by
  refine h.invariant (P := ErrorsOk) ⟨by simp [initial], by simp [initial], by simp [initial]⟩ fun s a s' hs ha => ?_
  obtain ⟨-, -, hc⟩ := step_cases ha
  cases hc with
  | startEntry t ts hts =>
    exact hs.of_log [.dispatched t] rfl rfl rfl (by simp) (by simp) (by simp) (by simp)
  | move i n pc pc' eff hi hm => exact errorsOk_move hm hs
  | ctxEnd e hc =>
    refine ⟨by simpa using hs.firstErr_iff, ?_, fun n hn => by simp⟩
    exact ⟨fun _ => .inl ⟨e, List.mem_cons_self ..⟩, fun _ => by simp⟩
  | finish inherited hw => exact hs.of_log [] rfl rfl rfl (by simp) (by simp) (by simp) (by simp)

/-! ### Complete runs -/

/-- The node either received no arrival or was executed. -/
def Fed (log : List (Event D)) (t : String) : Prop :=
  (∀ m o, .arrival m o t ∉ log) ∨ ∃ services r, .executed t services r ∈ log

/-- The run did all its work. -/
structure CompleteRun (g : CompiledGraph) (log : List (Event D)) : Prop where
  /-- every dispatched node ran to completion -/
  ran : ∀ n, .dispatched n ∈ log → Completed log n ∧ .leftEarly n ∉ log
  /-- no node ended on the error output without an error edge -/
  errors : ∀ n r, .stored n r ∈ log → outcome (g.node n) r = some "error" → g.targets n "error" ≠ []
  /-- every edge of every finally fired output was followed -/
  followed : ∀ n o t, .completed n o ∈ log → t ∈ g.targets n o → .arrival n o t ∈ log
  /-- a join either received no arrival or was executed -/
  joins : ∀ t ∈ g.nodes, 1 < g.groupCount t → Fed log t

private theorem Lawful.stored_error (h : Lawful g log) {r r' : ExecResult D} (hr : .stored n r ∈ log)
    (hr' : .stored n r' ∈ log) (ho : outcome (g.node n) r = some "error") (ho' : outcome (g.node n) r' ≠ some "error") :
    g.targets n "error" ≠ [] := by
  induction log with
  | nil => cases hr
  | cons e log ih =>
    rcases List.mem_cons.1 hr with rfl | hl <;> rcases List.mem_cons.1 hr' with he | hl'
    · cases he
      exact absurd ho ho'
    · exact absurd (h.1.2.1 _ hl').1 ho'
    · subst he
      exact targets_of_retryPolicies (h.1.2.1 _ hl).2
    · exact ih h.2 hl hl'

private theorem Lawful.error_edge (h : Lawful g log) (hc : Completed log n) {r : ExecResult D}
    (hr : .stored n r ∈ log) (ho : outcome (g.node n) r = some "error") : g.targets n "error" ≠ [] := by
  obtain ⟨o, hco⟩ := hc
  obtain ⟨later, past, rfl, ⟨-, ⟨r', hr', ho'⟩, hne⟩, -⟩ := h.of_mem hco
  by_cases hoe : o = "error"
  · subst hoe
    exact hne rfl
  · have hr'' : Event.stored n r' ∈ later ++ .completed n o :: past := by simp [hr']
    refine Lawful.stored_error h hr hr'' ho ?_
    rw [ho']
    exact fun he => hoe (Option.some.inj he)

theorem Lawful.executed_of_completed (h : Lawful g log) (hc : Completed log n) :
    ∃ services r, .executed n services r ∈ log := by
  obtain ⟨o, hco⟩ := hc
  obtain ⟨later, past, rfl, ⟨-, ⟨r, hr, -⟩, -⟩, hp⟩ := h.of_mem hco
  obtain ⟨later', past', rfl, ⟨-, -, services, hx⟩, -⟩ := Transition.Justified.of_mem hp hr
  exact ⟨services, r, by simp [hx]⟩

private theorem unreached_or_dispatched (hg : Compiled g) (h : Inv g s) (hw : s.waited = true)
    (hst : starvedJoin g s = none) {t : String} (ht : t ∈ g.nodes) (hgt : 1 < g.groupCount t) :
    (∀ m o, .arrival m o t ∉ s.log) ∨ .dispatched t ∈ s.log := by
  have hkey : t ∈ sortStrings g.joinGroupCount.keys := mem_sortStrings.2 (hg.counted.2 ht)
  have hnot := List.find?_eq_none.1 hst t hkey
  simp only [decide_eq_true_eq, not_and, not_lt] at hnot
  have harriving := arriving_eq_zero hw t
  have hadd := h.joins.arrived_add t
  have hle := List.count_le_length (a := true) (l := s.groupSeen t)
  have hlen := h.joins.seen_length t
  by_cases h0 : s.arrived t = 0
  · left
    intro m o harr
    -- an arrival has set a flag, and all flags are counted
    have hsrc : m ∈ g.sources t := hg.mem_sources.2 ⟨o, (h.goroutines.lawful.completed_of_arrival harr).2⟩
    obtain ⟨i, hi, -⟩ := hg.group_lt hsrc
    have hseen := (h.joins.seen_iff t i).2 ⟨m, o, harr, hi⟩
    have hmem : true ∈ s.groupSeen t := List.mem_of_getElem? hseen
    have hpos := List.count_pos_iff.2 hmem
    omega
  · right
    have hge := hnot hgt (Nat.pos_of_ne_zero h0)
    exact (h.joins.dispatched_iff t (hg.sources_ne_nil ht (by omega))).2 (by omega)

theorem completeRun_of_waited (hg : Compiled g) (h : Inv g s) (he : ErrorsOk s) (hw : s.waited = true)
    (hf : s.firstErr = none) (hc : s.ctxErr = none) (hst : starvedJoin g s = none) : CompleteRun g s.log := by
  have hlaw := h.goroutines.lawful
  have hfin := (waited_iff.1 hw).2
  have hleft : ∀ n, .leftEarly n ∉ s.log := fun n hn => he.leftEarly n hn hc
  have hfailed : ∀ n e, .failed n e ∉ s.log := by
    intro n e hn
    exact he.firstErr_iff.2 ⟨n, e, hn⟩ hf
  have hdone : ∀ n, .dispatched n ∈ s.log → ∃ o, .completed n o ∈ s.log ∧ Following g s.log n o [] := by
    intro n hn
    obtain ⟨⟨m, pc⟩, hmem, rfl⟩ := List.mem_map.1 ((h.goroutines.mem_iff n).2 hn)
    have hloc := h.goroutines.localOk m pc hmem
    have hpc := hfin _ hmem
    dsimp only at hpc
    subst hpc
    rcases hloc with hl | ⟨e, hx, -⟩ | ⟨o, hc, -, hfo⟩
    · exact absurd hl (hleft m)
    · exact absurd hx (hfailed m e)
    · exact ⟨o, hc, hfo⟩
  have hcomp : ∀ n, .dispatched n ∈ s.log → Completed s.log n := fun n hn => (hdone n hn).imp fun o ho => ho.1
  refine ⟨fun n hn => ⟨hcomp n hn, hleft n⟩, fun n r hr ho => ?_, fun n o t hc ht => ?_, fun t ht hgt => ?_⟩
  · exact hlaw.error_edge (hcomp n (hlaw.dispatched_of_stored hr)) hr ho
  · obtain ⟨o', hc', hfo⟩ := hdone n (hlaw.dispatched_of_ends hc rfl)
    have hoo := hlaw.completed_unique hc hc'
    subst hoo
    exact (hfo.arrived t ht).resolve_left List.not_mem_nil
  · rcases unreached_or_dispatched hg h hw hst ht hgt with hnone | hd
    · exact .inl hnone
    · exact .inr (hlaw.executed_of_completed (hcomp t hd))

private theorem starvedJoin_eq_none (hg : Compiled g) (h : Inv g s)
    (hfed : ∀ t ∈ g.nodes, 1 < g.groupCount t → Fed s.log t) : starvedJoin g s = none := by
  rw [starvedJoin, List.find?_eq_none]
  intro t ht hp
  simp only [decide_eq_true_eq] at hp
  obtain ⟨hgt, hpos, hlt⟩ := hp
  have hnode := hg.counted.1 (mem_sortStrings.1 ht)
  have hsrc : g.sources t ≠ [] := hg.sources_ne_nil hnode (by omega)
  have hadd := h.joins.arrived_add t
  have htrue : true ∈ s.groupSeen t := List.count_pos_iff.1 (by omega)
  obtain ⟨i, hi⟩ := List.mem_iff_getElem?.1 htrue
  obtain ⟨m, o, harr, -⟩ := (h.joins.seen_iff t i).1 hi
  rcases hfed t hnode hgt with hnone | ⟨services, r, hx⟩
  · exact hnone m o harr
  · have := (h.joins.dispatched_iff t hsrc).1 (h.goroutines.lawful.dispatched_of_executed hx)
    omega

theorem runResult_eq_none (hg : Compiled g) (h : Inv g s) (he : ErrorsOk s) (hfail : ∀ n e, .failed n e ∉ s.log)
    (hctx : ∀ e, .ctxEnded e ∉ s.log) (hfed : ∀ t ∈ g.nodes, 1 < g.groupCount t → Fed s.log t)
    (inherited : Option Int) : runResult g s inherited = none := by
  have hf : s.firstErr = none := by
    by_contra hne
    obtain ⟨n, e, hn⟩ := he.firstErr_iff.1 hne
    exact hfail n e hn
  have hc : s.ctxErr = none := by
    by_contra hne
    rcases he.ctxErr_iff.1 hne with ⟨e, hx⟩ | ⟨n, hn⟩
    · exact hctx e hx
    · obtain ⟨later, past, hlog, ⟨e, hx⟩, -⟩ := h.goroutines.lawful.of_mem hn
      exact hfail n e (by simp [hlog, hx])
  simp [runResult, hf, hc, starvedJoin_eq_none hg h hfed]

private theorem CompleteRun.not_failed (hcr : CompleteRun g log) (h : Lawful g log) {e : WorkflowError D} :
    .failed n e ∉ log := by
  intro hn
  obtain ⟨⟨o, ho⟩, -⟩ := hcr.ran n (h.dispatched_of_ends hn rfl)
  exact absurd (h.ends_unique (n := n) hn ho rfl rfl) (by simp)

/-- The result of a run tells the truth about it. -/
theorem result_truthful {wf : WorkflowConfig} {resolver : Option NodeOutputResolver} {g : CompiledGraph}
    (hcompile : compile wf resolver = .ok g) (reg : Registries D) (retain : Bool) {s : RunState D}
    (hs : Transition.Reachable (step g reg) (initial g retain) s) {res : Option (WorkflowError D)}
    (hres : s.result = some res) :
    (res = none → CompleteRun g s.log) ∧
    (res ≠ none → g.entryNodes = [] ∨ ¬ CompleteRun g s.log ∨ ∃ e, .ctxEnded e ∈ s.log) := by
  have hg := compile_compiled hcompile
  have hinv := inv_of_reachable hg hs
  have herr := errorsOk_of_reachable hs
  obtain ⟨hw, ⟨hent, -, rfl⟩ | ⟨hent, inherited, rfl⟩⟩ := resultOk_of_reachable hs res hres
  · exact ⟨by simp, fun _ => .inl hent⟩
  · constructor
    · intro hnone
      simp only [runResult, Option.or_eq_none_iff, Option.map_eq_none_iff] at hnone
      exact completeRun_of_waited hg hinv herr hw hnone.1.1 hnone.1.2 hnone.2
    · intro hsome
      right
      by_contra hno
      rw [not_or, not_not, not_exists] at hno
      obtain ⟨hcr, hctx⟩ := hno
      exact hsome (runResult_eq_none hg hinv herr (fun n e => hcr.not_failed hinv.goroutines.lawful) hctx hcr.joins
        inherited)

theorem result_truthful_retry : ∃ g s, compile retryWorkflow none = .ok g ∧
    Transition.run (step g anyType) (initial g false) retryRun = some s ∧ s.result = some none ∧
    CompleteRun g s.log := by
  obtain ⟨g, hg, hp⟩ := exists_compile retryWorkflow none
    (p := fun g => (Transition.run (step g anyType) (initial g false) retryRun).any
      fun s : RunState Unit => decide (s.result = some none)) (by decide +kernel)
  obtain ⟨s, hs, hr⟩ := Transition.exists_run _ _ _ hp
  have hr := of_decide_eq_true hr
  exact ⟨g, s, hg, hs, hr, (result_truthful hg anyType false ⟨_, hs⟩ hr).1 rfl⟩

/-- `Compile` accepts a workflow without nodes; its run fails although nothing was left undone. -/
theorem result_without_nodes : ∃ (g : CompiledGraph) (s : RunState Unit),
    compile { id := "empty", nodes := ∅, edges := [] } none = .ok g ∧
    Transition.Reachable (step g anyType) (initial g false) s ∧ s.result = some (some (.noEntryNodes "empty")) ∧
    CompleteRun g s.log ∧ ∀ e, .ctxEnded e ∉ s.log := by
  obtain ⟨g, hg, hp⟩ := exists_compile { id := "empty", nodes := ∅, edges := [] } none
    (p := fun g => decide (g.entryNodes = []) && decide (g.workflowID = "empty")) (by decide +kernel)
  simp only [Bool.and_eq_true, decide_eq_true_eq] at hp
  obtain ⟨hent, hid⟩ := hp
  refine ⟨g, initial g false, hg, .refl _, by simp [initial, hent, hid], ⟨?_, ?_, ?_, ?_⟩, ?_⟩
  all_goals simp [initial, Fed]

end Noda.Engine
