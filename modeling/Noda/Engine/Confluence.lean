import Noda.Engine.Joins
import Noda.Engine.Result

/-!
# Schedules do not matter

A run of `ExecuteGraph` depends on the order in which the scheduler moves the goroutines.  What a run does is fixed by
the outputs its nodes finally fire: a run that agrees on these with a successful run does nothing that the successful
run does not do (`confined_of_agree`), and when it returns without a failed node it has done the same and is successful
too.

* `schedule_independent`: two runs of one compiled graph that agree on the fired outputs, the first of them successful.
-/

namespace Noda.Engine

variable {D : Type} {g : CompiledGraph} {reg : Registries D} {s s₁ s₂ : RunState D} {log log₁ log₂ : List (Event D)}
  {n t o : String}

/-- A node that completes in both runs fires the same output in both. -/
def Agree (log₁ log₂ : List (Event D)) : Prop :=
  ∀ n o o', .completed n o ∈ log₁ → .completed n o' ∈ log₂ → o = o'

/-- The first run does nothing that the second does not do. -/
structure Confined (log₁ log₂ : List (Event D)) : Prop where
  dispatched : ∀ n, .dispatched n ∈ log₁ → .dispatched n ∈ log₂
  executed : ∀ n services r, .executed n services r ∈ log₁ → ∃ services' r', .executed n services' r' ∈ log₂
  completed : ∀ n o, .completed n o ∈ log₁ → .completed n o ∈ log₂
  arrival : ∀ n o t, .arrival n o t ∈ log₁ → .arrival n o t ∈ log₂

/-- What a run that follows its edges does with a node: it completes, and its arrivals are delivered. -/
structure Thorough (g : CompiledGraph) (log : List (Event D)) : Prop where
  ran : ∀ n, .dispatched n ∈ log → Completed log n
  followed : ∀ n o t, .completed n o ∈ log → t ∈ g.targets n o → .arrival n o t ∈ log
  /-- a node with an arrival from each of its groups, and an entry node, is dispatched -/
  reached : ∀ n ∈ g.nodes, (∀ i < g.groupCount n, ∃ m o, .arrival m o n ∈ log ∧ g.groupOf n m = some i) →
    .dispatched n ∈ log

theorem Lawful.confined (h : Lawful g log) (h₁ : Lawful g log₁) (hth : Thorough g log₁) (hag : Agree log log₁) :
    Confined log log₁ := by
  induction log with
  | nil => exact ⟨by simp, by simp, by simp, by simp⟩
  | cons e log ih =>
    have hpast : Confined log log₁ := by
      refine ih h.2 fun n o o' ho ho' => hag n o o' (List.mem_cons_of_mem _ ho) ho'
    have hdispatched : ∀ n, .dispatched n ∈ e :: log → .dispatched n ∈ log₁ := by
      intro n hn
      rcases List.mem_cons.1 hn with rfl | hn
      · obtain ⟨hmem, -, harr⟩ := h.1
        refine hth.reached n hmem fun i hi => ?_
        obtain ⟨m, o, hm, hgr⟩ := harr i hi
        exact ⟨m, o, hpast.arrival m o n hm, hgr⟩
      · exact hpast.dispatched n hn
    -- only the newest event is to be found in the other log
    refine ⟨hdispatched, fun n services r hn => ?_, fun n o hn => ?_, fun n o t hn => ?_⟩
    · have hd := hdispatched n (h.dispatched_of_executed hn)
      exact h₁.executed_of_completed (hth.ran n hd)
    · rcases List.mem_cons.1 hn with rfl | hn
      · obtain ⟨⟨hd, -⟩, -, -⟩ := h.1
        obtain ⟨o', ho'⟩ := hth.ran n (hpast.dispatched n hd)
        have heq := hag n o o' (List.mem_cons_self ..) ho'
        exact heq ▸ ho'
      · exact hpast.completed n o hn
    · rcases List.mem_cons.1 hn with rfl | hn
      · obtain ⟨hc, ht⟩ := h.1
        exact hth.followed n o t (hpast.completed n o hc) ht
      · exact hpast.arrival n o t hn

/-- A run that has waited for its goroutines is thorough when no node has failed and the context has not ended. -/
private theorem thorough_of_waited (hg : Compiled g) (h : Inv g s) (he : ErrorsOk s) (hw : s.waited = true)
    (hfail : ∀ n e, .failed n e ∉ s.log) (hctx : s.ctxErr = none) : Thorough g s.log := by
  obtain ⟨hstart, hfin⟩ := waited_iff.1 hw
  have hlaw := h.goroutines.lawful
  have hdone : ∀ n, .dispatched n ∈ s.log → ∃ o, .completed n o ∈ s.log ∧ Following g s.log n o [] := by
    intro n hn
    obtain ⟨⟨m, pc⟩, hmem, rfl⟩ := List.mem_map.1 ((h.goroutines.mem_iff n).2 hn)
    have hloc := h.goroutines.localOk m pc hmem
    have hpc : pc = .finished := hfin _ hmem
    subst hpc
    rcases hloc with hl | ⟨e, hx, -⟩ | ⟨o, hc, -, hfo⟩
    · exact absurd hctx (he.leftEarly m hl)
    · exact absurd hx (hfail m e)
    · exact ⟨o, hc, hfo⟩
  refine ⟨fun n hn => (hdone n hn).imp fun o ho => ho.1, fun n o t hc ht => ?_, fun n hn hall => ?_⟩
  · obtain ⟨o', hc', hfo⟩ := hdone n (hlaw.dispatched_of_ends hc rfl)
    have hoo := hlaw.completed_unique hc hc'
    subst hoo
    exact (hfo.arrived t ht).resolve_left List.not_mem_nil
  · by_cases hent : n ∈ g.entryNodes
    · refine (h.entries.started n hent).resolve_left fun hs => ?_
      rw [hstart] at hs
      exact List.not_mem_nil hs
    · refine (dispatched_iff_arrived hg h hn hent).2 ⟨arriving_eq_zero hw n, fun i hi => ?_⟩
      obtain ⟨m, o, hm, hgr⟩ := hall i hi
      exact ⟨m, o, hgr, (hlaw.completed_of_arrival hm).1, hm⟩

/-- Only a failed node cancels the context, so without one it ends for the caller's reasons only. -/
private theorem ctxErr_eq_none (h : Inv g s) (he : ErrorsOk s) (hfail : ∀ n e, .failed n e ∉ s.log)
    (hctx : ∀ e, .ctxEnded e ∉ s.log) : s.ctxErr = none := by
  by_contra hne
  rcases he.ctxErr_iff.1 hne with ⟨e, hx⟩ | ⟨n, hn⟩
  · exact hctx e hx
  · obtain ⟨later, past, hlog, ⟨e, hx⟩, -⟩ := h.goroutines.lawful.of_mem hn
    exact hfail n e (by simp [hlog, hx])

private theorem thorough_of_success {retain : Bool} (hg : Compiled g)
    (hs : Transition.Reachable (step g reg) (initial g retain) s) (hres : s.result = some none) :
    Thorough g s.log := by
  have he := errorsOk_of_reachable hs
  obtain ⟨hw, ⟨-, -, hnone⟩ | ⟨-, inherited, hnone⟩⟩ := resultOk_of_reachable hs none hres
  · cases hnone
  · have hnone := hnone.symm
    simp only [runResult, Option.or_eq_none_iff, Option.map_eq_none_iff] at hnone
    refine thorough_of_waited hg (inv_of_reachable hg hs) he hw (fun n e hn => ?_) hnone.1.2
    exact he.firstErr_iff.2 ⟨n, e, hn⟩ hnone.1.1

/-- Logs that do the same dispatch the same nodes, in some order. -/
theorem Confined.perm (h₁ : Lawful g log₁) (h₂ : Lawful g log₂) (h : Confined log₁ log₂) (h' : Confined log₂ log₁) :
    (dispatches log₁).Perm (dispatches log₂) := by
  refine (List.perm_ext_iff_of_nodup h₁.nodup_dispatches h₂.nodup_dispatches).2 fun n => ?_
  rw [mem_dispatches, mem_dispatches]
  exact ⟨h.dispatched n, h'.dispatched n⟩

/-- No join of a run that does what a successful run does is starved. -/
theorem Confined.fed (h : Confined log₁ log₂) (h' : Confined log₂ log₁) (hfed : Fed log₁ t) : Fed log₂ t := by
  rcases hfed with hnone | ⟨services, r, hx⟩
  · exact .inl fun m o hm => hnone m o (h'.arrival m o t hm)
  · exact .inr (h.executed t services r hx)

/-- Take a successful run of a compiled graph and any other run of it, in any order of its goroutines, in which the
nodes that complete in both fire the same outputs.  The other run never does anything the first did not do, and when it
returns with no failed node and no end of the caller's context, it is successful and has done the same work. -/
theorem schedule_independent {wf : WorkflowConfig} {resolver : Option NodeOutputResolver} {g : CompiledGraph}
    (hcompile : compile wf resolver = .ok g) (reg₁ reg₂ : Registries D) (retain₁ retain₂ : Bool) {s₁ s₂ : RunState D}
    (hs₁ : Transition.Reachable (step g reg₁) (initial g retain₁) s₁)
    (hs₂ : Transition.Reachable (step g reg₂) (initial g retain₂) s₂) (hres : s₁.result = some none)
    (hagree : Agree s₂.log s₁.log) :
    Confined s₂.log s₁.log ∧
    (s₂.result ≠ none → (∀ n e, .failed n e ∉ s₂.log) → (∀ e, .ctxEnded e ∉ s₂.log) →
      s₂.result = some none ∧ Confined s₁.log s₂.log ∧ (dispatches s₁.log).Perm (dispatches s₂.log)) := by
  have hg := compile_compiled hcompile
  have hinv₁ := inv_of_reachable hg hs₁
  have hinv₂ := inv_of_reachable hg hs₂
  have hlaw₁ := hinv₁.goroutines.lawful
  have hlaw₂ := hinv₂.goroutines.lawful
  have hth₁ := thorough_of_success hg hs₁ hres
  have hconf := hlaw₂.confined hlaw₁ hth₁ hagree
  refine ⟨hconf, fun hr hfail hctx => ?_⟩
  have he₂ := errorsOk_of_reachable hs₂
  obtain ⟨res, hr⟩ := Option.ne_none_iff_exists'.1 hr
  obtain ⟨hw, hcase⟩ := resultOk_of_reachable hs₂ res hr
  have hth₂ := thorough_of_waited hg hinv₂ he₂ hw hfail (ctxErr_eq_none hinv₂ he₂ hfail hctx)
  have hconf' := hlaw₁.confined hlaw₂ hth₂ fun n o o' ho ho' => (hagree n o' o ho' ho).symm
  refine ⟨?_, hconf', hconf'.perm hlaw₁ hlaw₂ hconf⟩
  rw [hr]
  obtain ⟨hw₁, ⟨hent, -, hno⟩ | ⟨hent, inherited₁, hrun₁⟩⟩ := resultOk_of_reachable hs₁ none hres
  · cases hno
  · rcases hcase with ⟨hent₂, -⟩ | ⟨-, inherited, rfl⟩
    · exact absurd hent₂ hent
    · have hrun₁ := hrun₁.symm
      simp only [runResult, Option.or_eq_none_iff, Option.map_eq_none_iff] at hrun₁
      have hcomplete := completeRun_of_waited hg hinv₁ (errorsOk_of_reachable hs₁) hw₁ hrun₁.1.1 hrun₁.1.2 hrun₁.2
      refine congrArg some (runResult_eq_none hg hinv₂ he₂ hfail hctx (fun t ht hgt => ?_) inherited)
      exact hconf'.fed hconf (hcomplete.joins t ht hgt)

/-! ### Two schedules of a fork -/

/-- `a` forks into `b` and `c`, which meet in `d`. -/
def forkJoin : WorkflowConfig where
  id := "fork-join"
  nodes := GoMap.ofPairs [("a", { type := "util.log" }), ("b", { type := "util.log" }), ("c", { type := "util.log" }),
    ("d", { type := "util.log" })]
  edges := [⟨"a", "b", "", none⟩, ⟨"a", "c", "", none⟩, ⟨"b", "d", "", none⟩, ⟨"c", "d", "", none⟩]

/-- The goroutine `i` runs, with `k` steps after its executor has returned. -/
def wholeNode (i k : Nat) : List (Action Unit) := goes i 2 ++ fires i "" ++ goes i k

/-- `b` and `c` one after the other. -/
def inTurn : List (Action Unit) :=
  [.startEntry] ++ wholeNode 0 8 ++ wholeNode 1 7 ++ wholeNode 2 8 ++ wholeNode 3 8 ++ [.finish none]

/-- `c` runs while the executor of `b` is at work. -/
def overtaken : List (Action Unit) :=
  [.startEntry] ++ wholeNode 0 8 ++ goes 1 2 ++ wholeNode 2 7 ++ fires 1 "" ++ goes 1 8 ++ wholeNode 3 8 ++
    [.finish none]

/-- The nodes of the log fire `"success"` only, and the run is free of failures. -/
def allSucceed (log : List (Event Unit)) : Bool :=
  log.all fun
    | .completed _ o => o = "success"
    | .failed _ _ => false
    | .ctxEnded _ => false
    | _ => true

private theorem agree_of_allSucceed {log₁ log₂ : List (Event Unit)} (h₁ : allSucceed log₁ = true)
    (h₂ : allSucceed log₂ = true) : Agree log₁ log₂ := by
  intro n o o' ho ho'
  have h := of_decide_eq_true (List.all_eq_true.1 h₁ _ ho)
  have h' := of_decide_eq_true (List.all_eq_true.1 h₂ _ ho')
  exact h.trans h'.symm

theorem schedule_independent_fork : ∃ g s₁ s₂, compile forkJoin (some coreOutputs) = .ok g ∧
    Transition.run (step g anyType) (initial g false) inTurn = some s₁ ∧
    Transition.run (step g anyType) (initial g true) overtaken = some s₂ ∧ s₁.log ≠ s₂.log ∧
    s₂.result = some none ∧ (dispatches s₁.log).Perm (dispatches s₂.log) := by
  obtain ⟨g, hg, hp⟩ := exists_compile forkJoin (some coreOutputs)
    (p := fun g => (Transition.run (step g anyType) (initial g false) inTurn).any fun s₁ : RunState Unit =>
      (Transition.run (step g anyType) (initial g true) overtaken).any fun s₂ : RunState Unit =>
        decide (s₁.result = some none) && decide (s₂.result ≠ none) && decide (s₁.log ≠ s₂.log) &&
          allSucceed s₁.log && allSucceed s₂.log) (by decide +kernel)
  obtain ⟨s₁, hs₁, hp⟩ := Transition.exists_run _ _ _ hp
  obtain ⟨s₂, hs₂, hp⟩ := Transition.exists_run _ _ _ hp
  simp only [Bool.and_eq_true, decide_eq_true_eq] at hp
  obtain ⟨⟨⟨⟨hr₁, hr₂⟩, hne⟩, hall₁⟩, hall₂⟩ := hp
  have hind :=
    schedule_independent hg anyType anyType false true ⟨_, hs₁⟩ ⟨_, hs₂⟩ hr₁ (agree_of_allSucceed hall₂ hall₁)
  have hfail : ∀ n e, .failed n e ∉ s₂.log := fun n e hn => by cases List.all_eq_true.1 hall₂ _ hn
  have hctx : ∀ e, .ctxEnded e ∉ s₂.log := fun e hn => by cases List.all_eq_true.1 hall₂ _ hn
  obtain ⟨hres, -, hperm⟩ := hind.2 hr₂ hfail hctx
  exact ⟨g, s₁, s₂, hg, hs₁, hs₂, hne, hres, hperm⟩

end Noda.Engine
