import Noda.Engine.Exclusivity
import Noda.Engine.Result

/-!
# Sub-workflows

`runSubWorkflow` of `subworkflow.go` runs the graph of a sub-workflow and returns the pair its `workflow.output` node
has written; `workflow.run` (`plugins/core/workflow/run.go`) maps the name onto one of its two ports.

* `output_delivered`: if one `workflow.output` node runs, with a name other than `"error"`, and nothing else fails, its
  name and data reach the caller;
* `error_output_fails`: a name `"error"` does not: the executor takes it for a failure without an error edge;
* `output_not_delivered`: a starved join makes the run fail after the output was written.
-/

namespace Noda.Engine

variable {D : Type} {g : CompiledGraph} {reg : Registries D} {s s' : RunState D} {n m o name : String} {d : D}

/-- What `runSubWorkflow` returns when the run of the graph has ended: the error, or the workflow output. -/
def subResult (s : RunState D) : Option (Except (WorkflowError D) (String × Option D)) :=
  match s.result with
  | none => none
  | some (some e) => some (.error e)
  | some none => some (.ok s.exec.workflowOutput)

/-- `routeOutput`. -/
def routeOutput (outputName : String) : String := if outputName = "error" then "error" else "success"

/-- `RunExecutor.Execute` after the sub-workflow has returned; `nil` is Go's nil, `wrap` makes an executor's error of
the error of the run. -/
def runExecute (nil : D) (wrap : WorkflowError D → ExecError) : Except (WorkflowError D) (String × Option D) →
    ExecResult D
  | .error e => .fail (wrap e)
  | .ok (outputName, data) => .ok (routeOutput outputName) (data.getD nil)

/-! ### Every result is stored -/

/-- A result that is not stored yet is in the hands of its goroutine. -/
def StoredOk (s : RunState D) : Prop :=
  ∀ n services r, .executed n services r ∈ s.log →
    .stored n r ∈ s.log ∨ ∃ retry avail, (n, .storing retry r avail) ∈ s.goroutines

private theorem mem_set_of_ne {i : Nat} {pc pc' : Pc D} {x : String × Pc D} (hi : s.goroutines[i]? = some (n, pc))
    (hx : x ∈ s.goroutines) (hne : x ≠ (n, pc)) : x ∈ s.goroutines.set i (n, pc') := by
  obtain ⟨hlt, hget⟩ := List.getElem?_eq_some_iff.1 hi
  obtain ⟨j, hj, rfl⟩ := List.mem_iff_getElem.1 hx
  refine List.mem_iff_getElem.2 ⟨j, by simpa using hj, ?_⟩
  rw [List.getElem_set, if_neg]
  rintro rfl
  exact hne hget

private theorem storedOk_move (h : StoredOk s) {i : Nat} {pc pc' : Pc D} {eff : Effect D}
    (hi : s.goroutines[i]? = some (n, pc)) (hm : Move g reg s n pc pc' eff) :
    StoredOk (RunState.perform g { s with goroutines := s.goroutines.set i (n, pc') } n eff) := by
  -- the goroutine that moves has no result in its hands, except when it stores it
  have hkeep : ∀ {m r}, (.stored m r ∈ s.log ∨ ∃ retry avail, (m, Pc.storing retry r avail) ∈ s.goroutines) →
      (∀ retry avail, pc ≠ .storing retry r avail) →
      .stored m r ∈ s.log ∨ ∃ retry avail, (m, .storing retry r avail) ∈ s.goroutines.set i (n, pc') := by
    rintro m r (hs | ⟨retry, avail, hst⟩) hpc
    · exact .inl hs
    · refine .inr ⟨retry, avail, mem_set_of_ne hi hst ?_⟩
      intro he
      exact hpc retry avail (Prod.mk.inj he).2.symm
  cases hm with
  | ret retry services r avail =>
    rintro m services' r' hx
    rcases List.mem_cons.1 hx with hx | hx
    · cases hx
      exact .inr ⟨retry, avail, List.mem_set (List.getElem?_eq_some_iff.1 hi).1 _⟩
    · refine (hkeep (h m services' r' hx) (by simp)).imp_left ?_
      exact List.mem_cons_of_mem _
  | store retry r avail =>
    rintro m services' r' hx
    have hx' : .executed m services' r' ∈ s.log := by simpa [RunState.perform] using hx
    rcases h m services' r' hx' with hs | ⟨retry', avail', hst⟩
    · exact .inl (List.mem_cons_of_mem _ hs)
    · by_cases he : (m, Pc.storing retry' r' avail') = (n, .storing retry r avail)
      · cases he
        exact .inl (List.mem_cons_self ..)
      · exact .inr ⟨retry', avail', mem_set_of_ne hi hst he⟩
  | count o t ts =>
    rintro m services' r' hx
    simp only [RunState.perform] at hx ⊢
    split at hx
    · rename_i heq
      rw [if_pos heq]
      have hx' : .executed m services' r' ∈ s.log := by simpa [RunState.dispatch] using hx
      refine (hkeep (h m services' r' hx') (by simp)).imp (List.mem_cons_of_mem _) ?_
      rintro ⟨retry, avail, hst⟩
      exact ⟨retry, avail, List.mem_append_left _ hst⟩
    · rename_i hne
      rw [if_neg hne]
      exact hkeep (h m services' r' hx) (by simp)
  | leave | settle | giveUp | fail | cancel | release | lastRelease | evict | repeated | arrive =>
    rintro m services' r' hx
    have hx' : .executed m services' r' ∈ s.log := by simpa [RunState.perform] using hx
    exact (hkeep (h m services' r' hx') (by simp)).imp_left (List.mem_cons_of_mem _)
  | begin | absent | reject | register | broken | firstRetry | again | attempt | nextRetry | follow | untracked | done |
      outOfRange =>
    rintro m services' r' hx
    exact hkeep (h m services' r' hx) (by simp)

private theorem storedOk_of_reachable {retain : Bool} (h : Transition.Reachable (step g reg) (initial g retain) s) :
    StoredOk s := by
  refine h.invariant (P := StoredOk) (by simp [StoredOk, initial]) fun s a s' hs ha => ?_
  obtain ⟨-, -, hc⟩ := step_cases ha
  cases hc with
  | startEntry t ts hts =>
    rintro n services r hx
    have hx' : .executed n services r ∈ s.log := by simpa [RunState.dispatch] using hx
    refine (hs n services r hx').imp (List.mem_cons_of_mem _) ?_
    rintro ⟨retry, avail, hst⟩
    exact ⟨retry, avail, List.mem_append_left _ hst⟩
  | move i n pc pc' eff hi hm => exact storedOk_move hs hi hm
  | ctxEnd e hc =>
    rintro n services r hx
    have hx' : .executed n services r ∈ s.log := by simpa using hx
    exact (hs n services r hx').imp_left (List.mem_cons_of_mem _)
  | finish inherited hw => exact hs

/-- When the run has ended, every result has been stored. -/
theorem StoredOk.stored (h : StoredOk s) (hw : s.waited = true) {services : List (String × D)} {r : ExecResult D}
    (hx : .executed n services r ∈ s.log) : .stored n r ∈ s.log := by
  rcases h n services r hx with hs | ⟨retry, avail, hst⟩
  · exact hs
  · exact absurd ((waited_iff.1 hw).2 _ hst) (by simp)

/-! ### Delivery of the output -/

/-- Exactly one `workflow.output` node was executed in the run, with this name and data. -/
structure OneOutputRun (g : CompiledGraph) (log : List (Event D)) (n name : String) (d : D) : Prop where
  isOutput : (g.node n).type = "workflow.output"
  executed : ∃ services, .executed n services (.ok name d) ∈ log
  only : ∀ m services r, .executed m services r ∈ log → (g.node m).type = "workflow.output" → m = n

private theorem afterDispatch_ok (g : CompiledGraph) (exec : ExecutionContext D) (n : String) (retry : Option RetryLoop)
    (ho : o ≠ "error") : afterDispatch g exec n retry (.ok o) = settle g n o := by
  cases retry <;> simp [afterDispatch, ho]

private theorem outputNodeName_ne {node : CompiledNode} (h : outputNodeName node ≠ "") :
    node.type = "workflow.output" := by
  by_contra ht
  exact h (by rw [outputNodeName, if_neg ht])

/-- The one pair written is the one of the node that was executed. -/
private theorem OneOutputRun.workflowOutput (h : OneOutputRun g s.log n name d) (hlaw : Lawful g s.log)
    (hst : .stored n (.ok name d) ∈ s.log) (hname : name ≠ "error")
    (hout : s.exec.workflowOutput = lastWrite (writes g s.log)) : s.exec.workflowOutput = (name, some d) := by
  have honly : ∀ m r, .stored m r ∈ s.log → outputNodeName (g.node m) ≠ "" → m = n := by
    intro m r hm hne
    obtain ⟨services, r₀, hx, -⟩ := hlaw.executed_of_stored hm
    exact h.only m services r hx (outputNodeName_ne hne)
  have hn := (hlaw.named_of_stored hst h.isOutput).1
  have hle := hlaw.written_once (fun a b r r' ha hb hna hnb => (honly a r ha hna).trans (honly b r' hb hnb).symm)
    fun m r hm herr => by
      have hmn := honly m r hm (by rw [herr]; decide)
      subst hmn
      exact absurd (hn.symm.trans herr) hname
  have hmem : (name, d) ∈ writes g s.log := mem_writes.2 ⟨n, hst, h.isOutput⟩
  obtain ⟨p, hp⟩ := List.length_eq_one_iff.1 (Nat.le_antisymm hle (List.length_pos_of_mem hmem))
  rw [hp, List.mem_singleton] at hmem
  rw [hout, hp, ← hmem]
  rfl

/-- If exactly one `workflow.output` node runs, with a name other than `"error"`, no node fails, no join is starved and
the context does not end, then `runSubWorkflow` returns the name and the data, and a `workflow.run` node that called it
completes on the port of the name with the data. -/
theorem output_delivered {wf : WorkflowConfig} {resolver : Option NodeOutputResolver} {g : CompiledGraph}
    (hcompile : compile wf resolver = .ok g) (reg : Registries D) {s : RunState D}
    (hs : Transition.Reachable (step g reg) (initial g false) s) (hres : s.result ≠ none)
    (hone : OneOutputRun g s.log n name d) (hname : name ≠ "error") (hfail : ∀ m e, .failed m e ∉ s.log)
    (hfed : ∀ t ∈ g.nodes, 1 < g.groupCount t → Fed s.log t) (hctx : ∀ e, .ctxEnded e ∉ s.log) :
    subResult s = some (.ok (name, some d)) ∧
    ∀ (nil : D) (wrap : WorkflowError D → ExecError) (node : CompiledNode) (avail : List String)
      (c : ExecutionContext D), node.type = "workflow.run" → "success" ∈ node.outputs →
      conclude node avail (runExecute nil wrap (.ok (name, some d))) c =
        (c.setOutput node.id (.data d), .ok (routeOutput name)) ∧
      ∀ (g' : CompiledGraph) (exec : ExecutionContext D) (retry : Option RetryLoop),
        afterDispatch g' exec node.id retry (.ok (routeOutput name)) = settle g' node.id (routeOutput name) := by
  have hg := compile_compiled hcompile
  have hinv := inv_of_reachable hg hs
  have hlaw := hinv.goroutines.lawful
  obtain ⟨services, hx⟩ := hone.executed
  obtain ⟨res, hres⟩ := Option.ne_none_iff_exists'.1 hres
  have hroute : routeOutput name = "success" := by rw [routeOutput, if_neg hname]
  constructor
  · obtain ⟨hw, ⟨-, hlog, -⟩ | ⟨-, inherited, rfl⟩⟩ := resultOk_of_reachable hs res hres
    · rw [hlog] at hx
      exact absurd hx List.not_mem_nil
    · have hst := (storedOk_of_reachable hs).stored hw hx
      rw [runResult_eq_none hg hinv (errorsOk_of_reachable hs) hfail hctx hfed] at hres
      rw [subResult, hres]
      dsimp only
      rw [hone.workflowOutput hlaw hst hname (workflowOutput_eq hs)]
  · intro nil wrap node avail c ht hout
    refine ⟨?_, fun g' exec retry => afterDispatch_ok g' exec node.id retry (by rw [hroute]; decide)⟩
    simp [conclude, runExecute, hroute, ht, firedOutput, hout]

/-- A `workflow.output` node with the name `"error"` and no error edge makes the run fail. -/
theorem error_output_fails (hg : Compiled g) {retain : Bool}
    (hs : Transition.Reachable (step g reg) (initial g retain) s) (hn : (g.node n).type = "workflow.output")
    {services : List (String × D)} (hx : .executed n services (.ok "error" d) ∈ s.log)
    (hedge : g.targets n "error" = []) (hres : s.result ≠ none) : ∃ e, subResult s = some (.error e) := by
  have hinv := inv_of_reachable hg hs
  have herr := errorsOk_of_reachable hs
  obtain ⟨res, hres⟩ := Option.ne_none_iff_exists'.1 hres
  cases res with
  | some e => exact ⟨e, by rw [subResult, hres]⟩
  | none =>
    obtain ⟨hw, ⟨-, -, hno⟩ | ⟨-, inherited, hrun⟩⟩ := resultOk_of_reachable hs none hres
    · cases hno
    · have hrun := hrun.symm
      simp only [runResult, Option.or_eq_none_iff, Option.map_eq_none_iff] at hrun
      have hcr := completeRun_of_waited hg hinv herr hw hrun.1.1 hrun.1.2 hrun.2
      have hst := (storedOk_of_reachable hs).stored hw hx
      exact absurd hedge (hcr.errors n _ hst (by simp [outcome, hn]))

/-! ### Sample runs -/

/-- A step and an output. -/
def oneOutput : WorkflowConfig where
  id := "one-output"
  nodes := GoMap.ofPairs [("a", { type := "util.log" }), ("o", outputNode "done")]
  edges := [⟨"a", "o", "", none⟩]

def oneOutputActions : List (Action Unit) :=
  [.startEntry] ++ goes 0 2 ++ fires 0 "" ++ goes 0 6 ++ goes 1 2 ++ fires 1 "" ++ goes 1 6 ++ [.finish none]

/-- The executions in a log are without errors, and only `n` is a `workflow.output` node among them. -/
def cleanLog (g : CompiledGraph) (n : String) (log : List (Event Unit)) : Bool :=
  log.all fun
    | .executed m _ (.ok _ _) => (g.node m).type ≠ "workflow.output" ∨ m = n
    | .executed _ _ _ => false
    | .ctxEnded _ => false
    | _ => true

private theorem cleanLog_executed {log : List (Event Unit)} (h : cleanLog g n log = true)
    {services : List (String × Unit)}
    {r : ExecResult Unit} (hx : .executed m services r ∈ log) :
    (∃ o d, r = .ok o d) ∧ ((g.node m).type = "workflow.output" → m = n) := by
  have := List.all_eq_true.1 h _ hx
  cases r with
  | ok o d =>
    simp only [decide_eq_true_eq] at this
    exact ⟨⟨o, d, rfl⟩, fun ht => this.resolve_left (not_not.2 ht)⟩
  | fail e => cases this
  | panic e => cases this

private theorem cleanLog_ctxEnded {log : List (Event Unit)} (h : cleanLog g n log = true) (e : CtxError) :
    .ctxEnded e ∉ log := fun hx => Bool.false_ne_true (List.all_eq_true.1 h _ hx)

theorem output_delivered_done : ∃ g s, compile oneOutput (some coreOutputs) = .ok g ∧
    Transition.Reachable (step g anyType) (initial g false) s ∧ subResult s = some (.ok ("done", some ())) := by
  obtain ⟨g, hg, hp⟩ := exists_compile oneOutput (some coreOutputs)
    (p := fun g => decide ((g.node "o").type = "workflow.output") &&
      decide (∀ t ∈ g.nodes.keys, ¬ 1 < g.groupCount t) &&
      (Transition.run (step g anyType) (initial g false) oneOutputActions).any fun s : RunState Unit =>
        cleanLog g "o" s.log && decide (.executed "o" [] (.ok "done" ()) ∈ s.log) && s.result.isSome &&
        s.log.all fun | .failed _ _ => false | _ => true) (by decide +kernel)
  simp only [Bool.and_eq_true, decide_eq_true_eq] at hp
  obtain ⟨⟨ht, hcount⟩, hp⟩ := hp
  obtain ⟨s, hs, hr⟩ := Transition.exists_run _ _ _ hp
  simp only [Bool.and_eq_true, decide_eq_true_eq] at hr
  obtain ⟨⟨⟨hclean, hx⟩, hres⟩, hfail⟩ := hr
  have hdeliver := output_delivered hg anyType ⟨_, hs⟩ (Option.isSome_iff_ne_none.1 hres)
    ⟨ht, ⟨[], hx⟩, fun m services r hm => (cleanLog_executed hclean hm).2⟩ (by decide)
    (fun m e hm => Bool.false_ne_true (List.all_eq_true.1 hfail _ hm))
    (fun t hn hgt => absurd hgt (hcount t (AList.mem_keys.1 hn))) (cleanLog_ctxEnded hclean)
  exact ⟨g, s, hg, ⟨_, hs⟩, hdeliver.1⟩

/-- The output is on the branch that `j` waits for in vain. -/
def starvedOutput : WorkflowConfig where
  id := "starved-output"
  nodes := GoMap.ofPairs [("b", { type := "util.log" }), ("c", { type := "control.if" }), ("j", { type := "util.log" }),
    ("o", outputNode "done")]
  edges := [⟨"b", "j", "", none⟩, ⟨"c", "j", "then", none⟩, ⟨"c", "o", "else", none⟩]

def starvedOutputActions : List (Action Unit) :=
  [.startEntry, .startEntry] ++ goes 0 2 ++ fires 0 "" ++ goes 0 6 ++ goes 1 2 ++ fires 1 "else" ++ goes 1 6 ++
    goes 2 2 ++ fires 2 "" ++ goes 2 5 ++ [.finish none]

/-- One output was written and no executor returned an error, but the run fails: a join is starved. -/
theorem output_not_delivered : ∃ (g : CompiledGraph) (s : RunState Unit),
    compile starvedOutput (some coreOutputs) = .ok g ∧ Transition.Reachable (step g anyType) (initial g false) s ∧
    s.result ≠ none ∧ OneOutputRun g s.log "o" "done" () ∧
    (∀ m services r, .executed m services r ∈ s.log → ∃ o d, r = .ok o d) ∧ (∀ e, .ctxEnded e ∉ s.log) ∧
    subResult s = some (.error (.incomplete "starved-output" .joinAND "j" 1 2)) := by
  obtain ⟨g, hg, hp⟩ := exists_compile starvedOutput (some coreOutputs)
    (p := fun g => decide ((g.node "o").type = "workflow.output") &&
      (Transition.run (step g anyType) (initial g false) starvedOutputActions).any fun s : RunState Unit =>
        cleanLog g "o" s.log && decide (.executed "o" [] (.ok "done" ()) ∈ s.log) &&
        decide (s.result = some (some (.incomplete "starved-output" .joinAND "j" 1 2)))) (by decide +kernel)
  simp only [Bool.and_eq_true, decide_eq_true_eq] at hp
  obtain ⟨ht, hp⟩ := hp
  obtain ⟨s, hs, hr⟩ := Transition.exists_run _ _ _ hp
  simp only [Bool.and_eq_true, decide_eq_true_eq] at hr
  obtain ⟨⟨hclean, hx⟩, hres⟩ := hr
  exact ⟨g, s, hg, ⟨_, hs⟩, by simp [hres], ⟨ht, ⟨[], hx⟩, fun m services r hm => (cleanLog_executed hclean hm).2⟩,
    fun m services r hm => (cleanLog_executed hclean hm).1, cleanLog_ctxEnded hclean, by rw [subResult, hres]⟩

end Noda.Engine
