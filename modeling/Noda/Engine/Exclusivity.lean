import Noda.Engine.Joins

/-!
# Exclusive workflow outputs

`ValidateOutputExclusivity` of `exclusivity.go` compares, for two `workflow.output` nodes, the first output of a common
ancestor that reaches each of them.  A node may be reached by several outputs, so the test accepts nodes that run
together.

* `workflowOutput_eq`: the pair that `runSubWorkflow` reads is the newest one written by a `workflow.output` node;
* `outputs_exclusive`: where named `workflow.output` nodes are in conflict, a run executes at most one of them and the
  pair is written at most once;
* `outputs_not_exclusive`: a graph that `Compile` accepts, with a run that executes two.
-/

namespace Noda.Engine

variable {D : Type} {g : CompiledGraph} {reg : Registries D} {s s' : RunState D} {log : List (Event D)}
  {n m name : String} {d : D}

/-! ### Writes of the workflow output -/

/-- The (name, data) pair an event writes. -/
def Event.write (g : CompiledGraph) : Event D → Option (String × D)
  | .stored n (.ok name d) => if (g.node n).type = "workflow.output" then some (name, d) else none
  | _ => none

/-- The (name, data) pairs written in a run, the newest first. -/
def writes (g : CompiledGraph) (log : List (Event D)) : List (String × D) := log.filterMap (Event.write g)

theorem Event.write_eq_some {e : Event D} : e.write g = some (name, d) ↔
    ∃ n, e = .stored n (.ok name d) ∧ (g.node n).type = "workflow.output" := by
  constructor
  · intro h
    cases e with
    | stored n r =>
      cases r with
      | ok name' d' =>
        simp only [Event.write, Option.ite_none_right_eq_some, Option.some.injEq, Prod.mk.injEq] at h
        obtain ⟨ht, rfl, rfl⟩ := h
        exact ⟨n, rfl, ht⟩
      | _ => cases h
    | _ => cases h
  · rintro ⟨n, rfl, ht⟩
    simp [Event.write, ht]

theorem mem_writes : (name, d) ∈ writes g log ↔
    ∃ n, .stored n (.ok name d) ∈ log ∧ (g.node n).type = "workflow.output" := by
  rw [writes, List.mem_filterMap]
  constructor
  · rintro ⟨e, he, hw⟩
    obtain ⟨n, rfl, ht⟩ := Event.write_eq_some.1 hw
    exact ⟨n, he, ht⟩
  · rintro ⟨n, hn, ht⟩
    exact ⟨_, hn, Event.write_eq_some.2 ⟨n, rfl, ht⟩⟩

/-- The pair that `WorkflowOutput` returns after the writes. -/
def lastWrite : List (String × D) → String × Option D
  | [] => ("", none)
  | (name, d) :: _ => (name, some d)

private theorem conclude_workflowOutput (c : ExecutionContext D) (avail : List String) (r : ExecResult D) :
    (conclude (g.node n) avail r c).1.workflowOutput =
      match (Event.stored n r).write g with
      | some (name, d) => (name, some d)
      | none => c.workflowOutput := by
  cases r with
  | panic message => rfl
  | fail err => simp only [conclude]; split <;> rfl
  | ok name d =>
    simp only [conclude, Event.write]
    split
    · rfl
    · split <;> rfl

private theorem workflowOutput_move {i : Nat} {pc pc' : Pc D} {eff : Effect D} (hm : Move g reg s n pc pc' eff)
    (h : s.exec.workflowOutput = lastWrite (writes g s.log)) :
    (RunState.perform g { s with goroutines := s.goroutines.set i (n, pc') } n eff).exec.workflowOutput =
      lastWrite (writes g (RunState.perform g { s with goroutines := s.goroutines.set i (n, pc') } n eff).log) := by
  cases eff with
  | store r avail =>
    simp only [RunState.perform, conclude_workflowOutput, writes, List.filterMap_cons]
    cases (Event.stored n r).write g with
    | none => exact h
    | some p => rfl
  | register =>
    simp only [RunState.perform, registerNode]
    split <;> exact h
  | evict key =>
    simp only [RunState.perform, ExecutionContext.evictOutput]
    split <;> exact h
  | count t =>
    simp only [RunState.perform]
    split <;> exact h
  | _ => exact h

/-- The pair `WorkflowOutput` returns is the newest one written. -/
theorem workflowOutput_eq {retain : Bool} (h : Transition.Reachable (step g reg) (initial g retain) s) :
    s.exec.workflowOutput = lastWrite (writes g s.log) := by
  refine h.invariant (P := fun s => s.exec.workflowOutput = lastWrite (writes g s.log)) rfl fun s a s' hs ha => ?_
  obtain ⟨-, -, hc⟩ := step_cases ha
  cases hc with
  | startEntry t ts hts => exact hs
  | move i n pc pc' eff hi hm => exact workflowOutput_move hm hs
  | ctxEnd e hc => exact hs
  | finish inherited hw => exact hs

/-! ### Exclusive outputs -/

private theorem executeNode_ok {node : CompiledNode} {r : ExecResult D} (ht : node.type = "workflow.output")
    (h : executeNode node r = .ok name d) : outputNodeName node = name ∧ name ≠ "" := by
  rw [executeNode, if_pos ht] at h
  cases r with
  | panic message => cases h
  | fail err => simp only [outputExecute] at h; split at h <;> cases h
  | ok o d' =>
    simp only [outputExecute] at h
    split at h
    · cases h
    · rename_i hne
      cases h
      exact ⟨by rw [outputNodeName, if_pos ht], hne⟩

theorem Lawful.executed_of_stored (h : Lawful g log) {r : ExecResult D} (hr : .stored n r ∈ log) :
    ∃ services r₀, .executed n services r ∈ log ∧ r = executeNode (g.node n) r₀ := by
  obtain ⟨later, past, rfl, ⟨-, -, services, hx⟩, hp⟩ := h.of_mem hr
  obtain ⟨-, -, -, ⟨-, -, r₀, hr₀⟩, -⟩ := Transition.Justified.of_mem hp hx
  exact ⟨services, r₀, by simp [hx], hr₀⟩

/-- A pair is written by an executed node of that name. -/
theorem Lawful.named_of_stored (h : Lawful g log) (hr : .stored n (.ok name d) ∈ log)
    (ht : (g.node n).type = "workflow.output") :
    outputNodeName (g.node n) = name ∧ name ≠ "" ∧ ∃ services, .executed n services (.ok name d) ∈ log := by
  obtain ⟨services, r₀, hx, hr₀⟩ := h.executed_of_stored hr
  obtain ⟨hname, hne⟩ := executeNode_ok ht hr₀.symm
  exact ⟨hname, hne, services, hx⟩

/-- Named `workflow.output` nodes cannot both run. -/
def OutputsConflict (g : CompiledGraph) : Prop :=
  ∀ n m, n ≠ m → outputNodeName (g.node n) ≠ "" → outputNodeName (g.node m) ≠ "" →
    InConflict g (n, none) (m, none)

/-- A `workflow.output` node with the name `"error"` is not retried. -/
def OutputsSettle (g : CompiledGraph) : Prop :=
  ∀ n, outputNodeName (g.node n) = "error" → retryPolicies g n = []

/-- Output exclusivity of a run. -/
structure OneOutput (g : CompiledGraph) (log : List (Event D)) : Prop where
  executed : ∀ n m services services' r r', .executed n services r ∈ log → .executed m services' r' ∈ log →
    outputNodeName (g.node n) ≠ "" → outputNodeName (g.node m) ≠ "" → n = m
  written : (writes g log).length ≤ 1

private theorem Lawful.one_executed (h : Lawful g log) (hg : Compiled g) (hc : OutputsConflict g)
    (hn : .dispatched n ∈ log) (hm : .dispatched m ∈ log) (hnn : outputNodeName (g.node n) ≠ "")
    (hnm : outputNodeName (g.node m) ≠ "") : n = m := by
  by_contra hne
  exact (h.configuration hg).not_conflict (e := (n, none)) (f := (m, none)) hn hm (hc n m hne hnn hnm)

/-- If one `workflow.output` node at most stores results, and it is not retried after a write, there is one write. -/
theorem Lawful.written_once (h : Lawful g log)
    (hone : ∀ n m r r', .stored n r ∈ log → .stored m r' ∈ log → outputNodeName (g.node n) ≠ "" →
      outputNodeName (g.node m) ≠ "" → n = m)
    (hret : ∀ n r, .stored n r ∈ log → outputNodeName (g.node n) = "error" → retryPolicies g n = []) :
    (writes g log).length ≤ 1 := by
  induction log with
  | nil => simp [writes]
  | cons e log ih =>
    have hmem : ∀ {x : Event D}, x ∈ log → x ∈ e :: log := List.mem_cons_of_mem _
    rw [writes, List.filterMap_cons]
    cases hw : e.write g with
    | none =>
      exact ih h.2 (fun n m r r' hn hm => hone n m r r' (hmem hn) (hmem hm)) fun n r hn => hret n r (hmem hn)
    | some p =>
      obtain ⟨name, d⟩ := p
      obtain ⟨n, rfl, ht⟩ := Event.write_eq_some.1 hw
      -- an earlier write would be one of the same node, which would then have been retried
      have hnone : writes g log = [] := by
        rw [List.eq_nil_iff_forall_not_mem]
        rintro ⟨name', d'⟩ hp
        obtain ⟨m, hm, htm⟩ := mem_writes.1 hp
        obtain ⟨hname, hne, -⟩ := h.named_of_stored (List.mem_cons_self ..) ht
        obtain ⟨hname', hne', -⟩ := Lawful.named_of_stored h.2 hm htm
        have hmn : m = n := hone m n _ _ (hmem hm) (List.mem_cons_self ..) (by rwa [hname']) (by rwa [hname])
        subst hmn
        obtain ⟨hout, hpol⟩ := h.1.2.1 _ hm
        simp only [outcome, ht, ↓reduceIte, Option.some.injEq] at hout
        exact hpol (hret m _ (hmem hm) (hname'.trans hout))
      simp only [writes] at hnone
      simp [hnone]

/-- Where named `workflow.output` nodes are in conflict and not retried, a run executes at most one of them, and the
workflow output is written at most once. -/
theorem outputs_exclusive {wf : WorkflowConfig} {resolver : Option NodeOutputResolver} {g : CompiledGraph}
    (hcompile : compile wf resolver = .ok g) (hconflict : OutputsConflict g) (hsettle : OutputsSettle g)
    (reg : Registries D) (retain : Bool) {s : RunState D}
    (hs : Transition.Reachable (step g reg) (initial g retain) s) : OneOutput g s.log := by
  have hg := compile_compiled hcompile
  have hlaw := (inv_of_reachable hg hs).goroutines.lawful
  refine ⟨fun n m services services' r r' hn hm hnn hnm => ?_, hlaw.written_once (fun n m r r' hn hm hnn hnm => ?_)
    fun n r _ hn => hsettle n hn⟩
  · exact hlaw.one_executed hg hconflict (hlaw.dispatched_of_executed hn) (hlaw.dispatched_of_executed hm) hnn hnm
  · exact hlaw.one_executed hg hconflict (hlaw.dispatched_of_stored hn) (hlaw.dispatched_of_stored hm) hnn hnm

/-! ### Sample graphs -/

def outputNode (name : String) : NodeConfig := { type := "workflow.output", config := [("name", .str name)] }

/-- One output node on each branch. -/
def twoOutputs : WorkflowConfig where
  id := "two-outputs"
  nodes := GoMap.ofPairs [("c", { type := "control.if" }), ("o1", outputNode "found"), ("o2", outputNode "missing")]
  edges := [⟨"c", "o1", "then", none⟩, ⟨"c", "o2", "else", none⟩]

/-- Both output nodes on one branch, one of them on the other branch too. -/
def sharedOutput : WorkflowConfig where
  id := "shared-output"
  nodes := GoMap.ofPairs [("c", { type := "control.if" }), ("o1", outputNode "found"), ("o2", outputNode "missing")]
  edges := [⟨"c", "o1", "else", none⟩, ⟨"c", "o1", "then", none⟩, ⟨"c", "o2", "then", none⟩]

theorem outputs_exclusive_branches : ∃ g, compile twoOutputs (some coreOutputs) = .ok g ∧
    ∀ s, Transition.Reachable (step g anyType) (initial g false) s → OneOutput g s.log := by
  obtain ⟨g, hg, hp⟩ := exists_compile twoOutputs (some coreOutputs)
    (p := fun g => decide (∀ e ∈ edgeList g, e ∈ [("c", "then", "o1"), ("c", "else", "o2")]) &&
      decide ([("c", "then", "o1"), ("c", "else", "o2")] ⊆ edgeList g) &&
      decide (∀ p ∈ g.nodes.toPairs, outputNodeName p.2 ≠ "" → p.1 = "o1" ∨ p.1 = "o2") &&
      decide (∀ p ∈ g.nodes.toPairs, outputNodeName p.2 ≠ "error")) (by decide +kernel)
  simp only [Bool.and_eq_true, decide_eq_true_eq] at hp
  obtain ⟨⟨⟨hedges, hsub⟩, hnames⟩, herror⟩ := hp
  have hcomp := compile_compiled hg
  have h1 : "c" ∈ g.sources "o1" := hcomp.mem_sources.2 ⟨"then", mem_edgeList.1 (hsub (by simp))⟩
  have h2 : "c" ∈ g.sources "o2" := hcomp.mem_sources.2 ⟨"else", mem_edgeList.1 (hsub (by simp))⟩
  have ho1 : ∀ k o, "o1" ∈ g.targets k o → k = "c" ∧ o = "then" := by
    intro k o ht
    simpa using hedges _ (mem_edgeList.2 ht)
  have ho2 : ∀ k o, "o2" ∈ g.targets k o → k = "c" ∧ o = "else" := by
    intro k o ht
    simpa using hedges _ (mem_edgeList.2 ht)
  have h12 : InConflict g ("o1", none) ("o2", none) := inConflict_branches (by decide) h1 h2 ho1 ho2
  have hnode : ∀ n, outputNodeName (g.node n) ≠ "" → ∃ node, (n, node) ∈ g.nodes.toPairs ∧ g.node n = node := by
    intro n hn
    cases hl : g.nodes.lookup n with
    | none => simp [CompiledGraph.node, AList.getD, hl, outputNodeName] at hn
    | some node => exact ⟨node, AList.mem_toPairs.2 hl, AList.getD_of_lookup hl⟩
  have hout : ∀ n, outputNodeName (g.node n) ≠ "" → n = "o1" ∨ n = "o2" := by
    intro n hn
    obtain ⟨node, hmem, heq⟩ := hnode n hn
    exact hnames _ hmem (heq ▸ hn)
  refine ⟨g, hg, fun s hs => outputs_exclusive hg (fun n m hne hn hm => ?_) (fun n hn => ?_) anyType false hs⟩
  · rcases hout n hn with rfl | rfl <;> rcases hout m hm with rfl | rfl
    · exact absurd rfl hne
    · exact h12
    · exact h12.symm
    · exact absurd rfl hne
  · obtain ⟨node, hmem, heq⟩ := hnode n (by rw [hn]; decide)
    exact absurd (heq ▸ hn) (herror _ hmem)

/-- The first output that reaches `o1` is not the one that reaches `o2`, so `Compile` accepts; the run takes the branch
to both. -/
theorem outputs_not_exclusive : ∃ (g : CompiledGraph) (s : RunState Unit),
    compile sharedOutput (some coreOutputs) = .ok g ∧
    Transition.Reachable (step g anyType) (initial g false) s ∧ ¬ OneOutput g s.log := by
  obtain ⟨g, hg, hp⟩ := exists_compile sharedOutput (some coreOutputs)
    (p := fun g => decide (outputNodeName (g.node "o1") ≠ "") && decide (outputNodeName (g.node "o2") ≠ "") &&
      (Transition.run (step g anyType) (initial g false)
        ([.startEntry] ++ goes 0 2 ++ fires 0 "then" ++ goes 0 7 ++ goes 1 2 ++ fires 1 "" ++ goes 2 2 ++
          fires 2 "")).any
        fun s : RunState Unit => decide (.executed "o1" [] (.ok "found" ()) ∈ s.log) &&
          decide (.executed "o2" [] (.ok "missing" ()) ∈ s.log)) (by decide +kernel)
  simp only [Bool.and_eq_true, decide_eq_true_eq] at hp
  obtain ⟨⟨h1, h2⟩, hp⟩ := hp
  obtain ⟨s, hs, hr⟩ := Transition.exists_run _ _ _ hp
  simp only [Bool.and_eq_true, decide_eq_true_eq] at hr
  exact ⟨g, s, hg, ⟨_, hs⟩, fun h => absurd (h.executed _ _ _ _ _ _ hr.1 hr.2 h1 h2) (by decide)⟩

end Noda.Engine
