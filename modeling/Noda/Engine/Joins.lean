import Noda.Lib.Conflict
import Noda.Engine.Scheduling

/-!
# Joins

The compiler puts sources of a node into one join group when a chain of pairwise tests finds them exclusive.  The chain
may connect sources that are independent of each other.  What can really not happen in one run is a conflict of
occurrences: a node fires one output only, and a node runs only after an arrival from each of its groups.

* `join_sound`: where grouped sources are in conflict, a join is dispatched after every source that fires into it;
* `join_not_sound`: a graph that `Compile` accepts, with a run in which a join does not wait for a source.
-/

namespace Noda.Engine

open Conflict

variable {D : Type} {g : CompiledGraph} {reg : Registries D} {s : RunState D} {log : List (Event D)}
  {n m t o o' : String}

/-! ### Conflict in a graph -/

/-- A node runs (no output), or completes with an output. -/
abbrev Occurrence := String × Option String

/-- Different outputs of one node exclude each other. -/
def Split (e f : Occurrence) : Prop := e.1 = f.1 ∧ ∃ o o', e.2 = some o ∧ f.2 = some o' ∧ o ≠ o'

/-- The firings that deliver an arrival to `t` in the group of the source `m`. -/
def groupFirings (g : CompiledGraph) (t m : String) : Set Occurrence :=
  { e | ∃ o, e.2 = some o ∧ t ∈ g.targets e.1 o ∧ ExclusiveChain g t e.1 m }

/-- What must happen for an occurrence: a node that completes has run, and a node runs after an arrival from each of
its groups. -/
def Needs (g : CompiledGraph) : Occurrence → Set Occurrence → Prop
  | (n, some _), G => G = {(n, none)}
  | (n, none), G => ∃ m ∈ g.sources n, G = groupFirings g n m

/-- The two occurrences cannot be in one run. -/
def InConflict (g : CompiledGraph) (e f : Occurrence) : Prop := Conflict.InConflict Split (Needs g) e f

/-- The occurrences of a run. -/
def occurrences (log : List (Event D)) : Set Occurrence :=
  { e | match e with
    | (n, none) => .dispatched n ∈ log
    | (n, some o) => .completed n o ∈ log }

theorem Lawful.configuration (h : Lawful g log) (hg : Compiled g) :
    Configuration Split (Needs g) (occurrences log) := by
  refine ⟨?_, ?_⟩
  · rintro ⟨n, a⟩ ⟨m, b⟩ he hf ⟨hnm, o, o', ha, hb, hne⟩
    cases hnm
    cases ha
    cases hb
    exact hne (h.completed_unique he hf)
  · rintro ⟨n, _ | o⟩ G he hG
    · obtain ⟨m, hm, rfl⟩ := hG
      obtain ⟨m', o, ha, hchain⟩ := h.exists_arrival hg he hm
      obtain ⟨hc, ht⟩ := h.completed_of_arrival ha
      exact ⟨(m', some o), ⟨o, rfl, ht, hchain⟩, hc⟩
    · cases hG
      exact ⟨(n, none), rfl, h.dispatched_of_ends he rfl⟩

/-- A node that runs and has not completed could still complete with any output. -/
theorem Lawful.configuration_insert (h : Lawful g log) (hg : Compiled g) (hd : .dispatched n ∈ log)
    (hn : ∀ o, .completed n o ∉ log) (o : String) :
    Configuration Split (Needs g) (insert (n, some o) (occurrences log)) := by
  refine (h.configuration hg).insert ?_ ?_ fun G hG => ?_
  · rintro ⟨m, b⟩ hm
    constructor
    · rintro ⟨hnm, o₁, o₂, -, hb, -⟩
      cases hnm
      cases hb
      exact hn _ hm
    · rintro ⟨hnm, o₁, o₂, hb, -, -⟩
      cases hnm
      cases hb
      exact hn _ hm
  · rintro ⟨-, o₁, o₂, h1, h2, hne⟩
    cases h1
    cases h2
    exact hne rfl
  · cases hG
    exact ⟨(n, none), rfl, hd⟩

/-! ### Joins -/

/-- Sources that the compiler puts into one group of `t` cannot both fire into `t`. -/
def GroupsConflict (g : CompiledGraph) : Prop :=
  ∀ t n m o o', n ≠ m → ExclusiveChain g t n m → t ∈ g.targets n o → t ∈ g.targets m o' →
    InConflict g (n, some o) (m, some o')

/-- Join soundness of a run. -/
structure JoinSound (g : CompiledGraph) (log : List (Event D)) : Prop where
  /-- the arrival of every source that fires into a dispatched node was delivered before the dispatch -/
  delivered : ∀ t later past, log = later ++ .dispatched t :: past →
    ∀ n o, t ∈ g.targets n o → .completed n o ∈ log → .arrival n o t ∈ past
  /-- within one group one source delivers an arrival -/
  one_source : ∀ t n m o o', .arrival n o t ∈ log → .arrival m o' t ∈ log → g.groupOf t n = g.groupOf t m → n = m

private theorem Lawful.one_source (h : Lawful g log) (hg : Compiled g) (hc : GroupsConflict g)
    (hn : .completed n o ∈ log) (htn : t ∈ g.targets n o) (hm : .completed m o' ∈ log) (htm : t ∈ g.targets m o')
    (hchain : ExclusiveChain g t n m) : n = m := by
  by_contra hne
  exact (h.configuration hg).not_conflict (e := (n, some o)) (f := (m, some o')) hn hm
    (hc t n m o o' hne hchain htn htm)

private theorem Lawful.joinSound (h : Lawful g log) (hg : Compiled g) (hc : GroupsConflict g) : JoinSound g log := by
  refine ⟨fun t later past hlog n o ht hn => ?_, fun t n m o o' hn hm hgr => ?_⟩
  · have hlaw : Lawful g (later ++ .dispatched t :: past) := hlog ▸ h
    obtain ⟨⟨-, -, harr⟩, hpast⟩ := hlaw.split
    obtain ⟨i, hi, hlt⟩ := hg.group_lt (hg.mem_sources.2 ⟨o, ht⟩)
    obtain ⟨m, o', hm, hmi⟩ := harr i hlt
    obtain ⟨hcm, htm⟩ := Lawful.completed_of_arrival hpast hm
    have hcm' : .completed m o' ∈ log := by simp [hlog, hcm]
    have hchain := (hg.group_iff (hg.mem_sources.2 ⟨o, ht⟩) (hg.mem_sources.2 ⟨o', htm⟩)).1 (hi.trans hmi.symm)
    have hnm := h.one_source hg hc hn ht hcm' htm hchain
    subst hnm
    have ho := h.completed_unique hn hcm'
    exact ho ▸ hm
  · obtain ⟨hcn, htn⟩ := h.completed_of_arrival hn
    obtain ⟨hcm, htm⟩ := h.completed_of_arrival hm
    exact h.one_source hg hc hcn htn hcm htm
      ((hg.group_iff (hg.mem_sources.2 ⟨o, htn⟩) (hg.mem_sources.2 ⟨o', htm⟩)).1 hgr)

/-- Where grouped sources are in conflict, a join waits for every source that fires into it, in every run. -/
theorem join_sound {wf : WorkflowConfig} {resolver : Option NodeOutputResolver} {g : CompiledGraph}
    (hcompile : compile wf resolver = .ok g) (hconflict : GroupsConflict g) (reg : Registries D) (retain : Bool)
    {s : RunState D} (hs : Transition.Reachable (step g reg) (initial g retain) s) : JoinSound g s.log := by
  have hg := compile_compiled hcompile
  exact (inv_of_reachable hg hs).goroutines.lawful.joinSound hg hconflict

/-! ### Branches of one node -/

/-- A node that is reached by one output of `c` only needs that output. -/
private theorem inConflict_of_branch {c : String} {f : Occurrence} {w : Option String} (hsrc : c ∈ g.sources n)
    (honly : ∀ m o', n ∈ g.targets m o' → m = c ∧ o' = o) (hf : InConflict g (c, some o) f) :
      InConflict g (n, w) f := by
  have hrun : InConflict g (n, none) f := by
    refine .of_causes (G := groupFirings g n c) ⟨c, hsrc, rfl⟩ ?_
    rintro ⟨m, a⟩ ⟨o', ha, ht, -⟩
    cases ha
    obtain ⟨rfl, rfl⟩ := honly m o' ht
    exact hf
  cases w with
  | none => exact hrun
  | some o' =>
    refine .of_causes (G := {(n, none)}) rfl ?_
    rintro d rfl
    exact hrun

/-- Nodes on different branches of one node cannot both run. -/
theorem inConflict_branches {c : String} {w w' : Option String} (hne : o ≠ o') (hn : c ∈ g.sources n)
    (hm : c ∈ g.sources m) (hon : ∀ k o₁, n ∈ g.targets k o₁ → k = c ∧ o₁ = o)
    (hom : ∀ k o₁, m ∈ g.targets k o₁ → k = c ∧ o₁ = o') : InConflict g (n, w) (m, w') := by
  refine inConflict_of_branch hn hon (.symm (inConflict_of_branch hm hom (.split ?_)))
  exact ⟨rfl, o', o, rfl, rfl, hne.symm⟩

/-- The edges of a graph: source, output and target. -/
def edgeList (g : CompiledGraph) : List (String × String × String) :=
  g.adjacency.toPairs.flatMap fun p => p.2.toPairs.flatMap fun q => q.2.map fun t => (p.1, q.1, t)

theorem mem_edgeList : (n, o, t) ∈ edgeList g ↔ t ∈ g.targets n o := by
  simp only [edgeList, List.mem_flatMap, List.mem_map, Prod.mk.injEq, CompiledGraph.targets, CompiledGraph.outputs]
  constructor
  · rintro ⟨⟨n', m⟩, hp, ⟨o', ts⟩, hq, t', ht, rfl, rfl, rfl⟩
    rw [AList.getD_of_lookup (AList.mem_toPairs.1 hp), AList.getD_of_lookup (AList.mem_toPairs.1 hq)]
    exact ht
  · intro ht
    cases hn : g.adjacency.lookup n with
    | none => simp [AList.getD, hn] at ht
    | some m =>
      rw [AList.getD_of_lookup hn] at ht
      cases ho : m.lookup o with
      | none => simp [AList.getD, ho] at ht
      | some ts =>
        rw [AList.getD_of_lookup ho] at ht
        exact ⟨(n, m), AList.mem_toPairs.2 hn, (o, ts), AList.mem_toPairs.2 ho, t, ht, rfl, rfl, rfl⟩

/-! ### Sample graphs -/

/-- The declared outputs of the node types in the sample graphs. -/
def coreOutputs : NodeOutputResolver := fun type _ =>
  if type = "control.if" then ["then", "else", "error"]
  else if type = "workflow.output" then []
  else ["success", "error"]

/-- The branches of `c` meet again in `j`. -/
def diamond : WorkflowConfig where
  id := "diamond"
  nodes := GoMap.ofPairs [("c", { type := "control.if" }), ("x", { type := "util.log" }), ("y", { type := "util.log" }),
    ("j", { type := "util.log" })]
  edges := [⟨"c", "x", "then", none⟩, ⟨"c", "y", "else", none⟩, ⟨"x", "j", "", none⟩, ⟨"y", "j", "", none⟩]

theorem diamond_conflict : ∃ g, compile diamond (some coreOutputs) = .ok g ∧ g.groupCount "j" = 1 ∧
    GroupsConflict g := by
  obtain ⟨g, hg, hp⟩ := exists_compile diamond (some coreOutputs)
    (p := fun g => decide (g.groupCount "j" = 1) && decide (∀ e ∈ edgeList g, e ∈
      [("c", "then", "x"), ("c", "else", "y"), ("x", "success", "j"), ("y", "success", "j")]) &&
      decide ([("c", "then", "x"), ("c", "else", "y")] ⊆ edgeList g)) (by decide +kernel)
  simp only [Bool.and_eq_true, decide_eq_true_eq] at hp
  obtain ⟨⟨hcount, hedges⟩, hsub⟩ := hp
  have hcomp := compile_compiled hg
  have hx : "c" ∈ g.sources "x" := hcomp.mem_sources.2 ⟨"then", mem_edgeList.1 (hsub (by simp))⟩
  have hy : "c" ∈ g.sources "y" := hcomp.mem_sources.2 ⟨"else", mem_edgeList.1 (hsub (by simp))⟩
  have hcases : ∀ n o t, t ∈ g.targets n o → (n, o, t) ∈
      [("c", "then", "x"), ("c", "else", "y"), ("x", "success", "j"), ("y", "success", "j")] :=
    fun n o t ht => hedges _ (mem_edgeList.2 ht)
  have hox : ∀ k o, "x" ∈ g.targets k o → k = "c" ∧ o = "then" := by
    intro k o ht
    simpa using hcases k o "x" ht
  have hoy : ∀ k o, "y" ∈ g.targets k o → k = "c" ∧ o = "else" := by
    intro k o ht
    simpa using hcases k o "y" ht
  have hxy : ∀ w w', InConflict g ("x", w) ("y", w') := fun w w' => inConflict_branches (by decide) hx hy hox hoy
  refine ⟨g, hg, hcount, fun t n m o o' hne _ hn hm => ?_⟩
  have hn' := hcases n o t hn
  have hm' := hcases m o' t hm
  simp only [List.mem_cons, Prod.mk.injEq, List.not_mem_nil, or_false] at hn' hm'
  rcases hn' with ⟨rfl, rfl, rfl⟩ | ⟨rfl, rfl, rfl⟩ | ⟨rfl, rfl, rfl⟩ | ⟨rfl, rfl, rfl⟩ <;>
    rcases hm' with ⟨rfl, rfl, ht⟩ | ⟨rfl, rfl, ht⟩ | ⟨rfl, rfl, ht⟩ | ⟨rfl, rfl, ht⟩ <;>
    first | exact absurd rfl hne | exact absurd ht (by decide) | exact hxy _ _ | exact (hxy _ _).symm

theorem join_sound_diamond : ∃ g, compile diamond (some coreOutputs) = .ok g ∧ g.groupCount "j" = 1 ∧
    ∀ s, Transition.Reachable (step g anyType) (initial g false) s → JoinSound g s.log := by
  obtain ⟨g, hg, hcount, hconflict⟩ := diamond_conflict
  exact ⟨g, hg, hcount, fun s hs => join_sound hg hconflict anyType false hs⟩

/-- Two choices: `s2` needs both, and is tested as exclusive with `s1` and with `s3`, which are independent. -/
def twoChoices : WorkflowConfig where
  id := "two-choices"
  nodes := GoMap.ofPairs [("x", { type := "control.if" }), ("y", { type := "control.if" }),
    ("s1", { type := "util.log" }),
    ("s2", { type := "util.log" }), ("s3", { type := "util.log" }), ("j", { type := "util.log" })]
  edges := [⟨"x", "s1", "then", none⟩, ⟨"x", "s2", "else", none⟩, ⟨"y", "s2", "then", none⟩, ⟨"y", "s3", "else", none⟩,
    ⟨"s1", "j", "", none⟩, ⟨"s2", "j", "", none⟩, ⟨"s3", "j", "", none⟩]

/-- `s1` and `s3` run; `j` is dispatched after the arrival from `s1`. -/
def twoChoicesRun : List (Action Unit) :=
  [.startEntry, .startEntry] ++ goes 0 2 ++ fires 0 "then" ++ goes 0 6 ++ goes 1 2 ++ fires 1 "else" ++ goes 1 6 ++
    goes 2 2 ++ fires 2 "" ++ goes 2 7

/-- The compiler puts the independent sources `s1` and `s3` into one group, so `j` does not wait for `s3`. -/
theorem join_not_sound : ∃ (g : CompiledGraph) (s : RunState Unit), compile twoChoices (some coreOutputs) = .ok g ∧
    Transition.Reachable (step g anyType) (initial g false) s ∧ ¬ JoinSound g s.log := by
  obtain ⟨g, hg, hp⟩ := exists_compile twoChoices (some coreOutputs)
    (p := fun g => decide (("s3", "success", "j") ∈ edgeList g) &&
      (Transition.run (step g anyType) (initial g false) (twoChoicesRun ++ goes 3 2 ++ fires 3 "" ++ goes 3 2)).any
        fun s : RunState Unit =>
          let later := s.log.takeWhile (· ≠ .dispatched "j")
          let past := (s.log.dropWhile (· ≠ .dispatched "j")).tail
          decide (s.log = later ++ .dispatched "j" :: past) && decide (.completed "s3" "success" ∈ s.log) &&
            decide (.arrival "s3" "success" "j" ∉ past)) (by decide +kernel)
  rw [Bool.and_eq_true, decide_eq_true_eq, mem_edgeList] at hp
  obtain ⟨hedge, hp⟩ := hp
  obtain ⟨s, hs, hr⟩ := Transition.exists_run _ _ _ hp
  simp only [Bool.and_eq_true, decide_eq_true_eq] at hr
  obtain ⟨⟨hlog, hc⟩, harr⟩ := hr
  exact ⟨g, s, hg, ⟨_, hs⟩, fun h => harr (h.delivered _ _ _ hlog _ _ hedge hc)⟩

end Noda.Engine
