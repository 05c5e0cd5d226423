import Mathlib.Logic.Function.Iterate
import Noda.Editor.Events

/-!
# Undo and redo in the editor

`stores/history.ts` keeps the workflows before and after the current one for each file, apart from the store.  In every
run an undo after an edit restores the workflow, redos take back as many undos, a history holds at most `maxHistory`
workflows, and an edit empties the redo stack.

`loadWorkflow` does not call `clearHistory`: after a file was loaded again, its history is that of the former content
(`not_lawful_of_load`).  Undo and redo bring back what the file has had since it was last loaded in every run in which a
file is only loaded while its history is empty (`history_lawful`).
-/

namespace Noda.Editor

open Transition

/-! ### Redo after undo -/

/-- A redo takes back a successful undo. -/
private theorem redo_undo {s : State} (h : s.canUndo) : s.undo.redo.view = s.view := by
  obtain ⟨path, wf, hactive, hpast⟩ := h
  obtain ⟨wf', past, hpast⟩ := List.exists_cons_of_ne_nil hpast
  have hundo := History.undo_of_past hpast wf
  have hview : s.undo.view = _ := view_travel hactive hundo
  have hhistories : s.undo.histories = Function.update s.histories path _ := congrArg (fun v => v.2.2) hview
  have hredo : (s.undo.histories path).redo wf' = some (wf, s.histories path) := by
    rw [hhistories, Function.update_self]
    exact History.redo_undo hundo
  obtain ⟨hpath, hwf⟩ := active_eq_some hactive
  rw [State.redo, view_travel (active_of_view (active_path_ne hactive) hview) hredo, hhistories, Function.update_idem,
    Function.update_eq_self, State.view, hpath, hwf]

/-- Redos take back as many successful undos. -/
private theorem redos_undos {s : State} {k : Nat} (h : ∀ i < k, (State.undo^[i] s).canUndo) :
    (State.redo^[k] (State.undo^[k] s)).view = s.view := by
  induction k generalizing s with
  | zero => rfl
  | succ k ih =>
    have hrest : ∀ i < k, (State.undo^[i] s.undo).canUndo := by
      intro i hi
      rw [← Function.iterate_succ_apply]
      exact h (i + 1) (by omega)
    rw [Function.iterate_succ_apply' State.redo, Function.iterate_succ_apply State.undo]
    exact (travel_congr (ih hrest)).trans (redo_undo (h 0 (by omega)))

/-! ### The laws -/

/-- The store with what each file has had since it was last loaded, a ghost. -/
structure Traced where
  store : State
  since : String → List WorkflowConfig

namespace Traced

def initial (files : String → Option Raw) : Traced := ⟨Editor.initial files, fun _ => []⟩

def record (s : State) (since : String → List WorkflowConfig) : String → List WorkflowConfig :=
  match s.activeWorkflowPath, s.activeWorkflow with
  | some path, some wf => Function.update since path (wf.value :: since path)
  | _, _ => since

/-- What the files have had since they were last loaded, when one of them is loaded again. -/
def forget (since : String → List WorkflowConfig) : Option String → String → List WorkflowConfig
  | some path => Function.update since path []
  | none => since

def step (t : Traced) (e : Event) : Option Traced :=
  some ⟨t.store.perform e, record (t.store.perform e) (forget t.since e.loads)⟩

/-- The laws of undo and redo in a state. -/
structure Lawful (t : Traced) : Prop where
  undo_edit : ∀ e, t.store.pushes e → ((t.store.perform e).perform .undo).activeWorkflow = t.store.activeWorkflow
  redo_undo : ∀ k, (∀ i < k, (State.undo^[i] t.store).canUndo) →
    (State.redo^[k] (State.undo^[k] t.store)).activeWorkflow = t.store.activeWorkflow ∧
      (State.redo^[k] (State.undo^[k] t.store)).histories = t.store.histories
  bounded : ∀ path, (t.store.histories path).size ≤ maxHistory
  edit_redo : ∀ e, t.store.pushes e → ∀ path ∈ t.store.activeWorkflowPath,
    ((t.store.perform e).histories path).future = []
  undo_since : t.store.canUndo → ∀ path ∈ t.store.activeWorkflowPath,
    ∀ wf ∈ (t.store.perform .undo).activeWorkflow, wf.value ∈ t.since path
  redo_since : t.store.canRedo → ∀ path ∈ t.store.activeWorkflowPath,
    ∀ wf ∈ (t.store.perform .redo).activeWorkflow, wf.value ∈ t.since path

/-- A file is only loaded while its history is empty. -/
def freshLoad (t : Traced) (e : Event) : Prop :=
  ∀ path ∈ e.loads, (t.store.histories path).past = [] ∧ (t.store.histories path).future = []

instance (t : Traced) (e : Event) : Decidable (freshLoad t e) :=
  inferInstanceAs (Decidable (∀ path ∈ e.loads, (t.store.histories path).past = [] ∧ _))

/-! ### The invariant -/

variable {files : String → Option Raw} {t t' : Traced} {e : Event} {path : String}

structure Inv (t : Traced) : Prop where
  bounded : ∀ path, (t.store.histories path).size ≤ maxHistory
  shown : ∀ path wf, t.store.active = some (path, wf) → wf.value ∈ t.since path
  recent : ∀ path, (t.store.histories path).All fun wf => wf.value ∈ t.since path

theorem inv_initial (files : String → Option Raw) : Inv (initial files) where
  bounded := fun _ => Nat.zero_le _
  shown := fun _ _ h => nomatch h
  recent := fun _ => ⟨fun _ h => (nomatch h), fun _ h => nomatch h⟩

private theorem mem_record {s : State} {since : String → List WorkflowConfig} {data : WorkflowConfig}
    (h : data ∈ since path) :
    data ∈ record s since path := by
  cases hpath : s.activeWorkflowPath with
  | none =>
    simp only [record, hpath]
    exact h
  | some path' =>
    cases hwf : s.activeWorkflow with
    | none =>
      simp only [record, hpath, hwf]
      exact h
    | some wf =>
      simp only [record, hpath, hwf]
      by_cases heq : path = path'
      · subst heq
        rw [Function.update_self]
        exact List.mem_cons_of_mem _ h
      · rw [Function.update_of_ne heq]
        exact h

private theorem record_active {s : State} {since : String → List WorkflowConfig} {wf : From WorkflowConfig}
    (h : s.active = some (path, wf)) : wf.value ∈ record s since path := by
  obtain ⟨hpath, hwf⟩ := active_eq_some h
  simp only [record, hpath, hwf, Function.update_self]
  exact List.mem_cons_self

private theorem mem_forget {since : String → List WorkflowConfig} {loaded : Option String} {data : WorkflowConfig}
    (hne : path ∉ loaded) (h : data ∈ since path) : data ∈ forget since loaded path := by
  cases loaded with
  | none => exact h
  | some path' =>
    have hpath : path ≠ path' := fun heq => hne (congrArg some heq.symm)
    rw [forget, Function.update_of_ne hpath]
    exact h

theorem inv_step (h : Inv t) (hfresh : freshLoad t e) (hstep : step t e = some t') : Inv t' := by
  obtain rfl := Option.some.inj hstep
  refine ⟨fun path => ?_, fun path wf hactive => record_active hactive, fun path => ?_⟩
  · exact (effect_perform t.store e path).size (h.bounded path)
  · by_cases hloads : path ∈ e.loads
    · -- the history of the loaded file is empty, and a load does not change it
      obtain ⟨hpast, hfuture⟩ := hfresh path hloads
      have hkept : (t.store.perform e).histories = t.store.histories := by
        cases e with
        | load path' raw position => exact histories_load _ _ _ _
        | leave | edit | setWorkflow | updateNodePosition | undo | redo => exact nomatch hloads
      refine ⟨fun wf hwf => ?_, fun wf hwf => ?_⟩
      · rw [hkept, hpast] at hwf
        exact nomatch hwf
      · rw [hkept, hfuture] at hwf
        exact nomatch hwf
    · have hall := (effect_perform t.store e path).all (h.recent path) fun wf => h.shown path wf
      exact ⟨fun wf hwf => mem_record (mem_forget hloads (hall.1 wf hwf)),
        fun wf hwf => mem_record (mem_forget hloads (hall.2 wf hwf))⟩

/-! ### Undo and redo -/

private theorem undo_edit {s : State} (h : s.pushes e) :
    ((s.perform e).perform .undo).activeWorkflow = s.activeWorkflow := by
  obtain ⟨path, wf, wf', hactive, hview⟩ := view_of_pushes h
  have hhistory : (s.perform e).histories path = (s.histories path).pushSnapshot wf := by
    have hhistories := congrArg (fun v => v.2.2 path) hview
    exact hhistories.trans (Function.update_self ..)
  obtain ⟨history, hundo⟩ := History.undo_pushSnapshot (s.histories path) wf wf'
  rw [← hhistory] at hundo
  have hundone := view_travel (active_of_view (active_path_ne hactive) hview) hundo
  exact (congrArg (fun v => v.2.1) hundone).trans (active_eq_some hactive).2.symm

private theorem future_of_pushes {s : State} (h : s.pushes e) (hpath : s.activeWorkflowPath = some path) :
    ((s.perform e).histories path).future = [] := by
  obtain ⟨path', wf, wf', hactive, hview⟩ := view_of_pushes h
  obtain rfl := Option.some.inj (hpath.symm.trans (active_eq_some hactive).1)
  have hhistories : (s.perform e).histories path = Function.update s.histories path _ path :=
    congrArg (fun v => v.2.2 path) hview
  rw [hhistories, Function.update_self]
  rfl

/-- What undo or redo brings back is a workflow of the history, which the file has had since it was loaded. -/
private theorem travel_since {move : History → From WorkflowConfig → Option (From WorkflowConfig × History)}
    {history : History}
    {current wf wf' : From WorkflowConfig} (h : Inv t) (hactive : t.store.active = some (path, current))
    (hmove : move (t.store.histories path) current = some (wf', history))
    (hmem : wf' ∈ (t.store.histories path).past ∨ wf' ∈ (t.store.histories path).future)
    (hwf : (t.store.travel move).activeWorkflow = some wf) : wf.value ∈ t.since path := by
  have hview : (t.store.travel move).activeWorkflow = some wf' := congrArg (fun v => v.2.1) (view_travel hactive hmove)
  obtain rfl := Option.some.inj (hwf.symm.trans hview)
  rcases hmem with hmem | hmem
  · exact (h.recent path).1 wf hmem
  · exact (h.recent path).2 wf hmem

private theorem undo_since (h : Inv t) (hundo : t.store.canUndo) (hpath : t.store.activeWorkflowPath = some path)
    {wf : From WorkflowConfig} (hwf : t.store.undo.activeWorkflow = some wf) : wf.value ∈ t.since path := by
  obtain ⟨path', current, hactive, hpast⟩ := hundo
  obtain rfl := Option.some.inj (hpath.symm.trans (active_eq_some hactive).1)
  obtain ⟨prev, past, hpast⟩ := List.exists_cons_of_ne_nil hpast
  refine travel_since h hactive (History.undo_of_past hpast current) (.inl ?_) hwf
  rw [hpast]
  exact List.mem_cons_self

private theorem redo_since (h : Inv t) (hredo : t.store.canRedo) (hpath : t.store.activeWorkflowPath = some path)
    {wf : From WorkflowConfig} (hwf : t.store.redo.activeWorkflow = some wf) : wf.value ∈ t.since path := by
  obtain ⟨path', current, hactive, hfuture⟩ := hredo
  obtain rfl := Option.some.inj (hpath.symm.trans (active_eq_some hactive).1)
  obtain ⟨next, future, hfuture⟩ := List.exists_cons_of_ne_nil hfuture
  refine travel_since h hactive (History.redo_of_future hfuture current) (.inr ?_) hwf
  rw [hfuture]
  exact List.mem_cons_self

theorem Inv.lawful (h : Inv t) : Lawful t where
  undo_edit := fun e hpushes => undo_edit hpushes
  redo_undo := by
    intro k hk
    have hview := redos_undos hk
    exact ⟨congrArg (fun v => v.2.1) hview, congrArg (fun v => v.2.2) hview⟩
  bounded := h.bounded
  edit_redo := fun e hpushes path hpath => future_of_pushes hpushes hpath
  undo_since := fun hundo path hpath wf hwf => undo_since h hundo hpath hwf
  redo_since := fun hredo path hpath wf hwf => redo_since h hredo hpath hwf

/-- Undo and redo are lawful in every run in which a file is only loaded while its history is empty. -/
theorem history_lawful {es : List Event} (hrun : run step (initial files) es = some t)
    (hfresh : Meets step freshLoad (initial files) es) : Lawful t :=
  (run_invariant_of_meets (P := Inv) (fun _ _ _ h hload hstep => inv_step h hload hstep) (inv_initial files) hfresh
    hrun).lawful

/-- A file without nodes, by its description. -/
def described (description : String) : Raw := [("description", .str description)]

def describe (description : String) : Event := .edit (.updateWorkflowMeta (some (some description)) none)

def openFile (path description : String) : Event := .load path (described description) fun _ => .null

/-- A file is read twice before it is edited; then another file is opened. -/
def editing : List Event :=
  [openFile "a.json" "old", openFile "a.json" "new", describe "first", describe "second", .undo, .undo, .redo,
    openFile "b.json" "other", describe "third", .undo]

theorem history_lawful_editing : ∃ t, run step (initial fun _ => none) editing = some t ∧
    t.store.activeWorkflow.map (fun wf => wf.value.description) = some (some (.str "other")) ∧
    ((t.store.histories "a.json").past.map fun wf => wf.value.description) = [some (.str "new")] ∧
    ((t.store.histories "a.json").future.map fun wf => wf.value.description) = [some (.str "second")] ∧
    Lawful t := by
  obtain ⟨t, hrun, ht⟩ := exists_run step (initial fun _ => none) editing
    (p := fun t => decide (t.store.activeWorkflow.map (fun wf => wf.value.description) = some (some (.str "other")) ∧
      ((t.store.histories "a.json").past.map fun wf => wf.value.description) = [some (.str "new")] ∧
      ((t.store.histories "a.json").future.map fun wf => wf.value.description) = [some (.str "second")]))
    (by decide +kernel)
  obtain ⟨hactive, hpast, hfuture⟩ := of_decide_eq_true ht
  exact ⟨t, hrun, hactive, hpast, hfuture, history_lawful hrun (by decide +kernel)⟩

/-- A file is edited and loaded again, with another content. -/
def reloaded : List Event := [openFile "a.json" "old", describe "edited", openFile "a.json" "new"]

/-- An undo brings back the former content of the file. -/
theorem history_not_lawful : ∃ t, run step (initial fun _ => none) reloaded = some t ∧ ¬Lawful t := by
  obtain ⟨t, hrun, ht⟩ := exists_run step (initial fun _ => none) reloaded
    (p := fun t => decide (t.store.active.map Prod.fst = some "a.json" ∧ (t.store.histories "a.json").past ≠ [] ∧
      t.store.undo.activeWorkflow.map (fun wf => wf.value.description) = some (some (.str "old")) ∧
      (t.since "a.json").map (fun data => data.description) = [some (.str "new")]))
    (by decide +kernel)
  obtain ⟨hactive, hpast, hundo, hsince⟩ := of_decide_eq_true ht
  refine ⟨t, hrun, fun h => ?_⟩
  obtain ⟨⟨path, current⟩, hactive, rfl⟩ := Option.map_eq_some_iff.1 hactive
  obtain ⟨wf, hwf, hold⟩ := Option.map_eq_some_iff.1 hundo
  have hmem := h.undo_since ⟨_, current, hactive, hpast⟩ _ (active_eq_some hactive).1 wf hwf
  have hdescription := List.mem_map_of_mem (f := fun data => data.description) hmem
  rw [hold, hsince] at hdescription
  revert hdescription
  decide

/-- The workflow of a file without nodes. -/
def describedWorkflow (description : String) : WorkflowConfig := ⟨some (.str description), none, [], []⟩

private theorem view_openFile (s : State) (path description : String) : (s.perform (openFile path description)).view =
    (some path, some ⟨path, describedWorkflow description⟩, s.histories) := rfl

private theorem since_openFile {description : String} (hstep : step t (openFile path description) = some t') :
    t'.since path = [describedWorkflow description] := by
  obtain rfl := Option.some.inj hstep
  show Function.update (forget t.since (some path)) path
      (describedWorkflow description :: forget t.since (some path) path)
    path = _
  rw [Function.update_self, forget, Function.update_self]

/-- After a load, a lawful undo can only bring back what was loaded. -/
private theorem past_of_lawful {description : String} {prev : From WorkflowConfig} {past : List (From WorkflowConfig)}
    (hpath : path ≠ "") (hpast : (t.store.histories path).past = prev :: past)
    (hstep : step t (openFile path description) = some t') (h : Lawful t') :
    prev.value = describedWorkflow description := by
  have hsince := since_openFile hstep
  obtain rfl := Option.some.inj hstep
  have hactive := active_of_view hpath (view_openFile t.store path description)
  have hcan : (t.store.perform (openFile path description)).canUndo := by
    refine ⟨path, _, hactive, ?_⟩
    show (t.store.histories path).past ≠ []
    rw [hpast]
    exact List.cons_ne_nil prev past
  have hview := view_travel hactive (History.undo_of_past hpast _)
  have hmem := h.undo_since hcan path (active_eq_some hactive).1 prev (congrArg (fun v => v.2.1) hview)
  rw [hsince] at hmem
  exact List.mem_singleton.1 hmem

private theorem future_of_lawful {description : String} {next : From WorkflowConfig}
    {future : List (From WorkflowConfig)}
    (hpath : path ≠ "") (hfuture : (t.store.histories path).future = next :: future)
    (hstep : step t (openFile path description) = some t') (h : Lawful t') :
    next.value = describedWorkflow description := by
  have hsince := since_openFile hstep
  obtain rfl := Option.some.inj hstep
  have hactive := active_of_view hpath (view_openFile t.store path description)
  have hcan : (t.store.perform (openFile path description)).canRedo := by
    refine ⟨path, _, hactive, ?_⟩
    show (t.store.histories path).future ≠ []
    rw [hfuture]
    exact List.cons_ne_nil next future
  have hview := view_travel hactive (History.redo_of_future hfuture _)
  have hmem := h.redo_since hcan path (active_eq_some hactive).1 next (congrArg (fun v => v.2.1) hview)
  rw [hsince] at hmem
  exact List.mem_singleton.1 hmem

/-- A load that keeps a history makes undo or redo bring back a workflow from before it, for one of two contents. -/
theorem not_lawful_of_load (t : Traced) {path : String} (hpath : path ≠ "")
    (h : ¬((t.store.histories path).past = [] ∧ (t.store.histories path).future = [])) :
    ∃ description t', step t (openFile path description) = some t' ∧ ¬Lawful t' := by
  by_contra hall
  simp only [not_exists, not_and, not_not] at hall
  have hdescriptions : describedWorkflow "a" ≠ describedWorkflow "b" := by decide
  rcases not_and_or.1 h with hpast | hfuture
  · obtain ⟨prev, past, hpast⟩ := List.exists_cons_of_ne_nil hpast
    have hprev := fun description => past_of_lawful hpath hpast rfl (hall description _ rfl)
    exact hdescriptions ((hprev "a").symm.trans (hprev "b"))
  · obtain ⟨next, future, hfuture⟩ := List.exists_cons_of_ne_nil hfuture
    have hnext := fun description => future_of_lawful hpath hfuture rfl (hall description _ rfl)
    exact hdescriptions ((hnext "a").symm.trans (hnext "b"))

end Traced

private theorem events_of_reachable {files : String → Option Raw} {s : State} (h : Reachable step (initial files) s) :
    ∃ es t, run Traced.step (Traced.initial files) es = some t ∧ t.store.view = s.view := by
  have hinv : s.parsed ∧ ∃ es t, run Traced.step (Traced.initial files) es = some t ∧ t.store.view = s.view := by
    refine h.invariant (P := fun s => s.parsed ∧ ∃ es t, run Traced.step (Traced.initial files) es = some t ∧
      t.store.view = s.view) ⟨fun load hload => (nomatch hload), [], _, rfl, rfl⟩ ?_
    rintro s a s' ⟨hparsed, es, t, hrun, hview⟩ hstep
    obtain ⟨hparsed', hsame | ⟨e, he⟩⟩ := follows_step hparsed hstep
    · exact ⟨hparsed', es, t, hrun, hview.trans hsame.symm⟩
    · exact ⟨hparsed', es ++ [e], _, run_concat.2 ⟨t, hrun, rfl⟩, (perform_congr hview e).trans he.symm⟩
  exact hinv.2

end Noda.Editor
