import Noda.Editor.Store

/-!
# Events of the editor

What changes the workflow that the user sees or the histories of `stores/history.ts`: edits, `undo`, `redo`, and loads
that end with any content of any file.  The history of a file changes only by a snapshot, an undo or a redo while the
file is active (`effect_perform`).  Each step of the store is an event or leaves the workflow and the histories alone
(`follows_step`).
-/

namespace Noda.Editor

open Transition

/-! ### The stacks -/

section Stacks

variable {h h' : History} {wf wf' current : From WorkflowConfig}

/-- The number of workflows in a history. -/
def History.size (h : History) : Nat := h.past.length + h.future.length

theorem History.undo_pushSnapshot (h : History) (wf current : From WorkflowConfig) :
    ∃ h', (h.pushSnapshot wf).undo current = some (wf, h') := by
  unfold History.pushSnapshot
  split_ifs with hlength
  · have hcons : h.past ≠ [] := by
      intro hnil
      rw [hnil] at hlength
      simp [maxHistory] at hlength
    rw [List.dropLast_cons_of_ne_nil hcons]
    exact ⟨_, rfl⟩
  · exact ⟨_, rfl⟩

theorem History.size_pushSnapshot (h : History) (wf : From WorkflowConfig) (hsize : h.size ≤ maxHistory) :
    (h.pushSnapshot wf).size ≤ maxHistory := by
  unfold History.pushSnapshot History.size at *
  split_ifs with hlength
  · simp only [List.length_dropLast, List.length_cons, List.length_nil]
    omega
  · simp only [List.length_cons, List.length_nil] at *
    omega

theorem History.size_undo (hundo : h.undo wf = some (wf', h')) : h'.size = h.size := by
  obtain ⟨past, hpast, rfl⟩ := History.undo_eq_some.1 hundo
  simp only [History.size, hpast, List.length_cons]
  omega

theorem History.size_redo (hredo : h.redo wf = some (wf', h')) : h'.size = h.size := by
  obtain ⟨future, hfuture, rfl⟩ := History.redo_eq_some.1 hredo
  simp only [History.size, hfuture, List.length_cons]
  omega

theorem History.redo_undo (hundo : h.undo wf = some (wf', h')) : h'.redo wf' = some (wf, h) := by
  obtain ⟨past, hpast, rfl⟩ := History.undo_eq_some.1 hundo
  rw [History.redo, ← hpast]

theorem History.undo_of_past {past : List (From WorkflowConfig)} (hpast : h.past = wf' :: past)
    (wf : From WorkflowConfig) : h.undo wf = some (wf', ⟨past, wf :: h.future⟩) := by
  rw [History.undo, hpast]

theorem History.redo_of_future {future : List (From WorkflowConfig)} (hfuture : h.future = wf' :: future)
    (wf : From WorkflowConfig) : h.redo wf = some (wf', ⟨wf :: h.past, future⟩) := by
  rw [History.redo, hfuture]

end Stacks

/-! ### What the user sees -/

def State.view (s : State) : Option String × Option (From WorkflowConfig) × (String → History) :=
  (s.activeWorkflowPath, s.activeWorkflow, s.histories)

/-- An undo is successful. -/
def State.canUndo (s : State) : Prop := ∃ path wf, s.active = some (path, wf) ∧ (s.histories path).past ≠ []

def State.canRedo (s : State) : Prop := ∃ path wf, s.active = some (path, wf) ∧ (s.histories path).future ≠ []

section View

variable {s t : State} {path : String} {wf wf' : From WorkflowConfig} {history : History}
  {move : History → From WorkflowConfig → Option (From WorkflowConfig × History)}

private theorem active_congr (h : s.view = t.view) : s.active = t.active := by
  obtain ⟨hpath, hrest⟩ := Prod.mk.inj h
  obtain ⟨hwf, -⟩ := Prod.mk.inj hrest
  simp only [State.active, hpath, hwf]

theorem active_of_view {histories : String → History} (hne : path ≠ "")
    (h : s.view = (some path, some wf, histories)) : s.active = some (path, wf) := by
  obtain ⟨hpath, hrest⟩ := Prod.mk.inj h
  obtain ⟨hwf, -⟩ := Prod.mk.inj hrest
  simp only [State.active, hpath, hwf, if_neg hne]

@[simp] theorem view_debounceSave (s : State) : s.debounceSave.view = s.view := by
  obtain ⟨hpath, hwf, hhistories⟩ := State.debounceSave_fields s
  simp only [State.view, hpath, hwf, hhistories]

private theorem view_replace (hactive : s.active = some (path, wf)) :
    (State.debounceSave { s.setHistory path history with activeWorkflow := some wf' }).view =
      (some path, some wf', Function.update s.histories path history) := by
  rw [view_debounceSave, ← (active_eq_some hactive).1]
  rfl

theorem view_travel (hactive : s.active = some (path, wf)) (hmove : move (s.histories path) wf = some (wf', history)) :
    (s.travel move).view = (some path, some wf', Function.update s.histories path history) := by
  unfold State.travel
  simp only [hactive, hmove]
  exact view_replace hactive

/-- Undo and redo depend on what the user sees only. -/
theorem travel_congr (h : s.view = t.view) : (s.travel move).view = (t.travel move).view := by
  have hhistories : s.histories = t.histories := congrArg (fun v => v.2.2) h
  cases hs : s.active with
  | none =>
    have ht : t.active = none := (active_congr h).symm.trans hs
    unfold State.travel
    simp only [hs, ht]
    exact h
  | some p =>
    obtain ⟨path, wf⟩ := p
    have ht : t.active = some (path, wf) := (active_congr h).symm.trans hs
    cases hmove : move (s.histories path) wf with
    | none =>
      unfold State.travel
      simp only [hs, ht, ← hhistories, hmove]
      exact h
    | some next =>
      rw [view_travel hs hmove, view_travel ht (hhistories ▸ hmove), hhistories]

end View

/-! ### Events -/

/-- The end of a `loadWorkflow`, with any content; a content that is no workflow is an error. -/
def State.load (s : State) (path : String) (raw : Raw) (position : WorkflowNode → Json) : State :=
  match normalizeWorkflow raw with
  | none => s
  | some data => s.loaded path raw (if data.needsLayout then data.autoLayout position else data)

/-- What changes the workflow or the histories.  After `leave` no file is active. -/
inductive Event where
  | load (path : String) (raw : Raw) (position : WorkflowNode → Json)
  | leave
  | edit (e : Edit)
  | setWorkflow (wf : From WorkflowConfig)
  | updateNodePosition (nodeId : String) (position : Json)
  | undo
  | redo

def State.perform (s : State) : Event → State
  | .load path raw position => s.load path raw position
  | .leave => s.clear
  | .edit e => s.edit e
  | .setWorkflow wf => s.setWorkflow wf
  | .updateNodePosition nodeId position => s.updateNodePosition nodeId position
  | .undo => s.undo
  | .redo => s.redo

/-- The file that an event loads. -/
def Event.loads : Event → Option String
  | .load path raw _ => (normalizeWorkflow raw).map fun _ => path
  | _ => none

def State.pushes (s : State) : Event → Prop
  | .edit e => ∃ path wf, s.active = some (path, wf) ∧ e.apply wf.value ≠ none
  | .setWorkflow _ => s.active ≠ none
  | _ => False

section Events

variable {s : State} {e : Event} {path : String} {wf : From WorkflowConfig}

private theorem view_edit {e : Edit} {value : WorkflowConfig} (hactive : s.active = some (path, wf))
    (happly : e.apply wf.value = some value) :
    (s.edit e).view = (some path, some ⟨wf.path, value⟩,
      Function.update s.histories path ((s.histories path).pushSnapshot wf)) := by
  unfold State.edit
  simp only [hactive, happly]
  exact view_replace hactive

private theorem view_setWorkflow (hactive : s.active = some (path, wf)) (wf' : From WorkflowConfig) :
    (s.setWorkflow wf').view =
      (some path, some wf', Function.update s.histories path ((s.histories path).pushSnapshot wf)) := by
  obtain ⟨hpath, hwf⟩ := active_eq_some hactive
  unfold State.setWorkflow
  simp only [hpath, hwf, if_neg (active_path_ne hactive)]
  exact view_replace hactive

/-- What the user sees after an edit that pushes a snapshot. -/
theorem view_of_pushes (h : s.pushes e) : ∃ path wf wf', s.active = some (path, wf) ∧ (s.perform e).view =
    (some path, some wf', Function.update s.histories path ((s.histories path).pushSnapshot wf)) := by
  cases e with
  | edit e =>
    obtain ⟨path, wf, hactive, happly⟩ := h
    obtain ⟨value, happly⟩ := Option.ne_none_iff_exists'.1 happly
    exact ⟨path, wf, _, hactive, view_edit hactive happly⟩
  | setWorkflow wf' =>
    obtain ⟨⟨path, wf⟩, hactive⟩ := Option.ne_none_iff_exists'.1 h
    exact ⟨path, wf, wf', hactive, view_setWorkflow hactive wf'⟩
  | load path raw position => exact h.elim
  | leave => exact h.elim
  | updateNodePosition nodeId position => exact h.elim
  | undo => exact h.elim
  | redo => exact h.elim

/-- The histories after one of them was replaced. -/
private theorem histories_of_view {t : State} {path' : String} {history : History}
    (h : t.view = (some path', some wf, Function.update s.histories path' history)) (path : String) :
    t.histories path = s.histories path ∨ path = path' ∧ t.histories path = history := by
  have hhistories : t.histories = Function.update s.histories path' history := congrArg (fun v => v.2.2) h
  rw [hhistories]
  by_cases heq : path = path'
  · rw [heq, Function.update_self]
    exact .inr ⟨rfl, rfl⟩
  · rw [Function.update_of_ne heq]
    exact .inl rfl

/-- What an event can do to the history of a file. -/
def Effect (s t : State) (path : String) : Prop :=
  t.histories path = s.histories path ∨ ∃ wf, s.active = some (path, wf) ∧
    (t.histories path = (s.histories path).pushSnapshot wf ∨
      (∃ wf', (s.histories path).undo wf = some (wf', t.histories path)) ∨
      ∃ wf', (s.histories path).redo wf = some (wf', t.histories path))

private theorem effect_of_pushes (h : s.pushes e) (path : String) : Effect s (s.perform e) path := by
  obtain ⟨path', wf, wf', hactive, hview⟩ := view_of_pushes h
  rcases histories_of_view hview path with hkept | ⟨rfl, hnew⟩
  · exact .inl hkept
  · exact .inr ⟨wf, hactive, .inl hnew⟩

private theorem histories_travel (s : State)
    (move : History → From WorkflowConfig → Option (From WorkflowConfig × History)) (path : String) :
    (s.travel move).histories path = s.histories path ∨ ∃ wf, s.active = some (path, wf) ∧
      ∃ wf', move (s.histories path) wf = some (wf', (s.travel move).histories path) := by
  cases hactive : s.active with
  | none =>
    left
    unfold State.travel
    rw [hactive]
  | some p =>
    obtain ⟨path', wf⟩ := p
    cases hmove : move (s.histories path') wf with
    | none =>
      left
      unfold State.travel
      simp only [hactive, hmove]
    | some next =>
      obtain ⟨wf', history⟩ := next
      rcases histories_of_view (view_travel hactive hmove) path with hkept | ⟨rfl, hnew⟩
      · exact .inl hkept
      · exact .inr ⟨wf, rfl, wf', by rw [hnew, hmove]⟩

private theorem edit_eq_self {e : Edit} (h : ¬s.pushes (.edit e)) : s.edit e = s := by
  unfold State.edit
  split
  · rfl
  · rename_i path wf hactive
    split
    · rfl
    · rename_i value happly
      refine absurd ⟨path, wf, hactive, ?_⟩ h
      rw [happly]
      exact Option.some_ne_none value

private theorem histories_setWorkflow {wf : From WorkflowConfig} (h : s.active = none) :
    (s.setWorkflow wf).histories = s.histories := by
  unfold State.setWorkflow
  split
  · rfl
  · rename_i path hpath
    split_ifs with hempty
    · rfl
    · -- there is no workflow to push
      cases hwf : s.activeWorkflow with
      | none => exact (State.debounceSave_fields _).2.2
      | some current =>
        simp only [State.active, hpath, hwf, if_neg hempty] at h
        exact nomatch h

theorem histories_load (s : State) (path : String) (raw : Raw) (position : WorkflowNode → Json) :
    (s.load path raw position).histories = s.histories := by
  unfold State.load
  split
  · rfl
  · rfl

theorem effect_perform (s : State) (e : Event) (path : String) : Effect s (s.perform e) path := by
  cases e with
  | load path' raw position => exact .inl (congrFun (histories_load s path' raw position) path)
  | leave => exact .inl rfl
  | edit e =>
    by_cases hpushes : s.pushes (.edit e)
    · exact effect_of_pushes hpushes path
    · exact .inl (congrArg (fun t => t.histories path) (edit_eq_self hpushes))
  | setWorkflow wf' =>
    by_cases hactive : s.active = none
    · exact .inl (congrFun (histories_setWorkflow hactive) path)
    · exact effect_of_pushes (e := .setWorkflow wf') hactive path
  | updateNodePosition nodeId position => exact .inl rfl
  | undo =>
    rcases histories_travel s History.undo path with hkept | ⟨wf, hactive, hundo⟩
    · exact .inl hkept
    · exact .inr ⟨wf, hactive, .inr (.inl hundo)⟩
  | redo =>
    rcases histories_travel s History.redo path with hkept | ⟨wf, hactive, hredo⟩
    · exact .inl hkept
    · exact .inr ⟨wf, hactive, .inr (.inr hredo)⟩

theorem Effect.size {s t : State} (h : Effect s t path) (hsize : (s.histories path).size ≤ maxHistory) :
    (t.histories path).size ≤ maxHistory := by
  rcases h with hkept | ⟨wf, -, hpush | ⟨wf', hundo⟩ | ⟨wf', hredo⟩⟩
  · rw [hkept]
    exact hsize
  · rw [hpush]
    exact History.size_pushSnapshot _ wf hsize
  · rw [History.size_undo hundo]
    exact hsize
  · rw [History.size_redo hredo]
    exact hsize

theorem Effect.all {s t : State} {P : From WorkflowConfig → Prop} (h : Effect s t path)
    (hall : (s.histories path).All P) (hactive : ∀ wf, s.active = some (path, wf) → P wf) :
    (t.histories path).All P := by
  rcases h with hkept | ⟨wf, hwf, hpush | ⟨wf', hundo⟩ | ⟨wf', hredo⟩⟩
  · rw [hkept]
    exact hall
  · rw [hpush]
    exact hall.pushSnapshot (hactive wf hwf)
  · exact (hall.undo (hactive wf hwf) hundo).2
  · exact (hall.redo (hactive wf hwf) hredo).2

end Events

/-! ### The store -/

section Store

variable {s s' t : State} {a : Action} {e : Event}

/-- What an event does depends on what the user sees only. -/
theorem perform_congr (h : s.view = t.view) (e : Event) : (s.perform e).view = (t.perform e).view := by
  have hactive := active_congr h
  obtain ⟨hpath, hrest⟩ := Prod.mk.inj h
  obtain ⟨hwf, hhistories⟩ := Prod.mk.inj hrest
  cases e with
  | load path raw position =>
    show (s.load path raw position).view = (t.load path raw position).view
    unfold State.load
    split
    · exact h
    · simp only [State.view, State.loaded, hhistories]
  | leave => simp only [State.perform, State.view, State.clear, hhistories]
  | edit e =>
    show (s.edit e).view = (t.edit e).view
    by_cases hpushes : s.pushes (.edit e)
    · obtain ⟨path, wf, hs, happly⟩ := hpushes
      obtain ⟨value, happly⟩ := Option.ne_none_iff_exists'.1 happly
      rw [view_edit hs happly, view_edit (hactive ▸ hs) happly, hhistories]
    · have hpushes' : ¬t.pushes (.edit e) := by
        rintro ⟨path, wf, ht, happly⟩
        exact hpushes ⟨path, wf, hactive.trans ht, happly⟩
      rw [edit_eq_self hpushes, edit_eq_self hpushes', h]
  | setWorkflow wf' =>
    show (s.setWorkflow wf').view = (t.setWorkflow wf').view
    unfold State.setWorkflow
    simp only [hpath, hwf]
    split
    · exact h
    · rename_i path hpath'
      split_ifs
      · exact h
      · rw [view_debounceSave, view_debounceSave]
        split
        · simp only [State.view, State.setHistory, hpath, hhistories]
        · simp only [State.view, hpath, hhistories]
  | updateNodePosition nodeId position =>
    simp only [State.perform, State.view, State.updateNodePosition, hpath, hwf, hhistories]
  | undo => exact travel_congr h
  | redo => exact travel_congr h

/-- A file that is being laid out was read. -/
def Load.parsed : Load → Prop
  | .layout _ raw data => normalizeWorkflow raw = some data ∧ data.needsLayout = true
  | _ => True

def State.parsed (s : State) : Prop := ∀ load ∈ s.loads, load.parsed

private theorem parsed_append (h : s.parsed) (path : String) : (s.loadWorkflow path).parsed := by
  intro load hload
  rcases List.mem_append.1 hload with hload | hload
  · exact h load hload
  · rw [List.mem_singleton.1 hload]
    exact trivial

private theorem parsed_setLoad (h : s.parsed) (k : Nat) {load : Load} (hload : load.parsed) :
    (s.setLoad k load).parsed := by
  intro load' hload'
  rcases List.mem_or_eq_of_mem_set hload' with hload' | rfl
  · exact h load' hload'
  · exact hload

private theorem loads_debounceSave (s : State) : s.debounceSave.loads = s.loads := by
  unfold State.debounceSave
  dsimp only
  split
  · split_ifs
    · rfl
    · rfl
  · rfl

private theorem loads_setWorkflow (s : State) (wf : From WorkflowConfig) : (s.setWorkflow wf).loads = s.loads := by
  unfold State.setWorkflow
  split
  · rfl
  · split_ifs
    · rfl
    · rw [loads_debounceSave]
      dsimp only
      split
      · rfl
      · rfl

private theorem loads_travel (s : State)
    (move : History → From WorkflowConfig → Option (From WorkflowConfig × History)) :
    (s.travel move).loads = s.loads := by
  unfold State.travel
  split
  · rfl
  · split
    · rfl
    · exact loads_debounceSave _

private theorem loads_edit (s : State) (e : Edit) : (s.edit e).loads = s.loads := by
  unfold State.edit
  split
  · rfl
  · split
    · rfl
    · exact loads_debounceSave _

/-- A save leaves the loads and what the user sees alone. -/
private theorem saveWorkflow_kept (s : State) : s.saveWorkflow.loads = s.loads ∧ s.saveWorkflow.view = s.view := by
  unfold State.saveWorkflow
  split
  · exact ⟨rfl, rfl⟩
  · dsimp only
    split_ifs
    · exact ⟨rfl, rfl⟩
    · exact ⟨rfl, rfl⟩

/-- What the user sees changes by an event, if at all. -/
def Follows (s s' : State) : Prop := s'.parsed ∧ (s'.view = s.view ∨ ∃ e, s'.view = (s.perform e).view)

theorem Follows.of_loads (h : s.parsed) (hloads : s'.loads = s.loads)
    (hview : s'.view = s.view ∨ ∃ e, s'.view = (s.perform e).view) : Follows s s' := by
  refine ⟨fun load hload => ?_, hview⟩
  rw [hloads] at hload
  exact h load hload

private theorem follows_closeTab (h : s.parsed) (path : String) : Follows s (s.closeTab path) := by
  unfold State.closeTab
  dsimp only
  split_ifs
  · split
    · rename_i last _
      exact ⟨parsed_append (s := { s with openTabs := _ }) h last, .inl rfl⟩
    · exact ⟨h, .inr ⟨.leave, rfl⟩⟩
  · exact ⟨h, .inl rfl⟩

private theorem follows_answer {k : Nat} {load : Load} {raw : Raw} (h : s.parsed)
    (hstep : answer s k load raw = some s') :
    Follows s s' := by
  unfold answer at hstep
  split at hstep
  · obtain ⟨content, -, hstep⟩ := Option.bind_eq_some_iff.1 hstep
    split_ifs at hstep
    obtain rfl := Option.some.inj hstep
    exact ⟨parsed_setLoad h k trivial, .inl rfl⟩
  · exact nomatch hstep

private theorem follows_readFile {k : Nat} {load : Load} (h : s.parsed) (hstep : readFile s k load = some s') :
    Follows s s' := by
  unfold readFile at hstep
  split at hstep
  · rename_i path raw
    dsimp only at hstep
    split at hstep
    · obtain rfl := Option.some.inj hstep
      exact ⟨parsed_setLoad (s := s.know path raw) h k trivial, .inl rfl⟩
    · rename_i data hdata
      split_ifs at hstep with hlayout
      · obtain rfl := Option.some.inj hstep
        exact ⟨parsed_setLoad (s := s.know path raw) h k ⟨hdata, hlayout⟩, .inl rfl⟩
      · obtain rfl := Option.some.inj hstep
        refine ⟨parsed_setLoad (s := s.know path raw) h k trivial, .inr ⟨.load path raw fun _ => .null, ?_⟩⟩
        simp only [State.perform, State.load, hdata, if_neg hlayout]
        rfl
  · exact nomatch hstep

private theorem follows_autoLayout {k : Nat} {load : Load} {position : WorkflowNode → Json} (h : s.parsed)
    (hload : load ∈ s.loads) (hstep : autoLayout s k load position = some s') : Follows s s' := by
  unfold autoLayout at hstep
  split at hstep
  · rename_i path raw data
    obtain rfl := Option.some.inj hstep
    obtain ⟨hdata, hlayout⟩ : normalizeWorkflow raw = some data ∧ data.needsLayout = true := h _ hload
    refine ⟨parsed_setLoad h k trivial, .inr ⟨.load path raw position, ?_⟩⟩
    simp only [State.perform, State.load, hdata, if_pos hlayout]
    rfl
  · exact nomatch hstep

private theorem follows_setWorkflow (h : s.parsed) (wf : From WorkflowConfig) : Follows s (s.setWorkflow wf) :=
  .of_loads h (loads_setWorkflow s wf) (.inr ⟨.setWorkflow wf, rfl⟩)

private theorem follows_importWorkflow (h : s.parsed) (wf : WorkflowConfig) : Follows s (s.importWorkflow wf) := by
  unfold State.importWorkflow
  split
  · exact ⟨h, .inl rfl⟩
  · exact follows_setWorkflow h _

private theorem follows_callLayout (h : s.parsed) : Follows s s.callLayout := by
  unfold State.callLayout
  split
  · exact ⟨h, .inl rfl⟩
  · exact ⟨h, .inl rfl⟩

private theorem follows_layout {k : Nat} {l : Layout} {position : WorkflowNode → Json} (h : s.parsed)
    (hstep : layout s k l position = some s') : Follows s s' := by
  unfold layout at hstep
  split_ifs at hstep
  obtain rfl := Option.some.inj hstep
  have hview : ({ s with layouts := s.layouts.set k { l with pending := false } } : State).view = s.view := rfl
  exact .of_loads h (loads_setWorkflow _ _) (.inr ⟨.setWorkflow _, perform_congr hview (.setWorkflow _)⟩)

private theorem follows_saveWorkflow (h : s.parsed) : Follows s s.saveWorkflow := by
  obtain ⟨hloads, hview⟩ := saveWorkflow_kept s
  exact .of_loads h hloads (.inl hview)

private theorem follows_write {k : Nat} {save : Save} (h : s.parsed)
    (hstep : write s k save = some s' ∨ writeFile s k save = some s' ∨ writeFails s k save = some s') :
    Follows s s' := by
  rcases hstep with hstep | hstep | hstep
  · unfold write at hstep
    split_ifs at hstep
    obtain rfl := Option.some.inj hstep
    exact ⟨h, .inl rfl⟩
  · unfold writeFile at hstep
    split_ifs at hstep
    obtain rfl := Option.some.inj hstep
    exact ⟨h, .inl rfl⟩
  · unfold writeFails at hstep
    split_ifs at hstep
    obtain rfl := Option.some.inj hstep
    exact ⟨h, .inl rfl⟩

theorem follows_step (h : s.parsed) (hstep : step s a = some s') : Follows s s' := by
  cases a with
  | setActiveWorkflow path =>
    obtain rfl := Option.some.inj hstep
    cases path with
    | none => exact ⟨h, .inr ⟨.leave, rfl⟩⟩
    | some path => exact ⟨parsed_append (s := { s with openTabs := _ }) h path, .inl rfl⟩
  | closeTab path =>
    obtain rfl := Option.some.inj hstep
    exact follows_closeTab h path
  | answer k raw =>
    obtain ⟨load, -, hstep⟩ := Option.bind_eq_some_iff.1 hstep
    exact follows_answer h hstep
  | readFile k =>
    obtain ⟨load, -, hstep⟩ := Option.bind_eq_some_iff.1 hstep
    exact follows_readFile h hstep
  | autoLayout k position =>
    obtain ⟨load, hk, hstep⟩ := Option.bind_eq_some_iff.1 hstep
    exact follows_autoLayout h (List.mem_of_getElem? hk) hstep
  | loadFails k =>
    obtain ⟨load, -, rfl⟩ := Option.map_eq_some_iff.1 hstep
    exact ⟨parsed_setLoad h k trivial, .inl rfl⟩
  | edit e =>
    obtain rfl := Option.some.inj hstep
    exact .of_loads h (loads_edit s e) (.inr ⟨.edit e, rfl⟩)
  | importWorkflow wf =>
    obtain rfl := Option.some.inj hstep
    exact follows_importWorkflow h wf
  | updateNodePosition nodeId position =>
    obtain rfl := Option.some.inj hstep
    exact ⟨h, .inr ⟨.updateNodePosition nodeId position, rfl⟩⟩
  | callLayout =>
    obtain rfl := Option.some.inj hstep
    exact follows_callLayout h
  | layout k position =>
    obtain ⟨l, -, hstep⟩ := Option.bind_eq_some_iff.1 hstep
    exact follows_layout h hstep
  | undo =>
    obtain rfl := Option.some.inj hstep
    exact .of_loads h (loads_travel s _) (.inr ⟨.undo, rfl⟩)
  | redo =>
    obtain rfl := Option.some.inj hstep
    exact .of_loads h (loads_travel s _) (.inr ⟨.redo, rfl⟩)
  | setAutoSave enabled =>
    obtain rfl := Option.some.inj hstep
    exact ⟨h, .inl rfl⟩
  | saveWorkflow =>
    obtain rfl := Option.some.inj hstep
    exact follows_saveWorkflow h
  | timer =>
    simp only [step] at hstep
    split_ifs at hstep
    obtain rfl := Option.some.inj hstep
    obtain ⟨hloads, hview⟩ := saveWorkflow_kept { s with saveTimer := false }
    exact .of_loads h hloads (.inl hview)
  | write k =>
    obtain ⟨save, -, hstep⟩ := Option.bind_eq_some_iff.1 hstep
    exact follows_write h (.inl hstep)
  | writeFile k =>
    obtain ⟨save, -, hstep⟩ := Option.bind_eq_some_iff.1 hstep
    exact follows_write h (.inr (.inl hstep))
  | writeFails k =>
    obtain ⟨save, -, hstep⟩ := Option.bind_eq_some_iff.1 hstep
    exact follows_write h (.inr (.inr hstep))
  | settle =>
    simp only [step] at hstep
    split_ifs at hstep
    obtain rfl := Option.some.inj hstep
    exact ⟨h, .inl rfl⟩

end Store

end Noda.Editor
