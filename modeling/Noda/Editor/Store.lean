import Noda.Editor.Workflow
import Noda.Lib.Transition

/-!
# The editor's store

The store of the editor as far as workflows go: the active file with its workflow and its content as it was read, the
tabs, the history for undo and redo, edits, and saving by hand or by a timer.  `readFile`, `autoLayout` and
`writeFile` are asynchronous: each answer arrives at any later time, in any order, or never, and each may fail.  A
file is read by the server before its answer arrives, and a write may have taken effect when it fails.

A file changes by the store's writes; its nodes, edges, description and version may also be changed by others, and the
server may write the fields of an object in another order.

`saveWorkflow` sets the content of the active file when its write returns, and marks the written file as clean.  When
another file has become active, the content of the written file is taken for the content of that file, and the next
write gives it the fields of the other one (`store_not_unmixed`).  In every run in which the written file is still
active, with nothing to save, when its write returns, and in which a layout is put in place in the file it was made for,
files are not mixed (`store_unmixed`).
-/

namespace Noda.Editor

open Transition

/-- A value with the file that it stems from, a ghost. -/
structure From (α : Type) where
  path : String
  value : α

/-- The workflows before and after the current one, the closest first. -/
structure History where
  past : List (From WorkflowConfig)
  future : List (From WorkflowConfig)

def maxHistory : Nat := 50

def History.pushSnapshot (h : History) (wf : From WorkflowConfig) : History :=
  ⟨if (wf :: h.past).length > maxHistory then (wf :: h.past).dropLast else wf :: h.past, []⟩

def History.undo (h : History) (current : From WorkflowConfig) : Option (From WorkflowConfig × History) :=
  match h.past with
  | [] => none
  | prev :: past => some (prev, ⟨past, current :: h.future⟩)

def History.redo (h : History) (current : From WorkflowConfig) : Option (From WorkflowConfig × History) :=
  match h.future with
  | [] => none
  | next :: future => some (next, ⟨current :: h.past, future⟩)

/-- Where a `loadWorkflow` is: the request is on its way, the server has answered it, the layout is computed. -/
inductive Load where
  | reading (path : String)
  | answered (path : String) (raw : Raw)
  | layout (path : String) (raw : Raw) (data : WorkflowConfig)
  | done

/-- Where a `saveWorkflow` is: the request is on its way, the server has written the file. -/
inductive SavePhase where
  | writing
  | written
  | done
  deriving DecidableEq

/-- A `saveWorkflow` with what it has read from the store. -/
structure Save where
  path : String
  workflow : WorkflowConfig
  payload : Raw
  phase : SavePhase

/-- The layout of the active workflow that a user has asked for. -/
structure Layout where
  workflow : From WorkflowConfig
  pending : Bool

inductive SaveStatus where
  | idle
  | saving
  | saved
  | error
  deriving DecidableEq

/-- A ghost: a call of `writeFile`, with the content that was last read from the file or written to it. -/
structure Call where
  path : String
  payload : Raw
  known : Option Raw

/-- A ghost: a call of `markClean` with what was written, the active file and its workflow. -/
structure Cleaned where
  path : String
  payload : Raw
  active : Option String
  workflow : Option WorkflowConfig

/-- `saveTimer` says that the timer is running.  `files` are the files of the server.  `known`, `calls` and `cleaned`
are ghosts; `known` is the content that was last read from a file or written to it. -/
structure State where
  activeWorkflowPath : Option String
  activeWorkflow : Option (From WorkflowConfig)
  rawWorkflow : Option (From Raw)
  openTabs : List String
  dirtyFiles : List String
  saveStatus : SaveStatus
  autoSave : Bool
  saveTimer : Bool
  histories : String → History
  loads : List Load
  saves : List Save
  layouts : List Layout
  files : String → Option Raw
  known : String → Option Raw
  calls : List Call
  cleaned : List Cleaned

def initial (files : String → Option Raw) : State :=
  { activeWorkflowPath := none, activeWorkflow := none, rawWorkflow := none, openTabs := [], dirtyFiles := []
    saveStatus := .idle, autoSave := false, saveTimer := false, histories := fun _ => ⟨[], []⟩, loads := [], saves := []
    layouts := [], files := files, known := fun _ => none, calls := [], cleaned := [] }

/-- Every call that is not awaited is known by its number.  In `answer` the server reads the file, in `write` it writes
it; in `readFile`, `autoLayout`, `writeFile` and `layout` a call returns. -/
inductive Action where
  | setActiveWorkflow (path : Option String)
  | closeTab (path : String)
  | answer (k : Nat) (raw : Raw)
  | readFile (k : Nat)
  | autoLayout (k : Nat) (position : WorkflowNode → Json)
  | loadFails (k : Nat)
  | edit (e : Edit)
  | importWorkflow (wf : WorkflowConfig)
  | updateNodePosition (nodeId : String) (position : Json)
  | callLayout
  | layout (k : Nat) (position : WorkflowNode → Json)
  | undo
  | redo
  | setAutoSave (enabled : Bool)
  | saveWorkflow
  | timer
  | write (k : Nat)
  | writeFile (k : Nat)
  | writeFails (k : Nat)
  | settle

/-! ### Files and tabs -/

def State.clear (s : State) : State :=
  { s with activeWorkflowPath := none, activeWorkflow := none, rawWorkflow := none }

def State.loadWorkflow (s : State) (path : String) : State := { s with loads := s.loads ++ [.reading path] }

def State.setActiveWorkflow (s : State) : Option String → State
  | none => s.clear
  | some path =>
    State.loadWorkflow { s with openTabs := if path ∈ s.openTabs then s.openTabs else s.openTabs ++ [path] } path

def State.closeTab (s : State) (path : String) : State :=
  let s' := { s with openTabs := s.openTabs.filter (· ≠ path) }
  if s.activeWorkflowPath = some path then
    match s'.openTabs.getLast? with
    | some last => s'.loadWorkflow last
    | none => s'.clear
  else s'

/-- The end of a `loadWorkflow`. -/
def State.loaded (s : State) (path : String) (raw : Raw) (data : WorkflowConfig) : State :=
  { s with activeWorkflowPath := some path, activeWorkflow := some ⟨path, data⟩, rawWorkflow := some ⟨path, raw⟩ }

def State.setLoad (s : State) (k : Nat) (load : Load) : State := { s with loads := s.loads.set k load }

def State.know (s : State) (path : String) (raw : Raw) : State :=
  { s with known := Function.update s.known path (some raw) }

/-- The server answers with a content whose other fields are those of the file. -/
def answer (s : State) (k : Nat) (load : Load) (raw : Raw) : Option State :=
  match load with
  | .reading path =>
    (s.files path).bind fun content =>
      if SameFields raw content then some (s.setLoad k (.answered path raw)) else none
  | _ => none

/-- The answer arrives; a file whose nodes have no positions is laid out first. -/
def readFile (s : State) (k : Nat) : Load → Option State
  | .answered path raw =>
    let s := s.know path raw
    match normalizeWorkflow raw with
    | none => some (s.setLoad k .done)
    | some data =>
      if data.needsLayout then some (s.setLoad k (.layout path raw data))
      else some ((s.setLoad k .done).loaded path raw data)
  | _ => none

def autoLayout (s : State) (k : Nat) (load : Load) (position : WorkflowNode → Json) : Option State :=
  match load with
  | .layout path raw data => some ((s.setLoad k .done).loaded path raw (data.autoLayout position))
  | _ => none

/-! ### Edits -/

/-- `activeWorkflowPath && activeWorkflow`. -/
def State.active (s : State) : Option (String × From WorkflowConfig) :=
  match s.activeWorkflowPath, s.activeWorkflow with
  | some path, some wf => if path = "" then none else some (path, wf)
  | _, _ => none

def State.markDirty (s : State) (path : String) : State := { s with dirtyFiles := s.dirtyFiles.insert path }

def State.markClean (s : State) (path : String) : State := { s with dirtyFiles := s.dirtyFiles.filter (· ≠ path) }

/-- `_debounceSave`: the running timer is stopped, and a new one is started when the editor saves by itself. -/
def State.debounceSave (s : State) : State :=
  let s' := match s.activeWorkflowPath with
    | some path => if path = "" then s else s.markDirty path
    | none => s
  { s' with saveTimer := s.autoSave }

def State.setHistory (s : State) (path : String) (h : History) : State :=
  { s with histories := Function.update s.histories path h }

/-- The edits of the active workflow, which share this frame. -/
def State.edit (s : State) (e : Edit) : State :=
  match s.active with
  | none => s
  | some (path, wf) =>
    match e.apply wf.value with
    | none => s
    | some value =>
      State.debounceSave { s.setHistory path ((s.histories path).pushSnapshot wf) with
        activeWorkflow := some ⟨wf.path, value⟩ }

def State.setWorkflow (s : State) (wf : From WorkflowConfig) : State :=
  match s.activeWorkflowPath with
  | none => s
  | some path =>
    if path = "" then s
    else
      let s' := match s.activeWorkflow with
        | some current => s.setHistory path ((s.histories path).pushSnapshot current)
        | none => s
      State.debounceSave { s' with activeWorkflow := some wf }

/-- The workflow is replaced by one that the user has at hand. -/
def State.importWorkflow (s : State) (wf : WorkflowConfig) : State :=
  match s.activeWorkflowPath with
  | none => s
  | some path => s.setWorkflow ⟨path, wf⟩

def State.updateNodePosition (s : State) (nodeId : String) (position : Json) : State :=
  { s with activeWorkflow := s.activeWorkflow.map fun wf => ⟨wf.path, wf.value.updateNodePosition nodeId position⟩ }

/-- `undo` and `redo`, by the function of the history. -/
def State.travel (s : State) (move : History → From WorkflowConfig → Option (From WorkflowConfig × History)) : State :=
  match s.active with
  | none => s
  | some (path, wf) =>
    match move (s.histories path) wf with
    | none => s
    | some (wf', h) => State.debounceSave { s.setHistory path h with activeWorkflow := some wf' }

def State.undo (s : State) : State := s.travel History.undo

def State.redo (s : State) : State := s.travel History.redo

/-- The user asks for a layout of the active workflow. -/
def State.callLayout (s : State) : State :=
  match s.activeWorkflow with
  | none => s
  | some wf => { s with layouts := s.layouts ++ [⟨wf, true⟩] }

def layout (s : State) (k : Nat) (l : Layout) (position : WorkflowNode → Json) : Option State :=
  if l.pending then
    some (State.setWorkflow { s with layouts := s.layouts.set k { l with pending := false } }
      ⟨l.workflow.path, l.workflow.value.autoLayout position⟩)
  else none

/-! ### Saving -/

def State.saveWorkflow (s : State) : State :=
  match s.active with
  | none => s
  | some (path, wf) =>
    let payload := denormalizeWorkflow wf.value ((s.rawWorkflow.map From.value).getD [])
    if s.rawWorkflow.map From.value = some payload then { s with saveStatus := .idle }
    else { s with
      saveStatus := .saving
      saves := s.saves ++ [⟨path, wf.value, payload, .writing⟩]
      calls := ⟨path, payload, s.known path⟩ :: s.calls }

def State.setSave (s : State) (k : Nat) (save : Save) (phase : SavePhase) : State :=
  { s with saves := s.saves.set k { save with phase := phase } }

/-- The server writes the file. -/
def write (s : State) (k : Nat) (save : Save) : Option State :=
  if save.phase = .writing then
    some { s.setSave k save .written with files := Function.update s.files save.path (some save.payload) }
  else none

/-- The write returns. -/
def writeFile (s : State) (k : Nat) (save : Save) : Option State :=
  if save.phase = .written then
    some (State.markClean { (s.setSave k save .done).know save.path save.payload with
      saveStatus := .saved
      rawWorkflow := some ⟨save.path, save.payload⟩
      cleaned := ⟨save.path, save.payload, s.activeWorkflowPath, s.activeWorkflow.map From.value⟩ :: s.cleaned }
      save.path)
  else none

def writeFails (s : State) (k : Nat) (save : Save) : Option State :=
  if save.phase = .done then none else some { s.setSave k save .done with saveStatus := .error }

def step (s : State) : Action → Option State
  | .setActiveWorkflow path => some (s.setActiveWorkflow path)
  | .closeTab path => some (s.closeTab path)
  | .answer k raw => (s.loads[k]?).bind fun load => answer s k load raw
  | .readFile k => (s.loads[k]?).bind fun load => readFile s k load
  | .autoLayout k position => (s.loads[k]?).bind fun load => autoLayout s k load position
  | .loadFails k => (s.loads[k]?).map fun _ => s.setLoad k .done
  | .edit e => some (s.edit e)
  | .importWorkflow wf => some (s.importWorkflow wf)
  | .updateNodePosition nodeId position => some (s.updateNodePosition nodeId position)
  | .callLayout => some s.callLayout
  | .layout k position => (s.layouts[k]?).bind fun l => layout s k l position
  | .undo => some s.undo
  | .redo => some s.redo
  | .setAutoSave enabled => some { s with autoSave := enabled }
  | .saveWorkflow => some s.saveWorkflow
  | .timer => if s.saveTimer then some (State.saveWorkflow { s with saveTimer := false }) else none
  | .write k => (s.saves[k]?).bind fun save => write s k save
  | .writeFile k => (s.saves[k]?).bind fun save => writeFile s k save
  | .writeFails k => (s.saves[k]?).bind fun save => writeFails s k save
  -- two seconds after a write has returned
  | .settle => if s.saveStatus = .saved then some { s with saveStatus := .idle } else none

/-! ### What is expected -/

/-- The active file, its workflow and its content stem from one file. -/
def State.sameFile (s : State) : Prop :=
  (s.activeWorkflowPath = none ∧ s.activeWorkflow = none ∧ s.rawWorkflow = none) ∨
    ∃ path data raw, s.activeWorkflowPath = some path ∧ s.activeWorkflow = some ⟨path, data⟩ ∧
      s.rawWorkflow = some ⟨path, raw⟩

structure Unmixed (s : State) : Prop where
  sameFile : s.sameFile
  /-- Every write carries the other fields that were last read from its file or written to it. -/
  calls : ∀ call ∈ s.calls, ∃ raw, call.known = some raw ∧ SameFields call.payload raw
  /-- A file is marked as clean only if it is active and its workflow is the one that was written. -/
  cleaned : ∀ c ∈ s.cleaned, c.active = some c.path ∧
    ∃ wf, c.workflow = some wf ∧ denormalizeWorkflow wf c.payload = c.payload

/-- When a write returns, its file is still active and the workflow has not changed but for positions; when a layout is
there, no other file is active than the one it was made for. -/
def undisturbed (s : State) : Action → Prop
  | .writeFile k => ∀ save ∈ s.saves[k]?, s.activeWorkflowPath = some save.path ∧
      ∃ wf ∈ s.activeWorkflow, wf.value.contents = save.workflow.contents
  | .layout k _ => ∀ l ∈ s.layouts[k]?, ∀ path ∈ s.activeWorkflowPath, path ≠ "" → path = l.workflow.path
  | _ => True

instance decidableUndisturbed : ∀ (s : State) (a : Action), Decidable (undisturbed s a)
  | s, .writeFile k => inferInstanceAs (Decidable (∀ save ∈ s.saves[k]?, s.activeWorkflowPath = some save.path ∧
      ∃ wf ∈ s.activeWorkflow, wf.value.contents = save.workflow.contents))
  | s, .layout k _ => inferInstanceAs (Decidable (∀ l ∈ s.layouts[k]?, ∀ path ∈ s.activeWorkflowPath, path ≠ "" →
      path = l.workflow.path))
  | _, .setActiveWorkflow _ | _, .closeTab _ | _, .answer _ _ | _, .readFile _ | _, .autoLayout _ _ | _, .loadFails _
  | _, .edit _ | _, .importWorkflow _ | _, .updateNodePosition _ _ | _, .callLayout | _, .undo | _, .redo
  | _, .setAutoSave _ | _, .saveWorkflow | _, .timer | _, .write _ | _, .writeFails _ | _, .settle => .isTrue trivial

/-! ### The invariant -/

variable {files₀ : String → Option Raw} {s s' : State}

/-- The other fields of a content are those that the file had at first. -/
def Own (files₀ : String → Option Raw) (path : String) (raw : Raw) : Prop :=
  ∃ raw₀, files₀ path = some raw₀ ∧ SameFields raw raw₀

theorem Own.sameFields {path : String} {raw raw' : Raw} (h : Own files₀ path raw) (h' : Own files₀ path raw') :
    SameFields raw raw' := by
  obtain ⟨raw₀, hfile, hsame⟩ := h
  obtain ⟨raw₁, hfile', hsame'⟩ := h'
  obtain rfl : raw₀ = raw₁ := Option.some.inj (hfile.symm.trans hfile')
  exact hsame.trans hsame'.symm

theorem Own.of_sameFields {path : String} {raw raw' : Raw} (h : Own files₀ path raw) (h' : SameFields raw' raw) :
    Own files₀ path raw' := by
  obtain ⟨raw₀, hfile, hsame⟩ := h
  exact ⟨raw₀, hfile, h'.trans hsame⟩

def Load.Ok (files₀ : String → Option Raw) (known : String → Option Raw) : Load → Prop
  | .reading _ | .done => True
  | .answered path raw => Own files₀ path raw
  | .layout path raw _ => Own files₀ path raw ∧ ∃ content, known path = some content

structure Save.Ok (files₀ : String → Option Raw) (save : Save) : Prop where
  own : Own files₀ save.path save.payload
  made : ∃ raw, save.payload = denormalizeWorkflow save.workflow raw

/-- The history of a file has workflows of that file only. -/
def History.Ok (path : String) (h : History) : Prop :=
  (∀ wf ∈ h.past, wf.path = path) ∧ ∀ wf ∈ h.future, wf.path = path

structure Inv (files₀ : String → Option Raw) (s : State) : Prop where
  sameFile : s.sameFile
  calls : ∀ call ∈ s.calls, ∃ raw, call.known = some raw ∧ SameFields call.payload raw
  cleaned : ∀ c ∈ s.cleaned, c.active = some c.path ∧
    ∃ wf, c.workflow = some wf ∧ denormalizeWorkflow wf c.payload = c.payload
  raw : ∀ r, s.rawWorkflow = some r → Own files₀ r.path r.value ∧ ∃ content, s.known r.path = some content
  files : ∀ path raw, s.files path = some raw → Own files₀ path raw
  known : ∀ path raw, s.known path = some raw → Own files₀ path raw
  loads : ∀ load ∈ s.loads, load.Ok files₀ s.known
  saves : ∀ save ∈ s.saves, save.Ok files₀
  histories : ∀ path, (s.histories path).Ok path

theorem inv_initial (files : String → Option Raw) : Inv files (initial files) where
  sameFile := .inl ⟨rfl, rfl, rfl⟩
  calls := fun _ h => nomatch h
  cleaned := fun _ h => nomatch h
  raw := fun _ h => nomatch h
  files := fun _ raw h => ⟨raw, h, .refl raw⟩
  known := fun _ _ h => nomatch h
  loads := fun _ h => nomatch h
  saves := fun _ h => nomatch h
  histories := fun _ => ⟨fun _ h => (nomatch h), fun _ h => nomatch h⟩

/-! ### Files and tabs -/

private theorem inv_clear (h : Inv files₀ s) : Inv files₀ s.clear :=
  { h with sameFile := .inl ⟨rfl, rfl, rfl⟩, raw := fun _ heq => nomatch heq }

private theorem inv_loadWorkflow (h : Inv files₀ s) (path : String) : Inv files₀ (s.loadWorkflow path) := by
  refine { h with loads := ?_ }
  intro load hload
  rcases List.mem_append.1 hload with hload | hload
  · exact h.loads load hload
  · rw [List.mem_singleton.1 hload]
    exact trivial

private theorem inv_openTabs (h : Inv files₀ s) (tabs : List String) : Inv files₀ { s with openTabs := tabs } :=
  { h with }

private theorem inv_setActiveWorkflow (h : Inv files₀ s) (path : Option String) :
    Inv files₀ (s.setActiveWorkflow path) := by
  cases path with
  | none => exact inv_clear h
  | some path => exact inv_loadWorkflow (inv_openTabs h _) path

private theorem inv_closeTab (h : Inv files₀ s) (path : String) : Inv files₀ (s.closeTab path) := by
  have htabs := inv_openTabs h (s.openTabs.filter (· ≠ path))
  simp only [State.closeTab]
  split_ifs
  · split
    · exact inv_loadWorkflow htabs _
    · exact inv_clear htabs
  · exact htabs

private theorem inv_setLoad (h : Inv files₀ s) (k : Nat) {load : Load} (hload : load.Ok files₀ s.known) :
    Inv files₀ (s.setLoad k load) := by
  refine { h with loads := ?_ }
  intro load' hload'
  rcases List.mem_or_eq_of_mem_set hload' with hload' | rfl
  · exact h.loads load' hload'
  · exact hload

private theorem inv_done (h : Inv files₀ s) (k : Nat) : Inv files₀ (s.setLoad k .done) := inv_setLoad h k trivial

private theorem inv_loaded (h : Inv files₀ s) {path : String} {raw : Raw} (hraw : Own files₀ path raw)
    (hknown : ∃ content, s.known path = some content) (data : WorkflowConfig) :
    Inv files₀ (s.loaded path raw data) := by
  refine { h with sameFile := .inr ⟨path, data, raw, rfl, rfl, rfl⟩, raw := ?_ }
  intro r hr
  obtain rfl := Option.some.inj hr
  exact ⟨hraw, hknown⟩

private theorem known_update {known : String → Option Raw} (path : String) (raw : Raw) {path' : String}
    (h : ∃ content, known path' = some content) :
    ∃ content, Function.update known path (some raw) path' = some content := by
  by_cases heq : path' = path
  · exact ⟨raw, by rw [heq, Function.update_self]⟩
  · rw [Function.update_of_ne heq]
    exact h

private theorem inv_know (h : Inv files₀ s) {path : String} {raw : Raw} (hraw : Own files₀ path raw) :
    Inv files₀ (s.know path raw) := by
  refine { h with raw := ?_, known := ?_, loads := ?_ }
  · intro r hr
    exact ⟨(h.raw r hr).1, known_update path raw (h.raw r hr).2⟩
  · intro path' raw' heq
    simp only [State.know, Function.update_apply] at heq
    split_ifs at heq with hpath
    · obtain rfl := Option.some.inj heq
      rw [hpath]
      exact hraw
    · exact h.known path' raw' heq
  · intro load hload
    have hok := h.loads load hload
    cases load with
    | reading path' => exact trivial
    | answered path' raw' => exact hok
    | layout path' raw' data => exact ⟨hok.1, known_update path raw hok.2⟩
    | done => exact trivial

private theorem inv_answer {k : Nat} {load : Load} {raw : Raw} (h : Inv files₀ s)
    (hstep : answer s k load raw = some s') :
    Inv files₀ s' := by
  unfold answer at hstep
  split at hstep
  · obtain ⟨content, hcontent, hstep⟩ := Option.bind_eq_some_iff.1 hstep
    split_ifs at hstep with hsame
    obtain rfl := Option.some.inj hstep
    exact inv_setLoad h k ((h.files _ content hcontent).of_sameFields hsame)
  · exact nomatch hstep

private theorem inv_readFile {k : Nat} {load : Load} (h : Inv files₀ s) (hload : load ∈ s.loads)
    (hstep : readFile s k load = some s') : Inv files₀ s' := by
  cases load with
  | answered path raw =>
    have hraw : Own files₀ path raw := h.loads _ hload
    have hknow := inv_know h hraw
    have hknown : ∃ content, (s.know path raw).known path = some content := ⟨raw, Function.update_self ..⟩
    simp only [readFile] at hstep
    split at hstep
    · obtain rfl := Option.some.inj hstep
      exact inv_done hknow k
    · rename_i data _
      split_ifs at hstep
      · obtain rfl := Option.some.inj hstep
        exact inv_setLoad hknow k ⟨hraw, hknown⟩
      · obtain rfl := Option.some.inj hstep
        exact inv_loaded (inv_done hknow k) hraw hknown data
  | reading path => exact nomatch hstep
  | layout path raw data => exact nomatch hstep
  | done => exact nomatch hstep

private theorem inv_autoLayout {k : Nat} {load : Load} {position : WorkflowNode → Json} (h : Inv files₀ s)
    (hload : load ∈ s.loads) (hstep : autoLayout s k load position = some s') : Inv files₀ s' := by
  cases load with
  | layout path raw data =>
    have hok : Own files₀ path raw ∧ ∃ content, s.known path = some content := h.loads _ hload
    obtain rfl := Option.some.inj hstep
    exact inv_loaded (inv_done h k) hok.1 hok.2 _
  | reading path => exact nomatch hstep
  | answered path raw => exact nomatch hstep
  | done => exact nomatch hstep

/-! ### Edits -/

private theorem inv_debounceSave (h : Inv files₀ s) : Inv files₀ s.debounceSave := by
  simp only [State.debounceSave]
  split
  · split_ifs
    · exact { h with }
    · exact { h with }
  · exact { h with }

def History.All (P : From WorkflowConfig → Prop) (h : History) : Prop := (∀ wf ∈ h.past, P wf) ∧ ∀ wf ∈ h.future, P wf

section History

variable {P : From WorkflowConfig → Prop} {history history' : History} {wf wf' : From WorkflowConfig}

theorem History.All.pushSnapshot (h : history.All P) (hwf : P wf) : (history.pushSnapshot wf).All P := by
  have hall : ∀ wf' ∈ wf :: history.past, P wf' := List.forall_mem_cons.2 ⟨hwf, h.1⟩
  refine ⟨fun wf' hwf' => ?_, fun wf' hwf' => nomatch hwf'⟩
  simp only [History.pushSnapshot] at hwf'
  split_ifs at hwf'
  · exact hall wf' ((List.dropLast_sublist _).subset hwf')
  · exact hall wf' hwf'

theorem History.undo_eq_some : history.undo wf = some (wf', history') ↔
    ∃ past, history.past = wf' :: past ∧ history' = ⟨past, wf :: history.future⟩ := by
  unfold History.undo
  cases history.past with
  | nil => simp
  | cons prev past => simp [eq_comm]

theorem History.redo_eq_some : history.redo wf = some (wf', history') ↔
    ∃ future, history.future = wf' :: future ∧ history' = ⟨wf :: history.past, future⟩ := by
  unfold History.redo
  cases history.future with
  | nil => simp
  | cons next future => simp [eq_comm]

theorem History.All.undo (h : history.All P) (hwf : P wf) (hundo : history.undo wf = some (wf', history')) :
    P wf' ∧ history'.All P := by
  obtain ⟨past, hpast, rfl⟩ := History.undo_eq_some.1 hundo
  have hall := h.1
  rw [hpast] at hall
  obtain ⟨hprev, hrest⟩ := List.forall_mem_cons.1 hall
  exact ⟨hprev, hrest, List.forall_mem_cons.2 ⟨hwf, h.2⟩⟩

theorem History.All.redo (h : history.All P) (hwf : P wf) (hredo : history.redo wf = some (wf', history')) :
    P wf' ∧ history'.All P := by
  obtain ⟨future, hfuture, rfl⟩ := History.redo_eq_some.1 hredo
  have hall := h.2
  rw [hfuture] at hall
  obtain ⟨hnext, hrest⟩ := List.forall_mem_cons.1 hall
  exact ⟨hnext, List.forall_mem_cons.2 ⟨hwf, h.1⟩, hrest⟩

end History

theorem History.Ok.pushSnapshot {path : String} {history : History} {wf : From WorkflowConfig} (h : history.Ok path)
    (hwf : wf.path = path) : (history.pushSnapshot wf).Ok path :=
  History.All.pushSnapshot (P := fun wf => wf.path = path) h hwf

/-- A move in the history yields a workflow of the same file. -/
def Moves (move : History → From WorkflowConfig → Option (From WorkflowConfig × History)) : Prop :=
  ∀ path history wf wf' history', history.Ok path → wf.path = path → move history wf = some (wf', history') →
    wf'.path = path ∧ history'.Ok path

private theorem moves_undo : Moves History.undo := by
  intro path history wf wf' history' h hwf hundo
  exact History.All.undo (P := fun wf => wf.path = path) h hwf hundo

private theorem moves_redo : Moves History.redo := by
  intro path history wf wf' history' h hwf hredo
  exact History.All.redo (P := fun wf => wf.path = path) h hwf hredo

theorem State.sameFile.active (h : s.sameFile) {path : String} (hpath : s.activeWorkflowPath = some path) :
    ∃ data raw, s.activeWorkflow = some ⟨path, data⟩ ∧ s.rawWorkflow = some ⟨path, raw⟩ := by
  rcases h with ⟨hnone, -, -⟩ | ⟨path', data, raw, hpath', hdata, hraw⟩
  · exact nomatch hpath.symm.trans hnone
  · obtain rfl := Option.some.inj (hpath.symm.trans hpath')
    exact ⟨data, raw, hdata, hraw⟩

theorem active_eq_some {path : String} {wf : From WorkflowConfig} (h : s.active = some (path, wf)) :
    s.activeWorkflowPath = some path ∧ s.activeWorkflow = some wf := by
  unfold State.active at h
  split at h
  · rename_i path' wf' hpath hwf
    split_ifs at h
    obtain ⟨rfl, rfl⟩ := Prod.mk.inj (Option.some.inj h)
    exact ⟨hpath, hwf⟩
  · exact nomatch h

theorem active_path_ne {path : String} {wf : From WorkflowConfig} (h : s.active = some (path, wf)) : path ≠ "" := by
  unfold State.active at h
  split at h
  · split_ifs at h with hempty
    obtain ⟨rfl, rfl⟩ := Prod.mk.inj (Option.some.inj h)
    exact hempty
  · exact nomatch h

theorem State.debounceSave_fields (s : State) :
    s.debounceSave.activeWorkflowPath = s.activeWorkflowPath ∧ s.debounceSave.activeWorkflow = s.activeWorkflow ∧
      s.debounceSave.histories = s.histories := by
  simp only [State.debounceSave]
  split
  · split_ifs
    · exact ⟨rfl, rfl, rfl⟩
    · exact ⟨rfl, rfl, rfl⟩
  · exact ⟨rfl, rfl, rfl⟩

theorem Inv.active (h : Inv files₀ s) {path : String} {wf : From WorkflowConfig}
    (hactive : s.active = some (path, wf)) :
    s.activeWorkflowPath = some path ∧ wf.path = path := by
  obtain ⟨hpath, hwf⟩ := active_eq_some hactive
  obtain ⟨data, raw, hdata, -⟩ := h.sameFile.active hpath
  obtain rfl := Option.some.inj (hwf.symm.trans hdata)
  exact ⟨hpath, rfl⟩

private theorem inv_replace (h : Inv files₀ s) {path : String} (hpath : s.activeWorkflowPath = some path)
    {wf : From WorkflowConfig} (hwf : wf.path = path) {history : History} (hhistory : history.Ok path) :
    Inv files₀ { s.setHistory path history with activeWorkflow := some wf } := by
  obtain ⟨data, raw, -, hraw⟩ := h.sameFile.active hpath
  refine { h with sameFile := ?_, histories := ?_ }
  · obtain ⟨path', value⟩ := wf
    subst hwf
    exact .inr ⟨path', value, raw, hpath, rfl, hraw⟩
  · intro path'
    show (Function.update s.histories path history path').Ok path'
    by_cases heq : path' = path
    · rw [heq, Function.update_self]
      exact hhistory
    · rw [Function.update_of_ne heq]
      exact h.histories path'

private theorem inv_edit (h : Inv files₀ s) (e : Edit) : Inv files₀ (s.edit e) := by
  unfold State.edit
  split
  · exact h
  · rename_i path wf hactive
    obtain ⟨hpath, hwf⟩ := h.active hactive
    split
    · exact h
    · refine inv_debounceSave (inv_replace h hpath ?_ ((h.histories path).pushSnapshot hwf))
      exact hwf

private theorem inv_setWorkflow (h : Inv files₀ s) {wf : From WorkflowConfig}
    (hwf : ∀ path ∈ s.activeWorkflowPath, path ≠ "" → path = wf.path) : Inv files₀ (s.setWorkflow wf) := by
  simp only [State.setWorkflow]
  split
  · exact h
  · rename_i path hpath
    split_ifs with hempty
    · exact h
    · obtain ⟨data, raw, hdata, -⟩ := h.sameFile.active hpath
      rw [hdata]
      exact inv_debounceSave (inv_replace h hpath (hwf path hpath hempty).symm ((h.histories path).pushSnapshot rfl))

private theorem inv_importWorkflow (h : Inv files₀ s) (wf : WorkflowConfig) : Inv files₀ (s.importWorkflow wf) := by
  unfold State.importWorkflow
  split
  · exact h
  · rename_i path hpath
    refine inv_setWorkflow h ?_
    intro path' hpath' _
    exact Option.some.inj (hpath'.symm.trans hpath)

private theorem inv_updateNodePosition (h : Inv files₀ s) (nodeId : String) (position : Json) :
    Inv files₀ (s.updateNodePosition nodeId position) := by
  refine { h with sameFile := ?_ }
  rcases h.sameFile with ⟨hpath, hdata, hraw⟩ | ⟨path, data, raw, hpath, hdata, hraw⟩
  · exact .inl ⟨hpath, by simp [State.updateNodePosition, hdata], hraw⟩
  · refine .inr ⟨path, data.updateNodePosition nodeId position, raw, hpath, ?_, hraw⟩
    simp [State.updateNodePosition, hdata]

private theorem inv_travel (h : Inv files₀ s)
    {move : History → From WorkflowConfig → Option (From WorkflowConfig × History)}
    (hmoves : Moves move) : Inv files₀ (s.travel move) := by
  unfold State.travel
  split
  · exact h
  · rename_i path wf hactive
    obtain ⟨hpath, hwf⟩ := h.active hactive
    split
    · exact h
    · rename_i wf' history hmove
      obtain ⟨hwf', hhistory⟩ := hmoves path _ _ wf' history (h.histories path) hwf hmove
      exact inv_debounceSave (inv_replace h hpath hwf' hhistory)

private theorem inv_callLayout (h : Inv files₀ s) : Inv files₀ s.callLayout := by
  unfold State.callLayout
  split
  · exact h
  · exact { h with }

private theorem inv_layout {k : Nat} {l : Layout} {position : WorkflowNode → Json} (h : Inv files₀ s)
    (hl : ∀ path ∈ s.activeWorkflowPath, path ≠ "" → path = l.workflow.path)
    (hstep : layout s k l position = some s') : Inv files₀ s' := by
  unfold layout at hstep
  split_ifs at hstep
  obtain rfl := Option.some.inj hstep
  have h' : Inv files₀ { s with layouts := s.layouts.set k { l with pending := false } } := { h with }
  exact inv_setWorkflow h' hl

/-! ### Saving -/

private theorem inv_saveWorkflow (h : Inv files₀ s) : Inv files₀ s.saveWorkflow := by
  simp only [State.saveWorkflow]
  split
  · exact h
  · rename_i path wf hactive
    obtain ⟨hpath, -⟩ := active_eq_some hactive
    obtain ⟨data, raw, -, hraw⟩ := h.sameFile.active hpath
    obtain ⟨hown, content, hcontent⟩ := h.raw _ hraw
    have hvalue : s.rawWorkflow.map From.value = some raw := by rw [hraw]; rfl
    simp only [hvalue, Option.getD_some]
    split_ifs
    · exact { h with }
    · -- the payload has the other fields of the content
      have hpayload := hown.of_sameFields (sameFields_denormalizeWorkflow wf.value raw)
      refine { h with calls := ?_, saves := ?_ }
      · refine List.forall_mem_cons.2 ⟨⟨content, hcontent, ?_⟩, h.calls⟩
        exact hpayload.sameFields (h.known path content hcontent)
      · intro save hsave
        rcases List.mem_append.1 hsave with hsave | hsave
        · exact h.saves save hsave
        · rw [List.mem_singleton.1 hsave]
          exact ⟨hpayload, raw, rfl⟩

private theorem inv_setSave (h : Inv files₀ s) {k : Nat} {save : Save} (hsave : save ∈ s.saves) (phase : SavePhase) :
    Inv files₀ (s.setSave k save phase) := by
  refine { h with saves := ?_ }
  intro save' hsave'
  rcases List.mem_or_eq_of_mem_set hsave' with hsave' | rfl
  · exact h.saves save' hsave'
  · exact ⟨(h.saves save hsave).own, (h.saves save hsave).made⟩

private theorem inv_write {k : Nat} {save : Save} (h : Inv files₀ s) (hsave : save ∈ s.saves)
    (hstep : write s k save = some s') : Inv files₀ s' := by
  unfold write at hstep
  split_ifs at hstep
  obtain rfl := Option.some.inj hstep
  refine { inv_setSave h hsave .written with files := ?_ }
  intro path raw heq
  change Function.update s.files save.path (some save.payload) path = some raw at heq
  rw [Function.update_apply] at heq
  split_ifs at heq with hpath
  · obtain rfl := Option.some.inj heq
    rw [hpath]
    exact (h.saves save hsave).own
  · exact h.files path raw heq

/-- A write returns when its file is still active and nothing but positions has changed. -/
private theorem inv_writeFile {k : Nat} {save : Save} (h : Inv files₀ s) (hsave : save ∈ s.saves)
    (hpath : s.activeWorkflowPath = some save.path) {wf : From WorkflowConfig} (hwf : s.activeWorkflow = some wf)
    (hcontents : wf.value.contents = save.workflow.contents) (hstep : writeFile s k save = some s') :
    Inv files₀ s' := by
  obtain ⟨data, -, hdata, -⟩ := h.sameFile.active hpath
  obtain ⟨hown, original, hmade⟩ := h.saves save hsave
  have hknow := inv_know (inv_setSave h hsave .done (k := k)) hown
  unfold writeFile at hstep
  split_ifs at hstep
  obtain rfl := Option.some.inj hstep
  refine { hknow with sameFile := ?_, cleaned := ?_, raw := ?_ }
  · exact .inr ⟨save.path, data, save.payload, hpath, hdata, rfl⟩
  · refine List.forall_mem_cons.2 ⟨⟨hpath, wf.value, by rw [hwf]; rfl, ?_⟩, h.cleaned⟩
    calc denormalizeWorkflow wf.value save.payload
        = denormalizeWorkflow save.workflow save.payload := denormalizeWorkflow_congr hcontents _
      _ = save.payload := by rw [hmade, denormalizeWorkflow_idem]
  · intro r hr
    obtain rfl := Option.some.inj hr
    exact ⟨hown, save.payload, Function.update_self ..⟩

private theorem inv_writeFails {k : Nat} {save : Save} (h : Inv files₀ s) (hsave : save ∈ s.saves)
    (hstep : writeFails s k save = some s') : Inv files₀ s' := by
  unfold writeFails at hstep
  split_ifs at hstep
  obtain rfl := Option.some.inj hstep
  exact { inv_setSave h hsave .done with }

/-! ### Whole runs -/

theorem inv_step {a : Action} (h : Inv files₀ s) (ha : undisturbed s a) (hstep : step s a = some s') :
    Inv files₀ s' := by
  cases a with
  | setActiveWorkflow path =>
    obtain rfl := Option.some.inj hstep
    exact inv_setActiveWorkflow h path
  | closeTab path =>
    obtain rfl := Option.some.inj hstep
    exact inv_closeTab h path
  | answer k raw =>
    obtain ⟨load, -, hstep⟩ := Option.bind_eq_some_iff.1 hstep
    exact inv_answer h hstep
  | readFile k =>
    obtain ⟨load, hk, hstep⟩ := Option.bind_eq_some_iff.1 hstep
    exact inv_readFile h (List.mem_of_getElem? hk) hstep
  | autoLayout k position =>
    obtain ⟨load, hk, hstep⟩ := Option.bind_eq_some_iff.1 hstep
    exact inv_autoLayout h (List.mem_of_getElem? hk) hstep
  | loadFails k =>
    obtain ⟨load, -, rfl⟩ := Option.map_eq_some_iff.1 hstep
    exact inv_done h k
  | edit e =>
    obtain rfl := Option.some.inj hstep
    exact inv_edit h e
  | importWorkflow wf =>
    obtain rfl := Option.some.inj hstep
    exact inv_importWorkflow h wf
  | updateNodePosition nodeId position =>
    obtain rfl := Option.some.inj hstep
    exact inv_updateNodePosition h nodeId position
  | callLayout =>
    obtain rfl := Option.some.inj hstep
    exact inv_callLayout h
  | layout k position =>
    obtain ⟨l, hk, hstep⟩ := Option.bind_eq_some_iff.1 hstep
    exact inv_layout h (ha l hk) hstep
  | undo =>
    obtain rfl := Option.some.inj hstep
    exact inv_travel h moves_undo
  | redo =>
    obtain rfl := Option.some.inj hstep
    exact inv_travel h moves_redo
  | setAutoSave enabled =>
    obtain rfl := Option.some.inj hstep
    exact { h with }
  | saveWorkflow =>
    obtain rfl := Option.some.inj hstep
    exact inv_saveWorkflow h
  | timer =>
    simp only [step] at hstep
    split_ifs at hstep
    obtain rfl := Option.some.inj hstep
    have h' : Inv files₀ { s with saveTimer := false } := { h with }
    exact inv_saveWorkflow h'
  | write k =>
    obtain ⟨save, hk, hstep⟩ := Option.bind_eq_some_iff.1 hstep
    exact inv_write h (List.mem_of_getElem? hk) hstep
  | writeFile k =>
    obtain ⟨save, hk, hstep⟩ := Option.bind_eq_some_iff.1 hstep
    obtain ⟨hpath, wf, hwf, hcontents⟩ := ha save hk
    exact inv_writeFile h (List.mem_of_getElem? hk) hpath hwf hcontents hstep
  | writeFails k =>
    obtain ⟨save, hk, hstep⟩ := Option.bind_eq_some_iff.1 hstep
    exact inv_writeFails h (List.mem_of_getElem? hk) hstep
  | settle =>
    simp only [step] at hstep
    split_ifs at hstep
    obtain rfl := Option.some.inj hstep
    exact { h with }

/-- Files are not mixed in any run in which the written file is still active, with nothing to save, when its write
returns, and every layout is put in place in the file it was made for. -/
theorem store_unmixed {files : String → Option Raw} {as : List Action} (hrun : run step (initial files) as = some s)
    (hundisturbed : Meets step undisturbed (initial files) as) : Unmixed s := by
  have h := run_invariant_of_meets (P := Inv files) (fun _ _ _ hs hc hstep => inv_step hs hc hstep) (inv_initial files)
    hundisturbed hrun
  exact ⟨h.sameFile, h.calls, h.cleaned⟩

/-- Two files without nodes. -/
def twoFiles : String → Option Raw := fun path =>
  if path = "a.json" then some [("id", .str "a")] else if path = "b.json" then some [("id", .str "b")] else none

def openAndEdit (k : Nat) (path id : String) : List Action :=
  [.setActiveWorkflow (some path), .answer k [("id", .str id)], .readFile k,
    .edit (.updateWorkflowMeta (some (some id)) none)]

def oneByOne : List Action :=
  openAndEdit 0 "a.json" "a" ++ [.saveWorkflow, .updateNodePosition "n" .null, .write 0, .writeFile 0] ++
    openAndEdit 1 "b.json" "b" ++
    [.callLayout, .undo, .redo, .layout 0 (fun _ => .null), .saveWorkflow, .write 1, .writeFile 1]

theorem store_unmixed_oneByOne : ∃ s, run step (initial twoFiles) oneByOne = some s ∧
    s.calls.map Call.path = ["b.json", "a.json"] ∧ s.dirtyFiles = [] ∧ Unmixed s := by
  obtain ⟨s, hrun, hs⟩ := exists_run step (initial twoFiles) oneByOne
    (p := fun s => decide (s.calls.map Call.path = ["b.json", "a.json"] ∧ s.dirtyFiles = [])) (by decide +kernel)
  obtain ⟨hcalls, hdirty⟩ := of_decide_eq_true hs
  exact ⟨s, hrun, hcalls, hdirty, store_unmixed hrun (by decide +kernel)⟩

/-- The other file is opened while the first one is being saved. -/
def sideBySide : List Action :=
  openAndEdit 0 "a.json" "a" ++ [.saveWorkflow] ++ openAndEdit 1 "b.json" "b" ++ [.write 0, .writeFile 0, .saveWorkflow]

/-- The second file is written with the id of the first one. -/
theorem store_not_unmixed : ∃ s, run step (initial twoFiles) sideBySide = some s ∧
    (∃ call ∈ s.calls, call.path = "b.json" ∧ call.payload.lookup "id" = some (.str "a")) ∧ ¬Unmixed s := by
  obtain ⟨s, hrun, hs⟩ := exists_run step (initial twoFiles) sideBySide
    (p := fun s => decide ((∃ call ∈ s.calls, call.path = "b.json" ∧ call.payload.lookup "id" = some (.str "a")) ∧
      s.activeWorkflowPath = some "b.json" ∧ s.rawWorkflow.map From.path = some "a.json")) (by decide +kernel)
  obtain ⟨hcall, hpath, hraw⟩ := of_decide_eq_true hs
  refine ⟨s, hrun, hcall, fun h => ?_⟩
  obtain ⟨data, raw, -, hraw'⟩ := h.sameFile.active hpath
  rw [hraw'] at hraw
  have hpaths : "b.json" = "a.json" := Option.some.inj hraw
  exact absurd hpaths (by decide)

end Noda.Editor
