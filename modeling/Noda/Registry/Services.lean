import Noda.Lib.Strconv
import Noda.Registry.Validator

/-!
# Creating and shutting down services

`InitializeServices` creates the configured services one after the other, each in a goroutine of its own, and gives up
on one that takes too long; a cleanup goroutine then waits for the late instance.  `ShutdownAll` shuts the registered
services down in the reverse order, and goes on with the next one when the deadline has passed.  The lifecycle manager
calls it once.  In between, services without a plugin may be registered (the endpoints and the wasm runtimes).

An instance is given by the number of the call of `CreateService` that returns it.  Every receive from a channel, every
return of a call of a plugin and every firing of a timer or a context is a step of its own.  `shutdowns` are the
instances for which `Shutdown` of the plugin was called, in the order of the calls.
-/

namespace Noda.Registry.Services

open Noda.Config

/-! ### The registry -/

/-- `ServiceRegistry`: the services with the instances that a plugin has created, or without a plugin, and their
order. -/
structure Registered where
  services : GoMap (Option Nat)
  order : List String
  nodup : order.Nodup
  mem : ∀ name, name ∈ order ↔ name ∈ services

namespace Registered

/-- `NewServiceRegistry`. -/
def empty : Registered := ⟨∅, [], List.nodup_nil, by simp⟩

/-- `Register`; `none` is the error for a name that is taken. -/
def register (r : Registered) (name : String) (entry : Option Nat) : Option Registered :=
  if h : name ∈ r.services then none
  else some {
    services := r.services.insert name entry
    order := r.order ++ [name]
    nodup := by
      rw [List.nodup_append']
      exact ⟨r.nodup, List.nodup_singleton _, by simpa [r.mem] using h⟩
    mem := by
      intro name'
      rw [List.mem_append, List.mem_singleton, r.mem, AList.mem_insert, or_comm] }

/-- The instance of a name, if a plugin has created it. -/
def instanceOf (r : Registered) (name : String) : Option Nat := (r.services.lookup name).join

def served (r : Registered) : List (String × Nat) := r.order.filterMap fun name => (r.instanceOf name).map (name, ·)

variable {r r' : Registered} {name : String} {entry : Option Nat}

theorem register_eq_none : r.register name entry = none ↔ name ∈ r.order := by
  rw [register, r.mem]
  split
  · simp_all
  · simp_all

/-- A new service comes last. -/
theorem served_register (h : r.register name entry = some r') :
    r'.order = r.order ++ [name] ∧ r'.served = r.served ++ (entry.map (name, ·)).toList := by
  unfold register at h
  split at h
  · cases h
  · rename_i hnew
    cases h
    refine ⟨rfl, ?_⟩
    simp only [served, List.filterMap_append]
    congr 1
    · refine List.filterMap_congr fun name' hname' => ?_
      have hne : name' ≠ name := fun heq => hnew ((r.mem name).1 (heq ▸ hname'))
      simp only [instanceOf, AList.lookup_insert_ne hne]
    · cases entry <;> simp [instanceOf]

theorem served_register_none (r : Registered) (name : String) : ((r.register name none).getD r).served = r.served := by
  cases h : r.register name none with
  | none => rfl
  | some r' => simpa using (served_register h).2

theorem map_snd_served (r : Registered) : r.served.map Prod.snd = r.order.filterMap r.instanceOf := by
  simp [served, List.map_filterMap, Function.comp_def]

theorem map_fst_served (r : Registered) : (r.served.map Prod.fst).Sublist r.order := by
  have hfilter : r.served.map Prod.fst = r.order.filter fun name => (r.instanceOf name).isSome := by
    rw [served, List.map_filterMap, ← List.filterMap_eq_filter]
    refine List.filterMap_congr fun name _ => ?_
    cases h : r.instanceOf name <;> simp [Option.guard, h]
  rw [hfilter]
  exact List.filter_sublist

end Registered

/-! ### `InitializeServices` -/

/-- What `CreateService` returns: an error, or an instance, which may be nil. -/
inductive CreateResult where
  | error (err : String)
  | made (isNil : Bool)
  deriving DecidableEq, Repr

inductive InitError where
  | notMap
  | noPlugin
  | unknownPlugin (plugin : String)
  | noServices (plugin : String)
  | createFailed (err : String)
  | timedOut (after : String)
  | duplicate
  deriving DecidableEq, Repr

def InitError.text (name : String) : InitError → String
  | notMap => "service " ++ name.goQuote ++ ": config must be a map"
  | noPlugin => "service " ++ name.goQuote ++ ": missing or invalid 'plugin' field"
  | unknownPlugin plugin => "service " ++ name.goQuote ++ ": unknown plugin " ++ plugin.goQuote
  | noServices plugin => "service " ++ name.goQuote ++ ": plugin " ++ plugin.goQuote ++ " does not support services"
  | createFailed err => "service " ++ name.goQuote ++ ": create failed: " ++ err
  | timedOut limit => "service " ++ name.goQuote ++ ": creation timed out after " ++ limit
  | duplicate => "service " ++ name.goQuote ++ ": duplicate service name " ++ name.goQuote

/-- Who takes the result of a call of `CreateService`. -/
inductive Taker where
  /-- the loop waits for it -/
  | loop
  /-- the loop has received it -/
  | received
  /-- it was too late for the loop, and the cleanup goroutine waits for it -/
  | cleanup
  /-- the cleanup goroutine has received it -/
  | cleaned
  /-- the cleanup goroutine has given up -/
  | abandoned
  deriving DecidableEq, Repr

/-- A call of `CreateService`; the result is there once it has returned. -/
structure Creation where
  name : String
  result : Option CreateResult
  taker : Taker
  deriving DecidableEq, Repr

/-! ### `ShutdownAll` -/

/-- Where a goroutine of `ShutdownAll` is: `Shutdown` of the plugin not called yet, called, or returned. -/
inductive StopPhase where
  | spawned
  | called
  | returned (err : Option String)
  deriving DecidableEq, Repr

structure Stop where
  inst : Nat
  phase : StopPhase
  deriving DecidableEq, Repr

inductive StopError where
  | failed (err : String)
  | timedOut
  deriving DecidableEq, Repr

/-- `InitializeServices` and then `ShutdownAll`, with the names that are left. -/
inductive Pc where
  | next (names : List String)
  | waiting (name : String) (i : Nat) (names : List String)
  | initialized
  | stopping (names : List String)
  | awaiting (name : String) (j : Nat) (names : List String)
  | stopped
  deriving DecidableEq, Repr

structure State where
  pc : Pc
  creations : List Creation
  registry : Registered
  errs : List (String × InitError)
  /-- the context of `InitializeServices` has ended -/
  cancelled : Bool
  stops : List Stop
  stopErrs : List (String × StopError)
  /-- the context of `ShutdownAll` has ended -/
  expired : Bool
  shutdowns : List Nat

inductive Action where
  | loop
  | returns (i : Nat) (res : CreateResult)
  | receive
  | timeout
  | cancel
  | clean (i : Nat)
  | abandon (i : Nat)
  | register (name : String)
  | shutdownAll
  | call (j : Nat)
  | finish (j : Nat) (err : Option String)
  | await
  | expire
  | giveUp
  deriving DecidableEq, Repr

variable (plugins : PluginRegistry) (hasServices : Plugin → Bool) (createTimeout : String) (config : AnyMap)

/-- The plugin of a configured service, or why there is none. -/
def pluginOf (name : String) : Except InitError Plugin :=
  match (config.lookup name).bind Json.asMap with
  | none => .error .notMap
  | some cfg =>
    match strField cfg "plugin" with
    | none => .error .noPlugin
    | some pluginName =>
      match getByName plugins pluginName with
      | none => .error (.unknownPlugin pluginName)
      | some plugin => if hasServices plugin then .ok plugin else .error (.noServices pluginName)

/-- The loops of `InitializeServices` and of `ShutdownAll` go on. -/
def loopStep (s : State) : Option State :=
  match s.pc with
  | .next [] => some { s with pc := .initialized }
  | .next (name :: names) =>
    match pluginOf plugins hasServices config name with
    | .error err => some { s with errs := s.errs ++ [(name, err)], pc := .next names }
    | .ok _ =>
      some { s with creations := s.creations ++ [⟨name, none, .loop⟩], pc := .waiting name s.creations.length names }
  | .stopping [] => some { s with pc := .stopped }
  | .stopping (name :: names) =>
    match s.registry.instanceOf name with
    | none => some { s with pc := .stopping names }
    | some i => some { s with stops := s.stops ++ [⟨i, .spawned⟩], pc := .awaiting name s.stops.length names }
  | _ => none

/-- The loop takes the result of the call `i`. -/
def receiveResult (s : State) (name : String) (i : Nat) (names : List String) (res : CreateResult) : State :=
  let s := { s with creations := s.creations.set i ⟨name, some res, .received⟩, pc := .next names }
  match res with
  | .error err => { s with errs := s.errs ++ [(name, .createFailed err)] }
  | .made _ =>
    match s.registry.register name (some i) with
    | none => { s with errs := s.errs ++ [(name, .duplicate)] }
    | some registry => { s with registry }

/-- One step of the system. -/
def step (s : State) : Action → Option State
  | .loop => loopStep plugins hasServices config s
  | .returns i res =>
    match s.creations[i]? with
    | some ⟨name, none, taker⟩ => some { s with creations := s.creations.set i ⟨name, some res, taker⟩ }
    | _ => none
  | .receive =>
    match s.pc with
    | .waiting name i names =>
      match (s.creations[i]?).bind Creation.result with
      | some res => some (receiveResult s name i names res)
      | none => none
    | _ => none
  | .timeout =>
    match s.pc with
    | .waiting name i names =>
      match s.creations[i]? with
      | some c =>
        some { s with
          errs := s.errs ++ [(name, .timedOut createTimeout)]
          creations := s.creations.set i { c with taker := .cleanup }
          pc := .next names }
      | none => none
    | _ => none
  | .cancel => some { s with cancelled := true }
  | .clean i =>
    match s.creations[i]? with
    | some ⟨name, some res, .cleanup⟩ =>
      some { s with
        creations := s.creations.set i ⟨name, some res, .cleaned⟩
        shutdowns := if res = .made false then s.shutdowns ++ [i] else s.shutdowns }
    | _ => none
  | .abandon i =>
    match s.creations[i]? with
    | some ⟨name, res, .cleanup⟩ =>
      if s.cancelled then some { s with creations := s.creations.set i ⟨name, res, .abandoned⟩ } else none
    | _ => none
  | .register name =>
    if s.pc = .initialized ∨ s.pc = .stopped then
      some { s with registry := (s.registry.register name none).getD s.registry }
    else none
  | .shutdownAll => if s.pc = .initialized then some { s with pc := .stopping s.registry.order.reverse } else none
  | .call j =>
    match s.stops[j]? with
    | some ⟨i, .spawned⟩ => some { s with stops := s.stops.set j ⟨i, .called⟩, shutdowns := s.shutdowns ++ [i] }
    | _ => none
  | .finish j err =>
    match s.stops[j]? with
    | some ⟨i, .called⟩ => some { s with stops := s.stops.set j ⟨i, .returned err⟩ }
    | _ => none
  | .await =>
    match s.pc with
    | .awaiting name j names =>
      match s.stops[j]? with
      | some ⟨_, .returned err⟩ =>
        some { s with
          stopErrs := s.stopErrs ++ (err.map fun err => (name, StopError.failed err)).toList
          pc := .stopping names }
      | _ => none
    | _ => none
  | .expire => some { s with expired := true }
  | .giveUp =>
    match s.pc with
    | .awaiting name _ names =>
      if s.expired then some { s with stopErrs := s.stopErrs ++ [(name, .timedOut)], pc := .stopping names } else none
    | _ => none

/-- The call of `InitializeServices`, with the names sorted. -/
def initial : State where
  pc := .next (sortStrings config.keys)
  creations := []
  registry := .empty
  errs := []
  cancelled := false
  stops := []
  stopErrs := []
  expired := false
  shutdowns := []

variable {plugins hasServices createTimeout config} {all : List String} {s s' : State}

/-- What a step does. -/
inductive Move (s : State) : State → Prop
  | initialized (hpc : s.pc = .next []) : Move s { s with pc := .initialized }
  | refused (name : String) (names : List String) (err : InitError) (hpc : s.pc = .next (name :: names)) :
      Move s { s with errs := s.errs ++ [(name, err)], pc := .next names }
  | creating (name : String) (names : List String) (hpc : s.pc = .next (name :: names)) :
      Move s { s with
        creations := s.creations ++ [⟨name, none, .loop⟩], pc := .waiting name s.creations.length names }
  | returned (i : Nat) (name : String) (res : CreateResult) (taker : Taker)
      (hi : s.creations[i]? = some ⟨name, none, taker⟩) :
      Move s { s with creations := s.creations.set i ⟨name, some res, taker⟩ }
  | received (name : String) (i : Nat) (names : List String) (c : Creation) (res : CreateResult)
      (hpc : s.pc = .waiting name i names) (hi : s.creations[i]? = some c) (hres : c.result = some res) :
      Move s (receiveResult s name i names res)
  | timedOut (name : String) (i : Nat) (names : List String) (c : Creation) (limit : String)
      (hpc : s.pc = .waiting name i names) (hi : s.creations[i]? = some c) :
      Move s { s with
        errs := s.errs ++ [(name, .timedOut limit)]
        creations := s.creations.set i { c with taker := .cleanup }
        pc := .next names }
  | cancelled : Move s { s with cancelled := true }
  | cleaned (i : Nat) (name : String) (res : CreateResult) (hi : s.creations[i]? = some ⟨name, some res, .cleanup⟩) :
      Move s { s with
        creations := s.creations.set i ⟨name, some res, .cleaned⟩
        shutdowns := if res = .made false then s.shutdowns ++ [i] else s.shutdowns }
  | abandoned (i : Nat) (name : String) (res : Option CreateResult) (hi : s.creations[i]? = some ⟨name, res, .cleanup⟩)
      (hcancelled : s.cancelled = true) : Move s { s with creations := s.creations.set i ⟨name, res, .abandoned⟩ }
  | foreign (name : String) (hpc : s.pc = .initialized ∨ s.pc = .stopped) :
      Move s { s with registry := (s.registry.register name none).getD s.registry }
  | shutdownAll (hpc : s.pc = .initialized) : Move s { s with pc := .stopping s.registry.order.reverse }
  | stopped (hpc : s.pc = .stopping []) : Move s { s with pc := .stopped }
  | skipped (name : String) (names : List String) (hpc : s.pc = .stopping (name :: names))
      (hname : s.registry.instanceOf name = none) : Move s { s with pc := .stopping names }
  | spawned (name : String) (names : List String) (i : Nat) (hpc : s.pc = .stopping (name :: names))
      (hname : s.registry.instanceOf name = some i) :
      Move s { s with stops := s.stops ++ [⟨i, .spawned⟩], pc := .awaiting name s.stops.length names }
  | called (j i : Nat) (hj : s.stops[j]? = some ⟨i, .spawned⟩) :
      Move s { s with stops := s.stops.set j ⟨i, .called⟩, shutdowns := s.shutdowns ++ [i] }
  | finished (j i : Nat) (err : Option String) (hj : s.stops[j]? = some ⟨i, .called⟩) :
      Move s { s with stops := s.stops.set j ⟨i, .returned err⟩ }
  | awaited (name : String) (j : Nat) (names : List String) (i : Nat) (err : Option String)
      (errs : List (String × StopError)) (hpc : s.pc = .awaiting name j names)
      (hj : s.stops[j]? = some ⟨i, .returned err⟩) : Move s { s with stopErrs := errs, pc := .stopping names }
  | expired : Move s { s with expired := true }
  | gaveUp (name : String) (j : Nat) (names : List String) (errs : List (String × StopError))
      (hpc : s.pc = .awaiting name j names) (hexpired : s.expired = true) :
      Move s { s with stopErrs := errs, pc := .stopping names }

private theorem loopStep_move (h : loopStep plugins hasServices config s = some s') : Move s s' := by
  unfold loopStep at h
  split at h
  · rename_i hpc
    cases h
    exact .initialized hpc
  · rename_i name names hpc
    split at h
    · rename_i err _
      cases h
      exact .refused name names err hpc
    · cases h
      exact .creating name names hpc
  · rename_i hpc
    cases h
    exact .stopped hpc
  · rename_i name names hpc
    split at h
    · rename_i hname
      cases h
      exact .skipped name names hpc hname
    · rename_i i hname
      cases h
      exact .spawned name names i hpc hname
  · cases h

theorem step_move {a : Action} (h : step plugins hasServices createTimeout config s a = some s') : Move s s' := by
  cases a with
  | loop => exact loopStep_move h
  | returns i res =>
    simp only [step] at h
    split at h
    · rename_i name taker hi
      cases h
      exact .returned i name res taker hi
    · cases h
  | receive =>
    simp only [step] at h
    split at h
    · rename_i name i names hpc
      split at h
      · rename_i res hres
        cases h
        obtain ⟨c, hi, hc⟩ := Option.bind_eq_some_iff.1 hres
        exact .received name i names c res hpc hi hc
      · cases h
    · cases h
  | timeout =>
    simp only [step] at h
    split at h
    · rename_i name i names hpc
      split at h
      · rename_i c hi
        cases h
        exact .timedOut name i names c createTimeout hpc hi
      · cases h
    · cases h
  | cancel =>
    cases h
    exact .cancelled
  | clean i =>
    simp only [step] at h
    split at h
    · rename_i name res hi
      cases h
      exact .cleaned i name res hi
    · cases h
  | abandon i =>
    simp only [step] at h
    split at h
    · rename_i name res hi
      split at h
      · rename_i hcancelled
        cases h
        exact .abandoned i name res hi hcancelled
      · cases h
    · cases h
  | register name =>
    simp only [step] at h
    split at h
    · rename_i hpc
      cases h
      exact .foreign name hpc
    · cases h
  | shutdownAll =>
    simp only [step] at h
    split at h
    · rename_i hpc
      cases h
      exact .shutdownAll hpc
    · cases h
  | call j =>
    simp only [step] at h
    split at h
    · rename_i i hj
      cases h
      exact .called j i hj
    · cases h
  | finish j err =>
    simp only [step] at h
    split at h
    · rename_i i hj
      cases h
      exact .finished j i err hj
    · cases h
  | await =>
    simp only [step] at h
    split at h
    · rename_i name j names hpc
      split at h
      · rename_i i err hj
        cases h
        exact .awaited name j names i err _ hpc hj
      · cases h
    · cases h
  | expire =>
    cases h
    exact .expired
  | giveUp =>
    simp only [step] at h
    split at h
    · rename_i name j names hpc
      split at h
      · rename_i hexpired
        cases h
        exact .gaveUp name j names _ hpc hexpired
      · cases h
    · cases h

theorem receiveResult_eq (s : State) (name : String) (i : Nat) (names : List String) (res : CreateResult) :
    (receiveResult s name i names res).pc = .next names ∧ (receiveResult s name i names res).stops = s.stops ∧
      (receiveResult s name i names res).shutdowns = s.shutdowns ∧
      (receiveResult s name i names res).creations = s.creations.set i ⟨name, some res, .received⟩ := by
  cases res with
  | error err => exact ⟨rfl, rfl, rfl, rfl⟩
  | made isNil =>
    simp only [receiveResult]
    cases s.registry.register name (some i) with
    | none => exact ⟨rfl, rfl, rfl, rfl⟩
    | some registry => exact ⟨rfl, rfl, rfl, rfl⟩

end Noda.Registry.Services
