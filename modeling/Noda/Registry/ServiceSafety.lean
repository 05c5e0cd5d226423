import Noda.Lib.Pool
import Noda.Lib.Transition
import Noda.Registry.Services

/-!
# No instance of a service is lost

Whatever the order of the steps, no instance is shut down twice, and in the end each one has been shut down, unless its
cleanup was abandoned when the context ended (`services_accounted`).  There are three invariants: where the results of
the calls of `CreateService` are (`InitInv`), how far `ShutdownAll` is (`StopInv`), and who has called `Shutdown` of a
plugin (`Counted`).
-/

namespace Noda.Registry.Services

open Noda.Config Transition

variable {plugins : PluginRegistry} {hasServices : Plugin → Bool} {createTimeout : String} {config : AnyMap}
  {all : List String} {s s' : State}

/-! ### The creations -/

/-- The services that `InitializeServices` has not dealt with. -/
def Pc.ahead : Pc → List String
  | .next names => names
  | .waiting name _ names => name :: names
  | _ => []

def Pc.initializing : Pc → Bool
  | .next _ => true
  | .waiting _ _ _ => true
  | _ => false

/-- A call of `CreateService` and where its result is. -/
structure CreationOk (s : State) (i : Nat) (c : Creation) : Prop where
  loop : c.taker = .loop → ∃ names, s.pc = .waiting c.name i names
  received : c.taker = .received →
    ∃ res, c.result = some res ∧ ∀ isNil, res = .made isNil → (c.name, i) ∈ s.registry.served
  cleaned : c.taker = .cleaned → c.result ≠ none
  abandoned : c.taker = .abandoned → s.cancelled = true

/-- Every configured service is ahead, has failed with an error, or is registered with the instance of its call of
`CreateService`. -/
structure InitInv (all : List String) (s : State) : Prop where
  outcomes : (s.errs.map Prod.fst ++ s.registry.served.map Prod.fst ++ s.pc.ahead).Perm all
  sorted : (s.registry.served.map Prod.fst ++ s.pc.ahead).Sublist all
  early : s.pc.initializing = true → s.registry.order = s.registry.served.map Prod.fst
  waiting : ∀ name i names, s.pc = .waiting name i names → ∃ result, s.creations[i]? = some ⟨name, result, .loop⟩
  creations : ∀ i c, s.creations[i]? = some c → CreationOk s i c
  served : ∀ name i, (name, i) ∈ s.registry.served →
    ∃ isNil, s.creations[i]? = some ⟨name, some (.made isNil), .received⟩

theorem InitInv.nodup (h : InitInv all s) : (s.registry.served.map Prod.snd).Nodup := by
  have hfst : (s.registry.served.map Prod.fst).Nodup := (Registered.map_fst_served _).nodup s.registry.nodup
  refine List.Nodup.map_on ?_ (List.Nodup.of_map _ hfst)
  rintro ⟨name, i⟩ hp ⟨name', i'⟩ hp' heq
  obtain rfl : i = i' := heq
  obtain ⟨isNil, hc⟩ := h.served name i hp
  obtain ⟨isNil', hc'⟩ := h.served name' i hp'
  rw [hc] at hc'
  cases hc'
  rfl

theorem InitInv.same (h : InitInv all s) (hcreations : s'.creations = s.creations)
    (hregistry : s'.registry = s.registry)
    (herrs : s'.errs = s.errs) (hcancelled : s.cancelled = true → s'.cancelled = true)
    (hahead : s'.pc.ahead = s.pc.ahead) (hinit : s'.pc.initializing = true → s.pc.initializing = true)
    (hwaiting : ∀ name i names, s'.pc = .waiting name i names ↔ s.pc = .waiting name i names) : InitInv all s' where
  outcomes := by rw [herrs, hregistry, hahead]; exact h.outcomes
  sorted := by rw [hregistry, hahead]; exact h.sorted
  early := fun hi => by rw [hregistry]; exact h.early (hinit hi)
  waiting := fun name i names hpc => by rw [hcreations]; exact h.waiting name i names ((hwaiting name i names).1 hpc)
  creations := by
    intro i c hc
    have hok := h.creations i c (hcreations ▸ hc)
    refine ⟨fun ht => ?_, fun ht => by rw [hregistry]; exact hok.received ht, hok.cleaned,
      fun ht => hcancelled (hok.abandoned ht)⟩
    obtain ⟨names, hpc⟩ := hok.loop ht
    exact ⟨names, (hwaiting _ _ _).2 hpc⟩
  served := fun name i hmem => by rw [hcreations]; exact h.served name i (hregistry ▸ hmem)

/-- A call of `CreateService` returns, or its cleanup goroutine ends. -/
theorem InitInv.set (h : InitInv all s) {i : Nat} {c : Creation} (hc : s.creations[i]? = some c) (c' : Creation)
    (hname : c'.name = c.name) (hold : c.taker ≠ .received) (hnew : c'.taker ≠ .received)
    (hloop : c.taker = .loop ↔ c'.taker = .loop) (hcleaned : c'.taker = .cleaned → c'.result ≠ none)
    (habandoned : c'.taker = .abandoned → s.cancelled = true)
    (shutdowns : List Nat) : InitInv all { s with creations := s.creations.set i c', shutdowns } where
  outcomes := h.outcomes
  sorted := h.sorted
  early := h.early
  waiting := by
    intro name j names hpc
    obtain ⟨result, hj⟩ := h.waiting name j names hpc
    by_cases hij : i = j
    · subst hij
      rw [hc] at hj
      cases hj
      refine ⟨c'.result, ?_⟩
      show (s.creations.set i c')[i]? = _
      rw [List.getElem?_set_self (List.getElem?_eq_some_iff.1 hc).1]
      cases c' with
      | mk name' result' taker' =>
        cases hname
        cases hloop.1 rfl
        rfl
    · exact ⟨result, (List.getElem?_set_ne hij).trans hj⟩
  creations := by
    intro j d hd
    rcases Pool.getElem?_set_some hd with ⟨rfl, rfl⟩ | ⟨-, hd⟩
    · refine ⟨fun ht => ?_, fun ht => absurd ht hnew, hcleaned, habandoned⟩
      rw [hname]
      exact (h.creations j c hc).loop (hloop.2 ht)
    · have hok := h.creations j d hd
      exact ⟨hok.loop, hok.received, hok.cleaned, hok.abandoned⟩
  served := by
    intro name j hmem
    obtain ⟨isNil, hj⟩ := h.served name j hmem
    have hij : i ≠ j := by
      rintro rfl
      rw [hc] at hj
      cases hj
      exact hold rfl
    exact ⟨isNil, (List.getElem?_set_ne hij).trans hj⟩

/-- The loop leaves a service with an error, with or without a call of `CreateService`. -/
theorem InitInv.fail (h : InitInv all s) {name : String} {names : List String} (hahead : s.pc.ahead = name :: names)
    (hinit : s.pc.initializing = true) (err : InitError) {creations' : List Creation}
    (hcreations : ∀ (i : Nat) (c : Creation), creations'[i]? = some c → c.taker ≠ .loop ∧
      (s.creations[i]? = some c ∨ c.taker = .cleanup ∨ ∃ err, c.result = some (.error err) ∧ c.taker = .received))
    (hserved : ∀ (i : Nat) (c : Creation), s.creations[i]? = some c → c.taker = .received → creations'[i]? = some c) :
    InitInv all { s with errs := s.errs ++ [(name, err)], creations := creations', pc := .next names } where
  outcomes := by
    have hperm := h.outcomes
    rw [hahead] at hperm
    show ((s.errs ++ [(name, err)]).map Prod.fst ++ s.registry.served.map Prod.fst ++ names).Perm all
    refine List.Perm.trans ?_ hperm
    rw [List.map_append, List.append_assoc, List.append_assoc, List.append_assoc]
    refine List.Perm.append_left _ ?_
    show (name :: (s.registry.served.map Prod.fst ++ names)).Perm (s.registry.served.map Prod.fst ++ name :: names)
    exact List.perm_middle.symm
  sorted := by
    have hsub := h.sorted
    rw [hahead] at hsub
    exact ((List.Sublist.refl _).append (List.sublist_cons_self name names)).trans hsub
  early := fun _ => h.early hinit
  waiting := nofun
  creations := by
    intro i c hc
    obtain ⟨hloop, hcase⟩ := hcreations i c hc
    rcases hcase with hold | hcleanup | ⟨err', hres, hrec⟩
    · have hok := h.creations i c hold
      exact ⟨fun ht => absurd ht hloop, hok.received, hok.cleaned, hok.abandoned⟩
    · have hne : ∀ t, t ≠ .cleanup → c.taker ≠ t := fun t ht heq => ht (heq.symm.trans hcleanup)
      exact ⟨fun ht => absurd ht hloop, fun ht => absurd ht (hne _ nofun), fun ht => absurd ht (hne _ nofun),
        fun ht => absurd ht (hne _ nofun)⟩
    · have hne : ∀ t, t ≠ .received → c.taker ≠ t := fun t ht heq => ht (heq.symm.trans hrec)
      exact ⟨fun ht => absurd ht hloop, fun _ => ⟨_, hres, nofun⟩, fun ht => absurd ht (hne _ nofun),
        fun ht => absurd ht (hne _ nofun)⟩
  served := by
    intro name' i hmem
    obtain ⟨isNil, hi⟩ := h.served name' i hmem
    exact ⟨isNil, hserved i _ hi rfl⟩

/-- The loop calls `CreateService`. -/
theorem InitInv.create (h : InitInv all s) {name : String} {names : List String} (hpc : s.pc = .next (name :: names)) :
    InitInv all { s with
      creations := s.creations ++ [⟨name, none, .loop⟩], pc := .waiting name s.creations.length names } where
  outcomes := by
    have hperm := h.outcomes
    rw [hpc] at hperm
    exact hperm
  sorted := by
    have hsub := h.sorted
    rw [hpc] at hsub
    exact hsub
  early := fun _ => h.early (by rw [hpc]; rfl)
  waiting := by
    intro name' i names' heq
    cases heq
    exact ⟨none, List.getElem?_concat_length⟩
  creations := by
    intro i c hc
    rcases Pool.getElem?_concat_some hc with hc | ⟨rfl, rfl⟩
    · have hok := h.creations i c hc
      refine ⟨fun ht => ?_, hok.received, hok.cleaned, hok.abandoned⟩
      obtain ⟨names', heq⟩ := hok.loop ht
      rw [hpc] at heq
      cases heq
    · exact ⟨fun _ => ⟨names, rfl⟩, nofun, nofun, nofun⟩
  served := by
    intro name' i hmem
    obtain ⟨isNil, hi⟩ := h.served name' i hmem
    exact ⟨isNil, (List.getElem?_append_left (List.getElem?_eq_some_iff.1 hi).1).trans hi⟩

theorem InitInv.not_registered (h : InitInv all s) (hall : all.Nodup) (hinit : s.pc.initializing = true) {name : String}
    (hname : name ∈ s.pc.ahead) : name ∉ s.registry.order := by
  rw [h.early hinit]
  intro hmem
  exact List.disjoint_of_nodup_append (h.sorted.nodup hall) hmem hname

/-- The loop registers the instance it has received. -/
theorem InitInv.register (h : InitInv all s) (isNil : Bool) {name : String} {i : Nat} {names : List String}
    {registry : Registered} (hpc : s.pc = .waiting name i names)
    (hreg : s.registry.register name (some i) = some registry) :
    InitInv all { s with
      creations := s.creations.set i ⟨name, some (.made isNil), .received⟩, pc := .next names, registry } := by
  obtain ⟨horder, hserved⟩ := Registered.served_register hreg
  obtain ⟨result, hi⟩ := h.waiting name i names hpc
  have hlt : i < s.creations.length := (List.getElem?_eq_some_iff.1 hi).1
  have hnames : registry.served.map Prod.fst ++ names = s.registry.served.map Prod.fst ++ name :: names := by
    rw [hserved]
    simp
  refine ⟨?_, ?_, fun _ => ?_, nofun, ?_, ?_⟩
  · have hperm := h.outcomes
    rw [hpc] at hperm
    show (s.errs.map Prod.fst ++ registry.served.map Prod.fst ++ names).Perm all
    rw [List.append_assoc, hnames, ← List.append_assoc]
    exact hperm
  · have hsub := h.sorted
    rw [hpc] at hsub
    show (registry.served.map Prod.fst ++ names).Sublist all
    rw [hnames]
    exact hsub
  · show registry.order = registry.served.map Prod.fst
    rw [horder, hserved, h.early (by rw [hpc]; rfl)]
    simp
  · intro j c hc
    rcases Pool.getElem?_set_some hc with ⟨rfl, rfl⟩ | ⟨hne, hc⟩
    · refine ⟨nofun, fun _ => ⟨_, rfl, fun _ _ => ?_⟩, nofun, nofun⟩
      show (name, j) ∈ registry.served
      rw [hserved]
      simp
    · have hok := h.creations j c hc
      refine ⟨fun ht => ?_, fun ht => ?_, hok.cleaned, hok.abandoned⟩
      · obtain ⟨names', heq⟩ := hok.loop ht
        rw [hpc] at heq
        cases heq
        exact absurd rfl hne
      · obtain ⟨res, hres, hmade⟩ := hok.received ht
        refine ⟨res, hres, fun b hb => ?_⟩
        show (c.name, j) ∈ registry.served
        rw [hserved]
        exact List.mem_append_left _ (hmade b hb)
  · intro name' j hmem
    change (name', j) ∈ registry.served at hmem
    rw [hserved] at hmem
    rcases List.mem_append.1 hmem with hmem | hmem
    · obtain ⟨b, hj⟩ := h.served name' j hmem
      have hij : i ≠ j := by
        rintro rfl
        rw [hi] at hj
        cases hj
      exact ⟨b, (List.getElem?_set_ne hij).trans hj⟩
    · have heq : name' = name ∧ j = i := by simpa using hmem
      obtain ⟨rfl, rfl⟩ := heq
      exact ⟨isNil, List.getElem?_set_self hlt⟩

theorem InitInv.foreign (h : InitInv all s) (hpc : s.pc.initializing = false) (name : String) :
    InitInv all { s with registry := (s.registry.register name none).getD s.registry } := by
  have hserved := Registered.served_register_none s.registry name
  refine ⟨?_, ?_, fun hinit => ?_, h.waiting, fun i c hc => ?_, fun name' i hmem => ?_⟩
  · show (s.errs.map Prod.fst ++ ((s.registry.register name none).getD s.registry).served.map Prod.fst ++ _).Perm all
    rw [hserved]
    exact h.outcomes
  · show (((s.registry.register name none).getD s.registry).served.map Prod.fst ++ _).Sublist all
    rw [hserved]
    exact h.sorted
  · rw [show s.pc.initializing = true from hinit] at hpc
    cases hpc
  · have hok := h.creations i c hc
    refine ⟨hok.loop, fun ht => ?_, hok.cleaned, hok.abandoned⟩
    show ∃ res, c.result = some res ∧ ∀ isNil, res = .made isNil →
      (c.name, i) ∈ ((s.registry.register name none).getD s.registry).served
    rw [hserved]
    exact hok.received ht
  · change (name', i) ∈ ((s.registry.register name none).getD s.registry).served at hmem
    rw [hserved] at hmem
    exact h.served name' i hmem

/-- The loop gives up the creation that it waits for. -/
theorem InitInv.giveUp (h : InitInv all s) {name : String} {i : Nat} {names : List String}
    (hpc : s.pc = .waiting name i names) (err : InitError) {c : Creation} (hloop : c.taker ≠ .loop)
    (hc : c.taker = .cleanup ∨ ∃ err, c.result = some (.error err) ∧ c.taker = .received) :
    InitInv all { s with errs := s.errs ++ [(name, err)], creations := s.creations.set i c, pc := .next names } := by
  obtain ⟨result, hi⟩ := h.waiting name i names hpc
  refine h.fail (by rw [hpc]; rfl) (by rw [hpc]; rfl) err (fun j d hd => ?_) fun j d hd ht => ?_
  · rcases Pool.getElem?_set_some hd with ⟨rfl, rfl⟩ | ⟨hne, hd⟩
    · exact ⟨hloop, .inr hc⟩
    · refine ⟨fun ht => ?_, .inl hd⟩
      obtain ⟨names', heq⟩ := (h.creations j d hd).loop ht
      rw [hpc] at heq
      cases heq
      exact hne rfl
  · have hij : i ≠ j := by
      rintro rfl
      rw [hi] at hd
      cases hd
      cases ht
    exact (List.getElem?_set_ne hij).trans hd

private theorem initInv_move (hall : all.Nodup) (h : InitInv all s) (hm : Move s s') : InitInv all s' := by
  cases hm with
  | initialized hpc =>
    refine h.same rfl rfl rfl id ?_ (fun hinit => by cases hinit) fun name i names => ?_
    · rw [hpc]; rfl
    · rw [hpc]; simp
  | refused name names err hpc =>
    refine h.fail (by rw [hpc]; rfl) (by rw [hpc]; rfl) err (fun i c hc => ⟨fun ht => ?_, .inl hc⟩) fun i c hc _ => hc
    obtain ⟨names', heq⟩ := (h.creations i c hc).loop ht
    rw [hpc] at heq
    cases heq
  | creating name names hpc => exact h.create hpc
  | returned i name res taker hi =>
    have hne : taker ≠ .received := by
      intro ht
      obtain ⟨res', hres, -⟩ := (h.creations i _ hi).received ht
      cases hres
    exact h.set hi ⟨name, some res, taker⟩ rfl hne hne Iff.rfl (fun _ hnone => by cases hnone)
      (h.creations i _ hi).abandoned s.shutdowns
  | received name i names c res hpc hi hres =>
    cases res with
    | error err =>
      exact h.giveUp hpc (.createFailed err) (fun ht => by cases ht) (.inr ⟨err, rfl, rfl⟩)
    | made isNil =>
      have hnew : name ∉ s.registry.order := h.not_registered hall (by rw [hpc]; rfl) (by rw [hpc]; exact .head _)
      cases hreg : s.registry.register name (some i) with
      | none => exact absurd (Registered.register_eq_none.1 hreg) hnew
      | some registry =>
        have hinv := h.register isNil hpc hreg
        simp only [receiveResult, hreg]
        exact hinv
  | timedOut name i names c limit hpc hi =>
    exact h.giveUp hpc (.timedOut limit) (fun ht => by cases ht) (.inl rfl)
  | cancelled => exact h.same rfl rfl rfl (fun _ => rfl) rfl id fun _ _ _ => Iff.rfl
  | cleaned i name res hi =>
    exact h.set hi ⟨name, some res, .cleaned⟩ rfl (fun ht => by cases ht) (fun ht => by cases ht) (by simp)
      (fun _ hnone => by cases hnone) (fun ht => by cases ht) _
  | abandoned i name res hi hcancelled =>
    exact h.set hi ⟨name, res, .abandoned⟩ rfl (fun ht => by cases ht) (fun ht => by cases ht) (by simp)
      (fun ht => by cases ht) (fun _ => hcancelled) s.shutdowns
  | foreign name hpc =>
    refine h.foreign ?_ name
    rcases hpc with hpc | hpc
    · rw [hpc]; rfl
    · rw [hpc]; rfl
  | shutdownAll hpc | stopped hpc | skipped name names hpc hname | spawned name names i hpc hname =>
    refine h.same rfl rfl rfl id ?_ (fun hinit => by cases hinit) fun name i names => ?_
    · rw [hpc]; rfl
    · rw [hpc]; simp
  | awaited name j names i err errs hpc hj | gaveUp name j names errs hpc hexpired =>
    refine h.same rfl rfl rfl id ?_ (fun hinit => by cases hinit) fun name i names => ?_
    · rw [hpc]; rfl
    · rw [hpc]; simp
  | called j i hj | finished j i err hj | expired => exact h.same rfl rfl rfl id rfl id fun _ _ _ => Iff.rfl

/-! ### The goroutines of `ShutdownAll` -/

/-- The names that `ShutdownAll` has not come to. -/
def State.left (s : State) : List String :=
  match s.pc with
  | .stopping names => names
  | .awaiting _ _ names => names
  | .stopped => []
  | _ => s.registry.order.reverse

/-- `ShutdownAll` has come to the last of the services, in the order in which they were created; as long as its context
has not ended, it waits for each of them. -/
structure StopInv (s : State) : Prop where
  fresh : s.pc.initializing = true ∨ s.pc = .initialized → s.stops = []
  reversed : s.stops.map Stop.inst ++ s.left.filterMap s.registry.instanceOf = (s.registry.served.map Prod.snd).reverse
  awaiting : ∀ name j names, s.pc = .awaiting name j names → j + 1 = s.stops.length
  inTurn : s.expired = false → ∀ j st, s.stops[j]? = some st →
    (∃ err, st.phase = .returned err) ∨ ∃ name names, s.pc = .awaiting name j names

private theorem stopInv_before (hpc : s.pc.initializing = true ∨ s.pc = .initialized) (hstops : s.stops = []) :
    StopInv s := by
  have hleft : s.left = s.registry.order.reverse := by
    unfold State.left
    cases hp : s.pc with
    | next | waiting | initialized => rfl
    | stopping | awaiting | stopped =>
      rw [hp] at hpc
      simp [Pc.initializing] at hpc
  refine ⟨fun _ => hstops, ?_, fun name j names heq => ?_, fun _ j st hst => ?_⟩
  · rw [hstops, hleft, Registered.map_snd_served, List.filterMap_reverse]
    rfl
  · rw [heq] at hpc
    simp [Pc.initializing] at hpc
  · rw [hstops] at hst
    cases hst

/-- A goroutine of `ShutdownAll` goes on. -/
theorem StopInv.set (h : StopInv s) {j : Nat} {st : Stop} (hj : s.stops[j]? = some st) (phase : StopPhase)
    (hphase : ∀ err, st.phase ≠ .returned err) (shutdowns : List Nat) :
    StopInv { s with stops := s.stops.set j ⟨st.inst, phase⟩, shutdowns } := by
  obtain ⟨hlt, rfl⟩ := List.getElem?_eq_some_iff.1 hj
  refine ⟨fun hpc => ?_, ?_, fun name k names hpc => ?_, fun hexp k st' hk => ?_⟩
  · rw [h.fresh hpc] at hlt
    cases hlt
  · show (s.stops.set j ⟨(s.stops[j]).inst, phase⟩).map Stop.inst ++ s.left.filterMap s.registry.instanceOf = _
    rw [← h.reversed, List.map_set]
    congr 1
    have hlt' : j < (s.stops.map Stop.inst).length := by rwa [List.length_map]
    have hget : (s.stops[j]).inst = (s.stops.map Stop.inst)[j] := by simp
    rw [hget, List.set_getElem_self]
  · show k + 1 = (s.stops.set j _).length
    rw [List.length_set]
    exact h.awaiting name k names hpc
  · rcases Pool.getElem?_set_some hk with ⟨rfl, rfl⟩ | ⟨-, hk⟩
    · rcases h.inTurn hexp k _ hj with ⟨err, herr⟩ | hpc
      · exact absurd herr (hphase err)
      · exact .inr hpc
    · exact h.inTurn hexp k st' hk

/-- `ShutdownAll` goes on to the next service, or returns. -/
theorem StopInv.goto (h : StopInv s) (pc : Pc)
    (hnew : pc.initializing = false ∧ pc ≠ .initialized) (hawaiting : ∀ name j names, pc ≠ .awaiting name j names)
    (hleft : ({ s with pc } : State).left.filterMap s.registry.instanceOf = s.left.filterMap s.registry.instanceOf)
    (hturn : s.expired = false → ∀ name j names, s.pc = .awaiting name j names →
      ∃ i err, s.stops[j]? = some ⟨i, .returned err⟩)
    (errs : List (String × StopError)) : StopInv { s with pc, stopErrs := errs } := by
  refine ⟨fun hpc => ?_, ?_, fun name j names hpc => absurd hpc (hawaiting name j names), fun hexp j st hst => .inl ?_⟩
  · rcases hpc with hpc | hpc
    · exact absurd (hnew.1.symm.trans hpc) (by decide)
    · exact absurd hpc hnew.2
  · show s.stops.map Stop.inst ++ ({ s with pc } : State).left.filterMap s.registry.instanceOf = _
    rw [hleft]
    exact h.reversed
  · rcases h.inTurn hexp j st hst with hret | ⟨name, names, hpc⟩
    · exact hret
    · obtain ⟨i, err, hj⟩ := hturn hexp name j names hpc
      rw [show s.stops[j]? = some st from hst] at hj
      cases hj
      exact ⟨err, rfl⟩

private theorem stopInv_move (h : StopInv s) (hm : Move s s') : StopInv s' := by
  cases hm with
  | initialized hpc =>
    exact stopInv_before (.inr rfl) (h.fresh (.inl (by rw [hpc]; rfl)))
  | refused name names err hpc | creating name names hpc =>
    exact stopInv_before (.inl rfl) (h.fresh (.inl (by rw [hpc]; rfl)))
  | received name i names c res hpc hi hres =>
    obtain ⟨hpc', hstops, -, -⟩ := receiveResult_eq s name i names res
    refine stopInv_before (.inl (by rw [hpc']; rfl)) ?_
    rw [hstops]
    exact h.fresh (.inl (by rw [hpc]; rfl))
  | timedOut name i names c limit hpc hi =>
    exact stopInv_before (.inl rfl) (h.fresh (.inl (by rw [hpc]; rfl)))
  | returned | cancelled | cleaned | abandoned => exact ⟨h.fresh, h.reversed, h.awaiting, h.inTurn⟩
  | foreign name hpc =>
    rcases hpc with hpc | hpc
    · exact stopInv_before (.inr hpc) (h.fresh (.inr hpc))
    · refine ⟨h.fresh, ?_, h.awaiting, h.inTurn⟩
      have hreversed := h.reversed
      simp only [State.left, hpc, List.filterMap_nil, Registered.served_register_none] at hreversed ⊢
      exact hreversed
  | shutdownAll hpc =>
    refine h.goto (.stopping s.registry.order.reverse) ⟨rfl, nofun⟩ nofun ?_ (fun _ name j names heq => ?_) s.stopErrs
    · simp only [State.left, hpc]
    · rw [hpc] at heq
      cases heq
  | stopped hpc =>
    refine h.goto .stopped ⟨rfl, nofun⟩ nofun ?_ (fun _ name j names heq => ?_) s.stopErrs
    · simp only [State.left, hpc]
    · rw [hpc] at heq
      cases heq
  | skipped name names hpc hname =>
    refine h.goto (.stopping names) ⟨rfl, nofun⟩ nofun ?_ (fun _ name j names heq => ?_) s.stopErrs
    · simp only [State.left, hpc, List.filterMap_cons, hname]
    · rw [hpc] at heq
      cases heq
  | spawned name names i hpc hname =>
    refine ⟨?_, ?_, fun name' j names' heq => ?_, fun hexp j st hst => ?_⟩
    · rintro (heq | heq) <;> cases heq
    · have hreversed := h.reversed
      simp only [State.left, hpc, List.filterMap_cons, hname] at hreversed
      simpa [State.left] using hreversed
    · cases heq
      simp
    · rcases Pool.getElem?_concat_some hst with hst | ⟨rfl, -⟩
      · rcases h.inTurn hexp j st hst with hret | ⟨name', names', heq⟩
        · exact .inl hret
        · rw [hpc] at heq
          cases heq
      · exact .inr ⟨name, names, rfl⟩
  | called j i hj => exact h.set hj .called nofun _
  | finished j i err hj => exact h.set hj (.returned err) nofun s.shutdowns
  | awaited name j names i err errs hpc hj =>
    refine h.goto (.stopping names) ⟨rfl, nofun⟩ nofun ?_ (fun _ name' j' names' heq => ?_) errs
    · simp only [State.left, hpc]
    · rw [hpc] at heq
      cases heq
      exact ⟨i, err, hj⟩
  | expired => exact ⟨h.fresh, h.reversed, h.awaiting, nofun⟩
  | gaveUp name j names errs hpc hexpired =>
    refine h.goto (.stopping names) ⟨rfl, nofun⟩ nofun ?_ (fun hexp => ?_) errs
    · simp only [State.left, hpc]
    · rw [hexpired] at hexp
      cases hexp

/-! ### The calls of `Shutdown` -/

/-- The cleanup goroutine has called `Shutdown` for the instance. -/
def Creation.shutDown (c : Creation) : Bool := c.taker = .cleaned ∧ c.result = some (.made false)

/-- A goroutine of `ShutdownAll` has called `Shutdown` for the instance `i`. -/
def Stop.shutDown (i : Nat) (st : Stop) : Bool := st.inst = i ∧ st.phase ≠ .spawned

/-- How often the cleanup goroutine of the call `i` has called `Shutdown`. -/
def cleanups (creations : List Creation) (i : Nat) : Nat := if (creations[i]?).any Creation.shutDown then 1 else 0

/-- Every call of `Shutdown` is that of a cleanup goroutine or of a goroutine of `ShutdownAll`. -/
def Counted (s : State) : Prop :=
  ∀ i, s.shutdowns.count i = cleanups s.creations i + s.stops.countP (Stop.shutDown i)

private theorem cleanups_set {creations : List Creation} {i : Nat} {c c' : Creation} (hc : creations[i]? = some c)
    (h : c'.shutDown = c.shutDown) (j : Nat) : cleanups (creations.set i c') j = cleanups creations j := by
  unfold cleanups
  by_cases hij : i = j
  · subst hij
    rw [List.getElem?_set_self (List.getElem?_eq_some_iff.1 hc).1, hc, Option.any_some, Option.any_some, h]
  · rw [List.getElem?_set_ne hij]

private theorem cleanups_concat {creations : List Creation} {c : Creation} (h : c.shutDown = false) (j : Nat) :
    cleanups (creations ++ [c]) j = cleanups creations j := by
  unfold cleanups
  rcases Nat.lt_trichotomy j creations.length with hlt | rfl | hgt
  · rw [List.getElem?_append_left hlt]
  · simp [h]
  · rw [List.getElem?_eq_none (by simp; omega), List.getElem?_eq_none (by omega)]

private theorem counted_move (hinv : InitInv all s) (h : Counted s) (hm : Move s s') : Counted s' := by
  intro k
  cases hm with
  | initialized | refused | cancelled | foreign | shutdownAll | stopped | skipped | awaited | expired | gaveUp =>
    exact h k
  | creating name names hpc =>
    rw [h k]
    show _ = cleanups (s.creations ++ [_]) k + _
    rw [cleanups_concat rfl]
  | returned i name res taker hc =>
    have htaker : taker ≠ .cleaned := fun ht => (hinv.creations i _ hc).cleaned ht rfl
    rw [h k]
    show _ = cleanups (s.creations.set i _) k + _
    rw [cleanups_set hc]
    simp [Creation.shutDown, htaker]
  | received name i names c res hpc hc hres =>
    obtain ⟨result, hi⟩ := hinv.waiting name i names hpc
    obtain ⟨-, hstops, hshut, hcreations⟩ := receiveResult_eq s name i names res
    rw [hstops, hshut, hcreations, cleanups_set hi, h k]
    rfl
  | timedOut name i names c limit hpc hc =>
    obtain ⟨result, hi⟩ := hinv.waiting name i names hpc
    rw [h k]
    show _ = cleanups (s.creations.set i _) k + _
    rw [cleanups_set hi]
    rfl
  | cleaned i name res hc =>
    have hk := h k
    show (if res = .made false then s.shutdowns ++ [i] else s.shutdowns).count k =
      cleanups (s.creations.set i _) k + s.stops.countP (Stop.shutDown k)
    by_cases hres : res = .made false
    · rw [if_pos hres, List.count_append, hk]
      by_cases hik : i = k
      · subst hik
        have hlt := (List.getElem?_eq_some_iff.1 hc).1
        have hnone : cleanups s.creations i = 0 := by simp [cleanups, hc, Creation.shutDown]
        have hone : cleanups (s.creations.set i ⟨name, some res, .cleaned⟩) i = 1 := by
          simp [cleanups, List.getElem?_set_self hlt, Creation.shutDown, hres]
        rw [hnone, hone, List.count_singleton_self]
        omega
      · have hsame : cleanups (s.creations.set i ⟨name, some res, .cleaned⟩) k = cleanups s.creations k := by
          rw [cleanups, List.getElem?_set_ne hik, ← cleanups]
        rw [hsame, List.count_singleton, if_neg (by simpa using hik)]
        omega
    · rw [if_neg hres, cleanups_set hc, hk]
      simp [Creation.shutDown, hres]
  | abandoned i name res hc hcancelled =>
    rw [h k]
    show _ = cleanups (s.creations.set i _) k + _
    rw [cleanups_set hc]
    rfl
  | spawned name names i hpc hname =>
    rw [h k]
    show _ = _ + (s.stops ++ [_]).countP _
    rw [List.countP_append]
    simp [Stop.shutDown]
  | called j i hj =>
    have hset := Pool.countP_set (Stop.shutDown k) hj ⟨i, .called⟩
    have hk := h k
    show (s.shutdowns ++ [i]).count k = cleanups s.creations k + (s.stops.set j _).countP _
    rw [List.count_append, hk]
    have hold : Stop.shutDown k ⟨i, .spawned⟩ = false := by simp [Stop.shutDown]
    have hnew : Stop.shutDown k ⟨i, .called⟩ = decide (i = k) := by simp [Stop.shutDown]
    rw [hold, hnew] at hset
    by_cases hik : i = k
    · subst hik
      simp only [Bool.false_eq_true, if_false, decide_true, if_true] at hset
      rw [List.count_singleton_self]
      omega
    · simp only [Bool.false_eq_true, if_false, hik, decide_false] at hset
      rw [List.count_singleton, if_neg (by simpa using hik)]
      omega
  | finished j i err hj =>
    have hset := Pool.countP_set (Stop.shutDown k) hj ⟨i, .returned err⟩
    rw [h k]
    show cleanups s.creations k + _ = cleanups s.creations k + (s.stops.set j _).countP _
    have hsame : Stop.shutDown k ⟨i, .returned err⟩ = Stop.shutDown k ⟨i, .called⟩ := by simp [Stop.shutDown]
    rw [hsame] at hset
    omega

/-! ### Every run -/

structure Inv (all : List String) (s : State) : Prop where
  init : InitInv all s
  stop : StopInv s
  counted : Counted s

theorem inv_initial (config : AnyMap) : Inv (sortStrings config.keys) (initial config) where
  init := ⟨List.Perm.refl _, List.Sublist.refl _, fun _ => rfl, nofun, nofun, nofun⟩
  stop := stopInv_before (.inl rfl) rfl
  counted := fun _ => rfl

theorem inv_of_reachable (h : Reachable (step plugins hasServices createTimeout config) (initial config) s) :
    Inv (sortStrings config.keys) s := by
  have hall : (sortStrings config.keys).Nodup := nodup_sortStrings.2 (AList.keys_nodup config)
  refine h.invariant (inv_initial config) fun s a s' hs ha => ?_
  have hm := step_move ha
  exact ⟨initInv_move hall hs.init hm, stopInv_move hs.stop hm, counted_move hs.init hs.counted hm⟩

variable {i : Nat}

/-- `ShutdownAll` is about registered services. -/
theorem Inv.served_of_stop (h : Inv all s) {st : Stop} (hst : st ∈ s.stops) :
    ∃ name isNil, s.creations[st.inst]? = some ⟨name, some (.made isNil), .received⟩ := by
  have hmem : st.inst ∈ (s.registry.served.map Prod.snd).reverse := by
    rw [← h.stop.reversed]
    exact List.mem_append_left _ (List.mem_map_of_mem hst)
  obtain ⟨⟨name, i⟩, hp, heq⟩ := List.mem_map.1 (List.mem_reverse.1 hmem)
  obtain rfl : i = st.inst := heq
  obtain ⟨isNil, hc⟩ := h.init.served name st.inst hp
  exact ⟨name, isNil, hc⟩

theorem Inv.nodup_stops (h : Inv all s) : (s.stops.map Stop.inst).Nodup := by
  have hnodup := List.nodup_reverse.2 h.init.nodup
  rw [← h.stop.reversed] at hnodup
  exact List.Nodup.of_append_left hnodup

/-- The goroutines of `ShutdownAll` have called `Shutdown` for an instance at most once. -/
theorem Inv.countP_le (h : Inv all s) (i : Nat) : s.stops.countP (Stop.shutDown i) ≤ 1 := by
  have hle : s.stops.countP (Stop.shutDown i) ≤ (s.stops.map Stop.inst).count i := by
    rw [List.count, List.countP_map]
    refine List.countP_mono_left fun st _ hst => ?_
    have hst := of_decide_eq_true hst
    simpa using hst.1
  exact hle.trans (List.nodup_iff_count_le_one.1 h.nodup_stops i)

/-- An instance of a cleanup goroutine is none of `ShutdownAll`. -/
theorem Inv.countP_eq_zero (h : Inv all s) {c : Creation} (hc : s.creations[i]? = some c) (ht : c.taker ≠ .received) :
    s.stops.countP (Stop.shutDown i) = 0 := by
  refine List.countP_eq_zero.2 fun st hst hshut => ?_
  obtain ⟨name, isNil, hserved⟩ := h.served_of_stop hst
  rw [(of_decide_eq_true hshut).1, hc] at hserved
  cases hserved
  exact ht rfl

private theorem cleanups_pos {creations : List Creation} (h : 0 < cleanups creations i) :
    ∃ c, creations[i]? = some c ∧ c.taker = .cleaned ∧ c.result = some (.made false) := by
  unfold cleanups at h
  split_ifs at h with hany
  · obtain ⟨c, hc, hshut⟩ := (Option.any_eq_true _ _).1 hany
    exact ⟨c, hc, of_decide_eq_true hshut⟩
  · exact absurd h (by decide)

theorem Inv.count_le (h : Inv all s) (i : Nat) : s.shutdowns.count i ≤ 1 := by
  rw [h.counted i]
  by_cases hpos : 0 < cleanups s.creations i
  · obtain ⟨c, hc, htaker, -⟩ := cleanups_pos hpos
    rw [h.countP_eq_zero hc (by rw [htaker]; nofun)]
    unfold cleanups
    split_ifs <;> omega
  · have hle := h.countP_le i
    omega

/-- An instance for which `Shutdown` was called. -/
theorem Inv.created (h : Inv all s) (hi : i ∈ s.shutdowns) :
    ∃ c isNil, s.creations[i]? = some c ∧ c.result = some (.made isNil) := by
  have hpos := List.count_pos_iff.2 hi
  rw [h.counted i] at hpos
  by_cases hclean : 0 < cleanups s.creations i
  · obtain ⟨c, hc, -, hres⟩ := cleanups_pos hclean
    exact ⟨c, false, hc, hres⟩
  · obtain ⟨st, hst, hshut⟩ := List.countP_pos_iff.1 (by omega : 0 < s.stops.countP (Stop.shutDown i))
    obtain ⟨name, isNil, hserved⟩ := h.served_of_stop hst
    rw [(of_decide_eq_true hshut).1] at hserved
    exact ⟨_, isNil, hserved, rfl⟩

/-- A registered instance is in use until `ShutdownAll`. -/
theorem Inv.not_shutdown (h : Inv all s) (hpc : s.pc.initializing = true ∨ s.pc = .initialized) {p : String × Nat}
    (hp : p ∈ s.registry.served) : p.2 ∉ s.shutdowns := by
  intro hmem
  have hpos := List.count_pos_iff.2 hmem
  rw [h.counted, h.stop.fresh hpc, List.countP_nil, Nat.add_zero] at hpos
  obtain ⟨c, hc, htaker, -⟩ := cleanups_pos hpos
  obtain ⟨isNil, hserved⟩ := h.init.served p.1 p.2 hp
  rw [hc] at hserved
  cases hserved
  cases htaker

/-- Nothing is left to do: `ShutdownAll` has returned, its goroutines have called `Shutdown`, and no cleanup goroutine
waits. -/
structure Settled (s : State) : Prop where
  stopped : s.pc = .stopped
  called : ∀ st ∈ s.stops, st.phase ≠ .spawned
  cleaned : ∀ c ∈ s.creations, c.taker ≠ .cleanup

/-- What becomes of the services and of the instances. -/
structure Accounted (all : List String) (s : State) : Prop where
  /-- a configured service is registered or has one error, once `InitializeServices` has returned -/
  outcomes : s.pc.initializing = false → (s.errs.map Prod.fst ++ s.registry.served.map Prod.fst).Perm all
  /-- the services are registered in the order of the names -/
  sorted : (s.registry.served.map Prod.fst).Sublist all
  /-- under their own names -/
  own : ∀ name i, (name, i) ∈ s.registry.served →
    ∃ isNil, s.creations[i]? = some ⟨name, some (.made isNil), .received⟩
  /-- `Shutdown` is called for instances that there are -/
  created : ∀ i ∈ s.shutdowns, ∃ c isNil, s.creations[i]? = some c ∧ c.result = some (.made isNil)
  /-- and at most once -/
  once : s.shutdowns.Nodup
  /-- never for a registered service before `ShutdownAll` -/
  inUse : s.pc.initializing = true ∨ s.pc = .initialized → ∀ p ∈ s.registry.served, p.2 ∉ s.shutdowns
  /-- `ShutdownAll` has come to the last services first -/
  reversed : (s.stops.map Stop.inst) <+: (s.registry.served.map Prod.snd).reverse
  /-- and before its deadline, to one only when those after it are down -/
  inTurn : s.expired = false → ∀ j st, s.stops[j]? = some st → j + 1 < s.stops.length → ∃ err, st.phase = .returned err
  /-- in the end an instance is down, unless its cleanup was given up with the context -/
  settled : Settled s → ∀ i c, s.creations[i]? = some c → c.result = some (.made false) →
    (i ∈ s.shutdowns ↔ c.taker ≠ .abandoned) ∧ (c.taker = .abandoned → s.cancelled = true)

/-- When nothing is left to do, the instances that were not abandoned are down. -/
theorem Inv.settled (h : Inv all s) (hs : Settled s) {c : Creation} (hc : s.creations[i]? = some c)
    (hres : c.result = some (.made false)) : i ∈ s.shutdowns ↔ c.taker ≠ .abandoned := by
  have hok := h.init.creations i c hc
  rw [← List.count_pos_iff, h.counted i]
  cases ht : c.taker with
  | loop =>
    obtain ⟨names, hpc⟩ := hok.loop ht
    rw [hs.stopped] at hpc
    cases hpc
  | received =>
    obtain ⟨res, hres', hserved⟩ := hok.received ht
    rw [hres] at hres'
    cases hres'
    have hreversed := h.stop.reversed
    simp only [State.left, hs.stopped, List.filterMap_nil, List.append_nil] at hreversed
    have hmem : i ∈ s.stops.map Stop.inst := by
      rw [hreversed, List.mem_reverse]
      exact List.mem_map.2 ⟨_, hserved false rfl, rfl⟩
    obtain ⟨st, hst, hinst⟩ := List.mem_map.1 hmem
    have hpos : 0 < s.stops.countP (Stop.shutDown i) :=
      List.countP_pos_iff.2 ⟨st, hst, decide_eq_true ⟨hinst, hs.called st hst⟩⟩
    exact ⟨fun _ => nofun, fun _ => by omega⟩
  | cleanup => exact absurd ht (hs.cleaned c (List.mem_of_getElem? hc))
  | cleaned =>
    have hone : cleanups s.creations i = 1 := by simp [cleanups, hc, Creation.shutDown, ht, hres]
    exact ⟨fun _ => nofun, fun _ => by omega⟩
  | abandoned =>
    have hzero : cleanups s.creations i = 0 := by simp [cleanups, hc, Creation.shutDown, ht]
    rw [hzero, h.countP_eq_zero hc (by rw [ht]; nofun)]
    exact ⟨fun hpos => absurd hpos (by decide), fun hne => absurd rfl hne⟩

/-- However the calls of the plugins, the timers, the contexts and the goroutines come in each other's way: every
configured service ends up registered or with an error, and every instance is shut down at most once, and in the end
exactly once, unless it came late and its cleanup was abandoned with the context. -/
theorem services_accounted {plugins : PluginRegistry} {hasServices : Plugin → Bool} {createTimeout : String}
    {config : AnyMap} {s : State} (h : Reachable (step plugins hasServices createTimeout config) (initial config) s) :
    Accounted (sortStrings config.keys) s := by
  have hinv := inv_of_reachable h
  refine ⟨fun hpc => ?_, ?_, hinv.init.served, fun i hi => hinv.created hi, ?_,
    fun hpc p hp => hinv.not_shutdown hpc hp, ?_, fun hexp j st hst hlt => ?_, fun hs i c hc hres => ?_⟩
  · have houtcomes := hinv.init.outcomes
    cases hp : s.pc with
    | next | waiting =>
      rw [hp] at hpc
      cases hpc
    | initialized | stopping | awaiting | stopped =>
      rw [hp] at houtcomes
      simpa [Pc.ahead] using houtcomes
  · exact (List.sublist_append_left _ _).trans hinv.init.sorted
  · exact List.nodup_iff_count_le_one.2 hinv.count_le
  · rw [← hinv.stop.reversed]
    exact List.prefix_append _ _
  · rcases hinv.stop.inTurn hexp j st hst with hret | ⟨name, names, hpc⟩
    · exact hret
    · have hlast := hinv.stop.awaiting name j names hpc
      omega
  · exact ⟨hinv.settled hs hc hres, (hinv.init.creations i c hc).abandoned⟩

def twoDatabases : AnyMap :=
  GoMap.ofPairs [("main-db", .obj [("plugin", .str "postgres")]), ("other-db", .obj [("plugin", .str "postgres")])]

def databasePlugin (plugin : Plugin) : Bool := plugin.name = "postgres"

/-- The second database comes late, and its instance is shut down at once; the first one is shut down at the end. -/
def lateDatabase : List Action :=
  [.loop, .returns 0 (.made false), .receive, .loop, .timeout, .loop, .returns 1 (.made false), .clean 1, .shutdownAll,
    .loop, .call 0, .finish 0 none, .await, .loop]

theorem services_accounted_late : ∃ s,
    run (step twoPlugins databasePlugin "30s" twoDatabases) (initial twoDatabases) lateDatabase = some s ∧
      Settled s ∧ s.shutdowns.Nodup ∧ 0 ∈ s.shutdowns ∧ 1 ∈ s.shutdowns := by
  obtain ⟨s, hrun, hs⟩ := exists_run (step twoPlugins databasePlugin "30s" twoDatabases) (initial twoDatabases)
    lateDatabase (p := fun s => decide (s.pc = .stopped ∧ s.stops = [⟨0, .returned none⟩] ∧
      s.creations = [⟨"main-db", some (.made false), .received⟩, ⟨"other-db", some (.made false), .cleaned⟩]))
    (by decide +kernel)
  obtain ⟨hpc, hstops, hcreations⟩ := of_decide_eq_true hs
  have hacc := services_accounted ⟨_, hrun⟩
  have hsettled : Settled s := ⟨hpc, by rw [hstops]; simp, by rw [hcreations]; simp⟩
  refine ⟨s, hrun, hsettled, hacc.once, ?_, ?_⟩
  · exact (hacc.settled hsettled 0 _ (by rw [hcreations]; rfl) rfl).1.2 (by decide)
  · exact (hacc.settled hsettled 1 _ (by rw [hcreations]; rfl) rfl).1.2 (by decide)

end Noda.Registry.Services
