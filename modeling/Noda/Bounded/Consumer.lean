import Noda.Bounded.Queue

/-!
# A queue with one consumer

The queue as its users have it: any number of goroutines push and close, and one goroutine calls `Pop`, handles what it
gets, and calls `Pop` again.  Whatever the others do, what it has handled is what was taken, in this order, less the
value that a `Pop` is about to hand over (`Served.Ok`).

For this, more is said about a step of the queue than that it is one of a FIFO: what becomes of each call
(`step_follows`), and what of the record of what was taken (`taken_step`).
-/

namespace Noda.Bounded

variable {T : Type} {config : Config} {s s' : State T}

/-! ### What becomes of a call -/

/-- A call goes on in a step from `s`.  A call that has returned stays so, and a `Pop` returns nothing only from a queue
that is closed, or if its context is cancelled. -/
inductive Follows (s : State T) : Call T → Call T → Prop where
  | push {v : T} {pc pc' : PushPc} (h : ∀ r, pc = .returned r → pc' = .returned r) :
      Follows s (.push v pc) (.push v pc')
  | pop {ctx : Nat} {pc pc' : PopPc T} {w w' : Watcher} (h : ∀ u, pc = .returned u → pc' = .returned u)
      (hnone : pc' = .returned none → pc = .returned none ∨ s.closed = true ∨ ctx ∈ s.cancelled) :
      Follows s (.pop ctx pc w) (.pop ctx pc' w')
  | close {pc pc' : ClosePc} (h : pc = .returned → pc' = .returned) : Follows s (.close pc) (.close pc')

theorem Follows.refl (c : Call T) : Follows s c c := by
  cases c with
  | push v pc => exact .push fun _ => id
  | pop ctx pc w => exact .pop (fun _ => id) .inl
  | close pc => exact .close id

theorem Follows.wake {c c' : Call T} (h : Follows s c c') : Follows s c c'.wake := by
  cases h with
  | push h => exact .push h
  | close h => exact .close h
  | @pop ctx pc pc' w w' h hnone =>
    cases pc' with
    | parked =>
      refine .pop (fun u hu => ?_) fun hu => ?_
      · cases h u hu
      · cases hu
    | start | precheck | slow | woken | returned _ => exact .pop h hnone

/-- The calls are the same ones, and each has gone on. -/
structure AllFollow (s : State T) (calls' : List (Call T)) : Prop where
  length : calls'.length = s.calls.length
  follows : ∀ (j : Nat) c, s.calls[j]? = some c → ∃ c', calls'[j]? = some c' ∧ Follows s c c'

theorem AllFollow.set {i : Nat} {c c' : Call T} (hi : s.calls[i]? = some c) (h : Follows s c c') :
    AllFollow s (s.calls.set i c') := by
  refine ⟨List.length_set, fun j d hd => ?_⟩
  by_cases hij : i = j
  · subst hij
    cases hi.symm.trans hd
    exact ⟨c', List.getElem?_set_self (List.getElem?_eq_some_iff.1 hi).1, h⟩
  · exact ⟨d, (List.getElem?_set_ne hij).trans hd, .refl d⟩

theorem Wakes.length {calls calls' : List (Call T)} (hw : Wakes calls calls') : calls'.length = calls.length := by
  have hnone : ∀ k : Nat, calls'[k]? = none ↔ calls[k]? = none := by
    intro k
    rcases hw k with heq | heq
    · rw [heq]
    · rw [heq, Option.map_eq_none_iff]
  simp only [List.getElem?_eq_none_iff] at hnone
  exact Nat.le_antisymm ((hnone _).2 (Nat.le_refl _)) ((hnone _).1 (Nat.le_refl _))

theorem AllFollow.wakes {calls calls' : List (Call T)} (h : AllFollow s calls) (hw : Wakes calls calls') :
    AllFollow s calls' := by
  refine ⟨hw.length.trans h.length, fun j c hc => ?_⟩
  obtain ⟨c', hc', hf⟩ := h.follows j c hc
  rcases hw j with heq | heq
  · exact ⟨c', heq.trans hc', hf⟩
  · exact ⟨c'.wake, heq.trans (by rw [hc']; rfl), hf.wake⟩

private theorem popStep_follows {i ctx : Nat} {pc : PopPc T} {w : Watcher} (hi : s.calls[i]? = some (.pop ctx pc w))
    (hstep : s.popStep i ctx w pc = some s') : AllFollow s s'.calls := by
  -- a `Pop` that has not returned goes to a place where it has not returned without a reason
  have hset : ∀ pc' w', (∀ u, pc ≠ .returned u) → (pc' = .returned none → s.closed = true ∨ ctx ∈ s.cancelled) →
      AllFollow s (s.calls.set i (.pop ctx pc' w')) :=
    fun pc' w' hpc hnone => .set hi (.pop (fun u hu => absurd hu (hpc u)) fun h => .inr (hnone h))
  have hblock : pc = .slow ∨ pc = .woken → AllFollow s (s.popBlock i ctx w).calls := by
    intro hpc
    have hrunning : ∀ u, pc ≠ .returned u := by
      rintro u rfl
      rcases hpc with h | h <;> cases h
    unfold State.popBlock
    split
    · exact hset _ w hrunning (by simp)
    · split_ifs with hclosed hcancelled
      · exact hset _ w hrunning fun _ => .inl hclosed
      · exact hset _ w hrunning fun _ => .inr hcancelled
      · exact hset _ w hrunning (by simp)
  cases pc with
  | start =>
    simp only [State.popStep] at hstep
    split at hstep
    · cases hstep
      exact hset _ w (by simp) (by simp)
    · cases hstep
      refine hset _ w (by simp) fun h => ?_
      split_ifs at h with hclosed
      exact .inl hclosed
  | precheck =>
    simp only [State.popStep] at hstep
    split_ifs at hstep with hcancelled
    · cases hstep
      exact hset _ w (by simp) fun _ => .inr hcancelled
    · cases hstep
      exact hset _ _ (by simp) (by simp)
  | slow =>
    cases hstep
    exact hblock (.inl rfl)
  | woken =>
    cases hstep
    exact hblock (.inr rfl)
  | parked => cases hstep
  | returned u => cases hstep

private theorem pushBlock_follows {i wakes : Nat} {v : T} (hi : s.calls[i]? = some (.push v .locking))
    (hstep : s.pushBlock config i wakes v = some s') : AllFollow s s'.calls := by
  have hset : ∀ r, AllFollow s (s.calls.set i (.push v (.returned r))) := fun r => .set hi (.push (by simp))
  unfold State.pushBlock at hstep
  split_ifs at hstep with hclosed hroom
  · cases hstep
    exact hset .closed
  · obtain ⟨calls', hsignal, rfl⟩ := Option.map_eq_some_iff.1 hstep
    exact (hset .accepted).wakes (wakes_signal hsignal)
  · split at hstep
    · split at hstep
      · cases hstep
      · obtain ⟨calls', hsignal, rfl⟩ := Option.map_eq_some_iff.1 hstep
        exact (hset .accepted).wakes (wakes_signal hsignal)
    · cases hstep
      exact hset .full

private theorem watchStep_follows {i : Nat} {stop : Bool} (hstep : s.watchStep i stop = some s') :
    AllFollow s s'.calls := by
  unfold State.watchStep at hstep
  split at hstep
  · rename_i ctx pc hi
    split at hstep
    · cases hstep
      exact .set hi (.pop (fun _ => id) .inl)
    · cases hstep
    · split_ifs at hstep with hcancelled
      cases hstep
      exact .set hi (.pop (fun _ => id) .inl)
  · rename_i ctx pc hi
    cases hstep
    exact (AllFollow.set hi (.pop (fun _ => id) .inl)).wakes (wakes_broadcast _)
  · cases hstep

theorem step_follows {a : Action T} (hstep : step config s a = some s') :
    (∃ new, a = .call new ∧ s' = { s with calls := s.calls ++ [new.begin] }) ∨ AllFollow s s'.calls := by
  cases a with
  | call c =>
    cases hstep
    exact .inl ⟨c, rfl, rfl⟩
  | cancel ctx =>
    cases hstep
    exact .inr ⟨rfl, fun j d hd => ⟨d, hd, .refl d⟩⟩
  | watch i stop => exact .inr (watchStep_follows hstep)
  | step i wakes =>
    simp only [step, State.callStep] at hstep
    refine .inr ?_
    split at hstep
    · cases hstep
    · rename_i v hi
      cases hstep
      exact .set hi (.push (by simp))
    · rename_i v hi
      exact pushBlock_follows hi hstep
    · cases hstep
    · rename_i ctx pc w hi
      exact popStep_follows hi hstep
    · rename_i pc hi
      cases pc with
      | start =>
        simp only [State.closeStep] at hstep
        split_ifs at hstep with hclosed
        · cases hstep
          exact .set hi (.close (by simp))
        · cases hstep
          exact .set hi (.close (by simp))
      | broadcasting =>
        cases hstep
        exact (AllFollow.set hi (.close (by simp))).wakes (wakes_broadcast _)
      | returned => cases hstep

theorem allFollow_of_step {a : Action T} (ha : ∀ c, a ≠ .call c) (hstep : step config s a = some s') :
    AllFollow s s'.calls := by
  rcases step_follows hstep with ⟨new, rfl, -⟩ | hf
  · exact absurd rfl (ha new)
  · exact hf

theorem AllFollow.of_getElem? {calls' : List (Call T)} (h : AllFollow s calls') {j : Nat} {c' : Call T}
    (hc' : calls'[j]? = some c') : ∃ c, s.calls[j]? = some c ∧ Follows s c c' := by
  have hlt := (List.getElem?_eq_some_iff.1 hc').1
  rw [h.length] at hlt
  have hc : s.calls[j]? = some s.calls[j] := List.getElem?_eq_getElem hlt
  obtain ⟨d, hd, hf⟩ := h.follows j _ hc
  cases hd.symm.trans hc'
  exact ⟨_, hc, hf⟩

/-- A `Push` stays one of the same value, and what it has returned. -/
def Kept (calls calls' : List (Call T)) : Prop :=
  ∀ (j : Nat) v pc, calls[j]? = some (.push v pc) →
    ∃ pc', calls'[j]? = some (.push v pc') ∧ ∀ r, pc = .returned r → pc' = .returned r

theorem kept_concat (calls : List (Call T)) (c : Call T) : Kept calls (calls ++ [c]) := by
  intro j v pc hj
  have hlt := (List.getElem?_eq_some_iff.1 hj).1
  exact ⟨pc, (List.getElem?_append_left hlt).trans hj, fun _ => id⟩

theorem kept_of_allFollow {calls' : List (Call T)} (h : AllFollow s calls') : Kept s.calls calls' := by
  intro j v pc hj
  obtain ⟨c', hc', hf⟩ := h.follows j _ hj
  cases hf with
  | push hret => exact ⟨_, hc', hret⟩

/-- A queue stays closed, and a context cancelled. -/
private theorem step_mono {a : Action T} (hstep : step config s a = some s') :
    (s.closed = true → s'.closed = true) ∧ ∀ c ∈ s.cancelled, c ∈ s'.cancelled := by
  cases step_effect hstep with
  | cancel ctx => exact ⟨id, fun _ => List.mem_cons_of_mem _⟩
  | setClosed hi => exact ⟨fun _ => rfl, fun _ => id⟩
  | call | move | take | accept | evict | reject | broadcast => exact ⟨id, fun _ => id⟩

private theorem step_cancelled {a : Action T} (ha : ∀ ctx, a ≠ .cancel ctx) (hstep : step config s a = some s') :
    s'.cancelled = s.cancelled := by
  cases a with
  | call c =>
    cases hstep
    rfl
  | cancel ctx => exact absurd rfl (ha ctx)
  | watch i stop =>
    simp only [step, State.watchStep] at hstep
    split at hstep
    · split at hstep
      · cases hstep
        rfl
      · cases hstep
      · split_ifs at hstep
        cases hstep
        rfl
    · cases hstep
      rfl
    · cases hstep
  | step i wakes =>
    simp only [step, State.callStep] at hstep
    split at hstep
    · cases hstep
    · cases hstep
      rfl
    · unfold State.pushBlock at hstep
      split_ifs at hstep with hclosed hroom
      · cases hstep
        rfl
      · obtain ⟨calls', -, rfl⟩ := Option.map_eq_some_iff.1 hstep
        rfl
      · split at hstep
        · split at hstep
          · cases hstep
          · obtain ⟨calls', -, rfl⟩ := Option.map_eq_some_iff.1 hstep
            rfl
        · cases hstep
          rfl
    · cases hstep
    · rename_i ctx pc w hi
      have hblock : (s.popBlock i ctx w).cancelled = s.cancelled := by
        unfold State.popBlock
        split
        · rfl
        · split_ifs <;> rfl
      cases pc with
      | start =>
        simp only [State.popStep] at hstep
        split at hstep
        · cases hstep
          rfl
        · cases hstep
          rfl
      | precheck =>
        simp only [State.popStep] at hstep
        split_ifs at hstep
        · cases hstep
          rfl
        · cases hstep
          rfl
      | slow =>
        cases hstep
        exact hblock
      | woken =>
        cases hstep
        exact hblock
      | parked => cases hstep
      | returned u => cases hstep
    · rename_i pc hi
      cases pc with
      | start =>
        simp only [State.closeStep] at hstep
        split_ifs at hstep
        · cases hstep
          rfl
        · cases hstep
          rfl
      | broadcasting =>
        cases hstep
        rfl
      | returned => cases hstep

/-! ### What is taken -/

/-- What the call has got from the queue. -/
def State.given (s : State T) (j : Nat) : List T := (Pool.logOf Call.removedLog s.calls j).map Prod.fst

/-- A step leaves what was taken as it is, or one `Pop` takes one value more. -/
theorem taken_step {a : Action T} (hstep : step config s a = some s') :
    (s'.fifo.taken = s.fifo.taken ∧ ∀ j, s'.given j = s.given j) ∨
    ∃ i ctx pc w v, s.calls[i]? = some (.pop ctx pc w) ∧ (∀ u, pc ≠ .returned u) ∧
      s'.fifo.taken = s.fifo.taken ++ [v] ∧ s'.given i = s.given i ++ [v] ∧ ∀ j, j ≠ i → s'.given j = s.given j := by
  have hset : ∀ {i : Nat} {c : Call T} (c' : Call T), s.calls[i]? = some c → c'.removedLog i = c.removedLog i →
      ∀ j, Pool.logOf Call.removedLog (s.calls.set i c') j = Pool.logOf Call.removedLog s.calls j := by
    intro i c c' hi hlog j
    by_cases hij : i = j
    · subst hij
      rw [Pool.logOf_set_self c' hi, Pool.logOf_eq hi, hlog]
    · exact Pool.logOf_set_ne c' hij
  have hgiven : ∀ calls', (∀ j, Pool.logOf Call.removedLog calls' j = Pool.logOf Call.removedLog s.calls j) →
      ∀ j, (Pool.logOf Call.removedLog calls' j).map Prod.fst = s.given j :=
    fun calls' h j => congrArg (List.map Prod.fst) (h j)
  cases step_effect hstep with
  | call c =>
    refine .inl ⟨rfl, hgiven _ fun j => ?_⟩
    have hnew : c.begin.removedLog s.calls.length = [] := by cases c <;> rfl
    rcases Nat.lt_trichotomy j s.calls.length with hlt | rfl | hgt
    · rw [Pool.logOf, Pool.logOf, List.getElem?_append_left hlt]
    · simp [Pool.logOf, hnew]
    · rw [Pool.logOf, Pool.logOf, List.getElem?_eq_none (by simp; omega), List.getElem?_eq_none (by omega)]
  | cancel ctx => exact .inl ⟨rfl, fun _ => rfl⟩
  | move hi hm => exact .inl ⟨rfl, hgiven _ (hset _ hi (hm.removed _))⟩
  | setClosed hi => exact .inl ⟨rfl, hgiven _ (hset _ hi rfl)⟩
  | reject hi hfull => exact .inl ⟨rfl, hgiven _ (hset _ hi rfl)⟩
  | broadcast hi hlogs hok =>
    exact .inl ⟨rfl, hgiven _ fun j => ((wakes_broadcast _).logOf j).2.2.trans (hset _ hi (hlogs _).2.2 j)⟩
  | accept hi hopen hroom hsignal =>
    exact .inl ⟨rfl, hgiven _ fun j => ((wakes_signal hsignal).logOf j).2.2.trans
      (hset (.push _ (.returned .accepted)) hi rfl j)⟩
  | evict hi hopen hfull hpolicy hbuf hsignal =>
    refine .inl ⟨?_, hgiven _ fun j => ((wakes_signal hsignal).logOf j).2.2.trans
      (hset (.push _ (.returned .accepted)) hi rfl j)⟩
    simp [Fifo.Queue.taken, State.fifo]
  | @take i ctx pc w v rest hi hpc hbuf =>
    refine .inr ⟨i, ctx, pc, w, v, hi, hpc, ?_, ?_, fun j hj => ?_⟩
    · simp [Fifo.Queue.taken, State.fifo, State.take]
    · have hlog : Call.removedLog i (.pop ctx pc w) = [] := by
        cases pc with
        | returned u => exact absurd rfl (hpc u)
        | start | precheck | slow | parked | woken => rfl
      rw [State.given, State.given, Pool.logOf_eq hi, hlog]
      exact congrArg (List.map Prod.fst) (Pool.logOf_set_self _ hi)
    · exact congrArg (List.map Prod.fst) (Pool.logOf_set_ne _ (Ne.symm hj))

/-! ### What is accepted -/

theorem mem_accepted_iff (h : Inv config s) {j : Nat} {v : T} :
    (j, v) ∈ s.accepted ↔ s.calls[j]? = some (.push v (.returned .accepted)) := by
  have hmem : (j, v) ∈ s.accepted ↔ (j, v) ∈ Pool.logOf Call.acceptedLog s.calls j := by
    rw [← h.accepted j]
    simp
  rw [hmem]
  unfold Pool.logOf
  cases hc : s.calls[j]? with
  | none => simp
  | some c =>
    cases c with
    | pop ctx pc w => simp [Call.acceptedLog]
    | close pc => simp [Call.acceptedLog]
    | push u pc =>
      cases pc with
      | start => simp [Call.acceptedLog]
      | locking => simp [Call.acceptedLog]
      | returned r =>
        cases r with
        | accepted => simp [Call.acceptedLog, eq_comm]
        | full | closed => simp [Call.acceptedLog]

/-- Each call is accepted once at most. -/
theorem accepted_nodup (h : Inv config s) : (s.accepted.map Prod.fst).Nodup := by
  rw [List.nodup_iff_count_le_one]
  intro j
  have hlog : (Pool.logOf Call.acceptedLog s.calls j).length ≤ 1 := by
    unfold Pool.logOf
    split
    · unfold Call.acceptedLog
      split
      · exact Nat.le_refl 1
      · exact Nat.zero_le 1
    · exact Nat.zero_le 1
  rw [← h.accepted j, ← List.countP_eq_length_filter] at hlog
  rw [List.count, List.countP_map]
  refine Nat.le_trans (Nat.le_of_eq (List.countP_congr fun e _ => ?_)) hlog
  simp

theorem accepted_prefix {a : Action T} (hstep : step config s a = some s') : s.accepted <+: s'.accepted := by
  cases step_effect hstep with
  | accept | evict => exact List.prefix_append _ _
  | call | cancel | move | take | reject | setClosed | broadcast => exact List.prefix_refl _

/-! ### The consumer -/

/-- The goroutine that calls `Pop`, with the number of the call; it handles what it gets. -/
inductive Consumer (T : Type) where
  | popping (call : Nat)
  | handling (v : T)
  | exited
  deriving DecidableEq, Repr

/-- A queue, its consumer, and what this has handled. -/
structure Served (T : Type) where
  queue : State T
  consumer : Consumer T
  handled : List T

namespace Served

variable {d : Served T}

/-- The context of the consumer. -/
def ctx : Nat := 0

/-- The consumer has begun to wait for a first value. -/
def start : Served T := ⟨{ initial with calls := [.pop ctx .start .absent] }, .popping 0, []⟩

/-- What the `Pop` of the consumer has got and not yet handed over. -/
def hand (d : Served T) : List T :=
  match d.consumer with
  | .popping i => d.queue.given i
  | _ => []

/-- The consumer goes on: it handles what its `Pop` has returned, or ends with a `Pop` that returned nothing. -/
def receive (d : Served T) : Option (Served T) :=
  match d.consumer with
  | .popping i =>
    match d.queue.calls[i]? with
    | some (.pop _ (.returned (some v)) _) => some { d with consumer := .handling v, handled := d.handled ++ [v] }
    | some (.pop _ (.returned none) _) => some { d with consumer := .exited }
    | _ => none
  | _ => none

/-- The consumer has handled a value, and calls `Pop` again. -/
def again (d : Served T) : Served T :=
  { d with
    queue := { d.queue with calls := d.queue.calls ++ [.pop ctx .start .absent] }
    consumer := .popping d.queue.calls.length }

structure Ok (config : Config) (d : Served T) : Prop where
  inv : Inv config d.queue
  taken : d.queue.fifo.taken = d.handled ++ d.hand
  /-- only the consumer is about to take something -/
  alone : ∀ (i : Nat) c pc w, d.queue.calls[i]? = some (.pop c pc w) → d.consumer = .popping i ∨ ∃ u, pc = .returned u
  popping : ∀ i, d.consumer = .popping i → ∃ pc w, d.queue.calls[i]? = some (.pop ctx pc w)
  /-- it gets nothing only when it is over -/
  ended : ∀ (i : Nat) c w, d.queue.calls[i]? = some (.pop c (.returned none) w) →
    d.queue.closed = true ∨ c ∈ d.queue.cancelled

theorem ok_start (config : Config) : Ok config (start : Served T) where
  inv := (inv_initial config).call (.pop ctx)
  taken := rfl
  alone := by
    intro i c pc w hi
    cases i with
    | zero => exact .inl rfl
    | succ i => cases hi
  popping := by
    intro i hi
    cases hi
    exact ⟨.start, .absent, rfl⟩
  ended := by
    intro i c w hi
    cases i with
    | zero => cases hi
    | succ i => cases hi

/-- Whatever else happens to the queue. -/
theorem Ok.step (h : Ok config d) {a : Action T} (ha : ∀ c, a ≠ .call (.pop c)) {queue' : State T}
    (hstep : Bounded.step config d.queue a = some queue') : Ok config { d with queue := queue' } := by
  have hpop : ∀ {j : Nat} {c : Nat} {pc' : PopPc T} {w' : Watcher}, queue'.calls[j]? = some (.pop c pc' w') →
      ∃ pc w, d.queue.calls[j]? = some (.pop c pc w) ∧ (∀ u, pc = .returned u → pc' = .returned u) ∧
        (pc' = .returned none → pc = .returned none ∨ d.queue.closed = true ∨ c ∈ d.queue.cancelled) := by
    intro j c pc' w' hj
    rcases step_follows hstep with ⟨new, rfl, rfl⟩ | hf
    · rcases Pool.getElem?_concat_some hj with hj | ⟨-, hnew⟩
      · exact ⟨pc', w', hj, fun _ => id, .inl⟩
      · cases new with
        | pop c' => exact absurd rfl (ha c')
        | push v => cases hnew
        | close => cases hnew
    · obtain ⟨c₀, hc₀, hf⟩ := hf.of_getElem? hj
      cases hf with
      | pop hret hnone => exact ⟨_, _, hc₀, hret, hnone⟩
  refine ⟨inv_step _ _ _ h.inv hstep, ?_, fun j c pc' w' hj => ?_, fun i hi => ?_, fun j c w' hj => ?_⟩
  · rcases taken_step hstep with ⟨htaken, hgiven⟩ | ⟨i, c, pc, w, v, hi, hpc, htaken, hgiven, -⟩
    · rw [htaken, h.taken]
      cases hd : d.consumer with
      | popping i => simp only [hand, hd, hgiven i]
      | handling v | exited => simp only [hand, hd]
    · -- the one that takes is the consumer
      have hconsumer : d.consumer = .popping i := (h.alone i c pc w hi).resolve_right fun ⟨u, hu⟩ => hpc u hu
      rw [htaken, h.taken]
      simp only [hand, hconsumer, hgiven, List.append_assoc]
  · obtain ⟨pc, w, hold, hret, -⟩ := hpop hj
    exact (h.alone j c pc w hold).imp_right fun ⟨u, hu⟩ => ⟨u, hret u hu⟩
  · obtain ⟨pc, w, hold⟩ := h.popping i hi
    rcases step_follows hstep with ⟨new, rfl, rfl⟩ | hf
    · exact ⟨pc, w, (List.getElem?_append_left (List.getElem?_eq_some_iff.1 hold).1).trans hold⟩
    · obtain ⟨c', hc', hf⟩ := hf.follows i _ hold
      cases hf with
      | pop hret hnone => exact ⟨_, _, hc'⟩
  · obtain ⟨pc, w, hold, -, hnone⟩ := hpop hj
    obtain ⟨hclosed, hcancelled⟩ := step_mono hstep
    rcases hnone rfl with rfl | hover
    · exact (h.ended j c w hold).imp hclosed (hcancelled c)
    · exact hover.imp hclosed (hcancelled c)

/-- Nothing has been closed or cancelled, and the consumer goes on. -/
structure Open (d : Served T) : Prop where
  calls : ∀ pc, Call.close pc ∉ d.queue.calls
  queue : d.queue.closed = false
  context : d.queue.cancelled = []
  consumer : d.consumer ≠ .exited

theorem open_start : Open (start : Served T) := by
  refine ⟨fun pc hpc => ?_, rfl, rfl, by simp [start]⟩
  cases List.mem_singleton.1 hpc

theorem Open.step (h : Open d) {a : Action T} {queue' : State T} (hcancel : ∀ c, a ≠ .cancel c)
    (hf : AllFollow d.queue queue'.calls) (hstep : Bounded.step config d.queue a = some queue') :
    Open { d with queue := queue' } := by
  have hclosed : queue'.closed = d.queue.closed := by
    cases step_effect hstep with
    | setClosed hi => exact absurd (List.mem_of_getElem? hi) (h.calls .start)
    | call | cancel | move | take | accept | evict | reject | broadcast => rfl
  refine ⟨fun pc hpc => ?_, hclosed.trans h.queue, (step_cancelled hcancel hstep).trans h.context, h.consumer⟩
  obtain ⟨j, hj⟩ := List.mem_iff_getElem?.1 hpc
  obtain ⟨c, hc, hf⟩ := hf.of_getElem? hj
  cases hf with
  | close _ => exact h.calls _ (List.mem_of_getElem? hc)

theorem Open.call (h : Open d) {c : Call T} (hc : ∀ pc, c ≠ .close pc) :
    Open { d with queue := { d.queue with calls := d.queue.calls ++ [c] } } := by
  refine ⟨fun pc hpc => ?_, h.queue, h.context, h.consumer⟩
  rcases List.mem_append.1 hpc with hpc | hpc
  · exact h.calls pc hpc
  · exact hc pc (List.mem_singleton.1 hpc).symm

theorem Open.again (h : Open d) : Open d.again := by
  have hcall := h.call (c := .pop ctx .start .absent) (by simp)
  exact ⟨hcall.calls, hcall.queue, hcall.context, by simp [Served.again]⟩

private theorem given_of_returned {q : State T} {i : Nat} {c : Nat} {u : Option T} {w : Watcher}
    (hi : q.calls[i]? = some (.pop c (.returned u) w)) : q.given i = u.toList := by
  rw [State.given, Pool.logOf_eq hi]
  cases u <;> rfl

theorem Ok.receive (h : Ok config d) {d' : Served T} (hstep : d.receive = some d') :
    Ok config d' ∧ d'.queue = d.queue ∧
      ((∃ v, d'.consumer = .handling v ∧ d'.handled = d.handled ++ [v]) ∨
        d'.consumer = .exited ∧ d'.handled = d.handled ∧ (d.queue.closed = true ∨ ctx ∈ d.queue.cancelled)) := by
  unfold Served.receive at hstep
  split at hstep
  · rename_i i hconsumer
    have halone : ∀ {c u w}, d.queue.calls[i]? = some (.pop c (.returned u) w) →
        ∀ (j : Nat) c pc w, d.queue.calls[j]? = some (.pop c pc w) → ∃ u, pc = .returned u := by
      intro c u w hi j c' pc w' hj
      rcases h.alone j c' pc w' hj with hj' | hret
      · rw [hconsumer] at hj'
        cases hj'
        cases hi.symm.trans hj
        exact ⟨u, rfl⟩
      · exact hret
    split at hstep
    · rename_i c v w hi
      cases hstep
      have hgiven := given_of_returned hi
      refine ⟨⟨h.inv, ?_, fun j c pc w hj => .inr (halone hi j c pc w hj), fun j hj => ?_, h.ended⟩, rfl,
        .inl ⟨v, rfl, rfl⟩⟩
      · rw [h.taken]
        simp only [hand, hconsumer, hgiven, Option.toList_some, List.append_nil]
      · cases hj
    · rename_i c w hi
      cases hstep
      have hgiven := given_of_returned hi
      refine ⟨⟨h.inv, ?_, fun j c pc w hj => .inr (halone hi j c pc w hj), fun j hj => ?_, h.ended⟩, rfl,
        .inr ⟨rfl, rfl, ?_⟩⟩
      · rw [h.taken]
        simp only [hand, hconsumer, hgiven, Option.toList_none]
      · cases hj
      · obtain ⟨pc, w', hi'⟩ := h.popping i hconsumer
        cases hi.symm.trans hi'
        exact h.ended i ctx w hi
    · cases hstep
  · cases hstep

theorem Open.receive (hopen : Open d) (h : Ok config d) {d' : Served T} (hstep : d.receive = some d') : Open d' := by
  obtain ⟨-, hqueue, hconsumer⟩ := h.receive hstep
  refine ⟨by rw [hqueue]; exact hopen.calls, by rw [hqueue]; exact hopen.queue, by rw [hqueue]; exact hopen.context, ?_⟩
  rcases hconsumer with ⟨v, hv, -⟩ | ⟨-, -, hover⟩
  · rw [hv]
    simp
  · rw [hopen.queue, hopen.context] at hover
    simp at hover

theorem Ok.again (h : Ok config d) {v : T} (hconsumer : d.consumer = .handling v) : Ok config d.again := by
  have hret : ∀ (i : Nat) c pc w, d.queue.calls[i]? = some (.pop c pc w) → ∃ u, pc = .returned u := by
    intro i c pc w hi
    refine (h.alone i c pc w hi).resolve_left fun heq => ?_
    rw [hconsumer] at heq
    cases heq
  refine ⟨h.inv.call (.pop ctx), ?_, fun i c pc w hi => ?_, fun i hi => ?_, fun i c w hi => ?_⟩
  · have htaken := h.taken
    rw [hand, hconsumer] at htaken
    show d.queue.fifo.taken = d.handled ++ _
    rw [htaken]
    simp [hand, Served.again, State.given, Pool.logOf, Call.removedLog]
  · rcases Pool.getElem?_concat_some hi with hi | ⟨rfl, -⟩
    · exact .inr (hret i c pc w hi)
    · exact .inl rfl
  · cases hi
    exact ⟨.start, .absent, List.getElem?_concat_length⟩
  · rcases Pool.getElem?_concat_some hi with hi | ⟨-, heq⟩
    · exact h.ended i c w hi
    · cases heq

theorem Ok.exit (h : Ok config d) {v : T} (hconsumer : d.consumer = .handling v) :
    Ok config { d with consumer := .exited } := by
  have htaken := h.taken
  rw [hand, hconsumer] at htaken
  refine ⟨h.inv, htaken, fun i c pc w hi => .inr ?_, fun i hi => ?_, h.ended⟩
  · refine (h.alone i c pc w hi).resolve_left fun heq => ?_
    rw [hconsumer] at heq
    cases heq
  · cases hi

/-- A consumer that waits has nothing to take. -/
theorem Ok.buf_of_parked (h : Ok config d) {i : Nat} {c : Nat} {w : Watcher}
    (hi : d.queue.calls[i]? = some (.pop c .parked w)) : d.queue.buf = [] := by
  have hwaking := h.inv.waking _ (List.mem_of_getElem? hi) rfl
  have hnobody : d.queue.calls.countP Call.isWoken = 0 := by
    rw [List.countP_eq_zero]
    intro e he hwoken
    obtain ⟨j, hj⟩ := List.mem_iff_getElem?.1 he
    cases e with
    | push v pc => cases hwoken
    | close pc => cases hwoken
    | pop c' pc w' =>
      rcases h.alone j c' pc w' hj with hj' | ⟨u, rfl⟩
      · have hi' := (h.alone i c .parked w hi).resolve_right fun ⟨u, hu⟩ => by cases hu
        rw [hj'] at hi'
        cases hi'
        cases hi.symm.trans hj
        cases hwoken
      · cases hwoken
  rw [hnobody] at hwaking
  exact List.eq_nil_of_length_eq_zero (Nat.le_zero.1 hwaking)

/-- What has been handled, in order: what was accepted, less what was evicted, what the consumer is about to get and
what is in the buffer. -/
theorem Ok.order (h : Ok config d) : ∃ removed : List (T × Option Nat),
    d.queue.accepted.map Prod.snd = removed.map Prod.fst ++ d.queue.buf ∧
    (removed.filter (·.2.isSome)).map Prod.fst = d.handled ++ d.hand ∧
    (config.policy ≠ .dropOldest → ∀ e ∈ removed, e.2.isSome = true) := by
  refine ⟨d.queue.removed, h.inv.fifo.order, h.taken, fun hpolicy e he => ?_⟩
  have hevicted := h.inv.policy hpolicy
  rw [Fifo.Queue.evicted, List.map_eq_nil_iff, List.filter_eq_nil_iff] at hevicted
  have hnot := hevicted e he
  cases he2 : e.2 with
  | none => exact absurd (by rw [he2]; rfl) hnot
  | some i => rfl

end Served

end Noda.Bounded
