import Noda.Lib.Duration
import Noda.Lib.Pool
import Noda.Lib.Transition
import Noda.Engine.Config

/-!
# The scheduler

`runJob` on any number of instances that share a Redis server: the overlap guard of the instance, the lock of the tick,
and the workflow, whose course is left to the environment.  Every access to the guard or to Redis is one step, and time
passes between steps as the environment likes.  Durations are nanoseconds in 64 bits; times are those of the server.

`tryAcquireLock` replaces an unset TTL by five minutes, `runJob` raises only a TTL that is set.  The lock outlives the
job exactly if a TTL is set (and the sum does not overflow) or the job takes at most five minutes (`ttlOk_iff`); then,
and only then, no two instances run a tick at once (`tick_exclusive_iff`).
-/

namespace Noda.Scheduler

open Transition Engine

/-! ### Configuration -/

/-- `ScheduleConfig`, as far as `runJob` and the lock read it. -/
structure ScheduleConfig where
  id : String
  lockSvcName : String
  lockEnabled : Bool
  lockTTL : Int
  timeout : Int
  deriving DecidableEq, Repr

/-- `raw[key].(map[string]any)`. -/
def objField (raw : Config) (key : String) : Config :=
  match raw.lookup key with
  | some (.obj fields) => fields
  | _ => []

/-- A field with a duration; what cannot be parsed is unset. -/
def durationField (raw : Config) (key : String) : Int :=
  match raw.lookup key with
  | some (.str s) => (Duration.parse s).getD 0
  | _ => 0

def boolField (raw : Config) (key : String) : Bool :=
  match raw.lookup key with
  | some (.bool b) => b
  | _ => false

/-- One schedule of `ParseScheduleConfigs`. -/
def parseScheduleConfig (raw : Config) : ScheduleConfig where
  id := strField raw "id"
  lockSvcName := strField (objField raw "services") "lock"
  lockEnabled := boolField (objField raw "lock") "enabled"
  lockTTL := durationField (objField raw "lock") "ttl"
  timeout := durationField raw "timeout"

def second : Int := 1000000000

/-- `defaultJobTimeout`. -/
def defaultJobTimeout : Int := 5 * 60 * second

/-- The 64-bit value of a sum of durations. -/
def wrap (d : Int) : Int := (d + 2 ^ 63) % 2 ^ 64 - 2 ^ 63

def ScheduleConfig.effectiveTimeout (sc : ScheduleConfig) : Int :=
  if sc.timeout = 0 then defaultJobTimeout else sc.timeout

/-- The TTL that `runJob` hands to `tryAcquireLock`. -/
def ScheduleConfig.requestedTTL (sc : ScheduleConfig) : Int :=
  let extended := wrap (sc.effectiveTimeout + 30 * second)
  if sc.lockTTL > 0 ∧ sc.lockTTL < extended then extended else sc.lockTTL

/-- The TTL that `tryAcquireLock` sets. -/
def ScheduleConfig.effectiveTTL (sc : ScheduleConfig) : Int :=
  if sc.requestedTTL = 0 then 5 * 60 * second else sc.requestedTTL

/-- `scheduleLockKey`; `t` is in nanoseconds. -/
def scheduleLockKey (id : String) (t : Int) : String := "noda:schedule:" ++ id ++ ":" ++ toString (t / second)

/-! ### Jobs -/

/-- What is recorded of a job. -/
inductive JobRun where
  | overlap
  | lockServiceNotFound
  | lockError
  | lockNotAcquired
  | finished (success : Bool)
  | panicked
  deriving DecidableEq, Repr

/-- Where a job is: before the guard, before the lock, in its workflow, before the deferred release of the guard, or at
its end. -/
inductive Phase where
  | fired
  | guarded
  | running
  | leaving (run : JobRun)
  | returned (run : JobRun)
  deriving DecidableEq, Repr

/-- A call of `runJob` on an instance, with the time at which it has acquired its lock. -/
structure Job where
  inst : Nat
  sc : ScheduleConfig
  fireTime : Int
  phase : Phase
  acquiredAt : Option Int
  deriving DecidableEq, Repr

/-- The clock, the expiry of the keys at the Redis server, the guards that are taken, and the jobs. -/
structure State where
  now : Int
  locks : GoMap Int
  guards : List (Nat × String)
  jobs : List Job

def initial : State := ⟨0, ∅, [], []⟩

/-- What the environment decides in a step of a job: whether it panics, whether the command fails, and if so, whether it
has taken effect, and whether the input mapping and the workflow succeed. -/
structure Choice where
  panics : Bool
  fails : Bool
  tookEffect : Bool
  success : Bool
  deriving DecidableEq, Repr

inductive Action where
  | fire (inst k : Nat) (fireTime : Int)
  | step (i : Nat) (c : Choice)
  | tick (d : Nat)
  deriving DecidableEq, Repr

/-- The key holds an unexpired value. -/
def State.isLocked (s : State) (key : String) : Bool := (s.locks.lookup key).any (s.now < ·)

/-- `SET key token NX` with the TTL of the schedule. -/
def State.setNX (s : State) (j : Job) : GoMap Int :=
  let key := scheduleLockKey j.sc.id j.fireTime
  if s.isLocked key then s.locks else s.locks.insert key (s.now + j.sc.effectiveTTL)

variable (present : String → Bool)

/-- The part of `runJob` between the guard and the workflow. -/
def lockStep (s : State) (j : Job) (c : Choice) : GoMap Int × Job :=
  if c.panics then (s.locks, { j with phase := .leaving .panicked })
  else if j.sc.lockEnabled ∧ j.sc.lockSvcName ≠ "" then
    if !present j.sc.lockSvcName then (s.locks, { j with phase := .leaving .lockServiceNotFound })
    else if c.fails then (if c.tookEffect then s.setNX j else s.locks, { j with phase := .leaving .lockError })
    else if s.isLocked (scheduleLockKey j.sc.id j.fireTime) then
      (s.locks, { j with phase := .leaving .lockNotAcquired })
    else (s.setNX j, { j with phase := .running, acquiredAt := some s.now })
  else (s.locks, { j with phase := .running })

/-- A step of a job. -/
def runJob (s : State) (i : Nat) (j : Job) (c : Choice) : Option State :=
  match j.phase with
  | .fired =>
    if (j.inst, j.sc.id) ∈ s.guards then some { s with jobs := s.jobs.set i { j with phase := .returned .overlap } }
    else some { s with
      guards := (j.inst, j.sc.id) :: s.guards
      jobs := s.jobs.set i { j with phase := .guarded } }
  | .guarded =>
    let r := lockStep present s j c
    some { s with locks := r.1, jobs := s.jobs.set i r.2 }
  | .running =>
    let run := if c.panics then .panicked else .finished c.success
    some { s with jobs := s.jobs.set i { j with phase := .leaving run } }
  | .leaving run =>
    some { s with
      guards := s.guards.erase (j.inst, j.sc.id)
      jobs := s.jobs.set i { j with phase := .returned run } }
  | .returned _ => none

def step (schedules : List ScheduleConfig) (s : State) : Action → Option State
  | .fire inst k fireTime =>
    schedules[k]?.map fun sc => { s with jobs := s.jobs ++ [⟨inst, sc, fireTime, .fired, none⟩] }
  | .step i c =>
    match s.jobs[i]? with
    | none => none
    | some j => runJob present s i j c
  | .tick d => some { s with now := s.now + d }

/-! ### The TTL of the lock -/

/-- The timeout and the TTL are durations, and not negative. -/
structure ScheduleConfig.InRange (sc : ScheduleConfig) : Prop where
  timeout : 0 ≤ sc.timeout ∧ sc.timeout < 2 ^ 63
  lockTTL : 0 ≤ sc.lockTTL ∧ sc.lockTTL < 2 ^ 63

/-- An unset TTL goes with a timeout of at most five minutes, and a TTL that is set with a timeout that can be extended,
or that it exceeds anyway. -/
def ScheduleConfig.TtlOk (sc : ScheduleConfig) : Prop :=
  if sc.lockTTL = 0 then sc.effectiveTimeout ≤ 5 * 60 * second
  else sc.effectiveTimeout + 30 * second < 2 ^ 63 ∨ sc.effectiveTimeout ≤ sc.lockTTL

instance (sc : ScheduleConfig) : Decidable sc.TtlOk :=
  inferInstanceAs (Decidable (if sc.lockTTL = 0 then _ else _))

variable {sc : ScheduleConfig}

private theorem effectiveTimeout_pos (h : sc.InRange) : 0 < sc.effectiveTimeout ∧ sc.effectiveTimeout < 2 ^ 63 := by
  have := h.timeout
  unfold ScheduleConfig.effectiveTimeout defaultJobTimeout second
  split_ifs with h0
  · omega
  · omega

private theorem wrap_cases {d : Int} (h0 : 0 ≤ d) (h : d < 2 ^ 64) : wrap d = if d < 2 ^ 63 then d else d - 2 ^ 64 := by
  unfold wrap
  split_ifs with hd
  · omega
  · omega

private theorem effectiveTTL_pos (h : sc.InRange) : 0 < sc.effectiveTTL := by
  have hT := effectiveTimeout_pos h
  have hL := h.lockTTL
  unfold ScheduleConfig.effectiveTTL ScheduleConfig.requestedTTL second
  dsimp only
  split_ifs with h1 h2 h3
  · omega
  · omega
  · omega
  · omega

/-- The lock outlives the job. -/
theorem ttlOk_iff (h : sc.InRange) : sc.TtlOk ↔ sc.effectiveTimeout ≤ sc.effectiveTTL := by
  have hT := effectiveTimeout_pos h
  have hL := h.lockTTL
  have hw := wrap_cases (d := sc.effectiveTimeout + 30 * second) (by unfold second; omega) (by unfold second; omega)
  unfold ScheduleConfig.TtlOk ScheduleConfig.effectiveTTL ScheduleConfig.requestedTTL
  dsimp only
  rw [hw]
  unfold second
  split_ifs <;> omega

/-! ### Locks and guards -/

/-- The job is between the guard and its release. -/
def Phase.active : Phase → Bool
  | .guarded | .running | .leaving _ => true
  | .fired | .returned _ => false

/-- The guard that a job holds. -/
def Job.guard (j : Job) : List (Nat × String) := if j.phase.active then [(j.inst, j.sc.id)] else []

def Job.key (j : Job) : String := scheduleLockKey j.sc.id j.fireTime

/-- The schedule has a lock, and a service for it. -/
def ScheduleConfig.UsesLock (present : String → Bool) (sc : ScheduleConfig) : Prop :=
  sc.lockEnabled = true ∧ sc.lockSvcName ≠ "" ∧ present sc.lockSvcName = true

/-- A tick is run by one instance at a time, and a schedule once at a time on an instance. -/
structure OncePerTick (s : State) : Prop where
  /-- a job that acquires the lock of a tick after another does so after the timeout of that one -/
  exclusive : ∀ (i j : Nat) (a b : Job) (ta tb : Int), i ≠ j → s.jobs[i]? = some a → s.jobs[j]? = some b →
    a.sc.id = b.sc.id → a.fireTime = b.fireTime → a.acquiredAt = some ta → b.acquiredAt = some tb → ta ≤ tb →
      ta + a.sc.effectiveTimeout ≤ tb
  one_active : ∀ (i j : Nat) (a b : Job), s.jobs[i]? = some a → s.jobs[j]? = some b → a.inst = b.inst →
    a.sc.id = b.sc.id → a.phase.active = true → b.phase.active = true → i = j
  /-- a workflow whose schedule has a lock runs only once the lock is acquired -/
  started : ∀ j ∈ s.jobs, j.phase = .running → j.sc.lockEnabled ∧ j.sc.lockSvcName ≠ "" → ∃ t, j.acquiredAt = some t
  /-- the guard is taken exactly while a job of the schedule is active -/
  released : ∀ inst id, (inst, id) ∈ s.guards ↔
    ∃ j ∈ s.jobs, j.phase.active = true ∧ j.inst = inst ∧ j.sc.id = id

structure Inv (present : String → Bool) (schedules : List ScheduleConfig) (s : State) : Prop where
  guards : (s.jobs.flatMap Job.guard).Perm s.guards
  nodup : s.guards.Nodup
  mem : ∀ j ∈ s.jobs, j.sc ∈ schedules
  started : ∀ j ∈ s.jobs, j.phase = .running → j.sc.lockEnabled ∧ j.sc.lockSvcName ≠ "" → ∃ t, j.acquiredAt = some t
  used : ∀ j ∈ s.jobs, ∀ t, j.acquiredAt = some t → j.sc.UsesLock present
  /-- the key of a lock that was acquired has not been set to expire earlier -/
  held : ∀ j ∈ s.jobs, ∀ t, j.acquiredAt = some t →
    t ≤ s.now ∧ ∃ e, s.locks.lookup j.key = some e ∧ t + j.sc.effectiveTTL ≤ e
  apart : ∀ (i j : Nat) (a b : Job) (ta tb : Int), i ≠ j → s.jobs[i]? = some a → s.jobs[j]? = some b →
    a.key = b.key → a.acquiredAt = some ta → b.acquiredAt = some tb →
      ta + a.sc.effectiveTTL ≤ tb ∨ tb + b.sc.effectiveTTL ≤ ta

variable {present : String → Bool} {schedules : List ScheduleConfig} {s s' : State}

theorem inv_initial : Inv present schedules initial where
  guards := .nil
  nodup := List.nodup_nil
  mem := fun _ h => nomatch h
  started := fun _ h => nomatch h
  used := fun _ h => nomatch h
  held := fun _ h => nomatch h
  apart := fun _ _ _ _ _ _ _ h => nomatch h

private theorem le_now_of_isLocked {key : String} (h : s.isLocked key = false) {e : Int}
    (he : s.locks.lookup key = some e) :
    e ≤ s.now := by
  rw [State.isLocked, he] at h
  simpa using h

private theorem lookup_setNX {j : Job} (hTTL : 0 < j.sc.effectiveTTL) {key : String} {e : Int}
    (he : s.locks.lookup key = some e) : ∃ e', (s.setNX j).lookup key = some e' ∧ e ≤ e' := by
  unfold State.setNX
  dsimp only
  split_ifs with hlocked
  · exact ⟨e, he, Int.le_refl e⟩
  · by_cases hkey : key = scheduleLockKey j.sc.id j.fireTime
    · subst hkey
      have hexpired := le_now_of_isLocked (Bool.not_eq_true _ ▸ hlocked) he
      exact ⟨_, AList.lookup_insert _, by omega⟩
    · exact ⟨e, by rw [AList.lookup_insert_ne hkey]; exact he, Int.le_refl e⟩

/-- A job takes a step that acquires no lock; keys may be set anew where they have expired. -/
private theorem Inv.move (h : Inv present schedules s) {i : Nat} {j j' : Job} (hi : s.jobs[i]? = some j)
    {locks : GoMap Int}
    {guards : List (Nat × String)} (hguards : ((s.jobs.set i j').flatMap Job.guard).Perm guards) (hnodup : guards.Nodup)
    (hlocks : ∀ key e, s.locks.lookup key = some e → ∃ e', locks.lookup key = some e' ∧ e ≤ e')
    (hsc : j'.sc = j.sc) (hfire : j'.fireTime = j.fireTime) (hacq : j'.acquiredAt = j.acquiredAt)
    (hrun : j'.phase = .running → ¬(j.sc.lockEnabled ∧ j.sc.lockSvcName ≠ "")) :
    Inv present schedules ⟨s.now, locks, guards, s.jobs.set i j'⟩ := by
  have hkey : j'.key = j.key := by rw [Job.key, hsc, hfire, Job.key]
  have hsame : ∀ (k : Nat) a, (s.jobs.set i j')[k]? = some a → ∃ a₀, s.jobs[k]? = some a₀ ∧ a.sc = a₀.sc ∧
      a.key = a₀.key ∧ a.acquiredAt = a₀.acquiredAt := by
    intro k a ha
    rcases Pool.getElem?_set_some ha with ⟨rfl, rfl⟩ | ⟨-, hold⟩
    · exact ⟨j, hi, hsc, hkey, hacq⟩
    · exact ⟨a, hold, rfl, rfl, rfl⟩
  refine ⟨hguards, hnodup, fun a ha => ?_, fun a ha hphase hlock => ?_, fun a ha t ht => ?_,
    fun a ha t ht => ?_, fun k l a b ta tb hne hk hl hab hta htb => ?_⟩
  · obtain ⟨k, hk⟩ := List.mem_iff_getElem?.1 ha
    obtain ⟨a₀, hk₀, hsc₀, -, -⟩ := hsame k a hk
    rw [hsc₀]
    exact h.mem a₀ (List.mem_of_getElem? hk₀)
  · obtain ⟨k, hk⟩ := List.mem_iff_getElem?.1 ha
    rcases Pool.getElem?_set_some hk with ⟨rfl, rfl⟩ | ⟨-, hold⟩
    · exact absurd (hsc ▸ hlock) (hrun hphase)
    · exact h.started a (List.mem_of_getElem? hold) hphase hlock
  · obtain ⟨k, hk⟩ := List.mem_iff_getElem?.1 ha
    obtain ⟨a₀, hk₀, hsc₀, -, hacq₀⟩ := hsame k a hk
    rw [hsc₀]
    exact h.used a₀ (List.mem_of_getElem? hk₀) t (hacq₀ ▸ ht)
  · obtain ⟨k, hk⟩ := List.mem_iff_getElem?.1 ha
    obtain ⟨a₀, hk₀, hsc₀, hkey₀, hacq₀⟩ := hsame k a hk
    obtain ⟨hnow, e, he, hle⟩ := h.held a₀ (List.mem_of_getElem? hk₀) t (hacq₀ ▸ ht)
    obtain ⟨e', he', hee⟩ := hlocks _ e he
    refine ⟨hnow, e', by rw [hkey₀]; exact he', ?_⟩
    rw [hsc₀]
    exact Int.le_trans hle hee
  · obtain ⟨a₀, hk₀, hsca, hkeya, hacqa⟩ := hsame k a hk
    obtain ⟨b₀, hl₀, hscb, hkeyb, hacqb⟩ := hsame l b hl
    rw [hsca, hscb]
    exact h.apart k l a₀ b₀ ta tb hne hk₀ hl₀ (hkeya ▸ hkeyb ▸ hab) (hacqa ▸ hta) (hacqb ▸ htb)

/-- What the jobs hold does not change when a job moves on without taking or releasing its guard. -/
private theorem guards_set (h : Inv present schedules s) {i : Nat} {j j' : Job} (hi : s.jobs[i]? = some j)
    (hguard : j'.guard = j.guard) : ((s.jobs.set i j').flatMap Job.guard).Perm s.guards := by
  obtain ⟨rest, hbefore, hafter⟩ := Pool.flatMap_set_perm Job.guard hi j'
  rw [hguard] at hafter
  exact hafter.trans (hbefore.symm.trans h.guards)

private theorem Inv.acquire (h : Inv present schedules s) {i : Nat} {j : Job} (hi : s.jobs[i]? = some j)
    (hphase : j.phase = .guarded) (hTTL : 0 < j.sc.effectiveTTL) (huses : j.sc.UsesLock present)
    (hfree : s.isLocked j.key = false) :
    Inv present schedules ⟨s.now, s.locks.insert j.key (s.now + j.sc.effectiveTTL), s.guards,
      s.jobs.set i { j with phase := .running, acquiredAt := some s.now }⟩ := by
  -- who has acquired this lock before does not hold it any more
  have hexpired : ∀ a ∈ s.jobs, ∀ t, a.acquiredAt = some t → a.key = j.key → t + a.sc.effectiveTTL ≤ s.now := by
    intro a ha t ht hkey
    obtain ⟨-, e, he, hle⟩ := h.held a ha t ht
    have := le_now_of_isLocked hfree (hkey ▸ he)
    omega
  refine ⟨guards_set h hi ?_, h.nodup, fun a ha => ?_, fun a ha hrun hlock => ?_, fun a ha t ht => ?_,
    fun a ha t ht => ?_, fun k l a b ta tb hne hk hl hab hta htb => ?_⟩
  · simp [Job.guard, hphase, Phase.active]
  · obtain ⟨k, hk⟩ := List.mem_iff_getElem?.1 ha
    rcases Pool.getElem?_set_some hk with ⟨rfl, rfl⟩ | ⟨-, hold⟩
    · exact h.mem j (List.mem_of_getElem? hi)
    · exact h.mem a (List.mem_of_getElem? hold)
  · obtain ⟨k, hk⟩ := List.mem_iff_getElem?.1 ha
    rcases Pool.getElem?_set_some hk with ⟨rfl, rfl⟩ | ⟨-, hold⟩
    · exact ⟨s.now, rfl⟩
    · exact h.started a (List.mem_of_getElem? hold) hrun hlock
  · obtain ⟨k, hk⟩ := List.mem_iff_getElem?.1 ha
    rcases Pool.getElem?_set_some hk with ⟨rfl, rfl⟩ | ⟨-, hold⟩
    · exact huses
    · exact h.used a (List.mem_of_getElem? hold) t ht
  · obtain ⟨k, hk⟩ := List.mem_iff_getElem?.1 ha
    rcases Pool.getElem?_set_some hk with ⟨rfl, rfl⟩ | ⟨-, hold⟩
    · cases ht
      exact ⟨Int.le_refl _, _, AList.lookup_insert _, Int.le_refl _⟩
    · have hmem := List.mem_of_getElem? hold
      obtain ⟨hnow, e, he, hle⟩ := h.held a hmem t ht
      by_cases hkey : a.key = j.key
      · have := hexpired a hmem t ht hkey
        exact ⟨hnow, _, by rw [hkey]; exact AList.lookup_insert _, by omega⟩
      · exact ⟨hnow, e, by rw [AList.lookup_insert_ne hkey]; exact he, hle⟩
  · rcases Pool.getElem?_set_some hk with ⟨rfl, rfl⟩ | ⟨-, holda⟩
    · rcases Pool.getElem?_set_some hl with ⟨rfl, -⟩ | ⟨-, holdb⟩
      · exact absurd rfl hne
      · cases hta
        exact .inr (hexpired b (List.mem_of_getElem? holdb) tb htb hab.symm)
    · rcases Pool.getElem?_set_some hl with ⟨rfl, rfl⟩ | ⟨-, holdb⟩
      · cases htb
        exact .inl (hexpired a (List.mem_of_getElem? holda) ta hta hab)
      · exact h.apart k l a b ta tb hne holda holdb hab hta htb

private theorem Inv.lock (h : Inv present schedules s) {i : Nat} {j : Job} (hi : s.jobs[i]? = some j)
    (hphase : j.phase = .guarded) (hTTL : 0 < j.sc.effectiveTTL) (c : Choice) :
    Inv present schedules ⟨s.now, (lockStep present s j c).1, s.guards, s.jobs.set i (lockStep present s j c).2⟩ := by
  have hguard : ∀ phase, phase.active = true → ({ j with phase } : Job).guard = j.guard := by
    intro phase hactive
    have hj : j.phase.active = true := by rw [hphase]; rfl
    simp [Job.guard, hj, hactive]
  have hkeep : ∀ key e, s.locks.lookup key = some e → ∃ e', s.locks.lookup key = some e' ∧ e ≤ e' :=
    fun _ e he => ⟨e, he, Int.le_refl e⟩
  unfold lockStep
  split_ifs with hpanics hlock hpresent hfails heffect hlocked
  · exact h.move hi (guards_set h hi (hguard _ rfl)) h.nodup hkeep rfl rfl rfl (fun h => nomatch h)
  · exact h.move hi (guards_set h hi (hguard _ rfl)) h.nodup hkeep rfl rfl rfl (fun h => nomatch h)
  · -- the command failed, after the server has performed it
    exact h.move hi (guards_set h hi (hguard _ rfl)) h.nodup (fun _ _ he => lookup_setNX hTTL he) rfl rfl rfl
      (fun h => nomatch h)
  · exact h.move hi (guards_set h hi (hguard _ rfl)) h.nodup hkeep rfl rfl rfl (fun h => nomatch h)
  · exact h.move hi (guards_set h hi (hguard _ rfl)) h.nodup hkeep rfl rfl rfl (fun h => nomatch h)
  · have hfree : s.isLocked j.key = false := Bool.not_eq_true _ ▸ hlocked
    have hset : s.setNX j = s.locks.insert j.key (s.now + j.sc.effectiveTTL) := if_neg hlocked
    rw [hset]
    exact h.acquire hi hphase hTTL ⟨hlock.1, hlock.2, by simpa using hpresent⟩ hfree
  · exact h.move hi (guards_set h hi (hguard _ rfl)) h.nodup hkeep rfl rfl rfl (fun _ => hlock)

private theorem Inv.runJob (h : Inv present schedules s) (hrange : ∀ sc ∈ schedules, sc.InRange) {i : Nat} {j : Job}
    (hi : s.jobs[i]? = some j) {c : Choice} (hstep : runJob present s i j c = some s') : Inv present schedules s' := by
  have hkeep : ∀ key e, s.locks.lookup key = some e → ∃ e', s.locks.lookup key = some e' ∧ e ≤ e' :=
    fun _ e he => ⟨e, he, Int.le_refl e⟩
  unfold Scheduler.runJob at hstep
  cases hphase : j.phase with
  | fired =>
    simp only [hphase] at hstep
    have hguard : j.guard = [] := by simp [Job.guard, hphase, Phase.active]
    split_ifs at hstep with htaken
    · cases hstep
      exact h.move hi (guards_set h hi hguard.symm) h.nodup hkeep rfl rfl rfl (fun h => nomatch h)
    · cases hstep
      obtain ⟨rest, hbefore, hafter⟩ := Pool.flatMap_set_perm Job.guard hi { j with phase := .guarded }
      rw [hguard] at hbefore
      refine h.move hi ?_ (List.nodup_cons.2 ⟨htaken, h.nodup⟩) hkeep rfl rfl rfl (fun h => nomatch h)
      exact hafter.trans ((hbefore.symm.trans h.guards).cons _)
  | guarded =>
    simp only [hphase] at hstep
    cases hstep
    exact h.lock hi hphase (effectiveTTL_pos (hrange _ (h.mem j (List.mem_of_getElem? hi)))) c
  | running =>
    simp only [hphase] at hstep
    cases hstep
    refine h.move hi (guards_set h hi ?_) h.nodup hkeep rfl rfl rfl (fun h => nomatch h)
    simp [Job.guard, hphase, Phase.active]
  | leaving run =>
    simp only [hphase] at hstep
    cases hstep
    have hguard : j.guard = [(j.inst, j.sc.id)] := by simp [Job.guard, hphase, Phase.active]
    obtain ⟨rest, hbefore, hafter⟩ := Pool.flatMap_set_perm Job.guard hi { j with phase := .returned run }
    rw [hguard] at hbefore
    refine h.move hi ?_ (h.nodup.erase _) hkeep rfl rfl rfl (fun h => nomatch h)
    have hrest := ((hbefore.symm.trans h.guards).erase (j.inst, j.sc.id))
    exact hafter.trans (by simpa [Job.guard, Phase.active] using hrest)
  | returned run =>
    simp only [hphase] at hstep
    cases hstep

private theorem Inv.fire (h : Inv present schedules s) {k inst : Nat} {sc : ScheduleConfig}
    (hk : schedules[k]? = some sc)
    (fireTime : Int) : Inv present schedules { s with jobs := s.jobs ++ [⟨inst, sc, fireTime, .fired, none⟩] } := by
  have hold : ∀ (i : Nat) a t, (s.jobs ++ [⟨inst, sc, fireTime, .fired, none⟩])[i]? = some a → a.acquiredAt = some t →
      s.jobs[i]? = some a := by
    intro i a t ha ht
    rcases Pool.getElem?_concat_some ha with ha | ⟨-, rfl⟩
    · exact ha
    · cases ht
  refine ⟨?_, h.nodup, fun a ha => ?_, fun a ha hrun hlock => ?_, fun a ha t ht => ?_, fun a ha t ht => ?_,
    fun i j a b ta tb hne hi hj hab hta htb => ?_⟩
  · simpa [Job.guard, Phase.active] using h.guards
  · rcases List.mem_append.1 ha with ha | ha
    · exact h.mem a ha
    · rw [List.mem_singleton.1 ha]
      exact List.mem_of_getElem? hk
  · rcases List.mem_append.1 ha with ha | ha
    · exact h.started a ha hrun hlock
    · obtain rfl := List.mem_singleton.1 ha
      cases hrun
  · obtain ⟨i, hi⟩ := List.mem_iff_getElem?.1 ha
    exact h.used a (List.mem_of_getElem? (hold i a t hi ht)) t ht
  · obtain ⟨i, hi⟩ := List.mem_iff_getElem?.1 ha
    exact h.held a (List.mem_of_getElem? (hold i a t hi ht)) t ht
  · exact h.apart i j a b ta tb hne (hold i a ta hi hta) (hold j b tb hj htb) hab hta htb

private theorem Inv.tick (h : Inv present schedules s) (d : Nat) :
    Inv present schedules { s with now := s.now + d } where
  guards := h.guards
  nodup := h.nodup
  mem := h.mem
  started := h.started
  used := h.used
  held := by
    intro a ha t ht
    obtain ⟨hnow, hexpiry⟩ := h.held a ha t ht
    exact ⟨show t ≤ s.now + d by omega, hexpiry⟩
  apart := h.apart

theorem inv_step (hrange : ∀ sc ∈ schedules, sc.InRange) {a : Action} (h : Inv present schedules s)
    (hstep : step present schedules s a = some s') : Inv present schedules s' := by
  cases a with
  | fire inst k fireTime =>
    obtain ⟨sc, hk, rfl⟩ := Option.map_eq_some_iff.1 hstep
    exact h.fire hk fireTime
  | step i c =>
    unfold step at hstep
    cases hi : s.jobs[i]? with
    | none => simp [hi] at hstep
    | some j =>
      simp only [hi] at hstep
      exact h.runJob hrange hi hstep
  | tick d =>
    cases hstep
    exact h.tick d

private theorem Inv.one_active (h : Inv present schedules s) {i j : Nat} {a b : Job} (hi : s.jobs[i]? = some a)
    (hj : s.jobs[j]? = some b) (hinst : a.inst = b.inst) (hid : a.sc.id = b.sc.id) (ha : a.phase.active = true)
    (hb : b.phase.active = true) : i = j := by
  have hnodup : (s.jobs.flatMap Job.guard).Nodup := h.guards.nodup_iff.2 h.nodup
  have hga : (a.inst, a.sc.id) ∈ a.guard := by simp [Job.guard, ha]
  have hgb : (a.inst, a.sc.id) ∈ b.guard := by simp [Job.guard, hb, hinst, hid]
  exact Pool.holder_unique hnodup hi hj hga hgb

private theorem Inv.released (h : Inv present schedules s) (inst : Nat) (id : String) :
    (inst, id) ∈ s.guards ↔ ∃ j ∈ s.jobs, j.phase.active = true ∧ j.inst = inst ∧ j.sc.id = id := by
  rw [← h.guards.mem_iff, List.mem_flatMap]
  refine exists_congr fun j => and_congr_right fun _ => ?_
  unfold Job.guard
  split_ifs with hactive
  · simp [hactive, eq_comm]
  · simp [hactive]

private theorem oncePerTick_of_inv (hrange : ∀ sc ∈ schedules, sc.InRange)
    (hTTL : ∀ sc ∈ schedules, sc.UsesLock present → sc.TtlOk) (h : Inv present schedules s) : OncePerTick s where
  exclusive := by
    intro i j a b ta tb hne hi hj hid hfire hta htb hle
    have hkey : a.key = b.key := by rw [Job.key, hid, hfire, Job.key]
    have hmema := h.mem a (List.mem_of_getElem? hi)
    have houtlives := (ttlOk_iff (hrange _ hmema)).1 (hTTL _ hmema (h.used a (List.mem_of_getElem? hi) ta hta))
    have hpos := effectiveTTL_pos (hrange _ (h.mem b (List.mem_of_getElem? hj)))
    rcases h.apart i j a b ta tb hne hi hj hkey hta htb with hexpired | hexpired
    · omega
    · omega
  one_active := fun _ _ _ _ hi hj hinst hid ha hb => h.one_active hi hj hinst hid ha hb
  started := h.started
  released := h.released

/-! ### A lock that expires too early -/

/-- Two instances handle the tick at zero; the second one is late by the TTL of the lock. -/
def lateActions (k : Nat) (sc : ScheduleConfig) : List Action :=
  let c : Choice := ⟨false, false, false, true⟩
  [.fire 0 k 0, .fire 1 k 0, .step 0 c, .step 1 c, .step 0 c, .tick sc.effectiveTTL.toNat, .step 1 c]

def lateState (sc : ScheduleConfig) : State where
  now := sc.effectiveTTL
  locks := AList.singleton (scheduleLockKey sc.id 0) (sc.effectiveTTL + sc.effectiveTTL)
  guards := [(1, sc.id), (0, sc.id)]
  jobs := [⟨0, sc, 0, .running, some 0⟩, ⟨1, sc, 0, .running, some sc.effectiveTTL⟩]

private theorem run_late {k : Nat} (hk : schedules[k]? = some sc) (huses : sc.UsesLock present)
    (hpos : 0 < sc.effectiveTTL) :
    run (step present schedules) initial (lateActions k sc) = some (lateState sc) := by
  obtain ⟨henabled, hname, hpresent⟩ := huses
  have hnat : ((sc.effectiveTTL.toNat : Nat) : Int) = sc.effectiveTTL := Int.toNat_of_nonneg (by omega)
  -- when the second instance asks for the lock, it has just expired
  have hexpired : (AList.singleton (scheduleLockKey sc.id 0) sc.effectiveTTL : GoMap Int).lookup
      (scheduleLockKey sc.id 0) = some sc.effectiveTTL := by
    rw [← AList.insert_empty]
    exact AList.lookup_insert _
  simp [lateActions, run, step, hk, initial, runJob, lockStep, henabled, hname, hpresent, State.isLocked, State.setNX,
    hnat, hexpired, lateState]

/-- No two instances run a tick at once exactly if every lock outlives its job. -/
theorem tick_exclusive_iff (present : String → Bool) (schedules : List ScheduleConfig)
    (hrange : ∀ sc ∈ schedules, sc.InRange) :
    (∀ s, Reachable (step present schedules) initial s → OncePerTick s) ↔
      ∀ sc ∈ schedules, sc.UsesLock present → sc.TtlOk := by
  constructor
  · intro h sc hsc huses
    have hpos := effectiveTTL_pos (hrange sc hsc)
    obtain ⟨k, hk⟩ := List.mem_iff_getElem?.1 hsc
    have honce := h _ ⟨_, run_late hk huses hpos⟩
    have hlate := honce.exclusive 0 1 _ _ 0 sc.effectiveTTL Nat.zero_ne_one rfl rfl rfl rfl rfl rfl (Int.le_of_lt hpos)
    rw [ttlOk_iff (hrange sc hsc)]
    simpa using hlate
  · intro hTTL s hs
    have hinv : Inv present schedules s := hs.invariant inv_initial fun _ _ _ h hstep => inv_step hrange h hstep
    exact oncePerTick_of_inv hrange hTTL hinv

/-- A schedule with a lock, an unset TTL and the given timeout. -/
def nightly (timeout : String) : ScheduleConfig :=
  parseScheduleConfig [("id", .str "nightly"), ("services", .obj [("lock", .str "redis")]),
    ("lock", .obj [("enabled", .bool true)]), ("timeout", .str timeout)]

private theorem nightly_one_minute : nightly "1m" = ⟨"nightly", "redis", true, 0, 60 * second⟩ := by decide +kernel

private theorem nightly_one_hour : nightly "1h" = ⟨"nightly", "redis", true, 0, 3600 * second⟩ := by decide +kernel

theorem tick_exclusive_iff_nightly : (∀ sc ∈ [nightly "1m"], sc.InRange) ∧
    ∀ s, Reachable (step (fun _ => true) [nightly "1m"]) initial s → OncePerTick s := by
  have hrange : ∀ sc ∈ [nightly "1m"], sc.InRange := by
    rw [nightly_one_minute, List.forall_mem_singleton]
    exact ⟨by decide, by decide⟩
  have hTTL : ∀ sc ∈ [nightly "1m"], sc.UsesLock (fun _ => true) → sc.TtlOk := by
    rw [nightly_one_minute, List.forall_mem_singleton]
    intro _
    decide
  exact ⟨hrange, (tick_exclusive_iff (fun _ => true) [nightly "1m"] hrange).2 hTTL⟩

/-- A job of an hour under a lock of five minutes runs on two instances at once. -/
theorem tick_not_exclusive : ¬∀ (present : String → Bool) (schedules : List ScheduleConfig),
    (∀ sc ∈ schedules, sc.InRange) → ∀ s, Reachable (step present schedules) initial s → OncePerTick s := by
  intro h
  have hrange : ∀ sc ∈ [nightly "1h"], sc.InRange := by
    rw [nightly_one_hour, List.forall_mem_singleton]
    exact ⟨by decide, by decide⟩
  have huses : (nightly "1h").UsesLock (fun _ => true) := by
    rw [nightly_one_hour]
    exact ⟨rfl, by decide, rfl⟩
  have hpos := effectiveTTL_pos (hrange _ List.mem_cons_self)
  have honce := h (fun _ => true) [nightly "1h"] hrange _ ⟨_, run_late (k := 0) rfl huses hpos⟩
  have hlate := honce.exclusive 0 1 _ _ 0 _ Nat.zero_ne_one rfl rfl rfl rfl rfl rfl (Int.le_of_lt hpos)
  rw [nightly_one_hour] at hlate
  exact absurd hlate (by decide)

end Noda.Scheduler
