import Noda.Worker.Runtime

/-!
# No message is lost

A message leaves the pending entries only for one of the reasons in `MayLeave`: it was processed, it is kept as a dead
letter, or there is no dead-letter topic and it cannot be mapped or has used up its attempts.

The server only ever moves forward (`Server.Le`), which keeps every reason once given (`MayLeave.mono`).  So it is
enough that a call that is about to acknowledge its message has such a reason (`CallOk`), and that the count a call was
started with never exceeds the count of the entry.
-/

namespace Noda.Worker

open StreamGroup

variable {marshal : DeadLetterRecord → Option String} {w : WorkerConfig}

/-! ### The resolved configuration -/

/-- What `Start` guarantees about the configuration: both bounds are positive. -/
structure Resolved (w : WorkerConfig) : Prop where
  maxAttempts : 0 < w.retry.maxAttempts
  after : ∀ dl, w.deadLetter = some dl → dl.topic ≠ "" ∧ 0 < dl.after

private theorem resolveRetry_maxAttempts (rc : RetryConfig) (timeout : Int) :
    0 < (resolveRetry rc timeout).maxAttempts := by
  simp only [resolveRetry]
  split_ifs with h
  · decide
  · omega

private theorem resolveDeadLetter_some {dl dl' : DeadLetterConfig} {maxAttempts : Int} (h : 0 < maxAttempts)
    (hr : resolveDeadLetter (some dl) maxAttempts = some dl') : dl'.topic ≠ "" ∧ 0 < dl'.after := by
  simp only [resolveDeadLetter] at hr
  split_ifs at hr with ht ha
  · obtain rfl := Option.some.inj hr
    exact ⟨ht, h⟩
  · obtain rfl := Option.some.inj hr
    exact ⟨ht, by omega⟩

private theorem resolved_resolve (w : WorkerConfig) : Resolved w.resolve := by
  have hmax := resolveRetry_maxAttempts w.retry w.timeout
  refine ⟨hmax, fun dl hdl => ?_⟩
  simp only [WorkerConfig.resolve] at hdl
  cases h : w.deadLetter with
  | none => rw [h] at hdl; cases hdl
  | some dl' =>
    rw [h] at hdl
    exact resolveDeadLetter_some hmax hdl

private theorem decideFailureDisposition_drop (hw : Resolved w) {attempts : Int}
    (h : decideFailureDisposition attempts w.deadLetter w.retry.maxAttempts = .drop) :
    w.deadLetter = none ∧ w.retry.maxAttempts ≤ attempts := by
  have hmax := hw.maxAttempts
  simp only [decideFailureDisposition] at h
  cases hdl : w.deadLetter with
  | none =>
    simp only [hdl, Option.filter_none, if_neg (Int.not_le.2 hmax)] at h
    split_ifs at h with hge
    exact ⟨rfl, hge⟩
  | some dl =>
    simp only [hdl, Option.filter_some, (hw.after dl hdl).2, decide_true, if_true] at h
    split_ifs at h

/-! ### Reasons to leave -/

def KeptAsDeadLetter (marshal : DeadLetterRecord → Option String) (w : WorkerConfig) (sv : Server) (id : Nat) : Prop :=
  ∃ dl record data, w.deadLetter = some dl ∧ Event.deadLettered dl.topic record ∈ sv.log ∧
    record.originalTopic = w.topic ∧ record.originalGroup = w.group ∧ record.originalMessageId = id ∧
      marshal record = some data ∧ ∃ e ∈ sv.streams dl.topic, e.values = [("payload", data)]

/-- Why a message may leave the pending entries. -/
inductive MayLeave (marshal : DeadLetterRecord → Option String) (w : WorkerConfig) (sv : Server) (id : Nat) : Prop
  | processed (res : MsgResult) (ran : .ran id res ∈ sv.log) (success : res.err = none)
  | deadLetter (kept : KeptAsDeadLetter marshal w sv id)
  | badMapping (disabled : w.deadLetter = none) (res : MsgResult) (ran : .ran id res ∈ sv.log)
    (bad : res.badInput = true)
  | exhausted (disabled : w.deadLetter = none) (count : sv.group.CountAtLeast id w.retry.maxAttempts.toNat)

/-- The server has moved from the first state to the second. -/
structure Server.Le (sv sv' : Server) : Prop where
  group : sv.group.Le sv'.group
  streams : ∀ topic, ∀ e ∈ sv.streams topic, e ∈ sv'.streams topic
  log : ∀ e ∈ sv.log, e ∈ sv'.log

theorem Server.Le.refl (sv : Server) : sv.Le sv := ⟨.refl _, fun _ _ h => h, fun _ h => h⟩

theorem Server.add_le (sv : Server) (topic : String) (now : Nat) (values : Values) :
    sv.Le (sv.add topic now values) := by
  refine ⟨.refl _, fun t e he => ?_, fun _ h => h⟩
  simp only [Server.add]
  split_ifs
  · exact List.mem_append_left _ he
  · exact he

theorem Server.note_le (sv : Server) (e : Event) : sv.Le (sv.note e) :=
  ⟨.refl _, fun _ _ h => h, fun _ h => List.mem_cons_of_mem _ h⟩

theorem Server.Le.note {sv sv' : Server} (h : sv.Le sv') (e : Event) : sv.Le (sv'.note e) :=
  ⟨h.group, h.streams, fun e' he' => List.mem_cons_of_mem _ (h.log e' he')⟩

theorem Server.ack_le (sv : Server) (id : Nat) : sv.Le (sv.ack id) :=
  ⟨sv.group.ack_le id, fun _ _ h => h, fun _ h => h⟩

theorem Server.read_le (sv : Server) (topic consumer : String) (now : Nat) : sv.Le (sv.read topic consumer now).2 :=
  ⟨Group.read_le _ _ _ _ _, fun _ _ h => h, fun _ h => h⟩

theorem Server.claim_le (sv : Server) (topic consumer : String) (minIdle : Int) (now cursor count : Nat) :
    sv.Le (sv.claim topic consumer minIdle now cursor count).2.2 :=
  ⟨Group.claim_le _ _ _ _ _ _, fun _ _ h => h, fun _ h => h⟩

theorem KeptAsDeadLetter.mono {sv sv' : Server} {id : Nat} (h : KeptAsDeadLetter marshal w sv id) (hle : sv.Le sv') :
    KeptAsDeadLetter marshal w sv' id := by
  obtain ⟨dl, record, data, hdl, hlog, ht, hg, hid, hm, e, he, hv⟩ := h
  exact ⟨dl, record, data, hdl, hle.log _ hlog, ht, hg, hid, hm, e, hle.streams _ _ he, hv⟩

theorem MayLeave.mono {sv sv' : Server} {id : Nat} (h : MayLeave marshal w sv id) (hle : sv.Le sv')
    (hl : id ≤ sv.group.lastDelivered) : MayLeave marshal w sv' id := by
  cases h with
  | processed res ran success => exact .processed res (hle.log _ ran) success
  | deadLetter kept => exact .deadLetter (kept.mono hle)
  | badMapping disabled res ran bad => exact .badMapping disabled res (hle.log _ ran) bad
  | exhausted disabled count => exact .exhausted disabled (count.mono hle.group hl)

/-! ### Calls -/

/-- What holds of a call of `processMessage`: its message has been delivered, the count it was given is not above the
count of the entry, and it acknowledges only with a reason. -/
structure CallOk (marshal : DeadLetterRecord → Option String) (w : WorkerConfig) (sv : Server) (c : Call) : Prop where
  delivered : c.msg.id ≤ sv.group.lastDelivered
  attempts : 0 ≤ c.attempts → sv.group.CountAtLeast c.msg.id c.attempts.toNat
  reason : ∀ ack, c.stage = .acking ack → MayLeave marshal w sv c.msg.id

theorem CallOk.mono {sv sv' : Server} {c : Call} (h : CallOk marshal w sv c) (hle : sv.Le sv') :
    CallOk marshal w sv' c where
  delivered := Nat.le_trans h.delivered hle.group.lastDelivered
  attempts := fun h0 => (h.attempts h0).mono hle.group h.delivered
  reason := fun ack hs => (h.reason ack hs).mono hle h.delivered

theorem CallOk.of_stage {sv : Server} {c c' : Call} (h : CallOk marshal w sv c) (hm : c'.msg = c.msg)
    (ha : c'.attempts = c.attempts) (hr : ∀ ack, c'.stage = .acking ack → MayLeave marshal w sv c.msg.id) :
    CallOk marshal w sv c' where
  delivered := by rw [hm]; exact h.delivered
  attempts := by rw [hm, ha]; exact h.attempts
  reason := by rw [hm]; exact hr

/-- A step of the server: it moves forward, and no pending entry leaves without a reason. -/
structure Moves (marshal : DeadLetterRecord → Option String) (w : WorkerConfig) (sv sv' : Server) : Prop where
  le : sv.Le sv'
  leaves : ∀ id ∈ sv.group.ids, id ∉ sv'.group.ids → MayLeave marshal w sv id

theorem Moves.of_ids {sv sv' : Server} (hle : sv.Le sv') (h : ∀ id ∈ sv.group.ids, id ∈ sv'.group.ids) :
    Moves marshal w sv sv' :=
  ⟨hle, fun id hid hid' => absurd (h id hid) hid'⟩

theorem Moves.refl (sv : Server) : Moves marshal w sv sv := .of_ids (.refl sv) fun _ h => h

theorem Moves.read (sv : Server) (topic consumer : String) (now : Nat) :
    Moves marshal w sv (sv.read topic consumer now).2 :=
  .of_ids (sv.read_le topic consumer now) fun _ h => Group.read_ids _ _ _ _ _ h

theorem Moves.claim (sv : Server) (topic consumer : String) (minIdle : Int) (now cursor count : Nat) :
    Moves marshal w sv (sv.claim topic consumer minIdle now cursor count).2.2 := by
  refine .of_ids (sv.claim_le topic consumer minIdle now cursor count) fun id hid => ?_
  simp only [Server.claim, Group.claim_ids]
  exact hid

/-- Only the entry that is acknowledged leaves. -/
theorem Moves.ack {sv : Server} {id : Nat} (h : MayLeave marshal w sv id) : Moves marshal w sv (sv.ack id) := by
  refine ⟨sv.ack_le id, fun id' hid hid' => ?_⟩
  by_cases heq : id' = id
  · rw [heq]
    exact h
  · exact absurd (Group.ack_ids hid heq) hid'

/-- A command that may not reach the server. -/
theorem Moves.ite {sv sv' : Server} {applied : Bool} (h : Moves marshal w sv sv') :
    Moves marshal w sv (if applied then sv' else sv) := by
  cases applied with
  | true => exact h
  | false => exact .refl sv

private theorem disposeFailure_reason (hw : Resolved w) {sv : Server} {id : Nat} {attempts : Int} {err : String}
    {ack : Ack}
    (ha : 0 ≤ attempts → sv.group.CountAtLeast id attempts.toNat) (h : disposeFailure w attempts err = .acking ack) :
    MayLeave marshal w sv id := by
  unfold disposeFailure at h
  split at h
  · cases h
  · rename_i hd
    obtain ⟨hnone, hge⟩ := decideFailureDisposition_drop hw hd
    have hmax := hw.maxAttempts
    refine .exhausted hnone fun p hp hid => ?_
    have := ha (by omega) p hp hid
    omega
  · cases h

/-- The result that is noted is the reason for the acknowledgement that follows from it. -/
private theorem dispose_reason (hw : Resolved w) {sv : Server} {id : Nat} {attempts : Int} {res : MsgResult} {ack : Ack}
    (ha : 0 ≤ attempts → sv.group.CountAtLeast id attempts.toNat) (hran : .ran id res ∈ sv.log)
    (h : dispose w attempts res = .acking ack) : MayLeave marshal w sv id := by
  unfold dispose at h
  split at h
  · rename_i herr
    exact .processed res hran herr
  · split_ifs at h with hbad hdl
    · exact .badMapping (by simpa using hdl) res hran hbad
    · exact disposeFailure_reason hw ha h

private theorem getDeliveryAttempts_le (sv : Server) (id : Nat) (reply : Reply) :
    sv.group.CountAtLeast id (getDeliveryAttempts sv id reply).toNat := by
  cases reply with
  | ok =>
    simp only [getDeliveryAttempts]
    cases hh : (sv.group.range id id 1 none).head? with
    | none => simp [Group.CountAtLeast]
    | some r =>
      have hr := List.mem_of_mem_head? hh
      obtain ⟨h1, h2⟩ := Group.range_id hr
      have hid : r.1 = id := Nat.le_antisymm h2 h1
      rw [← hid]
      exact Group.range_count hr
  | err applied => simp [getDeliveryAttempts, Group.CountAtLeast]
  | panic applied => simp [getDeliveryAttempts, Group.CountAtLeast]

private theorem publishDeadLetter_ok (sv : Server) (c : Call) (err : String) (now : Nat) (reply : Reply) :
    Moves marshal w sv (publishDeadLetter marshal w sv c err now reply).1 ∧
      ∀ ack, (publishDeadLetter marshal w sv c err now reply).2 = .acking ack →
        KeptAsDeadLetter marshal w (publishDeadLetter marshal w sv c err now reply).1 c.msg.id := by
  unfold publishDeadLetter
  cases hdl : w.deadLetter with
  | none => exact ⟨.refl _, fun _ h => nomatch h⟩
  | some dl =>
    dsimp only
    cases hm : marshal (deadLetterRecord w c err now) with
    | none => exact ⟨.refl _, fun _ h => nomatch h⟩
    | some data =>
      refine ⟨Moves.ite (.of_ids ((sv.add_le _ _ _).note _) fun _ h => h), fun ack hack => ?_⟩
      dsimp only at hack ⊢
      split_ifs at hack with hok
      subst hok
      refine ⟨dl, _, data, hdl, List.mem_cons_self, rfl, rfl, rfl, hm, ?_⟩
      simp [Reply.applied, Server.note, Server.add, StreamGroup.add]

private theorem callStep_ok (hw : Resolved w) {sv sv' : Server} {c c' : Call} {choice : CallChoice}
    (hc : CallOk marshal w sv c) (h : callStep marshal w sv c choice = some (sv', c')) :
    Moves marshal w sv sv' ∧ CallOk marshal w sv' c' := by
  unfold callStep at h
  split at h
  · -- `runMessage`; its result is in the log before the call acts on it
    rename_i handling traceId hstage
    obtain ⟨rfl, rfl⟩ := Prod.mk.inj (Option.some.inj h)
    have hle := sv.note_le (.ran c.msg.id (runMessage handling))
    refine ⟨.of_ids hle fun _ h => h, (hc.mono hle).of_stage rfl rfl fun ack hack => ?_⟩
    exact dispose_reason hw (hc.mono hle).attempts List.mem_cons_self hack
  · -- `getDeliveryAttempts`
    rename_i err reply now hstage
    obtain ⟨rfl, rfl⟩ := Prod.mk.inj (Option.some.inj h)
    refine ⟨.refl _, hc.of_stage rfl rfl fun ack hack => ?_⟩
    dsimp only at hack
    split at hack
    · cases hack
    · exact disposeFailure_reason hw (fun _ => getDeliveryAttempts_le sv c.msg.id _) hack
  · -- `XADD` of the dead letter
    rename_i err reply now hstage
    obtain ⟨rfl, rfl⟩ := Prod.mk.inj (Option.some.inj h)
    obtain ⟨hm, hkept⟩ := publishDeadLetter_ok sv c err now reply
    exact ⟨hm, (hc.mono hm.le).of_stage rfl rfl fun ack hack => .deadLetter (hkept ack hack)⟩
  · -- `XACK`
    rename_i ack reply now hstage
    obtain ⟨rfl, rfl⟩ := Prod.mk.inj (Option.some.inj h)
    have hm : Moves marshal w sv (if reply.applied then sv.ack c.msg.id else sv) :=
      Moves.ite (.ack (hc.reason ack hstage))
    exact ⟨hm, (hc.mono hm.le).of_stage rfl rfl fun _ h => nomatch h⟩
  · cases h

/-! ### Goroutines -/

/-- The calls of a goroutine. -/
def Phase.calls : Phase → List Call
  | .handling c => [c]
  | .page calls _ => calls
  | _ => []

/-- The messages a goroutine holds without a call. -/
def Phase.messages : Phase → List Message
  | .prefetching msgs _ => msgs
  | _ => []

/-- What holds of a goroutine. -/
structure PhaseOk (marshal : DeadLetterRecord → Option String) (w : WorkerConfig) (sv : Server) (ph : Phase) :
    Prop where
  calls : ∀ c ∈ ph.calls, CallOk marshal w sv c
  messages : ∀ m ∈ ph.messages, m.id ≤ sv.group.lastDelivered

theorem PhaseOk.mono {sv sv' : Server} {ph : Phase} (h : PhaseOk marshal w sv ph) (hle : sv.Le sv') :
    PhaseOk marshal w sv' ph :=
  ⟨fun c hc => (h.calls c hc).mono hle, fun m hm => Nat.le_trans (h.messages m hm) hle.group.lastDelivered⟩

theorem PhaseOk.idle {sv : Server} {ph : Phase} (hc : ph.calls = []) (hm : ph.messages = []) :
    PhaseOk marshal w sv ph :=
  ⟨by simp [hc], by simp [hm]⟩

theorem CallOk.fresh {sv : Server} {m : Message} (h : m.id ≤ sv.group.lastDelivered) :
    CallOk marshal w sv ⟨m, -1, "", .running⟩ :=
  ⟨h, fun h0 => absurd h0 (by simp), fun _ hs => nomatch hs⟩

private theorem startCalls_ok {sv : Server} {consumer : String} {msgs : List Message} {reply : Reply}
    (h : ∀ m ∈ msgs, m.id ≤ sv.group.lastDelivered) :
    ∀ c ∈ startCalls (prefetchAttempts sv consumer msgs reply) msgs, CallOk marshal w sv c := by
  intro c hc
  obtain ⟨m, hm, rfl⟩ := List.mem_map.1 hc
  cases hl : (prefetchAttempts sv consumer msgs reply).lookup m.id with
  | none => exact CallOk.fresh (h m hm)
  | some n =>
    refine ⟨h m hm, fun _ => ?_, fun _ hs => nomatch hs⟩
    obtain ⟨l₁, l₂, hsplit, -⟩ := List.lookup_eq_some_iff.1 hl
    have hmem : (m.id, n) ∈ prefetchAttempts sv consumer msgs reply := by rw [hsplit]; simp
    cases reply with
    | ok => exact Group.range_count hmem
    | err applied => cases hmem
    | panic applied => cases hmem

private theorem afterRead_ok {sv : Server} {topic consumer : String} {now : Nat} :
    PhaseOk marshal w (sv.read topic consumer now).2 (afterRead (sv.read topic consumer now).1) := by
  cases hread : (sv.read topic consumer now).1 with
  | nil => exact .idle rfl rfl
  | cons m ms =>
    have hm : m ∈ (sv.read topic consumer now).1 := by rw [hread]; exact List.mem_cons_self
    refine ⟨fun c hc => ?_, fun _ h => nomatch h⟩
    rw [List.mem_singleton.1 hc]
    exact CallOk.fresh (Group.read_lastDelivered _ _ _ _ _ hm)

private theorem afterClaim_ok {sv : Server} {topic consumer : String} {minIdle : Int} {now cursor count : Nat} :
    PhaseOk marshal w (sv.claim topic consumer minIdle now cursor count).2.2
      (afterClaim (sv.claim topic consumer minIdle now cursor count).1
        (sv.claim topic consumer minIdle now cursor count).2.1) := by
  cases hclaim : (sv.claim topic consumer minIdle now cursor count).1 with
  | nil => exact .idle rfl rfl
  | cons m ms =>
    refine ⟨by simp [afterClaim, Phase.calls], fun m' hm' => ?_⟩
    have hmem : m' ∈ (sv.claim topic consumer minIdle now cursor count).1 := by rw [hclaim]; exact hm'
    have hclaimed := of_decide_eq_true (List.mem_filter.1 hmem).2
    exact Nat.le_trans (Group.claim_lastDelivered hclaimed) (Server.claim_le ..).group.lastDelivered

/-- A step of one of the calls of a goroutine. -/
private theorem calls_ok (hw : Resolved w) {sv sv' : Server} {calls : List Call} {i : Nat} {c c' : Call}
    {choice : CallChoice}
    (hcalls : ∀ c ∈ calls, CallOk marshal w sv c) (hi : calls[i]? = some c)
    (h : callStep marshal w sv c choice = some (sv', c')) :
    Moves marshal w sv sv' ∧ ∀ d ∈ calls.set i c', CallOk marshal w sv' d := by
  obtain ⟨hm, hc⟩ := callStep_ok hw (hcalls c (List.mem_of_getElem? hi)) h
  refine ⟨hm, fun d hd => ?_⟩
  rcases List.mem_or_eq_of_mem_set hd with hd | rfl
  · exact (hcalls d hd).mono hm.le
  · exact hc

private theorem goroutineStep_ok (hw : Resolved w) {cancelled : Bool} {sv sv' : Server} {g : Goroutine} {ph : Phase}
    {choice : Choice} (hg : PhaseOk marshal w sv g.phase)
    (h : goroutineStep marshal w cancelled sv g choice = some (sv', ph)) :
    Moves marshal w sv sv' ∧ PhaseOk marshal w sv' ph := by
  unfold goroutineStep at h
  split at h
  · -- the loop of `consume`
    split_ifs at h
    cases h
    exact ⟨.refl _, .idle rfl rfl⟩
  · -- `XREADGROUP`
    split at h
    · cases h
      exact ⟨.read .., afterRead_ok⟩
    · cases h
      exact ⟨(Moves.read ..).ite, .idle rfl rfl⟩
    · cases h
  · -- `processMessage` of a consumer
    rename_i c i choice hph
    rw [hph] at hg
    obtain ⟨⟨sv₁, c₁⟩, hstep, hr⟩ := Option.map_eq_some_iff.1 h
    cases hr
    obtain ⟨hm, hcalls⟩ := calls_ok (i := 0) hw hg.calls rfl hstep
    exact ⟨hm, hcalls, fun _ h => nomatch h⟩
  · split_ifs at h
    cases h
    exact ⟨.refl _, .idle rfl rfl⟩
  · -- the loop of `reap`
    cases h
    cases cancelled with
    | true => exact ⟨.refl _, .idle rfl rfl⟩
    | false => exact ⟨.refl _, .idle rfl rfl⟩
  · split_ifs at h
    cases h
    exact ⟨.refl _, .idle rfl rfl⟩
  · -- `XAUTOCLAIM`
    split at h
    · cases h
      exact ⟨.claim .., afterClaim_ok⟩
    · cases h
      exact ⟨(Moves.claim ..).ite, .idle rfl rfl⟩
    · cases h
  · -- `prefetchAttempts`
    rename_i msgs next reply now hph
    rw [hph] at hg
    split at h
    · cases h
    · cases h
      exact ⟨.refl _, startCalls_ok hg.messages, fun _ h => nomatch h⟩
  · -- `processMessage` of a reaper
    rename_i calls next i choice hph
    rw [hph] at hg
    cases hi : calls[i]? with
    | none => rw [hi] at h; cases h
    | some c =>
      rw [hi] at h
      obtain ⟨⟨sv₁, c₁⟩, hstep, hr⟩ := Option.map_eq_some_iff.1 h
      cases hr
      obtain ⟨hm, hcalls⟩ := calls_ok hw hg.calls hi hstep
      exact ⟨hm, hcalls, fun _ h => nomatch h⟩
  · -- the end of a page
    split_ifs at h
    · cases h
      exact ⟨.refl _, .idle rfl rfl⟩
    · cases h
      exact ⟨.refl _, .idle rfl rfl⟩
  · cases h

/-! ### The worker -/

/-- The invariant of the worker. -/
def Inv (marshal : DeadLetterRecord → Option String) (w : WorkerConfig) (s : State) : Prop :=
  ∀ g ∈ s.goroutines, PhaseOk marshal w s.server g.phase

private theorem startGoroutines_idle {inst : Nat} {g : Goroutine} (h : g ∈ startGoroutines w inst) :
    g.phase.calls = [] ∧ g.phase.messages = [] := by
  rcases List.mem_append.1 h with h | h
  · obtain ⟨i, -, rfl⟩ := List.mem_map.1 h
    exact ⟨rfl, rfl⟩
  · rw [List.mem_singleton.1 h]
    exact ⟨rfl, rfl⟩

private theorem step_ok (hw : Resolved w) {s s' : State} {a : Action} (hs : Inv marshal w s)
    (h : step marshal w s a = some s') : Moves marshal w s.server s'.server ∧ Inv marshal w s' := by
  cases a with
  | start =>
    simp only [step] at h
    split_ifs at h
    cases h
    refine ⟨.refl _, fun g hg => ?_⟩
    rcases List.mem_append.1 hg with hg | hg
    · exact hs g hg
    · exact .idle (startGoroutines_idle hg).1 (startGoroutines_idle hg).2
  | stop inst =>
    cases h
    exact ⟨.refl _, hs⟩
  | crash inst =>
    cases h
    exact ⟨.refl _, fun g hg => hs g (List.mem_of_mem_filter hg)⟩
  | publish topic now values =>
    cases h
    have hle := s.server.add_le topic now values
    exact ⟨.of_ids hle fun _ h => h, fun g hg => (hs g hg).mono hle⟩
  | step t choice =>
    simp only [step] at h
    cases ht : s.goroutines[t]? with
    | none => rw [ht] at h; cases h
    | some g =>
      rw [ht] at h
      obtain ⟨⟨sv, ph⟩, hstep, hr⟩ := Option.map_eq_some_iff.1 h
      cases hr
      obtain ⟨hm, hph⟩ := goroutineStep_ok hw (hs g (List.mem_of_getElem? ht)) hstep
      refine ⟨hm, fun g' hg' => ?_⟩
      rcases List.mem_or_eq_of_mem_set hg' with hg' | rfl
      · exact (hs g' hg').mono hm.le
      · exact hph

theorem inv_of_reachable (hw : Resolved w) {streams : String → List (Entry Values)} {group : Group} {s : State}
    (h : Transition.Reachable (step marshal w) (initial streams group) s) : Inv marshal w s :=
  h.invariant (fun _ hg => nomatch hg) fun _ _ _ hs hstep => (step_ok hw hs hstep).2

/-- **No message is lost.**  When a message leaves the pending entries, some processing of it has succeeded, or a dead
letter that carries its id has been appended to the dead-letter topic, or no dead-letter topic is in force and its
input mapping has failed or its delivery count has reached `max_attempts`. -/
theorem message_safe (marshal : DeadLetterRecord → Option String) (w : WorkerConfig)
    {streams : String → List (Entry Values)} {group : Group} {s s' : State} {a : Action} {id : Nat}
    (hs : Transition.Reachable (step marshal w.resolve) (initial streams group) s)
    (hstep : step marshal w.resolve s a = some s') (hid : id ∈ s.server.group.ids) (hid' : id ∉ s'.server.group.ids) :
    (∃ res, .ran id res ∈ s.server.log ∧ res.err = none) ∨
      KeptAsDeadLetter marshal w.resolve s.server id ∨
      w.resolve.deadLetter = none ∧
        ((∃ res, .ran id res ∈ s.server.log ∧ res.badInput = true) ∨
          ∃ p ∈ s.server.group.pending, p.id = id ∧ w.resolve.retry.maxAttempts ≤ p.count) := by
  have hw := resolved_resolve w
  have hleave := (step_ok hw (inv_of_reachable hw hs) hstep).1.leaves id hid hid'
  cases hleave with
  | processed res ran success => exact .inl ⟨res, ran, success⟩
  | deadLetter kept => exact .inr (.inl kept)
  | badMapping disabled res ran bad => exact .inr (.inr ⟨disabled, .inl ⟨res, ran, bad⟩⟩)
  | exhausted disabled count =>
    obtain ⟨p, hp, hpid⟩ := Group.mem_ids.1 hid
    have hcount := count p hp hpid
    exact .inr (.inr ⟨disabled, .inr ⟨p, hp, hpid, by omega⟩⟩)

/-- `json.Marshal` of a record written at the start of the epoch whose texts need no escapes. -/
def marshalPlain (r : DeadLetterRecord) : Option String :=
  let quote := fun t : String => "\"" ++ t ++ "\""
  let object := fun ps : List (String × String) =>
    "\x7b" ++ ",".intercalate (ps.map fun p => quote p.1 ++ ":" ++ p.2) ++ "\x7d"
  some (object [("dead_lettered_at", quote "1970-01-01T00:00:00Z"), ("error", quote r.error),
    ("original_group", quote r.originalGroup), ("original_message_id", quote (toString r.originalMessageId ++ "-0")),
    ("original_payload", object (r.originalPayload.map fun p => (p.1, quote p.2))),
    ("original_topic", quote r.originalTopic), ("trace_id", quote r.traceId)])

/-- A worker that keeps every failure as a dead letter. -/
def orders : WorkerConfig where
  id := "orders"
  topic := "orders.created"
  group := "billing"
  concurrency := 1
  timeout := 0
  deadLetter := some ⟨"orders.dead", 1⟩
  retry := ⟨0, 0⟩

/-- One order has been published. -/
def ordersStreams (topic : String) : List (Entry Values) :=
  if topic = "orders.created" then [⟨5, [("payload", "7")]⟩] else []

/-- The first attempt fails and its dead letter is published; the acknowledgement is still to come. -/
def ordersFailing : List Action :=
  [.start, .step 0 (.command .ok 0), .step 0 (.call 0 (.run (.handled (some "no funds")) "t")),
    .step 0 (.call 0 (.command .ok 0)), .step 0 (.call 0 (.command .ok 0))]

theorem message_safe_orders : ∃ s s',
    step marshalPlain orders.resolve s (.step 0 (.call 0 (.command .ok 0))) = some s' ∧
    5 ∈ s.server.group.ids ∧ 5 ∉ s'.server.group.ids ∧
      ((∃ res, .ran 5 res ∈ s.server.log ∧ res.err = none) ∨
        KeptAsDeadLetter marshalPlain orders.resolve s.server 5 ∨
        orders.resolve.deadLetter = none ∧
          ((∃ res, .ran 5 res ∈ s.server.log ∧ res.badInput = true) ∨
            ∃ p ∈ s.server.group.pending, p.id = 5 ∧ orders.resolve.retry.maxAttempts ≤ p.count)) := by
  obtain ⟨s, hrun, hp⟩ := Transition.exists_run
    (step marshalPlain orders.resolve) (initial ordersStreams Group.empty) ordersFailing
    (p := fun s : State =>
      (step marshalPlain orders.resolve s (.step 0 (.call 0 (.command .ok 0)))).any fun s' : State =>
      decide (5 ∈ s.server.group.ids ∧ 5 ∉ s'.server.group.ids)) (by decide +kernel)
  obtain ⟨s', hstep, hleaves⟩ := (Option.any_eq_true _ _).1 hp
  obtain ⟨hin, hout⟩ := of_decide_eq_true hleaves
  exact ⟨s, s', hstep, hin, hout, message_safe marshalPlain orders ⟨_, hrun⟩ hstep hin hout⟩

end Noda.Worker
