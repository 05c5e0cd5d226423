import Noda.Lib.Index
import Noda.Lib.Pool
import Noda.Lib.Transition

/-!
# The connection manager

`Register`, `Unregister`, `Send`, `SendSSE` and `Stop` of the manager, with any number of calls side by side.  What runs
under the lock is one step, and so is each call of a send function; the order in which a loop over a map visits it is
free.  Strings are lists of bytes.

`Send` and `SendSSE` work on a snapshot of the channel and `Stop` on a snapshot of all connections, while the others go
on.  In every reachable state the index by channel fits the connections, the limits are kept, and each send has called
those that were on its channel (`manager_consistent`).
-/

namespace Noda.Connmgr

open Transition

abbrev GoString := List UInt8

/-- The data of a send; `V` are the values that are neither `[]byte` nor `string`. -/
inductive Data (V : Type) where
  | bytes (bs : GoString)
  | string (s : GoString)
  | other (v : V)
  deriving DecidableEq, Repr

/-- `marshalData` and `marshalDataString`; `marshal` is `json.Marshal`. -/
def marshalData {V E : Type} (marshal : V → Except E GoString) : Data V → Except E GoString
  | .bytes bs => .ok bs
  | .string s => .ok s
  | .other v => marshal v

/-- A call of `Send` or of `SendSSE`. -/
inductive Request (V : Type) where
  | send (channel : GoString) (data : Data V)
  | sendSSE (channel event : GoString) (data : Data V) (id : GoString)
  deriving DecidableEq, Repr

/-- What a send function is called with. -/
inductive Message where
  | ws (payload : GoString)
  | sse (event data id : GoString)
  deriving DecidableEq, Repr

inductive SendError (E : Type) where
  | pattern
  | marshal (err : E)
  deriving DecidableEq, Repr

def Request.channel {V : Type} : Request V → GoString
  | .send channel _ | .sendSSE channel _ _ _ => channel

/-- The checks before the snapshot: a channel with a `*` is refused, and the data is marshalled. -/
def Request.prepare {V E : Type} (marshal : V → Except E GoString) : Request V → Except (SendError E) Message
  | .send channel data =>
    if 0x2A ∈ channel then .error .pattern
    else
      match marshalData marshal data with
      | .error err => .error (.marshal err)
      | .ok payload => .ok (.ws payload)
  | .sendSSE channel event data id =>
    if 0x2A ∈ channel then .error .pattern
    else
      match marshalData marshal data with
      | .error err => .error (.marshal err)
      | .ok dataStr => .ok (.sse event dataStr id)

/-- What the manager reads of a connection; the functions as whether they are set. -/
structure Conn where
  id : GoString
  channel : GoString
  sendFn : Bool
  sseFn : Bool
  deriving DecidableEq, Repr

/-- A limit that is not positive is none. -/
structure ManagerConfig where
  maxTotalConnections : Int
  maxConnectionsPerChannel : Int
  deriving DecidableEq, Repr

structure Manager where
  connections : AList fun _ : GoString => Conn
  channels : Index.Sets GoString GoString
  connCount : Int

inductive RegisterError where
  | maxConnectionsReached
  | maxChannelConnectionsReached
  deriving DecidableEq, Repr

/-- `Register`: the manager after it, and the error. -/
def Manager.register (config : ManagerConfig) (m : Manager) (conn : Conn) : Manager × Option RegisterError :=
  if 0 < config.maxTotalConnections ∧ config.maxTotalConnections ≤ m.connections.keys.length then
    (m, some .maxConnectionsReached)
  else if 0 < config.maxConnectionsPerChannel ∧
      (m.channels.lookup conn.channel).any fun set => config.maxConnectionsPerChannel ≤ set.keys.length then
    (m, some .maxChannelConnectionsReached)
  else
    ({ connections := m.connections.insert conn.id conn
       channels := Index.add m.channels conn.channel conn.id
       connCount := m.connCount + 1 }, none)

/-- `Unregister`. -/
def Manager.unregister (m : Manager) (connID : GoString) : Manager :=
  match m.connections.lookup connID with
  | none => m
  | some conn =>
    { connections := m.connections.erase connID
      channels := Index.remove m.channels conn.channel connID
      connCount := m.connCount - 1 }

/-- `channelConnections`. -/
def Manager.channelConnections (m : Manager) (channel : GoString) : List Conn :=
  Index.find m.connections m.channels channel

def Manager.all (m : Manager) : List Conn := m.connections.entries.map (·.2)

/-- The connections whose `Channel` is the channel. -/
def Manager.registered (m : Manager) (channel : GoString) : List Conn := Index.select Conn.channel m.connections channel

/-- The send function for the message is set. -/
def Conn.accepts (conn : Conn) : Message → Bool
  | .ws _ => conn.sendFn
  | .sse _ _ _ => conn.sseFn

/-- Where a `Send` or `SendSSE` is. -/
inductive SendPhase (E : Type) where
  | start
  | sending (message : Message) (rest : List Conn)
  | returned (err : Option (SendError E))

/-- A call of `Send` or `SendSSE`.  `snapshot` is a ghost: the connections that were registered on the channel when the
snapshot was taken; `called` are the send functions that were called, with what. -/
structure SendCall (V E : Type) where
  request : Request V
  phase : SendPhase E
  snapshot : List Conn
  called : List (Conn × Message)

/-- Where a `Stop` is. -/
inductive StopPhase where
  | start
  | closing (rest : List Conn)
  | returned

structure State (V E : Type) where
  manager : Manager
  sends : List (SendCall V E)
  stops : List StopPhase

/-- `order` is the order in which a loop over a map visits it. -/
inductive Action (V : Type) where
  | register (conn : Conn)
  | unregister (connID : GoString)
  | callSend (request : Request V)
  | send (k : Nat) (order : List Conn)
  | callStop
  | stop (k : Nat) (order : List Conn)

variable {V E : Type}

def initial : State V E := ⟨⟨∅, ∅, 0⟩, [], []⟩

def SendCall.step (marshal : V → Except E GoString) (m : Manager) (order : List Conn) (call : SendCall V E) :
    Option (SendCall V E) :=
  match call.phase with
  | .start =>
    match call.request.prepare marshal with
    | .error err => some { call with phase := .returned (some err) }
    | .ok message =>
      if order.Perm (m.channelConnections call.request.channel) then
        some { call with phase := .sending message order, snapshot := m.registered call.request.channel }
      else none
  | .sending message (conn :: rest) =>
    some { call with
      phase := .sending message rest
      called := if conn.accepts message then call.called ++ [(conn, message)] else call.called }
  | .sending _ [] => some { call with phase := .returned none }
  | .returned _ => none

/-- `Stop` closes a connection and unregisters it; its `CloseFn` does not touch the manager. -/
def stopStep (m : Manager) (order : List Conn) : StopPhase → Option (Manager × StopPhase)
  | .start => if order.Perm m.all then some (m, .closing order) else none
  | .closing (conn :: rest) => some (m.unregister conn.id, .closing rest)
  | .closing [] => some (m, .returned)
  | .returned => none

/-- The id of a connection that is registered is not in use. -/
def step (config : ManagerConfig) (marshal : V → Except E GoString) (s : State V E) : Action V → Option (State V E)
  | .register conn =>
    if conn.id ∈ s.manager.connections then none else some { s with manager := (s.manager.register config conn).1 }
  | .unregister connID => some { s with manager := s.manager.unregister connID }
  | .callSend request => some { s with sends := s.sends ++ [⟨request, .start, [], []⟩] }
  | .send k order =>
    (s.sends[k]?).bind fun call =>
      (call.step marshal s.manager order).map fun call' => { s with sends := s.sends.set k call' }
  | .callStop => some { s with stops := s.stops ++ [.start] }
  | .stop k order =>
    (s.stops[k]?).bind fun phase =>
      (stopStep s.manager order phase).map fun (m, phase') => { s with manager := m, stops := s.stops.set k phase' }

/-! ### The invariant -/

/-- What is expected of the manager. -/
structure Consistent (config : ManagerConfig) (m : Manager) : Prop where
  /-- The id is in the set of the channel iff the connection has that channel. -/
  index : ∀ channel connID, (∃ set, m.channels.lookup channel = some set ∧ connID ∈ set) ↔
    ∃ conn, m.connections.lookup connID = some conn ∧ conn.channel = channel
  nonempty : ∀ channel set, m.channels.lookup channel = some set → set.keys ≠ []
  count : m.connCount = m.connections.keys.length
  total : 0 < config.maxTotalConnections → m.connections.keys.length ≤ config.maxTotalConnections
  perChannel : 0 < config.maxConnectionsPerChannel →
    ∀ channel, (m.registered channel).length ≤ config.maxConnectionsPerChannel
  /-- A connection is registered under its own id. -/
  ids : ∀ connID conn, m.connections.lookup connID = some conn → conn.id = connID
  /-- A `Register` that fails changes nothing. -/
  failed : ∀ conn m' err, m.register config conn = (m', some err) → m' = m

/-- What is expected of a `Send` or `SendSSE`: it has called nobody when it fails; otherwise each connection of its
snapshot that has the send function is called with the message, exactly once. -/
structure SendOk (marshal : V → Except E GoString) (call : SendCall V E) : Prop where
  distinct : (call.snapshot.map Conn.id).Nodup
  channel : ∀ conn ∈ call.snapshot, conn.channel = call.request.channel
  failed : ∀ err, call.phase = .returned (some err) → call.request.prepare marshal = .error err ∧ call.called = []
  done : call.phase = .returned none → ∃ message, call.request.prepare marshal = .ok message ∧
    call.called.Perm ((call.snapshot.filter (·.accepts message)).map (·, message))

/-- The invariant of the manager, with the limit on a channel as a limit on its set. -/
structure ManagerOk (config : ManagerConfig) (m : Manager) : Prop where
  indexes : Index.Indexes Conn.channel m.connections m.channels
  count : m.connCount = m.connections.keys.length
  total : 0 < config.maxTotalConnections → m.connections.keys.length ≤ config.maxTotalConnections
  perChannel : 0 < config.maxConnectionsPerChannel →
    ∀ channel, (Index.keys m.channels channel).length ≤ config.maxConnectionsPerChannel
  ids : ∀ connID conn, m.connections.lookup connID = some conn → conn.id = connID

variable {config : ManagerConfig} {m m' : Manager} {conn : Conn} {connID : GoString} {marshal : V → Except E GoString}
  {s s' : State V E} {call call' : SendCall V E}

/-- A `Register` fails, and then nothing changes, or it adds the connection within the limits. -/
private theorem register_cases (config : ManagerConfig) (m : Manager) (conn : Conn) :
    (∃ err, m.register config conn = (m, some err)) ∨
    (m.register config conn =
        (⟨m.connections.insert conn.id conn, Index.add m.channels conn.channel conn.id, m.connCount + 1⟩, none) ∧
      (0 < config.maxTotalConnections → m.connections.keys.length < config.maxTotalConnections) ∧
      (0 < config.maxConnectionsPerChannel →
        (Index.keys m.channels conn.channel).length < config.maxConnectionsPerChannel)) := by
  unfold Manager.register
  split_ifs with htotal hchannel
  · exact .inl ⟨_, rfl⟩
  · exact .inl ⟨_, rfl⟩
  · refine .inr ⟨rfl, fun hpos => by_contra fun hge => htotal ⟨hpos, Int.not_lt.1 hge⟩, fun hpos => ?_⟩
    unfold Index.keys
    cases hset : m.channels.lookup conn.channel with
    | none => simpa using hpos
    | some set =>
      rw [hset] at hchannel
      simp only [Option.any_some, decide_eq_true_eq, not_and, Int.not_le] at hchannel
      exact hchannel hpos

private theorem managerOk_register (h : ManagerOk config m) (hfresh : conn.id ∉ m.connections) :
    ManagerOk config (m.register config conn).1 := by
  rcases register_cases config m conn with ⟨err, heq⟩ | ⟨heq, htotal, hchannel⟩
  · rw [heq]
    exact h
  · rw [heq]
    have hlength := Index.length_insert (v := conn) hfresh
    refine ⟨h.indexes.insert hfresh, ?_, ?_, ?_, ?_⟩
    · show m.connCount + 1 = _
      rw [hlength, h.count]
      rfl
    · intro hpos
      show (_ : Int) ≤ _
      rw [hlength]
      have hlt := htotal hpos
      omega
    · intro hpos channel
      show ((Index.keys (Index.add m.channels conn.channel conn.id) channel).length : Int) ≤ _
      by_cases heq : channel = conn.channel
      · subst heq
        have hlt := hchannel hpos
        have hle := Index.length_keys_add_le m.channels conn.channel conn.id
        omega
      · rw [Index.keys_add_of_ne heq]
        exact h.perChannel hpos channel
    · intro connID conn' hlookup
      by_cases heq : connID = conn.id
      · subst heq
        rw [AList.lookup_insert] at hlookup
        rw [← Option.some.inj hlookup]
      · rw [AList.lookup_insert_ne heq] at hlookup
        exact h.ids connID conn' hlookup

private theorem managerOk_unregister (h : ManagerOk config m) (connID : GoString) :
    ManagerOk config (m.unregister connID) := by
  unfold Manager.unregister
  cases hconn : m.connections.lookup connID with
  | none => exact h
  | some conn =>
    have hlength := Index.length_erase hconn
    refine ⟨h.indexes.erase hconn, ?_, ?_, ?_, ?_⟩
    · show m.connCount - 1 = (m.connections.erase connID).keys.length
      rw [h.count]
      omega
    · intro hlimit
      show ((m.connections.erase connID).keys.length : Int) ≤ _
      have hle := h.total hlimit
      omega
    · intro hlimit channel
      show ((Index.keys (Index.remove m.channels conn.channel connID) channel).length : Int) ≤ _
      have hle := h.perChannel hlimit channel
      by_cases heq : channel = conn.channel
      · subst heq
        have hremove := Index.length_keys_remove_le m.channels conn.channel connID
        omega
      · rw [Index.keys_remove_of_ne heq]
        exact hle
    · intro connID' conn' hlookup
      by_cases heq : connID' = connID
      · subst heq
        rw [AList.lookup_erase] at hlookup
        cases hlookup
      · rw [AList.lookup_erase_ne heq] at hlookup
        exact h.ids connID' conn' hlookup

theorem ManagerOk.consistent (h : ManagerOk config m) : Consistent config m where
  index channel connID := by
    rw [← h.indexes.mem_iff channel connID, Index.keys]
    cases m.channels.lookup channel with
    | none => simp
    | some set => simp [AList.mem_keys]
  nonempty := h.indexes.nonempty
  count := h.count
  total := h.total
  perChannel hpos channel := by
    rw [Manager.registered, ← h.indexes.length_keys channel]
    exact h.perChannel hpos channel
  ids := h.ids
  failed conn m' err heq := by
    rcases register_cases config m conn with ⟨err', hfail⟩ | ⟨hok, -⟩
    · rw [hfail] at heq
      exact (Prod.mk.inj heq).1.symm
    · rw [hok] at heq
      cases (Prod.mk.inj heq).2

theorem ManagerOk.registered_distinct (h : ManagerOk config m) (channel : GoString) :
    ((m.registered channel).map Conn.id).Nodup ∧ ∀ conn ∈ m.registered channel, conn.channel = channel := by
  have hids : (m.registered channel).map Conn.id =
      (m.connections.entries.filter fun e => e.2.channel = channel).map Sigma.fst := by
    rw [Manager.registered, Index.select, List.map_map]
    refine List.map_congr_left fun e he => ?_
    exact h.ids e.1 e.2 (AList.mem_lookup_iff.2 (List.mem_filter.1 he).1)
  constructor
  · rw [hids]
    exact m.connections.keys_nodup.sublist (List.filter_sublist.map Sigma.fst)
  · intro conn hconn
    obtain ⟨e, he, rfl⟩ := List.mem_map.1 hconn
    simpa using (List.mem_filter.1 he).2

/-! ### The sends -/

/-- What is known of a send, by where it is. -/
def PhaseOk (marshal : V → Except E GoString) (call : SendCall V E) : Prop :=
  match call.phase with
  | .start => call.called = []
  | .sending message rest => call.request.prepare marshal = .ok message ∧
      (call.called ++ (rest.filter (·.accepts message)).map (·, message)).Perm
        ((call.snapshot.filter (·.accepts message)).map (·, message))
  | .returned (some err) => call.request.prepare marshal = .error err ∧ call.called = []
  | .returned none => ∃ message, call.request.prepare marshal = .ok message ∧
      call.called.Perm ((call.snapshot.filter (·.accepts message)).map (·, message))

/-- A send in progress, with the connections of its snapshot. -/
structure CallOk (marshal : V → Except E GoString) (call : SendCall V E) : Prop where
  distinct : (call.snapshot.map Conn.id).Nodup
  channel : ∀ conn ∈ call.snapshot, conn.channel = call.request.channel
  phase : PhaseOk marshal call

theorem CallOk.sendOk (h : CallOk marshal call) : SendOk marshal call where
  distinct := h.distinct
  channel := h.channel
  failed err hphase := by
    have hok := h.phase
    rw [PhaseOk, hphase] at hok
    exact hok
  done hphase := by
    have hok := h.phase
    rw [PhaseOk, hphase] at hok
    exact hok

private theorem callOk_step {order : List Conn} (hm : ManagerOk config m) (h : CallOk marshal call)
    (hstep : call.step marshal m order = some call') : CallOk marshal call' := by
  obtain ⟨hdistinct, hchannel, hphase⟩ := h
  obtain ⟨request, phase, snapshot, called⟩ := call
  cases phase with
  | start =>
    obtain rfl : called = [] := hphase
    simp only [SendCall.step] at hstep
    cases hprepare : request.prepare marshal with
    | error err =>
      simp only [hprepare, Option.some.injEq] at hstep
      subst hstep
      exact ⟨hdistinct, hchannel, hprepare, rfl⟩
    | ok message =>
      simp only [hprepare, Option.ite_none_right_eq_some, Option.some.injEq] at hstep
      obtain ⟨horder, rfl⟩ := hstep
      obtain ⟨hids, hchannels⟩ := hm.registered_distinct request.channel
      have hperm : order.Perm (m.registered request.channel) := horder.trans (hm.indexes.find_perm request.channel)
      exact ⟨hids, hchannels, hprepare, (hperm.filter _).map _⟩
  | sending message rest =>
    obtain ⟨hprepare, hperm⟩ : request.prepare marshal = .ok message ∧ _ := hphase
    cases rest with
    | nil =>
      obtain rfl := Option.some.inj hstep
      exact ⟨hdistinct, hchannel, message, hprepare, by simpa using hperm⟩
    | cons conn rest =>
      obtain rfl := Option.some.inj hstep
      refine ⟨hdistinct, hchannel, hprepare, ?_⟩
      cases haccepts : conn.accepts message with
      | true => simpa [haccepts] using hperm
      | false => simpa [haccepts] using hperm
  | returned err => cases hstep

/-! ### Whole runs -/

structure Inv (config : ManagerConfig) (marshal : V → Except E GoString) (s : State V E) : Prop where
  manager : ManagerOk config s.manager
  sends : ∀ call ∈ s.sends, CallOk marshal call

private theorem managerOk_stop {order : List Conn} {phase phase' : StopPhase} (h : ManagerOk config m)
    (hstep : stopStep m order phase = some (m', phase')) : ManagerOk config m' := by
  cases phase with
  | start =>
    simp only [stopStep, Option.ite_none_right_eq_some, Option.some.injEq, Prod.mk.injEq] at hstep
    obtain ⟨-, rfl, -⟩ := hstep
    exact h
  | closing rest =>
    cases rest with
    | nil =>
      obtain ⟨rfl, -⟩ := Prod.mk.inj (Option.some.inj hstep)
      exact h
    | cons conn rest =>
      obtain ⟨rfl, -⟩ := Prod.mk.inj (Option.some.inj hstep)
      exact managerOk_unregister h conn.id
  | returned => cases hstep

theorem inv_step {a : Action V} (h : Inv config marshal s) (hstep : step config marshal s a = some s') :
    Inv config marshal s' := by
  cases a with
  | register conn =>
    simp only [step, Option.ite_none_left_eq_some, Option.some.injEq] at hstep
    obtain ⟨hfresh, rfl⟩ := hstep
    exact ⟨managerOk_register h.manager hfresh, h.sends⟩
  | unregister connID =>
    obtain rfl := Option.some.inj hstep
    exact ⟨managerOk_unregister h.manager connID, h.sends⟩
  | callSend request =>
    obtain rfl := Option.some.inj hstep
    refine ⟨h.manager, fun call hcall => ?_⟩
    rcases List.mem_append.1 hcall with hcall | hcall
    · exact h.sends call hcall
    · rw [List.mem_singleton.1 hcall]
      exact ⟨List.nodup_nil, fun _ hconn => absurd hconn List.not_mem_nil, rfl⟩
  | send k order =>
    obtain ⟨call, hcall, hmap⟩ := Option.bind_eq_some_iff.1 hstep
    obtain ⟨call', hcallstep, rfl⟩ := Option.map_eq_some_iff.1 hmap
    refine ⟨h.manager, fun c hc => ?_⟩
    rcases List.mem_or_eq_of_mem_set hc with hc | rfl
    · exact h.sends c hc
    · exact callOk_step h.manager (h.sends call (List.mem_of_getElem? hcall)) hcallstep
  | callStop =>
    obtain rfl := Option.some.inj hstep
    exact ⟨h.manager, h.sends⟩
  | stop k order =>
    obtain ⟨phase, -, hmap⟩ := Option.bind_eq_some_iff.1 hstep
    obtain ⟨⟨m', phase'⟩, hstopstep, rfl⟩ := Option.map_eq_some_iff.1 hmap
    exact ⟨managerOk_stop h.manager hstopstep, h.sends⟩

/-- In every reachable state the manager is consistent, and every send has called those that were on its channel. -/
theorem manager_consistent (h : Reachable (step config marshal) initial s) :
    Consistent config s.manager ∧ ∀ call ∈ s.sends, SendOk marshal call := by
  have h₀ : Inv config marshal (initial : State V E) := by
    refine ⟨⟨Index.indexes_empty _, rfl, ?_, ?_, ?_⟩, fun _ hcall => absurd hcall List.not_mem_nil⟩
    · exact fun hpos => Int.le_of_lt hpos
    · exact fun hpos channel => Int.le_of_lt hpos
    · intro connID conn hlookup
      cases hlookup
  have hinv := h.invariant h₀ fun _ _ _ hs hstep => inv_step hs hstep
  exact ⟨hinv.manager.consistent, fun call hcall => (hinv.sends call hcall).sendOk⟩

/-- Three connections on a channel. -/
def conns : List Conn := [⟨[0x31], [0x61], true, false⟩, ⟨[0x32], [0x61], true, false⟩, ⟨[0x33], [0x61], true, false⟩]

/-- The third connection is refused; the first one goes while it is sent to, and then the manager is stopped. -/
def stopped : List (Action Unit) :=
  conns.map .register ++ [.callSend (.send [0x61] (.string [0x68, 0x69])), .send 0 (conns.take 2),
    .unregister [0x31], .send 0 [], .send 0 [], .send 0 [], .callStop, .stop 0 [⟨[0x32], [0x61], true, false⟩],
      .stop 0 [],
    .stop 0 []]

/-- `json.Marshal` of `nil`. -/
def marshalNil (_ : Unit) : Except Unit GoString := .ok [0x6E, 0x75, 0x6C, 0x6C]

theorem manager_consistent_stopped : ∃ s, run (step ⟨0, 2⟩ marshalNil) initial stopped = some s ∧
    s.manager.connCount = 0 ∧ s.sends.map SendCall.called = [(conns.take 2).map (·, .ws [0x68, 0x69])] ∧
    Consistent ⟨0, 2⟩ s.manager ∧ ∀ call ∈ s.sends, SendOk marshalNil call := by
  obtain ⟨s, hrun, hs⟩ := exists_run (step ⟨0, 2⟩ marshalNil) initial stopped
    (p := fun s => decide (s.manager.connCount = 0 ∧
      s.sends.map SendCall.called = [(conns.take 2).map (·, .ws [0x68, 0x69])])) (by decide +kernel)
  obtain ⟨hcount, hcalled⟩ := of_decide_eq_true hs
  exact ⟨s, hrun, hcount, hcalled, manager_consistent ⟨stopped, hrun⟩⟩

end Noda.Connmgr
