import Noda.Engine.SubWorkflow

/-!
# Transaction scope

A `workflow.run` node with `transaction: true` opens a transaction on the instance in its `database` slot and hands its
handle to the sub-workflow by `WithOverrides`.  The override is keyed by the slot, `"database"`, while `dispatchNode`
looks services up by name; and a runner that is called inside the sub-workflow starts again from its own registry.

* `transaction_scope_iff`: the nodes inside that name a service get the handle exactly when the service is registered
  under the name `"database"` and every call in between is a transaction on that service;
* `transaction_leak`: a node that names the service of the transaction and gets the pooled instance.
-/

namespace Noda.Engine

variable {D : Type} {g : CompiledGraph} {reg : Registries D} {s s' : RunState D} {n S : String}

/-! ### Service registries -/

/-- `WithOverrides`: an override replaces the instance of a registered service. -/
def withOverrides (services : GoMap D) (overrides : List (String × D)) : GoMap D :=
  overrides.foldl (fun m p => if p.1 ∈ m then m.insert p.1 p.2 else m) services

/-- `SubWorkflowRunnerImpl`. -/
structure Runner (D : Type) where
  cache : GoMap CompiledGraph
  services : GoMap D
  hasFactory : String → Bool

/-- The registry of a sub-workflow that is run with overrides. -/
def Runner.childServices (r : Runner D) (overrides : List (String × D)) : GoMap D :=
  if 0 < overrides.length then withOverrides r.services overrides else r.services

private theorem childServices_lookup {r : Runner D} {t h : D}
    (hl : (r.childServices [("database", t)]).lookup S = some h) :
    (S = "database" ∧ h = t) ∨ (S ≠ "database" ∧ r.services.lookup S = some h) := by
  simp only [Runner.childServices, withOverrides, List.length_singleton, Nat.zero_lt_one, ↓reduceIte, List.foldl_cons,
    List.foldl_nil] at hl
  by_cases hS : S = "database"
  · subst hS
    split at hl
    · rw [AList.lookup_insert, Option.some.injEq] at hl
      exact .inl ⟨rfl, hl.symm⟩
    · rename_i hno
      exact absurd (AList.mem_of_lookup hl) hno
  · refine .inr ⟨hS, ?_⟩
    split at hl
    · rwa [AList.lookup_insert_ne hS] at hl
    · exact hl

/-! ### What a node is handed -/

private theorem resolveServices_lookup {id slot : String} {services : GoMap D} {ps : List (String × String)}
    {resolved : List (String × D)} (h : resolveServices id services ps = .ok resolved) (hnd : (ps.map Prod.fst).Nodup)
    (hmem : (slot, S) ∈ ps) : ∃ x, resolved.lookup slot = some x ∧ services.lookup S = some x := by
  induction ps generalizing resolved with
  | nil => cases hmem
  | cons p ps ih =>
    obtain ⟨slot', S'⟩ := p
    rw [List.map_cons, List.nodup_cons] at hnd
    rw [resolveServices] at h
    split at h
    · cases h
    · rename_i svc hsvc
      split at h
      · cases h
      · rename_i rest hrest
        cases h
        rcases List.mem_cons.1 hmem with he | hmem
        · cases he
          exact ⟨svc, by simp, hsvc⟩
        · have hne : slot ≠ slot' := fun he => hnd.1 (he ▸ List.mem_map.2 ⟨_, hmem, rfl⟩)
          obtain ⟨x, hx, hl⟩ := ih hrest hnd.2 hmem
          exact ⟨x, by rw [List.lookup_cons, beq_false_of_ne hne]; exact hx, hl⟩

/-- The executor of a node is handed the instances its slots name in the registry of the run. -/
private theorem prepare_lookup {node : CompiledNode} {handed : List (String × D)} {slot : String}
    (h : prepare reg node = .ok handed) (hslot : node.services.lookup slot = some S) :
    ∃ x, handed.lookup slot = some x ∧ reg.services.lookup S = some x := by
  rw [prepare] at h
  split at h
  · refine resolveServices_lookup h ?_ (AList.mem_toPairs.2 hslot)
    rw [← AList.keys_eq_map_toPairs]
    exact node.services.keys_nodup
  · cases h

private theorem prepared_of_reachable {retain : Bool} (h : Transition.Reachable (step g reg) (initial g retain) s) :
    ∀ n retry handed, (n, .executing retry handed) ∈ s.goroutines → prepare reg (g.node n) = .ok handed := by
  refine h.invariant (P := fun s => ∀ n retry handed, (n, Pc.executing retry handed) ∈ s.goroutines →
    prepare reg (g.node n) = .ok handed) (by simp [initial]) fun s a s' hs ha => ?_
  obtain ⟨-, -, hc⟩ := step_cases ha
  cases hc with
  | startEntry t ts hts =>
    intro n retry handed hn
    rcases List.mem_append.1 hn with hn | hn
    · exact hs n retry handed hn
    · cases List.mem_singleton.1 hn
  | move i n pc pc' eff hi hm =>
    intro m retry handed hmem
    rcases perform_mem_goroutines hmem with hmem | hmem
    · rcases List.mem_or_eq_of_mem_set hmem with hmem | heq
      · exact hs m retry handed hmem
      · cases heq
        cases hm with
        | register retry services hp => exact hp
    · cases hmem
  | ctxEnd e hc => exact hs
  | finish inherited hw => exact hs

/-! ### Nested runs -/

/-- `config["transaction"].(bool)`. -/
def isTransaction (config : Config) : Bool :=
  match config.lookup "transaction" with
  | some (.bool b) => b
  | _ => false

/-- A call of a sub-workflow: without a transaction (`workflow.run`, `control.loop`), or with one on a service. -/
inductive CallKind where
  | plain
  | transaction (database : String)
  deriving DecidableEq, Repr

/-- The runs inside the sub-workflow `workflow`, with the calls that lead to them, the outermost first.  The root is run
with the registry `root`; a call starts again from the registry of the runner.  `nested` is the handle that gorm's
`Transaction` gives for a handle. -/
inductive Inside (r : Runner D) (nested : D → D) (root : GoMap D) (workflow : String) :
    List CallKind → GoMap D → CompiledGraph → RunState D → Prop
  | root {g : CompiledGraph} {s : RunState D} (hg : r.cache.lookup workflow = some g)
      (hs : Transition.Reachable (step g ⟨r.hasFactory, root⟩) (initial g false) s) :
      Inside r nested root workflow [] root g s
  | plain {path : List CallKind} {services : GoMap D} {g g' : CompiledGraph} {s s' : RunState D} {n : String}
      {retry : Option RetryLoop} {handed : List (String × D)} (h : Inside r nested root workflow path services g s)
      (hn : (n, .executing retry handed) ∈ s.goroutines)
      (hcall : (g.node n).type = "control.loop" ∨
        (g.node n).type = "workflow.run" ∧ isTransaction (g.node n).config = false)
      (hg : r.cache.lookup (strField (g.node n).config "workflow") = some g')
      (hs : Transition.Reachable (step g' ⟨r.hasFactory, r.childServices []⟩) (initial g' false) s') :
      Inside r nested root workflow (path ++ [.plain]) (r.childServices []) g' s'
  | transaction {path : List CallKind} {services : GoMap D} {g g' : CompiledGraph} {s s' : RunState D} {n S : String}
      {retry : Option RetryLoop} {handed : List (String × D)} {db : D}
      (h : Inside r nested root workflow path services g s) (hn : (n, .executing retry handed) ∈ s.goroutines)
      (hcall : (g.node n).type = "workflow.run" ∧ isTransaction (g.node n).config = true)
      (hslot : (g.node n).services.lookup "database" = some S) (hdb : handed.lookup "database" = some db)
      (hg : r.cache.lookup (strField (g.node n).config "workflow") = some g')
      (hs : Transition.Reachable (step g' ⟨r.hasFactory, r.childServices [("database", nested db)]⟩)
        (initial g' false) s') :
      Inside r nested root workflow (path ++ [.transaction S]) (r.childServices [("database", nested db)]) g' s'

theorem Inside.reachable {r : Runner D} {nested : D → D} {root services : GoMap D} {workflow : String}
    {path : List CallKind} (h : Inside r nested root workflow path services g s) :
    Transition.Reachable (step g ⟨r.hasFactory, services⟩) (initial g false) s := by
  cases h with
  | root hg hs => exact hs
  | plain h hn hcall hg hs => exact hs
  | transaction h hn hcall hslot hdb hg hs => exact hs

section

/-! What gorm documents about transactions, for the transaction of `t`: its handle is on the transaction, registered
instances are not, and `Transaction` on a handle of the transaction stays on it, on any other it does not. -/

variable {r : Runner D} {nested : D → D} {InTx : D → Prop} {t : D} (ht : InTx t)
  (hpool : ∀ S h, r.services.lookup S = some h → ¬ InTx h) (hnested : ∀ d, InTx (nested d) ↔ InTx d)
include ht hpool hnested

/-- The instances of a nested registry that are on the transaction. -/
theorem Inside.inTx_iff {services : GoMap D} {workflow : String} {path : List CallKind}
    (h : Inside r nested (r.childServices [("database", t)]) workflow path services g s) {h' : D}
    (hl : services.lookup S = some h') :
    InTx h' ↔ S = "database" ∧ ∀ k ∈ path, k = .transaction "database" := by
  induction h generalizing S h' with
  | root hg hs =>
    rcases childServices_lookup hl with ⟨rfl, rfl⟩ | ⟨hS, hbase⟩
    · simp [ht]
    · simp [hS, hpool S h' hbase]
  | plain h hn hcall hg hs ih =>
    simp [hpool S h' hl]
  | @transaction path services g g' s s' n S' retry handed db h hn hcall hslot hdb hg hs ih =>
    obtain ⟨x, hx, hlx⟩ := prepare_lookup (prepared_of_reachable h.reachable n retry handed hn) hslot
    obtain rfl : db = x := Option.some.inj (hdb.symm.trans hx)
    have hdbx := ih hlx
    rcases childServices_lookup hl with ⟨rfl, rfl⟩ | ⟨hS, hbase⟩
    · rw [hnested, hdbx]
      simp only [List.mem_append, List.mem_singleton, true_and, or_imp, forall_and, forall_eq,
        CallKind.transaction.injEq]
      exact and_comm
    · simp [hS, hpool S h' hbase]

end

/-! ### The scope of a transaction -/

/-- The error the callback of the transaction returns. -/
def callbackErr : Except (WorkflowError D) (String × Option D) → Option (WorkflowError D)
  | .error e => some e
  | .ok _ => none

/-- `executeWithTransaction` after the sub-workflow has returned: whether the transaction was committed, and the
result of the node.  `transaction` is gorm's `Transaction`, from the error of the callback. -/
def executeWithTransaction (nil : D) (wrap : WorkflowError D → ExecError)
    (transaction : Option (WorkflowError D) → Bool × Option (WorkflowError D))
    (res : Except (WorkflowError D) (String × Option D)) : Bool × ExecResult D :=
  match transaction (callbackErr res), res with
  | (committed, some txErr), _ => (committed, .fail (wrap txErr))
  | (committed, none), .ok (outputName, data) => (committed, .ok (routeOutput outputName) (data.getD nil))
  | (committed, none), .error _ => (committed, .ok (routeOutput "") nil)

/-- The scope of the transaction of `t`, opened for the sub-workflow `workflow` on the service `S`. -/
structure TransactionScope (r : Runner D) (nested : D → D) (InTx : D → Prop)
    (transaction : Option (WorkflowError D) → Bool × Option (WorkflowError D)) (t : D) (workflow S : String) :
      Prop where
  /-- a node inside whose slot names `S` is handed the transaction -/
  handed : ∀ path services g s n retry handed slot,
    Inside r nested (r.childServices [("database", t)]) workflow path services g s →
    (n, .executing retry handed) ∈ s.goroutines → (g.node n).services.lookup slot = some S →
    ∃ h, handed.lookup slot = some h ∧ InTx h
  /-- the transaction is committed iff the run returned no error -/
  committed_iff : ∀ nil wrap services g s res,
    Inside r nested (r.childServices [("database", t)]) workflow [] services g s → subResult s = some res →
    ((executeWithTransaction nil wrap transaction res).1 = true ↔ ∃ v, res = .ok v)

/-- Every node inside that names `S` is reached by transactions on the service `"database"` only, and `S` is that
service. -/
def OnlyTransactions (r : Runner D) (nested : D → D) (t : D) (workflow S : String) : Prop :=
  ∀ path services g s n retry handed slot,
    Inside r nested (r.childServices [("database", t)]) workflow path services g s →
    (n, .executing retry handed) ∈ s.goroutines → (g.node n).services.lookup slot = some S →
    S = "database" ∧ ∀ k ∈ path, k = CallKind.transaction S

private theorem committed_iff {transaction : Option (WorkflowError D) → Bool × Option (WorkflowError D)}
    (hgorm : ∀ e, (transaction e).1 = true ↔ e = none) (nil : D) (wrap : WorkflowError D → ExecError)
    (res : Except (WorkflowError D) (String × Option D)) :
    (executeWithTransaction nil wrap transaction res).1 = true ↔ ∃ v, res = .ok v := by
  have hfst : (executeWithTransaction nil wrap transaction res).1 = (transaction (callbackErr res)).1 := by
    cases hr : transaction (callbackErr res) with
    | mk committed txErr => cases txErr <;> cases res <;> simp [executeWithTransaction, hr]
  rw [hfst, hgorm]
  cases res with
  | error e => simp [callbackErr]
  | ok v => simp [callbackErr]

/-- The code keeps the scope of a transaction exactly when the service has the name `"database"` and every call between
the transaction and a node that names the service is itself a transaction on it. -/
theorem transaction_scope_iff (r : Runner D) (nested : D → D) (InTx : D → Prop)
    (transaction : Option (WorkflowError D) → Bool × Option (WorkflowError D)) (t : D) (workflow S : String)
    (ht : InTx t) (hpool : ∀ S h, r.services.lookup S = some h → ¬ InTx h) (hnested : ∀ d, InTx (nested d) ↔ InTx d)
    (hgorm : ∀ e, (transaction e).1 = true ↔ e = none) :
    TransactionScope r nested InTx transaction t workflow S ↔ OnlyTransactions r nested t workflow S := by
  have hkey : ∀ path services g s n retry handed slot,
      Inside r nested (r.childServices [("database", t)]) workflow path services g s →
      (n, Pc.executing retry handed) ∈ s.goroutines → (g.node n).services.lookup slot = some S →
      ∃ h, handed.lookup slot = some h ∧ (InTx h ↔ S = "database" ∧ ∀ k ∈ path, k = .transaction "database") := by
    intro path services g s n retry handed slot h hn hslot
    obtain ⟨x, hx, hl⟩ := prepare_lookup (prepared_of_reachable h.reachable n retry handed hn) hslot
    exact ⟨x, hx, h.inTx_iff ht hpool hnested hl⟩
  constructor
  · intro hscope path services g s n retry handed slot h hn hslot
    obtain ⟨x, hx, hiff⟩ := hkey path services g s n retry handed slot h hn hslot
    obtain ⟨y, hy, hin⟩ := hscope.handed path services g s n retry handed slot h hn hslot
    obtain rfl : x = y := Option.some.inj (hx.symm.trans hy)
    obtain ⟨rfl, hpath⟩ := hiff.1 hin
    exact ⟨rfl, hpath⟩
  · intro honly
    refine ⟨fun path services g s n retry handed slot h hn hslot => ?_, fun nil wrap services g s res _ _ => ?_⟩
    · obtain ⟨x, hx, hiff⟩ := hkey path services g s n retry handed slot h hn hslot
      obtain ⟨rfl, hpath⟩ := honly path services g s n retry handed slot h hn hslot
      exact ⟨x, hx, hiff.2 ⟨rfl, hpath⟩⟩
    · exact committed_iff hgorm nil wrap res

/-! ### Sample sub-workflows -/

/-- Service instances: pooled connections, and the handle of a transaction. -/
inductive Handle where
  | pool (name : String)
  | tx (id : Nat)
  deriving DecidableEq, Repr

/-- `Transaction` on a handle: a savepoint inside a transaction, else a new transaction. -/
def Handle.nested : Handle → Handle
  | .pool _ => .tx 1
  | .tx id => .tx id

/-- gorm's `Transaction`, when the commit itself succeeds. -/
def gormTransaction (callbackErr : Option (WorkflowError Handle)) : Bool × Option (WorkflowError Handle) :=
  (callbackErr.isNone, callbackErr)

/-- A sub-workflow that inserts a row through the service `database`. -/
def createOrder (database : String) : WorkflowConfig where
  id := "create-order"
  nodes := GoMap.ofPairs [("insert", { type := "db.create", services := GoMap.ofPairs [("database", database)] })]
  edges := []

/-- The runner of a system with one database and one workflow. -/
def orderRunner (database : String) (g : CompiledGraph) : Runner Handle where
  cache := GoMap.ofPairs [("create-order", g)]
  services := GoMap.ofPairs [(database, .pool database)]
  hasFactory _ := true

private theorem orderRunner_pool (database : String) (g : CompiledGraph) (S : String) (h : Handle)
    (hl : (orderRunner database g).services.lookup S = some h) : ¬ h = .tx 0 := by
  rw [orderRunner, GoMap.lookup_ofPairs_singleton, Option.ite_none_right_eq_some, Option.some.injEq] at hl
  simp [← hl.2]

private theorem nested_tx (d : Handle) : d.nested = .tx 0 ↔ d = .tx 0 := by
  cases d <;> simp [Handle.nested]

theorem transaction_scope_database : ∃ g, compile (createOrder "database") (some coreOutputs) = .ok g ∧
    TransactionScope (orderRunner "database" g) Handle.nested (· = .tx 0) gormTransaction (.tx 0) "create-order"
      "database" := by
  obtain ⟨g, hg, hp⟩ := exists_compile (createOrder "database") (some coreOutputs)
    (p := fun g => decide (∀ p ∈ g.nodes.toPairs, p.2.type = "db.create")) (by decide +kernel)
  have htype : ∀ n, (g.node n).type = "db.create" ∨ (g.node n).type = "" := by
    intro n
    cases hl : g.nodes.lookup n with
    | none => exact .inr (by simp [CompiledGraph.node, AList.getD, hl])
    | some node =>
      rw [CompiledGraph.node, AList.getD_of_lookup hl]
      exact .inl (of_decide_eq_true hp _ (AList.mem_toPairs.2 hl))
  have hcache : ∀ w g', (orderRunner "database" g).cache.lookup w = some g' → g' = g := by
    intro w g' hl
    rw [orderRunner, GoMap.lookup_ofPairs_singleton, Option.ite_none_right_eq_some, Option.some.injEq] at hl
    exact hl.2.symm
  have hroot : ∀ path services g' s, Inside (orderRunner "database" g) Handle.nested
      ((orderRunner "database" g).childServices [("database", .tx 0)]) "create-order" path services g' s →
      path = [] ∧ g' = g := by
    intro path services g' s h
    induction h with
    | root hl hs => exact ⟨rfl, hcache _ _ hl⟩
    | @plain _ _ _ _ _ _ n _ _ h hn hcall hl hs ih =>
      obtain ⟨-, rfl⟩ := ih
      rcases htype n with ht | ht <;> simp [ht] at hcall
    | @transaction _ _ _ _ _ _ n _ _ _ _ h hn hcall hslot hdb hl hs ih =>
      obtain ⟨-, rfl⟩ := ih
      rcases htype n with ht | ht <;> simp [ht] at hcall
  refine ⟨g, hg, (transaction_scope_iff (orderRunner "database" g) Handle.nested (· = .tx 0) gormTransaction (.tx 0)
    "create-order" "database" rfl (orderRunner_pool "database" g) nested_tx fun e => by simp [gormTransaction]).2
    fun path services g' s n retry handed slot h hn hslot => ?_⟩
  obtain ⟨rfl, -⟩ := hroot path services g' s h
  exact ⟨rfl, by simp⟩

/-- The node `insert` is handed the pooled instance. -/
def insertOnPool (s : RunState Handle) : Bool :=
  match s.goroutines with
  | [("insert", .executing none [("database", .pool "postgres")])] => true
  | _ => false

/-- The database of the transaction is registered as `postgres`: the override has no effect, and the node that names
`postgres` is handed the pooled connection. -/
theorem transaction_leak : ∃ g, compile (createOrder "postgres") (some coreOutputs) = .ok g ∧
    ¬ TransactionScope (orderRunner "postgres" g) Handle.nested (· = .tx 0) gormTransaction (.tx 0) "create-order"
      "postgres" := by
  obtain ⟨g, hg, hp⟩ := exists_compile (createOrder "postgres") (some coreOutputs)
    (p := fun g => decide ((g.node "insert").services.lookup "database" = some "postgres") &&
      (Transition.run (step g ⟨fun _ => true, (orderRunner "postgres" g).childServices [("database", .tx 0)]⟩)
        (initial g false) [.startEntry, .advance 0 .go, .advance 0 .go]).any insertOnPool) (by decide +kernel)
  rw [Bool.and_eq_true, decide_eq_true_eq] at hp
  obtain ⟨hslot, hp⟩ := hp
  obtain ⟨s, hs, hr⟩ := Transition.exists_run _ _ _ hp
  refine ⟨g, hg, fun hscope => ?_⟩
  rw [insertOnPool] at hr
  split at hr
  · rename_i hgo
    have hcache : (orderRunner "postgres" g).cache.lookup "create-order" = some g := by
      rw [orderRunner, GoMap.lookup_ofPairs_singleton, if_pos rfl]
    obtain ⟨h, hl, hin⟩ := hscope.handed [] _ g s "insert" none _ "database" (.root hcache ⟨_, hs⟩)
      (by rw [hgo]; exact List.mem_singleton_self _) hslot
    subst hin
    simp at hl
  · cases hr

end Noda.Engine
