import Noda.Auth.Effects

/-!
# Passwords that have been set stay

A login whose password is stored under old parameters writes a new hash of it when it has already read the row, and
its update does not check that the row still holds the hash it read.  A `set_password` that commits in between is
undone (`passwords_not_kept`).  If at every such upgrade the last password set for the user, if one was set, is the
password of the login, then the stored hash is always one of the last password set (`passwords_kept`).
-/

namespace Noda.Auth

open Sql Transition

variable {E : Env}

/-- The hash stored for every user whose password has been set was made from the last password set. -/
def Kept (E : Env) (s : State) : Prop :=
  ∀ uid pw, s.passwords.lookup uid = some pw → ∃ u ∈ s.db.users, u.id = uid ∧ Derived E.crypto pw u.passwordHash

/-- If the step writes the upgraded hash of a login, the last password set for the user is the one of the login. -/
def upgradeCurrent (s : State) : Action → Bool
  | .execute _ _ => true
  | .step i c =>
    match s.executions[i]? with
    | some ⟨_, .verifyCredentials _ pw, .upgrading row _⟩ => c.fails || (s.passwords.lookup row.id).all (· = pw)
    | _ => true

private theorem exists_mem_update {p : User → Bool} {f : User → User} {users : List User} {u : User}
    (hu : u ∈ users) : (if p u then f u else u) ∈ update p f users :=
  mem_update.2 ⟨u, hu, rfl⟩

/-- A step that leaves the hash of every row alone. -/
private theorem kept_of_hash {s : State} (hs : Kept E s) {db' : Database} {es : List Execution}
    (h : ∀ u ∈ s.db.users, ∃ u' ∈ db'.users, u'.id = u.id ∧ u'.passwordHash = u.passwordHash) :
    Kept E ⟨db', es, s.passwords⟩ := by
  intro uid pw hset
  obtain ⟨u, hu, rfl, hd⟩ := hs uid pw hset
  obtain ⟨u', hu', hid, hhash⟩ := h u hu
  exact ⟨u', hu', hid, hhash ▸ hd⟩

/-- A hash made from `pw` is stored for `uid`, and `pw` is the last password set for `uid` if any is. -/
private theorem kept_of_withHash {s : State} (hs : Kept E s) {uid pw hash : String} {now : Int} {db' : Database}
    {es : List Execution} {passwords : List (String × String)} (hd : Derived E.crypto pw hash)
    (husers : db'.users = update (·.id = uid) (·.withHash hash now) s.db.users)
    (hlast : ∀ pw', passwords.lookup uid = some pw' → pw' = pw ∧ ∃ u ∈ s.db.users, u.id = uid)
    (hother : ∀ v, v ≠ uid → passwords.lookup v = s.passwords.lookup v) : Kept E ⟨db', es, passwords⟩ := by
  intro v pw' hset
  rw [husers]
  by_cases hv : v = uid
  · subst hv
    obtain ⟨rfl, u, hu, hid⟩ := hlast pw' hset
    refine ⟨_, exists_mem_update hu, ?_⟩
    rw [if_pos (decide_eq_true hid)]
    exact ⟨hid, hd⟩
  · obtain ⟨u, hu, hid, hd'⟩ := hs v pw' ((hother v hv).symm.trans hset)
    refine ⟨_, exists_mem_update hu, ?_⟩
    rw [if_neg (by simpa [hid] using hv)]
    exact ⟨hid, hd'⟩

private theorem kept_step {s s' : State} {a : Action} (hash : ∀ e ∈ s.executions, HashOk E e.node e.phase)
    (hs : Kept E s)
    (hc : upgradeCurrent s a = true) (h : step E s a = some s') : Kept E s' := by
  rcases step_cases h with ⟨svc, node, -, rfl⟩ | ⟨i, c, e, db', ph, set, rfl, hi, hm, rfl⟩
  · exact hs
  · have he := hash e (List.mem_of_getElem? hi)
    cases hm with
    | quiet hash login => exact kept_of_hash hs fun u hu => ⟨u, hu, rfl, rfl⟩
    | @upgraded email pw hash row node phase applied =>
      rw [node, phase] at he
      refine kept_of_withHash hs he rfl (fun pw' hset => ?_) fun _ _ => rfl
      have hset : s.passwords.lookup row.id = some pw' := hset
      obtain ⟨u, hu, hid, -⟩ := hs _ _ hset
      obtain ⟨svc, _, _⟩ := e
      cases node
      cases phase
      simp only [upgradeCurrent, hi, applied, hset, Bool.false_or, Option.all_some, decide_eq_true_eq] at hc
      exact ⟨hc, u, hu, hid⟩
    | passwordSet node phase changed byId byToken =>
      rw [node, phase] at he
      refine kept_of_withHash hs he changed.users (fun pw' hset => ?_) fun v hv => ?_
      · have hpw : _ = some pw' := hset
        rw [List.singleton_append, List.lookup_cons_self] at hpw
        exact ⟨(Option.some.inj hpw).symm, changed.found⟩
      · rw [List.singleton_append, List.lookup_cons, beq_false_of_ne hv]
    | consumed node phase mem claimable users sessions tokens =>
      refine kept_of_hash hs fun u hu => ?_
      rw [users]
      split_ifs
      · refine ⟨_, exists_mem_update hu, ?_⟩
        split_ifs
        · exact ⟨rfl, rfl⟩
        · exact ⟨rfl, rfl⟩
      · exact ⟨u, hu, rfl, rfl⟩
    | invalidated node phase => exact kept_of_hash hs fun u hu => ⟨u, hu, rfl, rfl⟩
    | inserted node phase inserted =>
      refine kept_of_hash hs fun u hu => ⟨u, ?_, rfl, rfl⟩
      rw [(insertToken_eq inserted).1]
      exact hu

/-- **Password changes are kept.**  In every run in which every upgrade of a hash is written by a login with the last
password set for the user, if one was set, the hash stored for a user was made from the last password set for the
user, and `VerifyPassword` accepts that password for it. -/
theorem passwords_kept {db : Database} {s : State} {as : List Action} (hrun : run (step E) (initial db) as = some s)
    (hm : Meets (step E) (fun s a => upgradeCurrent s a = true) (initial db) as) {uid pw : String}
    (hset : s.passwords.lookup uid = some pw) :
    ∃ u ∈ s.db.users, u.id = uid ∧ Derived E.crypto pw u.passwordHash ∧ Accepted E.crypto pw u.passwordHash := by
  have hinv : (∀ e ∈ s.executions, HashOk E e.node e.phase) ∧ Kept E s := by
    refine run_invariant_of_meets (P := fun s => (∀ e ∈ s.executions, HashOk E e.node e.phase) ∧ Kept E s) ?_ ?_ hm hrun
    · intro s a s' hs hc hstep
      exact ⟨hashOk_step hs.1 hstep, kept_step hs.1 hs.2 hc hstep⟩
    · exact ⟨(fun _ he => nomatch he), fun _ _ h => nomatch h⟩
  obtain ⟨u, hu, hid, hd⟩ := hinv.2 uid pw hset
  exact ⟨u, hu, hid, hd, hd.accepted⟩

/-- Alice logs in with her old password and sets a new one. -/
def aliceExecutes : List Action :=
  [.execute sampleService (.verifyCredentials "alice@example.com" "old password"),
    .execute sampleService (.setPassword (some "u1") none "new password" true)]

/-- The login upgrades the hash, then the new password is set. -/
def aliceInTurn : List Action :=
  aliceExecutes ++ [.step 0 (.smooth 1), .step 0 (.smooth 2), .step 1 (.smooth 3), .step 1 (.smooth 4)]

theorem passwords_kept_inTurn : ∃ s, run (step sampleEnv) (initial sampleDatabase) aliceInTurn = some s ∧
    s.passwords.lookup "u1" = some "new password" ∧ ∃ u ∈ s.db.users, u.id = "u1" ∧
      Derived sampleEnv.crypto "new password" u.passwordHash ∧
        Accepted sampleEnv.crypto "new password" u.passwordHash := by
  obtain ⟨s, hrun, hs⟩ := exists_run (step sampleEnv) (initial sampleDatabase) aliceInTurn
    (p := fun s => decide (s.passwords.lookup "u1" = some "new password")) (by decide +kernel)
  exact ⟨s, hrun, of_decide_eq_true hs, passwords_kept hrun (by decide +kernel) (of_decide_eq_true hs)⟩

/-- The login reads the row, the new password is set, and the login writes its upgrade. -/
def aliceInterleaved : List Action :=
  aliceExecutes ++ [.step 0 (.smooth 1), .step 1 (.smooth 2), .step 1 (.smooth 3), .step 0 (.smooth 4)]

/-- The new password is gone: `VerifyPassword` rejects it, and accepts the old one. -/
private theorem aliceInterleaved_rejects : (run (step sampleEnv) (initial sampleDatabase) aliceInterleaved).any
    (fun s =>
    s.passwords.lookup "u1" = some "new password" ∧ ∀ u ∈ s.db.users,
      (verifyPassword sampleEnv.crypto sampleService.argon "new password" u.passwordHash).all (fun r =>
        r.toOption = some (false, false)) = true) = true := by
  decide +kernel

theorem passwords_not_kept : ¬∀ (E : Env) (db : Database) (s : State) (as : List Action),
    run (step E) (initial db) as = some s → ∀ uid pw, s.passwords.lookup uid = some pw →
      ∃ u ∈ s.db.users, u.id = uid ∧ Derived E.crypto pw u.passwordHash ∧ Accepted E.crypto pw u.passwordHash := by
  intro hall
  obtain ⟨s, hrun, hs⟩ := exists_run _ _ _ aliceInterleaved_rejects
  obtain ⟨hset, hreject⟩ := of_decide_eq_true hs
  obtain ⟨u, hu, -, -, haccept⟩ := hall _ _ s _ hrun "u1" "new password" hset
  obtain ⟨needsRehash, hok⟩ := haccept sampleService.argon
  have := hreject u hu
  rw [hok] at this
  exact absurd this (by simp [Except.toOption])

end Noda.Auth
