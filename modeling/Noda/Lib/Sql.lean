import Mathlib.Data.List.Basic
import Mathlib.Data.List.Nodup

/-!
# Tables and transactions

A table is a list of rows.  `update` is `UPDATE … SET f WHERE p` and `affected` the number of rows it reports; columns
that `f` leaves alone are the same before and after (`map_update`).

A transaction runs a callback (`Tx`) that reads and writes a database and may fail; each of its statements may also be
made to fail by the environment.  `transaction` commits what the callback has done if neither it nor the commit fails,
and otherwise leaves the database as it was (`transaction_cases`).
-/

namespace Sql

section Tables

variable {R A : Type}

/-- `UPDATE … SET f WHERE p`. -/
def update (p : R → Bool) (f : R → R) (rows : List R) : List R := rows.map fun r => if p r then f r else r

/-- The number of rows the update affects. -/
def affected (p : R → Bool) (rows : List R) : Nat := rows.countP p

variable {p : R → Bool} {f : R → R} {rows : List R}

theorem mem_update {r' : R} : r' ∈ update p f rows ↔ ∃ r ∈ rows, r' = if p r then f r else r := by
  rw [update, List.mem_map]
  exact ⟨fun ⟨r, hr, h⟩ => ⟨r, hr, h.symm⟩, fun ⟨r, hr, h⟩ => ⟨r, hr, h.symm⟩⟩

theorem affected_eq_zero : affected p rows = 0 ↔ ∀ r ∈ rows, ¬p r = true := List.countP_eq_zero

theorem affected_ne_zero : affected p rows ≠ 0 ↔ ∃ r ∈ rows, p r = true := by
  rw [← Nat.pos_iff_ne_zero]
  exact List.countP_pos_iff

theorem update_of_affected_eq_zero (h : affected p rows = 0) : update p f rows = rows := by
  have hid : ∀ r ∈ rows, (if p r then f r else r) = id r := fun r hr => if_neg (affected_eq_zero.1 h r hr)
  rw [update, List.map_congr_left hid, List.map_id]

/-- A column that the update leaves alone. -/
theorem map_update {g : R → A} (h : ∀ r, g (f r) = g r) : (update p f rows).map g = rows.map g := by
  rw [update, List.map_map]
  refine List.map_congr_left fun r _ => ?_
  by_cases hp : p r = true
  · simp [hp, h]
  · simp [hp]

end Tables

section Transactions

variable {S E A B : Type}

/-- What the environment makes fail in a transaction: its begin, each of its statements in turn, its commit. -/
structure Faults where
  begin : Bool
  statements : List Bool
  commit : Bool
  deriving DecidableEq, Repr

/-- The callback of a transaction. -/
abbrev Tx (S E : Type) := StateT (S × List Bool) (Except E)

/-- A statement, which fails with `e`. -/
def statement (e : E) (f : S → A × S) : Tx S E A := fun s =>
  if s.2.headD false then .error e else .ok ((f s.1).1, (f s.1).2, s.2.tail)

/-- A transaction, whose begin and commit fail with `e`. -/
def transaction (e : E) (body : Tx S E A) (faults : Faults) (s : S) : Except E A × S :=
  if faults.begin then (.error e, s)
  else
    match body (s, faults.statements) with
    | .error err => (.error err, s)
    | .ok r => if faults.commit then (.error e, s) else (.ok r.1, r.2.1)

theorem statement_ok {e : E} {f : S → A × S} {s s' : S × List Bool} {a : A}
    (h : statement e f s = .ok (a, s')) : (f s.1).1 = a ∧ (f s.1).2 = s'.1 := by
  unfold statement at h
  split_ifs at h
  injection h with h
  injection h with ha hs
  exact ⟨ha, congrArg Prod.fst hs⟩

theorem bind_ok {x : Tx S E A} {f : A → Tx S E B} {s s' : S × List Bool} {b : B}
    (h : (x >>= f) s = .ok (b, s')) : ∃ a t, x s = .ok (a, t) ∧ f a t = .ok (b, s') := by
  cases hx : x s with
  | error e =>
    have : (x >>= f) s = .error e := by simp [bind, StateT.bind, hx, Except.bind]
    rw [this] at h
    cases h
  | ok r => exact ⟨r.1, r.2, rfl, by simpa [bind, StateT.bind, hx, Except.bind] using h⟩

theorem pure_ok {s s' : S × List Bool} {a b : A} (h : (pure a : Tx S E A) s = .ok (b, s')) : a = b ∧ s = s' := by
  have hpair : (a, s) = (b, s') := Except.ok.inj h
  exact Prod.mk.inj hpair

theorem map_ok {x : Tx S E A} {f : A → B} {s s' : S × List Bool} {b : B} (h : (f <$> x) s = .ok (b, s')) :
    ∃ a, x s = .ok (a, s') ∧ f a = b := by
  rw [← bind_pure_comp] at h
  obtain ⟨a, t, hx, hf⟩ := bind_ok h
  obtain ⟨rfl, rfl⟩ := pure_ok hf
  exact ⟨a, hx, rfl⟩

theorem throw_ok {s s' : S × List Bool} {e : E} {a : A} : (throw e : Tx S E A) s ≠ .ok (a, s') := nofun

/-- A transaction is rolled back with an error, or it commits what its callback has done. -/
theorem transaction_cases (e : E) (body : Tx S E A) (faults : Faults) (s : S) :
    (∃ err, transaction e body faults s = (.error err, s)) ∨
      ∃ r, body (s, faults.statements) = .ok r ∧ transaction e body faults s = (.ok r.1, r.2.1) := by
  unfold transaction
  by_cases hb : faults.begin = true
  · exact .inl ⟨e, if_pos hb⟩
  · rw [if_neg hb]
    cases hbody : body (s, faults.statements) with
    | error err => exact .inl ⟨err, rfl⟩
    | ok r =>
      by_cases hc : faults.commit = true
      · exact .inl ⟨e, if_pos hc⟩
      · exact .inr ⟨r, rfl, if_neg hc⟩

end Transactions

end Sql
