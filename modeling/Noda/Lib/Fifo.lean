import Mathlib.Data.List.Basic

/-!
# Bounded queues

A queue of at most `cap` values, as one sequence of operations: a value comes in at the end, one goes out at the head,
and on a full queue the new value is rejected or the head is evicted to make room for it.  The operations are those of
numbered clients.  The queue keeps a record of what came in and of what went out, in order; `none` stands for an
eviction.

`Ok` holds after any operations: what came in is what went out followed by what is there.
-/

namespace Fifo

variable {T : Type}

structure Queue (T : Type) where
  content : List T
  accepted : List (Nat × T)
  removed : List (T × Option Nat)
  rejected : List Nat

def empty : Queue T := ⟨[], [], [], []⟩

inductive Op (T : Type) where
  | accept (client : Nat) (v : T)
  | evict (client : Nat) (v : T)
  | reject (client : Nat)
  | take (client : Nat)

/-- An operation, if it is possible; `cap` is the capacity. -/
def apply (cap : Nat) (q : Queue T) : Op T → Option (Queue T)
  | .accept i v =>
    if q.content.length < cap then
      some { q with content := q.content ++ [v], accepted := q.accepted ++ [(i, v)] }
    else none
  | .evict i v =>
    match q.content with
    | [] => none
    | u :: rest =>
      if cap ≤ q.content.length then
        some { q with
          content := rest ++ [v]
          accepted := q.accepted ++ [(i, v)]
          removed := q.removed ++ [(u, none)] }
      else none
  | .reject i => if cap ≤ q.content.length then some { q with rejected := q.rejected ++ [i] } else none
  | .take i =>
    match q.content with
    | [] => none
    | u :: rest => some { q with content := rest, removed := q.removed ++ [(u, some i)] }

/-- What was taken out by clients, in order. -/
def Queue.taken (q : Queue T) : List T := (q.removed.filter (·.2.isSome)).map Prod.fst

def Queue.evicted (q : Queue T) : List T := (q.removed.filter (·.2.isNone)).map Prod.fst

structure Ok (cap : Nat) (q : Queue T) : Prop where
  bounded : q.content.length ≤ cap
  order : q.accepted.map Prod.snd = q.removed.map Prod.fst ++ q.content

theorem ok_empty (cap : Nat) : Ok cap (empty : Queue T) := ⟨Nat.zero_le cap, rfl⟩

/-- An operation keeps the queue in order. -/
theorem ok_apply {cap : Nat} {q q' : Queue T} {op : Op T} (h : Ok cap q) (hop : apply cap q op = some q') :
    Ok cap q' := by
  cases op with
  | accept i v =>
    simp only [apply, Option.ite_none_right_eq_some] at hop
    obtain ⟨hroom, hop⟩ := hop
    cases hop
    refine ⟨?_, ?_⟩
    · rw [List.length_append]
      exact hroom
    · simp [h.order]
  | evict i v =>
    unfold apply at hop
    cases hq : q.content with
    | nil =>
      rw [hq] at hop
      cases hop
    | cons u rest =>
      rw [hq] at hop
      simp only [Option.ite_none_right_eq_some] at hop
      obtain ⟨-, hop⟩ := hop
      cases hop
      have hbounded := h.bounded
      rw [hq] at hbounded
      refine ⟨?_, ?_⟩
      · rw [List.length_append]
        exact hbounded
      · simp [h.order, hq]
  | reject i =>
    simp only [apply, Option.ite_none_right_eq_some] at hop
    obtain ⟨-, hop⟩ := hop
    cases hop
    exact ⟨h.bounded, h.order⟩
  | take i =>
    unfold apply at hop
    cases hq : q.content with
    | nil =>
      rw [hq] at hop
      cases hop
    | cons u rest =>
      rw [hq] at hop
      cases hop
      have hbounded := h.bounded
      rw [hq] at hbounded
      refine ⟨Nat.le_of_succ_le hbounded, ?_⟩
      simp [h.order, hq]

end Fifo
