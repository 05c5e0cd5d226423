import Mathlib.Algebra.Order.Ring.Int
import Mathlib.Data.List.Basic

/-!
# The time `StopAll` gives to each component

`StopAll` divides its budget evenly over the started components and stops them from the last to the first.  The loop
is modelled on the times that the components take to stop, in that order; a duration is a number of nanoseconds.  No
step of the loop leaves the range of an `int64`: it only subtracts from the budget what it has granted.

The comment over `StopAll` says that unused budget rolls forward to the next component (`RollsForward`).  The budget of
a component is capped by the even share, so this is so only where nothing is left to roll forward
(`stopAll_rollsForward_iff`).
-/

namespace Noda.Lifecycle

/-- The budget of the whole call: the time until the deadline of the parent, or the rollback deadline. -/
def totalBudget (untilDeadline : Option Int) (rollbackDeadline : Int) : Int :=
  match untilDeadline with
  | some d => max d 0
  | none => rollbackDeadline

/-- One round of the loop: the `remaining` budget before and after it, the budget of the component and the time it
takes. -/
structure Grant where
  before : Int
  budget : Int
  elapsed : Nat
  after : Int
  deriving DecidableEq, Repr

def stopComponent (perComponent remaining : Int) (elapsed : Nat) : Grant :=
  let budget := min perComponent remaining
  { before := remaining
    budget := budget
    elapsed := elapsed
    after := if elapsed < budget then remaining - elapsed else remaining - budget }

def stopLoop (perComponent : Int) : Int → List Nat → List Grant
  | _, [] => []
  | remaining, t :: times =>
    let g := stopComponent perComponent remaining t
    g :: stopLoop perComponent g.after times

/-- The rounds of `StopAll`, for components that take these times to stop.  Division is that of Go. -/
def stopAll (untilDeadline : Option Int) (rollbackDeadline : Int) (times : List Nat) : List Grant :=
  let started := times.length
  if started = 0 then []
  else
    let total := totalBudget untilDeadline rollbackDeadline
    let perComponent := total.tdiv started
    stopLoop perComponent total times

/-! ### What the comment promises -/

/-- The part of its budget that a component left unused. -/
def Grant.unused (g : Grant) : Int := max (g.budget - g.elapsed) 0

/-- The part of its budget that a component took. -/
def Grant.spent (g : Grant) : Int := min g.elapsed g.budget

def sumOf (f : Grant → Int) (gs : List Grant) : Int := gs.foldr (fun g n => f g + n) 0

/-- A component gets its share and all that the ones before it left unused; the budget is never exceeded and never
negative. -/
structure RollsForward (total : Int) (started : Nat) (gs : List Grant) : Prop where
  forward : ∀ k g, gs[k]? = some g → total.tdiv started + sumOf Grant.unused (gs.take k) ≤ g.budget
  granted : ∀ k, k < gs.length → sumOf Grant.spent (gs.take (k + 1)) ≤ total
  remaining : ∀ g ∈ gs, 0 ≤ g.before ∧ 0 ≤ g.after

@[simp] theorem sumOf_nil (f : Grant → Int) : sumOf f [] = 0 := rfl

@[simp] theorem sumOf_cons (f : Grant → Int) (g : Grant) (gs : List Grant) :
    sumOf f (g :: gs) = f g + sumOf f gs := rfl

/-! ### One round -/

section

variable (perComponent remaining : Int)

private theorem stopComponent_budget_le (t : Nat) : (stopComponent perComponent remaining t).budget ≤ perComponent :=
  min_le_left _ _

/-- What is taken from the budget is what the component took. -/
private theorem stopComponent_after (t : Nat) : (stopComponent perComponent remaining t).after =
    remaining - (stopComponent perComponent remaining t).spent := by
  simp only [stopComponent, Grant.spent]
  split_ifs with h
  · rw [min_eq_left (le_of_lt h)]
  · rw [min_eq_right (not_lt.1 h)]

private theorem stopComponent_after_nonneg (t : Nat) : 0 ≤ (stopComponent perComponent remaining t).after := by
  rw [stopComponent_after]
  have hspent : (stopComponent perComponent remaining t).spent ≤ remaining :=
    le_trans (min_le_right _ _) (min_le_right _ _)
  omega

/-! ### The loop -/

private theorem stopLoop_remaining (hr : 0 ≤ remaining) (times : List Nat) :
    ∀ g ∈ stopLoop perComponent remaining times, 0 ≤ g.before ∧ 0 ≤ g.after := by
  induction times generalizing remaining with
  | nil => intro g hg; cases hg
  | cons t times ih =>
    intro g hg
    have hafter := stopComponent_after_nonneg perComponent remaining t
    rcases List.mem_cons.1 hg with rfl | hg
    · exact ⟨hr, hafter⟩
    · exact ih _ hafter g hg

private theorem stopLoop_spent_le (hr : 0 ≤ remaining) (times : List Nat) (k : Nat) :
    sumOf Grant.spent ((stopLoop perComponent remaining times).take k) ≤ remaining := by
  induction times generalizing remaining k with
  | nil => simpa [stopLoop] using hr
  | cons t times ih =>
    cases k with
    | zero => simpa using hr
    | succ k =>
      have htail := ih _ (stopComponent_after_nonneg perComponent remaining t) k
      have hafter := stopComponent_after perComponent remaining t
      rw [stopLoop, List.take_succ_cons, sumOf_cons]
      omega

private theorem stopLoop_budgets_le (times : List Nat) :
    sumOf Grant.budget (stopLoop perComponent remaining times) ≤ perComponent * times.length := by
  induction times generalizing remaining with
  | nil => simp [stopLoop]
  | cons t times ih =>
    have hhead := stopComponent_budget_le perComponent remaining t
    have htail := ih (stopComponent perComponent remaining t).after
    rw [stopLoop, sumOf_cons, List.length_cons, Nat.cast_succ, mul_add, mul_one]
    omega

/-- A component that takes its whole share leaves nothing unused, and the rest of the budget is enough for the others;
one that is quicker is followed by one that gets no more than its share. -/
private theorem stopLoop_forward_iff (hp : 0 ≤ perComponent) (times : List Nat)
    (hr : perComponent * times.length ≤ remaining) :
    (∀ k g, (stopLoop perComponent remaining times)[k]? = some g →
      perComponent + sumOf Grant.unused ((stopLoop perComponent remaining times).take k) ≤ g.budget) ↔
    ∀ t ∈ times.dropLast, perComponent ≤ t := by
  induction times generalizing remaining with
  | nil => simp [stopLoop]
  | cons t times ih =>
    have hle : perComponent ≤ remaining := by
      rw [List.length_cons, Nat.cast_succ, mul_add, mul_one] at hr
      have := mul_nonneg hp (Int.natCast_nonneg times.length)
      omega
    have hbudget : (stopComponent perComponent remaining t).budget = perComponent := min_eq_left hle
    cases times with
    | nil =>
      simp only [List.dropLast_singleton, List.not_mem_nil, false_imp_iff, implies_true, iff_true]
      intro k g hg
      cases k with
      | zero =>
        cases hg
        simp [hbudget]
      | succ k => cases hg
    | cons t' times =>
      rw [List.dropLast_cons_cons, List.forall_mem_cons]
      by_cases ht : perComponent ≤ t
      · have hunused : (stopComponent perComponent remaining t).unused = 0 := by
          rw [Grant.unused, hbudget]
          exact max_eq_right (by simpa [stopComponent] using ht)
        have hafter : perComponent * (t' :: times).length ≤ (stopComponent perComponent remaining t).after := by
          have hspent : (stopComponent perComponent remaining t).spent = perComponent := by
            rw [Grant.spent, hbudget]
            exact min_eq_right ht
          rw [stopComponent_after, hspent]
          rw [List.length_cons, Nat.cast_succ, mul_add, mul_one] at hr
          omega
        rw [← ih _ hafter]
        constructor
        · intro h
          refine ⟨ht, fun k g hg => ?_⟩
          have := h (k + 1) g hg
          rwa [stopLoop, List.take_succ_cons, sumOf_cons, hunused, zero_add] at this
        · rintro ⟨-, h⟩ k g hg
          cases k with
          | zero =>
            cases hg
            simp [hbudget]
          | succ k =>
            rw [stopLoop, List.take_succ_cons, sumOf_cons, hunused, zero_add]
            exact h k g hg
      · refine iff_of_false (fun h => ?_) (fun h => ht h.1)
        -- the second component would need more than its share
        have hnext := h 1 (stopComponent perComponent (stopComponent perComponent remaining t).after t') rfl
        have hcap := stopComponent_budget_le perComponent (stopComponent perComponent remaining t).after t'
        rw [stopLoop, stopLoop, List.take_succ_cons, List.take_zero, sumOf_cons, sumOf_nil, Grant.unused, hbudget]
          at hnext
        have hpos : 0 < max (perComponent - (stopComponent perComponent remaining t).elapsed) 0 :=
          lt_max_of_lt_left (sub_pos.2 (not_le.1 ht))
        omega

end

private theorem tdiv_mul_length_le {total : Int} (h : 0 ≤ total) (n : Nat) : total.tdiv n * n ≤ total := by
  rw [Int.tdiv_eq_ediv_of_nonneg h]
  rcases Nat.eq_zero_or_pos n with rfl | hn
  · simpa using h
  · exact Int.ediv_mul_le total (by omega)

/-- What holds whatever the components do: the budget is never exceeded and never negative, and the budgets of all
components together are no more than the whole. -/
private theorem stopAll_within {untilDeadline : Option Int} {rollbackDeadline : Int} (times : List Nat)
    (h : 0 ≤ totalBudget untilDeadline rollbackDeadline) :
    let gs := stopAll untilDeadline rollbackDeadline times
    (∀ k, sumOf Grant.spent (gs.take k) ≤ totalBudget untilDeadline rollbackDeadline) ∧
    (∀ g ∈ gs, 0 ≤ g.before ∧ 0 ≤ g.after) ∧
    sumOf Grant.budget gs ≤ totalBudget untilDeadline rollbackDeadline := by
  intro gs
  by_cases hn : times.length = 0
  · have hgs : gs = [] := if_pos hn
    simp [hgs, h]
  · have hgs : gs = stopLoop _ _ times := if_neg hn
    rw [hgs]
    exact ⟨stopLoop_spent_le _ _ h times, stopLoop_remaining _ _ h times,
      le_trans (stopLoop_budgets_le _ _ times) (tdiv_mul_length_le h times.length)⟩

/-- Unused budget rolls forward exactly if nothing is left unused before the last component: every other one takes at
least its even share of the budget to stop. -/
theorem stopAll_rollsForward_iff (untilDeadline : Option Int) (rollbackDeadline : Int) (times : List Nat) :
    RollsForward (totalBudget untilDeadline rollbackDeadline) times.length
      (stopAll untilDeadline rollbackDeadline times) ↔
    times = [] ∨ 0 ≤ totalBudget untilDeadline rollbackDeadline ∧
      ∀ t ∈ times.dropLast, (totalBudget untilDeadline rollbackDeadline).tdiv times.length ≤ t := by
  by_cases hn : times.length = 0
  · obtain rfl := List.length_eq_zero_iff.1 hn
    refine iff_of_true ⟨?_, ?_, ?_⟩ (.inl rfl)
    · intro k g hg; cases hg
    · intro k hk; cases hk
    · intro g hg; cases hg
  · have hne : times ≠ [] := fun h => hn (by rw [h]; rfl)
    have hgs : stopAll untilDeadline rollbackDeadline times = stopLoop _ _ times := if_neg hn
    rw [or_iff_right hne]
    by_cases htotal : 0 ≤ totalBudget untilDeadline rollbackDeadline
    · obtain ⟨hspent, hremaining, -⟩ := stopAll_within times htotal
      have hforward := stopLoop_forward_iff _ _ (Int.tdiv_nonneg htotal (Int.natCast_nonneg times.length)) times
        (tdiv_mul_length_le htotal times.length)
      rw [← hgs] at hforward
      constructor
      · intro h
        exact ⟨htotal, hforward.1 h.forward⟩
      · rintro ⟨-, h⟩
        exact ⟨hforward.2 h, fun k _ => hspent (k + 1), hremaining⟩
    · -- the loop begins with a negative budget
      refine iff_of_false (fun h => ?_) (fun h => htotal h.1)
      obtain ⟨t, rest, rfl⟩ := List.exists_cons_of_ne_nil hne
      rw [hgs] at h
      exact htotal (h.remaining _ List.mem_cons_self).1

/-- Two components and ten seconds: the first needs one of its five, and the second still gets five. -/
theorem stopAll_not_rollsForward :
    ¬ RollsForward (totalBudget (some 10000000000) 0) 2 (stopAll (some 10000000000) 0 [1000000000, 9000000000]) := by
  intro h
  have := h.forward 1 _ rfl
  revert this
  decide

end Noda.Lifecycle
