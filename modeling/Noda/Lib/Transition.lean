import Mathlib.Data.List.Basic
import Mathlib.Data.List.Induction

/-!
# Transition systems

A system is a partial step function `step : σ → α → Option σ`: in state `s` the action `a` either is not enabled or
leads to one state.  All choices of a scheduler and of the environment are in the actions, so a run is a list of
actions (`run`) and a state is reachable when some run leads to it (`Reachable`).

* `Reachable.invariant`: what holds at the start and is kept by every step holds in every reachable state;
* `run_invariant_of_meets`: the same for the runs all of whose actions meet a condition;
* `run_length_le`: a measure that every step decreases bounds the length of every run;
* `run_history`: an invariant of a state and the actions that led to it.

A log is a list of events, the newest first.  It is justified (`Justified`) when each of its events is allowed by
the events before it.
-/

namespace Transition

variable {σ α : Type} {step : σ → α → Option σ}

/-- The state after the actions, performed in order, if each of them is enabled in its turn. -/
def run (step : σ → α → Option σ) : σ → List α → Option σ
  | s, [] => some s
  | s, a :: as =>
    match step s a with
    | none => none
    | some s' => run step s' as

/-- Some run leads from `s₀` to `s`. -/
def Reachable (step : σ → α → Option σ) (s₀ s : σ) : Prop :=
  ∃ as, run step s₀ as = some s

theorem run_cons {s t : σ} {a : α} {as : List α} :
    run step s (a :: as) = some t ↔ ∃ s', step s a = some s' ∧ run step s' as = some t := by
  simp only [run]
  cases step s a with
  | none => simp
  | some s' => simp

/-- A run that is checked by evaluation. -/
theorem exists_run (step : σ → α → Option σ) (s : σ) (as : List α) {p : σ → Bool} (h : (run step s as).any p = true) :
    ∃ t, run step s as = some t ∧ p t = true := by
  cases hr : run step s as with
  | none => rw [hr] at h; cases h
  | some t => exact ⟨t, rfl, by rw [hr] at h; exact h⟩

theorem Reachable.refl (s : σ) : Reachable step s s := ⟨[], rfl⟩

/-- An invariant that every step keeps holds after every run from a state in which it holds. -/
theorem run_invariant {P : σ → Prop} (hstep : ∀ s a s', P s → step s a = some s' → P s') {s t : σ} {as : List α}
    (hs : P s) (h : run step s as = some t) : P t := by
  induction as generalizing s with
  | nil => cases h; exact hs
  | cons a as ih =>
    obtain ⟨s', hs', h⟩ := run_cons.1 h
    exact ih (hstep s a s' hs hs') h

theorem Reachable.invariant {P : σ → Prop} {s₀ s : σ} (h : Reachable step s₀ s) (h₀ : P s₀)
    (hstep : ∀ s a s', P s → step s a = some s' → P s') : P s := by
  obtain ⟨as, has⟩ := h
  exact run_invariant hstep h₀ has

/-- Every action of the run meets the condition in the state in which it is performed. -/
def Meets (step : σ → α → Option σ) (C : σ → α → Prop) : σ → List α → Prop
  | _, [] => True
  | s, a :: as => C s a ∧ ∀ s' ∈ step s a, Meets step C s' as

instance decidableMeets (step : σ → α → Option σ) (C : σ → α → Prop) [∀ s a, Decidable (C s a)] :
    ∀ s as, Decidable (Meets step C s as)
  | _, [] => .isTrue trivial
  | s, a :: as =>
    have : ∀ s', Decidable (Meets step C s' as) := fun s' => decidableMeets step C s' as
    inferInstanceAs (Decidable (C s a ∧ ∀ s' ∈ step s a, Meets step C s' as))

theorem run_invariant_of_meets {P : σ → Prop} {C : σ → α → Prop}
    (hstep : ∀ s a s', P s → C s a → step s a = some s' → P s') {s t : σ} {as : List α} (hs : P s)
    (hm : Meets step C s as) (h : run step s as = some t) : P t := by
  induction as generalizing s with
  | nil => cases h; exact hs
  | cons a as ih =>
    obtain ⟨s', hs', h⟩ := run_cons.1 h
    exact ih (hstep s a s' hs hm.1 hs') (hm.2 s' hs') h

/-- A measure that every step decreases, as long as the invariant `P` holds, bounds the length of a run. -/
theorem run_length_le {P : σ → Prop} (μ : σ → Nat) (hstep : ∀ s a s', P s → step s a = some s' → P s')
    (hμ : ∀ s a s', P s → step s a = some s' → μ s' < μ s) {s t : σ} {as : List α} (hs : P s)
    (h : run step s as = some t) : as.length + μ t ≤ μ s := by
  induction as generalizing s with
  | nil => cases h; simp
  | cons a as ih =>
    obtain ⟨s', hs', h⟩ := run_cons.1 h
    have h1 := ih (hstep s a s' hs hs') h
    have h2 := hμ s a s' hs hs'
    rw [List.length_cons]
    omega

/-! ### Histories -/

theorem run_concat {s t : σ} {a : α} {as : List α} :
    run step s (as ++ [a]) = some t ↔ ∃ s', run step s as = some s' ∧ step s' a = some t := by
  induction as generalizing s with
  | nil =>
    rw [List.nil_append, run_cons]
    simp [run]
  | cons b as ih =>
    rw [List.cons_append, run_cons]
    constructor
    · rintro ⟨s', hb, h⟩
      obtain ⟨s'', has, ha⟩ := ih.1 h
      exact ⟨s'', run_cons.2 ⟨s', hb, has⟩, ha⟩
    · rintro ⟨s'', h, ha⟩
      obtain ⟨s', hb, has⟩ := run_cons.1 h
      exact ⟨s', hb, ih.2 ⟨s'', has, ha⟩⟩

/-- What a run does after its first part. -/
theorem run_append {s s' t : σ} {as bs : List α} (has : run step s as = some s')
    (h : run step s (as ++ bs) = some t) : run step s' bs = some t := by
  induction as generalizing s with
  | nil => cases has; exact h
  | cons a as ih =>
    obtain ⟨s₁, ha, has⟩ := run_cons.1 has
    obtain ⟨s₂, ha', h⟩ := run_cons.1 h
    cases ha.symm.trans ha'
    exact ih has h

theorem Reachable.tail {s₀ s t : σ} {a : α} (h : Reachable step s₀ s) (ha : step s a = some t) :
    Reachable step s₀ t := by
  obtain ⟨as, has⟩ := h
  exact ⟨as ++ [a], run_concat.2 ⟨s, has, ha⟩⟩

/-- The run performs `a`, which leads from `s₁` to `s₂`. -/
def Performs (step : σ → α → Option σ) (s₀ : σ) (as : List α) (s₁ : σ) (a : α) (s₂ : σ) : Prop :=
  ∃ before after, as = before ++ a :: after ∧ run step s₀ before = some s₁ ∧ step s₁ a = some s₂

theorem performs_concat {s₀ s₁ s₂ : σ} {a b : α} {as : List α} :
    Performs step s₀ (as ++ [a]) s₁ b s₂ ↔
      Performs step s₀ as s₁ b s₂ ∨ b = a ∧ run step s₀ as = some s₁ ∧ step s₁ a = some s₂ := by
  constructor
  · rintro ⟨before, after, has, hrun, hstep⟩
    rcases List.eq_nil_or_concat after with rfl | ⟨after, c, rfl⟩
    · obtain ⟨rfl, hab⟩ := List.append_inj' has rfl
      obtain rfl : a = b := by simpa using hab
      exact .inr ⟨rfl, hrun, hstep⟩
    · rw [List.concat_eq_append, ← List.cons_append, ← List.append_assoc] at has
      exact .inl ⟨before, after, (List.append_inj' has rfl).1, hrun, hstep⟩
  · rintro (⟨before, after, rfl, hrun, hstep⟩ | ⟨rfl, hrun, hstep⟩)
    · exact ⟨before, after ++ [a], by simp, hrun, hstep⟩
    · exact ⟨as, [], rfl, hrun, hstep⟩

theorem Meets.of_performs {C : σ → α → Prop} {s₀ s₁ s₂ : σ} {a : α} {as : List α} (h : Meets step C s₀ as)
    (hp : Performs step s₀ as s₁ a s₂) : C s₁ a := by
  obtain ⟨before, after, rfl, hrun, -⟩ := hp
  induction before generalizing s₀ with
  | nil =>
    cases hrun
    exact h.1
  | cons b before ih =>
    obtain ⟨s', hb, hrun⟩ := run_cons.1 hrun
    exact ih (h.2 s' hb) hrun

/-- What holds at the start and is kept by every step, for a state and the actions that led to it, holds after every
run. -/
theorem run_history {P : List α → σ → Prop} {s₀ s : σ} {as : List α} (h : run step s₀ as = some s) (h₀ : P [] s₀)
    (hstep : ∀ as s a s', run step s₀ as = some s → P as s → step s a = some s' → P (as ++ [a]) s') : P as s := by
  induction as using List.reverseRecOn generalizing s with
  | nil => cases h; exact h₀
  | append_singleton as a ih =>
    obtain ⟨s', has, ha⟩ := run_concat.1 h
    exact hstep as s' a s has (ih has) ha

/-! ### Justified logs -/

/-- Every event of the log (the newest first) is allowed by the events before it. -/
def Justified (allowed : α → List α → Prop) : List α → Prop
  | [] => True
  | e :: past => allowed e past ∧ Justified allowed past

/-- The part of a justified log before one of its events justifies that event. -/
theorem Justified.split {allowed : α → List α → Prop} {later past : List α} {e : α}
    (h : Justified allowed (later ++ e :: past)) : allowed e past ∧ Justified allowed past := by
  induction later with
  | nil => exact h
  | cons x later ih => exact ih h.2

theorem Justified.of_mem {allowed : α → List α → Prop} {log : List α} {e : α} (h : Justified allowed log)
    (he : e ∈ log) : ∃ later past, log = later ++ e :: past ∧ allowed e past ∧ Justified allowed past := by
  obtain ⟨later, past, rfl⟩ := List.append_of_mem he
  exact ⟨later, past, rfl, h.split⟩

end Transition
