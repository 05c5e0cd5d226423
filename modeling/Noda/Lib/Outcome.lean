import Mathlib.Data.List.Forall2

/-!
# Results of computations that may fail

Rules for what a computation in `Except` returns when it returns: `Ensures P` says that its result has `P`, and
`Agree R` that the results of two computations, if both return, are related by `R`.  Each follows the computation, one
rule for each way in which it is put together.
-/

namespace Outcome

variable {ε α β γ δ : Type}

def Ensures (P : α → Prop) (x : Except ε α) : Prop := ∀ a, x = .ok a → P a

def Agree (R : α → β → Prop) (x : Except ε α) (y : Except ε β) : Prop := ∀ a b, x = .ok a → y = .ok b → R a b

variable {P : α → Prop} {Q : β → Prop} {R : α → β → Prop} {S : γ → δ → Prop} {x : Except ε α} {y : Except ε β}

theorem Ensures.ok {a : α} (h : P a) : Ensures P (.ok a : Except ε α) := fun b hb => by cases hb; exact h

theorem Ensures.error {e : ε} : Ensures P (.error e : Except ε α) := fun _ h => by cases h

theorem Ensures.bind {f : α → Except ε β} (hx : Ensures P x) (hf : ∀ a, P a → Ensures Q (f a)) :
    Ensures Q (x >>= f) := by
  intro b hb
  cases x with
  | error e => cases hb
  | ok a => exact hf a (hx a rfl) b hb

theorem Ensures.trivial : Ensures (fun _ => True) x := fun _ _ => .intro

theorem Ensures.mapError {φ : ε → ε} (hx : Ensures P x) : Ensures P (x.mapError φ) := by
  intro a ha
  cases x with
  | error e => cases ha
  | ok b => exact hx a ha

theorem Agree.refl : Agree Eq x x := fun a b ha hb => by
  rw [ha] at hb
  exact Except.ok.inj hb

theorem Agree.trivial : Agree (fun _ _ => True) x y := fun _ _ _ _ => .intro

theorem Agree.ok {a : α} {b : β} (h : R a b) : Agree R (.ok a : Except ε α) (.ok b) := fun a' b' ha hb => by
  cases ha
  cases hb
  exact h

theorem Agree.left {e : ε} : Agree R (.error e) y := fun _ _ h => by cases h

theorem Agree.bind {f : α → Except ε γ} {g : β → Except ε δ} (hx : Agree R x y)
    (hf : ∀ a b, R a b → Agree S (f a) (g b)) : Agree S (x >>= f) (y >>= g) := by
  intro c d hc hd
  cases x with
  | error e => cases hc
  | ok a =>
    cases y with
    | error e => cases hd
    | ok b => exact hf a b (hx a b rfl rfl) c d hc hd

theorem Agree.mapError {φ ψ : ε → ε} (h : Agree R x y) : Agree R (x.mapError φ) (y.mapError ψ) := by
  intro a b ha hb
  cases x with
  | error e => cases ha
  | ok a' =>
    cases y with
    | error e => cases hb
    | ok b' => exact h a b ha hb

/-! ### Computations that return -/

theorem bind_eq_ok {f : α → Except ε β} {b : β} (h : x >>= f = .ok b) : ∃ a, x = .ok a ∧ f a = .ok b := by
  cases x with
  | error err => cases h
  | ok a => exact ⟨a, rfl, h⟩

/-- A loop whose rounds yield the values of a function yields the list of them. -/
theorem mapM_eq_map {f : α → Except ε β} {g : α → β} (hf : ∀ x y, f x = .ok y → y = g x) {xs : List α} {ys : List β}
    (h : xs.mapM f = .ok ys) : ys = xs.map g := by
  induction xs generalizing ys with
  | nil =>
    cases h
    rfl
  | cons x xs ih =>
    rw [List.mapM_cons] at h
    obtain ⟨y, hy, h⟩ := bind_eq_ok h
    obtain ⟨ys', hys', h⟩ := bind_eq_ok h
    cases h
    rw [List.map_cons, ih hys', hf x y hy]

/-- All rounds of a loop that returns have returned. -/
theorem mapM_eq_ok {f : α → Except ε β} {xs : List α} {ys : List β} (h : xs.mapM f = .ok ys) :
    ∀ x ∈ xs, ∃ y, f x = .ok y := by
  induction xs generalizing ys with
  | nil => exact fun _ hx => absurd hx List.not_mem_nil
  | cons x xs ih =>
    rw [List.mapM_cons] at h
    obtain ⟨y, hy, h⟩ := bind_eq_ok h
    obtain ⟨ys', hys', -⟩ := bind_eq_ok h
    exact List.forall_mem_cons.2 ⟨⟨y, hy⟩, ih hys'⟩

theorem forM_eq_ok {f : α → Except ε Unit} {l : List α} : l.forM f = .ok () ↔ ∀ a ∈ l, f a = .ok () := by
  induction l with
  | nil => exact ⟨fun _ _ h => absurd h List.not_mem_nil, fun _ => rfl⟩
  | cons a l ih =>
    rw [List.forall_mem_cons, ← ih, List.forM]
    cases f a with
    | error e => exact ⟨nofun, fun h => absurd h.1 nofun⟩
    | ok u => exact ⟨fun h => ⟨rfl, h⟩, And.right⟩

/-- A loop over an `Option` whose rounds all have a value. -/
theorem mapM_some {f : α → Option β} {g : α → β} {l : List α} (h : ∀ x ∈ l, f x = some (g x)) :
    l.mapM f = some (l.map g) := by
  induction l with
  | nil => rfl
  | cons x l ih =>
    obtain ⟨hx, hrest⟩ := List.forall_mem_cons.mp h
    rw [List.mapM_cons, hx, ih hrest]
    rfl

end Outcome
