import Mathlib.Data.List.Basic

/-!
# Errors that wrap errors

An error of Go with the errors it wraps: none, one (`Unwrap() error`) or several (`Unwrap() []error`).  What an error is
besides, its type and its other fields, is its kind.  `errors.AsType` asks for the first error of a type: it goes
through the error and all it wraps in the order of a preorder walk.
-/

namespace Noda

inductive ErrorTree (κ : Type) where
  | node (kind : κ) (causes : List (ErrorTree κ))

namespace ErrorTree

variable {κ α β : Type}

def kind : ErrorTree κ → κ
  | node k _ => k

mutual

/-- `errors.AsType`, for the type that `p` recognizes. -/
def asType (p : ErrorTree κ → Option α) : ErrorTree κ → Option α
  | node k causes => (p (node k causes)).or (asTypeAny p causes)

def asTypeAny (p : ErrorTree κ → Option α) : List (ErrorTree κ) → Option α
  | [] => none
  | t :: ts => (asType p t).or (asTypeAny p ts)

end

mutual

/-- `Error()`, where `f` says what an error of a kind writes around the texts of its causes. -/
def error (f : κ → List String → String) : ErrorTree κ → String
  | node k causes => f k (errors f causes)

def errors (f : κ → List String → String) : List (ErrorTree κ) → List String
  | [] => []
  | t :: ts => error f t :: errors f ts

end

mutual

/-- The error and all it wraps, in the order in which `errors.AsType` comes to them. -/
def chain : ErrorTree κ → List (ErrorTree κ)
  | node k causes => node k causes :: chains causes

def chains : List (ErrorTree κ) → List (ErrorTree κ)
  | [] => []
  | t :: ts => chain t ++ chains ts

end

mutual

theorem asType_eq (p : ErrorTree κ → Option α) : ∀ t : ErrorTree κ, t.asType p = t.chain.findSome? p
  | node k causes => by
    rw [asType, chain, List.findSome?_cons, asTypeAny_eq p causes]
    cases p (node k causes) <;> rfl

theorem asTypeAny_eq (p : ErrorTree κ → Option α) : ∀ ts : List (ErrorTree κ), asTypeAny p ts = (chains ts).findSome? p
  | [] => rfl
  | t :: ts => by rw [asTypeAny, chains, List.findSome?_append, asType_eq p t, asTypeAny_eq p ts]

end

def wrap (k : κ) (t : ErrorTree κ) : ErrorTree κ := node k [t]

private theorem chain_wrap (k : κ) (t : ErrorTree κ) : (wrap k t).chain = wrap k t :: t.chain := by
  simp [wrap, chain, chains]

/-- What `view` shows of an error and of all it wraps. -/
def shown (view : κ → Option β) (t : ErrorTree κ) : List β := t.chain.filterMap fun e => view e.kind

theorem shown_wrap (view : κ → Option β) (k : κ) (t : ErrorTree κ) :
    (wrap k t).shown view = (view k).toList ++ t.shown view := by
  have hk : (wrap k t).kind = k := rfl
  cases hv : view k with
  | none => rw [shown, chain_wrap, List.filterMap_cons_none (by rw [hk, hv])]; rfl
  | some b => rw [shown, chain_wrap, List.filterMap_cons_some (by rw [hk, hv])]; rfl

/-- The answer to a question that can be asked of the shown parts depends on these only. -/
theorem map_asType {γ : Type} {view : κ → Option β} {p : ErrorTree κ → Option α} {g : α → γ} {q : β → Option γ}
    (h : ∀ e, (p e).map g = (view e.kind).bind q) (t : ErrorTree κ) :
    (t.asType p).map g = (t.shown view).findSome? q := by
  rw [asType_eq, shown]
  induction t.chain with
  | nil => rfl
  | cons e es ih =>
    have he := h e
    rw [List.findSome?_cons, List.filterMap_cons]
    cases hv : view e.kind with
    | none =>
      rw [hv, Option.bind_none, Option.map_eq_none_iff] at he
      rw [he]
      exact ih
    | some b =>
      rw [hv, Option.bind_some] at he
      rw [List.findSome?_cons, ← he]
      cases p e with
      | none => exact ih
      | some a => rfl

end ErrorTree

end Noda
