import Mathlib.Data.List.Chain
import Mathlib.Data.List.Nodup
import Mathlib.Data.List.Perm.Subperm
import Mathlib.Logic.Relation

/-!
# Depth-first search for cycles

The search with three colours, as a machine with an explicit stack.  A frame is a vertex and those of its successors
that are yet to be looked at.  A successor that is gray is reported, with the path that climbing the parents from the
vertex gives; the vertex is then left as it is, gray.

* `Inv`: the colours, the parents and the stack fit together;
* `Steps.noReports_iff`: a search that has come to its end has reported nothing if and only if there is no cycle;
* `Steps.first_report`: the first path that is reported is a closed walk.
-/

namespace Dfs

variable {α : Type}

/-! ### Cycles -/

/-- There is an edge from `a` to `b`. -/
def Edge (succ : α → List α) (a b : α) : Prop := b ∈ succ a

def OnCycle (succ : α → List α) (a : α) : Prop := Relation.TransGen (Edge succ) a a

/-- A walk along edges that ends where it begins. -/
structure ClosedWalk (succ : α → List α) (path : List α) : Prop where
  length : 2 ≤ path.length
  closed : path.head? = path.getLast?
  edges : path.IsChain (Edge succ)

/-- A vertex that the search is done with, without a report: no infinite walk starts there. -/
def Finished (succ : α → List α) (a : α) : Prop := Acc (fun y x => Edge succ x y) a

theorem Finished.not_onCycle {succ : α → List α} {a : α} (h : Finished succ a) : ¬ OnCycle succ a := by
  induction h with
  | intro a _ ih =>
    intro hc
    obtain ⟨b, hab, hba⟩ := Relation.TransGen.head'_iff.mp hc
    exact ih b hab (Relation.TransGen.tail' hba hab)

/-! ### The machine -/

variable [DecidableEq α]

inductive Color where
  | white
  | gray
  | black
  deriving DecidableEq, Repr

/-- An edge from `node` to a gray `target`, with the path that is reported for it. -/
structure Report (α : Type) where
  node : α
  target : α
  path : List α
  deriving DecidableEq, Repr

structure State (α : Type) where
  color : α → Color := fun _ => .white
  parent : α → Option α := fun _ => none
  reports : List (Report α) := []

/-- The vertices from `cur` up the parents to `target`; a vertex without a parent counts as having the parent `dflt`. -/
def climb (dflt : α) (parent : α → Option α) (target : α) : Nat → α → List α
  | 0, _ => []
  | n + 1, cur =>
    if cur = target then []
    else (parent cur).getD dflt :: climb dflt parent target n ((parent cur).getD dflt)

namespace State

def paint (st : State α) (x : α) (c : Color) : State α := { st with color := Function.update st.color x c }

/-- A white successor becomes a child. -/
def adopt (st : State α) (x node : α) : State α := { st with parent := Function.update st.parent x (some node) }

/-- The path that is reported for an edge. -/
def cycle (dflt : α) (bound : Nat) (st : State α) (node target : α) : List α :=
  (target :: node :: climb dflt st.parent target bound node).reverse

def report (dflt : α) (bound : Nat) (st : State α) (node target : α) : State α :=
  { st with reports := st.reports ++ [⟨node, target, st.cycle dflt bound node target⟩] }

end State

/-- The stack, the roots that are yet to be looked at, and the state. -/
structure Config (α : Type) where
  stack : List (α × List α)
  todo : List α
  state : State α

/-- One step of the search. -/
inductive Step (succ : α → List α) (dflt : α) (bound : Nat) : Config α → Config α → Prop where
  | root {k : α} {todo : List α} {st : State α} : st.color k = .white →
      Step succ dflt bound ⟨[], k :: todo, st⟩ ⟨[(k, succ k)], todo, st.paint k .gray⟩
  | skip {k : α} {todo : List α} {st : State α} : st.color k ≠ .white →
      Step succ dflt bound ⟨[], k :: todo, st⟩ ⟨[], todo, st⟩
  | leave {n : α} {stack : List (α × List α)} {todo : List α} {st : State α} :
      Step succ dflt bound ⟨(n, []) :: stack, todo, st⟩ ⟨stack, todo, st.paint n .black⟩
  | hit {n t : α} {rest : List α} {stack : List (α × List α)} {todo : List α} {st : State α} : st.color t = .gray →
      Step succ dflt bound ⟨(n, t :: rest) :: stack, todo, st⟩ ⟨stack, todo, st.report dflt bound n t⟩
  | child {n t : α} {rest : List α} {stack : List (α × List α)} {todo : List α} {st : State α} : st.color t = .white →
      Step succ dflt bound ⟨(n, t :: rest) :: stack, todo, st⟩
        ⟨(t, succ t) :: (n, rest) :: stack, todo, (st.adopt t n).paint t .gray⟩
  | pass {n t : α} {rest : List α} {stack : List (α × List α)} {todo : List α} {st : State α} : st.color t = .black →
      Step succ dflt bound ⟨(n, t :: rest) :: stack, todo, st⟩ ⟨(n, rest) :: stack, todo, st⟩

/-- Any number of steps. -/
def Steps (succ : α → List α) (dflt : α) (bound : Nat) : Config α → Config α → Prop :=
  Relation.ReflTransGen (Step succ dflt bound)

variable {succ : α → List α} {dflt : α} {bound : Nat}

/-- What every step keeps is kept by any number of steps. -/
theorem Steps.invariant {P : Config α → Prop} {c c' : Config α} (h : Steps succ dflt bound c c') (hc : P c)
    (hstep : ∀ c c', P c → Step succ dflt bound c c' → P c') : P c' := by
  induction h with
  | refl => exact hc
  | tail _ hs ih => exact hstep _ _ ih hs

/-! ### The invariant -/

/-- A frame of the stack, under the vertex `above` of the frame above it: the successors that were seen are done with,
but for that vertex, and all children of the vertex are among them. -/
structure FrameOk (succ : α → List α) (st : State α) (above : Option α) (f : α × List α) : Prop where
  gray : st.color f.1 = .gray
  seen : ∃ seen, succ f.1 = seen ++ f.2 ∧ (∀ x, st.parent x = some f.1 → x ∈ seen) ∧
    (st.reports = [] → ∀ t ∈ seen, st.color t = .black ∨ above = some t)

omit [DecidableEq α] in
theorem FrameOk.edge {st : State α} {above : Option α} {n t : α} {rest : List α}
    (h : FrameOk succ st above (n, t :: rest)) : Edge succ n t := by
  obtain ⟨seen, hsucc, -⟩ := h.seen
  show t ∈ succ n
  rw [show succ n = seen ++ t :: rest from hsucc]
  simp

/-- The frames of the stack, where each vertex is a child of the one below it. -/
def Frames (succ : α → List α) (st : State α) : Option α → List (α × List α) → Prop
  | _, [] => True
  | above, f :: stack => FrameOk succ st above f ∧ st.parent f.1 = stack.head?.map Prod.fst ∧
      (∀ p ∈ stack.head?, Edge succ p.1 f.1) ∧ Frames succ st (some f.1) stack

structure Inv (succ : α → List α) (c : Config α) : Prop where
  frames : Frames succ c.state none c.stack
  nodup : (c.stack.map Prod.fst).Nodup
  parents : ∀ x y, c.state.parent x = some y → Edge succ y x ∧ c.state.color x ≠ .white ∧ c.state.color y ≠ .white
  gray : ∀ x, c.state.color x = .gray → x ∈ c.stack.map Prod.fst ∨ ∃ r ∈ c.state.reports, r.node = x
  finished : c.state.reports = [] → ∀ x, c.state.color x = .black → Finished succ x

omit [DecidableEq α] in
theorem Frames.gray_of_mem {st : State α} {above : Option α} {stack : List (α × List α)}
    (h : Frames succ st above stack) : ∀ x ∈ stack.map Prod.fst, st.color x = .gray := by
  induction stack generalizing above with
  | nil => simp
  | cons f stack ih =>
    obtain ⟨hf, -, -, hrest⟩ := h
    exact List.forall_mem_cons.mpr ⟨hf.gray, ih hrest⟩

omit [DecidableEq α] in
/-- The frames under a change of the state that leaves their vertices and children alone. -/
theorem Frames.mono {st st' : State α} {above above' : Option α} {stack : List (α × List α)}
    (h : Frames succ st above stack) (hgray : ∀ x ∈ stack.map Prod.fst, st'.color x = .gray)
    (hparent : ∀ x ∈ stack.map Prod.fst, st'.parent x = st.parent x)
    (hnew : ∀ x ∈ stack.map Prod.fst, ∀ y, st'.parent y = some x → st.parent y = some x)
    (hreports : st'.reports = [] → st.reports = [])
    (hblack : st'.reports = [] → ∀ x, st.color x = .black → st'.color x = .black)
    (habove : st'.reports = [] → ∀ t, above = some t → above' = some t ∨ st'.color t = .black) :
    Frames succ st' above' stack := by
  induction stack generalizing above above' with
  | nil => trivial
  | cons f stack ih =>
    obtain ⟨hf, hpar, hedge, hrest⟩ := h
    obtain ⟨seen, hsucc, hchildren, hseen⟩ := hf.seen
    have hmem : f.1 ∈ (f :: stack).map Prod.fst := List.mem_cons_self
    refine ⟨⟨hgray _ hmem, seen, hsucc, fun x hx => hchildren x (hnew _ hmem x hx), fun hr t ht => ?_⟩, ?_, hedge, ?_⟩
    · rcases hseen (hreports hr) t ht with hb | ha
      · exact .inl (hblack hr t hb)
      · exact (habove hr t ha).symm
    · rw [hparent _ hmem, hpar]
    · exact ih hrest (fun x hx => hgray x (List.mem_cons_of_mem _ hx))
        (fun x hx => hparent x (List.mem_cons_of_mem _ hx)) (fun x hx => hnew x (List.mem_cons_of_mem _ hx))
        (fun _ t ht => .inl ht)

omit [DecidableEq α] in
theorem Inv.initial (todo : List α) : Inv succ ⟨[], todo, {}⟩ := by
  refine ⟨trivial, by simp, ?_, ?_, ?_⟩
  · intro x y h
    cases h
  · intro x h
    cases h
  · intro _ x h
    cases h

namespace State

variable {st : State α} {x y n : α}

@[simp] theorem adopt_color : (st.adopt x n).color = st.color := rfl

@[simp] theorem report_color : (st.report dflt bound n x).color = st.color := rfl

@[simp] theorem paint_color_self (c : Color) : (st.paint x c).color x = c := Function.update_self ..

theorem paint_color_of_ne (c : Color) (h : y ≠ x) : (st.paint x c).color y = st.color y := Function.update_of_ne h _ _

private theorem paint_color_eq {c c' : Color} (h : (st.paint x c).color y = c') :
    y = x ∧ c = c' ∨ y ≠ x ∧ st.color y = c' := by
  by_cases hyx : y = x
  · rw [hyx, paint_color_self] at h
    exact .inl ⟨hyx, h⟩
  · rw [paint_color_of_ne _ hyx] at h
    exact .inr ⟨hyx, h⟩

private theorem paint_ne_white {c : Color} (hc : c ≠ .white) (hy : st.color y ≠ .white) :
    (st.paint x c).color y ≠ .white := by
  intro h
  rcases paint_color_eq h with ⟨-, hwhite⟩ | ⟨-, hwhite⟩
  · exact hc hwhite
  · exact hy hwhite

@[simp] theorem adopt_parent_self : (st.adopt x n).parent x = some n := Function.update_self ..

theorem adopt_parent_of_ne (h : y ≠ x) : (st.adopt x n).parent y = st.parent y := Function.update_of_ne h _ _

end State

omit [DecidableEq α] in
theorem ne_of_color {st : State α} {x y : α} {c c' : Color} (hx : st.color x = c) (hy : st.color y = c') (h : c ≠ c') :
    x ≠ y := by
  rintro rfl
  exact h (hx.symm.trans hy)

omit [DecidableEq α] in
/-- A white vertex is nobody's parent. -/
theorem Inv.no_child {c : Config α} (h : Inv succ c) {x : α} (hx : c.state.color x = .white) (y : α) :
    c.state.parent y ≠ some x := by
  intro hy
  exact (h.parents y x hy).2.2 hx

omit [DecidableEq α] in
theorem Inv.no_parent {c : Config α} (h : Inv succ c) {x : α} (hx : c.state.color x = .white) :
    c.state.parent x = none := by
  cases hp : c.state.parent x with
  | none => rfl
  | some y => exact absurd hx (h.parents x y hp).2.1

omit [DecidableEq α] in
theorem Inv.not_mem_stack {c : Config α} (h : Inv succ c) {x : α} (hx : c.state.color x ≠ .gray) :
    x ∉ c.stack.map Prod.fst := fun hmem => hx (h.frames.gray_of_mem x hmem)

theorem Inv.root {k : α} {todo : List α} {st : State α} (h : Inv succ ⟨[], k :: todo, st⟩) (hk : st.color k = .white) :
    Inv succ ⟨[(k, succ k)], todo, st.paint k .gray⟩ := by
  refine ⟨⟨⟨by simp, [], rfl, fun x hx => absurd hx (h.no_child hk x), by simp⟩, h.no_parent hk, by simp, trivial⟩,
    by simp, ?_, ?_, ?_⟩
  · intro x y hxy
    obtain ⟨hedge, hx, hy⟩ := h.parents x y hxy
    exact ⟨hedge, State.paint_ne_white (by decide) hx, State.paint_ne_white (by decide) hy⟩
  · intro x hx
    rcases State.paint_color_eq hx with ⟨hxk, -⟩ | ⟨-, hx⟩
    · simp [hxk]
    · rcases h.gray x hx with hmem | hr
      · cases hmem
      · exact .inr hr
  · intro hr x hx
    rcases State.paint_color_eq hx with ⟨-, hgray⟩ | ⟨-, hx⟩
    · cases hgray
    · exact h.finished hr x hx

omit [DecidableEq α] in
theorem Inv.skip {k : α} {todo : List α} {st : State α} (h : Inv succ ⟨[], k :: todo, st⟩) : Inv succ ⟨[], todo, st⟩ :=
  ⟨h.frames, h.nodup, h.parents, h.gray, h.finished⟩

theorem Inv.leave {n : α} {stack : List (α × List α)} {todo : List α} {st : State α}
    (h : Inv succ ⟨(n, []) :: stack, todo, st⟩) : Inv succ ⟨stack, todo, st.paint n .black⟩ := by
  obtain ⟨hf, hpar, hedge, hrest⟩ := h.frames
  obtain ⟨seen, hsucc, hchildren, hseen⟩ := hf.seen
  have hnd : n ∉ stack.map Prod.fst ∧ (stack.map Prod.fst).Nodup := List.nodup_cons.mp h.nodup
  have hstack : ∀ x ∈ stack.map Prod.fst, x ≠ n := fun x hx he => hnd.1 (he ▸ hx)
  have hblack : ∀ x, st.color x = .black → (st.paint n .black).color x = .black := by
    intro x hx
    have hne : x ≠ n := ne_of_color hx hf.gray (by decide)
    rw [State.paint_color_of_ne _ hne, hx]
  refine ⟨?_, hnd.2, ?_, ?_, ?_⟩
  · refine hrest.mono (fun x hx => ?_) (fun _ _ => rfl) (fun _ _ _ h => h) (fun h => h) (fun _ => hblack) ?_
    · rw [State.paint_color_of_ne _ (hstack x hx)]
      exact hrest.gray_of_mem x hx
    · intro _ t ht
      cases ht
      exact .inr (State.paint_color_self _)
  · intro x y hxy
    obtain ⟨he, hx, hy⟩ := h.parents x y hxy
    exact ⟨he, State.paint_ne_white (by decide) hx, State.paint_ne_white (by decide) hy⟩
  · intro x hx
    rcases State.paint_color_eq hx with ⟨-, hgray⟩ | ⟨hxn, hx⟩
    · cases hgray
    · rcases h.gray x hx with hmem | hr
      · rcases List.mem_cons.mp hmem with he | hmem
        · exact absurd he hxn
        · exact .inl hmem
      · exact .inr hr
  · intro hr x hx
    rcases State.paint_color_eq hx with ⟨hxn, -⟩ | ⟨-, hx⟩
    · -- all successors of the vertex are finished
      rw [hxn]
      refine Acc.intro n fun t ht => ?_
      have ht' : t ∈ seen := by
        have : t ∈ seen ++ [] := hsucc ▸ ht
        simpa using this
      rcases hseen hr t ht' with hb | ha
      · exact h.finished hr t hb
      · cases ha
    · exact h.finished hr x hx

theorem Inv.hit {n t : α} {rest : List α} {stack : List (α × List α)} {todo : List α} {st : State α}
    (h : Inv succ ⟨(n, t :: rest) :: stack, todo, st⟩) : Inv succ ⟨stack, todo, st.report dflt bound n t⟩ := by
  obtain ⟨hf, hpar, hedge, hrest⟩ := h.frames
  have hne : (st.report dflt bound n t).reports ≠ [] := by simp [State.report]
  refine ⟨?_, (List.nodup_cons.mp h.nodup).2, h.parents, ?_, fun hr => absurd hr hne⟩
  · exact hrest.mono (fun x hx => hrest.gray_of_mem x hx) (fun _ _ => rfl) (fun _ _ _ h => h) (fun hr => absurd hr hne)
      (fun hr => absurd hr hne) (fun hr => absurd hr hne)
  · intro x hx
    rcases h.gray x hx with hmem | ⟨r, hr, hrx⟩
    · rcases List.mem_cons.mp hmem with rfl | hmem
      · exact .inr ⟨⟨x, t, st.cycle dflt bound x t⟩, by simp [State.report], rfl⟩
      · exact .inl hmem
    · exact .inr ⟨r, by simp [State.report, hr], hrx⟩

/-- The frames with a new one on top. -/
theorem Inv.frames_child {n t : α} {rest : List α} {stack : List (α × List α)} {todo : List α} {st : State α}
    (h : Inv succ ⟨(n, t :: rest) :: stack, todo, st⟩) (ht : st.color t = .white)
    (hmem : t ∉ ((n, t :: rest) :: stack).map Prod.fst) (hedge' : Edge succ n t) :
    Frames succ ((st.adopt t n).paint t .gray) none ((t, succ t) :: (n, rest) :: stack) := by
  obtain ⟨hf, hpar, hedge, hrest⟩ := h.frames
  obtain ⟨seen, hsucc, hchildren, hseen⟩ := hf.seen
  have htn : t ≠ n := ne_of_color ht hf.gray (by decide)
  have hstack : ∀ x ∈ stack.map Prod.fst, x ≠ t := fun x hx he => hmem (he ▸ List.mem_cons_of_mem _ hx)
  have hcolor : ∀ x, x ≠ t → ((st.adopt t n).paint t .gray).color x = st.color x :=
    fun x hx => State.paint_color_of_ne _ hx
  have hparent : ∀ x, x ≠ t → ((st.adopt t n).paint t .gray).parent x = st.parent x :=
    fun x hx => State.adopt_parent_of_ne hx
  have hself : ((st.adopt t n).paint t .gray).parent t = some n := State.adopt_parent_self
  have hblack : ∀ x, st.color x = .black → ((st.adopt t n).paint t .gray).color x = .black := by
    intro x hx
    rw [hcolor x (ne_of_color hx ht (by decide)), hx]
  -- the new child is the child of `n` only
  have hnew : ∀ x ∈ stack.map Prod.fst, ∀ y, ((st.adopt t n).paint t .gray).parent y = some x →
      st.parent y = some x := by
    intro x hx y hy
    by_cases hyt : y = t
    · rw [hyt, hself] at hy
      cases hy
      exact absurd hx (List.nodup_cons.mp h.nodup).1
    · rwa [hparent y hyt] at hy
  refine ⟨⟨State.paint_color_self _, [], rfl, fun x hx => ?_, by simp⟩, hself, by simpa using hedge', ?_⟩
  · by_cases hxt : x = t
    · rw [hxt, hself] at hx
      cases hx
      exact absurd rfl htn
    · rw [hparent x hxt] at hx
      exact absurd hx (h.no_child ht x)
  · refine ⟨⟨by rw [hcolor n htn.symm]; exact hf.gray, seen ++ [t], by simp [hsucc], fun x hx => ?_, fun hr x hx => ?_⟩,
      by rw [hparent n htn.symm]; exact hpar, hedge, ?_⟩
    · by_cases hxt : x = t
      · simp [hxt]
      · rw [hparent x hxt] at hx
        exact List.mem_append_left _ (hchildren x hx)
    · rcases List.mem_append.mp hx with hx | hx
      · rcases hseen hr x hx with hb | ha
        · exact .inl (hblack x hb)
        · cases ha
      · exact .inr (by rw [List.mem_singleton.mp hx])
    · refine hrest.mono (fun x hx => ?_) (fun x hx => hparent x (hstack x hx)) hnew (fun h => h) (fun _ => hblack)
        (fun _ x hx => .inl hx)
      rw [hcolor x (hstack x hx)]
      exact hrest.gray_of_mem x hx

theorem Inv.child {n t : α} {rest : List α} {stack : List (α × List α)} {todo : List α} {st : State α}
    (h : Inv succ ⟨(n, t :: rest) :: stack, todo, st⟩) (ht : st.color t = .white) :
    Inv succ ⟨(t, succ t) :: (n, rest) :: stack, todo, (st.adopt t n).paint t .gray⟩ := by
  obtain ⟨hf, -⟩ := h.frames
  have hmem : t ∉ ((n, t :: rest) :: stack).map Prod.fst :=
    h.not_mem_stack (x := t) (by show st.color t ≠ .gray; rw [ht]; decide)
  have hedge := hf.edge
  refine ⟨h.frames_child ht hmem hedge, List.nodup_cons.mpr ⟨hmem, h.nodup⟩, ?_, ?_, ?_⟩
  · intro x y hxy
    by_cases hxt : x = t
    · have hself : ((st.adopt t n).paint t .gray).parent t = some n := State.adopt_parent_self
      rw [hxt, hself] at hxy
      cases hxy
      refine ⟨hxt ▸ hedge, by rw [hxt, State.paint_color_self]; decide, State.paint_ne_white (by decide) ?_⟩
      rw [State.adopt_color, show st.color n = .gray from hf.gray]
      decide
    · have hparent : ((st.adopt t n).paint t .gray).parent x = st.parent x := State.adopt_parent_of_ne hxt
      rw [hparent] at hxy
      obtain ⟨he, hx, hy⟩ := h.parents x y hxy
      exact ⟨he, State.paint_ne_white (by decide) hx, State.paint_ne_white (by decide) hy⟩
  · intro x hx
    rcases State.paint_color_eq hx with ⟨hxt, -⟩ | ⟨-, hx⟩
    · simp [hxt]
    · rcases h.gray x hx with hmem | hr
      · exact .inl (List.mem_cons_of_mem _ hmem)
      · exact .inr hr
  · intro hr x hx
    rcases State.paint_color_eq hx with ⟨-, hgray⟩ | ⟨-, hx⟩
    · cases hgray
    · exact h.finished hr x hx

omit [DecidableEq α] in
theorem Inv.pass {n t : α} {rest : List α} {stack : List (α × List α)} {todo : List α} {st : State α}
    (h : Inv succ ⟨(n, t :: rest) :: stack, todo, st⟩) (ht : st.color t = .black) :
    Inv succ ⟨(n, rest) :: stack, todo, st⟩ := by
  obtain ⟨hf, hpar, hedge, hrest⟩ := h.frames
  obtain ⟨seen, hsucc, hchildren, hseen⟩ := hf.seen
  refine ⟨⟨⟨hf.gray, seen ++ [t], by simp [hsucc], fun x hx => ?_, fun hr x hx => ?_⟩, hpar, hedge, hrest⟩, h.nodup,
    h.parents, h.gray, h.finished⟩
  · exact List.mem_append_left _ (hchildren x hx)
  · rcases List.mem_append.mp hx with hx | hx
    · exact hseen hr x hx
    · rw [List.mem_singleton.mp hx]
      exact .inl ht

theorem Inv.step {c c' : Config α} (h : Inv succ c) (hs : Step succ dflt bound c c') : Inv succ c' := by
  cases hs with
  | root hk => exact h.root hk
  | skip => exact h.skip
  | leave => exact h.leave
  | hit => exact h.hit
  | child ht => exact h.child ht
  | pass ht => exact h.pass ht

theorem Inv.steps {c c' : Config α} (h : Inv succ c) (hs : Steps succ dflt bound c c') : Inv succ c' :=
  hs.invariant h fun _ _ => Inv.step

/-! ### Reports -/

/-- Climbing from the top of the stack to one of its vertices follows the edges of the stack backwards. -/
theorem Frames.climb {st : State α} {above : Option α} {f : α × List α} {stack : List (α × List α)} {target : α}
    {fuel : Nat} (h : Frames succ st above (f :: stack)) (ht : target ∈ (f :: stack).map Prod.fst)
    (hfuel : stack.length ≤ fuel) :
    (f.1 :: Dfs.climb dflt st.parent target fuel f.1).getLast? = some target ∧
      (f.1 :: Dfs.climb dflt st.parent target fuel f.1).IsChain (fun a b => Edge succ b a) := by
  induction stack generalizing f above fuel with
  | nil =>
    obtain rfl : target = f.1 := by simpa using ht
    have hclimb : Dfs.climb dflt st.parent f.1 fuel f.1 = [] := by
      cases fuel <;> simp [Dfs.climb]
    simp [hclimb]
  | cons p stack ih =>
    obtain ⟨hf, hpar, hedge, hrest⟩ := h
    obtain ⟨fuel, rfl⟩ : ∃ m, fuel = m + 1 := ⟨fuel - 1, by simp only [List.length_cons] at hfuel; omega⟩
    by_cases hft : f.1 = target
    · simp [Dfs.climb, hft]
    · have hup : st.parent f.1 = some p.1 := hpar
      have hclimb : Dfs.climb dflt st.parent target (fuel + 1) f.1 =
          p.1 :: Dfs.climb dflt st.parent target fuel p.1 := by
        simp [Dfs.climb, hft, hup]
      have ht' : target ∈ (p :: stack).map Prod.fst := by
        rcases List.mem_cons.mp ht with he | ht
        · exact absurd he.symm hft
        · exact ht
      obtain ⟨hlast, hchain⟩ := ih hrest ht' (by simpa using hfuel)
      rw [hclimb, List.getLast?_cons_cons]
      exact ⟨hlast, List.isChain_cons_cons.mpr ⟨hedge p (by simp), hchain⟩⟩

omit [DecidableEq α] in
/-- Every vertex of the stack below the top has a successor. -/
theorem Frames.mem_keys {st : State α} {above : Option α} {f : α × List α} {stack : List (α × List α)} {keys : List α}
    (hkeys : ∀ x, succ x ≠ [] → x ∈ keys) (h : Frames succ st above (f :: stack)) (hf : succ f.1 ≠ []) :
    ∀ x ∈ (f :: stack).map Prod.fst, x ∈ keys := by
  induction stack generalizing f above with
  | nil => simpa using hkeys f.1 hf
  | cons p stack ih =>
    obtain ⟨-, -, hedge, hrest⟩ := h
    have hp : succ p.1 ≠ [] := List.ne_nil_of_mem (hedge p (by simp))
    exact List.forall_mem_cons.mpr ⟨hkeys f.1 hf, ih hrest hp⟩

/-- A report whose target is on the stack is a closed walk, and its vertex is on a cycle. -/
theorem Inv.report_genuine {n t : α} {rest : List α} {stack : List (α × List α)} {todo keys : List α} {st : State α}
    (hkeys : ∀ x, succ x ≠ [] → x ∈ keys) (hbound : keys.length ≤ bound + 1)
    (h : Inv succ ⟨(n, t :: rest) :: stack, todo, st⟩) (ht : t ∈ ((n, t :: rest) :: stack).map Prod.fst) :
    ClosedWalk succ (st.cycle dflt bound n t) ∧ OnCycle succ n := by
  have hedge := h.frames.1.edge
  have hlen : stack.length ≤ bound := by
    have hsub := h.frames.mem_keys hkeys (List.ne_nil_of_mem hedge)
    have hle := (List.subperm_of_subset h.nodup hsub).length_le
    simp only [List.map_cons, List.length_cons, List.length_map] at hle
    omega
  obtain ⟨hlast, hchain⟩ : (n :: Dfs.climb dflt st.parent t bound n).getLast? = some t ∧
      (n :: Dfs.climb dflt st.parent t bound n).IsChain (fun a b => Edge succ b a) := h.frames.climb ht hlen
  have hpath : (t :: n :: Dfs.climb dflt st.parent t bound n).IsChain (fun a b => Edge succ b a) :=
    List.isChain_cons_cons.mpr ⟨hedge, hchain⟩
  refine ⟨⟨by simp [State.cycle], ?_, List.isChain_reverse.mpr hpath⟩, ?_⟩
  · rw [State.cycle, List.head?_reverse, List.getLast?_reverse, List.getLast?_cons_cons]
    exact hlast
  · -- back from the target to the vertex along the stack
    have hback : Relation.ReflTransGen (fun a b => Edge succ b a) n t := by
      refine List.relationReflTransGen_of_exists_isChain_cons _ hchain ?_
      rw [List.getLast?_eq_some_getLast (by simp)] at hlast
      exact Option.some.inj hlast
    exact Relation.TransGen.head' hedge (Relation.reflTransGen_swap.mp hback)

omit [DecidableEq α] in
theorem ClosedWalk.onCycle {path : List α} (h : ClosedWalk succ path) : ∃ a, OnCycle succ a := by
  obtain ⟨hlen, hclosed, hedges⟩ := h
  cases path with
  | nil => simp at hlen
  | cons a path =>
    cases path with
    | nil => simp at hlen
    | cons b path =>
      obtain ⟨hab, hrest⟩ := List.isChain_cons_cons.mp hedges
      refine ⟨a, Relation.TransGen.head' hab (List.relationReflTransGen_of_exists_isChain_cons path hrest ?_)⟩
      rw [List.head?_cons, List.getLast?_cons_cons, List.getLast?_eq_some_getLast (by simp)] at hclosed
      exact (Option.some.inj hclosed).symm

/-- What is known at every point of a search from the roots `keys`. -/
structure SearchInv (succ : α → List α) (keys : List α) (c : Config α) : Prop extends Inv succ c where
  visited : ∀ k ∈ keys, k ∈ c.todo ∨ c.state.color k ≠ .white
  first : ∀ r ∈ c.state.reports.head?, ClosedWalk succ r.path

theorem Step.color_ne_white {c c' : Config α} (h : Step succ dflt bound c c') {x : α} (hx : c.state.color x ≠ .white) :
    c'.state.color x ≠ .white := by
  cases h with
  | root _ => exact State.paint_ne_white (by decide) hx
  | leave => exact State.paint_ne_white (by decide) hx
  | child _ => exact State.paint_ne_white (by decide) hx
  | skip _ => exact hx
  | hit _ => exact hx
  | pass _ => exact hx

/-- The number of `keys` that are white: what is left of the search. -/
def whites (keys : List α) (st : State α) : Nat := keys.countP fun k => st.color k = .white

theorem Steps.whites_le {c c' : Config α} (h : Steps succ dflt bound c c') (keys : List α) :
    whites keys c'.state ≤ whites keys c.state := by
  induction h with
  | refl => exact le_rfl
  | tail _ hs ih =>
    refine le_trans (List.countP_mono_left fun k _ hk => ?_) ih
    simp only [decide_eq_true_eq] at hk ⊢
    by_contra hne
    exact hs.color_ne_white hne hk

theorem whites_paint_lt {keys : List α} {st : State α} {k : α} (hk : k ∈ keys) (hwhite : st.color k = .white) :
    whites keys (st.paint k .gray) < whites keys st := by
  have hle : ∀ l : List α, whites l (st.paint k .gray) ≤ whites l st := by
    intro l
    refine List.countP_mono_left fun x _ hx => ?_
    simp only [decide_eq_true_eq] at hx ⊢
    rcases State.paint_color_eq hx with ⟨-, hgray⟩ | ⟨-, hx⟩
    · cases hgray
    · exact hx
  obtain ⟨l₁, l₂, rfl⟩ := List.append_of_mem hk
  have h₁ := hle l₁
  have h₂ := hle l₂
  simp only [whites, List.countP_append, List.countP_cons, State.paint_color_self, hwhite] at h₁ h₂ ⊢
  simp only [reduceCtorEq, decide_false, decide_true, Bool.false_eq_true, if_false, if_true]
  omega

theorem SearchInv.step {keys : List α} (hkeys : ∀ x, succ x ≠ [] → x ∈ keys) (hbound : keys.length ≤ bound + 1)
    {c c' : Config α} (h : SearchInv succ keys c) (hs : Step succ dflt bound c c') : SearchInv succ keys c' := by
  refine ⟨h.toInv.step hs, fun k hk => ?_, ?_⟩
  · rcases h.visited k hk with htodo | hcolor
    · cases hs with
      | @root k' todo st hk' =>
        rcases List.mem_cons.mp htodo with rfl | htodo
        · exact .inr (by simp)
        · exact .inl htodo
      | @skip k' todo st hk' =>
        rcases List.mem_cons.mp htodo with rfl | htodo
        · exact .inr hk'
        · exact .inl htodo
      | leave | hit | child | pass => exact .inl htodo
    · exact .inr (hs.color_ne_white hcolor)
  · cases hs with
    | root | skip | leave | child | pass => exact h.first
    | @hit n t rest stack todo st ht =>
      cases hreports : st.reports with
      | cons r rs =>
        intro r' hr'
        refine h.first r' ?_
        simpa [State.report, hreports] using hr'
      | nil =>
        -- the first report: every gray vertex is on the stack
        have hmem : t ∈ ((n, t :: rest) :: stack).map Prod.fst := by
          rcases h.gray t ht with hmem | ⟨r, hr, -⟩
          · exact hmem
          · rw [show (⟨(n, t :: rest) :: stack, todo, st⟩ : Config α).state.reports = [] from hreports] at hr
            cases hr
        intro r hr
        obtain rfl : (⟨n, t, st.cycle dflt bound n t⟩ : Report α) = r := by simpa [State.report, hreports] using hr
        exact (h.toInv.report_genuine hkeys hbound hmem).1

omit [DecidableEq α] in
theorem SearchInv.initial (keys : List α) : SearchInv succ keys ⟨[], keys, {}⟩ :=
  ⟨Inv.initial keys, fun _ hk => .inl hk, by simp⟩

section Search

variable {keys : List α} {st : State α}

theorem Steps.searchInv (hkeys : ∀ x, succ x ≠ [] → x ∈ keys) (hbound : keys.length ≤ bound + 1) {c : Config α}
    (h : Steps succ dflt bound ⟨[], keys, {}⟩ c) : SearchInv succ keys c :=
  h.invariant (SearchInv.initial keys) fun _ _ => SearchInv.step hkeys hbound

/-- The first path that is reported is a closed walk. -/
theorem Steps.first_report (hkeys : ∀ x, succ x ≠ [] → x ∈ keys) (hbound : keys.length ≤ bound + 1) {c : Config α}
    (h : Steps succ dflt bound ⟨[], keys, {}⟩ c) {r : Report α} (hr : c.state.reports.head? = some r) :
    ClosedWalk succ r.path :=
  (h.searchInv hkeys hbound).first r hr

/-- A search that has come to its end has reported nothing if and only if there is no cycle. -/
theorem Steps.noReports_iff (hkeys : ∀ x, succ x ≠ [] → x ∈ keys) (hbound : keys.length ≤ bound + 1)
    (h : Steps succ dflt bound ⟨[], keys, {}⟩ ⟨[], [], st⟩) : st.reports = [] ↔ ∀ a, ¬ OnCycle succ a := by
  have hinv := h.searchInv hkeys hbound
  constructor
  · intro hr a ha
    obtain ⟨b, hab, -⟩ := Relation.TransGen.head'_iff.mp ha
    have hmem : a ∈ keys := hkeys a (List.ne_nil_of_mem hab)
    have hblack : st.color a = .black := by
      cases hcolor : st.color a with
      | black => rfl
      | white =>
        rcases hinv.visited a hmem with htodo | hne
        · cases htodo
        · exact absurd hcolor hne
      | gray =>
        rcases hinv.gray a hcolor with hstack | ⟨r, hr', -⟩
        · cases hstack
        · rw [show (⟨[], [], st⟩ : Config α).state.reports = [] from hr] at hr'
          cases hr'
    exact (hinv.finished hr a hblack).not_onCycle ha
  · intro hno
    cases hreports : st.reports with
    | nil => rfl
    | cons r rs =>
      have hwalk := h.first_report hkeys hbound (r := r) (by simp [hreports])
      obtain ⟨a, ha⟩ := hwalk.onCycle
      exact absurd ha (hno a)

end Search

end Dfs
