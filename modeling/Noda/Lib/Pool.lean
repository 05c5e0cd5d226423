import Mathlib.Data.List.Perm.Basic
import Mathlib.Data.List.Nodup
import Mathlib.Data.List.Flatten

/-!
# Pools of processes

The processes of a system in a list; each holds some things (`held p`).  A step replaces one process of the list, and
what all of them hold changes by what that one holds (`flatMap_set_perm`).  When nothing is held twice, a thing has one
holder (`holder_unique`).

A log with entries of the processes is told by where they are (`Logged`): `f i p` is what the process number `i` has
logged when it is at `p`.
-/

namespace Pool

variable {P H : Type} {held : P → List H} {ps : List P}

/-- What the others hold does not change when a process is replaced. -/
theorem flatMap_set_perm (held : P → List H) {i : Nat} {p : P} (hp : ps[i]? = some p) (p' : P) :
    ∃ rest, (ps.flatMap held).Perm (held p ++ rest) ∧ ((ps.set i p').flatMap held).Perm (held p' ++ rest) := by
  obtain ⟨hlt, rfl⟩ := List.getElem?_eq_some_iff.1 hp
  refine ⟨(ps.eraseIdx i).flatMap held, ?_, ?_⟩
  · exact ((List.getElem_cons_eraseIdx_perm hlt).symm.flatMap_right _).trans (by simp)
  · exact ((List.set_perm_cons_eraseIdx hlt p').flatMap_right _).trans (by simp)

theorem holder_unique (hnodup : (ps.flatMap held).Nodup) {i j : Nat} {p q : P} (hi : ps[i]? = some p)
    (hj : ps[j]? = some q) {h : H} (hp : h ∈ held p) (hq : h ∈ held q) : i = j := by
  obtain ⟨hilt, rfl⟩ := List.getElem?_eq_some_iff.1 hi
  obtain ⟨hjlt, rfl⟩ := List.getElem?_eq_some_iff.1 hj
  have hdisjoint := List.pairwise_iff_getElem.1 (List.nodup_flatMap.1 hnodup).2
  rcases Nat.lt_trichotomy i j with hlt | heq | hlt
  · exact absurd hq (hdisjoint i j hilt hjlt hlt hp)
  · exact heq
  · exact absurd hp (hdisjoint j i hjlt hilt hlt hq)

/-- The process at a place of a list in which one was replaced. -/
theorem getElem?_set_some {i j : Nat} {p q : P} (h : (ps.set i p)[j]? = some q) :
    (j = i ∧ q = p) ∨ (j ≠ i ∧ ps[j]? = some q) := by
  rw [List.getElem?_set] at h
  split_ifs at h with hij hlt
  · exact .inl ⟨hij.symm, (Option.some.inj h).symm⟩
  · exact .inr ⟨fun hji => hij hji.symm, h⟩

/-- The process at a place of a list to which one was added. -/
theorem getElem?_concat_some {i : Nat} {p q : P} (h : (ps ++ [p])[i]? = some q) :
    ps[i]? = some q ∨ i = ps.length ∧ q = p := by
  rw [List.getElem?_append] at h
  split_ifs at h with hlt
  · exact .inl h
  · obtain ⟨hi, rfl⟩ := List.getElem?_eq_some_iff.1 h
    rw [List.length_singleton] at hi
    exact .inr ⟨by omega, List.getElem_singleton hi⟩

/-- The processes that are not replaced stay. -/
theorem mem_set_of_mem {i : Nat} {p q : P} (p' : P) (hi : ps[i]? = some p) (hq : q ∈ ps) : q = p ∨ q ∈ ps.set i p' := by
  obtain ⟨j, hj⟩ := List.mem_iff_getElem?.1 hq
  by_cases hij : i = j
  · subst hij
    exact .inl (Option.some.inj (hj.symm.trans hi))
  · exact .inr (List.mem_of_getElem? ((List.getElem?_set_ne hij).trans hj))

/-- The new process is there. -/
theorem mem_set_self {i : Nat} {p : P} (p' : P) (hi : ps[i]? = some p) : p' ∈ ps.set i p' :=
  List.mem_of_getElem? (List.getElem?_set_self (List.getElem?_eq_some_iff.1 hi).1)

/-- How many processes have a property changes by the one that is replaced. -/
theorem countP_set (f : P → Bool) {i : Nat} {p : P} (hi : ps[i]? = some p) (p' : P) :
    (ps.set i p').countP f + (if f p then 1 else 0) = ps.countP f + if f p' then 1 else 0 := by
  obtain ⟨hlt, rfl⟩ := List.getElem?_eq_some_iff.1 hi
  rw [(List.set_perm_cons_eraseIdx hlt p').countP_eq, ← (List.getElem_cons_eraseIdx_perm hlt).countP_eq,
    List.countP_cons, List.countP_cons]
  omega

/-! ### Logs -/

section

variable {α : Type} {key : α → Option Nat} {f : Nat → P → List α} {log : List α}

/-- What the process with the number has logged. -/
def logOf (f : Nat → P → List α) (ps : List P) (i : Nat) : List α :=
  match ps[i]? with
  | some p => f i p
  | none => []

/-- The entries of each process in the log are what it has logged; `key` is the number of the process, if there is
one. -/
def Logged (key : α → Option Nat) (f : Nat → P → List α) (log : List α) (ps : List P) : Prop :=
  ∀ i, log.filter (fun e => key e = some i) = logOf f ps i

theorem logOf_set_self {i : Nat} {p : P} (p' : P) (hi : ps[i]? = some p) : logOf f (ps.set i p') i = f i p' := by
  unfold logOf
  rw [List.getElem?_set_self (List.getElem?_eq_some_iff.1 hi).1]

theorem logOf_set_ne {i j : Nat} (p' : P) (hij : i ≠ j) : logOf f (ps.set i p') j = logOf f ps j := by
  unfold logOf
  rw [List.getElem?_set_ne hij]

theorem logOf_eq {i : Nat} {p : P} (hi : ps[i]? = some p) : logOf f ps i = f i p := by
  unfold logOf
  rw [hi]

/-- A process goes on without an entry. -/
theorem Logged.set (h : Logged key f log ps) {i : Nat} {p p' : P} (hi : ps[i]? = some p) (hp : f i p' = f i p) :
    Logged key f log (ps.set i p') := by
  intro j
  by_cases hij : i = j
  · subst hij
    rw [h i, logOf_set_self p' hi, logOf_eq hi, hp]
  · rw [h j, logOf_set_ne p' hij]

/-- A process makes its first entry. -/
theorem Logged.add (h : Logged key f log ps) {i : Nat} {p p' : P} {e : α} (hi : ps[i]? = some p) (hnone : f i p = [])
    (he : key e = some i) (hp : f i p' = [e]) : Logged key f (log ++ [e]) (ps.set i p') := by
  intro j
  rw [List.filter_append, h j]
  by_cases hij : i = j
  · subst hij
    rw [logOf_set_self p' hi, logOf_eq hi, hnone, hp]
    simp [he]
  · rw [logOf_set_ne p' hij]
    simp [he, hij]

/-- An entry of no process. -/
theorem Logged.skip (h : Logged key f log ps) {e : α} (he : key e = none) : Logged key f (log ++ [e]) ps := by
  intro j
  rw [List.filter_append, h j]
  simp [he]

/-- A new process. -/
theorem Logged.concat (h : Logged key f log ps) {p : P} (hp : f ps.length p = []) : Logged key f log (ps ++ [p]) := by
  intro j
  rw [h j]
  unfold logOf
  rcases Nat.lt_trichotomy j ps.length with hlt | rfl | hgt
  · rw [List.getElem?_append_left hlt]
  · simp [hp]
  · rw [List.getElem?_eq_none (Nat.le_of_lt hgt), List.getElem?_eq_none (by simp; omega)]

theorem Logged.congr (h : Logged key f log ps) {ps' : List P} (hps : ∀ i, logOf f ps' i = logOf f ps i) :
    Logged key f log ps' := by
  intro j
  rw [h j, hps j]

end

end Pool
