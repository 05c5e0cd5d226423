import Mathlib.Data.List.Nodup
import Mathlib.Logic.Relation

/-!
# Breadth-first search

Two loops over a queue of pending vertices and a list of visited ones.  `closure` collects every vertex that can be
reached in at least one step from the queue; `search` stops as soon as a target leaves the queue.

* `mem_closure`: `closure` computes reachability;
* `search_eq_true`: `search` decides it.

Both take fuel.  A vertex enters the queue at most once after the start, so the length of the queue plus the number of
unvisited vertices of a finite universe is enough.
-/

namespace Worklist

variable {α : Type} [DecidableEq α] {next : α → List α}

/-- Mark the neighbours that are not visited yet and append them to the queue. -/
def visit : List α → List α → List α → List α × List α
  | [], queue, visited => (queue, visited)
  | t :: ts, queue, visited =>
    if t ∈ visited then visit ts queue visited else visit ts (queue ++ [t]) (t :: visited)

/-- Process the queue until it is empty; the result is the list of visited vertices. -/
def closure (next : α → List α) : Nat → List α → List α → List α
  | 0, _, visited => visited
  | _ + 1, [], visited => visited
  | fuel + 1, cur :: queue, visited =>
    let (queue, visited) := visit (next cur) queue visited
    closure next fuel queue visited

/-- Process the queue until the target is taken from it. -/
def search (next : α → List α) (target : α) : Nat → List α → List α → Bool
  | 0, _, _ => false
  | _ + 1, [], _ => false
  | fuel + 1, cur :: queue, visited =>
    if cur = target then true
    else
      let (queue, visited) := visit (next cur) queue visited
      search next target fuel queue visited

/-! ### One round -/

private theorem mem_visit_snd {x : α} {ts queue visited : List α} :
    x ∈ (visit ts queue visited).2 ↔ x ∈ visited ∨ x ∈ ts := by
  induction ts generalizing queue visited with
  | nil => simp [visit]
  | cons t ts ih =>
    rw [visit]
    split
    · rename_i ht
      rw [ih, List.mem_cons]
      constructor
      · rintro (h | h)
        · exact .inl h
        · exact .inr (.inr h)
      · rintro (h | rfl | h)
        · exact .inl h
        · exact .inl ht
        · exact .inr h
    · rw [ih, List.mem_cons, List.mem_cons, or_assoc, or_left_comm]

private theorem mem_visit_fst {x : α} {ts queue visited : List α} :
    x ∈ (visit ts queue visited).1 ↔ x ∈ queue ∨ (x ∈ ts ∧ x ∉ visited) := by
  induction ts generalizing queue visited with
  | nil => simp [visit]
  | cons t ts ih =>
    rw [visit]
    split
    · rename_i ht
      rw [ih, List.mem_cons]
      constructor
      · rintro (h | ⟨h, hv⟩)
        · exact .inl h
        · exact .inr ⟨.inr h, hv⟩
      · rintro (h | ⟨rfl | h, hv⟩)
        · exact .inl h
        · exact absurd ht hv
        · exact .inr ⟨h, hv⟩
    · rename_i ht
      rw [ih, List.mem_append, List.mem_singleton, List.mem_cons, List.mem_cons, not_or]
      constructor
      · rintro ((h | rfl) | ⟨h, -, hv⟩)
        · exact .inl h
        · exact .inr ⟨.inl rfl, ht⟩
        · exact .inr ⟨.inr h, hv⟩
      · rintro (h | ⟨rfl | h, hv⟩)
        · exact .inl (.inl h)
        · exact .inl (.inr rfl)
        · by_cases hxt : x = t
          · exact .inl (.inr hxt)
          · exact .inr ⟨h, hxt, hv⟩

/-- The vertices of the universe that are not visited. -/
def unvisited (univ visited : List α) : Nat := univ.countP (· ∉ visited)

private theorem unvisited_cons {univ visited : List α} (hnd : univ.Nodup) {t : α} (ht : t ∈ univ)
    (hv : t ∉ visited) : unvisited univ (t :: visited) + 1 = unvisited univ visited := by
  unfold unvisited
  induction univ with
  | nil => exact absurd ht (List.not_mem_nil)
  | cons u univ ih =>
    obtain ⟨hu, hnd⟩ := List.nodup_cons.1 hnd
    rw [List.countP_cons, List.countP_cons]
    rcases List.mem_cons.1 ht with rfl | ht
    · have hrest : univ.countP (fun x => decide (x ∉ t :: visited)) = univ.countP (fun x => decide (x ∉ visited)) := by
        refine List.countP_congr fun x hx => ?_
        have : x ≠ t := fun h => hu (h ▸ hx)
        simp [this]
      rw [hrest]
      simp [hv]
    · have hut : u ≠ t := fun h => hu (h ▸ ht)
      have := ih hnd ht
      simp only [List.mem_cons, hut, false_or] at this ⊢
      omega

/-- A round appends to the queue exactly as many vertices as it visits. -/
private theorem visit_length {univ : List α} (hnd : univ.Nodup) {ts : List α} (queue visited : List α)
    (hts : ∀ t ∈ ts, t ∈ univ) :
    (visit ts queue visited).1.length + unvisited univ (visit ts queue visited).2 =
      queue.length + unvisited univ visited := by
  induction ts generalizing queue visited with
  | nil => rfl
  | cons t ts ih =>
    obtain ⟨ht, hts⟩ := List.forall_mem_cons.1 hts
    rw [visit]
    split
    · exact ih _ _ hts
    · rename_i hv
      have h1 := unvisited_cons hnd ht hv
      rw [ih _ _ hts, List.length_append, List.length_singleton]
      omega

/-! ### The loops -/

private theorem closure_sound {fuel : Nat} {queue visited : List α} {x : α}
    (hx : x ∈ closure next fuel queue visited) :
    x ∈ visited ∨ ∃ q ∈ queue, Relation.TransGen (fun a b => b ∈ next a) q x := by
  induction fuel generalizing queue visited with
  | zero => exact .inl hx
  | succ fuel ih =>
    cases queue with
    | nil => exact .inl hx
    | cons cur queue =>
      rcases ih hx with h | ⟨q, hq, hr⟩
      · rcases mem_visit_snd.1 h with h | h
        · exact .inl h
        · exact .inr ⟨cur, List.mem_cons_self .., .single h⟩
      · rcases mem_visit_fst.1 hq with hq | ⟨hq, -⟩
        · exact .inr ⟨q, List.mem_cons_of_mem _ hq, hr⟩
        · exact .inr ⟨cur, List.mem_cons_self .., .head hq hr⟩

/-- With enough fuel the result contains the neighbours of the queue and those of its own members. -/
private theorem closure_closed {univ : List α} (hnd : univ.Nodup) (huniv : ∀ a, ∀ t ∈ next a, t ∈ univ)
    {fuel : Nat} (queue visited : List α) (hfuel : queue.length + unvisited univ visited ≤ fuel)
    (hinv : ∀ v ∈ visited, v ∈ queue ∨ ∀ t ∈ next v, t ∈ visited) :
    (∀ v ∈ visited, v ∈ closure next fuel queue visited) ∧
    (∀ q ∈ queue, ∀ t ∈ next q, t ∈ closure next fuel queue visited) ∧
    ∀ v ∈ closure next fuel queue visited, ∀ t ∈ next v, t ∈ closure next fuel queue visited := by
  induction fuel generalizing queue visited with
  | zero =>
    obtain rfl : queue = [] := List.length_eq_zero_iff.1 (by omega)
    refine ⟨fun v hv => hv, fun q hq => absurd hq (List.not_mem_nil), fun v hv t ht => ?_⟩
    rcases hinv v hv with h | h
    · exact absurd h (List.not_mem_nil)
    · exact h t ht
  | succ fuel ih =>
    cases queue with
    | nil =>
      refine ⟨fun v hv => hv, fun q hq => absurd hq (List.not_mem_nil), fun v hv t ht => ?_⟩
      rcases hinv v hv with h | h
      · exact absurd h (List.not_mem_nil)
      · exact h t ht
    | cons cur queue =>
      have hlen := visit_length hnd queue visited (huniv cur)
      have hinv' : ∀ v ∈ (visit (next cur) queue visited).2, v ∈ (visit (next cur) queue visited).1 ∨
          ∀ t ∈ next v, t ∈ (visit (next cur) queue visited).2 := by
        intro v hv
        by_cases hvv : v ∈ visited
        · rcases hinv v hvv with h | h
          · rcases List.mem_cons.1 h with rfl | h
            · exact .inr fun t ht => mem_visit_snd.2 (.inr ht)
            · exact .inl (mem_visit_fst.2 (.inl h))
          · exact .inr fun t ht => mem_visit_snd.2 (.inl (h t ht))
        · rcases mem_visit_snd.1 hv with h | h
          · exact absurd h hvv
          · exact .inl (mem_visit_fst.2 (.inr ⟨h, hvv⟩))
      rw [List.length_cons] at hfuel
      obtain ⟨h1, h2, h3⟩ := ih _ _ (by omega) hinv'
      refine ⟨fun v hv => h1 v (mem_visit_snd.2 (.inl hv)), fun q hq t ht => ?_, h3⟩
      rcases List.mem_cons.1 hq with rfl | hq
      · exact h1 t (mem_visit_snd.2 (.inr ht))
      · exact h2 q (mem_visit_fst.2 (.inl hq)) t ht

/-- From a single vertex, `closure` collects the vertices reachable in one step or more. -/
theorem mem_closure {univ : List α} (hnd : univ.Nodup) (huniv : ∀ a, ∀ t ∈ next a, t ∈ univ) {fuel : Nat} {a x : α}
    (hfuel : 1 + univ.length ≤ fuel) :
    x ∈ closure next fuel [a] [] ↔ Relation.TransGen (fun a b => b ∈ next a) a x := by
  constructor
  · intro h
    rcases closure_sound h with h | ⟨q, hq, hr⟩
    · exact absurd h (List.not_mem_nil)
    · rwa [List.mem_singleton.1 hq] at hr
  · intro h
    have hle : unvisited univ [] ≤ univ.length := List.countP_le_length
    have hfuel' : [a].length + unvisited univ [] ≤ fuel := by
      rw [List.length_singleton]
      omega
    obtain ⟨-, h2, h3⟩ := closure_closed hnd huniv [a] [] hfuel' (fun v hv => absurd hv (List.not_mem_nil))
    induction h with
    | single h => exact h2 a (List.mem_singleton_self a) _ h
    | tail _ h ih => exact h3 _ ih _ h

private theorem search_sound {target : α} {fuel : Nat} {queue visited : List α}
    (h : search next target fuel queue visited = true) :
    ∃ q ∈ queue, Relation.ReflTransGen (fun a b => b ∈ next a) q target := by
  induction fuel generalizing queue visited with
  | zero => simp [search] at h
  | succ fuel ih =>
    cases queue with
    | nil => simp [search] at h
    | cons cur queue =>
      rw [search] at h
      by_cases hc : cur = target
      · exact ⟨cur, List.mem_cons_self .., hc ▸ .refl⟩
      · rw [if_neg hc] at h
        obtain ⟨q, hq, hr⟩ := ih h
        rcases mem_visit_fst.1 hq with hq | ⟨hq, -⟩
        · exact ⟨q, List.mem_cons_of_mem _ hq, hr⟩
        · exact ⟨cur, List.mem_cons_self .., .head hq hr⟩

omit [DecidableEq α] in
/-- Once the queue is empty, the visited vertices are closed under `next` and miss the target. -/
private theorem search_exhausted {target : α} {visited : List α}
    (hinv : ∀ v ∈ visited, v ∈ ([] : List α) ∨ (v ≠ target ∧ ∀ t ∈ next v, t ∈ visited)) :
    ∃ V : α → Prop, (∀ v ∈ visited, V v) ∧ ¬ V target ∧ ∀ v, V v → ∀ t ∈ next v, V t := by
  refine ⟨(· ∈ visited), fun v hv => hv, fun ht => ?_, fun v hv t ht => ?_⟩
  · rcases hinv target ht with h | h
    · exact absurd h (List.not_mem_nil)
    · exact h.1 rfl
  · rcases hinv v hv with h | h
    · exact absurd h (List.not_mem_nil)
    · exact h.2 t ht

/-- A failed search leaves a set of vertices that contains the visited ones, is closed under `next` and misses the
target. -/
private theorem search_complete {univ : List α} (hnd : univ.Nodup) (huniv : ∀ a, ∀ t ∈ next a, t ∈ univ)
    {target : α} {fuel : Nat} (queue visited : List α) (hfuel : queue.length + unvisited univ visited ≤ fuel)
    (hinv : ∀ v ∈ visited, v ∈ queue ∨ (v ≠ target ∧ ∀ t ∈ next v, t ∈ visited))
    (h : search next target fuel queue visited = false) :
    ∃ V : α → Prop, (∀ v ∈ visited, V v) ∧ ¬ V target ∧ ∀ v, V v → ∀ t ∈ next v, V t := by
  induction fuel generalizing queue visited with
  | zero =>
    obtain rfl : queue = [] := List.length_eq_zero_iff.1 (by omega)
    exact search_exhausted hinv
  | succ fuel ih =>
    cases queue with
    | nil => exact search_exhausted hinv
    | cons cur queue =>
      rw [search] at h
      by_cases hc : cur = target
      · simp [hc] at h
      · rw [if_neg hc] at h
        have hlen := visit_length hnd queue visited (huniv cur)
        have hinv' : ∀ v ∈ (visit (next cur) queue visited).2, v ∈ (visit (next cur) queue visited).1 ∨
            (v ≠ target ∧ ∀ t ∈ next v, t ∈ (visit (next cur) queue visited).2) := by
          intro v hv
          by_cases hvv : v ∈ visited
          · rcases hinv v hvv with h | h
            · rcases List.mem_cons.1 h with rfl | h
              · exact .inr ⟨hc, fun t ht => mem_visit_snd.2 (.inr ht)⟩
              · exact .inl (mem_visit_fst.2 (.inl h))
            · exact .inr ⟨h.1, fun t ht => mem_visit_snd.2 (.inl (h.2 t ht))⟩
          · rcases mem_visit_snd.1 hv with h | h
            · exact absurd h hvv
            · exact .inl (mem_visit_fst.2 (.inr ⟨h, hvv⟩))
        rw [List.length_cons] at hfuel
        obtain ⟨V, h1, h2, h3⟩ := ih _ _ (by omega) hinv' h
        exact ⟨V, fun v hv => h1 v (mem_visit_snd.2 (.inl hv)), h2, h3⟩

theorem search_eq_true {univ : List α} (hnd : univ.Nodup) (huniv : ∀ a, ∀ t ∈ next a, t ∈ univ) {target : α}
    {fuel : Nat} {starts visited : List α} (hvis : ∀ x, x ∈ visited ↔ x ∈ starts)
    (hfuel : starts.length + univ.length ≤ fuel) :
    search next target fuel starts visited = true ↔
      ∃ s ∈ starts, Relation.ReflTransGen (fun a b => b ∈ next a) s target := by
  constructor
  · exact search_sound
  · rintro ⟨s, hs, hr⟩
    by_contra hf
    have hle : unvisited univ visited ≤ univ.length := List.countP_le_length
    obtain ⟨V, h1, h2, h3⟩ := search_complete hnd huniv _ visited (by omega)
      (fun v hv => .inl ((hvis v).1 hv)) (Bool.eq_false_iff.2 hf)
    have hV : ∀ x, Relation.ReflTransGen (fun a b => b ∈ next a) s x → V x := by
      intro x hx
      induction hx with
      | refl => exact h1 s ((hvis s).2 hs)
      | tail _ h ih => exact h3 _ ih _ h
    exact h2 (hV target hr)

end Worklist
