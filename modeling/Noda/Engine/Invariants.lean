import Noda.Engine.Local

/-!
# Invariants of a run

`Inv g s` ties the shared state of a run to its log: the goroutines are the dispatched nodes, each is where the log says
(`LocalOk`), the flags of a join are set for the groups that have an arrival, its counter is the number of set flags
less the arrivals that are not counted yet, and a node with sources has been dispatched exactly when the counter has
reached the number of its groups.

* `inv_step`, `inv_of_reachable`: every step of a run keeps the invariant, so it holds in every reachable state.
-/

namespace Noda.Engine

variable {D : Type} {g : CompiledGraph} {reg : Registries D} {s s' : RunState D} {n t : String} {pc pc' : Pc D}
  {eff : Effect D} {i : Nat}

def Pc.isArriving (t : String) : Pc D → Bool
  | .arriving _ t' _ => t' = t
  | _ => false

/-- The number of goroutines that have set a flag of `t` and not counted it yet. -/
def RunState.arriving (s : RunState D) (t : String) : Nat := s.goroutines.countP fun p => p.2.isArriving t

/-- The goroutines are the dispatched nodes, and the log tells where they are. -/
structure GoroutinesOk (g : CompiledGraph) (s : RunState D) : Prop where
  lawful : Lawful g s.log
  nodup : (s.goroutines.map Prod.fst).Nodup
  mem_iff : ∀ n, n ∈ s.goroutines.map Prod.fst ↔ .dispatched n ∈ s.log
  localOk : ∀ n pc, (n, pc) ∈ s.goroutines → LocalOk g s.log n pc

/-- The join bookkeeping agrees with the arrivals in the log. -/
structure JoinsOk (g : CompiledGraph) (s : RunState D) : Prop where
  seen_length : ∀ t, (s.groupSeen t).length = g.groupCount t
  seen_iff : ∀ t i, (s.groupSeen t)[i]? = some true ↔ ∃ m o, .arrival m o t ∈ s.log ∧ g.groupOf t m = some i
  arrived_add : ∀ t, s.arrived t + s.arriving t = (s.groupSeen t).count true
  dispatched_iff : ∀ t, g.sources t ≠ [] → (.dispatched t ∈ s.log ↔ s.arrived t = g.groupCount t)

/-- The entry nodes are dispatched, or still to be started. -/
structure EntriesOk (g : CompiledGraph) (s : RunState D) : Prop where
  nodup : s.toStart.Nodup
  entry : ∀ n ∈ s.toStart, n ∈ g.entryNodes ∧ .dispatched n ∉ s.log
  started : ∀ n ∈ g.entryNodes, n ∈ s.toStart ∨ .dispatched n ∈ s.log

/-- The invariant of a run. -/
structure Inv (g : CompiledGraph) (s : RunState D) : Prop where
  goroutines : GoroutinesOk g s
  joins : JoinsOk g s
  refs : RefsOk g s
  entries : EntriesOk g s
  calm : s.panicked = false

/-! ### Effects -/

section effects

variable (h : ∀ t, eff ≠ .count t)
include h

theorem perform_goroutines : (s.perform g n eff).goroutines = s.goroutines := by
  cases eff <;> first | rfl | exact absurd rfl (h _)

private theorem perform_log : (s.perform g n eff).log = eff.event n ++ s.log := by
  cases eff <;> first | rfl | exact absurd rfl (h _)

private theorem perform_toStart : (s.perform g n eff).toStart = s.toStart := by
  cases eff <;> first | rfl | exact absurd rfl (h _)

private theorem perform_panicked (hp : eff ≠ .panic) : (s.perform g n eff).panicked = s.panicked := by
  cases eff <;> first | rfl | exact absurd rfl (h _) | exact absurd rfl hp

private theorem perform_arrived : (s.perform g n eff).arrived = s.arrived := by
  cases eff <;> first | rfl | exact absurd rfl (h _)

private theorem perform_groupSeen (ha : ∀ o t i, eff ≠ .arrive o t i) :
    (s.perform g n eff).groupSeen = s.groupSeen := by
  cases eff <;> first | rfl | exact absurd rfl (h _) | exact absurd rfl (ha _ _ _)

theorem perform_refs (hr : ∀ key, eff ≠ .release key) : (s.perform g n eff).refs = s.refs := by
  cases eff <;> first | rfl | exact absurd rfl (h _) | exact absurd rfl (hr _)

end effects

/-- An effect never dispatches, except when it counts an arrival. -/
theorem Effect.dispatched_notMem : .dispatched t ∉ eff.event n := by
  cases eff <;> simp [Effect.event]

theorem perform_mem_goroutines {x : String × Pc D} (hx : x ∈ (s.perform g n eff).goroutines) :
    x ∈ s.goroutines ∨ x.2 = .start := by
  cases eff with
  | count t =>
    simp only [RunState.perform] at hx
    split at hx
    · rcases List.mem_append.1 hx with hx | hx
      · exact .inl hx
      · rw [List.mem_singleton.1 hx]
        exact .inr rfl
    · exact .inl hx
  | _ => exact .inl hx

/-! ### Goroutines -/

theorem GoroutinesOk.dispatch (h : GoroutinesOk g s) (ha : allowed g (.dispatched t) s.log) :
    GoroutinesOk g (s.dispatch t) := by
  have hnew : t ∉ s.goroutines.map Prod.fst := fun ht => ha.2.1 ((h.mem_iff t).1 ht)
  refine ⟨⟨ha, h.lawful⟩, ?_, fun n => ?_, fun n pc hn => ?_⟩
  · simp only [RunState.dispatch, List.map_append, List.map_cons, List.map_nil]
    exact List.nodup_append.2 ⟨h.nodup, List.nodup_singleton t, fun a ha b hb hab => by simp_all⟩
  · simp [RunState.dispatch, ← h.mem_iff n, or_comm]
  · rcases List.mem_append.1 hn with hn | hn
    · exact (h.localOk n pc hn).frame ⟨id, nofun, nofun⟩
    · cases List.mem_singleton.1 hn
      refine ⟨⟨List.mem_cons_self .., fun e he hend => ?_⟩, fun r hr => ?_⟩
      · rcases List.mem_cons.1 he with rfl | he
        · exact hend
        · exact ha.2.1 (h.lawful.dispatched_of_ends he hend)
      · rcases List.mem_cons.1 hr with hr | hr
        · cases hr
        · exact absurd (h.lawful.dispatched_of_stored hr) ha.2.1

theorem mem_set_goroutines {x : String × Pc D} (hnd : (s.goroutines.map Prod.fst).Nodup)
    (hi : s.goroutines[i]? = some (n, pc)) (hx : x ∈ s.goroutines.set i (n, pc')) :
    x = (n, pc') ∨ x ∈ s.goroutines ∧ x.1 ≠ n := by
  obtain ⟨hlt, hget⟩ := List.getElem?_eq_some_iff.1 hi
  obtain ⟨j, hj, rfl⟩ := List.mem_iff_getElem.1 hx
  rw [List.length_set] at hj
  rw [List.getElem_set]
  split
  · exact .inl rfl
  · rename_i hij
    refine .inr ⟨List.getElem_mem _, fun hn => hij ?_⟩
    have hi' : i < (s.goroutines.map Prod.fst).length := by simpa using hlt
    have hj' : j < (s.goroutines.map Prod.fst).length := by simpa using hj
    have hname : (s.goroutines.map Prod.fst)[i] = (s.goroutines.map Prod.fst)[j] := by simp [hget, hn]
    exact hnd.getElem_inj_iff.1 hname

theorem map_fst_set (hi : s.goroutines[i]? = some (n, pc)) :
    (s.goroutines.set i (n, pc')).map Prod.fst = s.goroutines.map Prod.fst := by
  obtain ⟨hlt, hget⟩ := List.getElem?_eq_some_iff.1 hi
  rw [List.map_set]
  apply List.ext_getElem
  · simp
  · intro j h1 h2
    rw [List.getElem_set]
    split
    · rename_i hij
      subst hij
      simp [hget]
    · rfl

theorem GoroutinesOk.move (h : GoroutinesOk g s) (eff : Effect D) (hi : s.goroutines[i]? = some (n, pc))
    (hgo : s'.goroutines = s.goroutines.set i (n, pc')) (hlog : s'.log = eff.event n ++ s.log)
    (hlaw : Lawful g s'.log) (hloc : LocalOk g s'.log n pc') : GoroutinesOk g s' := by
  refine ⟨hlaw, ?_, fun m => ?_, fun m q hm => ?_⟩
  · rw [hgo, map_fst_set hi]
    exact h.nodup
  · rw [hgo, map_fst_set hi, hlog, List.mem_append, or_iff_right Effect.dispatched_notMem, h.mem_iff]
  · rw [hgo] at hm
    rcases mem_set_goroutines h.nodup hi hm with hm | ⟨hm, hne⟩
    · cases hm
      exact hloc
    · have hframe : ∀ es : List (Event D), (∀ e ∈ es, e.Foreign m) → LocalOk g (es ++ s.log) m q := by
        intro es hes
        induction es with
        | nil => exact h.localOk m q hm
        | cons e es ih =>
          exact (ih fun x hx => hes x (List.mem_cons_of_mem _ hx)).frame (hes e (List.mem_cons_self ..))
      rw [hlog]
      exact hframe _ fun e he => Effect.foreign he hne

/-! ### Counts of the eviction tracker -/

private theorem releasers_append {es log : List (Event D)} {key : String} (h : ∀ c, .released c key ∉ es) :
    releasers key (es ++ log) = releasers key log := by
  induction es with
  | nil => rfl
  | cons e es ih =>
    rw [List.cons_append, releasers_cons_of_ne, ih fun c hc => h c (List.mem_cons_of_mem _ hc)]
    rintro c rfl
    exact h c (List.mem_cons_self ..)

theorem RefsOk.of_log (h : RefsOk g s) (es : List (Event D)) (hrefs : s'.refs = s.refs) (hlog : s'.log = es ++ s.log)
    (hes : ∀ c key, .released c key ∉ es) : RefsOk g s' := by
  intro n hn
  rw [hrefs, hlog, releasers_append fun c => hes c _]
  exact h n hn

theorem RefsOk.release {key : String} (h : RefsOk g s) (hrefs : s'.refs = s.refs.modify key 0 (· - 1))
    (hlog : s'.log = .released n key :: s.log) : RefsOk g s' := by
  intro m hm
  have hold := h m hm
  rw [hrefs, hlog]
  by_cases hk : g.outputKey m = key
  · subst hk
    rw [releasers_cons_self, AList.modify, AList.lookup_insert, AList.getD_of_lookup hold, List.length_cons]
    congr 1
    omega
  · rw [AList.modify, AList.lookup_insert_ne hk, releasers_cons_of_ne, hold]
    rintro c heq
    cases heq
    exact hk rfl

/-! ### Joins -/

private theorem countP_set_add {α : Type} {p : α → Bool} {l : List α} {i : Nat} {a b : α} (h : l[i]? = some a) :
    (l.set i b).countP p + (if p a then 1 else 0) = l.countP p + (if p b then 1 else 0) := by
  obtain ⟨hlt, hget⟩ := List.getElem?_eq_some_iff.1 h
  have hle : (if p a then 1 else 0) ≤ l.countP p := by
    split
    · rename_i ha
      exact List.countP_pos_iff.2 ⟨a, List.mem_of_getElem? h, ha⟩
    · exact Nat.zero_le _
  rw [List.countP_set hlt, hget]
  omega

private theorem arriving_set (hi : s.goroutines[i]? = some (n, pc))
    (hgo : s'.goroutines = s.goroutines.set i (n, pc')) :
    s'.arriving t + (if pc.isArriving t then 1 else 0) = s.arriving t + (if pc'.isArriving t then 1 else 0) := by
  rw [RunState.arriving, hgo]
  exact countP_set_add hi

theorem JoinsOk.of_log (h : JoinsOk g s) (es : List (Event D)) (hseen : s'.groupSeen = s.groupSeen)
    (harr : s'.arrived = s.arrived) (hgo : ∀ t, s'.arriving t = s.arriving t) (hlog : s'.log = es ++ s.log)
    (hes : ∀ m o t, .arrival m o t ∉ es) (hes' : ∀ t, .dispatched t ∉ es) : JoinsOk g s' := by
  refine ⟨fun t => ?_, fun t i => ?_, fun t => ?_, fun t ht => ?_⟩
  · rw [hseen]; exact h.seen_length t
  · rw [hseen, h.seen_iff]
    simp [hlog, hes]
  · rw [harr, hgo, hseen]; exact h.arrived_add t
  · rw [harr, hlog, List.mem_append, or_iff_right (hes' t)]
    exact h.dispatched_iff t ht

/-- An edge into `t` is followed: the flag of its source's group is set, if it was not. -/
theorem JoinsOk.arrive (h : JoinsOk g s) {o : String} {group : Nat} {seen : Bool} (hgroup : g.groupOf t n = some group)
    (hb : (s.groupSeen t)[group]? = some seen)
    (hseen : s'.groupSeen = Function.update s.groupSeen t ((s.groupSeen t).set group true))
    (harr : s'.arrived = s.arrived)
    (hgo : ∀ x, s'.arriving x = s.arriving x + if x = t ∧ seen = false then 1 else 0)
    (hlog : s'.log = .arrival n o t :: s.log) : JoinsOk g s' := by
  obtain ⟨hlt, -⟩ := List.getElem?_eq_some_iff.1 hb
  refine ⟨fun x => ?_, fun x i => ?_, fun x => ?_, fun x hx => ?_⟩
  · rw [hseen]
    by_cases hxt : x = t
    · subst hxt; simp [h.seen_length x]
    · simp [Function.update_of_ne hxt, h.seen_length x]
  · rw [hseen, hlog]
    by_cases hxt : x = t
    · subst hxt
      rw [Function.update_self, List.getElem?_set]
      by_cases hig : group = i
      · subst hig
        simp only [↓reduceIte, hlt, true_iff]
        exact ⟨n, o, List.mem_cons_self .., hgroup⟩
      · rw [if_neg hig, h.seen_iff]
        constructor
        · rintro ⟨m, o', hm, hi⟩
          exact ⟨m, o', List.mem_cons_of_mem _ hm, hi⟩
        · rintro ⟨m, o', hm, hi⟩
          rcases List.mem_cons.1 hm with hm | hm
          · cases hm
            exact absurd (Option.some.inj (hgroup.symm.trans hi)) hig
          · exact ⟨m, o', hm, hi⟩
    · rw [Function.update_of_ne hxt, h.seen_iff]
      simp [hxt]
  · rw [harr, hgo, hseen]
    have hadd := h.arrived_add x
    by_cases hxt : x = t
    · subst hxt
      have hcount := countP_set_add (p := (· == true)) (b := true) hb
      rw [Function.update_self, List.count]
      rw [List.count] at hadd
      cases seen with
      | true =>
        simp only [beq_self_eq_true, ↓reduceIte, Bool.true_eq_false, and_false] at hcount ⊢
        omega
      | false =>
        simp only [Bool.false_beq, Bool.not_true, Bool.false_eq_true, ↓reduceIte, beq_self_eq_true,
          and_self] at hcount ⊢
        omega
    · rw [Function.update_of_ne hxt]
      simpa [hxt] using hadd
  · rw [harr, hlog, ← h.dispatched_iff x hx]
    simp

theorem JoinsOk.all_arrived (h : JoinsOk g s) (hall : g.groupCount t ≤ s.arrived t + s.arriving t) {i : Nat}
    (hi : i < g.groupCount t) : ∃ m o, .arrival m o t ∈ s.log ∧ g.groupOf t m = some i := by
  rw [← h.seen_iff]
  have hlen := h.seen_length t
  have hcount : (s.groupSeen t).count true = (s.groupSeen t).length := by
    have hle := List.count_le_length (a := true) (l := s.groupSeen t)
    have hadd := h.arrived_add t
    omega
  rw [List.count_eq_length] at hcount
  have hlt : i < (s.groupSeen t).length := by omega
  rw [List.getElem?_eq_getElem hlt, ← hcount _ (List.getElem_mem hlt)]

theorem JoinsOk.count (h : JoinsOk g s) (hpos : 0 < s.arriving t) (hseen : s'.groupSeen = s.groupSeen)
    (harr : s'.arrived = Function.update s.arrived t (s.arrived t + 1))
    (hgo : ∀ x, s'.arriving x + (if x = t then 1 else 0) = s.arriving x)
    (hlog : s'.log = if s.arrived t + 1 = g.groupCount t then .dispatched t :: s.log else s.log) : JoinsOk g s' := by
  refine ⟨fun x => ?_, fun x i => ?_, fun x => ?_, fun x hx => ?_⟩
  · rw [hseen]; exact h.seen_length x
  · rw [hseen, hlog, h.seen_iff]
    split <;> simp
  · rw [harr, hseen]
    have hadd := h.arrived_add x
    have hx := hgo x
    by_cases hxt : x = t
    · subst hxt
      rw [if_pos rfl] at hx
      rw [Function.update_self]
      omega
    · rw [if_neg hxt] at hx
      rw [Function.update_of_ne hxt]
      omega
  · rw [harr, hlog]
    have hd := h.dispatched_iff x hx
    by_cases hxt : x = t
    · subst hxt
      rw [Function.update_self]
      -- the counter cannot have reached the group count before: this flag was not counted yet
      have hle := List.count_le_length (a := true) (l := s.groupSeen x)
      have hadd := h.arrived_add x
      have hlen := h.seen_length x
      have hnot : .dispatched x ∉ s.log := by
        rw [hd]
        omega
      split
      · rename_i heq; simp [heq]
      · rename_i hne; simp [hne, hnot]
    · rw [Function.update_of_ne hxt, ← hd]
      split <;> simp [hxt]

/-! ### Steps -/

private theorem Move.isArriving (hm : Move g reg s n pc pc' eff) (hc : ∀ t, eff ≠ .count t)
    (ha : ∀ o t i, eff ≠ .arrive o t i) : pc.isArriving t = false ∧ pc'.isArriving t = false := by
  cases hm <;> first | exact ⟨rfl, rfl⟩ | exact absurd rfl (hc _) | exact absurd rfl (ha _ _ _)

theorem Compiled.groupCount_entry (hg : Compiled g) (hn : n ∈ g.entryNodes) : g.groupCount n = 0 := by
  by_contra hne
  obtain ⟨m, hm, -⟩ := hg.group_source (Nat.pos_of_ne_zero hne)
  rw [(hg.entry_iff.1 hn).2] at hm
  exact List.not_mem_nil hm

theorem Compiled.sources_ne_nil (hg : Compiled g) (hn : n ∈ g.nodes) (hpos : 0 < g.groupCount n) :
    g.sources n ≠ [] := by
  intro hs
  have hzero := hg.groupCount_entry (hg.entry_iff.2 ⟨hn, hs⟩)
  omega

private theorem inv_startEntry (hg : Compiled g) (h : Inv g s) {ts : List String} (hts : s.toStart = t :: ts) :
    Inv g (RunState.dispatch { s with toStart := ts } t) := by
  have hnd := List.nodup_cons.1 (hts ▸ h.entries.nodup)
  obtain ⟨hent, hnot⟩ := h.entries.entry t (hts ▸ List.mem_cons_self ..)
  obtain ⟨hnode, hsrc⟩ := hg.entry_iff.1 hent
  have hallowed : allowed g (.dispatched t) s.log := by
    refine ⟨hnode, hnot, fun i hi => ?_⟩
    rw [hg.groupCount_entry hent] at hi
    exact absurd hi (Nat.not_lt_zero i)
  have hgo : GoroutinesOk g { s with toStart := ts } :=
    ⟨h.goroutines.lawful, h.goroutines.nodup, h.goroutines.mem_iff, h.goroutines.localOk⟩
  refine ⟨hgo.dispatch hallowed, ⟨h.joins.seen_length, fun x i => ?_, fun x => ?_, fun x hx => ?_⟩, ?_,
    ⟨hnd.2, fun n hn => ?_, fun n hn => ?_⟩, h.calm⟩
  · simpa [RunState.dispatch] using h.joins.seen_iff x i
  · simpa [RunState.dispatch, RunState.arriving, Pc.isArriving] using h.joins.arrived_add x
  · have hxt : x ≠ t := fun hxt => hx (hxt ▸ hsrc)
    simpa [RunState.dispatch, hxt] using h.joins.dispatched_iff x hx
  · exact h.refs.of_log [.dispatched t] rfl rfl (by simp)
  · obtain ⟨h1, h2⟩ := h.entries.entry n (hts ▸ List.mem_cons_of_mem _ hn)
    refine ⟨h1, fun hd => ?_⟩
    rcases List.mem_cons.1 hd with hd | hd
    · cases hd; exact hnd.1 hn
    · exact h2 hd
  · rcases h.entries.started n hn with h1 | h1
    · rw [hts, List.mem_cons] at h1
      rcases h1 with rfl | h1
      · exact .inr (List.mem_cons_self ..)
      · exact .inl h1
    · exact .inr (List.mem_cons_of_mem _ h1)

private theorem inv_count (hg : Compiled g) (h : Inv g s) {o : String} {ts : List String}
    (hi : s.goroutines[i]? = some (n, .arriving o t ts)) :
    Inv g (RunState.perform g { s with goroutines := s.goroutines.set i (n, .following o ts) } n (.count t)) := by
  have hloc := h.goroutines.localOk n _ (List.mem_of_getElem? hi)
  obtain ⟨hc, hr, hf, harr⟩ := hloc
  have htgt : t ∈ g.targets n o := (h.goroutines.lawful.completed_of_arrival harr).2
  have hsrc : g.sources t ≠ [] := List.ne_nil_of_mem (hg.mem_sources.2 ⟨o, htgt⟩)
  have hne : t ∉ g.entryNodes := fun hent => hsrc (hg.entry_iff.1 hent).2
  have hpos : 0 < s.arriving t :=
    List.countP_pos_iff.2 ⟨_, List.mem_of_getElem? hi, by simp [Pc.isArriving]⟩
  set s₁ : RunState D := { s with
    goroutines := s.goroutines.set i (n, .following o ts)
    arrived := Function.update s.arrived t (s.arrived t + 1) }
  have hgo : GoroutinesOk g s₁ :=
    h.goroutines.move (.count t) hi rfl rfl h.goroutines.lawful ⟨hc, hr, hf⟩
  have hset : ∀ x, s₁.arriving x + (if x = t then 1 else 0) = s.arriving x := by
    intro x
    have hcount : s₁.arriving x + _ = _ := arriving_set hi rfl
    simpa [Pc.isArriving, eq_comm] using hcount
  have hperform : RunState.perform g { s with goroutines := s.goroutines.set i (n, .following o ts) } n (.count t) =
      if s.arrived t + 1 = g.groupCount t then s₁.dispatch t else s₁ := by
    simp [RunState.perform, s₁]
  rw [hperform]
  have hjoins := h.joins
  by_cases heq : s.arrived t + 1 = g.groupCount t
  · rw [if_pos heq]
    have hnot : .dispatched t ∉ s.log := by
      rw [hjoins.dispatched_iff t hsrc]
      omega
    have hallowed : allowed g (.dispatched t) s.log :=
      ⟨hg.target_mem htgt, hnot, fun i hi => hjoins.all_arrived (by omega) hi⟩
    refine ⟨hgo.dispatch hallowed, hjoins.count hpos rfl rfl (fun x => ?_) (by rw [if_pos heq]; rfl), ?_,
      ⟨h.entries.nodup, fun x hx => ?_, fun x hx => ?_⟩, h.calm⟩
    · simpa [RunState.dispatch, RunState.arriving, Pc.isArriving] using hset x
    · exact h.refs.of_log [.dispatched t] rfl rfl (by simp)
    · obtain ⟨h1, h2⟩ := h.entries.entry x hx
      have hxt : x ≠ t := fun hxt => hne (hxt ▸ h1)
      exact ⟨h1, by simpa [RunState.dispatch, hxt] using h2⟩
    · exact (h.entries.started x hx).imp_right (List.mem_cons_of_mem _)
  · rw [if_neg heq]
    exact ⟨hgo, hjoins.count hpos rfl rfl hset (by rw [if_neg heq]), h.refs.of_log [] rfl rfl (by simp),
      ⟨h.entries.nodup, h.entries.entry, h.entries.started⟩, h.calm⟩

/-- An edge is followed, or the joins are left alone. -/
private theorem joins_move (hg : Compiled g) (h : Inv g s) (hi : s.goroutines[i]? = some (n, pc))
    (hm : Move g reg s n pc pc' eff) (hcount : ∀ t, eff ≠ .count t) :
    JoinsOk g (RunState.perform g { s with goroutines := s.goroutines.set i (n, pc') } n eff) := by
  have hloc := h.goroutines.localOk n pc (List.mem_of_getElem? hi)
  set s₁ : RunState D := { s with goroutines := s.goroutines.set i (n, pc') }
  have hlog : (s₁.perform g n eff).log = eff.event n ++ s.log := perform_log hcount
  have hgor : (s₁.perform g n eff).goroutines = s.goroutines.set i (n, pc') := perform_goroutines hcount
  have hset := fun x => arriving_set (t := x) hi hgor
  by_cases harrive : ∃ o t k, eff = .arrive o t k
  · obtain ⟨o, t, k, rfl⟩ := harrive
    cases hm with
    | repeated o t ts hb | arrive o t ts hb =>
      obtain ⟨j, hj, -⟩ := hg.group_lt (hg.mem_sources.2 ⟨o, hloc.2.2.edge t (List.mem_cons_self ..)⟩)
      rw [hj] at hb
      refine h.joins.arrive hj hb (by rw [hj]; rfl) rfl (fun x => ?_) hlog
      simpa [Pc.isArriving, eq_comm] using hset x
  · replace harrive : ∀ o t k, eff ≠ .arrive o t k := fun o t k he => harrive ⟨o, t, k, he⟩
    refine h.joins.of_log _ (perform_groupSeen hcount harrive) (perform_arrived hcount) (fun x => ?_) hlog
      (fun m o t he => ?_) fun t => Effect.dispatched_notMem
    · obtain ⟨h1, h2⟩ := hm.isArriving (t := x) hcount harrive
      simpa [h1, h2] using hset x
    · cases eff with
      | arrive o t k => exact harrive _ _ _ rfl
      | _ => simp [Effect.event] at he

/-- A key is released, or the counts are left alone. -/
private theorem refs_perform (h : RefsOk g s) (hcount : ∀ t, eff ≠ .count t) : RefsOk g (s.perform g n eff) := by
  have hlog : (s.perform g n eff).log = eff.event n ++ s.log := perform_log hcount
  by_cases hrel : ∃ key, eff = .release key
  · obtain ⟨key, rfl⟩ := hrel
    exact h.release rfl hlog
  · replace hrel : ∀ key, eff ≠ .release key := fun key he => hrel ⟨key, he⟩
    refine h.of_log _ (perform_refs hcount hrel) hlog fun c key he => ?_
    cases eff with
    | release key => exact hrel _ rfl
    | _ => simp [Effect.event] at he

private theorem entries_perform (h : EntriesOk g s) (hcount : ∀ t, eff ≠ .count t) :
    EntriesOk g (s.perform g n eff) := by
  have hlog : (s.perform g n eff).log = eff.event n ++ s.log := perform_log hcount
  have hstart : (s.perform g n eff).toStart = s.toStart := perform_toStart hcount
  have hmem : ∀ x, .dispatched x ∈ (s.perform g n eff).log ↔ .dispatched x ∈ s.log := by
    intro x
    rw [hlog, List.mem_append, or_iff_right Effect.dispatched_notMem]
  refine ⟨hstart ▸ h.nodup, fun x hx => ?_, fun x hx => ?_⟩
  · rw [hmem]
    exact h.entry x (hstart ▸ hx)
  · rw [hmem, hstart]
    exact h.started x hx

private theorem inv_move (hg : Compiled g) (h : Inv g s) (hi : s.goroutines[i]? = some (n, pc))
    (hm : Move g reg s n pc pc' eff) :
    Inv g (RunState.perform g { s with goroutines := s.goroutines.set i (n, pc') } n eff) := by
  -- only the effect that counts an arrival can dispatch a node
  by_cases hcount : ∃ t, eff = .count t
  · obtain ⟨t, rfl⟩ := hcount
    cases hm with
    | count o t ts => exact inv_count hg h hi
  · replace hcount : ∀ t, eff ≠ .count t := fun t ht => hcount ⟨t, ht⟩
    have hloc := h.goroutines.localOk n pc (List.mem_of_getElem? hi)
    obtain ⟨hpanic, hlaw, hloc'⟩ := LocalOk.move hg h.goroutines.lawful h.refs h.joins.seen_length hm hloc
    set s₁ : RunState D := { s with goroutines := s.goroutines.set i (n, pc') }
    have hlog : (s₁.perform g n eff).log = eff.event n ++ s.log := perform_log hcount
    have hgor : (s₁.perform g n eff).goroutines = s.goroutines.set i (n, pc') := perform_goroutines hcount
    have hrefs : RefsOk g s₁ := h.refs
    have hentries : EntriesOk g s₁ := ⟨h.entries.nodup, h.entries.entry, h.entries.started⟩
    refine ⟨h.goroutines.move eff hi hgor hlog (hlog ▸ hlaw) (hlog ▸ hloc'), joins_move hg h hi hm hcount,
      refs_perform hrefs hcount, entries_perform hentries hcount, ?_⟩
    rw [perform_panicked hcount hpanic]
    exact h.calm

/-- Every step of a run keeps the invariant. -/
theorem inv_step (hg : Compiled g) (h : Inv g s) (hs : StepCases g reg s s') : Inv g s' := by
  cases hs with
  | startEntry t ts hts => exact inv_startEntry hg h hts
  | move i n pc pc' eff hi hm => exact inv_move hg h hi hm
  | ctxEnd e hc =>
    refine ⟨⟨⟨trivial, h.goroutines.lawful⟩, h.goroutines.nodup, fun n => ?_, fun n pc hn => ?_⟩, ?_, ?_, ?_, h.calm⟩
    · simpa using h.goroutines.mem_iff n
    · exact (h.goroutines.localOk n pc hn).frame ⟨id, nofun, nofun⟩
    · exact h.joins.of_log [.ctxEnded e] rfl rfl (fun _ => rfl) rfl (by simp) (by simp)
    · exact h.refs.of_log [.ctxEnded e] rfl rfl (by simp)
    · exact ⟨h.entries.nodup, fun n hn => by simpa using h.entries.entry n hn,
        fun n hn => by simpa using h.entries.started n hn⟩
  | finish inherited hw =>
    exact ⟨⟨h.goroutines.lawful, h.goroutines.nodup, h.goroutines.mem_iff, h.goroutines.localOk⟩,
      ⟨h.joins.seen_length, h.joins.seen_iff, h.joins.arrived_add, h.joins.dispatched_iff⟩, h.refs,
      ⟨h.entries.nodup, h.entries.entry, h.entries.started⟩, h.calm⟩

theorem inv_initial (hg : Compiled g) (retain : Bool) : Inv g (initial (D := D) g retain) := by
  refine ⟨⟨trivial, List.nodup_nil, by simp [initial], by simp [initial]⟩, ⟨fun t => ?_, fun t i => ?_, fun t => ?_,
    fun t ht => ?_⟩, fun n hn => ?_, ⟨hg.entry_nodup, fun n hn => ⟨hn, by simp [initial]⟩, fun n hn => .inl hn⟩, rfl⟩
  · simp [initial]
  · simp [initial, List.getElem?_replicate]
  · simp [initial, RunState.arriving, List.count_replicate]
  · have hpos : 0 < g.groupCount t := by
      obtain ⟨m, hm⟩ := List.exists_mem_of_ne_nil _ ht
      obtain ⟨i, -, hi⟩ := hg.group_lt hm
      omega
    simp only [initial, List.not_mem_nil, false_iff]
    omega
  · have := refs_lookup hg hn
    simpa [initial, releasers] using this

/-- The invariant holds in every reachable state. -/
theorem inv_of_reachable (hg : Compiled g) {retain : Bool}
    (h : Transition.Reachable (step g reg) (initial g retain) s) : Inv g s := by
  refine h.invariant (inv_initial hg retain) fun s a s' hs ha => ?_
  exact inv_step hg hs (step_cases ha).2.2

end Noda.Engine
