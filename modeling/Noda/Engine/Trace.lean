import Noda.Engine.Executor

/-!
# Lawful traces

What the log of a run may look like, without the state that produces it: `allowed` says which events may follow a given
past, and a log is lawful (`Lawful`) when each of its events is allowed by the events before it.  A node is dispatched
once every one of its join groups has received an arrival, it works until it leaves early, fails or completes, and only
a completed node follows edges, along its final output, and releases the outputs it consumes.

* `Lawful.ends_unique`: a node ends in one way only;
* `Lawful.exists_arrival`: a dispatched node has an arrival from every group of its sources.
-/

namespace Noda.Engine

variable {D : Type}

/-- The event ends the work of `n`. -/
def Event.Ends (n : String) : Event D → Prop
  | .leftEarly m => m = n
  | .failed m _ => m = n
  | .completed m _ => m = n
  | _ => False

/-- The node has been dispatched, and nothing has ended its work. -/
def Working (past : List (Event D)) (n : String) : Prop :=
  .dispatched n ∈ past ∧ ∀ e ∈ past, ¬ e.Ends n

/-- The node has completed, with some output. -/
def Completed (past : List (Event D)) (n : String) : Prop := ∃ o, .completed n o ∈ past

def MayExecute (g : CompiledGraph) (past : List (Event D)) (n : String) : Prop :=
  ∀ r, .stored n r ∈ past → outcome (g.node n) r = some "error" ∧ retryPolicies g n ≠ []

/-- The event may come after the events `past`. -/
def allowed (g : CompiledGraph) : Event D → List (Event D) → Prop
  | .dispatched n, past =>
    n ∈ g.nodes ∧ .dispatched n ∉ past ∧
      ∀ i < g.groupCount n, ∃ m o, .arrival m o n ∈ past ∧ g.groupOf n m = some i
  | .leftEarly n, past => Working past n
  | .executed n _ r, past => Working past n ∧ MayExecute g past n ∧ ∃ r₀, r = executeNode (g.node n) r₀
  | .stored n r, past => Working past n ∧ MayExecute g past n ∧ ∃ services, .executed n services r ∈ past
  | .failed n _, past => Working past n
  | .cancelled n, past => ∃ e, .failed n e ∈ past
  | .completed n o, past =>
    Working past n ∧ (∃ r, .stored n r ∈ past ∧ outcome (g.node n) r = some o) ∧ (o = "error" → g.targets n o ≠ [])
  | .released n key, past => Completed past n ∧ key ∈ consumedKeys g n ∧ .released n key ∉ past
  | .evicted n key, past => key ∈ consumedKeys g n ∧ ∀ c, key ∈ consumedKeys g c → .released c key ∈ past
  | .arrival n o t, past => .completed n o ∈ past ∧ t ∈ g.targets n o
  | .ctxEnded _, _ => True

def Lawful (g : CompiledGraph) (log : List (Event D)) : Prop := Transition.Justified (allowed g) log

namespace Lawful

variable {g : CompiledGraph} {log : List (Event D)} {n m t o o' key : String} {e e' : Event D}

private theorem working_of_ends (h : allowed g e log) (he : e.Ends n) : Working log n := by
  cases e with
  | leftEarly m => cases he; exact h
  | failed m x => cases he; exact h
  | completed m o => cases he; exact h.1
  | _ => exact he.elim

/-- A node ends in one way only. -/
theorem ends_unique (h : Lawful g log) (he : e ∈ log) (he' : e' ∈ log) (hn : e.Ends n) (hn' : e'.Ends n) : e = e' := by
  induction log with
  | nil => cases he
  | cons x log ih =>
    rcases List.mem_cons.1 he with rfl | hl <;> rcases List.mem_cons.1 he' with rfl | hl'
    · rfl
    · exact absurd hn' ((working_of_ends h.1 hn).2 e' hl')
    · exact absurd hn ((working_of_ends h.1 hn').2 e hl)
    · exact ih h.2 hl hl'

theorem completed_unique (h : Lawful g log) (ho : .completed n o ∈ log) (ho' : .completed n o' ∈ log) : o = o' := by
  have := h.ends_unique (n := n) ho ho' rfl rfl
  simpa using this

/-- The events that only a dispatched node takes part in. -/
theorem dispatched_of_ends (h : Lawful g log) (he : e ∈ log) (hn : e.Ends n) : .dispatched n ∈ log := by
  obtain ⟨later, past, rfl, ha, -⟩ := h.of_mem he
  have := (working_of_ends ha hn).1
  simp [this]

theorem completed_of_arrival (h : Lawful g log) (ha : .arrival n o t ∈ log) :
    .completed n o ∈ log ∧ t ∈ g.targets n o := by
  obtain ⟨later, past, rfl, ⟨hc, ht⟩, -⟩ := h.of_mem ha
  exact ⟨by simp [hc], ht⟩

theorem dispatched_mem (h : Lawful g log) (hd : .dispatched n ∈ log) : n ∈ g.nodes := by
  obtain ⟨later, past, rfl, ha, -⟩ := h.of_mem hd
  exact ha.1

theorem exists_arrival (h : Lawful g log) (hg : Compiled g) (hd : .dispatched t ∈ log) (hm : m ∈ g.sources t) :
    ∃ m' o, .arrival m' o t ∈ log ∧ ExclusiveChain g t m' m := by
  obtain ⟨later, past, rfl, ⟨-, -, ha⟩, hp⟩ := h.of_mem hd
  obtain ⟨i, hi, hlt⟩ := hg.group_lt hm
  obtain ⟨m', o, hmem, hi'⟩ := ha i hlt
  have hsrc : m' ∈ g.sources t := hg.mem_sources.2 ⟨o, (Lawful.completed_of_arrival hp hmem).2⟩
  exact ⟨m', o, by simp [hmem], (hg.group_iff hsrc hm).1 (hi'.trans hi.symm)⟩

theorem dispatched_of_executed (h : Lawful g log) {services : List (String × D)} {r : ExecResult D}
    (hx : .executed n services r ∈ log) : .dispatched n ∈ log := by
  obtain ⟨later, past, rfl, ha, -⟩ := h.of_mem hx
  simp [ha.1.1]

theorem dispatched_of_stored (h : Lawful g log) {r : ExecResult D} (hr : .stored n r ∈ log) : .dispatched n ∈ log := by
  obtain ⟨later, past, rfl, ha, -⟩ := h.of_mem hr
  simp [ha.1.1]

theorem completed_of_released (h : Lawful g log) (hr : .released n key ∈ log) : Completed log n := by
  obtain ⟨later, past, rfl, ⟨⟨o, ho⟩, -⟩, -⟩ := h.of_mem hr
  exact ⟨o, by simp [ho]⟩

end Lawful

/-! ### Releases of an output key -/

/-- The nodes that have released a key. -/
def releasers (key : String) (log : List (Event D)) : List String :=
  log.filterMap fun
    | .released c k => if k = key then some c else none
    | _ => none

variable {g : CompiledGraph} {log : List (Event D)} {key c : String}

private theorem mem_releasers : c ∈ releasers key log ↔ .released c key ∈ log := by
  rw [releasers, List.mem_filterMap]
  constructor
  · rintro ⟨e, he, hc⟩
    cases e with
    | released c' k =>
      simp only [Option.ite_none_right_eq_some, Option.some.injEq] at hc
      rw [← hc.1, ← hc.2]
      exact he
    | _ => cases hc
  · exact fun h => ⟨_, h, if_pos rfl⟩

theorem releasers_cons_of_ne {e : Event D} (h : ∀ c, e ≠ .released c key) :
    releasers key (e :: log) = releasers key log := by
  cases e with
  | released c' k =>
    have hk : k ≠ key := fun hk => h c' (hk ▸ rfl)
    simp [releasers, hk]
  | _ => rfl

theorem releasers_cons_self : releasers key (.released c key :: log) = c :: releasers key log := by
  simp [releasers]

namespace Lawful

private theorem nodup_releasers (h : Lawful g log) (key : String) : (releasers key log).Nodup := by
  induction log with
  | nil => simp [releasers]
  | cons e log ih =>
    by_cases he : ∃ c, e = .released c key
    · obtain ⟨c, rfl⟩ := he
      rw [releasers_cons_self, List.nodup_cons, mem_releasers]
      exact ⟨h.1.2.2, ih h.2⟩
    · rw [releasers_cons_of_ne (not_exists.1 he)]
      exact ih h.2

private theorem consumed_of_released (h : Lawful g log) (hc : .released c key ∈ log) : key ∈ consumedKeys g c := by
  obtain ⟨later, past, rfl, ⟨-, hk, -⟩, -⟩ := h.of_mem hc
  exact hk

/-- A tracked key has at most as many releases as consumers, and all consumers have released it when the numbers
agree. -/
theorem releasers_le (h : Lawful g log) (hg : Compiled g) {n : String} (hn : Tracked g n) :
    (releasers (g.outputKey n) log).length ≤ (consumerSet g n).length ∧
    ((releasers (g.outputKey n) log).length = (consumerSet g n).length →
      ∀ c ∈ consumerSet g n, .released c (g.outputKey n) ∈ log) := by
  have hsub : releasers (g.outputKey n) log ⊆ consumerSet g n := by
    intro c hc
    exact (consumer_of_key hg hn.1 (h.consumed_of_released (mem_releasers.1 hc))).2
  have hperm := List.subperm_of_subset (h.nodup_releasers (g.outputKey n)) hsub
  refine ⟨hperm.length_le, fun heq c hc => ?_⟩
  exact mem_releasers.1 ((hperm.perm_of_length_le heq.ge).mem_iff.2 hc)

end Lawful

end Noda.Engine
