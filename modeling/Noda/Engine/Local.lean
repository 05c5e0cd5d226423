import Noda.Engine.Steps

/-!
# One goroutine and the log

`LocalOk g log n pc` says what the log tells about the node `n` when its goroutine is at `pc`: whether it still works,
which of the outputs it consumes it has released and which of its edges it has followed.  Events of other goroutines
keep it (`LocalOk.frame`), and so do the moves of the goroutine itself, whose events are allowed by the log
(`LocalOk.move`).
-/

namespace Noda.Engine

variable {D : Type} {g : CompiledGraph} {reg : Registries D} {s : RunState D} {log : List (Event D)} {n m : String}
  {pc pc' : Pc D}
  {eff : Effect D} {e : Event D}

/-- Of the keys `n` consumes, those in `keys` are still to be released. -/
structure Releasing (g : CompiledGraph) (log : List (Event D)) (n : String) (keys : List String) : Prop where
  nodup : keys.Nodup
  consumed : ∀ key ∈ keys, key ∈ consumedKeys g n
  released_iff : ∀ key ∈ consumedKeys g n, (.released n key ∈ log ↔ key ∉ keys)

/-- Of the edges of `n` along `o`, those to `targets` are still to be followed. -/
structure Following (g : CompiledGraph) (log : List (Event D)) (n o : String) (targets : List String) : Prop where
  edge : ∀ t ∈ targets, t ∈ g.targets n o
  arrived : ∀ t ∈ g.targets n o, t ∈ targets ∨ .arrival n o t ∈ log

/-- A retry needs a policy. -/
def RetryOk (g : CompiledGraph) (n : String) (retry : Option RetryLoop) : Prop :=
  retry ≠ none → retryPolicies g n ≠ []

/-- A result with which the node fires `o` has been stored. -/
def HasStored (g : CompiledGraph) (log : List (Event D)) (n o : String) : Prop :=
  ∃ r, .stored n r ∈ log ∧ outcome (g.node n) r = some o

/-- What the log tells about the goroutine of `n` at a program counter. -/
def LocalOk (g : CompiledGraph) (log : List (Event D)) (n : String) : Pc D → Prop
  | .start => Working log n ∧ MayExecute g log n
  | .dispatching retry => Working log n ∧ MayExecute g log n ∧ RetryOk g n retry
  | .executing retry _ => Working log n ∧ MayExecute g log n ∧ RetryOk g n retry
  | .storing retry r _ =>
    Working log n ∧ MayExecute g log n ∧ RetryOk g n retry ∧ ∃ services, .executed n services r ∈ log
  | .returned retry res =>
    Working log n ∧ RetryOk g n retry ∧
      ∀ o, res = .ok o → HasStored g log n o ∧
        (o = "error" → ∀ r, .stored n r ∈ log → outcome (g.node n) r = some "error")
  | .retrying _ => Working log n ∧ MayExecute g log n ∧ retryPolicies g n ≠ [] ∧ HasStored g log n "error"
  | .failing _ => Working log n
  | .cancelling => ∃ e, .failed n e ∈ log
  | .completing o keys => .completed n o ∈ log ∧ Releasing g log n keys
  | .evicting o key keys =>
    .completed n o ∈ log ∧ Releasing g log n keys ∧ key ∈ consumedKeys g n ∧
      ∀ c, key ∈ consumedKeys g c → .released c key ∈ log
  | .following o ts => .completed n o ∈ log ∧ Releasing g log n [] ∧ Following g log n o ts
  | .arriving o t ts =>
    .completed n o ∈ log ∧ Releasing g log n [] ∧ Following g log n o ts ∧ .arrival n o t ∈ log
  | .finished =>
    .leftEarly n ∈ log ∨ (∃ e, .failed n e ∈ log ∧ .cancelled n ∈ log) ∨
      ∃ o, .completed n o ∈ log ∧ Releasing g log n [] ∧ Following g log n o []

/-! ### Events of other goroutines -/

/-- The event is not about the work of `n`. -/
def Event.Foreign (n : String) (e : Event D) : Prop :=
  ¬ e.Ends n ∧ (∀ key, e ≠ .released n key) ∧ ∀ r, e ≠ .stored n r

theorem Working.frame (h : Working log n) (he : ¬ e.Ends n) : Working (e :: log) n := by
  refine ⟨List.mem_cons_of_mem _ h.1, fun x hx => ?_⟩
  rcases List.mem_cons.1 hx with rfl | hx
  · exact he
  · exact h.2 x hx

theorem MayExecute.frame (h : MayExecute g log n) (he : ∀ r, e ≠ .stored n r) : MayExecute g (e :: log) n := by
  intro r hr
  rcases List.mem_cons.1 hr with rfl | hr
  · exact absurd rfl (he r)
  · exact h r hr

theorem HasStored.frame {o : String} (h : HasStored g log n o) (e : Event D) : HasStored g (e :: log) n o := by
  obtain ⟨r, hr, ho⟩ := h
  exact ⟨r, List.mem_cons_of_mem _ hr, ho⟩

theorem Releasing.frame {keys : List String} (h : Releasing g log n keys) (he : ∀ key, e ≠ .released n key) :
    Releasing g (e :: log) n keys := by
  refine ⟨h.nodup, h.consumed, fun key hkey => ?_⟩
  rw [List.mem_cons, ← h.released_iff key hkey]
  exact or_iff_right (he key).symm

theorem Following.frame {o : String} {ts : List String} (h : Following g log n o ts) (e : Event D) :
    Following g (e :: log) n o ts := by
  refine ⟨h.edge, fun t ht => ?_⟩
  exact (h.arrived t ht).imp_right (List.mem_cons_of_mem _)

/-- An event of another goroutine does not concern this one. -/
theorem LocalOk.frame (h : LocalOk g log n pc) (he : e.Foreign n) : LocalOk g (e :: log) n pc := by
  have hmem : ∀ {x : Event D}, x ∈ log → x ∈ e :: log := List.mem_cons_of_mem _
  obtain ⟨hend, hrel, hst⟩ := he
  cases pc with
  | start => exact ⟨h.1.frame hend, h.2.frame hst⟩
  | dispatching retry => exact ⟨h.1.frame hend, h.2.1.frame hst, h.2.2⟩
  | executing retry services => exact ⟨h.1.frame hend, h.2.1.frame hst, h.2.2⟩
  | storing retry r avail =>
    obtain ⟨hw, he, hr, services, hx⟩ := h
    exact ⟨hw.frame hend, he.frame hst, hr, services, hmem hx⟩
  | returned retry res =>
    obtain ⟨hw, hr, hs⟩ := h
    refine ⟨hw.frame hend, hr, fun o ho => ⟨(hs o ho).1.frame e, fun he r hr => ?_⟩⟩
    rcases List.mem_cons.1 hr with rfl | hr
    · exact absurd rfl (hst r)
    · exact (hs o ho).2 he r hr
  | retrying loop =>
    obtain ⟨hw, he, ht, hs⟩ := h
    exact ⟨hw.frame hend, he.frame hst, ht, hs.frame e⟩
  | failing x => exact Working.frame h hend
  | cancelling => exact h.imp fun x => hmem
  | completing o keys => exact ⟨hmem h.1, h.2.frame hrel⟩
  | evicting o key keys =>
    obtain ⟨hc, hr, hk, hall⟩ := h
    exact ⟨hmem hc, hr.frame hrel, hk, fun c hck => hmem (hall c hck)⟩
  | following o ts => exact ⟨hmem h.1, h.2.1.frame hrel, h.2.2.frame e⟩
  | arriving o t ts => exact ⟨hmem h.1, h.2.1.frame hrel, h.2.2.1.frame e, hmem h.2.2.2⟩
  | finished =>
    rcases h with h | ⟨x, h1, h2⟩ | ⟨o, h1, h2, h3⟩
    · exact .inl (hmem h)
    · exact .inr (.inl ⟨x, hmem h1, hmem h2⟩)
    · exact .inr (.inr ⟨o, hmem h1, h2.frame hrel, h3.frame e⟩)

/-! ### Moves of the goroutine -/

/-- The event an effect of `n` adds to the log. -/
def Effect.event (n : String) : Effect D → List (Event D)
  | .leave => [.leftEarly n]
  | .ret services r => [.executed n services r]
  | .store r _ => [.stored n r]
  | .fail e => [.failed n e]
  | .cancel => [.cancelled n]
  | .complete o => [.completed n o]
  | .release key => [.released n key]
  | .evict key => [.evicted n key]
  | .arrive o t _ => [.arrival n o t]
  | _ => []

theorem Effect.foreign (he : e ∈ eff.event n) (hmn : m ≠ n) : e.Foreign m := by
  cases eff <;> simp only [Effect.event, List.mem_singleton, List.not_mem_nil] at he <;> subst he <;>
    simp [Event.Foreign, Event.Ends, hmn.symm]

/-- The counts of the eviction tracker are the consumers that have not released the key yet. -/
def RefsOk (g : CompiledGraph) (s : RunState D) : Prop :=
  ∀ n, Tracked g n → s.refs.lookup (g.outputKey n) =
    some ((consumerSet g n).length - (releasers (g.outputKey n) s.log).length : Int)

theorem RefsOk.tracked {key c : String} (h : RefsOk g s) (hc : key ∈ consumedKeys g c) : s.refs.lookup key ≠ none := by
  obtain ⟨n, hn, -, rfl⟩ := mem_consumedKeys.1 hc
  rw [h n hn]
  exact Option.some_ne_none _

/-- The release that brings a count to zero is the last one. -/
theorem RefsOk.last {key : String} (h : RefsOk g s) (hg : Compiled g) (hlaw' : Lawful g (.released n key :: s.log))
    (h1 : s.refs.lookup key = some 1) {c : String} (hc : key ∈ consumedKeys g c) :
      .released c key ∈ .released n key :: s.log := by
  obtain ⟨m, hm, hcm, rfl⟩ := mem_consumedKeys.1 hc
  rw [h m hm, Option.some.injEq] at h1
  have hlen : (releasers (g.outputKey m) (.released n (g.outputKey m) :: s.log)).length = (consumerSet g m).length := by
    rw [releasers_cons_self, List.length_cons]
    omega
  exact (hlaw'.releasers_le hg hm).2 hlen c hcm

theorem targets_of_retryPolicies (h : retryPolicies g n ≠ []) : g.targets n "error" ≠ [] := by
  intro he
  rw [retryPolicies, he] at h
  exact h rfl

theorem Working.ne_completed {o : String} (h : Working log n) : .completed n o ∉ log := by
  intro ho
  exact h.2 _ ho rfl

private theorem Releasing.initial (hg : Compiled g) (hlaw : Lawful g log) (hw : Working log n) (o : String) :
    Releasing g (.completed n o :: log) n (consumedKeys g n) := by
  refine ⟨nodup_consumedKeys hg n, fun _ h => h, fun key hkey => ?_⟩
  simp only [hkey, not_true_eq_false, iff_false, List.mem_cons, reduceCtorEq, false_or]
  intro hr
  obtain ⟨o', ho'⟩ := hlaw.completed_of_released hr
  exact hw.ne_completed ho'

private theorem Releasing.allowed {o key : String} {keys : List String} (h : Releasing g log n (key :: keys))
    (hc : .completed n o ∈ log) : allowed g (.released n key) log := by
  have hk := h.consumed key (List.mem_cons_self ..)
  have hnot : .released n key ∉ log := fun hr => (h.released_iff key hk).1 hr (List.mem_cons_self ..)
  exact ⟨⟨o, hc⟩, hk, hnot⟩

private theorem Releasing.release {key : String} {keys : List String} (h : Releasing g log n (key :: keys)) :
    Releasing g (.released n key :: log) n keys := by
  have hnd := List.nodup_cons.1 h.nodup
  refine ⟨hnd.2, fun k hk => h.consumed k (List.mem_cons_of_mem _ hk), fun k hk => ?_⟩
  have := h.released_iff k hk
  simp only [List.mem_cons, not_or] at this
  by_cases hkk : k = key
  · subst hkk
    simp [hnd.1]
  · simp [this, hkk]

private theorem Following.follow {o t : String} {ts : List String} (h : Following g log n o (t :: ts)) :
    Following g (.arrival n o t :: log) n o ts := by
  refine ⟨fun x hx => h.edge x (List.mem_cons_of_mem _ hx), fun x hx => ?_⟩
  rcases h.arrived x hx with hx | hx
  · rcases List.mem_cons.1 hx with rfl | hx
    · exact .inr (List.mem_cons_self ..)
    · exact .inl hx
  · exact .inr (List.mem_cons_of_mem _ hx)

/-- A move of a goroutine does not panic, its event is allowed, and it keeps what the log tells. -/
theorem LocalOk.move (hg : Compiled g) (hlaw : Lawful g s.log) (hrefs : RefsOk g s)
    (hseen : ∀ t, (s.groupSeen t).length = g.groupCount t) (hm : Move g reg s n pc pc' eff)
    (h : LocalOk g s.log n pc) :
    eff ≠ .panic ∧ Lawful g (eff.event n ++ s.log) ∧ LocalOk g (eff.event n ++ s.log) n pc' := by
  cases hm with
  | leave hc =>
    have hallowed : allowed g (.leftEarly n) s.log := h.1
    exact ⟨nofun, ⟨hallowed, hlaw⟩, .inl (List.mem_cons_self ..)⟩
  | begin hn => exact ⟨nofun, hlaw, h.1, h.2, nofun⟩
  | absent hn => exact absurd (hlaw.dispatched_mem h.1.1) hn
  | reject retry x => exact ⟨nofun, hlaw, h.1, h.2.2, nofun⟩
  | register retry services hp => exact ⟨nofun, hlaw, h⟩
  | ret retry services r avail =>
    obtain ⟨hw, he, hr⟩ := h
    have hallowed : allowed g (.executed n services (executeNode (g.node n) r)) s.log := ⟨hw, he, r, rfl⟩
    exact ⟨nofun, ⟨hallowed, hlaw⟩, hw.frame id, he.frame nofun, hr, services, List.mem_cons_self ..⟩
  | store retry r avail =>
    obtain ⟨hw, he, hr, hx⟩ := h
    have hallowed : allowed g (.stored n r) s.log := ⟨hw, he, hx⟩
    refine ⟨nofun, ⟨hallowed, hlaw⟩, hw.frame id, hr, fun o ho => ?_⟩
    rw [conclude_ok] at ho
    refine ⟨⟨r, List.mem_cons_self .., ho⟩, fun hoe r' hr' => ?_⟩
    rcases List.mem_cons.1 hr' with hr' | hr'
    · cases hr'
      rw [ho, hoe]
    · exact (he r' hr').1
  | broken retry res x => exact ⟨nofun, hlaw, h.1⟩
  | firstRetry policy rest hp =>
    obtain ⟨hw, -, hs⟩ := h
    obtain ⟨hstored, herr⟩ := hs _ rfl
    have hne : retryPolicies g n ≠ [] := hp ▸ List.cons_ne_nil _ _
    have hmay : MayExecute g s.log n := fun r hr => ⟨herr rfl r hr, hne⟩
    exact ⟨nofun, hlaw, hw, hmay, hne, hstored⟩
  | again loop =>
    obtain ⟨hw, hr, hs⟩ := h
    obtain ⟨hstored, herr⟩ := hs _ rfl
    have hne : retryPolicies g n ≠ [] := hr nofun
    have hmay : MayExecute g s.log n := fun r hst => ⟨herr rfl r hst, hne⟩
    exact ⟨nofun, hlaw, hw, hmay, hne, hstored⟩
  | settle retry o ho =>
    obtain ⟨hw, -, hs⟩ := h
    have hallowed : allowed g (.completed n o) s.log := ⟨hw, (hs o rfl).1, ho⟩
    exact ⟨nofun, ⟨hallowed, hlaw⟩, List.mem_cons_self .., Releasing.initial hg hlaw hw o⟩
  | attempt loop hle => exact ⟨nofun, hlaw, h.1, h.2.1, fun _ => h.2.2.1⟩
  | nextRetry loop policy rest hp => exact ⟨nofun, hlaw, h⟩
  | giveUp loop =>
    obtain ⟨hw, -, ht, hs⟩ := h
    have hallowed : allowed g (.completed n "error") s.log := ⟨hw, hs, fun _ => targets_of_retryPolicies ht⟩
    exact ⟨nofun, ⟨hallowed, hlaw⟩, List.mem_cons_self .., Releasing.initial hg hlaw hw _⟩
  | fail x =>
    have hallowed : allowed g (.failed n x) s.log := h
    exact ⟨nofun, ⟨hallowed, hlaw⟩, x, List.mem_cons_self ..⟩
  | cancel =>
    obtain ⟨x, hx⟩ := h
    have hallowed : allowed g (.cancelled n) s.log := ⟨x, hx⟩
    exact ⟨nofun, ⟨hallowed, hlaw⟩, .inr (.inl ⟨x, List.mem_cons_of_mem _ hx, List.mem_cons_self ..⟩)⟩
  | follow o => exact ⟨nofun, hlaw, h.1, h.2, fun _ ht => ht, fun _ ht => .inl ht⟩
  | untracked o key keys hnone => exact absurd hnone (hrefs.tracked (h.2.consumed key (List.mem_cons_self ..)))
  | release o key keys ref hsome hne =>
    have hallowed : allowed g (.released n key) s.log := h.2.allowed h.1
    exact ⟨nofun, ⟨hallowed, hlaw⟩, List.mem_cons_of_mem _ h.1, h.2.release⟩
  | lastRelease o key keys hone =>
    have hallowed : allowed g (.released n key) s.log := h.2.allowed h.1
    have hlaw' : Lawful g (.released n key :: s.log) := ⟨hallowed, hlaw⟩
    have hall : ∀ c, key ∈ consumedKeys g c → .released c key ∈ .released n key :: s.log :=
      fun c hc => hrefs.last hg hlaw' hone hc
    exact ⟨nofun, hlaw', List.mem_cons_of_mem _ h.1, h.2.release, hallowed.2.1, hall⟩
  | evict o key keys =>
    obtain ⟨hc, hr, hk, hall⟩ := h
    have hallowed : allowed g (.evicted n key) s.log := ⟨hk, hall⟩
    exact ⟨nofun, ⟨hallowed, hlaw⟩, List.mem_cons_of_mem _ hc, hr.frame nofun⟩
  | done o => exact ⟨nofun, hlaw, .inr (.inr ⟨o, h⟩)⟩
  | outOfRange o t ts hnone =>
    -- every edge has its source in the group map, and the flags have the length of the group count
    obtain ⟨i, hi, hlt⟩ := hg.group_lt (hg.mem_sources.2 ⟨o, h.2.2.edge t (List.mem_cons_self ..)⟩)
    rw [hi, Option.getD_some, List.getElem?_eq_none_iff, hseen] at hnone
    omega
  | repeated o t ts htrue =>
    obtain ⟨hc, hr, hf⟩ := h
    have hallowed : allowed g (.arrival n o t) s.log := ⟨hc, hf.edge t (List.mem_cons_self ..)⟩
    exact ⟨nofun, ⟨hallowed, hlaw⟩, List.mem_cons_of_mem _ hc, hr.frame nofun, hf.follow⟩
  | arrive o t ts hfalse =>
    obtain ⟨hc, hr, hf⟩ := h
    have hallowed : allowed g (.arrival n o t) s.log := ⟨hc, hf.edge t (List.mem_cons_self ..)⟩
    exact ⟨nofun, ⟨hallowed, hlaw⟩, List.mem_cons_of_mem _ hc, hr.frame nofun, hf.follow, List.mem_cons_self ..⟩
  | count o t ts => exact ⟨nofun, hlaw, h.1, h.2.1, h.2.2.1⟩

end Noda.Engine
