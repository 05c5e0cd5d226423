import Mathlib.Data.List.Forall2
import Mathlib.Data.List.Pairwise
import Mathlib.Data.List.Nodup

/-!
# Streams with a consumer group

A stream is a list of entries in the order of their ids.  A consumer group (`Group`) remembers the last entry it has
delivered and the pending entries: those delivered to some consumer and not yet acknowledged, each with the number
of its deliveries.  The commands are those of a Redis stream, an id being one number and `0` the start of the stream:

* `add` appends an entry (`XADD`);
* `Group.read` delivers entries nobody has received (`XREADGROUP`);
* `Group.claim` hands entries that have been idle for long to another consumer (`XAUTOCLAIM`);
* `Group.range` lists pending entries with their delivery counts (`XPENDING`);
* `Group.ack` removes a pending entry (`XACK`).

`Group.Le` says what all of them keep: an entry that has been delivered before is pending only if it was pending,
with a count that has not gone down.  So an entry that has been acknowledged never comes back.
-/

namespace StreamGroup

variable {V : Type}

/-- An entry of a stream. -/
structure Entry (V : Type) where
  id : Nat
  values : V

/-- The id of the last entry, `0` for an empty stream. -/
def lastId (es : List (Entry V)) : Nat := (es.getLast?.map Entry.id).getD 0

/-- `XADD key *`: the new id is the clock, or the successor of the last id if the clock is behind. -/
def add (now : Nat) (v : V) (es : List (Entry V)) : List (Entry V) := es ++ [⟨max now (lastId es + 1), v⟩]

/-- A delivered entry that has not been acknowledged. -/
structure Pending where
  id : Nat
  consumer : String
  deliveredAt : Int
  count : Nat
  deriving DecidableEq, Repr

/-- A consumer group of a stream. -/
structure Group where
  lastDelivered : Nat
  pending : List Pending
  sorted : pending.Pairwise (·.id < ·.id)
  bounded : ∀ p ∈ pending, p.id ≤ lastDelivered

namespace Group

/-- A group that starts before the first entry (`XGROUP CREATE key group 0`). -/
def empty : Group := ⟨0, [], List.Pairwise.nil, by simp⟩

/-- The ids of the pending entries. -/
def ids (g : Group) : List Nat := g.pending.map Pending.id

theorem mem_ids {g : Group} {id : Nat} : id ∈ g.ids ↔ ∃ p ∈ g.pending, p.id = id := by
  simp [ids]

private theorem eq_of_id (g : Group) {p q : Pending} (hp : p ∈ g.pending) (hq : q ∈ g.pending) (h : p.id = q.id) :
    p = q := by
  have hnodup : g.ids.Nodup := List.pairwise_map.2 (g.sorted.imp fun hlt => Nat.ne_of_lt hlt)
  exact List.inj_on_of_nodup_map hnodup hp hq h

/-- The first delivery of an entry. -/
def deliver (g : Group) (consumer : String) (now : Int) (e : Entry V) (h : g.lastDelivered < e.id) : Group where
  lastDelivered := e.id
  pending := g.pending ++ [⟨e.id, consumer, now, 1⟩]
  sorted := by
    refine List.pairwise_append.2 ⟨g.sorted, List.pairwise_singleton _ _, ?_⟩
    intro p hp q hq
    rw [List.mem_singleton.1 hq]
    exact Nat.lt_of_le_of_lt (g.bounded p hp) h
  bounded := by
    intro p hp
    rcases List.mem_append.1 hp with hp | hp
    · exact Nat.le_trans (g.bounded p hp) (Nat.le_of_lt h)
    · exact Nat.le_of_eq (by rw [List.mem_singleton.1 hp])

/-- `XREADGROUP GROUP g consumer COUNT count STREAMS key >`: the entries delivered, and the group afterwards. -/
def read (consumer : String) (now : Int) : Nat → List (Entry V) → Group → List (Entry V) × Group
  | 0, _, g => ([], g)
  | _ + 1, [], g => ([], g)
  | count + 1, e :: es, g =>
    if h : g.lastDelivered < e.id then
      let r := read consumer now count es (g.deliver consumer now e h)
      (e :: r.1, r.2)
    else read consumer now (count + 1) es g

/-- `XACK`. -/
def ack (g : Group) (id : Nat) : Group where
  lastDelivered := g.lastDelivered
  pending := g.pending.filter (·.id ≠ id)
  sorted := g.sorted.filter _
  bounded := fun p hp => g.bounded p (List.mem_of_mem_filter hp)

def handOver (p : Pending) (consumer : String) (now : Int) : Pending :=
  { p with consumer, deliveredAt := now, count := p.count + 1 }

/-- The loop of `XAUTOCLAIM`: it looks at no more than `attempts` entries from `start` on and claims no more than
`count` of them, those that have been idle for `minIdle`.  The pending entries afterwards, the ids claimed, and the
id at which a further call continues, `0` at the end. -/
def claimLoop (consumer : String) (minIdle now : Int) (start : Nat) :
    Nat → Nat → List Pending → List Pending × List Nat × Nat
  | _, _, [] => ([], [], 0)
  | attempts, count, p :: ps =>
    if p.id < start then
      let r := claimLoop consumer minIdle now start attempts count ps
      (p :: r.1, r.2)
    else
      match attempts, count with
      | attempts + 1, count + 1 =>
        if now - p.deliveredAt < minIdle then
          let r := claimLoop consumer minIdle now start attempts (count + 1) ps
          (p :: r.1, r.2)
        else
          let r := claimLoop consumer minIdle now start attempts count ps
          (handOver p consumer now :: r.1, p.id :: r.2.1, r.2.2)
      | _, _ => (p :: ps, [], p.id)

/-- A pending entry before and after a claim: it may have been delivered once more. -/
def Claimed (p q : Pending) : Prop := p.id = q.id ∧ p.count ≤ q.count

theorem Claimed.refl (p : Pending) : Claimed p p := ⟨rfl, Nat.le_refl _⟩

private theorem map_id_of_claimed {ps qs : List Pending} (h : List.Forall₂ Claimed ps qs) :
    qs.map Pending.id = ps.map Pending.id := by
  induction h with
  | nil => rfl
  | cons h _ ih => rw [List.map_cons, List.map_cons, ih, h.1]

private theorem exists_claimed {ps qs : List Pending} (h : List.Forall₂ Claimed ps qs) {q : Pending} (hq : q ∈ qs) :
    ∃ p ∈ ps, Claimed p q := by
  induction h with
  | nil => cases hq
  | cons h _ ih =>
    rcases List.mem_cons.1 hq with rfl | hq
    · exact ⟨_, List.mem_cons_self, h⟩
    · obtain ⟨p, hp, hpq⟩ := ih hq
      exact ⟨p, List.mem_cons_of_mem _ hp, hpq⟩

private theorem claimLoop_claimed (consumer : String) (minIdle now : Int) (start : Nat) (attempts count : Nat)
    (ps : List Pending) : List.Forall₂ Claimed ps (claimLoop consumer minIdle now start attempts count ps).1 := by
  fun_induction claimLoop consumer minIdle now start attempts count ps with
  | case1 => exact .nil
  | case2 attempts count p ps hs r ih => exact .cons (.refl p) ih
  | case3 p ps hs attempts count hidle r ih => exact .cons (.refl p) ih
  | case4 p ps hs attempts count hidle r ih => exact .cons ⟨rfl, Nat.le_succ _⟩ ih
  | case5 => exact List.forall₂_same.2 fun p _ => .refl p

private theorem claimLoop_ids (consumer : String) (minIdle now : Int) (start : Nat) (attempts count : Nat)
    (ps : List Pending) {id : Nat} (h : id ∈ (claimLoop consumer minIdle now start attempts count ps).2.1) :
    id ∈ ps.map Pending.id := by
  fun_induction claimLoop consumer minIdle now start attempts count ps with
  | case1 => cases h
  | case2 attempts count p ps hs r ih => exact List.mem_cons_of_mem _ (ih h)
  | case3 p ps hs attempts count hidle r ih => exact List.mem_cons_of_mem _ (ih h)
  | case4 p ps hs attempts count hidle r ih =>
    rcases List.mem_cons.1 h with rfl | h
    · exact List.mem_cons_self
    · exact List.mem_cons_of_mem _ (ih h)
  | case5 => cases h

/-- `XAUTOCLAIM key g consumer minIdle start COUNT count`: the ids claimed, the next cursor, and the group
afterwards.  Redis looks at ten entries for each one it may claim. -/
def claim (g : Group) (consumer : String) (minIdle now : Int) (start count : Nat) : List Nat × Nat × Group :=
  let r := claimLoop consumer minIdle now start (count * 10) count g.pending
  (r.2.1, r.2.2,
    { lastDelivered := g.lastDelivered
      pending := r.1
      sorted := by
        have hm := map_id_of_claimed (claimLoop_claimed consumer minIdle now start (count * 10) count g.pending)
        have hs : (g.pending.map Pending.id).Pairwise (· < ·) := List.pairwise_map.2 g.sorted
        rw [← hm] at hs
        exact List.pairwise_map.1 hs
      bounded := by
        intro q hq
        obtain ⟨p, hp, hpq, -⟩ := exists_claimed (claimLoop_claimed consumer minIdle now start _ count g.pending) hq
        rw [← hpq]
        exact g.bounded p hp })

/-- `XPENDING key g start end count [consumer]`: ids with their delivery counts. -/
def range (g : Group) (start stop count : Nat) (consumer : Option String) : List (Nat × Nat) :=
  ((g.pending.filter fun p => start ≤ p.id ∧ p.id ≤ stop ∧ ∀ c ∈ consumer, p.consumer = c).take count).map
    fun p => (p.id, p.count)

/-! ### What the commands keep -/

/-- What every command keeps of an earlier state of the group. -/
structure Le (g g' : Group) : Prop where
  lastDelivered : g.lastDelivered ≤ g'.lastDelivered
  pending : ∀ q ∈ g'.pending, q.id ≤ g.lastDelivered → ∃ p ∈ g.pending, Claimed p q

theorem Le.refl (g : Group) : g.Le g := ⟨Nat.le_refl _, fun q hq _ => ⟨q, hq, .refl q⟩⟩

theorem Le.trans {g₁ g₂ g₃ : Group} (h₁ : g₁.Le g₂) (h₂ : g₂.Le g₃) : g₁.Le g₃ := by
  refine ⟨Nat.le_trans h₁.lastDelivered h₂.lastDelivered, fun r hr hl => ?_⟩
  obtain ⟨q, hq, hqr, hc⟩ := h₂.pending r hr (Nat.le_trans hl h₁.lastDelivered)
  obtain ⟨p, hp, hpq, hc'⟩ := h₁.pending q hq (hqr ▸ hl)
  exact ⟨p, hp, hpq.trans hqr, Nat.le_trans hc' hc⟩

private theorem deliver_le (g : Group) (consumer : String) (now : Int) (e : Entry V) (h : g.lastDelivered < e.id) :
    g.Le (g.deliver consumer now e h) := by
  refine ⟨Nat.le_of_lt h, fun q hq hl => ?_⟩
  rcases List.mem_append.1 hq with hq | hq
  · exact ⟨q, hq, .refl q⟩
  · rw [List.mem_singleton.1 hq] at hl
    exact absurd hl (Nat.not_le.2 h)

theorem read_le (consumer : String) (now : Int) (count : Nat) (es : List (Entry V)) (g : Group) :
    g.Le (read consumer now count es g).2 := by
  fun_induction read consumer now count es g with
  | case1 | case2 => exact .refl _
  | case3 count e es g h r ih => exact (g.deliver_le consumer now e h).trans ih
  | case4 count e es g h ih => exact ih

theorem read_lastDelivered (consumer : String) (now : Int) (count : Nat) (es : List (Entry V)) (g : Group)
    {e : Entry V} (he : e ∈ (read consumer now count es g).1) :
    e.id ≤ (read consumer now count es g).2.lastDelivered := by
  fun_induction read consumer now count es g with
  | case1 | case2 => cases he
  | case3 count e' es g h r ih =>
    rcases List.mem_cons.1 he with rfl | he
    · exact (read_le consumer now count es (g.deliver consumer now e h)).lastDelivered
    · exact ih he
  | case4 count e' es g h ih => exact ih he

theorem read_ids (consumer : String) (now : Int) (count : Nat) (es : List (Entry V)) (g : Group) {id : Nat}
    (h : id ∈ g.ids) : id ∈ (read consumer now count es g).2.ids := by
  fun_induction read consumer now count es g with
  | case1 | case2 => exact h
  | case3 count e es g hl r ih =>
    apply ih
    obtain ⟨p, hp, rfl⟩ := mem_ids.1 h
    exact mem_ids.2 ⟨p, List.mem_append_left _ hp, rfl⟩
  | case4 count e es g hl ih => exact ih h

theorem ack_le (g : Group) (id : Nat) : g.Le (g.ack id) :=
  ⟨Nat.le_refl _, fun q hq _ => ⟨q, List.mem_of_mem_filter hq, .refl q⟩⟩

theorem ack_ids {g : Group} {id id' : Nat} (h : id' ∈ g.ids) (hne : id' ≠ id) : id' ∈ (g.ack id).ids := by
  obtain ⟨p, hp, rfl⟩ := mem_ids.1 h
  exact mem_ids.2 ⟨p, List.mem_filter.2 ⟨hp, by simpa using hne⟩, rfl⟩

theorem claim_le (g : Group) (consumer : String) (minIdle now : Int) (start count : Nat) :
    g.Le (g.claim consumer minIdle now start count).2.2 :=
  ⟨Nat.le_refl _, fun _ hq _ => exists_claimed (claimLoop_claimed ..) hq⟩

theorem claim_ids (g : Group) (consumer : String) (minIdle now : Int) (start count : Nat) :
    (g.claim consumer minIdle now start count).2.2.ids = g.ids :=
  map_id_of_claimed (claimLoop_claimed ..)

theorem claim_lastDelivered {g : Group} {consumer : String} {minIdle now : Int} {start count id : Nat}
    (h : id ∈ (g.claim consumer minIdle now start count).1) : id ≤ g.lastDelivered := by
  obtain ⟨p, hp, rfl⟩ := List.mem_map.1 (claimLoop_ids _ _ _ _ _ _ _ h)
  exact g.bounded p hp

/-- The deliveries of `id` number at least `n`, if it is pending. -/
def CountAtLeast (g : Group) (id n : Nat) : Prop := ∀ p ∈ g.pending, p.id = id → n ≤ p.count

theorem CountAtLeast.mono {g g' : Group} {id n : Nat} (h : g.CountAtLeast id n) (hle : g.Le g')
    (hl : id ≤ g.lastDelivered) : g'.CountAtLeast id n := by
  rintro q hq rfl
  obtain ⟨p, hp, hpq, hc⟩ := hle.pending q hq hl
  exact Nat.le_trans (h p hp hpq) hc

theorem range_id {g : Group} {start stop count id n : Nat} {consumer : Option String}
    (h : (id, n) ∈ g.range start stop count consumer) : start ≤ id ∧ id ≤ stop := by
  obtain ⟨p, hp, he⟩ := List.mem_map.1 h
  have hp := of_decide_eq_true (List.mem_filter.1 (List.mem_of_mem_take hp)).2
  injection he with hid hn
  exact ⟨hid ▸ hp.1, hid ▸ hp.2.1⟩

theorem range_count {g : Group} {start stop count id n : Nat} {consumer : Option String}
    (h : (id, n) ∈ g.range start stop count consumer) : g.CountAtLeast id n := by
  obtain ⟨p, hp, he⟩ := List.mem_map.1 h
  have hp := List.mem_of_mem_filter (List.mem_of_mem_take hp)
  injection he with hid hn
  intro q hq hqid
  rw [← g.eq_of_id hp hq (hid.trans hqid.symm)]
  exact Nat.le_of_eq hn.symm

end Group

end StreamGroup
