import Mathlib.Data.List.Nodup
import Mathlib.Data.List.Perm.Subperm
import Mathlib.Data.List.Range
import Mathlib.Logic.Function.Basic
import Mathlib.Logic.Relation

/-!
# Disjoint sets with path halving

A forest of parent pointers over a finite list of elements, without ranks.  `find` follows the pointers to a root and
halves the path on its way; `union` hangs the root of one element under the root of the other.

* `find_spec`: `find` returns the root of its argument and keeps the root of every element;
* `sameSet_unionAll`: after the pairs of a list have been united, two elements are in one set exactly when they are
  connected by pairs of the list.

`find` has the number of elements as fuel, which bounds the length of every path (`Steps.lt_length`).
-/

namespace UnionFind

variable {α : Type} [DecidableEq α]

/-- Parent pointers over the elements `ids`; a root points to itself. -/
structure Forest (α : Type) where
  ids : List α
  parent : α → α

/-- Every element is its own set. -/
def new (ids : List α) : Forest α := ⟨ids, id⟩

/-- Follow the pointers from `x`, pointing every visited element to its grandparent. -/
def findLoop : Nat → (α → α) → α → (α → α) × α
  | 0, p, x => (p, x)
  | fuel + 1, p, x =>
    if p x = x then (p, x)
    else
      let p' := Function.update p x (p (p x))
      findLoop fuel p' (p' x)

def find (u : Forest α) (x : α) : Forest α × α :=
  let r := findLoop u.ids.length u.parent x
  (⟨u.ids, r.1⟩, r.2)

def union (u : Forest α) (a b : α) : Forest α :=
  let (u, ra) := find u a
  let (u, rb) := find u b
  if ra ≠ rb then ⟨u.ids, Function.update u.parent rb ra⟩ else u

/-- Unite the elements of every pair. -/
def unionAll (u : Forest α) (pairs : List (α × α)) : Forest α := pairs.foldl (fun u p => union u p.1 p.2) u

/-! ### Paths to roots -/

/-- `x` reaches the root `r` in `k` steps along the pointers. -/
inductive Steps (p : α → α) : Nat → α → α → Prop
  | root {r : α} (h : p r = r) : Steps p 0 r r
  | step {k : Nat} {x r : α} (h : p x ≠ x) (hs : Steps p k (p x) r) : Steps p (k + 1) x r

/-- `r` is the root of `x`. -/
def Root (p : α → α) (x r : α) : Prop := ∃ k, Steps p k x r

omit [DecidableEq α] in
theorem Steps.isRoot {p : α → α} {k : Nat} {x r : α} (h : Steps p k x r) : p r = r := by
  induction h with
  | root h => exact h
  | step _ _ ih => exact ih

omit [DecidableEq α] in
theorem Steps.unique {p : α → α} {k k' : Nat} {x r r' : α} (h : Steps p k x r) (h' : Steps p k' x r') :
    k = k' ∧ r = r' := by
  induction h generalizing k' with
  | root hr =>
    cases h' with
    | root _ => exact ⟨rfl, rfl⟩
    | step hx _ => exact absurd hr hx
  | step hx _ ih =>
    cases h' with
    | root hr => exact absurd hr hx
    | step _ hs' =>
      obtain ⟨rfl, rfl⟩ := ih hs'
      exact ⟨rfl, rfl⟩

omit [DecidableEq α] in
theorem Steps.iterate {p : α → α} {k : Nat} {x r : α} (h : Steps p k x r) {i : Nat} (hi : i ≤ k) :
    Steps p (k - i) (p^[i] x) r := by
  induction i generalizing k x with
  | zero => exact h
  | succ i ih =>
    cases h with
    | root _ => omega
    | step _ hs =>
      have := ih hs (by omega)
      rw [Function.iterate_succ_apply]
      simpa using this

omit [DecidableEq α] in
/-- A path never repeats an element, so it is shorter than the list of all elements. -/
theorem Steps.lt_length {p : α → α} {ids : List α} (hids : ∀ x ∈ ids, p x ∈ ids) {k : Nat} {x r : α}
    (h : Steps p k x r) (hx : x ∈ ids) : k < ids.length := by
  have hmem : ∀ i, p^[i] x ∈ ids := by
    intro i
    induction i with
    | zero => exact hx
    | succ i ih => rw [Function.iterate_succ_apply']; exact hids _ ih
  have hnd : ((List.range (k + 1)).map fun i => p^[i] x).Nodup := by
    refine List.Nodup.map_on ?_ List.nodup_range
    intro i hi j hj hij
    rw [List.mem_range] at hi hj
    have h1 := h.iterate (i := i) (by omega)
    have h2 := h.iterate (i := j) (by omega)
    rw [hij] at h1
    have := (h1.unique h2).1
    omega
  have hsub : ((List.range (k + 1)).map fun i => p^[i] x) ⊆ ids := by
    intro y hy
    obtain ⟨i, -, rfl⟩ := List.mem_map.1 hy
    exact hmem i
  have hlen := (List.subperm_of_subset hnd hsub).length_le
  rw [List.length_map, List.length_range] at hlen
  exact hlen

omit [DecidableEq α] in
theorem Root.unique {p : α → α} {x r r' : α} (h : Root p x r) (h' : Root p x r') : r = r' := by
  obtain ⟨k, hk⟩ := h
  obtain ⟨k', hk'⟩ := h'
  exact (hk.unique hk').2

omit [DecidableEq α] in
theorem Root.self {p : α → α} {r : α} (h : p r = r) : Root p r r := ⟨0, .root h⟩

/-- Pointing an element to its grandparent keeps all roots and makes no path longer. -/
theorem Steps.halve {p : α → α} {k : Nat} {y r : α} (x : α) (h : Steps p k y r) :
    ∃ k' ≤ k, Steps (Function.update p x (p (p x))) k' y r := by
  induction k using Nat.strongRecOn generalizing y with
  | _ k ih =>
    cases h with
    | root hr =>
      refine ⟨0, le_refl _, .root ?_⟩
      by_cases hx : r = x
      · subst hx; rw [Function.update_self, hr, hr]
      · rw [Function.update_of_ne hx, hr]
    | step hne hs =>
      rename_i k
      by_cases hx : y = x
      · subst hx
        cases hs with
        | root hr =>
          -- the parent is a root, so the grandparent is the parent
          obtain ⟨k', hk', hs'⟩ := ih 0 (by omega) (.root hr)
          have hy : Function.update p y (p (p y)) y = p y := by rw [Function.update_self, hr]
          refine ⟨k' + 1, by omega, .step ?_ ?_⟩
          · rw [hy]; exact hne
          · rw [hy]; exact hs'
        | step hne' hs =>
          obtain ⟨k', hk', hs'⟩ := ih _ (by omega) hs
          by_cases hyy : p (p y) = y
          · -- impossible: the path would return to `y`
            have h1 : Steps p _ y r := .step hne (.step hne' hs)
            rw [hyy] at hs
            have := (h1.unique hs).1
            omega
          · refine ⟨k' + 1, by omega, .step ?_ ?_⟩
            · rwa [Function.update_self]
            · rwa [Function.update_self]
      · obtain ⟨k', hk', hs'⟩ := ih k (by omega) hs
        refine ⟨k' + 1, by omega, .step ?_ ?_⟩
        · rwa [Function.update_of_ne hx]
        · rwa [Function.update_of_ne hx]

/-! ### `find` and `union` -/

/-- A forest: the pointers stay among the elements and every element has a root. -/
structure Forest.Valid (u : Forest α) : Prop where
  closed : ∀ x ∈ u.ids, u.parent x ∈ u.ids
  rooted : ∀ x ∈ u.ids, ∃ r, Root u.parent x r

omit [DecidableEq α] in
theorem Root.mem {p : α → α} {ids : List α} (hids : ∀ x ∈ ids, p x ∈ ids) {x r : α} (h : Root p x r)
    (hx : x ∈ ids) : r ∈ ids := by
  obtain ⟨k, hk⟩ := h
  induction hk with
  | root _ => exact hx
  | step _ _ ih => exact ih (hids _ hx)

theorem Root.halve {p : α → α} {y r : α} (x : α) (h : Root p y r) :
    Root (Function.update p x (p (p x))) y r := by
  obtain ⟨k, hk⟩ := h
  obtain ⟨k', -, hk'⟩ := hk.halve x
  exact ⟨k', hk'⟩

private theorem findLoop_spec {ids : List α} {fuel k : Nat} {p : α → α} {x r : α}
    (hids : ∀ y ∈ ids, p y ∈ ids) (hx : x ∈ ids) (hk : Steps p k x r) (hf : k ≤ fuel) :
    (findLoop fuel p x).2 = r ∧ (∀ y ∈ ids, (findLoop fuel p x).1 y ∈ ids) ∧
      ∀ y s, Root p y s → Root (findLoop fuel p x).1 y s := by
  induction fuel generalizing k p x with
  | zero =>
    obtain rfl : k = 0 := by omega
    cases hk with
    | root _ => exact ⟨rfl, hids, fun _ _ h => h⟩
  | succ fuel ih =>
    rw [findLoop]
    by_cases hpx : p x = x
    · rw [if_pos hpx]
      exact ⟨(hk.unique (.root hpx)).2.symm, hids, fun _ _ h => h⟩
    · rw [if_neg hpx]
      cases hk with
      | root h => exact absurd h hpx
      | step _ hs =>
        have hids' : ∀ y ∈ ids, Function.update p x (p (p x)) y ∈ ids := by
          intro y hy
          by_cases hyx : y = x
          · subst hyx; rw [Function.update_self]; exact hids _ (hids _ hy)
          · rw [Function.update_of_ne hyx]; exact hids _ hy
        have hnext : Function.update p x (p (p x)) x = p (p x) := Function.update_self ..
        -- the grandparent is at most as far from the root as the parent
        obtain ⟨k', hk', hs'⟩ : ∃ k' ≤ fuel, Steps p k' (p (p x)) r := by
          cases hs with
          | root h => exact ⟨0, by omega, by rw [h]; exact .root h⟩
          | step _ hs => exact ⟨_, by omega, hs⟩
        obtain ⟨k'', hk'', hs''⟩ := hs'.halve x
        dsimp only
        rw [hnext]
        obtain ⟨h1, h2, h3⟩ := ih hids' (hids _ (hids _ hx)) hs'' (by omega)
        exact ⟨h1, h2, fun y s h => h3 y s (h.halve x)⟩

/-- `find` returns the root of its argument; it keeps the elements and all roots. -/
theorem find_spec {u : Forest α} (hu : u.Valid) {x : α} (hx : x ∈ u.ids) :
    Root u.parent x (find u x).2 ∧ (find u x).1.ids = u.ids ∧ (find u x).1.Valid ∧
      ∀ y ∈ u.ids, ∀ s, Root (find u x).1.parent y s ↔ Root u.parent y s := by
  obtain ⟨r, k, hk⟩ := hu.rooted x hx
  obtain ⟨h1, h2, h3⟩ := findLoop_spec hu.closed hx hk (le_of_lt (hk.lt_length hu.closed hx))
  refine ⟨?_, rfl, ⟨h2, fun y hy => ?_⟩, fun y hy s => ⟨fun h => ?_, h3 y s⟩⟩
  · show Root u.parent x (findLoop u.ids.length u.parent x).2
    rw [h1]; exact ⟨k, hk⟩
  · obtain ⟨s, hs⟩ := hu.rooted y hy
    exact ⟨s, h3 y s hs⟩
  · obtain ⟨s', hs'⟩ := hu.rooted y hy
    rwa [h.unique (h3 y s' hs')]

/-- Hanging the root `b` under the root `a` moves exactly the elements below `b`. -/
private theorem root_link {p : α → α} {a b : α} (ha : p a = a) (hb : p b = b) (hab : a ≠ b) {x r : α}
    (h : Root p x r) : Root (Function.update p b a) x (if r = b then a else r) := by
  obtain ⟨k, hk⟩ := h
  induction hk with
  | root hr =>
    rename_i r
    by_cases hrb : r = b
    · subst hrb
      have ha' : Function.update p r a a = a := by rw [Function.update_of_ne hab, ha]
      rw [if_pos rfl]
      refine ⟨1, .step ?_ ?_⟩
      · rw [Function.update_self]; exact hab
      · rw [Function.update_self]; exact .root ha'
    · rw [if_neg hrb]
      exact Root.self (by rw [Function.update_of_ne hrb, hr])
  | step hx hs ih =>
    rename_i k x r
    obtain ⟨k', hk'⟩ := ih
    have hxb : x ≠ b := fun hxb => hx (hxb ▸ hb)
    refine ⟨k' + 1, .step ?_ ?_⟩
    · rwa [Function.update_of_ne hxb]
    · rwa [Function.update_of_ne hxb]

/-- Two elements have the same root. -/
def SameSet (u : Forest α) (x y : α) : Prop := ∃ r, Root u.parent x r ∧ Root u.parent y r

omit [DecidableEq α] in
theorem sameSet_iff {u : Forest α} {x y r s : α} (hx : Root u.parent x r) (hy : Root u.parent y s) :
    SameSet u x y ↔ r = s := by
  constructor
  · rintro ⟨t, hxt, hyt⟩
    rw [hx.unique hxt, hy.unique hyt]
  · rintro rfl
    exact ⟨r, hx, hy⟩

omit [DecidableEq α] in
theorem new_valid (ids : List α) : (new ids).Valid :=
  ⟨fun _ hx => hx, fun x _ => ⟨x, Root.self rfl⟩⟩

omit [DecidableEq α] in
private theorem sameSet_new {ids : List α} {x y : α} : SameSet (new ids) x y ↔ x = y :=
  sameSet_iff (Root.self rfl) (Root.self rfl)

/-- After `union a b` the root of `b` and everything below it belong to the root of `a`. -/
private theorem union_spec {u : Forest α} (hu : u.Valid) {a b : α} (ha : a ∈ u.ids) (hb : b ∈ u.ids) :
    (union u a b).ids = u.ids ∧ (union u a b).Valid ∧
      ∃ ra rb, Root u.parent a ra ∧ Root u.parent b rb ∧
        ∀ x ∈ u.ids, ∀ r, Root u.parent x r → Root (union u a b).parent x (if r = rb then ra else r) := by
  obtain ⟨hra, hids1, hv1, hroot1⟩ := find_spec hu ha
  have hb1 : b ∈ (find u a).1.ids := by rw [hids1]; exact hb
  obtain ⟨hrb, hids2, hv2, hroot2⟩ := find_spec hv1 hb1
  set ra := (find u a).2
  set u1 := (find u a).1
  set rb := (find u1 b).2
  set u2 := (find u1 b).1
  have hids : u2.ids = u.ids := hids2.trans hids1
  have hroot : ∀ x ∈ u.ids, ∀ r, Root u.parent x r → Root u2.parent x r := by
    intro x hx r hr
    exact (hroot2 x (by rw [hids1]; exact hx) r).2 ((hroot1 x hx r).2 hr)
  have hrb' : Root u.parent b rb := (hroot1 b hb rb).1 hrb
  have hunion : union u a b = if ra ≠ rb then ⟨u2.ids, Function.update u2.parent rb ra⟩ else u2 := rfl
  by_cases hne : ra = rb
  · rw [hunion, if_neg (by simpa using hne)]
    refine ⟨hids, hv2, ra, rb, hra, hrb', fun x hx r hr => ?_⟩
    have : (if r = rb then ra else r) = r := by
      by_cases h : r = rb
      · rw [if_pos h, hne, h]
      · rw [if_neg h]
    rw [this]; exact hroot x hx r hr
  · rw [hunion, if_pos hne]
    have hra2 : Root u2.parent a ra := hroot a ha ra hra
    have hrb2 : Root u2.parent b rb := hroot b hb rb hrb'
    have hraroot : u2.parent ra = ra := hra2.elim fun _ h => h.isRoot
    have hrbroot : u2.parent rb = rb := hrb2.elim fun _ h => h.isRoot
    have hramem : ra ∈ u2.ids := hra2.mem hv2.closed (by rw [hids]; exact ha)
    refine ⟨hids, ⟨fun x hx => ?_, fun x hx => ?_⟩, ra, rb, hra, hrb', fun x hx r hr => ?_⟩
    · show Function.update u2.parent rb ra x ∈ u2.ids
      by_cases hxb : x = rb
      · subst hxb; rw [Function.update_self]; exact hramem
      · rw [Function.update_of_ne hxb]; exact hv2.closed x hx
    · obtain ⟨r, hr⟩ := hv2.rooted x hx
      exact ⟨_, root_link hraroot hrbroot hne hr⟩
    · exact root_link hraroot hrbroot hne (hroot x hx r hr)

private theorem sameSet_union {u : Forest α} (hu : u.Valid) {a b : α} (ha : a ∈ u.ids) (hb : b ∈ u.ids) {x y : α}
    (hx : x ∈ u.ids) (hy : y ∈ u.ids) :
    SameSet (union u a b) x y ↔
      SameSet u x y ∨ (SameSet u x a ∧ SameSet u b y) ∨ (SameSet u x b ∧ SameSet u a y) := by
  obtain ⟨-, -, ra, rb, hra, hrb, hall⟩ := union_spec hu ha hb
  obtain ⟨rx, hrx⟩ := hu.rooted x hx
  obtain ⟨ry, hry⟩ := hu.rooted y hy
  rw [sameSet_iff (hall x hx rx hrx) (hall y hy ry hry), sameSet_iff hrx hry, sameSet_iff hrx hra,
    sameSet_iff hrb hry, sameSet_iff hrx hrb, sameSet_iff hra hry]
  by_cases h1 : rx = rb <;> by_cases h2 : ry = rb <;> simp only [h1, h2, if_true, if_false] <;> grind

omit [DecidableEq α] in
theorem SameSet.refl {u : Forest α} (hu : u.Valid) {x : α} (hx : x ∈ u.ids) : SameSet u x x := by
  obtain ⟨r, hr⟩ := hu.rooted x hx
  exact ⟨r, hr, hr⟩

omit [DecidableEq α] in
theorem SameSet.symm {u : Forest α} {x y : α} (h : SameSet u x y) : SameSet u y x := by
  obtain ⟨r, hx, hy⟩ := h
  exact ⟨r, hy, hx⟩

omit [DecidableEq α] in
theorem SameSet.trans {u : Forest α} {x y z : α} (h : SameSet u x y) (h' : SameSet u y z) : SameSet u x z := by
  obtain ⟨r, hx, hy⟩ := h
  obtain ⟨s, hy', hz⟩ := h'
  obtain rfl := hy.unique hy'
  exact ⟨r, hx, hz⟩

theorem unionAll_valid {u : Forest α} (hu : u.Valid) {pairs : List (α × α)}
    (hpairs : ∀ p ∈ pairs, p.1 ∈ u.ids ∧ p.2 ∈ u.ids) :
    (unionAll u pairs).ids = u.ids ∧ (unionAll u pairs).Valid := by
  induction pairs generalizing u with
  | nil => exact ⟨rfl, hu⟩
  | cons p pairs ih =>
    obtain ⟨hp, hps⟩ := List.forall_mem_cons.1 hpairs
    obtain ⟨hids, hv, -⟩ := union_spec hu hp.1 hp.2
    obtain ⟨h1, h2⟩ := ih hv (by rw [hids]; exact hps)
    exact ⟨h1.trans hids, h2⟩

/-- Elements that end in one set are related by every equivalence that contains the old sets and the pairs. -/
private theorem sameSet_unionAll_le {E : α → α → Prop} (hE : Equivalence E) {u : Forest α} (hu : u.Valid)
    {pairs : List (α × α)} (hpairs : ∀ p ∈ pairs, p.1 ∈ u.ids ∧ p.2 ∈ u.ids)
    (hold : ∀ x ∈ u.ids, ∀ y ∈ u.ids, SameSet u x y → E x y) (hnew : ∀ p ∈ pairs, E p.1 p.2) :
    ∀ x ∈ u.ids, ∀ y ∈ u.ids, SameSet (unionAll u pairs) x y → E x y := by
  induction pairs generalizing u with
  | nil => exact hold
  | cons p pairs ih =>
    obtain ⟨⟨ha, hb⟩, hps⟩ := List.forall_mem_cons.1 hpairs
    obtain ⟨hEp, hEs⟩ := List.forall_mem_cons.1 hnew
    obtain ⟨hids, hv, -⟩ := union_spec hu ha hb
    rw [← hids]
    refine ih hv (by rw [hids]; exact hps) ?_ hEs
    rw [hids]
    intro x hx y hy h
    rcases (sameSet_union hu ha hb hx hy).1 h with h | ⟨h1, h2⟩ | ⟨h1, h2⟩
    · exact hold x hx y hy h
    · exact hE.trans (hold x hx _ ha h1) (hE.trans hEp (hold _ hb y hy h2))
    · exact hE.trans (hold x hx _ hb h1) (hE.trans (hE.symm hEp) (hold _ ha y hy h2))

/-- Sets only grow, and every pair ends in one set. -/
private theorem le_sameSet_unionAll {u : Forest α} (hu : u.Valid) {pairs : List (α × α)}
    (hpairs : ∀ p ∈ pairs, p.1 ∈ u.ids ∧ p.2 ∈ u.ids) :
    (∀ x ∈ u.ids, ∀ y ∈ u.ids, SameSet u x y → SameSet (unionAll u pairs) x y) ∧
      ∀ p ∈ pairs, SameSet (unionAll u pairs) p.1 p.2 := by
  induction pairs generalizing u with
  | nil => exact ⟨fun _ _ _ _ h => h, fun p hp => absurd hp (List.not_mem_nil)⟩
  | cons p pairs ih =>
    obtain ⟨⟨ha, hb⟩, hps⟩ := List.forall_mem_cons.1 hpairs
    obtain ⟨hids, hv, -⟩ := union_spec hu ha hb
    obtain ⟨hgrow, hall⟩ := ih hv (by rw [hids]; exact hps)
    rw [hids] at hgrow
    refine ⟨fun x hx y hy h => hgrow x hx y hy ((sameSet_union hu ha hb hx hy).2 (.inl h)), fun q hq => ?_⟩
    rcases List.mem_cons.1 hq with rfl | hq
    · refine hgrow _ ha _ hb ((sameSet_union hu ha hb ha hb).2 (.inr (.inl ⟨?_, ?_⟩)))
      · exact SameSet.refl hu ha
      · exact SameSet.refl hu hb
    · exact hall q hq

/-- Two elements are connected by the pairs of the list. -/
def Linked (pairs : List (α × α)) : α → α → Prop := Relation.EqvGen fun a b => (a, b) ∈ pairs

/-- The sets after uniting all pairs are the classes of the connection by pairs. -/
theorem sameSet_unionAll {ids : List α} {pairs : List (α × α)} (hpairs : ∀ p ∈ pairs, p.1 ∈ ids ∧ p.2 ∈ ids)
    {x y : α} (hx : x ∈ ids) (hy : y ∈ ids) : SameSet (unionAll (new ids) pairs) x y ↔ Linked pairs x y := by
  have hE : Equivalence (Linked pairs) := Relation.EqvGen.is_equivalence _
  constructor
  · refine sameSet_unionAll_le hE (new_valid ids) hpairs ?_ (fun p hp => .rel _ _ hp) x hx y hy
    intro a _ b _ h
    rw [sameSet_new.1 h]
    exact hE.refl b
  · intro h
    have hall := (le_sameSet_unionAll (new_valid ids) hpairs).2
    -- elements outside `ids` are connected only to themselves
    have key : ∀ a b, Linked pairs a b → a = b ∨ SameSet (unionAll (new ids) pairs) a b := by
      intro a b h
      induction h with
      | rel a b hab => exact .inr (hall (a, b) hab)
      | refl a => exact .inl rfl
      | symm a b _ ih =>
        rcases ih with rfl | h
        · exact .inl rfl
        · exact .inr h.symm
      | trans a b c _ _ ih1 ih2 =>
        rcases ih1 with rfl | h1
        · exact ih2
        · rcases ih2 with rfl | h2
          · exact .inr h1
          · exact .inr (h1.trans h2)
    rcases key x y h with rfl | h
    · obtain ⟨hids, hv⟩ := unionAll_valid (new_valid ids) hpairs
      exact SameSet.refl hv (by rw [hids]; exact hx)
    · exact h

end UnionFind
