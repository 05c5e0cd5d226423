import Mathlib.Data.List.AList
import Mathlib.Data.List.Enum
import Mathlib.Data.List.Nodup

/-!
# Hash joins

Two lists of rows are joined on their keys through an index of the right rows.  The index has one row a key, the last
one (`partner`), and of the right rows whose key no left row has, the first one of each key is kept (`firsts`).

Rows are of any types.  A row of the result is known by the rows that it is made of (`JoinedRow`), and the joins
commute with every relabelling of the rows (`map_enrich`, `map_inner`, `map_outer`): joins of numbered rows say where
each row of the result comes from.

Every right row has a part in the outer join exactly if no two right rows have the same key (`forall_right_outer_iff`).
-/

namespace HashJoin

/-- A row of a result, by the rows that it is made of. -/
inductive JoinedRow (L R : Type) where
  | both (l : L) (r : R)
  | left (l : L)
  | right (r : R)

namespace JoinedRow

variable {L R L' R' : Type}

def left? : JoinedRow L R → Option L
  | both l _ => some l
  | left l => some l
  | right _ => none

def right? : JoinedRow L R → Option R
  | both _ r => some r
  | left _ => none
  | right r => some r

def map (f : L → L') (g : R → R') : JoinedRow L R → JoinedRow L' R'
  | both l r => both (f l) (g r)
  | left l => left (f l)
  | right r => right (g r)

@[simp] theorem left?_map (f : L → L') (g : R → R') (o : JoinedRow L R) : (o.map f g).left? = o.left?.map f := by
  cases o <;> rfl

@[simp] theorem right?_map (f : L → L') (g : R → R') (o : JoinedRow L R) : (o.map f g).right? = o.right?.map g := by
  cases o <;> rfl

end JoinedRow

variable {L R K : Type} [DecidableEq K] (lk : L → K) (rk : R → K)

/-- The index of the right rows: of two rows with one key the later one counts. -/
def index (rights : List R) : AList fun _ : K => R := rights.foldl (fun index r => index.insert (rk r) r) ∅

/-- The last of the rows with the key. -/
def partner (rights : List R) (k : K) : Option R := rights.reverse.find? fun r => rk r = k

/-- Some left row has the key. -/
def matched (lefts : List L) (k : K) : Bool := lefts.any fun l => lk l = k

/-- The first row of each key that is not used. -/
def firsts (used : K → Bool) : List R → List R
  | [] => []
  | r :: rights => if used (rk r) then firsts used rights else r :: firsts (fun k => used k || k = rk r) rights

def enrichRow (rights : List R) (l : L) : JoinedRow L R :=
  match partner rk rights (lk l) with
  | some r => .both l r
  | none => .left l

def enrich (lefts : List L) (rights : List R) : List (JoinedRow L R) := lefts.map (enrichRow lk rk rights)

def inner (lefts : List L) (rights : List R) : List (JoinedRow L R) :=
  lefts.filterMap fun l => (partner rk rights (lk l)).map (JoinedRow.both l)

def outer (lefts : List L) (rights : List R) : List (JoinedRow L R) :=
  enrich lk rk lefts rights ++ (firsts rk (matched lk lefts) rights).map .right

variable {lk rk} {lefts : List L} {rights : List R} {k : K}

/-! ### The index -/

private theorem lookup_foldl_insert (m : AList fun _ : K => R) :
    (rights.foldl (fun index r => index.insert (rk r) r) m).lookup k = (partner rk rights k).or (m.lookup k) := by
  induction rights generalizing m with
  | nil => rfl
  | cons r rights ih =>
    have hcons : partner rk (r :: rights) k = (partner rk rights k).or (if rk r = k then some r else none) := by
      by_cases h : rk r = k <;> simp [partner, List.find?_append, h]
    rw [List.foldl_cons, ih, hcons, Option.or_assoc]
    congr 1
    split_ifs with h
    · rw [h, AList.lookup_insert, Option.some_or]
    · rw [AList.lookup_insert_ne (Ne.symm h), Option.none_or]

theorem lookup_index : (index rk rights).lookup k = partner rk rights k := by
  rw [index, lookup_foldl_insert, AList.lookup_empty, Option.or_none]

private theorem mem_of_partner {r : R} (h : partner rk rights k = some r) : r ∈ rights ∧ rk r = k := by
  have hmem := List.mem_of_find?_eq_some h
  have hkey := List.find?_some h
  exact ⟨List.mem_reverse.1 hmem, of_decide_eq_true hkey⟩

theorem partner_eq_none : partner rk rights k = none ↔ ∀ r ∈ rights, rk r ≠ k := by
  simp [partner]

theorem isSome_partner : (partner rk rights k).isSome = rights.any fun r => k = rk r := by
  rw [Bool.eq_iff_iff, Option.isSome_iff_ne_none, Ne, partner_eq_none, List.any_eq_true]
  push Not
  exact exists_congr fun r => and_congr_right fun _ => by rw [decide_eq_true_eq, eq_comm]

/-- Without repeated keys the partner is the row with the key. -/
private theorem partner_of_nodup (h : (rights.map rk).Nodup) {r : R} (hr : r ∈ rights) :
    partner rk rights (rk r) = some r := by
  cases hp : partner rk rights (rk r) with
  | none => exact absurd rfl (partner_eq_none.1 hp r hr)
  | some r' =>
    obtain ⟨hr', hkey⟩ := mem_of_partner hp
    rw [List.inj_on_of_nodup_map h hr' hr hkey]

private theorem matched_iff : matched lk lefts k = true ↔ ∃ l ∈ lefts, lk l = k := by
  simp [matched]

/-! ### The first row of each key -/

private theorem mem_of_mem_firsts {used : K → Bool} {r : R} (h : r ∈ firsts rk used rights) :
    r ∈ rights ∧ used (rk r) = false := by
  induction rights generalizing used with
  | nil => cases h
  | cons r' rights ih =>
    rw [firsts] at h
    split_ifs at h with hused
    · obtain ⟨hmem, hr⟩ := ih h
      exact ⟨List.mem_cons_of_mem _ hmem, hr⟩
    · rcases List.mem_cons.1 h with rfl | h
      · exact ⟨List.mem_cons_self, by simpa using hused⟩
      · obtain ⟨hmem, hr⟩ := ih h
        exact ⟨List.mem_cons_of_mem _ hmem, (Bool.or_eq_false_iff.1 hr).1⟩

private theorem nodup_firsts (used : K → Bool) : ((firsts rk used rights).map rk).Nodup := by
  induction rights generalizing used with
  | nil => exact List.nodup_nil
  | cons r rights ih =>
    rw [firsts]
    split_ifs with hused
    · exact ih used
    · rw [List.map_cons, List.nodup_cons]
      refine ⟨fun hmem => ?_, ih _⟩
      obtain ⟨r', hr', hkey⟩ := List.mem_map.1 hmem
      have hunused := (mem_of_mem_firsts hr').2
      simp [hkey] at hunused

/-- Which keys count as used matters for the keys of the rows only. -/
theorem firsts_congr {used used' : K → Bool} (h : ∀ r ∈ rights, used (rk r) = used' (rk r)) :
    firsts rk used rights = firsts rk used' rights := by
  induction rights generalizing used used' with
  | nil => rfl
  | cons r rights ih =>
    have hrest : ∀ r' ∈ rights, used (rk r') = used' (rk r') := fun r' hr' => h r' (List.mem_cons_of_mem _ hr')
    rw [firsts, firsts, h r List.mem_cons_self, ih hrest]
    congr 2
    exact ih fun r' hr' => by rw [hrest r' hr']

/-- Without repeated keys every row with an unused key is kept. -/
theorem firsts_of_nodup (h : (rights.map rk).Nodup) (used : K → Bool) :
    firsts rk used rights = rights.filter fun r => !used (rk r) := by
  induction rights generalizing used with
  | nil => rfl
  | cons r rights ih =>
    rw [List.map_cons, List.nodup_cons] at h
    have hother : firsts rk (fun k => used k || k = rk r) rights = firsts rk used rights := by
      refine firsts_congr fun r' hr' => ?_
      have hne : rk r' ≠ rk r := fun hkey => h.1 (List.mem_map.2 ⟨r', hr', hkey⟩)
      simp [hne]
    rw [firsts, hother, ih h.2]
    cases hused : used (rk r) with
    | true => simp [hused]
    | false => simp [hused]

/-! ### Where the rows of a result come from -/

@[simp] theorem left?_enrichRow (l : L) : (enrichRow lk rk rights l).left? = some l := by
  unfold enrichRow
  split <;> rfl

private theorem right?_enrichRow (l : L) : (enrichRow lk rk rights l).right? = partner rk rights (lk l) := by
  unfold enrichRow
  split <;> simp_all [JoinedRow.right?]

variable (lk rk lefts rights) in
/-- The row is made of rows of the two lists, with the same key. -/
def MadeOf : JoinedRow L R → Prop
  | .both l r => l ∈ lefts ∧ r ∈ rights ∧ lk l = rk r
  | .left l => l ∈ lefts
  | .right r => r ∈ rights

private theorem madeOf_enrichRow {l : L} (h : l ∈ lefts) : MadeOf lk rk lefts rights (enrichRow lk rk rights l) := by
  unfold enrichRow
  split
  · rename_i r hr
    obtain ⟨hmem, hkey⟩ := mem_of_partner hr
    exact ⟨h, hmem, hkey.symm⟩
  · exact h

theorem madeOf_of_mem_inner {o : JoinedRow L R} (h : o ∈ inner lk rk lefts rights) : MadeOf lk rk lefts rights o := by
  obtain ⟨l, hl, ho⟩ := List.mem_filterMap.1 h
  obtain ⟨r, hr, rfl⟩ := Option.map_eq_some_iff.1 ho
  obtain ⟨hmem, hkey⟩ := mem_of_partner hr
  exact ⟨hl, hmem, hkey.symm⟩

theorem madeOf_of_mem_outer {o : JoinedRow L R} (h : o ∈ outer lk rk lefts rights) : MadeOf lk rk lefts rights o := by
  rcases List.mem_append.1 h with h | h
  · obtain ⟨l, hl, rfl⟩ := List.mem_map.1 h
    exact madeOf_enrichRow hl
  · obtain ⟨r, hr, rfl⟩ := List.mem_map.1 h
    exact (mem_of_mem_firsts hr).1

omit [DecidableEq K] in
theorem mem_right_of_madeOf {o : JoinedRow L R} (h : MadeOf lk rk lefts rights o) {r : R} (ho : o.right? = some r) :
    r ∈ rights := by
  cases o with
  | both l r' => exact Option.some.inj ho ▸ h.2.1
  | left l => cases ho
  | right r' => exact Option.some.inj ho ▸ h

theorem map_left?_enrich : (enrich lk rk lefts rights).map JoinedRow.left? = lefts.map some := by
  rw [enrich, List.map_map]
  exact List.map_congr_left fun l _ => left?_enrichRow l

theorem map_left?_inner :
    (inner lk rk lefts rights).map JoinedRow.left? =
      (lefts.filter fun l => (partner rk rights (lk l)).isSome).map some := by
  induction lefts with
  | nil => rfl
  | cons l lefts ih =>
    rw [inner] at ih ⊢
    cases hp : partner rk rights (lk l) with
    | none => simp [hp, ih]
    | some r => simp [hp, ih, JoinedRow.left?]

/-- A right row in the outer join is the partner of its key, or the first row of a key that no left row has. -/
private theorem right_of_mem_outer {o : JoinedRow L R} {r : R} (h : o ∈ outer lk rk lefts rights)
    (ho : o.right? = some r) :
    (matched lk lefts (rk r) = true ∧ partner rk rights (rk r) = some r) ∨
      (matched lk lefts (rk r) = false ∧ r ∈ firsts rk (matched lk lefts) rights) := by
  rcases List.mem_append.1 h with h | h
  · left
    obtain ⟨l, hl, rfl⟩ := List.mem_map.1 h
    rw [right?_enrichRow] at ho
    have hkey := (mem_of_partner ho).2
    rw [hkey]
    exact ⟨matched_iff.2 ⟨l, hl, rfl⟩, ho⟩
  · right
    obtain ⟨r', hr', rfl⟩ := List.mem_map.1 h
    obtain rfl : r' = r := Option.some.inj ho
    exact ⟨(mem_of_mem_firsts hr').2, hr'⟩

variable (lk rk rights) in
theorem exists_left_outer {l : L} (h : l ∈ lefts) : ∃ o ∈ outer lk rk lefts rights, o.left? = some l := by
  refine ⟨enrichRow lk rk rights l, List.mem_append_left _ (List.mem_map_of_mem h), left?_enrichRow l⟩

variable (lk rk lefts) in
/-- Every right row has a part in the outer join exactly if no two right rows have the same key. -/
theorem forall_right_outer_iff (hnodup : rights.Nodup) :
    (∀ r ∈ rights, ∃ o ∈ outer lk rk lefts rights, o.right? = some r) ↔ (rights.map rk).Nodup := by
  constructor
  · intro h
    refine hnodup.map_on fun a ha b hb hkey => ?_
    obtain ⟨o, ho, hoa⟩ := h a ha
    obtain ⟨o', ho', hob⟩ := h b hb
    rcases right_of_mem_outer ho hoa with ⟨hma, hpa⟩ | ⟨hma, hfa⟩ <;>
      rcases right_of_mem_outer ho' hob with ⟨hmb, hpb⟩ | ⟨hmb, hfb⟩
    · rw [hkey, hpb] at hpa
      exact (Option.some.inj hpa).symm
    · rw [hkey, hmb] at hma
      cases hma
    · rw [hkey, hmb] at hma
      cases hma
    · exact List.inj_on_of_nodup_map (nodup_firsts _) hfa hfb hkey
  · intro h r hr
    cases hm : matched lk lefts (rk r) with
    | true =>
      obtain ⟨l, hl, hkey⟩ := matched_iff.1 hm
      refine ⟨enrichRow lk rk rights l, List.mem_append_left _ (List.mem_map_of_mem hl), ?_⟩
      rw [right?_enrichRow, hkey, partner_of_nodup h hr]
    | false =>
      refine ⟨.right r, List.mem_append_right _ (List.mem_map_of_mem ?_), rfl⟩
      rw [firsts_of_nodup h]
      exact List.mem_filter.2 ⟨hr, by rw [hm]; rfl⟩

/-! ### Relabelling -/

section Map

variable {L' R' : Type} (f : L' → L) (g : R' → R) (lefts : List L') (rights : List R')

private theorem partner_map : partner rk (rights.map g) k = (partner (rk ∘ g) rights k).map g := by
  simp only [partner, ← List.map_reverse, List.find?_map]
  rfl

private theorem firsts_map (used : K → Bool) : firsts rk used (rights.map g) = (firsts (rk ∘ g) used rights).map g := by
  induction rights generalizing used with
  | nil => rfl
  | cons r rights ih =>
    rw [List.map_cons, firsts, firsts, ih, ih, Function.comp_apply]
    split_ifs with h
    · rfl
    · rw [List.map_cons]

private theorem enrichRow_map (l : L') :
    enrichRow lk rk (rights.map g) (f l) = (enrichRow (lk ∘ f) (rk ∘ g) rights l).map f g := by
  rw [enrichRow, enrichRow, partner_map, Function.comp_apply]
  cases partner (rk ∘ g) rights (lk (f l)) with
  | none => rfl
  | some r => rfl

theorem map_enrich :
    enrich lk rk (lefts.map f) (rights.map g) = (enrich (lk ∘ f) (rk ∘ g) lefts rights).map (JoinedRow.map f g) := by
  rw [enrich, enrich, List.map_map, List.map_map]
  exact List.map_congr_left fun l _ => enrichRow_map f g rights l

theorem map_inner :
    inner lk rk (lefts.map f) (rights.map g) = (inner (lk ∘ f) (rk ∘ g) lefts rights).map (JoinedRow.map f g) := by
  rw [inner, inner, List.filterMap_map, List.map_filterMap]
  refine List.filterMap_congr fun l _ => ?_
  rw [Function.comp_apply, partner_map, Function.comp_apply]
  cases partner (rk ∘ g) rights (lk (f l)) with
  | none => rfl
  | some r => rfl

theorem map_outer :
    outer lk rk (lefts.map f) (rights.map g) = (outer (lk ∘ f) (rk ∘ g) lefts rights).map (JoinedRow.map f g) := by
  have hmatched : matched lk (lefts.map f) = matched (lk ∘ f) lefts := by
    funext k
    simp [matched, List.any_map, Function.comp_def]
  rw [outer, outer, map_enrich, firsts_map, hmatched, List.map_append, List.map_map, List.map_map]
  rfl

end Map

end HashJoin
