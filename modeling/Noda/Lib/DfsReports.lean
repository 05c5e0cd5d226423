import Noda.Lib.Dfs

/-!
# The reports of a depth-first search

A vertex that has reported a cycle stays gray after it has left the stack.  A later edge to it is reported too, and
the path of that report is no walk: it climbs over the root of the stack.  `dflt`, the parent of the vertices without
a parent, is a vertex without successors here.

* `Steps.reports_genuine`: no order of the search leads to such an edge if each vertex on a cycle has no other source
  than itself, or occurs once among all successors (`Settled`);
* `exists_misleading_order`: otherwise there is an order of the vertices and of their successors in which the search
  reports a path that is no closed walk.
-/

namespace Dfs

variable {α : Type} [DecidableEq α] {succ : α → List α} {dflt : α} {bound : Nat}

/-! ### Edges to a vertex that is not on the stack -/

/-- Climbing from the top of the stack to a vertex that is not on it passes the root. -/
theorem Frames.climb_past {st : State α} {above : Option α} {f : α × List α} {stack : List (α × List α)} {target : α}
    {fuel : Nat} (h : Frames succ st above (f :: stack)) (ht : target ∉ (f :: stack).map Prod.fst)
    (hfuel : stack.length < fuel) :
    ∃ root more, f.1 :: Dfs.climb dflt st.parent target fuel f.1 =
      (f :: stack).map Prod.fst ++ dflt :: more ∧ ((f :: stack).map Prod.fst).getLast? = some root := by
  induction stack generalizing f above fuel with
  | nil =>
    obtain ⟨-, hpar, -⟩ := h
    obtain ⟨fuel, rfl⟩ : ∃ m, fuel = m + 1 := ⟨fuel - 1, by simp only [List.length_nil] at hfuel; omega⟩
    have hne : f.1 ≠ target := by
      rintro rfl
      simp at ht
    have hup : st.parent f.1 = none := hpar
    refine ⟨f.1, Dfs.climb dflt st.parent target fuel dflt, ?_, rfl⟩
    simp [Dfs.climb, hne, hup]
  | cons p stack ih =>
    obtain ⟨-, hpar, -, hrest⟩ := h
    obtain ⟨fuel, rfl⟩ : ∃ m, fuel = m + 1 := ⟨fuel - 1, by simp only [List.length_cons] at hfuel; omega⟩
    have hne : f.1 ≠ target := by
      rintro rfl
      simp at ht
    have hup : st.parent f.1 = some p.1 := hpar
    have hclimb : Dfs.climb dflt st.parent target (fuel + 1) f.1 = p.1 :: Dfs.climb dflt st.parent target fuel p.1 := by
      simp [Dfs.climb, hne, hup]
    have ht' : target ∉ (p :: stack).map Prod.fst := fun hmem => ht (List.mem_cons_of_mem _ hmem)
    have hfuel' : stack.length < fuel := by
      simp only [List.length_cons] at hfuel
      omega
    obtain ⟨root, more, heq, hlast⟩ := ih hrest ht' hfuel'
    refine ⟨root, more, ?_, ?_⟩
    · rw [hclimb, heq]
      rfl
    · rw [List.map_cons, List.map_cons, List.getLast?_cons_cons]
      exact hlast

/-- A report whose target is not on the stack is no closed walk. -/
theorem Inv.report_bogus {n t : α} {rest : List α} {stack : List (α × List α)} {todo keys : List α} {st : State α}
    (hkeys : ∀ x, succ x ≠ [] → x ∈ keys) (hbound : keys.length ≤ bound) (hdflt : succ dflt = [])
    (h : Inv succ ⟨(n, t :: rest) :: stack, todo, st⟩) (ht : t ∉ ((n, t :: rest) :: stack).map Prod.fst) :
    ¬ ClosedWalk succ (st.cycle dflt bound n t) := by
  have hne : succ n ≠ [] := List.ne_nil_of_mem h.frames.1.edge
  have hlen : stack.length < bound := by
    have hsub := h.frames.mem_keys hkeys hne
    have hle := (List.subperm_of_subset h.nodup hsub).length_le
    simp only [List.map_cons, List.length_cons, List.length_map] at hle
    omega
  obtain ⟨root, more, heq, hlast⟩ : ∃ root more, n :: Dfs.climb dflt st.parent t bound n =
      ((n, t :: rest) :: stack).map Prod.fst ++ dflt :: more ∧
        (((n, t :: rest) :: stack).map Prod.fst).getLast? = some root := h.frames.climb_past ht hlen
  intro hwalk
  have hchain : (t :: (((n, t :: rest) :: stack).map Prod.fst ++ dflt :: more)).IsChain (fun a b => Edge succ b a) := by
    have hedges := List.isChain_reverse.mp hwalk.edges
    rwa [heq] at hedges
  -- the edge from `dflt` to the root
  have hroot : Edge succ dflt root := by
    have hsplit := List.isChain_append.mp (List.isChain_of_isChain_cons hchain)
    exact hsplit.2.2 root hlast dflt rfl
  rw [Edge, hdflt] at hroot
  cases hroot

/-! ### Graphs without misleading reports -/

/-- No other vertex than `u` has `u` as a successor, or `u` occurs only once among the successors of the vertices. -/
def Settled (succ : α → List α) (keys : List α) (u : α) : Prop :=
  (∀ x, Edge succ x u → x = u) ∨ (keys.flatMap succ).count u ≤ 1

/-- Two occurrences among the successors of one vertex, or of two, are two occurrences. -/
private theorem count_lt_of_edges {keys : List α} (hkeys : ∀ x, succ x ≠ [] → x ∈ keys) {x y u : α} (hx : Edge succ x u)
    (hy : Edge succ y u) (hxy : x = y → 2 ≤ (succ x).count u) : 2 ≤ (keys.flatMap succ).count u := by
  obtain ⟨l₁, l₂, rfl⟩ := List.append_of_mem (hkeys x (List.ne_nil_of_mem hx))
  have hpos : 0 < (succ x).count u := List.count_pos_iff.mpr hx
  simp only [List.flatMap_append, List.flatMap_cons, List.count_append]
  by_cases he : x = y
  · have hcount := hxy he
    omega
  · have hmem : y ∈ l₁ ∨ y ∈ l₂ := by
      have := hkeys y (List.ne_nil_of_mem hy)
      simpa [Ne.symm he] using this
    have hother : 0 < (l₁.flatMap succ).count u + (l₂.flatMap succ).count u := by
      rcases hmem with hmem | hmem
      · have : 0 < (l₁.flatMap succ).count u := List.count_pos_iff.mpr (List.mem_flatMap.mpr ⟨y, hmem, hy⟩)
        omega
      · have : 0 < (l₂.flatMap succ).count u := List.count_pos_iff.mpr (List.mem_flatMap.mpr ⟨y, hmem, hy⟩)
        omega
    omega

/-- A report that is right, with what is still known of its vertex afterwards. -/
structure Genuine (succ : α → List α) (st : State α) (r : Report α) : Prop where
  walk : ClosedWalk succ r.path
  onCycle : OnCycle succ r.node
  colored : st.color r.node ≠ .white
  root : st.parent r.node = none → Edge succ r.node r.node

structure ReportsInv (succ : α → List α) (c : Config α) : Prop extends Inv succ c where
  genuine : ∀ r ∈ c.state.reports, Genuine succ c.state r

section Settled

variable {keys : List α} (hkeys : ∀ x, succ x ≠ [] → x ∈ keys) (hbound : keys.length ≤ bound + 1)
  (hsettled : ∀ u, OnCycle succ u → Settled succ keys u)

include hkeys hsettled in
/-- The search comes upon no vertex that has left the stack gray. -/
theorem ReportsInv.mem_stack {n t : α} {rest : List α} {stack : List (α × List α)} {todo : List α} {st : State α}
    (h : ReportsInv succ ⟨(n, t :: rest) :: stack, todo, st⟩) (ht : st.color t = .gray) :
    t ∈ ((n, t :: rest) :: stack).map Prod.fst := by
  rcases h.gray t ht with hmem | ⟨r, hr, hrt⟩
  · exact hmem
  · by_contra hmem
    have hne : n ≠ t := by
      rintro rfl
      simp at hmem
    obtain ⟨seen, hsucc, hchildren, -⟩ := h.frames.1.seen
    have hsucc' : succ n = seen ++ t :: rest := hsucc
    have hedge := h.frames.1.edge
    have hgenuine := h.genuine r hr
    rw [← hrt] at hne hedge hmem
    rcases hsettled r.node hgenuine.onCycle with honly | honce
    · exact hne (honly n hedge)
    · cases hparent : st.parent r.node with
      | none =>
        have hself := hgenuine.root hparent
        have := count_lt_of_edges hkeys hedge hself (fun he => absurd he hne)
        omega
      | some y =>
        have hyedge : Edge succ y r.node := (h.parents r.node y hparent).1
        have := count_lt_of_edges hkeys hedge hyedge fun he => by
          have hseen : t ∈ seen := hchildren t (by rw [he, ← hrt]; exact hparent)
          rw [hsucc', hrt, List.count_append, List.count_cons_self]
          have : 0 < seen.count t := List.count_pos_iff.mpr hseen
          omega
        omega

omit hkeys hbound hsettled in
/-- What is known of a report remains so: no vertex becomes white, and only white vertices get a parent. -/
theorem Genuine.step {c c' : Config α} (hs : Step succ dflt bound c c') {r : Report α} (h : Genuine succ c.state r) :
    Genuine succ c'.state r := by
  refine ⟨h.walk, h.onCycle, hs.color_ne_white h.colored, ?_⟩
  cases hs with
  | root | skip | leave | hit | pass => exact h.root
  | @child n t rest stack todo st ht =>
    have hne : r.node ≠ t := fun he => h.colored (he ▸ ht)
    intro hparent
    exact h.root ((State.adopt_parent_of_ne hne).symm.trans hparent)

include hkeys hbound hsettled in
theorem ReportsInv.step {c c' : Config α} (h : ReportsInv succ c) (hs : Step succ dflt bound c c') :
    ReportsInv succ c' := by
  have hold : ∀ r ∈ c.state.reports, Genuine succ c'.state r := fun r hr => (h.genuine r hr).step hs
  refine ⟨h.toInv.step hs, ?_⟩
  cases hs with
  | root | skip | leave | child | pass => exact hold
  | @hit n t rest stack todo st ht =>
    have hmem := h.mem_stack hkeys hsettled ht
    have hnew : ClosedWalk succ (st.cycle dflt bound n t) ∧ OnCycle succ n :=
      h.toInv.report_genuine hkeys hbound hmem
    obtain ⟨hf, hpar, -⟩ := h.frames
    have hgray : st.color n ≠ .white := by
      rw [show st.color n = .gray from hf.gray]
      decide
    intro r hr
    rcases List.mem_append.mp hr with hr | hr
    · exact hold r hr
    · rw [List.mem_singleton.mp hr]
      refine ⟨hnew.1, hnew.2, hgray, fun hroot => ?_⟩
      -- a vertex without a parent is alone on the stack
      have hstack : stack = [] := by
        have hhead : stack.head?.map Prod.fst = none := hpar.symm.trans hroot
        simpa using hhead
      subst hstack
      obtain rfl : t = n := by simpa using hmem
      exact hf.edge

include hkeys hbound hsettled in
theorem Steps.reports_genuine {todo : List α} {c : Config α} (h : Steps succ dflt bound ⟨[], todo, {}⟩ c) :
    ∀ r ∈ c.state.reports, ClosedWalk succ r.path := by
  have hinv : ReportsInv succ c :=
    h.invariant ⟨Inv.initial todo, by simp⟩ fun _ _ => ReportsInv.step hkeys hbound hsettled
  exact fun r hr => (hinv.genuine r hr).walk

end Settled

/-! ### A misleading report -/

/-- `b` is the first successor of `a`. -/
def First (succ : α → List α) (a b : α) : Prop := (succ a).head? = some b

theorem Step.right_unique {c c₁ c₂ : Config α} (h₁ : Step succ dflt bound c c₁) (h₂ : Step succ dflt bound c c₂) :
    c₁ = c₂ := by
  cases h₁ with
  | root hk =>
    cases h₂ with
    | root _ => rfl
    | skip hk' => exact absurd hk hk'
  | skip hk =>
    cases h₂ with
    | root hk' => exact absurd hk' hk
    | skip _ => rfl
  | leave =>
    cases h₂ with
    | leave => rfl
  | hit ht =>
    cases h₂ with
    | hit _ => rfl
    | child ht' => cases ht.symm.trans ht'
    | pass ht' => cases ht.symm.trans ht'
  | child ht =>
    cases h₂ with
    | hit ht' => cases ht.symm.trans ht'
    | child _ => rfl
    | pass ht' => cases ht.symm.trans ht'
  | pass ht =>
    cases h₂ with
    | hit ht' => cases ht.symm.trans ht'
    | child ht' => cases ht.symm.trans ht'
    | pass _ => rfl

/-- A search that comes to its end passes through every configuration it can come to. -/
theorem Steps.to_end {c c' : Config α} {st : State α} (h : Steps succ dflt bound c c')
    (hend : Steps succ dflt bound c ⟨[], [], st⟩) : Steps succ dflt bound c' ⟨[], [], st⟩ := by
  have hunique : Relator.RightUnique (Step succ dflt bound) := fun _ _ _ h₁ h₂ => h₁.right_unique h₂
  rcases Relation.ReflTransGen.total_of_right_unique hunique h hend with h' | h'
  · exact h'
  · rcases Relation.ReflTransGen.cases_head h' with rfl | ⟨c'', hs, -⟩
    · exact .refl
    · cases hs

/-- The vertex `u` has left the stack gray, and `w` is about to come upon it, or has done so. -/
structure Trap (succ : α → List α) (u w : α) (c : Config α) : Prop where
  gray : c.state.color u = .gray
  off : u ∉ c.stack.map Prod.fst
  waiting : c.state.color w = .white ∨ (∃ rest, c.stack.head? = some (w, u :: rest)) ∨
    ∃ r ∈ c.state.reports, ¬ ClosedWalk succ r.path

theorem Trap.step {keys : List α} (hkeys : ∀ x, succ x ≠ [] → x ∈ keys) (hbound : keys.length ≤ bound)
    (hdflt : succ dflt = []) {u w : α} (hw : First succ w u) {c c' : Config α} (hinv : Inv succ c)
    (h : Trap succ u w c) (hs : Step succ dflt bound c c') : Trap succ u w c' := by
  obtain ⟨hgray, hoff, hwaiting⟩ := h
  obtain ⟨tl, htl⟩ : ∃ tl, succ w = u :: tl := List.head?_eq_some_iff.mp hw
  cases hs with
  | @root k todo st hk =>
    have huk : u ≠ k := ne_of_color hgray hk (by decide)
    refine ⟨by rwa [State.paint_color_of_ne _ huk], by simpa using huk, ?_⟩
    rcases hwaiting with hwhite | ⟨rest, hhead⟩ | hbogus
    · by_cases hwk : w = k
      · exact .inr (.inl ⟨tl, by simp [← hwk, htl]⟩)
      · exact .inl (by rwa [State.paint_color_of_ne _ hwk])
    · cases hhead
    · exact .inr (.inr hbogus)
  | skip _ => exact ⟨hgray, hoff, hwaiting⟩
  | @leave n stack todo st =>
    have hn : st.color n = .gray := hinv.frames.1.gray
    have hun : u ≠ n := by
      rintro rfl
      simp at hoff
    refine ⟨by rwa [State.paint_color_of_ne _ hun], fun hmem => hoff (List.mem_cons_of_mem _ hmem), ?_⟩
    rcases hwaiting with hwhite | ⟨rest, hhead⟩ | hbogus
    · have hwn : w ≠ n := ne_of_color hwhite hn (by decide)
      exact .inl (by rwa [State.paint_color_of_ne _ hwn])
    · cases hhead
    · exact .inr (.inr hbogus)
  | @hit n t rest stack todo st ht =>
    refine ⟨hgray, fun hmem => hoff (List.mem_cons_of_mem _ hmem), ?_⟩
    rcases hwaiting with hwhite | ⟨rest', hhead⟩ | ⟨r, hr, hbogus⟩
    · exact .inl hwhite
    · -- the edge from `w` to `u`
      cases hhead
      refine .inr (.inr ⟨_, List.mem_append_right _ List.mem_cons_self, ?_⟩)
      exact hinv.report_bogus hkeys hbound hdflt hoff
    · exact .inr (.inr ⟨r, List.mem_append_left _ hr, hbogus⟩)
  | @child n t rest stack todo st ht =>
    have hut : u ≠ t := ne_of_color hgray ht (by decide)
    have hoff' : u ∉ t :: ((n, t :: rest) :: stack).map Prod.fst := by
      rw [List.mem_cons, not_or]
      exact ⟨hut, hoff⟩
    refine ⟨by rwa [State.paint_color_of_ne _ hut], hoff', ?_⟩
    rcases hwaiting with hwhite | ⟨rest', hhead⟩ | hbogus
    · by_cases hwt : w = t
      · exact .inr (.inl ⟨tl, by simp [← hwt, htl]⟩)
      · exact .inl (by rwa [State.paint_color_of_ne _ hwt])
    · cases hhead
      exact absurd rfl hut
    · exact .inr (.inr hbogus)
  | @pass n t rest stack todo st ht =>
    refine ⟨hgray, hoff, ?_⟩
    rcases hwaiting with hwhite | ⟨rest', hhead⟩ | hbogus
    · exact .inl hwhite
    · cases hhead
      cases hgray.symm.trans ht
    · exact .inr (.inr hbogus)

/-- The search follows a path of white vertices, each the first successor of the one before it. -/
theorem Steps.path {u : α} (todo front : List α) (stack : List (α × List α)) {st : State α} {x : α}
    (hx : (front ++ [u]).head? = some x) (hchain : (front ++ [u]).IsChain (First succ)) (hnodup : (front ++ [u]).Nodup)
    (hwhite : ∀ y ∈ (front ++ [u]).tail, st.color y = .white) :
    ∃ st', Steps succ dflt bound ⟨(x, succ x) :: stack, todo, st⟩
        ⟨(u, succ u) :: (front.reverse.map fun p => (p, (succ p).tail)) ++ stack, todo, st'⟩ ∧
      ∀ y ∉ (front ++ [u]).tail, st'.color y = st.color y := by
  induction front generalizing stack st x with
  | nil =>
    obtain rfl : u = x := by simpa using hx
    exact ⟨st, .refl, fun _ _ => rfl⟩
  | cons q front ih =>
    obtain rfl : q = x := by simpa using hx
    obtain ⟨y, rest, hy⟩ : ∃ y rest, front ++ [u] = y :: rest := List.exists_cons_of_ne_nil (by simp)
    simp only [List.cons_append, List.tail_cons] at hwhite ⊢
    rw [List.cons_append, hy, List.isChain_cons_cons] at hchain
    obtain ⟨hfirst, hchain⟩ := hchain
    rw [List.cons_append, List.nodup_cons] at hnodup
    obtain ⟨tl, htl⟩ : ∃ tl, succ q = y :: tl := List.head?_eq_some_iff.mp hfirst
    have hywhite : st.color y = .white := hwhite y (by simp [hy])
    have hyrest : y ∉ rest := by
      have := hnodup.2
      rw [hy] at this
      exact (List.nodup_cons.mp this).1
    have hpaint : ∀ z, z ≠ y → ((st.adopt y q).paint y .gray).color z = st.color z :=
      fun z hz => State.paint_color_of_ne _ hz
    have hwhite' : ∀ z ∈ (front ++ [u]).tail, ((st.adopt y q).paint y .gray).color z = .white := by
      intro z hz
      have hz' : z ∈ rest := by simpa [hy] using hz
      have hzy : z ≠ y := fun he => hyrest (he ▸ hz')
      rw [hpaint z hzy]
      exact hwhite z (by simp [hy, hz'])
    have hhead : (front ++ [u]).head? = some y := by rw [hy]; rfl
    obtain ⟨st', hsteps, hcolor⟩ := ih ((q, tl) :: stack) hhead (hy ▸ hchain) hnodup.2 hwhite'
    refine ⟨st', ?_, fun z hz => ?_⟩
    · have hstep : Step succ dflt bound ⟨(q, succ q) :: stack, todo, st⟩
          ⟨(y, succ y) :: (q, tl) :: stack, todo, (st.adopt y q).paint y .gray⟩ := by
        rw [htl]
        exact .child hywhite
      have hstack : (q :: front).reverse.map (fun p => (p, (succ p).tail)) ++ stack =
          front.reverse.map (fun p => (p, (succ p).tail)) ++ (q, tl) :: stack := by
        simp [htl]
      rw [hstack]
      exact .head hstep hsteps
    · have hzy : z ≠ y := by
        rintro rfl
        simp [hy] at hz
      rw [hcolor z fun hmem => hz (List.mem_of_mem_tail hmem), hpaint z hzy]

/-- A cycle through `u` that the search follows from its first root, and a vertex `w` whose successors come upon `u`
afterwards: it is not on the cycle, or it is the vertex before `u` and has `u` twice. -/
structure Misleading (succ : α → List α) (front : List α) (s u w : α) : Prop where
  nodup : (front ++ [u]).Nodup
  start : (front ++ [u]).head? = some s
  chain : (front ++ [u]).IsChain (First succ)
  back : First succ u s
  first : First succ w u
  second : w ∉ front ++ [u] ∨ front.getLast? = some w ∧ First (fun x => (succ x).tail) w u

theorem Misleading.exists_bogus {front todo : List α} {s u w : α} (h : Misleading succ front s u w)
    (hkeys : ∀ x, succ x ≠ [] → x ∈ s :: todo) (hbound : (s :: todo).length ≤ bound) (hdflt : succ dflt = [])
    {st : State α} (hend : Steps succ dflt bound ⟨[], s :: todo, {}⟩ ⟨[], [], st⟩) :
    ∃ r ∈ st.reports, ¬ ClosedWalk succ r.path := by
  have hmem : s ∈ front ++ [u] := List.mem_of_head? h.start
  have hs : s ∉ (front ++ [u]).tail := by
    obtain ⟨tl, htl⟩ := List.head?_eq_some_iff.mp h.start
    rw [htl]
    exact (List.nodup_cons.mp (htl ▸ h.nodup)).1
  have hpaint : ∀ y, y ≠ s → ((({} : State α).paint s .gray).color y) = .white :=
    fun y hy => State.paint_color_of_ne _ hy
  have hwhite : ∀ y ∈ (front ++ [u]).tail, (({} : State α).paint s .gray).color y = .white :=
    fun y hy => hpaint y fun he => hs (he ▸ hy)
  obtain ⟨st', hsteps, hcolor⟩ : ∃ st', Steps succ dflt bound ⟨[(s, succ s)], todo, ({} : State α).paint s .gray⟩
        ⟨(u, succ u) :: (front.reverse.map fun p => (p, (succ p).tail)) ++ [], todo, st'⟩ ∧
      ∀ y ∉ (front ++ [u]).tail, st'.color y = (({} : State α).paint s .gray).color y :=
    Steps.path todo front [] h.start h.chain h.nodup hwhite
  rw [List.append_nil] at hsteps
  have hroot : Step succ dflt bound ⟨[], s :: todo, {}⟩ ⟨[(s, succ s)], todo, ({} : State α).paint s .gray⟩ := .root rfl
  obtain ⟨rest, hrest⟩ : ∃ rest, succ u = s :: rest := List.head?_eq_some_iff.mp h.back
  have hbefore : Steps succ dflt bound ⟨[], s :: todo, {}⟩
      ⟨(u, s :: rest) :: front.reverse.map fun p => (p, (succ p).tail), todo, st'⟩ := by
    rw [← hrest]
    exact .head hroot hsteps
  have hgray : st'.color s = .gray := by
    rw [hcolor s hs]
    exact State.paint_color_self _
  have hafter : Steps succ dflt bound ⟨[], s :: todo, {}⟩
      ⟨front.reverse.map fun p => (p, (succ p).tail), todo, st'.report dflt bound u s⟩ := .tail hbefore (.hit hgray)
  have hinv : Inv succ _ := (Inv.initial (s :: todo)).steps hbefore
  have htrap : Trap succ u w
      ⟨front.reverse.map fun p => (p, (succ p).tail), todo, st'.report dflt bound u s⟩ := by
    refine ⟨hinv.frames.1.gray, (List.nodup_cons.mp hinv.nodup).1, ?_⟩
    rcases h.second with hw | ⟨hlast, hw⟩
    · left
      rw [State.report_color, hcolor w fun hmem => hw (List.mem_of_mem_tail hmem)]
      exact hpaint w fun he => hw (he ▸ hmem)
    · right
      left
      obtain ⟨tl, htl⟩ : ∃ tl, (succ w).tail = u :: tl := List.head?_eq_some_iff.mp hw
      refine ⟨tl, ?_⟩
      simp [hlast, htl]
  have hfinal : Inv succ ⟨[], [], st⟩ ∧ Trap succ u w ⟨[], [], st⟩ :=
    (hafter.to_end hend).invariant (P := fun c => Inv succ c ∧ Trap succ u w c)
      ⟨(Inv.initial (s :: todo)).steps hafter, htrap⟩
      fun c c' hc hstep => ⟨hc.1.step hstep, hc.2.step hkeys hbound hdflt h.first hc.1 hstep⟩
  rcases hfinal.2.waiting with hwhite | ⟨tl, hhead⟩ | hbogus
  · have hwkeys : w ∈ s :: todo := hkeys w (List.ne_nil_of_mem (List.mem_of_head? h.first))
    rcases (hend.searchInv hkeys (by omega)).visited w hwkeys with htodo | hne
    · cases htodo
    · exact absurd hwhite hne
  · cases hhead
  · exact hbogus

/-! ### An order that misleads -/

/-- Every vertex that can be reached can be reached on a path without repetitions. -/
private theorem exists_nodup_path {s u : α} (h : Relation.ReflTransGen (Edge succ) s u) :
    ∃ path : List α, path.Nodup ∧ path.head? = some s ∧ path.getLast? = some u ∧ path.IsChain (Edge succ) := by
  induction h using Relation.ReflTransGen.head_induction_on with
  | refl => exact ⟨[u], by simp, rfl, rfl, by simp⟩
  | @head a c hac _ ih =>
    obtain ⟨path, hnodup, hhead, hlast, hchain⟩ := ih
    obtain ⟨tl, rfl⟩ := List.head?_eq_some_iff.mp hhead
    by_cases hmem : a ∈ c :: tl
    · -- the path passes `a`: start there
      obtain ⟨l₁, l₂, hsplit⟩ := List.append_of_mem hmem
      rw [hsplit] at hnodup hlast hchain
      refine ⟨a :: l₂, (List.nodup_append.mp hnodup).2.1, rfl, ?_, (List.isChain_append.mp hchain).2.1⟩
      rwa [List.getLast?_append_of_ne_nil _ (List.cons_ne_nil _ _)] at hlast
    · exact ⟨a :: c :: tl, List.nodup_cons.mpr ⟨hmem, hnodup⟩, rfl, by rwa [List.getLast?_cons_cons],
        List.isChain_cons_cons.mpr ⟨hac, hchain⟩⟩

/-- A vertex that occurs twice among all successors, but once at most among those of `p`, has another source. -/
private theorem exists_other_source {keys : List α} (hnodup : keys.Nodup) {u p : α}
    (h : 2 ≤ (keys.flatMap succ).count u)
    (hp : (succ p).count u ≤ 1) : ∃ w, w ≠ p ∧ Edge succ w u := by
  by_contra hno
  have hzero : ∀ l : List α, p ∉ l → (l.flatMap succ).count u = 0 := by
    intro l hl
    refine List.count_eq_zero.mpr fun hmem => ?_
    obtain ⟨w, hw, hedge⟩ := List.mem_flatMap.mp hmem
    exact hno ⟨w, fun he => hl (he ▸ hw), hedge⟩
  by_cases hmem : p ∈ keys
  · obtain ⟨l₁, l₂, rfl⟩ := List.append_of_mem hmem
    rw [List.nodup_middle, List.nodup_cons, List.mem_append, not_or] at hnodup
    have h₁ := hzero l₁ hnodup.1.1
    have h₂ := hzero l₂ hnodup.1.2
    simp only [List.flatMap_append, List.flatMap_cons, List.count_append] at h
    omega
  · have h₀ := hzero keys hmem
    omega

/-- A cycle through `u`, and a vertex `w` with an edge to `u` that the cycle does not use. -/
structure Reentered (succ : α → List α) (front : List α) (s u w : α) : Prop where
  nodup : (front ++ [u]).Nodup
  start : (front ++ [u]).head? = some s
  chain : (front ++ [u, s]).IsChain (Edge succ)
  edge : Edge succ w u
  other : w ∉ front ++ [u] ∨ front.getLast? = some w ∧ 2 ≤ (succ w).count u

private theorem exists_reentered {keys : List α} (hnodup : keys.Nodup) {u : α} (hu : OnCycle succ u)
    (h : ¬ Settled succ keys u) : ∃ front s w, Reentered succ front s u w := by
  rw [Settled, not_or] at h
  obtain ⟨hsource, hcount⟩ := h
  obtain ⟨x, hxu, hne⟩ : ∃ x, Edge succ x u ∧ x ≠ u := by
    by_contra hno
    exact hsource fun x hx => by_contra fun hne => hno ⟨x, hx, hne⟩
  by_cases hself : Edge succ u u
  · exact ⟨[], u, x, by simp, rfl, by simpa using hself, hxu, .inl (by simpa using hne)⟩
  obtain ⟨s, hus, hsu⟩ := Relation.TransGen.head'_iff.mp hu
  obtain ⟨path, hpath, hhead, hlast, hchain⟩ := exists_nodup_path hsu
  obtain ⟨front, rfl⟩ := List.getLast?_eq_some_iff.mp hlast
  have hfront : front ≠ [] := by
    rintro rfl
    obtain rfl : u = s := by simpa using hhead
    exact hself hus
  obtain ⟨front, p, rfl⟩ : ∃ front' p, front = front' ++ [p] :=
    ⟨_, _, (List.dropLast_append_getLast hfront).symm⟩
  have hback : ∀ l : List α, (l ++ [u]).IsChain (Edge succ) → (l ++ [u, s]).IsChain (Edge succ) := by
    intro l hl
    have : (l ++ [u] ++ [s]).IsChain (Edge succ) := List.isChain_append.mpr ⟨hl, by simp, by simpa using hus⟩
    simpa using this
  have hpu : Edge succ p u := by
    rw [List.append_assoc] at hchain
    exact (List.isChain_cons_cons.mp (List.isChain_append.mp hchain).2.1).1
  by_cases hp : 2 ≤ (succ p).count u
  · exact ⟨front ++ [p], s, p, hpath, hhead, hback _ hchain, hpu, .inr ⟨by simp, hp⟩⟩
  obtain ⟨w, hwp, hwu⟩ := exists_other_source hnodup (by omega) (show (succ p).count u ≤ 1 by omega)
  by_cases hw : w ∈ front ++ [p] ++ [u]
  · -- the shorter cycle over `w`, and `p` off it
    have hwfront : w ∈ front := by
      have hwu' : w ≠ u := by
        rintro rfl
        exact hself hwu
      simpa [hwp, hwu'] using hw
    obtain ⟨l₁, l₂, rfl⟩ := List.append_of_mem hwfront
    refine ⟨l₁ ++ [w], s, p, ?_, ?_, hback _ ?_, hpu, .inl ?_⟩
    · refine hpath.sublist ?_
      simp
    · rw [← hhead]
      cases l₁ <;> rfl
    · have hpre : (l₁ ++ [w]).IsChain (Edge succ) := by
        have hsplit : l₁ ++ w :: l₂ ++ [p] ++ [u] = (l₁ ++ [w]) ++ (l₂ ++ [p] ++ [u]) := by simp
        rw [hsplit] at hchain
        exact (List.isChain_append.mp hchain).1
      exact List.isChain_append.mpr ⟨hpre, by simp, by simpa using hwu⟩
    · intro hmem
      simp only [List.append_assoc, List.nodup_append, List.cons_append, List.nodup_cons, List.mem_append,
        List.mem_cons, List.nil_append] at hpath hmem
      grind
  · exact ⟨front ++ [p], s, w, hpath, hhead, hback _ hchain, hwu, .inl hw⟩

/-- The vertex behind `x` in a list, and `s` behind the last one. -/
def next (path : List α) (s x : α) : α := (path ++ [s]).getD (path.idxOf x + 1) x

omit [DecidableEq α] in
private theorem isChain_append_singleton_iff {R : α → α → Prop} {path : List α} {s : α} :
    (path ++ [s]).IsChain R ↔
      ∀ i x y, path[i]? = some x → (path ++ [s])[i + 1]? = some y → R x y := by
  rw [List.isChain_iff_getElem]
  constructor
  · intro h i x y hx hy
    obtain ⟨hi, rfl⟩ := List.getElem?_eq_some_iff.mp hx
    obtain ⟨hi', rfl⟩ := List.getElem?_eq_some_iff.mp hy
    have hR := h i hi'
    rwa [List.getElem_append_left hi] at hR
  · intro h i hi
    have hi' : i < path.length := by
      simp only [List.length_append, List.length_singleton] at hi
      omega
    rw [List.getElem_append_left hi']
    exact h i _ _ (List.getElem?_eq_getElem hi') (List.getElem?_eq_getElem hi)

private theorem getElem?_next {path : List α} {s x : α} (hnodup : path.Nodup) {i : Nat} (hx : path[i]? = some x) :
    (path ++ [s])[i + 1]? = some (next path s x) := by
  obtain ⟨hi, rfl⟩ := List.getElem?_eq_some_iff.mp hx
  have hi' : i + 1 < (path ++ [s]).length := by simpa using hi
  rw [next, hnodup.idxOf_getElem, List.getD_eq_getElem?_getD, List.getElem?_eq_getElem hi', Option.getD_some]

/-- The pairs of a cycle are a vertex and the next one. -/
private theorem isChain_iff_next {R : α → α → Prop} {path : List α} {s : α} (hnodup : path.Nodup) :
    (path ++ [s]).IsChain R ↔ ∀ x ∈ path, R x (next path s x) := by
  rw [isChain_append_singleton_iff]
  constructor
  · intro h x hx
    obtain ⟨i, hi⟩ := List.mem_iff_getElem?.mp hx
    exact h i x _ hi (getElem?_next hnodup hi)
  · intro h i x y hx hy
    rw [getElem?_next hnodup hx, Option.some.injEq] at hy
    rw [← hy]
    exact h x (List.mem_iff_getElem?.mpr ⟨i, hx⟩)

/-- The successors that come first: the next vertex of the cycle, and `u` at `w`. -/
def lead (path : List α) (s u w x : α) : List α :=
  (if x ∈ path then [next path s x] else []) ++ if x = w then [u] else []

/-- The successors in another order, those of `first` at the beginning. -/
def reorder (succ : α → List α) (first : α → List α) (x : α) : List α := first x ++ (succ x).diff (first x)

private theorem reorder_perm {first : α → List α} (h : ∀ x, (first x).Subperm (succ x)) (x : α) :
    (reorder succ first x).Perm (succ x) :=
  List.subperm_append_diff_self_of_count_le fun _ _ => (h x).count_le _

private theorem next_of_getLast? {front : List α} {u s w : α} (hnodup : (front ++ [u]).Nodup)
    (hw : front.getLast? = some w) :
    next (front ++ [u]) s w = u := by
  obtain ⟨front, rfl⟩ := List.getLast?_eq_some_iff.mp hw
  have hnext := getElem?_next (s := s) (i := front.length) hnodup (x := w) (by simp)
  rw [show (front ++ [w] ++ [u] ++ [s])[front.length + 1]? = some u by simp] at hnext
  exact (Option.some.inj hnext).symm

/-- In a suitable order of the successors, the search follows the cycle and comes upon `u` again. -/
theorem Reentered.exists_order {front : List α} {s u w : α} (h : Reentered succ front s u w) :
    ∃ succ', (∀ x, (succ' x).Perm (succ x)) ∧ Misleading succ' front s u w := by
  have hchain : (front ++ [u] ++ [s]).IsChain (Edge succ) := by simpa using h.chain
  have hedge := (isChain_iff_next h.nodup).mp hchain
  have hlead : ∀ x, (lead (front ++ [u]) s u w x).Subperm (succ x) := by
    intro x
    rw [lead]
    by_cases hx : x ∈ front ++ [u]
    · rw [if_pos hx]
      by_cases hxw : x = w
      · rcases h.other with hw | ⟨hlast, hcount⟩
        · exact absurd (hxw ▸ hx) hw
        · rw [if_pos hxw, hxw, next_of_getLast? h.nodup hlast]
          have hsub : (List.replicate 2 u).Sublist (succ w) := List.replicate_sublist_iff.mpr hcount
          exact hsub.subperm
      · rw [if_neg hxw]
        exact List.singleton_subperm_iff.mpr (hedge x hx)
    · rw [if_neg hx]
      by_cases hxw : x = w
      · rw [if_pos hxw, hxw]
        exact List.singleton_subperm_iff.mpr h.edge
      · rw [if_neg hxw]
        exact List.nil_subperm
  have hfirst : (front ++ [u] ++ [s]).IsChain (First (reorder succ (lead (front ++ [u]) s u w))) := by
    rw [isChain_iff_next h.nodup]
    intro x hx
    simp [First, reorder, lead, hx]
  rw [List.isChain_append] at hfirst
  refine ⟨_, reorder_perm hlead, h.nodup, h.start, hfirst.1, hfirst.2.2 u (by simp) s rfl, ?_, ?_⟩
  · rcases h.other with hw | ⟨hlast, -⟩
    · simp [First, reorder, lead, hw]
    · have hmem : w ∈ front ++ [u] := List.mem_append_left _ (List.mem_of_getLast? hlast)
      simp [First, reorder, lead, hmem, next_of_getLast? h.nodup hlast]
  · rcases h.other with hw | ⟨hlast, -⟩
    · exact .inl hw
    · have hmem : w ∈ front ++ [u] := List.mem_append_left _ (List.mem_of_getLast? hlast)
      refine .inr ⟨hlast, ?_⟩
      simp [First, reorder, lead, hmem]

/-- If a vertex on a cycle has another source than itself and occurs twice among the successors, then there is an order
of the vertices and of their successors in which every search reports a path that is no closed walk. -/
theorem exists_misleading_order {keys : List α} (hnodup : keys.Nodup) (hkeys : ∀ x, succ x ≠ [] → x ∈ keys)
    (hbound : keys.length ≤ bound) (hdflt : succ dflt = []) {u : α} (hu : OnCycle succ u)
    (h : ¬ Settled succ keys u) :
    ∃ keys' succ', keys'.Perm keys ∧ (∀ x, (succ' x).Perm (succ x)) ∧
      ∀ st, Steps succ' dflt bound ⟨[], keys', {}⟩ ⟨[], [], st⟩ → ∃ r ∈ st.reports, ¬ ClosedWalk succ' r.path := by
  obtain ⟨front, s, w, hre⟩ := exists_reentered hnodup hu h
  obtain ⟨succ', hperm, hmis⟩ := hre.exists_order
  have hkeys' : ∀ x, succ' x ≠ [] → x ∈ keys := fun x hx => hkeys x fun he => hx (List.perm_nil.mp (he ▸ hperm x))
  have hs : s ∈ keys := by
    have hchain : (front ++ [u] ++ [s]).IsChain (Edge succ) := by simpa using hre.chain
    have hedge := (isChain_iff_next hre.nodup).mp hchain s (List.mem_of_head? hre.start)
    exact hkeys s (List.ne_nil_of_mem hedge)
  have hcons : (s :: keys.erase s).Perm keys := (List.perm_cons_erase hs).symm
  refine ⟨s :: keys.erase s, succ', hcons, hperm, fun st hend => ?_⟩
  refine hmis.exists_bogus (fun x hx => hcons.mem_iff.mpr (hkeys' x hx)) (hcons.length_eq ▸ hbound) ?_ hend
  exact List.perm_nil.mp (hdflt ▸ hperm dflt)

end Dfs
