import Noda.Generate.Models
import Noda.Lib.Assoc
import Noda.Lib.TopoSort

/-!
# The order of the created tables

`topoSortCreates` as it is written: a recursive search with a map of visited tables, a map of the tables that are being
visited and the list of the sorted changes, where `visit` runs out of fuel instead of not returning.  It always returns,
as the tables that are being visited are different ones; it is the search `TopoSort.visit` (`visit_simulates`), so the
changes come out once each, and a table comes after the tables it belongs to unless these depend on it
(`topoSortCreates_sorts`).
-/

namespace Noda.Generate.CreateOrder

/-- A change that creates a table, as far as the sort reads it. -/
structure CreateChange where
  table : String
  model : Option ModelDef
  deriving DecidableEq

def tableModel (creates : List CreateChange) : GoMap CreateChange :=
  creates.foldl (fun tables ch => tables.insert ch.table ch) ∅

/-- The relations of one change are added to the dependencies. -/
def addDeps (deps : GoMap (List String)) (ch : CreateChange) : GoMap (List String) :=
  match ch.model with
  | none => deps
  | some model => model.relations.toPairs.foldl (fun deps rel =>
      if rel.2.type = "belongsTo" then deps.modify ch.table [] (· ++ [rel.2.table]) else deps) deps

/-- From a table to the tables that it depends on. -/
def deps (creates : List CreateChange) : GoMap (List String) := creates.foldl addDeps ∅

structure Search where
  sorted : List CreateChange
  visited : GoMap Bool
  visiting : GoMap Bool

/-- `visit`, if the fuel is enough. -/
def visit (tableModel : GoMap CreateChange) (deps : GoMap (List String)) : Nat → Search → String → Option Search
  | 0, _, _ => none
  | fuel + 1, s, table =>
    if s.visited.getD table false then some s
    -- a cycle is skipped
    else if s.visiting.getD table false then some s
    else do
      let s ← (deps.getD table []).foldlM
        (fun s dep => if (tableModel.lookup dep).isSome then visit tableModel deps fuel s dep else some s)
        { s with visiting := s.visiting.insert table true }
      return {
        visiting := s.visiting.insert table false
        visited := s.visited.insert table true
        sorted := s.sorted ++ (tableModel.lookup table).toList }

def topoSortCreates (fuel : Nat) (creates : List CreateChange) : Option (List CreateChange) :=
  if creates.length ≤ 1 then some creates
  else (creates.foldlM (fun s ch => visit (tableModel creates) (deps creates) fuel s ch.table) ⟨[], ∅, ∅⟩).map
    Search.sorted

/-! ### Dependencies -/

/-- The created table `t` belongs to the created table `d`. -/
def BelongsTo (creates : List CreateChange) (t d : String) : Prop :=
  (∃ ch ∈ creates, ch.table = t ∧ ∃ model, ch.model = some model ∧
    ∃ name rel, model.relations.lookup name = some rel ∧ rel.type = "belongsTo" ∧ rel.table = d) ∧
  ∃ ch ∈ creates, ch.table = d

/-- The first table depends on the second one, through relations between created tables. -/
abbrev DependsOn (creates : List CreateChange) : String → String → Prop := Relation.TransGen (BelongsTo creates)

variable {creates : List CreateChange} {ch : CreateChange} {t d : String}

private theorem lookup_tableModel_foldl (tables : GoMap CreateChange) (hnodup : (creates.map CreateChange.table).Nodup)
    (hch : ch ∈ creates) :
    (creates.foldl (fun tables ch => tables.insert ch.table ch) tables).lookup ch.table = some ch := by
  induction creates using List.reverseRecOn with
  | nil => exact nomatch hch
  | append_singleton creates last ih =>
    rw [List.map_append, List.nodup_append] at hnodup
    rw [List.foldl_append]
    rcases List.mem_append.1 hch with hch | hch
    · have hne : ch.table ≠ last.table :=
        hnodup.2.2 _ (List.mem_map_of_mem hch) _ (List.mem_singleton.2 rfl)
      exact (AList.lookup_insert_ne hne).trans (ih hnodup.1 hch)
    · rw [List.mem_singleton.1 hch]
      exact AList.lookup_insert _

theorem lookup_tableModel (hnodup : (creates.map CreateChange.table).Nodup) (hch : ch ∈ creates) :
    (tableModel creates).lookup ch.table = some ch :=
  lookup_tableModel_foldl ∅ hnodup hch

theorem isSome_tableModel : ((tableModel creates).lookup t).isSome ↔ t ∈ creates.map CreateChange.table := by
  unfold tableModel
  induction creates using List.reverseRecOn with
  | nil => simp
  | append_singleton creates last ih =>
    rw [List.foldl_append, List.map_append, List.mem_append, ← ih]
    by_cases heq : t = last.table
    · subst heq
      simp
    · simp [AList.lookup_insert_ne heq, heq]

def CreateChange.parents (ch : CreateChange) : List String :=
  (ch.model.map fun model => (model.relations.toPairs.filter (·.2.type = "belongsTo")).map (·.2.table)).getD []

private theorem mem_parents : d ∈ ch.parents ↔ ∃ model, ch.model = some model ∧
    ∃ name rel, model.relations.lookup name = some rel ∧ rel.type = "belongsTo" ∧ rel.table = d := by
  unfold CreateChange.parents
  cases ch.model with
  | none => simp
  | some model =>
    simp only [Option.map_some, Option.getD_some, List.mem_map, List.mem_filter, decide_eq_true_eq, Prod.exists,
      AList.mem_toPairs, Option.some.injEq, exists_eq_left', and_assoc]

private theorem getD_addRelations (m : GoMap (List String)) (table t : String) (rels : List (String × RelDef)) :
    (rels.foldl (fun deps rel =>
      if rel.2.type = "belongsTo" then deps.modify table [] (· ++ [rel.2.table]) else deps) m).getD t [] =
      m.getD t [] ++ if table = t then (rels.filter (·.2.type = "belongsTo")).map (·.2.table) else [] := by
  induction rels generalizing m with
  | nil => simp
  | cons rel rels ih =>
    rw [List.foldl_cons, ih]
    by_cases htype : rel.2.type = "belongsTo"
    · by_cases heq : table = t
      · subst heq
        simp [htype]
      · rw [if_pos htype, AList.getD_modify_of_ne _ _ _ (Ne.symm heq)]
        simp [heq]
    · simp [htype]

private theorem getD_addDeps (m : GoMap (List String)) (ch : CreateChange) (t : String) :
    (addDeps m ch).getD t [] = m.getD t [] ++ if ch.table = t then ch.parents else [] := by
  unfold addDeps CreateChange.parents
  split
  · rename_i hmodel
    simp [hmodel]
  · rename_i model hmodel
    rw [getD_addRelations, hmodel]
    rfl

theorem getD_deps (creates : List CreateChange) (t : String) :
    (deps creates).getD t [] = creates.flatMap fun ch => if ch.table = t then ch.parents else [] := by
  unfold deps
  induction creates using List.reverseRecOn with
  | nil => simp
  | append_singleton creates last ih =>
    rw [List.foldl_append, List.foldl_cons, List.foldl_nil, getD_addDeps, ih]
    simp

theorem mem_deps : d ∈ (deps creates).getD t [] ↔ ∃ ch ∈ creates, ch.table = t ∧ d ∈ ch.parents := by
  rw [getD_deps, List.mem_flatMap]
  refine exists_congr fun ch => and_congr_right fun _ => ?_
  split_ifs with htable
  · simp [htable]
  · simp [htable]

def createdDeps (creates : List CreateChange) (t : String) : List String :=
  ((deps creates).getD t []).filter fun d => ((tableModel creates).lookup d).isSome

private theorem mem_createdDeps : d ∈ createdDeps creates t ↔ BelongsTo creates t d := by
  rw [createdDeps, List.mem_filter, isSome_tableModel, mem_deps, List.mem_map]
  simp only [mem_parents]
  rfl

private theorem depends_createdDeps : TopoSort.Depends (createdDeps creates) = DependsOn creates := by
  have hedges : (fun t d => d ∈ createdDeps creates t) = BelongsTo creates := by
    funext t d
    exact propext mem_createdDeps
  unfold TopoSort.Depends DependsOn
  rw [hedges]

/-! ### The search -/

/-- The maps mark the tables that are done and those in progress. -/
structure Marks (creates : List CreateChange) (s : Search) (stack done : List String) : Prop where
  visited : ∀ t, s.visited.getD t false = true ↔ t ∈ done
  visiting : ∀ t, s.visiting.getD t false = true ↔ t ∈ stack
  sorted : s.sorted = done.filterMap (tableModel creates).lookup

private theorem getD_insert_true (m : GoMap Bool) (t x : String) :
    (m.insert t true).getD x false = true ↔ m.getD x false = true ∨ x = t := by
  by_cases heq : x = t
  · subst heq
    simp
  · simp [AList.getD_insert_of_ne m true false heq, heq]

private theorem getD_insert_false (m : GoMap Bool) (t x : String) :
    (m.insert t false).getD x false = true ↔ m.getD x false = true ∧ x ≠ t := by
  by_cases heq : x = t
  · subst heq
    simp
  · simp [AList.getD_insert_of_ne m false false heq, heq]

variable {s : Search} {stack done : List String}

theorem Marks.enter (h : Marks creates s stack done) (t : String) :
    Marks creates { s with visiting := s.visiting.insert t true } (t :: stack) done where
  visited := h.visited
  visiting := fun x => by rw [getD_insert_true, h.visiting, List.mem_cons, or_comm]
  sorted := h.sorted

theorem Marks.leave (h : Marks creates s (t :: stack) done) (ht : t ∉ stack) :
    Marks creates ⟨s.sorted ++ ((tableModel creates).lookup t).toList, s.visited.insert t true,
      s.visiting.insert t false⟩ stack (done ++ [t]) where
  visited := fun x => by rw [getD_insert_true, h.visited, List.mem_append, List.mem_singleton]
  visiting := fun x => by
    rw [getD_insert_false, h.visiting, List.mem_cons]
    constructor
    · rintro ⟨rfl | hx, hne⟩
      · exact absurd rfl hne
      · exact hx
    · intro hx
      exact ⟨.inr hx, fun heq => ht (heq ▸ hx)⟩
  sorted := by
    rw [List.filterMap_append, h.sorted]
    cases hlookup : (tableModel creates).lookup t with
    | none => simp [hlookup]
    | some ch => simp [hlookup]

private theorem visit_of_marked (h : Marks creates s stack done) (hmarked : t ∈ done ∨ t ∈ stack) (fuel : Nat) :
    visit (tableModel creates) (deps creates) (fuel + 1) s t = some s := by
  rw [visit]
  split_ifs with hvisited hvisiting
  · rfl
  · rfl
  · rcases hmarked with hdone | hstack
    · exact absurd ((h.visited t).2 hdone) hvisited
    · exact absurd ((h.visiting t).2 hstack) hvisiting

/-- The dependencies are visited one after the other; those that are not created are skipped. -/
private theorem foldlM_simulates {fuel : Nat} (go : List String → String → List String)
    (hvisit : ∀ (s : Search) (done : List String) (d : String), Marks creates s stack done →
      ((tableModel creates).lookup d).isSome →
        ∃ s', visit (tableModel creates) (deps creates) fuel s d = some s' ∧ Marks creates s' stack (go done d))
    (ds : List String) (h : Marks creates s stack done) :
    ∃ s', ds.foldlM (fun s d => if ((tableModel creates).lookup d).isSome then
        visit (tableModel creates) (deps creates) fuel s d else some s) s = some s' ∧
      Marks creates s' stack ((ds.filter fun d => ((tableModel creates).lookup d).isSome).foldl go done) := by
  induction ds generalizing s done with
  | nil => exact ⟨s, rfl, h⟩
  | cons d ds ih =>
    rw [List.foldlM_cons]
    by_cases hd : ((tableModel creates).lookup d).isSome = true
    · obtain ⟨s', hs', hmarks⟩ := hvisit s done d h hd
      obtain ⟨s'', hs'', hmarks'⟩ := ih hmarks
      refine ⟨s'', ?_, ?_⟩
      · rw [if_pos hd, hs']
        exact hs''
      · rw [List.filter_cons, if_pos hd]
        exact hmarks'
    · obtain ⟨s', hs', hmarks⟩ := ih h
      refine ⟨s', ?_, ?_⟩
      · rw [if_neg hd]
        exact hs'
      · rw [List.filter_cons, if_neg hd]
        exact hmarks

/-- The search of the source takes the steps of `TopoSort.visit`.  The induction is on the fuel of the latter, which is
enough as the tables in progress are different ones. -/
theorem visit_simulates {f : Nat} (fuel : Nat) (hfuel : f ≤ fuel) (ht : t ∈ creates.map CreateChange.table)
    (hstack : stack.Nodup) (hsub : ∀ v ∈ stack, v ∈ creates.map CreateChange.table)
    (hlength : creates.length ≤ f + stack.length) (h : Marks creates s stack done) :
    ∃ s', visit (tableModel creates) (deps creates) (fuel + 1) s t = some s' ∧
      Marks creates s' stack (TopoSort.visit (createdDeps creates) f stack done t) := by
  induction f generalizing fuel s stack done t with
  | zero =>
    -- all tables are in progress
    have hfull : stack.Perm (creates.map CreateChange.table) := by
      refine (List.subperm_of_subset hstack hsub).perm_of_length_le ?_
      rw [List.length_map]
      omega
    exact ⟨s, visit_of_marked h (.inr (hfull.mem_iff.2 ht)) fuel, h⟩
  | succ f ih =>
    rw [TopoSort.visit]
    split_ifs with hmarked
    · exact ⟨s, visit_of_marked h hmarked fuel, h⟩
    · rw [not_or] at hmarked
      obtain ⟨fuel, rfl⟩ : ∃ n, fuel = n + 1 := ⟨fuel - 1, by omega⟩
      have hstack' : (t :: stack).Nodup := List.nodup_cons.2 ⟨hmarked.2, hstack⟩
      have hsub' : ∀ v ∈ t :: stack, v ∈ creates.map CreateChange.table := List.forall_mem_cons.2 ⟨ht, hsub⟩
      have hlength' : creates.length ≤ f + (t :: stack).length := by
        rw [List.length_cons]
        omega
      obtain ⟨s', hs', hmarks⟩ := foldlM_simulates
        (fun done d => TopoSort.visit (createdDeps creates) f (t :: stack) done d)
        (fun s done d hmarks hd => ih fuel (by omega) (isSome_tableModel.1 hd) hstack' hsub' hlength' hmarks)
        ((deps creates).getD t []) (h.enter t)
      have hvisited : ¬s.visited.getD t false = true := fun hv => hmarked.1 ((h.visited t).1 hv)
      have hvisiting : ¬s.visiting.getD t false = true := fun hv => hmarked.2 ((h.visiting t).1 hv)
      refine ⟨_, ?_, hmarks.leave hmarked.2⟩
      rw [visit, if_neg hvisited, if_neg hvisiting]
      simp only [hs', Option.bind_eq_bind, Option.bind_some]
      rfl

/-! ### The sorted changes -/

/-- The tables in the order of the search. -/
def order (creates : List CreateChange) : List String :=
  TopoSort.sort (createdDeps creates) (creates.map CreateChange.table)

private theorem createdDeps_closed (t : String) : ∀ d ∈ createdDeps creates t, d ∈ creates.map CreateChange.table := by
  intro d hd
  exact isSome_tableModel.1 (List.mem_filter.1 hd).2

private theorem foldlM_visits (fuel : Nat) (hfuel : creates.length ≤ fuel) (chs : List CreateChange)
    (hchs : chs ⊆ creates)
    (h : Marks creates s [] done) :
    ∃ s', chs.foldlM (fun s ch => visit (tableModel creates) (deps creates) (fuel + 1) s ch.table) s = some s' ∧
      Marks creates s' [] ((chs.map CreateChange.table).foldl
        (fun done t =>
          TopoSort.visit (createdDeps creates) (creates.map CreateChange.table).length [] done t) done) := by
  induction chs generalizing s done with
  | nil => exact ⟨s, rfl, h⟩
  | cons ch chs ih =>
    rw [List.cons_subset] at hchs
    obtain ⟨s', hs', hmarks⟩ := visit_simulates (f := (creates.map CreateChange.table).length) fuel
      (by rw [List.length_map]; exact hfuel) (List.mem_map_of_mem hchs.1) List.nodup_nil (by simp) (by simp) h
    obtain ⟨s'', hs'', hmarks'⟩ := ih hchs.2 hmarks
    refine ⟨s'', ?_, hmarks'⟩
    rw [List.foldlM_cons, hs']
    exact hs''

/-- The search returns, however much fuel it has beyond the number of the changes. -/
theorem topoSortCreates_eq {fuel : Nat} (hfuel : creates.length < fuel) (hlength : ¬creates.length ≤ 1) :
    topoSortCreates fuel creates = some ((order creates).filterMap (tableModel creates).lookup) := by
  obtain ⟨fuel, rfl⟩ : ∃ n, fuel = n + 1 := ⟨fuel - 1, by omega⟩
  have hstart : Marks creates ⟨[], ∅, ∅⟩ [] [] := by
    refine ⟨fun t => ?_, fun t => ?_, rfl⟩
    · simp
    · simp
  obtain ⟨s, hs, hmarks⟩ := foldlM_visits fuel (by omega) creates (List.Subset.refl _) hstart
  rw [topoSortCreates, if_neg hlength, hs, Option.map_some, hmarks.sorted]
  rfl

theorem perm_order (hnodup : (creates.map CreateChange.table).Nodup) :
    (order creates).Perm (creates.map CreateChange.table) :=
  TopoSort.sort_perm hnodup fun t _ => createdDeps_closed t

private theorem filterMap_tables {chs : List CreateChange} (hnodup : (creates.map CreateChange.table).Nodup)
    (hchs : chs ⊆ creates) : (chs.map CreateChange.table).filterMap (tableModel creates).lookup = chs := by
  rw [List.filterMap_map]
  refine (List.filterMap_congr fun ch hch => ?_).trans List.filterMap_some
  exact lookup_tableModel hnodup (hchs hch)

private theorem perm_sorted (hnodup : (creates.map CreateChange.table).Nodup) :
    ((order creates).filterMap (tableModel creates).lookup).Perm creates := by
  have hperm := (perm_order hnodup).filterMap (tableModel creates).lookup
  rwa [filterMap_tables hnodup (List.Subset.refl _)] at hperm

private theorem map_table_sorted (hnodup : (creates.map CreateChange.table).Nodup) :
    ((order creates).filterMap (tableModel creates).lookup).map CreateChange.table = order creates := by
  rw [List.map_filterMap]
  refine (List.filterMap_congr fun t ht => ?_).trans List.filterMap_some
  obtain ⟨ch, hch, rfl⟩ := List.mem_map.1 ((perm_order hnodup).mem_iff.1 ht)
  rw [lookup_tableModel hnodup hch]
  rfl

private theorem eq_of_table (hnodup : (creates.map CreateChange.table).Nodup) {ch' : CreateChange} (hch : ch ∈ creates)
    (hch' : ch' ∈ creates) (heq : ch.table = ch'.table) : ch = ch' := by
  have hlookup := lookup_tableModel hnodup hch
  rw [heq, lookup_tableModel hnodup hch'] at hlookup
  exact (Option.some.inj hlookup).symm

private theorem sorted_before (hnodup : (creates.map CreateChange.table).Nodup) {T D : CreateChange} (hT : T ∈ creates)
    (hD : D ∈ creates) (hbelongs : BelongsTo creates T.table D.table) (hcycle : ¬DependsOn creates D.table T.table) :
    ∃ l₁ l₂ l₃, (order creates).filterMap (tableModel creates).lookup = l₁ ++ D :: (l₂ ++ T :: l₃) := by
  obtain ⟨l, l₃, hsplit⟩ := List.append_of_mem ((perm_sorted hnodup).mem_iff.2 hT)
  have hordered : TopoSort.Ordered (createdDeps creates) (order creates) :=
    TopoSort.sort_ordered fun t _ => createdDeps_closed t
  have htables : order creates = l.map CreateChange.table ++ T.table :: l₃.map CreateChange.table := by
    rw [← map_table_sorted hnodup, hsplit, List.map_append, List.map_cons]
  have hbefore : D.table ∈ l.map CreateChange.table := by
    refine (hordered.2 _ _ _ htables D.table (mem_createdDeps.2 hbelongs)).resolve_right ?_
    rw [depends_createdDeps]
    exact hcycle
  obtain ⟨ch, hch, htable⟩ := List.mem_map.1 hbefore
  have hmem : ch ∈ creates := by
    refine (perm_sorted hnodup).mem_iff.1 ?_
    rw [hsplit]
    exact List.mem_append_left _ hch
  obtain rfl := eq_of_table hnodup hmem hD htable
  obtain ⟨l₁, l₂, rfl⟩ := List.append_of_mem hch
  exact ⟨l₁, l₂, l₃, by rw [hsplit, List.append_assoc, List.cons_append]⟩

/-- Two tables of a list of at most one change are the same. -/
theorem eq_of_length_le (hlength : creates.length ≤ 1) {T D : CreateChange} (hT : T ∈ creates)
    (hD : D ∈ creates) :
    T = D := by
  match creates, hlength with
  | [ch], _ => rw [List.mem_singleton.1 hT, List.mem_singleton.1 hD]

/-- The changes come out once each, and a table comes after the tables it belongs to that do not depend on it. -/
structure Sorts (creates sorted : List CreateChange) : Prop where
  perm : sorted.Perm creates
  before : ∀ T ∈ creates, ∀ D ∈ creates, BelongsTo creates T.table D.table → ¬DependsOn creates D.table T.table →
    ∃ l₁ l₂ l₃, sorted = l₁ ++ D :: (l₂ ++ T :: l₃)

/-- `topoSortCreates` returns, and sorts the changes of different tables. -/
theorem topoSortCreates_sorts (hnodup : (creates.map CreateChange.table).Nodup) :
    ∃ sorted, (∀ fuel > creates.length, topoSortCreates fuel creates = some sorted) ∧ Sorts creates sorted := by
  by_cases hlength : creates.length ≤ 1
  · refine ⟨creates, fun fuel _ => if_pos hlength, List.Perm.refl _, fun T hT D hD hbelongs hcycle => ?_⟩
    rw [eq_of_length_le hlength hT hD] at hbelongs
    rw [eq_of_length_le hlength hT hD] at hcycle
    exact absurd (.single hbelongs) hcycle
  · exact ⟨_, fun fuel hfuel => topoSortCreates_eq hfuel hlength, perm_sorted hnodup,
      fun T hT D hD hbelongs hcycle => sorted_before hnodup hT hD hbelongs hcycle⟩

def belongsTo (table : String) : RelDef := ⟨"belongsTo", table, table ++ "_id", "", "", ""⟩

def created (table : String) (parents : List String) : CreateChange :=
  ⟨table, some ⟨table, ∅, GoMap.ofPairs (parents.map fun parent => (parent, belongsTo parent)), [], false, false⟩⟩

/-- Tasks belong to other tasks, to workspaces and to a table that is there; workspaces and users belong to each
other. -/
def workspaceTables : List CreateChange :=
  [created "tasks" ["tasks", "workspaces", "accounts"], created "workspaces" ["users"], created "users" ["workspaces"],
    ⟨"labels", none⟩]

theorem topoSortCreates_sorts_workspaces : ∃ sorted, topoSortCreates 5 workspaceTables = some sorted ∧
    sorted.map CreateChange.table = ["users", "workspaces", "tasks", "labels"] ∧ Sorts workspaceTables sorted := by
  have hnodup : (workspaceTables.map CreateChange.table).Nodup := by decide +kernel
  obtain ⟨sorted, hreturns, hsorts⟩ := topoSortCreates_sorts hnodup
  have hsorted := hreturns 5 (by decide)
  have htables : (topoSortCreates 5 workspaceTables).map (List.map CreateChange.table) =
      some ["users", "workspaces", "tasks", "labels"] := by
    decide +kernel
  rw [hsorted, Option.map_some, Option.some.injEq] at htables
  exact ⟨sorted, hsorted, htables, hsorts⟩

end Noda.Generate.CreateOrder
