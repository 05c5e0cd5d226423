import Noda.Migrate.Runner

/-!
# Histories of migrations

What the log of a history says: the migrations that are still applied (`stillApplied`), the schema (`replay`), and for
each call whether it has done what it should (`Return.Ok`).
-/

namespace Noda.Migrate

open Transition Sql

/-! ### Finding migrations -/

private theorem upFile_of_migration {f : File} {m : Migration} (h : f.migration = some m) : m.upFile = f.name := by
  unfold File.migration at h
  dsimp only at h
  split_ifs at h with hdir hsuffix
  obtain ⟨base, hbase⟩ := List.isSuffixOf_iff_suffix.1 hsuffix
  rw [← hbase] at h
  rw [List.length_append, Nat.add_sub_cancel, List.take_left] at h
  unfold splitBase at h
  cases hdrop : base.dropWhile (· ≠ '_') with
  | nil =>
    rw [hdrop] at h
    cases h
  | cons c name =>
    rw [hdrop] at h
    cases h
    -- the separator is the character at which the version ends
    have hc : c = '_' := by
      have hne : base.dropWhile (· ≠ '_') ≠ [] := by rw [hdrop]; exact List.cons_ne_nil _ _
      have hhead := List.head_dropWhile_not _ hne
      simp only [hdrop, List.head_cons] at hhead
      simpa using hhead
    have hjoin : base.takeWhile (· ≠ '_') ++ c :: name = base := by rw [← hdrop, List.takeWhile_append_dropWhile]
    rw [Migration.upFile, Migration.base]
    apply String.toList_injective
    rw [← hbase]
    nth_rewrite 3 [← hjoin]
    simp [hc]

variable {dir files : List File} {seen : List String} {f : File} {m : Migration}

private theorem mem_scan_version {v : String} : v ∈ (scan files seen).map Migration.version ↔
    v ∉ seen ∧ ∃ f ∈ files, ∃ m, f.migration = some m ∧ m.version = v := by
  induction files generalizing seen with
  | nil => simp [scan]
  | cons f files ih =>
    rw [scan]
    cases hm : f.migration with
    | none => simp [hm, ih]
    | some m =>
      dsimp only
      split_ifs with hseen
      · rw [ih]
        simp only [List.exists_mem_cons_iff, hm, Option.some.injEq, exists_eq_left']
        constructor
        · rintro ⟨hv, hf⟩
          exact ⟨hv, .inr hf⟩
        · rintro ⟨hv, rfl | hf⟩
          · exact absurd hseen hv
          · exact ⟨hv, hf⟩
      · rw [List.map_cons, List.mem_cons, ih]
        simp only [List.exists_mem_cons_iff, hm, Option.some.injEq, exists_eq_left']
        constructor
        · rintro (rfl | ⟨hv, hf⟩)
          · exact ⟨hseen, .inl rfl⟩
          · exact ⟨fun h => hv (List.mem_cons_of_mem _ h), .inr hf⟩
        · rintro ⟨hv, rfl | hf⟩
          · exact .inl rfl
          · by_cases hvm : v = m.version
            · exact .inl hvm
            · exact .inr ⟨List.not_mem_cons_of_ne_of_not_mem hvm hv, hf⟩

private theorem scan_nodup : ((scan files seen).map Migration.version).Nodup := by
  induction files generalizing seen with
  | nil => simp [scan]
  | cons f files ih =>
    rw [scan]
    cases hm : f.migration with
    | none => exact ih
    | some m =>
      dsimp only
      split_ifs with hseen
      · exact ih
      · rw [List.map_cons, List.nodup_cons, mem_scan_version]
        exact ⟨fun h => h.1 List.mem_cons_self, ih⟩

private theorem first_of_mem_scan (hsorted : files.Pairwise fun a b => a.name ≤ b.name) (h : m ∈ scan files seen) :
    ∃ f ∈ files, f.migration = some m ∧ ∀ f' ∈ files, ∀ m', f'.migration = some m' → m'.version = m.version →
      f.name ≤ f'.name := by
  induction files generalizing seen with
  | nil => simp [scan] at h
  | cons f files ih =>
    rw [List.pairwise_cons] at hsorted
    rw [scan] at h
    have hlater : ∀ {seen}, m ∈ scan files seen → (∀ m', f.migration = some m' → m'.version ≠ m.version) →
        ∃ g ∈ f :: files, g.migration = some m ∧ ∀ f' ∈ f :: files, ∀ m', f'.migration = some m' →
          m'.version = m.version → g.name ≤ f'.name := by
      intro seen hm hother
      obtain ⟨g, hg, hgm, hfirst⟩ := ih hsorted.2 hm
      refine ⟨g, List.mem_cons_of_mem _ hg, hgm, fun f' hf' m' hm' hv => ?_⟩
      rcases List.mem_cons.1 hf' with rfl | hf'
      · exact absurd hv (hother m' hm')
      · exact hfirst f' hf' m' hm' hv
    have hnotin : ∀ {seen}, m ∈ scan files seen → m.version ∉ seen := fun hm =>
      (mem_scan_version.1 (List.mem_map_of_mem hm)).1
    cases hm : f.migration with
    | none =>
      rw [hm] at h
      refine hlater h fun m' hm' => ?_
      rw [hm] at hm'
      cases hm'
    | some m₀ =>
      rw [hm] at h
      dsimp only at h
      split_ifs at h with hseen
      · refine hlater h fun m' hm' hv => ?_
        obtain rfl : m₀ = m' := Option.some.inj (hm.symm.trans hm')
        exact hnotin h (hv ▸ hseen)
      · rcases List.mem_cons.1 h with rfl | h
        · refine ⟨f, List.mem_cons_self, hm, fun f' hf' _ _ _ => ?_⟩
          rcases List.mem_cons.1 hf' with rfl | hf'
          · exact le_refl _
          · exact hsorted.1 f' hf'
        · refine hlater h fun m' hm' hv => ?_
          obtain rfl : m₀ = m' := Option.some.inj (hm.symm.trans hm')
          exact hnotin h (hv ▸ List.mem_cons_self)

private theorem mem_findMigrations_version {v : String} : v ∈ (findMigrations dir).map Migration.version ↔
    ∃ f ∈ dir, ∃ m, f.migration = some m ∧ m.version = v := by
  rw [findMigrations, ((sortBy_perm _ _).map _).mem_iff, mem_scan_version]
  simp

private theorem findMigrations_pairwise : (findMigrations dir).Pairwise fun a b => a.version < b.version :=
  sortBy_pairwise_lt scan_nodup

private theorem first_of_mem_findMigrations (h : m ∈ findMigrations dir) :
    ∃ f ∈ dir, f.migration = some m ∧ ∀ f' ∈ dir, ∀ m', f'.migration = some m' → m'.version = m.version →
      f.name ≤ f'.name := by
  have hscan : m ∈ scan (sortBy File.name dir) [] := mem_sortBy.1 h
  simpa using first_of_mem_scan (sortBy_pairwise _ _) hscan

private theorem find_version (hf : f ∈ dir) (hm : f.migration = some m)
    (hfirst : ∀ f' ∈ dir, ∀ m', f'.migration = some m' → m'.version = m.version → m.upFile ≤ f'.name) {m' : Migration}
    (h : (findMigrations dir).find? (·.version = m.version) = some m') : m' = m := by
  have hv : m'.version = m.version := by simpa using List.find?_some h
  obtain ⟨f', hf', hm', hfirst'⟩ := first_of_mem_findMigrations (List.mem_of_find?_eq_some h)
  have hle : f'.name ≤ m.upFile := upFile_of_migration hm ▸ hfirst' f hf m hm hv.symm
  have hge : m.upFile ≤ f'.name := hfirst f' hf' m' hm' hv
  have hname : f'.name = f.name := (le_antisymm hle hge).trans (upFile_of_migration hm)
  have hsame : f'.migration = f.migration := by
    have hfile : ∀ g : File, ∀ n, g.migration = some n → g.isDir = false := by
      intro g n hg
      by_contra hdir
      simp [File.migration, hdir] at hg
    rw [File.migration, File.migration, hname, hfile f' m' hm', hfile f m hm]
  rw [hm, hm'] at hsame
  exact Option.some.inj hsame

/-! ### Transactions -/

variable {S : Type} {exec : String → S → Option S} {sql : String} {db : Database S}

private theorem execScript_ok {e : Error} {t t' : Database S × List Bool}
    (h : statement e (execScript exec sql) t = .ok (true, t')) :
    exec sql t.1.schema = some t'.1.schema ∧ t'.1.rows = t.1.rows := by
  obtain ⟨hresult, hdb⟩ := statement_ok h
  rw [← hdb]
  cases hexec : exec sql t.1.schema with
  | none => simp [execScript, hexec] at hresult
  | some schema => simp [execScript, hexec]

private theorem applyTx_cases (exec : String → S → Option S) (m : Migration) (sql : String) (faults : Faults)
    (db : Database S) : (∃ e, transaction .database (applyTx exec m sql) faults db = (.error e, db)) ∨
      ∃ schema, exec sql db.schema = some schema ∧
        transaction .database (applyTx exec m sql) faults db = (.ok (), ⟨m.version :: db.rows, schema⟩) := by
  rcases transaction_cases .database (applyTx exec m sql) faults db with herr | ⟨r, hbody, hcommit⟩
  · exact .inl herr
  · obtain ⟨ok, t, hexec, hbody⟩ := bind_ok hbody
    cases ok with
    | false => exact absurd hbody throw_ok
    | true =>
      obtain ⟨hschema, hrows⟩ := execScript_ok hexec
      obtain ⟨unique, t', hinsert, hbody⟩ := bind_ok hbody
      cases unique with
      | false => exact absurd hbody throw_ok
      | true =>
        obtain ⟨-, ht'⟩ := pure_ok hbody
        obtain ⟨hunique, hdb⟩ := statement_ok hinsert
        have hfresh : m.version ∉ t.1.rows := by
          intro hmem
          rw [if_pos hmem] at hunique
          cases hunique
        rw [if_neg hfresh] at hdb
        refine .inr ⟨t.1.schema, hschema, hcommit.trans ?_⟩
        rw [← ht', ← hdb, hrows]

/-- The transaction of `Down` rolls back the migration and removes its record, or does nothing. -/
private theorem rollbackTx_cases (exec : String → S → Option S) (m : Migration) (sql : String) (faults : Faults)
    (db : Database S) : (∃ e, transaction .database (rollbackTx exec m sql) faults db = (.error e, db)) ∨
      ∃ schema, exec sql db.schema = some schema ∧
        transaction .database (rollbackTx exec m sql) faults db =
          (.ok (), ⟨db.rows.filter (· ≠ m.version), schema⟩) := by
  rcases transaction_cases .database (rollbackTx exec m sql) faults db with herr | ⟨r, hbody, hcommit⟩
  · exact .inl herr
  · obtain ⟨ok, t, hexec, hbody⟩ := bind_ok hbody
    cases ok with
    | false => exact absurd hbody throw_ok
    | true =>
      obtain ⟨hschema, hrows⟩ := execScript_ok hexec
      rw [if_pos rfl] at hbody
      obtain ⟨-, hdb⟩ := statement_ok hbody
      refine .inr ⟨t.1.schema, hschema, hcommit.trans ?_⟩
      rw [← hdb, hrows]

/-! ### The greatest version -/

theorem Collation.last_spec (c : Collation) {vs : List String} {v : String} (h : c.last vs = some v) :
    v ∈ vs ∧ ∀ w ∈ vs, c.le w v = true := by
  have hrefl : ∀ w, c.le w w = true := fun w => (c.total w w).elim id id
  induction vs generalizing v with
  | nil => cases h
  | cons a vs ih =>
    rw [Collation.last] at h
    cases hlast : c.last vs with
    | none =>
      rw [hlast] at h
      cases h
      have hnil : vs = [] := by
        cases vs with
        | nil => rfl
        | cons b vs =>
          rw [Collation.last] at hlast
          cases hb : c.last vs with
          | none => simp [hb] at hlast
          | some w =>
            simp only [hb] at hlast
            split_ifs at hlast
      simp [hnil, hrefl]
    | some w =>
      obtain ⟨hw, hmax⟩ := ih hlast
      rw [hlast] at h
      dsimp only at h
      split_ifs at h with hle
      · cases h
        refine ⟨List.mem_cons_of_mem _ hw, ?_⟩
        rw [List.forall_mem_cons]
        exact ⟨hle, hmax⟩
      · cases h
        refine ⟨List.mem_cons_self, ?_⟩
        rw [List.forall_mem_cons]
        refine ⟨hrefl a, fun x hx => ?_⟩
        exact c.trans x w a (hmax x hx) ((c.total a w).resolve_left hle)

/-! ### Histories -/

/-- The migrations that are still applied, the one applied last first. -/
def stillApplied : List Event → List Migration
  | [] => []
  | .up m _ :: past => m :: stillApplied past
  | .down m _ :: past => (stillApplied past).erase m

def appliedVersions (log : List Event) : List String := (stillApplied log).map Migration.version

def Event.script : Event → String
  | .up _ sql | .down _ sql => sql

/-- The schema that the scripts have made. -/
def replay (exec : String → S → Option S) (schema : S) : List Event → Option S
  | [] => some schema
  | e :: past => (replay exec schema past).bind (exec e.script)

/-- What is applied was not applied before, and what is rolled back was applied last. -/
def Event.Allowed (e : Event) (past : List Event) : Prop :=
  match e with
  | .up m _ => m.version ∉ appliedVersions past
  | .down m _ => (stillApplied past).head? = some m

/-- The versions in the directory that are not applied, in increasing order. -/
def Pending (log : List Event) (dir : List File) (versions : List String) : Prop :=
  versions.Pairwise (· < ·) ∧
    ∀ v, v ∈ versions ↔ (∃ f ∈ dir, ∃ m, f.migration = some m ∧ m.version = v) ∧ v ∉ appliedVersions log

/-- From `start` to `log`, the migrations were applied in order, and nothing else was done. -/
def Applies (start : List Event) (ran : List Migration) (log : List Event) : Prop :=
  ∃ scripts : List (Migration × String), scripts.map Prod.fst = ran ∧
    log = (scripts.map fun e => Event.up e.1 e.2).reverse ++ start

/-- A call has done what it should: `Up` applies the pending versions, or the first of them if it fails; `Down` rolls
back what was applied last, or does nothing if it fails. -/
def Return.Ok : Return → Prop
  | .up start scanned log ran err => Applies start ran log ∧ ∃ versions, Pending start scanned versions ∧
      ran.map Migration.version <+: versions ∧ (err = none → ran.map Migration.version = versions)
  | .down start log (.ok m) => (stillApplied start).head? = some m ∧ ∃ sql, log = .down m sql :: start
  | .down start log (.error _) => log = start

structure HistoryOk (exec : String → S → Option S) (schema : S) (s : State S) : Prop where
  events : Justified Event.Allowed s.log
  returns : ∀ r ∈ s.returns, r.Ok
  /-- what is applied is recorded, and nothing else is -/
  recorded : s.db.rows.Perm (appliedVersions s.log)
  schema : replay exec schema s.log = some s.db.schema

/-- When `Down` reads the table, no migration that is applied has a greater version than the one applied last, and when
it reads the directory, no file of that version precedes the one that was applied. -/
def inOrder (coll : Collation) (s : State S) : Action → Bool
  | .step _ =>
    match s.pc, stillApplied s.log with
    | .downStart, m :: applied => applied.all fun m' => coll.le m'.version m.version
    | .downScan _, m :: _ => s.dir.all fun f => f.migration.all fun m' => m'.version ≠ m.version ∨ m.upFile ≤ f.name
    | _, _ => true
  | _ => true

/-- What holds in the middle of a call. -/
def PcOk (s : State S) : Pc → Prop
  | .idle => True
  | .upStart => s.start = s.log ∧ s.scanned = []
  | .upScan applied => s.start = s.log ∧ s.scanned = [] ∧ ∀ v, v ∈ applied ↔ v ∈ appliedVersions s.start
  | .upLoop applied files ran => (∀ v, v ∈ applied ↔ v ∈ appliedVersions s.start) ∧ Applies s.start ran s.log ∧
      (∀ m ∈ files, ∃ f ∈ s.dir, f.migration = some m) ∧
      ∃ passed, findMigrations s.scanned = passed ++ files ∧ ran = passed.filter (·.version ∉ applied)
  | .downStart => s.start = s.log
  | .downScan version => s.start = s.log ∧ ∃ m, (stillApplied s.log).head? = some m ∧ m.version = version
  | .downRun target => s.start = s.log ∧ (stillApplied s.log).head? = some target

structure Inv (exec : String → S → Option S) (schema : S) (s : State S) : Prop extends HistoryOk exec schema s where
  nodup : (appliedVersions s.log).Nodup
  present : ∀ m ∈ stillApplied s.log, ∃ f ∈ s.dir, f.migration = some m
  pc : PcOk s s.pc

variable {schema : S} {s s' : State S} {coll : Collation} {ran : List Migration} {start log : List Event}

theorem inv_initial : Inv exec schema (initial schema) where
  events := trivial
  returns := fun _ h => nomatch h
  recorded := .nil
  schema := rfl
  nodup := List.nodup_nil
  present := fun _ h => nomatch h
  pc := trivial

theorem Applies.refl (start : List Event) : Applies start [] start := ⟨[], rfl, rfl⟩

theorem Applies.concat (h : Applies start ran log) (m : Migration) (sql : String) :
    Applies start (ran ++ [m]) (.up m sql :: log) := by
  obtain ⟨scripts, rfl, rfl⟩ := h
  exact ⟨scripts ++ [(m, sql)], by simp, by simp⟩

theorem Applies.stillApplied_eq (h : Applies start ran log) : stillApplied log = ran.reverse ++ stillApplied start := by
  obtain ⟨scripts, rfl, rfl⟩ := h
  rw [← List.map_reverse, ← List.map_reverse]
  induction scripts.reverse with
  | nil => rfl
  | cons e scripts ih => simp [stillApplied, ih]

private theorem pending_nil (log : List Event) : Pending log [] [] := by
  refine ⟨List.Pairwise.nil, fun v => ?_⟩
  simp

private theorem pending_findMigrations {applied : List String} (h : ∀ v, v ∈ applied ↔ v ∈ appliedVersions start)
    (dir : List File) :
    Pending start dir (((findMigrations dir).filter (·.version ∉ applied)).map Migration.version) := by
  refine ⟨?_, fun v => ?_⟩
  · rw [List.pairwise_map]
    exact findMigrations_pairwise.filter _
  · rw [← mem_findMigrations_version, ← h v]
    simp only [List.mem_map, List.mem_filter, decide_eq_true_eq]
    constructor
    · rintro ⟨m, ⟨hm, hnot⟩, rfl⟩
      exact ⟨⟨m, hm, rfl⟩, hnot⟩
    · rintro ⟨⟨m, hm, rfl⟩, hnot⟩
      exact ⟨m, ⟨hm, hnot⟩, rfl⟩

/-! ### Steps -/

/-- A step that changes neither the database nor the log. -/
private theorem Inv.goto (h : Inv exec schema s) {pc : Pc} {start : List Event} {scanned : List File}
    (hpc : PcOk { s with pc, start, scanned } pc) : Inv exec schema { s with pc, start, scanned } :=
  ⟨⟨h.events, h.returns, h.recorded, h.schema⟩, h.nodup, h.present, hpc⟩

private theorem Inv.return (h : Inv exec schema s) {r : Return} (hr : r.Ok) :
    Inv exec schema { s with pc := .idle, returns := r :: s.returns } :=
  ⟨⟨h.events, List.forall_mem_cons.2 ⟨hr, h.returns⟩, h.recorded, h.schema⟩, h.nodup, h.present, trivial⟩

/-- `Up` fails before it has applied anything. -/
private theorem Inv.upFails (h : Inv exec schema s) (hstart : s.start = s.log) (hscanned : s.scanned = [])
    (err : Option Error) (herr : err ≠ none) : Inv exec schema (s.upReturn [] err) := by
  refine h.return ⟨?_, [], ?_, List.prefix_rfl, fun hnone => absurd hnone herr⟩
  · rw [hstart]
    exact .refl _
  · rw [hscanned]
    exact pending_nil _

private theorem Inv.downFails (h : Inv exec schema s) (hstart : s.start = s.log) (err : Error) :
    Inv exec schema (s.downReturn (.error err)) := by
  refine h.return ?_
  exact hstart.symm

private theorem inv_add (h : Inv exec schema s) (f : File) : Inv exec schema { s with dir := f :: s.dir } := by
  have hmore : ∀ m, (∃ f ∈ s.dir, f.migration = some m) → ∃ g ∈ f :: s.dir, g.migration = some m := by
    rintro m ⟨g, hg, hm⟩
    exact ⟨g, List.mem_cons_of_mem _ hg, hm⟩
  refine ⟨⟨h.events, h.returns, h.recorded, h.schema⟩, h.nodup, fun m hm => hmore m (h.present m hm), ?_⟩
  have hpc := h.pc
  dsimp only
  cases hs : s.pc with
  | upLoop applied files ran =>
    rw [hs] at hpc
    obtain ⟨happlied, hlog, hfiles, hpassed⟩ := hpc
    exact ⟨happlied, hlog, fun m hm => hmore m (hfiles m hm), hpassed⟩
  | idle | upStart | upScan | downStart | downScan | downRun =>
    rw [hs] at hpc
    exact hpc

/-- The migration applied last is the first of those that are still applied. -/
private theorem eq_cons_of_head? {l : List Migration} (h : l.head? = some m) : ∃ rest, l = m :: rest := by
  cases l with
  | nil => cases h
  | cons a rest =>
    cases h
    exact ⟨rest, rfl⟩

private theorem inv_commitUp (h : Inv exec schema s) {applied : List String} {files ran : List Migration}
    (hpc : PcOk s (.upLoop applied (m :: files) ran)) (hm : m.version ∉ applied) {new : S}
    (hexec : exec sql s.db.schema = some new) :
    Inv exec schema { s with
      db := ⟨m.version :: s.db.rows, new⟩
      log := .up m sql :: s.log
      pc := .upLoop applied files (ran ++ [m]) } := by
  obtain ⟨happlied, hlog, hfiles, passed, hpassed, hran⟩ := hpc
  -- the migrations of this call have other versions, as those in the directory are distinct
  have hdistinct := List.pairwise_append.1 (hpassed ▸ @findMigrations_pairwise s.scanned)
  have hfresh : m.version ∉ appliedVersions s.log := by
    unfold appliedVersions
    rw [hlog.stillApplied_eq, List.map_append, List.mem_append]
    rintro (hnew | hold)
    · obtain ⟨m', hm', hv⟩ := List.mem_map.1 hnew
      rw [List.mem_reverse, hran] at hm'
      have hlt := hdistinct.2.2 m' (List.mem_filter.1 hm').1 m List.mem_cons_self
      exact absurd hv (ne_of_lt hlt)
    · exact hm ((happlied _).2 hold)
  refine ⟨⟨⟨hfresh, h.events⟩, h.returns, h.recorded.cons _, ?_⟩, List.nodup_cons.2 ⟨hfresh, h.nodup⟩, ?_, ?_⟩
  · simp [replay, h.schema, Event.script, hexec]
  · exact List.forall_mem_cons.2 ⟨hfiles m List.mem_cons_self, h.present⟩
  · refine ⟨happlied, hlog.concat m sql, fun m' hm' => hfiles m' (List.mem_cons_of_mem _ hm'), passed ++ [m], ?_, ?_⟩
    · rw [hpassed, List.append_assoc]
      rfl
    · rw [List.filter_append, hran]
      simp [hm]

private theorem inv_commitDown (h : Inv exec schema s) (hpc : PcOk s (.downRun m)) {new : S}
    (hexec : exec sql s.db.schema = some new) :
    Inv exec schema { s with
      db := ⟨s.db.rows.filter (· ≠ m.version), new⟩
      log := .down m sql :: s.log
      pc := .idle
      returns := .down s.start (.down m sql :: s.log) (.ok m) :: s.returns } := by
  obtain ⟨hstart, hhead⟩ := hpc
  obtain ⟨rest, hrest⟩ := eq_cons_of_head? hhead
  have hafter : stillApplied (.down m sql :: s.log) = rest := by simp [stillApplied, hrest]
  have hversions : appliedVersions s.log = m.version :: rest.map Migration.version := by
    rw [appliedVersions, hrest, List.map_cons]
  obtain ⟨hnot, hnodup⟩ := List.nodup_cons.1 (hversions ▸ h.nodup)
  refine ⟨⟨⟨hhead, h.events⟩, ?_, ?_, ?_⟩, ?_, ?_, trivial⟩
  · refine List.forall_mem_cons.2 ⟨⟨hstart ▸ hhead, sql, by rw [hstart]⟩, h.returns⟩
  · rw [appliedVersions, hafter]
    have hfiltered := h.recorded.filter (· ≠ m.version)
    rw [hversions, List.filter_cons_of_neg (by simp)] at hfiltered
    refine hfiltered.trans (List.Perm.of_eq (List.filter_eq_self.2 fun v hv => ?_))
    have hne : v ≠ m.version := by
      rintro rfl
      exact hnot hv
    simpa using hne
  · simp [replay, h.schema, Event.script, hexec]
  · rw [appliedVersions, hafter]
    exact hnodup
  · rw [hafter]
    intro m' hm'
    exact h.present m' (hrest ▸ List.mem_cons_of_mem _ hm')

private theorem inv_apply (h : Inv exec schema s) {applied : List String} {files ran : List Migration}
    (hpc : PcOk s (.upLoop applied (m :: files) ran)) (hm : m.version ∉ applied) (c : Choice) :
    Inv exec schema (applyMigration exec s applied m files ran c) := by
  -- a call that fails here has applied the migrations before this one
  have hfails : ∀ e, Inv exec schema (s.upReturn ran (some e)) := by
    obtain ⟨happlied, hlog, -, passed, hpassed, hran⟩ := hpc
    intro e
    refine h.return ⟨hlog, _, pending_findMigrations happlied s.scanned, ?_, fun hnone => nomatch hnone⟩
    rw [hpassed, hran, List.filter_append, List.map_append]
    exact List.prefix_append _ _
  unfold applyMigration
  cases hread : if c.fails then none else readFile s.dir m.upFile with
  | none => exact hfails _
  | some sql =>
    dsimp only
    rcases applyTx_cases exec m sql c.faults s.db with ⟨e, htx⟩ | ⟨new, hexec, htx⟩
    · rw [htx]
      exact hfails e
    · rw [htx]
      exact inv_commitUp h hpc hm hexec

private theorem inv_rollback (h : Inv exec schema s) (hpc : PcOk s (.downRun m)) (c : Choice) :
    Inv exec schema (rollbackMigration exec s m c) := by
  unfold rollbackMigration
  cases hread : if c.fails then none else readFile s.dir m.downFile with
  | none => exact h.downFails hpc.1 _
  | some sql =>
    dsimp only
    rcases rollbackTx_cases exec m sql c.faults s.db with ⟨e, htx⟩ | ⟨new, hexec, htx⟩
    · rw [htx]
      exact h.downFails hpc.1 e
    · rw [htx]
      exact inv_commitDown h hpc hexec

/-- The greatest version in the table is that of the migration applied last. -/
private theorem inv_downStart (h : Inv exec schema s) (hs : s.pc = .downStart) {c : Choice}
    (horder : inOrder coll s (.step c) = true) {version : String} (hlast : coll.last s.db.rows = some version) :
    Inv exec schema { s with pc := .downScan version } := by
  have hpc : PcOk s .downStart := hs ▸ h.pc
  obtain ⟨hmem, hmax⟩ := coll.last_spec hlast
  rw [h.recorded.mem_iff] at hmem
  refine h.goto ⟨hpc, ?_⟩
  dsimp only
  cases happlied : stillApplied s.log with
  | nil => simp [appliedVersions, happlied] at hmem
  | cons m rest =>
    refine ⟨m, rfl, ?_⟩
    have hle : ∀ m' ∈ rest, coll.le m'.version m.version = true := by simpa [inOrder, hs, happlied] using horder
    have hm : m.version ∈ s.db.rows := by
      rw [h.recorded.mem_iff, appliedVersions, happlied]
      exact List.mem_cons_self
    refine coll.antisymm _ _ (hmax m.version hm) ?_
    rw [appliedVersions, happlied, List.map_cons, List.mem_cons] at hmem
    rcases hmem with rfl | hmem
    · exact hmax m.version hm
    · obtain ⟨m', hm', rfl⟩ := List.mem_map.1 hmem
      exact hle m' hm'

/-- The file found is that of the migration applied last. -/
private theorem inv_downScan (h : Inv exec schema s) {version : String} (hs : s.pc = .downScan version) {c : Choice}
    (horder : inOrder coll s (.step c) = true) {target : Migration}
    (hfind : (findMigrations s.dir).find? (·.version = version) = some target) :
    Inv exec schema { s with pc := .downRun target } := by
  have hpc : PcOk s (.downScan version) := hs ▸ h.pc
  obtain ⟨hstart, m, hhead, rfl⟩ := hpc
  obtain ⟨rest, hrest⟩ := eq_cons_of_head? hhead
  obtain ⟨f, hf, hm⟩ := h.present m (hrest ▸ List.mem_cons_self)
  have hfirst : ∀ f' ∈ s.dir, ∀ m', f'.migration = some m' → m'.version = m.version → m.upFile ≤ f'.name := by
    intro f' hf' m' hm' hv
    have hall : ∀ f ∈ s.dir, f.migration.all (fun m' => m'.version ≠ m.version ∨ m.upFile ≤ f.name) = true := by
      simpa [inOrder, hs, hrest] using horder
    have hthis := hall f' hf'
    rw [hm'] at hthis
    simpa [hv] using hthis
  obtain rfl := find_version hf hm hfirst hfind
  exact h.goto ⟨hstart, hhead⟩

/-- The table is read: its rows are the versions that are applied. -/
private theorem inv_upStart (h : Inv exec schema s) (hpc : PcOk s .upStart) :
    Inv exec schema { s with pc := .upScan s.db.rows } := by
  refine h.goto ⟨hpc.1, hpc.2, fun v => ?_⟩
  rw [hpc.1]
  exact h.recorded.mem_iff

private theorem inv_upScan (h : Inv exec schema s) {applied : List String} (hpc : PcOk s (.upScan applied)) :
    Inv exec schema { s with pc := .upLoop applied (findMigrations s.dir) [], scanned := s.dir } := by
  obtain ⟨hstart, -, happlied⟩ := hpc
  refine h.goto ⟨happlied, ?_, fun m hm => ?_, [], rfl, rfl⟩
  · rw [hstart]
    exact .refl _
  · obtain ⟨f, hf, hfm, -⟩ := first_of_mem_findMigrations hm
    exact ⟨f, hf, hfm⟩

private theorem inv_upDone (h : Inv exec schema s) {applied : List String} {ran : List Migration}
    (hpc : PcOk s (.upLoop applied [] ran)) : Inv exec schema (s.upReturn ran none) := by
  obtain ⟨happlied, hlog, -, passed, hpassed, hran⟩ := hpc
  have hpending := pending_findMigrations happlied s.scanned
  rw [hpassed, List.append_nil, ← hran] at hpending
  exact h.return ⟨hlog, _, hpending, List.prefix_rfl, fun _ => rfl⟩

private theorem inv_upSkip (h : Inv exec schema s) {applied : List String} {files ran : List Migration}
    (hpc : PcOk s (.upLoop applied (m :: files) ran)) (hm : m.version ∈ applied) :
    Inv exec schema { s with pc := .upLoop applied files ran } := by
  obtain ⟨happlied, hlog, hfiles, passed, hpassed, hran⟩ := hpc
  refine h.goto ⟨happlied, hlog, fun m' hm' => hfiles m' (List.mem_cons_of_mem _ hm'), passed ++ [m], ?_, ?_⟩
  · rw [hpassed, List.append_assoc]
    rfl
  · rw [List.filter_append, hran]
    simp [hm]

theorem inv_step {a : Action} (h : Inv exec schema s) (horder : inOrder coll s a = true)
    (hstep : step exec coll s a = some s') : Inv exec schema s' := by
  cases a with
  | add f =>
    simp only [step] at hstep
    split_ifs at hstep
    cases hstep
    exact inv_add h f
  | up =>
    simp only [step] at hstep
    split_ifs at hstep
    cases hstep
    exact h.goto ⟨rfl, rfl⟩
  | down =>
    simp only [step] at hstep
    split_ifs at hstep
    cases hstep
    exact h.goto rfl
  | step c =>
    simp only [step, stepCall] at hstep
    have hpc := h.pc
    cases hs : s.pc with
    | idle =>
      rw [hs] at hstep
      cases hstep
    | upStart =>
      rw [hs] at hstep hpc
      cases hstep
      split_ifs
      · exact h.upFails hpc.1 hpc.2 _ (by simp)
      · exact inv_upStart h hpc
    | upScan applied =>
      rw [hs] at hstep hpc
      cases hstep
      split_ifs
      · exact h.upFails hpc.1 hpc.2.1 _ (by simp)
      · exact inv_upScan h hpc
    | upLoop applied files ran =>
      rw [hs] at hstep hpc
      cases files with
      | nil =>
        cases hstep
        exact inv_upDone h hpc
      | cons m files =>
        cases hstep
        split_ifs with hm
        · exact inv_upSkip h hpc hm
        · exact inv_apply h hpc hm c
    | downStart =>
      rw [hs] at hstep hpc
      cases hstep
      split_ifs
      · exact h.downFails hpc _
      · cases hlast : coll.last s.db.rows with
        | none => exact h.downFails hpc _
        | some version => exact inv_downStart h hs horder hlast
    | downScan version =>
      rw [hs] at hstep hpc
      cases hstep
      split_ifs
      · exact h.downFails hpc.1 _
      · cases hfind : (findMigrations s.dir).find? (·.version = version) with
        | none => exact h.downFails hpc.1 _
        | some target => exact inv_downScan h hs horder hfind
    | downRun target =>
      rw [hs] at hstep hpc
      cases hstep
      exact inv_rollback h hpc c

/-- The history of the migrations, in every run in which `Down` is called in order. -/
theorem history_in_order (exec : String → S → Option S) (coll : Collation) (schema : S) {as : List Action}
    (hm : Meets (step exec coll) (fun s a => inOrder coll s a = true) (initial schema) as)
    (h : run (step exec coll) (initial schema) as = some s) : HistoryOk exec schema s := by
  have hinv : Inv exec schema s :=
    run_invariant_of_meets (fun _ _ _ h horder hstep => inv_step h horder hstep) inv_initial hm h
  exact hinv.toHistoryOk

/-- The files of a migration are added. -/
def addMigration (version name : String) : List Action :=
  [.add ⟨version ++ "_" ++ name ++ ".up.sql", false, "create " ++ name⟩,
    .add ⟨version ++ "_" ++ name ++ ".down.sql", false, "drop " ++ name⟩]

/-- Steps of a call in which nothing fails. -/
def steps (n : Nat) : List Action := List.replicate n (.step ⟨false, ⟨false, [], false⟩⟩)

/-- A migration is added and applied, then another one, which is rolled back. -/
def twoMigrations (first second : String × String) : List Action :=
  addMigration first.1 first.2 ++ [.up] ++ steps 4 ++ addMigration second.1 second.2 ++ [.up] ++ steps 5 ++
    [.down] ++ steps 3

/-- A database that remembers the scripts. -/
def remember (sql : String) (scripts : List String) : Option (List String) := some (scripts ++ [sql])

theorem history_in_order_twice : ∃ s, run (step remember .binary) (initial [])
    (twoMigrations ("1", "a") ("2", "b")) = some s ∧
    s.db.schema = ["create a", "create b", "drop b"] ∧ HistoryOk remember [] s := by
  obtain ⟨s, hs, hschema⟩ := exists_run (step remember .binary) (initial []) (twoMigrations ("1", "a") ("2", "b"))
    (p := fun s => s.db.schema = ["create a", "create b", "drop b"]) (by decide +kernel)
  exact ⟨s, hs, of_decide_eq_true hschema, history_in_order remember .binary [] (by decide +kernel) hs⟩

/-- When the older version comes late, `Down` rolls back the other one. -/
theorem history_not_in_order : ¬∀ (exec : String → List String → Option (List String)) (coll : Collation) schema as s,
    run (step exec coll) (initial schema) as = some s → HistoryOk exec schema s := by
  intro h
  obtain ⟨s, hs, hlate⟩ := exists_run (step remember .binary) (initial []) (twoMigrations ("2", "b") ("1", "a"))
    (p := fun s => s.log = [.down ⟨"2", "b"⟩ "drop b", .up ⟨"1", "a"⟩ "create a", .up ⟨"2", "b"⟩ "create b"])
    (by decide +kernel)
  have hevents := (h remember .binary [] _ s hs).events
  rw [of_decide_eq_true hlate] at hevents
  have hlast : (stillApplied [.up ⟨"1", "a"⟩ "create a", .up ⟨"2", "b"⟩ "create b"]).head? = some ⟨"2", "b"⟩ :=
      hevents.1
  exact absurd hlast (by decide)

end Noda.Migrate
