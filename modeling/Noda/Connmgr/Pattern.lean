import Mathlib.Data.List.MinMax
import Noda.Connmgr.Manager
import Noda.Lib.FilePath
import Noda.Lib.Rewrite

/-!
# Channel patterns

The placeholders `:name` and `{name}` of a channel pattern are replaced by the values of the route parameters, one
parameter after another in the order in which the map is visited, and each time in the whole text: what a value has
written is read again for the next parameter.

`replacesAtOnce_iff`: for all values and orders the channel name is the pattern with all placeholders replaced at once
(`substitute`) exactly if the pattern has no placeholders, or if there is one parameter and it is nowhere in braces.
-/

namespace Noda.Connmgr

open Rewrite

/-- `map[string]string`; the order of the entries is the order in which a loop visits them. -/
abbrev Params := AList fun _ : GoString => GoString

/-- The names of the segments `:name` of a route path. -/
def extractParamNamesFromPath (path : GoString) : List GoString :=
  (path.splitOn 0x2F).filterMap fun part =>
    match part with
    | [] => none
    | c :: after => if c = 0x3A then some after else none

/-- `get` is `ws.Params`; an empty value is none. -/
def extractFiberParams (get : GoString → GoString) (paramNames : List GoString) : Params :=
  let params : Params := if get [0x2A] ≠ [] then AList.insert [0x2A] (get [0x2A]) ∅ else ∅
  paramNames.foldl (fun params name => if get name ≠ [] then params.insert name (get name) else params) params

/-- `":" + k`. -/
def colon (k : GoString) : GoString := 0x3A :: k

/-- The name `k` in braces. -/
def braced (k : GoString) : GoString := 0x7B :: (k ++ [0x7D])

/-- The loop body: one parameter. -/
def replaceParam (result k v : GoString) : GoString := replaceAll (colon k) v (replaceAll (braced k) v result)

/-- The loop over the parameters. -/
def replaceParams (params : Params) (pattern : GoString) : GoString :=
  params.entries.foldl (fun result e => replaceParam result e.1 e.2) pattern

/-- `resolve` is the expression engine: the result for a pattern, if it is a string. -/
def resolveChannelPattern (resolve : Params → GoString → GoString → Option GoString) (pattern : GoString)
    (params : Params) (userID : GoString) : GoString :=
  if ¬ [0x7B, 0x7B] <:+: pattern ∧ 0x3A ∉ pattern ∧ 0x7B ∉ pattern then pattern
  else if [0x7B, 0x7B] <:+: pattern then (resolve params userID pattern).getD (replaceParams params pattern)
  else replaceParams params pattern

/-! ### Route parameters -/

/-- The map is one of the route parameters of a path, in some order. -/
def RouteParams (path : GoString) (params : Params) : Prop :=
  ∃ get, params.entries.Perm (extractFiberParams get (extractParamNamesFromPath path)).entries

private theorem lookup_extractFiberParams (get : GoString → GoString) (paramNames : List GoString) (k : GoString) :
    (extractFiberParams get paramNames).lookup k =
      if k ∈ [0x2A] :: paramNames ∧ get k ≠ [] then some (get k) else none := by
  have hloop : ∀ (names : List GoString) (params : Params),
      (names.foldl
        (fun params name => if get name ≠ [] then params.insert name (get name) else params) params).lookup k =
        if k ∈ names ∧ get k ≠ [] then some (get k) else params.lookup k := by
    intro names
    induction names with
    | nil => simp
    | cons name names ih =>
      intro params
      rw [List.foldl_cons, ih]
      by_cases hk : k = name
      · subst hk
        by_cases hget : get k = []
        · simp [hget]
        · simp [hget]
      · by_cases hget : get name = []
        · simp [hget, hk]
        · simp [hget, hk, AList.lookup_insert_ne hk]
  exact (hloop ([0x2A] :: paramNames) ∅).trans (by rw [AList.lookup_empty])

/-- A map is one of route parameters exactly if its keys are declared and no value is empty. -/
private theorem routeParams_iff {path : GoString} {params : Params} :
    RouteParams path params ↔ ∀ e ∈ params.entries, e.1 ∈ [0x2A] :: extractParamNamesFromPath path ∧ e.2 ≠ [] := by
  constructor
  · rintro ⟨get, hperm⟩ e he
    have hlookup := AList.mem_lookup_iff.2 (hperm.mem_iff.1 he)
    rw [lookup_extractFiberParams, Option.mem_def, Option.ite_none_right_eq_some] at hlookup
    obtain ⟨⟨hmem, hne⟩, heq⟩ := hlookup
    rw [Option.some.inj heq] at hne
    exact ⟨hmem, hne⟩
  · intro h
    refine ⟨fun k => (params.lookup k).getD [], List.lookup_ext params.nodupKeys (AList.nodupKeys _) fun k v => ?_⟩
    show v ∈ params.lookup k ↔ v ∈ (extractFiberParams _ _).lookup k
    rw [lookup_extractFiberParams]
    cases hk : params.lookup k with
    | none => simp
    | some w =>
      obtain ⟨hmem, hne⟩ := h ⟨k, w⟩ (AList.mem_lookup_iff.1 hk)
      rw [if_pos ⟨hmem, by simpa using hne⟩]
      rfl

/-! ### All placeholders at once -/

/-- A placeholder of the name begins the text. -/
def BeginsWith (s k : GoString) : Prop := braced k <+: s ∨ colon k <+: s

instance (s k : GoString) : Decidable (BeginsWith s k) := inferInstanceAs (Decidable (_ ∨ _))

/-- The longest name whose placeholder begins the text, and how many letters the placeholder has behind its first one.
-/
def placeholderAt (names : List GoString) (s : GoString) : Option (ℕ × GoString) :=
  ((names.filter (BeginsWith s ·)).argmax List.length).map fun k =>
    (if braced k <+: s then k.length + 1 else k.length, k)

/-- The pattern with every placeholder replaced by the value of its parameter, in one pass. -/
def substitute (params : Params) (pattern : GoString) : GoString :=
  rewrite (placeholderAt params.keys) (fun k => (params.lookup k).getD []) 0 pattern

/-- Some name has a placeholder in the pattern. -/
def Occurs (names : List GoString) (pattern : GoString) : Prop :=
  ∃ k ∈ names, braced k <:+: pattern ∨ colon k <:+: pattern

private theorem beginsWith_unique {s k k' : GoString} (h : BeginsWith s k) (h' : BeginsWith s k')
    (hlen : k.length = k'.length) :
    k = k' := by
  have hne : ∀ {k k' s : GoString}, braced k <+: s → ¬ colon k' <+: s := by
    rintro k k' _ ⟨t, rfl⟩ hc
    exact absurd (List.cons_prefix_cons.1 hc).1 (by decide)
  rcases h with h | h <;> rcases h' with h' | h'
  · have heq := (List.prefix_of_prefix_length_le h h' (by simp [braced, hlen])).eq_of_length (by simp [braced, hlen])
    exact List.append_cancel_right (List.cons.inj heq).2
  · exact absurd h' (hne h)
  · exact absurd h (hne h')
  · have heq := (List.prefix_of_prefix_length_le h h' (by simp [colon, hlen])).eq_of_length (by simp [colon, hlen])
    exact (List.cons.inj heq).2

private theorem placeholderAt_eq_none {names : List GoString} {s : GoString} :
    placeholderAt names s = none ↔ ∀ k ∈ names, ¬ BeginsWith s k := by
  simp [placeholderAt, List.argmax_eq_none, List.filter_eq_nil_iff]

/-- What is found does not depend on the order of the names. -/
private theorem placeholderAt_perm {names names' : List GoString} (h : names.Perm names') (s : GoString) :
    placeholderAt names s = placeholderAt names' s := by
  have hperm := h.filter (BeginsWith s ·)
  rw [placeholderAt, placeholderAt]
  congr 1
  cases hk : (names.filter (BeginsWith s ·)).argmax List.length with
  | none =>
    rw [List.argmax_eq_none] at hk
    rw [eq_comm, List.argmax_eq_none, ← List.perm_nil, ← hk]
    exact hperm.symm
  | some k =>
    cases hk' : (names'.filter (BeginsWith s ·)).argmax List.length with
    | none =>
      rw [List.argmax_eq_none] at hk'
      rw [hk'] at hperm
      rw [hperm.eq_nil] at hk
      cases hk
    | some k' =>
      have hmem := List.argmax_mem hk
      have hmem' := List.argmax_mem hk'
      have hle := List.le_of_mem_argmax (hperm.mem_iff.2 hmem') hk
      have hle' := List.le_of_mem_argmax (hperm.mem_iff.1 hmem) hk'
      have hs := of_decide_eq_true (List.mem_filter.1 hmem).2
      have hs' := of_decide_eq_true (List.mem_filter.1 hmem').2
      rw [beginsWith_unique hs hs' (le_antisymm hle' hle)]

/-- The text with all placeholders replaced does not depend on the order of the parameters. -/
private theorem substitute_perm {params params' : Params} (h : params.entries.Perm params'.entries)
    (pattern : GoString) :
    substitute params pattern = substitute params' pattern := by
  have hkeys : params.keys.Perm params'.keys := h.map Sigma.fst
  refine rewrite_congr 0 fun t _ => ?_
  rw [placeholderAt_perm hkeys]
  refine congrArg (fun f => Option.map f _) (funext fun e => ?_)
  rw [AList.perm_lookup h]

/-! ### The loop -/

private theorem replaceParam_of_not_infix {pattern k : GoString} (v : GoString) (hbraced : ¬ braced k <:+: pattern)
    (hcolon : ¬ colon k <:+: pattern) : replaceParam pattern k v = pattern := by
  rw [replaceParam, replaceAll_of_not_infix hbraced, replaceAll_of_not_infix hcolon]

/-- A pattern without placeholders is left as it is. -/
private theorem replaceParams_of_not_occurs {params : Params} {pattern : GoString} (h : ¬ Occurs params.keys pattern) :
    replaceParams params pattern = pattern := by
  have hstep : ∀ entries : List (Sigma fun _ : GoString => GoString), (∀ e ∈ entries, e.1 ∈ params.keys) →
      entries.foldl (fun result e => replaceParam result e.1 e.2) pattern = pattern := by
    intro entries hentries
    induction entries with
    | nil => rfl
    | cons e entries ih =>
      obtain ⟨he, hentries⟩ := List.forall_mem_cons.1 hentries
      have hkeep := replaceParam_of_not_infix e.2 (fun hb => h ⟨e.1, he, .inl hb⟩) fun hc => h ⟨e.1, he, .inr hc⟩
      rw [List.foldl_cons, hkeep, ih hentries]
  exact hstep params.entries fun e he => List.mem_map_of_mem he

private theorem substitute_of_not_occurs {params : Params} {pattern : GoString} (h : ¬ Occurs params.keys pattern) :
    substitute params pattern = pattern := by
  refine rewrite_eq_self fun t ht => placeholderAt_eq_none.2 fun k hk hbegins => h ⟨k, hk, ?_⟩
  exact hbegins.imp (fun hp => hp.isInfix.trans ht.isInfix) fun hp => hp.isInfix.trans ht.isInfix

/-- Without expressions the pattern is left to the loop. -/
private theorem resolveChannelPattern_eq (resolve : Params → GoString → GoString → Option GoString) {pattern : GoString}
    (h : ¬ [0x7B, 0x7B] <:+: pattern) (params : Params) (userID : GoString) :
    resolveChannelPattern resolve pattern params userID = replaceParams params pattern := by
  rw [resolveChannelPattern, if_neg h]
  split_ifs with hplain
  · obtain ⟨-, hcolon, hbrace⟩ := hplain
    refine (replaceParams_of_not_occurs ?_).symm
    rintro ⟨k, -, hb | hc⟩
    · exact hbrace (hb.subset List.mem_cons_self)
    · exact hcolon (hc.subset List.mem_cons_self)
  · rfl

/-- A name that is nowhere in braces is replaced as at once. -/
private theorem replaceParam_eq_substitute {params : Params} {a v pattern : GoString} (hkeys : params.keys = [a])
    (hv : params.lookup a = some v) (h : ¬ braced a <:+: pattern) :
    replaceParam pattern a v = substitute params pattern := by
  rw [replaceParam, replaceAll_of_not_infix h, substitute, replaceAll]
  refine rewrite_congr 0 fun t ht => ?_
  have hbraced : ¬ braced a <+: t := fun hp => h (hp.isInfix.trans ht.isInfix)
  rw [hkeys, findOld]
  by_cases hcolon : colon a <+: t
  · have hbegins : BeginsWith t a := .inr hcolon
    rw [if_pos hcolon]
    simp [placeholderAt, hbegins, hbraced, hv, colon]
  · have hbegins : ¬ BeginsWith t a := fun hb => hb.elim hbraced hcolon
    rw [if_neg hcolon]
    simp [placeholderAt, hbegins]

/-! ### Values with placeholders -/

private theorem colon_ne_nil (k : GoString) : colon k ≠ [] := List.cons_ne_nil _ _

private theorem braced_ne_nil (k : GoString) : braced k ≠ [] := List.cons_ne_nil _ _

private theorem not_mem_colon {k : GoString} (h : (0x2F : UInt8) ∉ k) : (0x2F : UInt8) ∉ colon k := by
  simp [colon, h]

private theorem slash_not_mem_name {path k : GoString} (h : k ∈ [0x2A] :: extractParamNamesFromPath path) :
    (0x2F : UInt8) ∉ k := by
  rcases List.mem_cons.1 h with rfl | h
  · decide
  · obtain ⟨part, hpart, hk⟩ := List.mem_filterMap.1 h
    have hslash := FilePath.not_mem_of_mem_splitOn hpart
    cases part with
    | nil => cases hk
    | cons c after =>
      by_cases hc : c = 0x3A
      · simp only [hc, if_true, Option.some.injEq] at hk
        subst hk
        exact fun hmem => hslash (List.mem_cons_of_mem c hmem)
      · simp [hc] at hk

/-- The map with the given keys in their order. -/
def paramsOf (keys : List GoString) (h : keys.Nodup) (val : GoString → GoString) : Params where
  entries := keys.map fun k => ⟨k, val k⟩
  nodupKeys := by
    rw [List.NodupKeys, List.keys, List.map_map]
    simpa [Function.comp_def] using h

private theorem keys_paramsOf (keys : List GoString) (h : keys.Nodup) (val : GoString → GoString) :
    (paramsOf keys h val).keys = keys := by
  simp [paramsOf, AList.keys, List.keys, Function.comp_def]

private theorem lookup_paramsOf {keys : List GoString} (h : keys.Nodup) (val : GoString → GoString) {k : GoString}
    (hk : k ∈ keys) :
    (paramsOf keys h val).lookup k = some (val k) := by
  exact AList.mem_lookup_iff.2 (List.mem_map.2 ⟨k, hk, rfl⟩)

private theorem replaceParams_paramsOf (keys : List GoString) (h : keys.Nodup) (val : GoString → GoString)
    (pattern : GoString) :
    replaceParams (paramsOf keys h val) pattern =
      keys.foldl (fun result k => replaceParam result k (val k)) pattern := by
  exact List.foldl_map

private theorem exists_first_name {names : List GoString} {pattern : GoString} (h : Occurs names pattern) :
    ∃ a ∈ names, ∀ val : GoString → GoString, val a <:+: rewrite (placeholderAt names) val 0 pattern := by
  obtain ⟨k, hk, hocc⟩ := h
  obtain ⟨t, hbegins, hsuffix⟩ : ∃ t, BeginsWith t k ∧ t <:+ pattern := by
    rcases hocc with hb | hc
    · obtain ⟨t, hp, hs⟩ := List.infix_iff_prefix_suffix.1 hb
      exact ⟨t, .inl hp, hs⟩
    · obtain ⟨t, hp, hs⟩ := List.infix_iff_prefix_suffix.1 hc
      exact ⟨t, .inr hp, hs⟩
  have hne : t ≠ [] := by
    rintro rfl
    exact hbegins.elim (fun hb => braced_ne_nil k (List.prefix_nil.1 hb)) fun hc =>
      colon_ne_nil k (List.prefix_nil.1 hc)
  have hfind : placeholderAt names t ≠ none := fun hnone => placeholderAt_eq_none.1 hnone k hk hbegins
  obtain ⟨t', n, a, ha, hval⟩ := exists_val_infix_rewrite hsuffix hne hfind
  obtain ⟨a', ha', heq⟩ := Option.map_eq_some_iff.1 ha
  obtain rfl : a' = a := (Prod.mk.inj heq).2
  exact ⟨a', (List.mem_filter.1 (List.argmax_mem ha')).1, hval⟩

/-- With two names, the value of the one is a placeholder of the other, which comes last and is replaced again. -/
private theorem exists_params_of_two {names : List GoString} (hnodup : names.Nodup)
    (hslash : ∀ k ∈ names, (0x2F : UInt8) ∉ k)
    {pattern a b : GoString} (ha : a ∈ names) (hb : b ∈ names) (hab : a ≠ b)
    (hval : ∀ val : GoString → GoString, val a <:+: rewrite (placeholderAt names) val 0 pattern) :
    ∃ params : Params, params.keys.Perm names ∧ (∀ e ∈ params.entries, e.2 ≠ []) ∧
      replaceParams params pattern ≠ substitute params pattern := by
  have hperm : (names.erase b ++ [b]).Perm names :=
    (List.perm_append_singleton b _).trans (List.perm_cons_erase hb).symm
  have hkeys : (names.erase b ++ [b]).Nodup := hperm.nodup_iff.2 hnodup
  set val : GoString → GoString := fun k => if k = a then colon b else [0x2F] with hvaldef
  refine ⟨paramsOf _ hkeys val, by rwa [keys_paramsOf], ?_, fun heq => ?_⟩
  · intro e he
    obtain ⟨k, -, rfl⟩ := List.mem_map.1 he
    simp only [hvaldef]
    split_ifs <;> exact List.cons_ne_nil _ _
  · have hlast : ¬ colon b <:+: replaceParams (paramsOf _ hkeys val) pattern := by
      have hb' : val b = [0x2F] := if_neg (Ne.symm hab)
      rw [replaceParams_paramsOf, List.foldl_append, List.foldl_cons, List.foldl_nil, replaceParam, hb']
      exact not_infix_replaceAll (colon_ne_nil b) (not_mem_colon (hslash b hb)) _
    rw [heq, substitute, keys_paramsOf, funext (placeholderAt_perm hperm)] at hlast
    refine hlast ?_
    have hinfix := hval fun k => ((paramsOf _ hkeys val).lookup k).getD []
    rw [lookup_paramsOf hkeys val (hperm.mem_iff.2 ha)] at hinfix
    simpa [hvaldef] using hinfix

/-- A text with the placeholder `:a` many times. -/
def blocks (a : GoString) (n : ℕ) : GoString := (List.replicate n (colon a ++ [0x2F])).flatten

private theorem length_replaceAll_blocks {a : GoString} (v : GoString) (ha : (0x2F : UInt8) ∉ a) (n : ℕ)
    (s : GoString) :
    n * v.length ≤ (replaceAll (colon a) v (blocks a n ++ s)).length := by
  induction n with
  | zero => simp
  | succ n ih =>
    have hstep : blocks a (n + 1) ++ s = colon a ++ ([] ++ 0x2F :: (blocks a n ++ s)) := by
      simp [blocks, List.replicate_succ]
    rw [hstep, replaceAll_old_append (colon_ne_nil a), replaceAll_append_cons (colon_ne_nil a) (not_mem_colon ha),
      List.length_append, List.length_append, List.length_cons, Nat.succ_mul]
    omega

/-- With one name that is in braces somewhere, its value is full of the placeholders of its own name, which are replaced
again. -/
private theorem exists_params_of_braced {a pattern : GoString} (ha : (0x2F : UInt8) ∉ a)
    (hbraced : braced a <:+: pattern) :
    ∃ params : Params, params.keys.Perm [a] ∧ (∀ e ∈ params.entries, e.2 ≠ []) ∧
      replaceParams params pattern ≠ substitute params pattern := by
  obtain ⟨v, hv⟩ : ∃ v : GoString, v = 0x2F :: blocks a (pattern.length + 1) := ⟨_, rfl⟩
  refine ⟨AList.singleton a v, by simp, by simp [hv], fun heq => ?_⟩
  have hlow : (pattern.length + 1) * v.length ≤ (replaceParams (AList.singleton a v) pattern).length := by
    obtain ⟨x, y, hxy⟩ := new_infix_replaceAll v (braced_ne_nil a) hbraced
    show _ ≤ (replaceAll (colon a) v (replaceAll (braced a) v pattern)).length
    have hblocks := length_replaceAll_blocks v ha (pattern.length + 1) y
    have hsplit : x ++ v ++ y = x ++ 0x2F :: (blocks a (pattern.length + 1) ++ y) := by simp [hv]
    rw [← hxy, hsplit, replaceAll_append_cons (colon_ne_nil a) (not_mem_colon ha), List.length_append, List.length_cons]
    omega
  have hhigh : (substitute (AList.singleton a v) pattern).length ≤ pattern.length * v.length := by
    refine length_rewrite_le (by simp [hv]) (fun k => ?_) 0 pattern
    cases hk : (AList.singleton a v : Params).lookup k with
    | none => simp
    | some w =>
      have hmem := AList.mem_lookup_iff.1 hk
      simp only [AList.singleton_entries, List.mem_singleton, Sigma.mk.injEq, heq_eq_eq] at hmem
      rw [hmem.2]
      exact le_rfl
  have hpos : 0 < v.length := by simp [hv]
  rw [heq, Nat.succ_mul] at hlow
  omega

/-! ### When the channel name is safe -/

/-- For every map of route parameters with these names, in every order, the channel name is the pattern with all
placeholders replaced at once. -/
def ReplacesAtOnce (resolve : Params → GoString → GoString → Option GoString) (path pattern : GoString)
    (names : List GoString) : Prop :=
  ∀ params : Params, RouteParams path params → params.keys.Perm names → ∀ userID,
    resolveChannelPattern resolve pattern params userID = substitute params pattern ∧
    ∀ params' : Params, params.entries.Perm params'.entries →
      resolveChannelPattern resolve pattern params' userID = resolveChannelPattern resolve pattern params userID

private theorem replacesAtOnce_iff_loop {resolve : Params → GoString → GoString → Option GoString}
    {path pattern : GoString}
    {names : List GoString} (hpattern : ¬ [0x7B, 0x7B] <:+: pattern) :
    ReplacesAtOnce resolve path pattern names ↔
      ∀ params : Params, RouteParams path params → params.keys.Perm names →
        replaceParams params pattern = substitute params pattern := by
  constructor
  · intro h params hroute hkeys
    rw [← resolveChannelPattern_eq resolve hpattern params []]
    exact (h params hroute hkeys []).1
  · intro h params hroute hkeys userID
    simp only [resolveChannelPattern_eq resolve hpattern]
    refine ⟨h params hroute hkeys, fun params' hperm => ?_⟩
    have hroute' : RouteParams path params' :=
      routeParams_iff.2 fun e he => routeParams_iff.1 hroute e (hperm.mem_iff.2 he)
    have hkeys' : params'.keys.Perm names := (hperm.map Sigma.fst).symm.trans hkeys
    rw [h params hroute hkeys, h params' hroute' hkeys', substitute_perm hperm]

private theorem replaceParams_of_not_braced {params : Params} {a pattern : GoString} (hkeys : params.keys.Perm [a])
    (h : ¬ braced a <:+: pattern) : replaceParams params pattern = substitute params pattern := by
  have hkeys : params.keys = [a] := List.perm_singleton.1 hkeys
  obtain ⟨v, hv⟩ : ∃ v, params.entries = [⟨a, v⟩] := by
    obtain ⟨e, he⟩ := List.map_eq_singleton_iff.1 hkeys
    exact ⟨e.2, by rw [he.1, ← he.2]⟩
  have hlookup : params.lookup a = some v := AList.mem_lookup_iff.2 (by rw [hv]; exact List.mem_singleton_self _)
  rw [← replaceParam_eq_substitute hkeys hlookup h, replaceParams, hv]
  rfl

/-- The channel name of a pattern without expressions is safe exactly if the pattern has no placeholders, or if there
is one parameter only and the pattern does not have it in braces. -/
theorem replacesAtOnce_iff (resolve : Params → GoString → GoString → Option GoString) {path pattern : GoString}
    {names : List GoString} (hnodup : names.Nodup)
    (hnames : ∀ k ∈ names, k ∈ [0x2A] :: extractParamNamesFromPath path) (hpattern : ¬ [0x7B, 0x7B] <:+: pattern) :
    ReplacesAtOnce resolve path pattern names ↔
      ¬ Occurs names pattern ∨ ∃ a, names = [a] ∧ ¬ braced a <:+: pattern := by
  have hslash : ∀ k ∈ names, (0x2F : UInt8) ∉ k := fun k hk => slash_not_mem_name (hnames k hk)
  rw [replacesAtOnce_iff_loop hpattern]
  constructor
  · intro h
    by_contra hcond
    obtain ⟨hoccurs, hbraced⟩ := not_or.1 hcond
    obtain ⟨a, ha, hval⟩ := exists_first_name (not_not.1 hoccurs)
    obtain ⟨params, hkeys, hne, hbad⟩ : ∃ params : Params, params.keys.Perm names ∧ (∀ e ∈ params.entries, e.2 ≠ []) ∧
        replaceParams params pattern ≠ substitute params pattern := by
      by_cases htwo : ∃ b ∈ names, a ≠ b
      · obtain ⟨b, hb, hab⟩ := htwo
        exact exists_params_of_two hnodup hslash ha hb hab hval
      · push Not at htwo
        have hrep := List.eq_replicate_of_mem fun b hb => (htwo b hb).symm
        have hone : names = [a] := by
          have hle : names.length ≤ 1 := List.nodup_replicate.1 (hrep ▸ hnodup)
          have hpos := List.length_pos_of_mem ha
          rw [hrep, Nat.le_antisymm hle hpos]
          rfl
        have hin : braced a <:+: pattern := by
          by_contra hnot
          exact hbraced ⟨a, hone, hnot⟩
        rw [hone]
        exact exists_params_of_braced (hslash a ha) hin
    refine hbad (h params (routeParams_iff.2 fun e he => ⟨?_, hne e he⟩) hkeys)
    exact hnames _ (hkeys.mem_iff.1 (List.mem_map_of_mem he))
  · rintro (hnone | ⟨a, rfl, hbraced⟩) params - hkeys
    · have hnone' : ¬ Occurs params.keys pattern := by
        rintro ⟨k, hk, hocc⟩
        exact hnone ⟨k, hkeys.mem_iff.1 hk, hocc⟩
      rw [replaceParams_of_not_occurs hnone', substitute_of_not_occurs hnone']
    · exact replaceParams_of_not_braced hkeys hbraced

/-- The bytes of a text of ASCII letters. -/
def ascii (s : String) : GoString := s.toList.map Char.toUInt8

theorem replacesAtOnce_id : ReplacesAtOnce (fun _ _ _ => none) (ascii "/:id") (ascii "room.:id") [ascii "id"] :=
  (replacesAtOnce_iff _ (by decide) (by decide) (by decide)).2 (.inr ⟨ascii "id", rfl, by decide⟩)

/-- The parameter `a` has the value `:b` and `b` has the value `x`. -/
def injected (k : GoString) : GoString := if k = ascii "a" then ascii ":b" else ascii "x"

def aThenB : Params := paramsOf [ascii "a", ascii "b"] (by decide) injected

def bThenA : Params := paramsOf [ascii "b", ascii "a"] (by decide) injected

/-- The channel name depends on the order in which the map is visited: the value `:b` is replaced in turn. -/
theorem value_replaced_again :
    ¬ ReplacesAtOnce (fun _ _ _ => none) (ascii "/:a/:b") (ascii "room.:a.:b") [ascii "a", ascii "b"] ∧
    resolveChannelPattern (fun _ _ _ => none) (ascii "room.:a.:b") aThenB [] = ascii "room.x.x" ∧
    resolveChannelPattern (fun _ _ _ => none) (ascii "room.:a.:b") bThenA [] = ascii "room.:b.x" ∧
    substitute aThenB (ascii "room.:a.:b") = ascii "room.:b.x" := by
  refine ⟨fun h => ?_, by decide, by decide, by decide⟩
  have hroute : RouteParams (ascii "/:a/:b") aThenB := routeParams_iff.2 (by decide)
  exact absurd (h aThenB hroute (List.Perm.refl _) []).1 (by decide)

end Noda.Connmgr
