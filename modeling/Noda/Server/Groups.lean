import Noda.Lib.KeepFirst
import Noda.Server.Middleware

/-!
# The middleware of route groups

What the config declares for a route, through the groups that match its path and for the route itself, against the chain
that `resolveMiddlewareNames` yields (`Complete`).  A group that names a preset has no use of its own list, where a
route has: its names are passed over.  So a chain is complete exactly when those names are listed again in time
(`resolveMiddlewareNames_complete_iff`).
-/

namespace Noda.Server

open Noda.Config

variable (rc : ResolvedConfig)

/-! ### What is declared -/

/-- The names of the preset of a route or a group. -/
def presetNames (m : AnyMap) : List String := ((presetOf m).bind (getPresets rc).lookup).getD []

/-- The names that a route or a group declares, through its preset and in its own list. -/
def declared (m : AnyMap) : List String := presetNames rc m ++ stringsField m "middleware"

def Matches (route : AnyMap) (pfx : String) (group : AnyMap) : Prop :=
  (getRouteGroups rc).lookup pfx = some group ∧ prefixMatches (routePath route) pfx = true

def Declares (route : AnyMap) (pfx name : String) : Prop :=
  ∃ group, Matches rc route pfx group ∧ name ∈ declared rc group

/-- The one path is a proper part of the other one, segment by segment. -/
def Outer (outer inner : String) : Prop := (trimSlash outer ++ "/").toList <+: (trimSlash inner).toList

def authTypes : List String := ["auth.jwt", "auth.oidc", "auth.session"]

/-- What a chain must be for a route. -/
structure Complete (route : AnyMap) (chain : List String) : Prop where
  groups : ∀ pfx name, Declares rc route pfx name → name ∈ chain
  own : ∀ name ∈ declared rc route, name ∈ chain
  /-- nothing comes from elsewhere -/
  only : ∀ name ∈ chain, (∃ pfx, Declares rc route pfx name) ∨ name ∈ declared rc route
  nodup : chain.Nodup
  /-- what comes before a name that a group declares is declared by a group too, and by one that is not inside it -/
  order : chain.Pairwise fun x y => ∀ pfx, Declares rc route pfx y → ∃ pfx', Declares rc route pfx' x ∧ ¬Outer pfx pfx'
  casbin : chain.Pairwise fun x y =>
    (parseMiddlewareName x).1 = "casbin.enforce" → (parseMiddlewareName y).1 ∉ authTypes

/-! ### What is passed over -/

/-- The names of the own list of a group that names a preset. -/
def passedOver (group : AnyMap) : List String :=
  if (presetOf group).isSome then stringsField group "middleware" else []

/-- The names of a group that are not passed over. -/
def used (group : AnyMap) : List String :=
  if (presetOf group).isSome then presetNames rc group else stringsField group "middleware"

/-- The names that are listed for the route and not passed over, the outermost group first. -/
def listed (route : AnyMap) : List String :=
  ((matchedGroups rc (routePath route)).flatMap fun pfx => used rc (((getRouteGroups rc).lookup pfx).getD ∅)) ++
    declared rc route

/-- Whatever is passed over is listed again: before all that is declared only inside the group or by the route. -/
def ListedAgain (route : AnyMap) : Prop :=
  ∀ pfx group, Matches rc route pfx group → ∀ name ∈ passedOver group,
    ∃ before after, listed rc route = before ++ name :: after ∧
      ∀ x ∈ before, ∃ pfx', Declares rc route pfx' x ∧ ¬Outer pfx pfx'

variable {rc} {E : Externals} {route : AnyMap}

private theorem mem_declared_iff {group : AnyMap} {name : String} :
    name ∈ declared rc group ↔ name ∈ used rc group ∨ name ∈ passedOver group := by
  unfold declared used passedOver
  cases hpreset : presetOf group with
  | none => simp [presetNames, hpreset]
  | some preset => simp

/-! ### The paths of groups -/

private theorem eq_trimSlash_or (s : String) :
    s = trimSlash s ++ "/" ∨ s = trimSlash s ∧ s.toList.getLast? ≠ some '/' := by
  unfold trimSlash
  split_ifs with h
  · refine .inl ?_
    rw [← String.toList_inj, String.toList_append, String.toList_ofList]
    exact (List.dropLast_append_getLast? '/' h).symm
  · exact .inr ⟨rfl, h⟩

/-- A path is longer than one outside. -/
private theorem utf8ByteSize_lt_of_outer {outer inner : String} (h : Outer outer inner) :
    outer.utf8ByteSize < inner.utf8ByteSize := by
  have hslash : "/".utf8ByteSize = 1 := rfl
  obtain ⟨rest, hrest⟩ := h
  have hinner : trimSlash inner = trimSlash outer ++ "/" ++ String.ofList rest := by
    rw [← String.toList_inj, String.toList_append, String.toList_ofList]
    exact hrest.symm
  have houter : outer.utf8ByteSize ≤ (trimSlash outer).utf8ByteSize + 1 := by
    rcases eq_trimSlash_or outer with heq | ⟨heq, -⟩
    · have := congrArg String.utf8ByteSize heq
      rw [String.utf8ByteSize_append] at this
      omega
    · have := congrArg String.utf8ByteSize heq
      omega
  have hsize := congrArg String.utf8ByteSize hinner
  rw [String.utf8ByteSize_append, String.utf8ByteSize_append] at hsize
  rcases eq_trimSlash_or inner with heq | ⟨heq, hlast⟩
  · have := congrArg String.utf8ByteSize heq
    rw [String.utf8ByteSize_append] at this
    omega
  · -- the inner path has no slash at its end, so it goes on after that of the outer one
    have hne : (String.ofList rest).utf8ByteSize ≠ 0 := by
      intro hzero
      rw [String.utf8ByteSize_eq_zero_iff] at hzero
      rw [hzero, String.append_empty] at hinner
      refine hlast ?_
      rw [heq, hinner, String.toList_append]
      simp
    have := congrArg String.utf8ByteSize heq
    omega

private theorem not_outer_self (pfx : String) : ¬Outer pfx pfx := fun h => Nat.lt_irrefl _ (utf8ByteSize_lt_of_outer h)

private theorem mem_matchedGroups {path pfx : String} :
    pfx ∈ matchedGroups rc path ↔ pfx ∈ getRouteGroups rc ∧ prefixMatches path pfx = true := by
  unfold matchedGroups
  rw [(List.perm_insertionSort _ _).mem_iff, List.mem_filter, AList.mem_keys]

/-- No group comes before one that is outside. -/
private theorem matchedGroups_pairwise (path : String) : (matchedGroups rc path).Pairwise fun a b => ¬Outer b a := by
  have htotal : Std.Total fun a b : String =>
      a.utf8ByteSize < b.utf8ByteSize ∨ (a.utf8ByteSize = b.utf8ByteSize ∧ a ≤ b) := by
    refine ⟨fun a b => ?_⟩
    rcases Nat.lt_trichotomy a.utf8ByteSize b.utf8ByteSize with hlt | heq | hgt
    · exact .inl (.inl hlt)
    · rcases String.le_total a b with hle | hle
      · exact .inl (.inr ⟨heq, hle⟩)
      · exact .inr (.inr ⟨heq.symm, hle⟩)
    · exact .inr (.inl hgt)
  have htrans : IsTrans String fun a b =>
      a.utf8ByteSize < b.utf8ByteSize ∨ (a.utf8ByteSize = b.utf8ByteSize ∧ a ≤ b) := by
    refine ⟨fun a b c hab hbc => ?_⟩
    rcases hab with hab | ⟨hab, hle⟩
    · rcases hbc with hbc | ⟨hbc, -⟩
      · exact .inl (hab.trans hbc)
      · exact .inl (hbc ▸ hab)
    · rcases hbc with hbc | ⟨hbc, hle'⟩
      · exact .inl (hab ▸ hbc)
      · exact .inr ⟨hab.trans hbc, String.le_trans hle hle'⟩
  refine (List.pairwise_insertionSort _ _).imp ?_
  intro a b hab houter
  have hlt := utf8ByteSize_lt_of_outer houter
  rcases hab with hab | ⟨hab, -⟩
  · omega
  · omega

/-! ### The chain -/

private theorem expandPreset_eq {preset : String} {names : List String} (h : expandPreset rc preset = .ok names) :
    (getPresets rc).lookup preset = some names := by
  unfold expandPreset at h
  split at h
  · rename_i hlookup
    cases h
    exact hlookup
  · cases h

private theorem presetMiddleware_eq {m : AnyMap} {names : List String} (h : presetMiddleware rc m = .ok names) :
    names = presetNames rc m := by
  unfold presetMiddleware at h
  unfold presetNames
  split at h
  · rename_i preset hpreset
    rw [hpreset, Option.bind_some, expandPreset_eq h, Option.getD_some]
  · rename_i hpreset
    cases h
    rw [hpreset]
    rfl

private theorem groupMiddleware_eq {group : AnyMap} {names : List String} (h : groupMiddleware rc group = .ok names) :
    names = used rc group := by
  unfold groupMiddleware at h
  unfold used presetNames
  split at h
  · rename_i preset hpreset
    rw [hpreset, Option.bind_some, expandPreset_eq h, Option.getD_some]
    rfl
  · rename_i hpreset
    cases h
    rw [hpreset]
    rfl

private theorem getGroupMiddleware_eq {path : String} {names : List String}
    (h : getGroupMiddleware rc path = .ok names) :
    names = (matchedGroups rc path).flatMap fun pfx => used rc (((getRouteGroups rc).lookup pfx).getD ∅) := by
  obtain ⟨lists, hlists, h⟩ := Outcome.bind_eq_ok h
  cases h
  rw [Outcome.mapM_eq_map (fun _ _ => groupMiddleware_eq) hlists, List.flatMap_def]

/-- A chain is what is listed, without repetitions and in an order that passes the check. -/
theorem resolveMiddlewareNames_eq {chain : List String} (h : resolveMiddlewareNames E rc route = .ok chain) :
    chain = keepFirst (listed rc route) ∧ validateMiddlewareOrder chain = none := by
  obtain ⟨groupMW, hgroup, h⟩ := Outcome.bind_eq_ok h
  obtain ⟨presetMW, hpreset, h⟩ := Outcome.bind_eq_ok h
  have hpreset' : presetMiddleware rc route = .ok presetMW := by
    cases hm : presetMiddleware rc route with
    | error err =>
      rw [hm] at hpreset
      cases hpreset
    | ok names =>
      rw [hm] at hpreset
      exact hpreset
  have hnames : groupMW ++ presetMW ++ stringsField route "middleware" = listed rc route := by
    rw [getGroupMiddleware_eq hgroup, presetMiddleware_eq hpreset', listed, declared, List.append_assoc]
  unfold orderedNames at h
  rw [hnames] at h
  split at h
  · cases h
  · rename_i hvalid
    cases h
    exact ⟨rfl, hvalid⟩

private theorem validateMiddlewareOrder_pairwise {chain : List String} (h : validateMiddlewareOrder chain = none) :
    chain.Pairwise fun x y => (parseMiddlewareName x).1 = "casbin.enforce" → (parseMiddlewareName y).1 ∉ authTypes := by
  obtain ⟨bases, hbases⟩ : ∃ bases, bases = chain.map fun name => (parseMiddlewareName name).1 := ⟨_, rfl⟩
  have hcheck : ∀ first, bases.findIdx? (· = "casbin.enforce") = some first →
      ∀ dep ∈ authTypes, dep ∉ bases.drop (first + 1) := by
    intro first hfirst dep hdep hmem
    unfold validateMiddlewareOrder at h
    rw [← hbases, List.findSome?_eq_none_iff] at h
    have hrule := h ("casbin.enforce", authTypes) (by simp [middlewareOrderRules, authTypes])
    simp only [hfirst, Option.bind_some, List.findSome?_eq_none_iff] at hrule
    have := hrule dep hdep
    rw [if_pos hmem] at this
    cases this
  rw [List.pairwise_iff_getElem]
  intro i j hi hj hij hcasbin hauth
  have hibases : i < bases.length := by rw [hbases, List.length_map]; exact hi
  have hjbases : j < bases.length := by rw [hbases, List.length_map]; exact hj
  have hbi : bases[i] = "casbin.enforce" := by simpa [hbases] using hcasbin
  have hbj : bases[j] ∈ authTypes := by simpa [hbases] using hauth
  cases hfirst : bases.findIdx? (· = "casbin.enforce") with
  | none =>
    rw [List.findIdx?_eq_none_iff] at hfirst
    have := hfirst bases[i] (List.getElem_mem hibases)
    simp [hbi] at this
  | some first =>
    have hle : first ≤ i := by
      obtain ⟨hlt, -, hmin⟩ := List.findIdx?_eq_some_iff_getElem.1 hfirst
      by_contra hlt'
      exact hmin i (by omega) (by simp [hbi])
    refine hcheck first hfirst bases[j] hbj ?_
    rw [List.mem_drop_iff_getElem]
    refine ⟨j - (first + 1), by omega, ?_⟩
    congr 1
    omega

/-! ### When a chain is complete -/

theorem mem_listed {name : String} : name ∈ listed rc route ↔
    (∃ pfx group, Matches rc route pfx group ∧ name ∈ used rc group) ∨ name ∈ declared rc route := by
  unfold listed
  rw [List.mem_append, List.mem_flatMap]
  refine or_congr_left ?_
  constructor
  · rintro ⟨pfx, hpfx, hname⟩
    obtain ⟨hmem, hmatches⟩ := mem_matchedGroups.1 hpfx
    obtain ⟨group, hgroup⟩ := AList.exists_lookup_of_mem hmem
    rw [hgroup] at hname
    exact ⟨pfx, group, ⟨hgroup, hmatches⟩, hname⟩
  · rintro ⟨pfx, group, ⟨hgroup, hmatches⟩, hname⟩
    refine ⟨pfx, mem_matchedGroups.2 ⟨AList.mem_of_lookup hgroup, hmatches⟩, ?_⟩
    rw [hgroup]
    exact hname

/-- Before a name that a group uses stands nothing that is declared only inside of it. -/
private theorem listed_before {pfx : String} {group : AnyMap} {y : String} (hmatches : Matches rc route pfx group)
    (hused : y ∈ used rc group) {before after : List String} (heq : listed rc route = before ++ y :: after)
    (hy : y ∉ before) {x : String} (hx : x ∈ before) : ∃ pfx', Declares rc route pfx' x ∧ ¬Outer pfx pfx' := by
  have hpfx : pfx ∈ matchedGroups rc (routePath route) :=
    mem_matchedGroups.2 ⟨AList.mem_of_lookup hmatches.1, hmatches.2⟩
  obtain ⟨pfx', hpfx', hx', hor⟩ := exists_source_of_flatMap (matchedGroups_pairwise (routePath route)) heq hy
    hpfx (by rw [hmatches.1]; exact hused) hx
  obtain ⟨hmem, hmatches'⟩ := mem_matchedGroups.1 hpfx'
  obtain ⟨group', hgroup'⟩ := AList.exists_lookup_of_mem hmem
  rw [hgroup'] at hx'
  refine ⟨pfx', ⟨group', ⟨hgroup', hmatches'⟩, mem_declared_iff.2 (.inl hx')⟩, ?_⟩
  rcases hor with rfl | hnot
  · exact not_outer_self pfx'
  · exact hnot

/-- The chain of a route is complete exactly when the names in the own lists of groups with a preset are listed again:
before all that is declared only inside the group or by the route. -/
theorem resolveMiddlewareNames_complete_iff (E : Externals) (rc : ResolvedConfig) (route : AnyMap) (chain : List String)
    (h : resolveMiddlewareNames E rc route = .ok chain) : Complete rc route chain ↔ ListedAgain rc route := by
  obtain ⟨rfl, hvalid⟩ := resolveMiddlewareNames_eq h
  constructor
  · intro hcomplete pfx group hmatches name hname
    have hdeclares : Declares rc route pfx name := ⟨group, hmatches, mem_declared_iff.2 (.inr hname)⟩
    have hlisted : name ∈ listed rc route := mem_keepFirst.1 (hcomplete.groups pfx name hdeclares)
    obtain ⟨before, after, heq, hnot⟩ := List.eq_append_cons_of_mem hlisted
    refine ⟨before, after, heq, fun x hx => ?_⟩
    exact pairwise_keepFirst.1 hcomplete.order before name after heq hnot x hx pfx hdeclares
  · intro hagain
    exact {
      groups := by
        rintro pfx name ⟨group, hmatches, hname⟩
        rw [mem_keepFirst]
        rcases mem_declared_iff.1 hname with hused | hpassed
        · exact mem_listed.2 (.inl ⟨pfx, group, hmatches, hused⟩)
        · obtain ⟨before, after, heq, -⟩ := hagain pfx group hmatches name hpassed
          rw [heq]
          simp
      own := fun name hname => mem_keepFirst.2 (mem_listed.2 (.inr hname))
      only := by
        intro name hname
        rcases mem_listed.1 (mem_keepFirst.1 hname) with ⟨pfx, group, hmatches, hused⟩ | hown
        · exact .inl ⟨pfx, group, hmatches, mem_declared_iff.2 (.inl hused)⟩
        · exact .inr hown
      nodup := nodup_keepFirst _
      order := by
        rw [pairwise_keepFirst]
        rintro before y after heq hy x hx pfx ⟨group, hmatches, hdeclared⟩
        rcases mem_declared_iff.1 hdeclared with hused | hpassed
        · exact listed_before hmatches hused heq hy hx
        · -- the name is listed again where only such names have come, and this is not after its first occurrence
          obtain ⟨before', after', heq', hbefore'⟩ := hagain pfx group hmatches y hpassed
          refine hbefore' x ?_
          rcases List.append_eq_append_iff.1 (heq.symm.trans heq') with ⟨more, rfl, -⟩ | ⟨more, rfl, hmore⟩
          · exact List.mem_append_left more hx
          · cases more with
            | nil => simpa using hx
            | cons z more =>
              rw [List.cons_append] at hmore
              obtain ⟨rfl, -⟩ := List.cons.inj hmore
              exact absurd (List.mem_append_right _ List.mem_cons_self) hy
      casbin := validateMiddlewareOrder_pairwise hvalid }

/-- A group inside another one, which lists what its preset has. -/
def nestedGroups : ResolvedConfig where
  root := GoMap.ofPairs [("middleware_presets", .obj [("authenticated", .arr [.str "auth.jwt"])]),
    ("route_groups", .obj [("/api/admin", .obj [("middleware", .arr [.str "casbin.enforce"])]),
      ("/api", .obj [("middleware_preset", .str "authenticated"), ("middleware", .arr [.str "auth.jwt"])])])]
  routes := ∅
  workflows := ∅
  connections := ∅

def adminRoute : AnyMap :=
  GoMap.ofPairs [("id", .str "users"), ("method", .str "GET"), ("path", .str "/api/admin/users"),
  ("middleware", .arr [.str "limiter:api"]), ("trigger", .obj [("workflow", .str "users")])]

theorem complete_nestedGroups : resolveMiddlewareNames limiterOnly nestedGroups adminRoute =
      .ok ["auth.jwt", "casbin.enforce", "limiter:api"] ∧
    Complete nestedGroups adminRoute ["auth.jwt", "casbin.enforce", "limiter:api"] := by
  have hok : resolveMiddlewareNames limiterOnly nestedGroups adminRoute =
      .ok ["auth.jwt", "casbin.enforce", "limiter:api"] := by decide +kernel
  refine ⟨hok, (resolveMiddlewareNames_complete_iff _ _ _ _ hok).2 ?_⟩
  have hfirst : ∀ pfx ∈ matchedGroups nestedGroups "/api/admin/users",
      ∀ name ∈ passedOver (((getRouteGroups nestedGroups).lookup pfx).getD ∅), name = "auth.jwt" := by decide +kernel
  intro pfx group hmatches name hname
  have hjwt := hfirst pfx (mem_matchedGroups.2 ⟨AList.mem_of_lookup hmatches.1, hmatches.2⟩) name
    (by rw [hmatches.1]; exact hname)
  refine ⟨[], ["casbin.enforce", "limiter:api"], ?_, by simp⟩
  rw [hjwt]
  decide +kernel

/-- A group with a preset and a list of its own. -/
def presetAndList : ResolvedConfig where
  root := GoMap.ofPairs [("middleware_presets", .obj [("public", .arr [.str "security.cors"])]),
    ("route_groups", .obj [("/api", .obj [("middleware_preset", .str "public"),
      ("middleware", .arr [.str "auth.jwt"])])])]
  routes := ∅
  workflows := ∅
  connections := ∅

theorem not_complete_presetAndList :
    resolveMiddlewareNames limiterOnly presetAndList adminRoute = .ok ["security.cors", "limiter:api"] ∧
    ¬Complete presetAndList adminRoute ["security.cors", "limiter:api"] := by
  refine ⟨by decide +kernel, fun hcomplete => ?_⟩
  have hgroup : ((getRouteGroups presetAndList).lookup "/api").any fun group =>
      "auth.jwt" ∈ declared presetAndList group := by decide +kernel
  obtain ⟨group, hlookup, hdeclared⟩ := (Option.any_eq_true _ _).1 hgroup
  have hmem := hcomplete.groups "/api" "auth.jwt" ⟨group, ⟨hlookup, by decide +kernel⟩, of_decide_eq_true hdeclared⟩
  simp at hmem

end Noda.Server
