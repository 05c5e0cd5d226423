import Noda.Lib.FilePath
import Noda.Lib.Strconv

/-!
# Paths inside a root directory

`Root` is the directory that the paths of a config stay inside of.  The tests for this are text tests: a path is inside
if it is the root or starts with the root and a slash.  For every root but `/` that is a test for leading components;
after `/` the test looks for a second slash, which no cleaned path has.

`containment_iff`: the root and the path are treated as they should be exactly if the root is not `/` or the path below
`/` is `/` itself.
-/

namespace Noda.Pathutil

open FilePath

/-- `Root`: an absolute and cleaned path. -/
structure Root where
  abs : String
  isAbs_abs : isAbs abs = true
  clean_abs : clean abs = abs

namespace Root

def contains (r : Root) (absPath : String) : Bool :=
  let cleaned := clean absPath
  if cleaned = r.abs then true else (r.abs ++ "/").toList.isPrefixOf cleaned.toList

def resolve (r : Root) (relPath : String) : Except String String :=
  let cleaned := clean relPath
  if isAbs cleaned then .error ("expected relative path, got absolute " ++ relPath.goQuote)
  else
    let joined := join [r.abs, cleaned]
    if !r.contains joined then .error ("path " ++ relPath.goQuote ++ " resolves outside root")
    else .ok joined

end Root

def validateRelative (p : String) : Except String Unit :=
  if p = "" then .error "empty path"
  else if Char.ofNat 0 ∈ p.toList then .error "path contains NUL byte"
  else if isAbs p then .error ("absolute path not allowed: " ++ p.goQuote)
  else
    let cleaned := clean p
    if cleaned = ".." ∨ "../".toList <+: cleaned.toList ∨ "..\\".toList <+: cleaned.toList then
      .error ("path escapes root: " ++ p.goQuote)
    else .ok ()

/-! ### The root and its components -/

namespace Root

variable (r : Root)

private theorem abs_eq : r.abs = "/" ++ "/".intercalate (components r.abs) := by
  conv_lhs => rw [← r.clean_abs, clean_of_isAbs r.isAbs_abs]

private theorem components_eq_nil : components r.abs = [] ↔ r.abs = "/" := by
  constructor
  · intro h
    rw [r.abs_eq, h]
    rfl
  · intro h
    rw [h]
    rfl

private theorem contains_eq_true (p : String) :
    r.contains p = true ↔ clean p = r.abs ∨ (r.abs ++ "/").toList <+: (clean p).toList := by
  rw [contains, ← List.isPrefixOf_iff_prefix]
  by_cases h : clean p = r.abs
  · simp [h]
  · simp [h]

/-- A path that is inside is absolute. -/
private theorem isAbs_of_contains {p : String} (h : r.contains p = true) : isAbs p = true := by
  rw [← isAbs_clean]
  rcases (r.contains_eq_true p).1 h with heq | ⟨t, ht⟩
  · rw [heq]
    exact r.isAbs_abs
  · have happend : r.abs ++ "/" ++ String.ofList t = clean p := by
      apply String.toList_injective
      rw [← ht, String.toList_append (t := String.ofList t), String.toList_ofList]
    rw [← happend]
    exact isAbs_append (isAbs_append r.isAbs_abs _) _

private theorem contains_of_isAbs {p : String} (h : isAbs p = true) :
    r.contains p = true ↔
      "/".intercalate (components p) = "/".intercalate (components r.abs) ∨
        ("/".intercalate (components r.abs) ++ "/").toList <+: ("/".intercalate (components p)).toList := by
  have habs : r.abs ++ "/" = "/" ++ ("/".intercalate (components r.abs) ++ "/") := by
    conv_lhs => rw [r.abs_eq, String.append_assoc]
  have hself : clean p = r.abs ↔ "/".intercalate (components p) = "/".intercalate (components r.abs) := by
    conv_lhs => rw [clean_of_isAbs h, r.abs_eq, String.append_right_inj]
  rw [contains_eq_true, hself, clean_of_isAbs h, habs, String.toList_append (s := "/"), String.toList_append (s := "/"),
    List.prefix_append_right_inj]

private theorem contains_iff (hroot : r.abs ≠ "/") (p : String) :
    r.contains p = true ↔ isAbs p = true ∧ components r.abs <+: components p := by
  have hne : components r.abs ≠ [] := fun h => hroot (r.components_eq_nil.1 h)
  have hiff := isPrefix_iff (fun c => isPart_of_mem_components) (fun c => isPart_of_mem_components (p := p)) hne
  constructor
  · intro h
    have habs := r.isAbs_of_contains h
    exact ⟨habs, hiff.1 ((r.contains_of_isAbs habs).1 h)⟩
  · rintro ⟨habs, h⟩
    exact (r.contains_of_isAbs habs).2 (hiff.2 h)

/-- No cleaned path starts with two slashes. -/
private theorem contains_slash (hroot : r.abs = "/") (p : String) :
    r.contains p = true ↔ isAbs p = true ∧ components p = [] := by
  have hparts : ∀ c ∈ components p, IsPart c := fun c => isPart_of_mem_components
  have hnil := r.components_eq_nil.2 hroot
  constructor
  · intro h
    have habs := r.isAbs_of_contains h
    refine ⟨habs, ?_⟩
    by_contra hne
    rcases (r.contains_of_isAbs habs).1 h with heq | ⟨t, ht⟩
    · rw [hnil] at heq
      exact intercalate_ne_empty hparts hne heq
    · have hfalse := isAbs_intercalate hparts
      rw [hnil] at ht
      rw [isAbs, ← ht] at hfalse
      exact absurd hfalse (by simp)
  · rintro ⟨habs, h⟩
    rw [r.contains_of_isAbs habs, h, hnil]
    exact .inl rfl

/-! ### Resolving -/

private theorem contains_clean (p : String) : r.contains (clean p) = r.contains p := by
  rw [contains, clean_clean, contains]

private theorem join_clean {p : String} (h : isAbs p = false) : join [r.abs, clean p] = clean (r.abs ++ "/" ++ p) := by
  have hroot : r.abs ≠ "" := fun hempty => absurd r.isAbs_abs (by rw [hempty]; decide)
  have hfilter : [r.abs, clean p].filter (· ≠ "") = [r.abs, clean p] := by
    rw [List.filter_eq_self]
    simp [hroot, clean_ne_empty]
  have habs (q : String) : isAbs (r.abs ++ "/" ++ q) = true := isAbs_append (isAbs_append r.isAbs_abs _) _
  rw [join, hfilter, if_neg (List.cons_ne_nil _ _)]
  show clean (r.abs ++ "/" ++ clean p) = _
  rw [clean_of_isAbs (habs _), clean_of_isAbs (habs _), components_append_clean r.isAbs_abs h]

/-- The path below the root is tested. -/
private theorem resolve_eq_ok (p q : String) :
    r.resolve p = .ok q ↔
      isAbs p = false ∧ r.contains (r.abs ++ "/" ++ p) = true ∧ q = clean (r.abs ++ "/" ++ p) := by
  rw [resolve]
  simp only [isAbs_clean]
  cases habs : isAbs p with
  | true => simp
  | false =>
    rw [r.join_clean habs, contains_clean]
    cases hin : r.contains (r.abs ++ "/" ++ p) with
    | true => simp [eq_comm]
    | false => simp

private theorem exists_resolve (p : String) :
    (∃ q, r.resolve p = .ok q) ↔ isAbs p = false ∧ r.contains (r.abs ++ "/" ++ p) = true := by
  simp [resolve_eq_ok]

end Root

private theorem validateRelative_ok {p : String} (h : validateRelative p = .ok ()) :
    isAbs p = false ∧ clean p ≠ ".." ∧ ¬"../".toList <+: (clean p).toList := by
  unfold validateRelative at h
  split_ifs at h with _ _ habs
  dsimp only at h
  split_ifs at h with hup
  rw [not_or, not_or] at hup
  exact ⟨Bool.eq_false_iff.2 habs, hup.1, hup.2.1⟩

/-- A path that passes has no element that leads up. -/
private theorem up_not_mem_of_validateRelative {p : String} (h : validateRelative p = .ok ()) :
    ".." ∉ components p := by
  obtain ⟨habs, hne, hpfx⟩ := validateRelative_ok h
  intro hup
  obtain ⟨rest, hrest⟩ := components_eq_up_cons habs hup
  have hclean : clean p = "/".intercalate (".." :: rest) := by
    rw [clean, habs, hrest]
    rfl
  cases rest with
  | nil => exact hne (hclean.trans String.intercalate_singleton)
  | cons c rest =>
    refine hpfx ?_
    rw [hclean, String.intercalate_cons_cons, String.toList_append]
    exact List.prefix_append _ _

private theorem components_below {r : Root} {p : String} (habs : isAbs p = false) (hup : ".." ∉ components p) :
    components (r.abs ++ "/" ++ p) = components r.abs ++ components p := by
  have hfold (stack : List String) : (split p).foldl (push true) stack = (components p).foldl (push true) stack := by
    rw [components, habs]
    exact (foldl_push_foldl (split p) fun c => not_mem_of_mem_split).symm
  rw [components_append r.isAbs_abs, hfold, foldl_push_of_names (fun c => isPart_of_mem_components) hup,
    List.reverse_append, List.reverse_reverse, List.reverse_reverse]

/-! ### Containment -/

/-- What the root promises about a path: it is inside exactly if its components start with those of the root, it is
resolved exactly if it is relative and the path below the root is inside, to a path inside, and if it passes
`validateRelative` then it is resolved. -/
structure Containment (r : Root) (p : String) : Prop where
  contains : r.contains p = true ↔ isAbs (clean p) = true ∧ components r.abs <+: components (clean p)
  resolve : (∃ q, r.resolve p = .ok q) ↔ isAbs p = false ∧ components r.abs <+: components (r.abs ++ "/" ++ p)
  resolved : ∀ q, r.resolve p = .ok q → r.contains q = true
  validated : validateRelative p = .ok () → ∃ q, r.resolve p = .ok q

private theorem resolved_contains {r : Root} {p q : String} (h : r.resolve p = .ok q) : r.contains q = true := by
  obtain ⟨-, hin, rfl⟩ := (r.resolve_eq_ok p q).1 h
  rw [r.contains_clean, hin]

private theorem isAbs_below (r : Root) (p : String) : isAbs (r.abs ++ "/" ++ p) = true :=
  isAbs_append (isAbs_append r.isAbs_abs _) _

private theorem components_slash (p : String) : components ("/" ++ "/" ++ p) = components ("/" ++ p) := by
  have habs (q : String) : isAbs ("/" ++ q) = true := isAbs_append (p := "/") rfl q
  rw [String.append_assoc, components, components, habs, habs, split_cons, split_cons]
  rfl

private theorem clean_eq_slash {p : String} (h : isAbs p = true) : clean p = "/" ↔ components p = [] := by
  rw [clean_of_isAbs h]
  constructor
  · intro heq
    by_contra hne
    refine intercalate_ne_empty (fun c => isPart_of_mem_components) hne ?_
    exact String.append_right_inj "/" |>.1 heq
  · intro hnil
    rw [hnil]
    rfl

private theorem containment_of_ne_slash {r : Root} (hroot : r.abs ≠ "/") (p : String) : Containment r p := by
  refine ⟨?_, ?_, fun q => resolved_contains, fun hvalid => ?_⟩
  · rw [r.contains_iff hroot, isAbs_clean, components_clean]
  · rw [r.exists_resolve, r.contains_iff hroot]
    simp [isAbs_below]
  · obtain ⟨habs, -, -⟩ := validateRelative_ok hvalid
    rw [r.exists_resolve, r.contains_iff hroot, components_below habs (up_not_mem_of_validateRelative hvalid)]
    exact ⟨habs, isAbs_below r p, List.prefix_append _ _⟩

private theorem containment_slash {r : Root} (hroot : r.abs = "/") (p : String) :
    Containment r p ↔ components ("/" ++ p) = [] := by
  have hnil := r.components_eq_nil.2 hroot
  have hin : r.contains (r.abs ++ "/" ++ p) = true ↔ components ("/" ++ p) = [] := by
    rw [r.contains_slash hroot, isAbs_below, hroot, components_slash]
    simp
  have hself (h : isAbs p = true) : components ("/" ++ p) = components p := by
    rw [components, isAbs_append (p := "/") rfl, split_cons, components, h]
    rfl
  constructor
  · intro h
    cases habs : isAbs p with
    | true =>
      have hcontains := h.contains.2 ⟨(isAbs_clean p).trans habs, hnil ▸ List.nil_prefix⟩
      rw [hself habs]
      exact ((r.contains_slash hroot p).1 hcontains).2
    | false =>
      have hresolve := h.resolve.2 ⟨habs, hnil ▸ List.nil_prefix⟩
      exact hin.1 ((r.exists_resolve p).1 hresolve).2
  · intro h
    refine ⟨?_, ?_, fun q => resolved_contains, fun hvalid => ?_⟩
    · rw [r.contains_slash hroot, isAbs_clean, hnil]
      exact ⟨fun hp => ⟨hp.1, List.nil_prefix⟩, fun hp => ⟨hp.1, (hself hp.1).symm.trans h⟩⟩
    · rw [r.exists_resolve, hin, hnil]
      exact ⟨fun hp => ⟨hp.1, List.nil_prefix⟩, fun hp => ⟨hp.1, h⟩⟩
    · rw [r.exists_resolve, hin]
      exact ⟨(validateRelative_ok hvalid).1, h⟩

theorem containment_iff (r : Root) (p : String) : Containment r p ↔ r.abs ≠ "/" ∨ clean ("/" ++ p) = "/" := by
  by_cases hroot : r.abs = "/"
  · rw [containment_slash hroot, clean_eq_slash (isAbs_append (p := "/") rfl p)]
    simp [hroot]
  · simp [hroot, containment_of_ne_slash hroot]

/-- In the root `/` not even the path `a` is resolved. -/
theorem not_containment_slash : ¬Containment ⟨"/", by decide, by decide⟩ "a" := by
  intro h
  have hresolve := h.validated (by decide)
  exact absurd ((Root.exists_resolve _ "a").1 hresolve).2 (by decide)

end Noda.Pathutil
