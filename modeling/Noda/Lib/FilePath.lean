import Mathlib.Data.List.Induction
import Mathlib.Data.List.TakeWhile

/-!
# Slash-separated paths

Paths as Go's `filepath` treats them on Unix, by their text alone.  `clean` gives the shortest path that means the same:
it is the path of its `components`, which a stack collects from left to right (`push`).

`components_append` says what a path below another one means, and `intercalate_isPrefix` that a text test for a leading
path is a test for leading components.
-/

namespace FilePath

/-- `strings.Split(p, "/")`. -/
def split (p : String) : List String := (p.toList.splitOn '/').map String.ofList

def isAbs (p : String) : Bool := p.toList.head? = some '/'

/-- One element of a path meets the components so far, the last one first. -/
def push (rooted : Bool) (stack : List String) (c : String) : List String :=
  if c = "" ∨ c = "." then stack
  else if c = ".." then
    match stack with
    | [] => if rooted then [] else [".."]
    | top :: rest => if top = ".." then ".." :: top :: rest else rest
  else c :: stack

/-- The elements of the cleaned path. -/
def components (p : String) : List String := ((split p).foldl (push (isAbs p)) []).reverse

def clean (p : String) : String :=
  if isAbs p then "/" ++ "/".intercalate (components p)
  else if components p = [] then "." else "/".intercalate (components p)

/-- `Join`: the elements that are not empty, one below the other. -/
def join (elem : List String) : String :=
  if elem.filter (· ≠ "") = [] then "" else clean ("/".intercalate (elem.filter (· ≠ "")))

/-- `Base`: the last element. -/
def base (p : String) : String :=
  if p = "" then "."
  else
    -- trailing slashes do not count
    match p.toList.reverse.dropWhile (· = '/') with
    | [] => "/"
    | cs => String.ofList (cs.takeWhile (· ≠ '/')).reverse

/-- `Ext`: the last element from its last dot on. -/
def ext (p : String) : String :=
  let last := p.toList.reverse.takeWhile (· ≠ '/')
  if '.' ∈ last then String.ofList ((last.takeWhile (· ≠ '.')).reverse.cons '.') else ""

/-! ### Splitting -/

theorem split_intercalate {cs : List String} (h : ∀ c ∈ cs, '/' ∉ c.toList) (hne : cs ≠ []) :
    split ("/".intercalate cs) = cs := by
  rw [split, String.toList_intercalate]
  show (List.splitOn '/' (['/'].intercalate _)).map _ = cs
  rw [List.splitOn_intercalate '/' (by simpa using h) (by simpa using hne), List.map_map]
  simp [Function.comp_def]

theorem intercalate_split (p : String) : "/".intercalate (split p) = p := by
  apply String.toList_injective
  rw [String.toList_intercalate, split, List.map_map]
  show ['/'].intercalate _ = _
  simp [Function.comp_def]

theorem split_append (p q : String) : split (p ++ "/" ++ q) = split p ++ split q := by
  rw [split, String.toList_append, String.toList_append, List.append_assoc]
  show (List.splitOn '/' (p.toList ++ '/' :: q.toList)).map _ = _
  rw [List.splitOn_append_cons_self, List.map_append]
  rfl

/-- A path below some elements. -/
theorem split_intercalate_append {cs : List String} (h : ∀ c ∈ cs, '/' ∉ c.toList) (p : String) :
    split ("/".intercalate (cs ++ [p])) = cs ++ split p := by
  by_cases hne : cs = []
  · rw [hne, List.nil_append, String.intercalate_singleton, List.nil_append]
  · rw [String.intercalate_append_of_ne_nil hne (List.cons_ne_nil p []), String.intercalate_singleton, split_append,
      split_intercalate h hne]

theorem split_cons (q : String) : split ("/" ++ q) = "" :: split q := split_append "" q

theorem split_ne_nil (p : String) : split p ≠ [] := by
  simp [split]

theorem not_mem_of_mem_splitOn {α : Type} [DecidableEq α] {l part : List α} {sep : α} (h : part ∈ l.splitOn sep) :
    sep ∉ part := by
  induction l generalizing part with
  | nil => simp_all
  | cons x l ih =>
    rw [List.splitOn_cons_eq_if_modifyHead] at h
    split_ifs at h with hx
    · rcases List.mem_cons.1 h with rfl | h
      · exact List.not_mem_nil
      · exact ih h
    · cases hsplit : l.splitOn sep with
      | nil => exact absurd hsplit (List.splitOn_ne_nil _ _)
      | cons d ds =>
        rw [hsplit] at h ih
        rcases List.mem_cons.1 h with rfl | h
        · have hx : x ≠ sep := by simpa using hx
          simp [ih List.mem_cons_self, Ne.symm hx]
        · exact ih (List.mem_cons_of_mem _ h)

theorem not_mem_of_mem_split {p c : String} (h : c ∈ split p) : '/' ∉ c.toList := by
  obtain ⟨part, hpart, rfl⟩ := List.mem_map.1 h
  rw [String.toList_ofList]
  exact not_mem_of_mem_splitOn hpart

/-! ### The last element -/

private theorem takeWhile_append_stop {P : Char → Bool} {c : Char} (h : P c = false) (l l' : List Char) :
    (l ++ c :: l').takeWhile P = l.takeWhile P := by
  induction l with
  | nil => rw [List.nil_append, List.takeWhile_cons, h, List.takeWhile_nil, if_neg (by decide)]
  | cons d l ih => rw [List.cons_append, List.takeWhile_cons, List.takeWhile_cons, ih]

/-- The last element does not depend on what stands before it. -/
theorem base_append (dir : String) {t : String} (h : ∃ c ∈ t.toList, c ≠ '/') :
    base (dir ++ ("/" ++ t)) = base ("/" ++ t) := by
  have hne (l : List Char) : (t.toList.reverse ++ '/' :: l).dropWhile (· = '/') =
      t.toList.reverse.dropWhile (· = '/') ++ '/' :: l := by
    rw [List.dropWhile_append, if_neg]
    rw [List.isEmpty_iff, List.dropWhile_eq_nil_iff]
    obtain ⟨c, hc, hslash⟩ := h
    exact fun hall => hslash (of_decide_eq_true (hall c (List.mem_reverse.2 hc)))
  have hbase (dir : String) : base (dir ++ ("/" ++ t)) =
      String.ofList ((t.toList.reverse.dropWhile (· = '/')).takeWhile (· ≠ '/')).reverse := by
    have hlist : (dir ++ ("/" ++ t)).toList.reverse = t.toList.reverse ++ '/' :: dir.toList.reverse := by
      rw [String.toList_append, String.toList_append, List.reverse_append, List.reverse_append, List.append_assoc]
      rfl
    have hempty : dir ++ ("/" ++ t) ≠ "" := by
      intro h
      rw [String.append_eq_empty_iff, String.append_eq_empty_iff] at h
      exact absurd h.2.1 (by decide)
    rw [base, if_neg hempty, hlist, hne]
    split
    · rename_i hnil
      exact absurd hnil (by simp)
    · rw [takeWhile_append_stop (by simp)]
  rw [hbase, ← String.empty_append (s := "/" ++ t), hbase]

theorem ext_append (dir t : String) : ext (dir ++ ("/" ++ t)) = ext ("/" ++ t) := by
  have hext (dir : String) : (dir ++ ("/" ++ t)).toList.reverse.takeWhile (· ≠ '/') =
      t.toList.reverse.takeWhile (· ≠ '/') := by
    rw [String.toList_append, String.toList_append, List.reverse_append, List.reverse_append, List.append_assoc]
    show (t.toList.reverse ++ '/' :: _).takeWhile _ = _
    exact takeWhile_append_stop (by simp) _ _
  rw [ext, ext, hext, ← String.empty_append (s := "/" ++ t), hext]

/-! ### The components -/

/-- An element of a cleaned path. -/
structure IsPart (c : String) : Prop where
  ne_empty : c ≠ ""
  ne_dot : c ≠ "."
  slashFree : '/' ∉ c.toList

section

variable {rooted : Bool} {stack rest : List String} {c top : String}

private theorem push_skip (h : c = "" ∨ c = ".") : push rooted stack c = stack := by
  unfold push
  rw [if_pos h]

private theorem push_up_nil : push rooted [] ".." = if rooted then [] else [".."] := rfl

private theorem push_up_up : push rooted (".." :: rest) ".." = ".." :: ".." :: rest := rfl

private theorem push_up_name (h : top ≠ "..") : push rooted (top :: rest) ".." = rest := by
  simp [push, h]

private theorem push_name (hne : ¬(c = "" ∨ c = ".")) (hup : c ≠ "..") : push rooted stack c = c :: stack := by
  unfold push
  rw [if_neg hne, if_neg hup]

theorem IsPart.push (h : IsPart c) (hup : c ≠ "..") : push rooted stack c = c :: stack :=
  push_name (not_or.2 ⟨h.ne_empty, h.ne_dot⟩) hup

private theorem mem_push {d : String} (h : d ∈ push rooted stack c) : d ∈ stack ∨ d = c ∧ c ≠ "" ∧ c ≠ "." := by
  by_cases hskip : c = "" ∨ c = "."
  · rw [push_skip hskip] at h
    exact .inl h
  · by_cases hup : c = ".."
    · subst hup
      cases stack with
      | nil =>
        rw [push_up_nil] at h
        split_ifs at h
        · exact .inl h
        · exact .inr ⟨List.mem_singleton.1 h, by decide, by decide⟩
      | cons top rest =>
        by_cases htop : top = ".."
        · subst htop
          rw [push_up_up] at h
          exact .inl (List.mem_cons.2 (by simpa using h))
        · rw [push_up_name htop] at h
          exact .inl (List.mem_cons_of_mem _ h)
    · rw [push_name hskip hup] at h
      rcases List.mem_cons.1 h with rfl | h
      · exact .inr ⟨rfl, not_or.1 hskip⟩
      · exact .inl h

end

private theorem mem_foldl_push {rooted : Bool} {cs stack : List String} {d : String} (hcs : ∀ c ∈ cs, '/' ∉ c.toList)
    (hstack : ∀ c ∈ stack, IsPart c) (h : d ∈ cs.foldl (push rooted) stack) : IsPart d := by
  induction cs generalizing stack with
  | nil => exact hstack d h
  | cons c cs ih =>
    obtain ⟨hc, hcs⟩ := List.forall_mem_cons.1 hcs
    refine ih hcs (fun e he => ?_) h
    rcases mem_push he with he | ⟨rfl, hne⟩
    · exact hstack e he
    · exact ⟨hne.1, hne.2, hc⟩

theorem isPart_of_mem_components {p c : String} (h : c ∈ components p) : IsPart c :=
  mem_foldl_push (fun _ hc => not_mem_of_mem_split hc) (fun _ hc => absurd hc List.not_mem_nil) (List.mem_reverse.1 h)

/-- From the root nothing leads up. -/
private theorem ne_up_of_mem_foldl_push {cs stack : List String} (hstack : ".." ∉ stack) :
    ".." ∉ cs.foldl (push true) stack := by
  induction cs generalizing stack with
  | nil => exact hstack
  | cons c cs ih =>
    refine ih fun hmem => ?_
    by_cases hc : c = ".."
    · subst hc
      cases stack with
      | nil => simp [push] at hmem
      | cons top rest =>
        rw [List.mem_cons, not_or] at hstack
        simp [push, Ne.symm hstack.1, hstack.2] at hmem
    · rcases mem_push hmem with hmem | ⟨hup, -⟩
      · exact hstack hmem
      · exact hc hup.symm

theorem foldl_push_of_names {rooted : Bool} {cs stack : List String} (h : ∀ c ∈ cs, IsPart c) (hup : ".." ∉ cs) :
    cs.foldl (push rooted) stack = cs.reverse ++ stack := by
  induction cs generalizing stack with
  | nil => rfl
  | cons c cs ih =>
    obtain ⟨hc, h⟩ := List.forall_mem_cons.1 h
    rw [List.mem_cons, not_or] at hup
    rw [List.foldl_cons, hc.push (Ne.symm hup.1), ih h hup.2, List.reverse_cons, List.append_assoc]
    rfl

/-- The components of a relative path can be put below a path in place of it. -/
private theorem foldl_push_push {rooted : Bool} {stack t : List String} {c : String} (ht : ∀ d ∈ t, IsPart d) :
    (push false t c).reverse.foldl (push rooted) stack = push rooted (t.reverse.foldl (push rooted) stack) c := by
  by_cases hskip : c = "" ∨ c = "."
  · rw [push_skip hskip, push_skip hskip]
  · by_cases hup : c = ".."
    · subst hup
      cases t with
      | nil => rfl
      | cons top rest =>
        obtain ⟨htop, -⟩ := List.forall_mem_cons.1 ht
        by_cases htopUp : top = ".."
        · subst htopUp
          rw [push_up_up, List.reverse_cons, List.foldl_append]
          rfl
        · -- the name and the step up cancel
          rw [push_up_name htopUp, List.reverse_cons, List.foldl_append, List.foldl_cons, List.foldl_nil,
            htop.push htopUp, push_up_name htopUp]
    · rw [push_name hskip hup, List.reverse_cons, List.foldl_append, List.foldl_cons, List.foldl_nil]

theorem foldl_push_foldl {rooted : Bool} {stack : List String} (cs : List String) (hcs : ∀ c ∈ cs, '/' ∉ c.toList) :
    (cs.foldl (push false) []).reverse.foldl (push rooted) stack = cs.foldl (push rooted) stack := by
  induction cs using List.reverseRecOn with
  | nil => rfl
  | append_singleton cs c ih =>
    have hcs' : ∀ d ∈ cs, '/' ∉ d.toList := fun d hd => hcs d (List.mem_append_left _ hd)
    rw [List.foldl_append, List.foldl_append, List.foldl_cons, List.foldl_nil, List.foldl_cons, List.foldl_nil,
      foldl_push_push (fun d hd => mem_foldl_push hcs' (fun _ h => absurd h List.not_mem_nil) hd), ih hcs']

/-! ### Cleaned paths -/

theorem intercalate_ne_empty {cs : List String} (h : ∀ c ∈ cs, IsPart c) (hne : cs ≠ []) : "/".intercalate cs ≠ "" := by
  cases cs with
  | nil => exact absurd rfl hne
  | cons c cs =>
    obtain ⟨hc, -⟩ := List.forall_mem_cons.1 h
    intro hempty
    refine hc.ne_empty ?_
    cases cs with
    | nil => exact String.intercalate_singleton.symm.trans hempty
    | cons d cs =>
      rw [String.intercalate_cons_cons, String.append_eq_empty_iff, String.append_eq_empty_iff] at hempty
      exact hempty.1.1

theorem isAbs_append {p : String} (h : isAbs p = true) (q : String) : isAbs (p ++ q) = true := by
  rw [isAbs, decide_eq_true_eq] at h ⊢
  rw [String.toList_append, List.head?_append, h]
  rfl

theorem isAbs_intercalate {cs : List String} (h : ∀ c ∈ cs, IsPart c) : isAbs ("/".intercalate cs) = false := by
  cases cs with
  | nil => rfl
  | cons c cs =>
    obtain ⟨hc, -⟩ := List.forall_mem_cons.1 h
    rw [isAbs, decide_eq_false_iff_not]
    intro hhead
    cases hlist : c.toList with
    | nil => exact hc.ne_empty (String.toList_injective hlist)
    | cons x xs =>
      refine hc.slashFree ?_
      rw [String.toList_intercalate, List.map_cons, hlist] at hhead
      cases cs with
      | nil => simp_all
      | cons d cs => simp_all

theorem clean_of_isAbs {p : String} (h : isAbs p = true) : clean p = "/" ++ "/".intercalate (components p) := by
  rw [clean, if_pos h]

theorem isAbs_clean (p : String) : isAbs (clean p) = isAbs p := by
  rw [clean]
  split_ifs with habs hnil
  · rw [isAbs_append (p := "/") rfl, habs]
  · rw [Bool.eq_false_iff.2 habs]
    rfl
  · rw [isAbs_intercalate fun c hc => isPart_of_mem_components hc, Bool.eq_false_iff.2 habs]

theorem components_append {p : String} (h : isAbs p = true) (q : String) :
    components (p ++ "/" ++ q) = ((split q).foldl (push true) (components p).reverse).reverse := by
  rw [components, isAbs_append (isAbs_append h _), split_append, List.foldl_append, components, h, List.reverse_reverse]

private theorem up_not_mem_components {p : String} (h : isAbs p = true) : ".." ∉ components p := by
  rw [components, h, List.mem_reverse]
  exact ne_up_of_mem_foldl_push List.not_mem_nil

private theorem foldl_push_split {rooted : Bool} {cs stack : List String} (h : ∀ c ∈ cs, IsPart c) :
    (split ("/".intercalate cs)).foldl (push rooted) stack = cs.foldl (push rooted) stack := by
  cases cs with
  | nil => rfl
  | cons c cs => rw [split_intercalate (fun d hd => (h d hd).slashFree) (List.cons_ne_nil _ _)]

theorem components_clean (p : String) : components (clean p) = components p := by
  have hparts : ∀ c ∈ components p, IsPart c := fun c => isPart_of_mem_components
  by_cases habs : isAbs p = true
  · rw [components, isAbs_clean, habs, clean, if_pos habs, split_cons, List.foldl_cons, push_skip (.inl rfl),
      foldl_push_split hparts, foldl_push_of_names hparts (up_not_mem_components habs), List.append_nil,
      List.reverse_reverse]
  · have hfold : (components p).foldl (push false) [] = (split p).foldl (push false) [] := by
      rw [components, Bool.eq_false_iff.2 habs]
      exact foldl_push_foldl (split p) fun c => not_mem_of_mem_split
    have hclean : ((split (clean p)).foldl (push false) []).reverse = components p := by
      rw [clean, if_neg habs]
      split_ifs with hnil
      · rw [hnil]
        rfl
      · rw [foldl_push_split hparts, hfold, components, Bool.eq_false_iff.2 habs]
    rw [components, isAbs_clean, Bool.eq_false_iff.2 habs, hclean]

theorem clean_clean (p : String) : clean (clean p) = clean p := by
  rw [clean, isAbs_clean, components_clean]
  rfl

theorem clean_ne_empty (p : String) : clean p ≠ "" := by
  rw [clean]
  split_ifs with habs hnil
  · intro h
    rw [String.append_eq_empty_iff] at h
    exact absurd h.1 (by decide)
  · decide
  · exact intercalate_ne_empty (fun c => isPart_of_mem_components) hnil

/-- Nothing but leading elements of a cleaned path lead up. -/
theorem components_eq_up_cons {p : String} (h : isAbs p = false) (hup : ".." ∈ components p) :
    ∃ rest, components p = ".." :: rest := by
  have hshape (cs : List String) :
      ∃ names n, cs.foldl (push false) [] = names ++ List.replicate n ".." ∧ ".." ∉ names := by
    induction cs using List.reverseRecOn with
    | nil => exact ⟨[], 0, rfl, List.not_mem_nil⟩
    | append_singleton cs c ih =>
      obtain ⟨names, n, hstack, hnames⟩ := ih
      rw [List.foldl_append, hstack, List.foldl_cons, List.foldl_nil]
      by_cases hskip : c = "" ∨ c = "."
      · exact ⟨names, n, push_skip hskip, hnames⟩
      · by_cases hc : c = ".."
        · subst hc
          cases names with
          | nil =>
            refine ⟨[], n + 1, ?_, List.not_mem_nil⟩
            cases n with
            | zero => rfl
            | succ n => exact push_up_up
          | cons top names =>
            rw [List.mem_cons, not_or] at hnames
            exact ⟨names, n, push_up_name (Ne.symm hnames.1), hnames.2⟩
        · refine ⟨c :: names, n, push_name hskip hc, ?_⟩
          rw [List.mem_cons, not_or]
          exact ⟨Ne.symm hc, hnames⟩
  obtain ⟨names, n, hstack, hnames⟩ := hshape (split p)
  have hcomponents : components p = List.replicate n ".." ++ names.reverse := by
    rw [components, h, hstack, List.reverse_append, List.reverse_replicate]
  cases n with
  | zero =>
    rw [hcomponents] at hup
    exact absurd (by simpa using hup) hnames
  | succ n =>
    rw [hcomponents]
    exact ⟨_, rfl⟩

/-- What lies below a rooted path depends on the components of the lower path only. -/
theorem components_append_clean {p : String} (h : isAbs p = true) {q : String} (hq : isAbs q = false) :
    components (p ++ "/" ++ clean q) = components (p ++ "/" ++ q) := by
  rw [components_append h, components_append h, clean, if_neg (by simp [hq])]
  have hfold (stack : List String) : (components q).foldl (push true) stack = (split q).foldl (push true) stack := by
    rw [components, hq]
    exact foldl_push_foldl (split q) fun c => not_mem_of_mem_split
  split_ifs with hnil
  · rw [← hfold, hnil]
    rfl
  · rw [foldl_push_split fun c => isPart_of_mem_components, hfold]

/-! ### Leading components -/

theorem isPrefix_iff {rs cs : List String} (hrs : ∀ c ∈ rs, IsPart c) (hcs : ∀ c ∈ cs, IsPart c) (hne : rs ≠ []) :
    "/".intercalate cs = "/".intercalate rs ∨ ("/".intercalate rs ++ "/").toList <+: ("/".intercalate cs).toList ↔
      rs <+: cs := by
  have hsplit {l : List String} (h : ∀ c ∈ l, IsPart c) (hne : l ≠ []) : split ("/".intercalate l) = l :=
    split_intercalate (fun c hc => (h c hc).slashFree) hne
  constructor
  · have hcsNe (h : "/".intercalate cs ≠ "") : cs ≠ [] := by
      rintro rfl
      exact h rfl
    rintro (heq | ⟨t, ht⟩)
    · have hcsNe := hcsNe (heq ▸ intercalate_ne_empty hrs hne)
      have hsame : cs = rs := by rw [← hsplit hcs hcsNe, heq, hsplit hrs hne]
      exact hsame ▸ List.prefix_rfl
    · have heq : "/".intercalate cs = "/".intercalate rs ++ "/" ++ String.ofList t := by
        apply String.toList_injective
        rw [← ht, String.toList_append (t := String.ofList t), String.toList_ofList]
      have hcsNe : cs ≠ [] := by
        refine hcsNe fun h => ?_
        rw [heq, String.append_eq_empty_iff, String.append_eq_empty_iff] at h
        exact absurd h.1.2 (by decide)
      refine ⟨split (String.ofList t), ?_⟩
      rw [← hsplit hcs hcsNe, heq, split_append, hsplit hrs hne]
  · rintro ⟨t, rfl⟩
    by_cases ht : t = []
    · rw [ht, List.append_nil]
      exact .inl rfl
    · rw [String.intercalate_append_of_ne_nil hne ht, String.toList_append (t := "/".intercalate t)]
      exact .inr (List.prefix_append _ _)

end FilePath
