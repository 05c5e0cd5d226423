import Noda.Expr.Compiler

/-!
# Resolving configs, and checking them at startup

Three functions resolve the strings of a config at run time: `Resolver.ResolveMap`, `resolveNested` and `resolveDeep`.
They walk into all maps and arrays and differ in how an error is wrapped, so they are one walk (`resolveTree`).
`ValidateExpressions` compiles the templates of a config at startup.  Its walk does not enter an array that is an item
of an array, so a malformed template there is found only at run time.
-/

namespace Noda.Expr

open Engine

variable {P E R : Type}

/-! ## The strings of a config -/

/-- `s` is a string of the value, at any depth. -/
inductive StringIn : Value → String → Prop where
  | str (s : String) : StringIn (.str s) s
  | item {items : List Value} {v : Value} {s : String} : v ∈ items → StringIn v s → StringIn (.arr items) s
  | field {fields : Config} {k : String} {v : Value} {s : String} : (k, v) ∈ fields → StringIn v s →
      StringIn (.obj fields) s

def isArray : Value → Bool
  | .arr _ => true
  | _ => false

/-- `s` is a string of the value outside the arrays that are items of arrays. -/
inductive FlatStringIn : Value → String → Prop where
  | str (s : String) : FlatStringIn (.str s) s
  | item {items : List Value} {v : Value} {s : String} : v ∈ items → isArray v = false → FlatStringIn v s →
      FlatStringIn (.arr items) s
  | field {fields : Config} {k : String} {v : Value} {s : String} : (k, v) ∈ fields → FlatStringIn v s →
      FlatStringIn (.obj fields) s

/-- `s` is a string inside an array that is an item of an array. -/
inductive NestedStringIn : Value → String → Prop where
  | here {items inner : List Value} {s : String} : .arr inner ∈ items → StringIn (.arr inner) s →
      NestedStringIn (.arr items) s
  | item {items : List Value} {v : Value} {s : String} : v ∈ items → NestedStringIn v s → NestedStringIn (.arr items) s
  | field {fields : Config} {k : String} {v : Value} {s : String} : (k, v) ∈ fields → NestedStringIn v s →
      NestedStringIn (.obj fields) s

theorem FlatStringIn.stringIn {v : Value} {s : String} (h : FlatStringIn v s) : StringIn v s := by
  induction h with
  | str s => exact .str s
  | item hv _ _ ih => exact .item hv ih
  | field hv _ ih => exact .field hv ih

theorem NestedStringIn.stringIn {v : Value} {s : String} (h : NestedStringIn v s) : StringIn v s := by
  induction h with
  | here hv hs => exact .item hv hs
  | item hv _ ih => exact .item hv ih
  | field hv _ ih => exact .field hv ih

private theorem stringIn_iff {v : Value} {s : String} : StringIn v s ↔ FlatStringIn v s ∨ NestedStringIn v s := by
  constructor
  · intro h
    induction h with
    | str s => exact .inl (.str s)
    | @item items v s hv hs ih =>
      cases harr : isArray v with
      | true =>
        cases v with
        | arr inner => exact .inr (.here hv hs)
        | null | bool | num | str | obj => cases harr
      | false =>
        rcases ih with hflat | hnested
        · exact .inl (.item hv harr hflat)
        · exact .inr (.item hv hnested)
    | field hv _ ih =>
      rcases ih with hflat | hnested
      · exact .inl (.field hv hflat)
      · exact .inr (.field hv hnested)
  · rintro (h | h)
    · exact h.stringIn
    · exact h.stringIn

/-- `part` is the value or a value inside it. -/
inductive PartOf (v : Value) : Value → Prop where
  | self : PartOf v v
  | item {items : List Value} {part : Value} : PartOf v (.arr items) → part ∈ items → PartOf v part
  | field {fields : Config} {k : String} {part : Value} : PartOf v (.obj fields) → (k, part) ∈ fields → PartOf v part

theorem PartOf.stringIn {v part : Value} {s : String} (h : PartOf v part) (hs : StringIn part s) : StringIn v s := by
  induction h with
  | self => exact hs
  | item _ hmem ih => exact ih (.item hmem hs)
  | field _ hmem ih => exact ih (.field hmem hs)

/-! ## Resolving -/

/-- An expression that fails at run time; `segment` is the text of the expression within a longer template. -/
structure EvaluationError (R : Type) where
  raw : String
  segment : Option String
  err : R

/-- The errors of the resolvers: `Compile` or `Evaluate` fails on a string, and what the callers put around it. -/
inductive ResolveError (E R : Type) where
  | compile (expression : String) (err : CompileError E)
  | evaluate (err : EvaluationError R)
  | field (key : String) (err : ResolveError E R)
  | resolve (path : String) (err : ResolveError E R)

/-- The innermost error is one of `Compile`. -/
def ResolveError.fromCompile : ResolveError E R → Prop
  | .compile _ _ => True
  | .evaluate _ => False
  | .field _ err => err.fromCompile
  | .resolve _ err => err.fromCompile

/-- The text of a template of several segments, with the results of its programs. -/
def concatSegments (run : Option P → Except R Value) (format : Value → String) (raw : String) :
    List (Segment × Option P) → Except (EvaluationError R) String
  | [] => .ok ""
  | (.literal text, _) :: rest =>
    match concatSegments run format raw rest with
    | .error err => .error err
    | .ok s => .ok (text ++ s)
  | (.expression text, program) :: rest =>
    match run program with
    | .error err => .error ⟨raw, some text, err⟩
    | .ok result =>
      match concatSegments run format raw rest with
      | .error err => .error err
      | .ok s => .ok (format result ++ s)

/-- `Evaluate`; `run` runs a program in the context of the resolver and `format` is the verb `%v`. -/
def evaluate (run : Option P → Except R Value) (format : Value → String) (compiled : CompiledExpression P) :
    Except (EvaluationError R) Value :=
  if compiled.parsed.isLiteral then .ok (.str compiled.parsed.raw)
  else if compiled.parsed.isSimple then
    match run (compiled.programs.head?.getD none) with
    | .error err => .error ⟨compiled.parsed.raw, none, err⟩
    | .ok result => .ok result
  else
    match concatSegments run format compiled.parsed.raw (compiled.parsed.segments.zip compiled.programs) with
    | .error err => .error err
    | .ok s => .ok (.str s)

/-- `Resolver.Resolve`. -/
def resolve (exprCompile : String → Except E P) (run : Option P → Except R Value) (format : Value → String)
    (expression : String) : Except (ResolveError E R) Value :=
  match compileInput exprCompile expression with
  | .error err => .error (.compile expression err)
  | .ok compiled =>
    match evaluate run format compiled with
    | .error err => .error (.evaluate err)
    | .ok v => .ok v

section Walk

variable {ε : Type} (leaf : String → String → Except ε Value) (wrap : String → ε → ε)

mutual

/-- The walk of the resolvers: every string is replaced by what `leaf` makes of it and of its path, and an error in a
field is passed on through `wrap`. -/
def resolveTree : String → Value → Except ε Value
  | path, .str s => leaf path s
  | path, .obj fields =>
    match resolveFields path fields with
    | .error err => .error err
    | .ok fields => .ok (.obj fields)
  | path, .arr items =>
    match resolveItems path 0 items with
    | .error err => .error err
    | .ok items => .ok (.arr items)
  | _, .null => .ok .null
  | _, .bool b => .ok (.bool b)
  | _, .num n => .ok (.num n)

def resolveFields : String → Config → Except ε Config
  | _, [] => .ok []
  | path, (k, v) :: fields =>
    match resolveTree (path ++ "." ++ k) v with
    | .error err => .error (wrap k err)
    | .ok v =>
      match resolveFields path fields with
      | .error err => .error err
      | .ok fields => .ok ((k, v) :: fields)

def resolveItems : String → Nat → List Value → Except ε (List Value)
  | _, _, [] => .ok []
  | path, i, v :: items =>
    match resolveTree (path ++ "[" ++ toString i ++ "]") v with
    | .error err => .error err
    | .ok v =>
      match resolveItems path (i + 1) items with
      | .error err => .error err
      | .ok items => .ok (v :: items)

end

end Walk

section Resolvers

variable (exprCompile : String → Except E P) (run : Option P → Except R Value) (format : Value → String)

/-- `resolveValue`. -/
def resolveValue (v : Value) : Except (ResolveError E R) Value :=
  resolveTree (fun _ s => resolve exprCompile run format s) .field "" v

/-- `Resolver.ResolveMap`. -/
def resolveMap (config : Config) : Except (ResolveError E R) Config :=
  resolveFields (fun _ s => resolve exprCompile run format s) .field "" config

/-- The error of `resolveNested` at a string names the path of the string. -/
def resolveAt (path s : String) : Except (ResolveError E R) Value :=
  match resolve exprCompile run format s with
  | .error err => .error (.resolve path err)
  | .ok v => .ok v

/-- `resolveNested`. -/
def resolveNested (path : String) (v : Value) : Except (ResolveError E R) Value :=
  resolveTree (resolveAt exprCompile run format) (fun _ err => err) path v

/-- `resolveDeep`. -/
def resolveDeep (v : Value) : Except (ResolveError E R) Value :=
  resolveTree (fun _ s => resolve exprCompile run format s) (fun _ err => err) "" v

end Resolvers

/-! ## The check at startup -/

/-- `isStatic`. -/
def isStatic (value : String) : Bool := (splitOpen value.toList).isNone

mutual

/-- `walkConfigExpressions`: the strings for which the callback is called, with their paths. -/
def walkConfigExpressions : Config → String → List (String × String)
  | [], _ => []
  | (key, v) :: fields, pfx =>
    walkFieldExpressions v (if pfx = "" then key else pfx ++ "/" ++ key) ++ walkConfigExpressions fields pfx

def walkFieldExpressions : Value → String → List (String × String)
  | .str s, path => [(path, s)]
  | .obj fields, path => walkConfigExpressions fields path
  | .arr items, path => walkItemExpressions items path 0
  | _, _ => []

def walkItemExpressions : List Value → String → Nat → List (String × String)
  | [], _, _ => []
  | .str s :: items, path, i => (path ++ "[" ++ toString i ++ "]", s) :: walkItemExpressions items path (i + 1)
  | .obj fields :: items, path, i =>
    walkConfigExpressions fields (path ++ "[" ++ toString i ++ "]") ++ walkItemExpressions items path (i + 1)
  | _ :: items, path, i => walkItemExpressions items path (i + 1)

end

/-- `ValidateExpressions`: the errors with the paths of their expressions. -/
def validateExpressions (exprCompile : String → Except E P) (config : Config) : List (String × CompileError E) :=
  (walkConfigExpressions config "").filterMap fun (path, value) =>
    if isStatic value then none
    else
      match compileInput exprCompile value with
      | .error err => some (path, err)
      | .ok _ => none

/-! ### Which strings are checked -/

/-- An item of an array is walked into like a field, unless it is an array. -/
private theorem walkItemExpressions_cons (v : Value) (items : List Value) (path : String) (i : Nat) :
    walkItemExpressions (v :: items) path i =
      (if isArray v then [] else walkFieldExpressions v (path ++ "[" ++ toString i ++ "]")) ++
        walkItemExpressions items path (i + 1) := by
  cases v <;> simp [walkItemExpressions, walkFieldExpressions, isArray]

mutual

theorem flat_of_mem_walkConfig {s : String} : ∀ {fields : Config} {pfx path : String},
    (path, s) ∈ walkConfigExpressions fields pfx → FlatStringIn (.obj fields) s
  | [], _, _, h => by simp [walkConfigExpressions] at h
  | (key, v) :: fields, pfx, path, h => by
    rw [walkConfigExpressions, List.mem_append] at h
    rcases h with h | h
    · exact .field List.mem_cons_self (flat_of_mem_walkField h)
    · cases flat_of_mem_walkConfig h with
      | field hv hs => exact .field (List.mem_cons_of_mem _ hv) hs

theorem flat_of_mem_walkField {s : String} : ∀ {v : Value} {pfx path : String},
    (path, s) ∈ walkFieldExpressions v pfx → FlatStringIn v s
  | .str t, _, _, h => by
    simp only [walkFieldExpressions, List.mem_singleton, Prod.mk.injEq] at h
    rw [h.2]
    exact .str t
  | .obj fields, _, _, h => flat_of_mem_walkConfig (by simpa only [walkFieldExpressions] using h)
  | .arr items, _, _, h => flat_of_mem_walkItem (by simpa only [walkFieldExpressions] using h)
  | .null, _, _, h => by simp [walkFieldExpressions] at h
  | .bool _, _, _, h => by simp [walkFieldExpressions] at h
  | .num _, _, _, h => by simp [walkFieldExpressions] at h

theorem flat_of_mem_walkItem {s : String} : ∀ {items : List Value} {pfx path : String} {i : Nat},
    (path, s) ∈ walkItemExpressions items pfx i → FlatStringIn (.arr items) s
  | [], _, _, _, h => by simp [walkItemExpressions] at h
  | v :: items, pfx, path, i, h => by
    rw [walkItemExpressions_cons, List.mem_append] at h
    rcases h with h | h
    · cases harr : isArray v with
      | true => simp [harr] at h
      | false =>
        simp only [harr, Bool.false_eq_true, if_false] at h
        exact .item List.mem_cons_self harr (flat_of_mem_walkField h)
    · cases flat_of_mem_walkItem h with
      | item hv harr hs => exact .item (List.mem_cons_of_mem _ hv) harr hs

end

private theorem mem_walkConfig_of_field {fields : Config} {k s : String} {v : Value} (hv : (k, v) ∈ fields)
    (h : ∀ pfx, ∃ path, (path, s) ∈ walkFieldExpressions v pfx) (pfx : String) :
    ∃ path, (path, s) ∈ walkConfigExpressions fields pfx := by
  induction fields with
  | nil => cases hv
  | cons f fields ih =>
    obtain ⟨key, w⟩ := f
    rw [walkConfigExpressions]
    rcases List.mem_cons.mp hv with heq | hv
    · obtain ⟨rfl, rfl⟩ := Prod.mk.inj heq
      obtain ⟨path, hp⟩ := h (if pfx = "" then k else pfx ++ "/" ++ k)
      exact ⟨path, List.mem_append_left _ hp⟩
    · obtain ⟨path, hp⟩ := ih hv
      exact ⟨path, List.mem_append_right _ hp⟩

private theorem mem_walkItem_of_item {items : List Value} {s : String} {v : Value} (hv : v ∈ items)
    (harr : isArray v = false)
    (h : ∀ pfx, ∃ path, (path, s) ∈ walkFieldExpressions v pfx) (pfx : String) (i : Nat) :
    ∃ path, (path, s) ∈ walkItemExpressions items pfx i := by
  induction items generalizing i with
  | nil => cases hv
  | cons w items ih =>
    rw [walkItemExpressions_cons]
    rcases List.mem_cons.mp hv with rfl | hv
    · obtain ⟨path, hp⟩ := h (pfx ++ "[" ++ toString i ++ "]")
      exact ⟨path, List.mem_append_left _ (by simpa [harr] using hp)⟩
    · obtain ⟨path, hp⟩ := ih hv (i + 1)
      exact ⟨path, List.mem_append_right _ hp⟩

private theorem mem_walkField_of_flat {v : Value} {s : String} (h : FlatStringIn v s) (pfx : String) :
    ∃ path, (path, s) ∈ walkFieldExpressions v pfx := by
  induction h generalizing pfx with
  | str s => exact ⟨pfx, by simp [walkFieldExpressions]⟩
  | item hv harr _ ih =>
    rw [walkFieldExpressions]
    exact mem_walkItem_of_item hv harr ih pfx 0
  | field hv _ ih =>
    rw [walkFieldExpressions]
    exact mem_walkConfig_of_field hv ih pfx

/-- The check visits the strings outside the arrays that are items of arrays. -/
theorem mem_walkConfigExpressions {config : Config} {s : String} (pfx : String) :
    (∃ path, (path, s) ∈ walkConfigExpressions config pfx) ↔ FlatStringIn (.obj config) s := by
  constructor
  · rintro ⟨path, h⟩
    exact flat_of_mem_walkConfig h
  · intro h
    have := mem_walkField_of_flat h pfx
    rwa [walkFieldExpressions] at this

/-- The input passes `Compile`. -/
def Compiles (exprCompile : String → Except E P) (s : String) : Prop :=
  ∃ compiled, compileInput exprCompile s = .ok compiled

private theorem compiles_of_isStatic (exprCompile : String → Except E P) {s : String} (h : isStatic s = true) :
    Compiles exprCompile s := by
  have hopen : splitOpen s.toList = none := by simpa [isStatic] using h
  have hparse : parseExpr s = .ok { raw := s, segments := [.literal s], isLiteral := true } := by
    simp only [parseExpr, hopen]
  refine ⟨⟨{ raw := s, segments := [.literal s], isLiteral := true }, [none]⟩, ?_⟩
  simp [compileInput, hparse]

private theorem validateExpressions_eq_nil_iff (exprCompile : String → Except E P) (config : Config) :
    validateExpressions exprCompile config = [] ↔ ∀ s, FlatStringIn (.obj config) s → Compiles exprCompile s := by
  rw [validateExpressions, List.filterMap_eq_nil_iff]
  constructor
  · intro h s hs
    obtain ⟨path, hp⟩ := (mem_walkConfigExpressions "").mpr hs
    have hnone := h (path, s) hp
    cases hstatic : isStatic s with
    | true => exact compiles_of_isStatic exprCompile hstatic
    | false =>
      cases hc : compileInput exprCompile s with
      | ok compiled => exact ⟨compiled, hc⟩
      | error err => simp [hstatic, hc] at hnone
  · rintro h ⟨path, s⟩ hp
    obtain ⟨compiled, hc⟩ := h s ((mem_walkConfigExpressions "").mp ⟨path, hp⟩)
    simp [hc]

/-! ## What surfaces at run time -/

section Walk

variable {ε : Type} {leaf : String → String → Except ε Value} {wrap : String → ε → ε}

mutual

theorem leaf_of_resolveTree_error (bad : ε → Prop) (hwrap : ∀ k err, bad (wrap k err) → bad err) :
    ∀ {v : Value} {path : String} {err : ε}, resolveTree leaf wrap path v = .error err → bad err →
      ∃ path' s err', StringIn v s ∧ leaf path' s = .error err' ∧ bad err'
  | .str s, path, err, h, hbad => ⟨path, s, err, .str s, by simpa only [resolveTree] using h, hbad⟩
  | .obj fields, path, err, h, hbad => by
    rw [resolveTree] at h
    split at h
    · rename_i err' hf
      cases h
      exact leaf_of_resolveFields_error bad hwrap hf hbad
    · cases h
  | .arr items, path, err, h, hbad => by
    rw [resolveTree] at h
    split at h
    · rename_i err' hf
      cases h
      exact leaf_of_resolveItems_error bad hwrap hf hbad
    · cases h
  | .null, _, _, h, _ => by simp [resolveTree] at h
  | .bool _, _, _, h, _ => by simp [resolveTree] at h
  | .num _, _, _, h, _ => by simp [resolveTree] at h

theorem leaf_of_resolveFields_error (bad : ε → Prop) (hwrap : ∀ k err, bad (wrap k err) → bad err) :
    ∀ {fields : Config} {path : String} {err : ε}, resolveFields leaf wrap path fields = .error err → bad err →
      ∃ path' s err', StringIn (.obj fields) s ∧ leaf path' s = .error err' ∧ bad err'
  | [], _, _, h, _ => by simp [resolveFields] at h
  | (k, v) :: fields, path, err, h, hbad => by
    rw [resolveFields] at h
    split at h
    · rename_i err' hv
      cases h
      obtain ⟨path', s, err'', hs, hleaf, hbad⟩ := leaf_of_resolveTree_error bad hwrap hv (hwrap k err' hbad)
      exact ⟨path', s, err'', .field List.mem_cons_self hs, hleaf, hbad⟩
    · split at h
      · rename_i err' hf
        cases h
        obtain ⟨path', s, err'', hs, hleaf, hbad⟩ := leaf_of_resolveFields_error bad hwrap hf hbad
        cases hs with
        | field hv hs => exact ⟨path', s, err'', .field (List.mem_cons_of_mem _ hv) hs, hleaf, hbad⟩
      · cases h

theorem leaf_of_resolveItems_error (bad : ε → Prop) (hwrap : ∀ k err, bad (wrap k err) → bad err) :
    ∀ {items : List Value} {path : String} {i : Nat} {err : ε}, resolveItems leaf wrap path i items = .error err →
      bad err → ∃ path' s err', StringIn (.arr items) s ∧ leaf path' s = .error err' ∧ bad err'
  | [], _, _, _, h, _ => by simp [resolveItems] at h
  | v :: items, path, i, err, h, hbad => by
    rw [resolveItems] at h
    split at h
    · rename_i err' hv
      cases h
      obtain ⟨path', s, err'', hs, hleaf, hbad⟩ := leaf_of_resolveTree_error bad hwrap hv hbad
      exact ⟨path', s, err'', .item List.mem_cons_self hs, hleaf, hbad⟩
    · split at h
      · rename_i err' hf
        cases h
        obtain ⟨path', s, err'', hs, hleaf, hbad⟩ := leaf_of_resolveItems_error bad hwrap hf hbad
        cases hs with
        | item hv hs => exact ⟨path', s, err'', .item (List.mem_cons_of_mem _ hv) hs, hleaf, hbad⟩
      · cases h

end

private theorem resolveFields_ok {fields : Config} {path k : String} {v : Value} {out : Config} (hv : (k, v) ∈ fields)
    (h : resolveFields leaf wrap path fields = .ok out) : ∃ path' w, resolveTree leaf wrap path' v = .ok w := by
  induction fields generalizing out with
  | nil => cases hv
  | cons f fields ih =>
    obtain ⟨key, u⟩ := f
    rw [resolveFields] at h
    split at h
    · cases h
    · rename_i w hu
      split at h
      · cases h
      · rename_i rest hrest
        rcases List.mem_cons.mp hv with heq | hv
        · obtain ⟨rfl, rfl⟩ := Prod.mk.inj heq
          exact ⟨_, w, hu⟩
        · exact ih hv hrest

private theorem resolveItems_ok {items : List Value} {path : String} {i : Nat} {v : Value} {out : List Value}
    (hv : v ∈ items)
    (h : resolveItems leaf wrap path i items = .ok out) : ∃ path' w, resolveTree leaf wrap path' v = .ok w := by
  induction items generalizing i out with
  | nil => cases hv
  | cons u items ih =>
    rw [resolveItems] at h
    split at h
    · cases h
    · rename_i w hu
      split at h
      · cases h
      · rename_i rest hrest
        rcases List.mem_cons.mp hv with rfl | hv
        · exact ⟨_, w, hu⟩
        · exact ih hv hrest

private theorem leaf_ok_of_resolveTree {v : Value} {s : String} (hs : StringIn v s) {path : String} {out : Value}
    (h : resolveTree leaf wrap path v = .ok out) : ∃ path' w, leaf path' s = .ok w := by
  induction hs generalizing path out with
  | str s => exact ⟨path, out, by simpa only [resolveTree] using h⟩
  | item hv _ ih =>
    rw [resolveTree] at h
    split at h
    · cases h
    · rename_i rest hrest
      obtain ⟨path', w, hw⟩ := resolveItems_ok hv hrest
      exact ih hw
  | field hv _ ih =>
    rw [resolveTree] at h
    split at h
    · cases h
    · rename_i rest hrest
      obtain ⟨path', w, hw⟩ := resolveFields_ok hv hrest
      exact ih hw

end Walk

/-- A walk of one of the resolvers over the value ends with the error. -/
inductive Fails (exprCompile : String → Except E P) (run : Option P → Except R Value) (format : Value → String) :
    Value → ResolveError E R → Prop where
  | resolveMap {fields : Config} {err : ResolveError E R} : resolveMap exprCompile run format fields = .error err →
      Fails exprCompile run format (.obj fields) err
  | resolveNested {v : Value} {path : String} {err : ResolveError E R} :
      resolveNested exprCompile run format path v = .error err → Fails exprCompile run format v err
  | resolveDeep {v : Value} {err : ResolveError E R} : resolveDeep exprCompile run format v = .error err →
      Fails exprCompile run format v err

section Resolvers

variable {exprCompile : String → Except E P} {run : Option P → Except R Value} {format : Value → String}

private theorem not_compiles_of_resolve {s : String} {err : ResolveError E R}
    (h : resolve exprCompile run format s = .error err)
    (hc : err.fromCompile) : ¬ Compiles exprCompile s := by
  rintro ⟨compiled, hok⟩
  simp only [resolve, hok] at h
  split at h
  · cases h
    exact hc
  · cases h

private theorem compiles_of_resolve {s : String} {v : Value} (h : resolve exprCompile run format s = .ok v) :
    Compiles exprCompile s := by
  unfold resolve at h
  split at h
  · cases h
  · rename_i compiled hc
    exact ⟨compiled, hc⟩

theorem Fails.exists_string {v : Value} {err : ResolveError E R} (h : Fails exprCompile run format v err)
    (hc : err.fromCompile) : ∃ s, StringIn v s ∧ ¬ Compiles exprCompile s := by
  cases h with
  | resolveMap h =>
    have hwrap : ∀ (k : String) (err : ResolveError E R), (ResolveError.field k err).fromCompile → err.fromCompile :=
      fun _ _ h => h
    obtain ⟨_, s, err', hs, hleaf, hbad⟩ := leaf_of_resolveFields_error ResolveError.fromCompile hwrap h hc
    exact ⟨s, hs, not_compiles_of_resolve hleaf hbad⟩
  | resolveDeep h =>
    obtain ⟨_, s, err', hs, hleaf, hbad⟩ := leaf_of_resolveTree_error ResolveError.fromCompile (fun _ _ h => h) h hc
    exact ⟨s, hs, not_compiles_of_resolve hleaf hbad⟩
  | resolveNested h =>
    obtain ⟨path, s, err', hs, hleaf, hbad⟩ := leaf_of_resolveTree_error ResolveError.fromCompile (fun _ _ h => h) h hc
    unfold resolveAt at hleaf
    split at hleaf
    · rename_i err'' hres
      cases hleaf
      exact ⟨s, hs, not_compiles_of_resolve hres hbad⟩
    · cases hleaf

end Resolvers

/-- Programs that always succeed, so that every string is reached. -/
def runOk : Option P → Except R Value := fun _ => .ok .null

private theorem concatSegments_runOk (format : Value → String) (raw : String) (segments : List (Segment × Option P)) :
    ∃ s, concatSegments (R := R) runOk format raw segments = .ok s := by
  induction segments with
  | nil => exact ⟨"", rfl⟩
  | cons seg segments ih =>
    obtain ⟨s, hs⟩ := ih
    obtain ⟨seg, program⟩ := seg
    cases seg with
    | literal text => exact ⟨text ++ s, by simp [concatSegments, hs]⟩
    | expression text => exact ⟨format .null ++ s, by simp [concatSegments, runOk, hs]⟩

private theorem evaluate_runOk (format : Value → String) (compiled : CompiledExpression P) :
    ∃ v, evaluate (R := R) runOk format compiled = .ok v := by
  obtain ⟨s, hs⟩ := concatSegments_runOk (R := R) format compiled.parsed.raw
    (compiled.parsed.segments.zip compiled.programs)
  unfold evaluate
  split
  · exact ⟨_, rfl⟩
  · split
    · exact ⟨.null, rfl⟩
    · exact ⟨.str s, by simp [hs]⟩

private theorem fromCompile_of_resolve_runOk {exprCompile : String → Except E P} {format : Value → String} {s : String}
    {err : ResolveError E R} (h : resolve exprCompile runOk format s = .error err) : err.fromCompile := by
  unfold resolve at h
  split at h
  · cases h
    trivial
  · rename_i compiled hc
    obtain ⟨v, hv⟩ := evaluate_runOk (R := R) format compiled
    rw [hv] at h
    cases h

private theorem exists_fails {exprCompile : String → Except E P} (format : Value → String) {v : Value} {s : String}
    (hs : StringIn v s) (hc : ¬ Compiles exprCompile s) :
    ∃ err : ResolveError E R, Fails exprCompile runOk format v err ∧ err.fromCompile := by
  cases hres : resolveDeep (R := R) exprCompile runOk format v with
  | ok out =>
    obtain ⟨_, w, hw⟩ := leaf_ok_of_resolveTree hs hres
    exact absurd (compiles_of_resolve hw) hc
  | error err =>
    refine ⟨err, .resolveDeep hres, ?_⟩
    by_contra hbad
    obtain ⟨_, t, err', ht, hleaf, hbad⟩ :=
      leaf_of_resolveTree_error (fun err => ¬ err.fromCompile) (fun _ _ h => h) hres hbad
    exact hbad (fromCompile_of_resolve_runOk hleaf)

/-- A config without an error at startup has no error of `Compile` at run time if and only if each of its templates
inside an array that is an item of an array compiles, or the startup reports an error of a template elsewhere. -/
theorem validateExpressions_complete_iff (R : Type) (exprCompile : String → Except E P) (config : Config) :
    (validateExpressions exprCompile config = [] →
      ∀ (run : Option P → Except R Value) (format : Value → String) (part : Value), PartOf (.obj config) part →
        ∀ err, Fails exprCompile run format part err → ¬ err.fromCompile) ↔
    ((∃ s, FlatStringIn (.obj config) s ∧ ¬ Compiles exprCompile s) ∨
      ∀ s, NestedStringIn (.obj config) s → Compiles exprCompile s) := by
  rw [validateExpressions_eq_nil_iff]
  constructor
  · intro h
    by_cases hflat : ∃ s, FlatStringIn (.obj config) s ∧ ¬ Compiles exprCompile s
    · exact .inl hflat
    · right
      intro s hs
      by_contra hc
      have hok : ∀ s, FlatStringIn (.obj config) s → Compiles exprCompile s := by
        intro s hs
        by_contra hc
        exact hflat ⟨s, hs, hc⟩
      obtain ⟨err, hfails, hbad⟩ := exists_fails (R := R) (fun _ => "") hs.stringIn hc
      exact h hok runOk _ _ .self err hfails hbad
  · rintro h hok run format part hpart err hfails hbad
    obtain ⟨s, hs, hc⟩ := hfails.exists_string hbad
    rcases h with ⟨t, ht, htc⟩ | hnested
    · exact htc (hok t ht)
    · rcases stringIn_iff.mp (hpart.stringIn hs) with hflat | hn
      · exact hc (hok s hflat)
      · exact hc (hnested s hn)

/-- A config with an empty expression in an array inside an array. -/
def nestedRows : Config := [("rows", .arr [.arr [.str "\x7b\x7b \x7d\x7d"]])]

/-- The check at startup does not see the empty expression, and resolving the config fails on it. -/
theorem validateExpressions_incomplete :
    ¬ ∀ config : Config, validateExpressions (E := Unit) (P := String) .ok config = [] →
      ∀ (run : Option String → Except Unit Value) (format : Value → String) (part : Value), PartOf (.obj config) part →
        ∀ err : ResolveError Unit Unit, Fails .ok run format part err → ¬ err.fromCompile := by
  intro h
  have hvalid : validateExpressions (E := Unit) (P := String) .ok nestedRows = [] := by decide +kernel
  have hs : StringIn (.obj nestedRows) "\x7b\x7b \x7d\x7d" :=
    .field List.mem_cons_self (.item List.mem_cons_self (.item List.mem_cons_self (.str _)))
  have hc : ¬ Compiles (E := Unit) (P := String) .ok "\x7b\x7b \x7d\x7d" := by
    rintro ⟨compiled, hok⟩
    have herr : compileInput (E := Unit) (P := String) .ok "\x7b\x7b \x7d\x7d" = .error (.parse (.empty 0)) := by
      decide +kernel
    rw [herr] at hok
    cases hok
  obtain ⟨err, hfails, hbad⟩ := exists_fails (R := Unit) (fun _ => "") hs hc
  exact h nestedRows hvalid runOk _ _ .self err hfails hbad

end Noda.Expr
