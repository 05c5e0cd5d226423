import Mathlib.Data.List.Basic
import Mathlib.Data.List.Infix
import Mathlib.Data.List.Forall2

/-!
# Redaction of trace events

`redactValue` with its two branches for maps, `redactHTTPResponse`, and `Emit` as far as it makes the data of an event.
A map lists its entries in the order of its keys, so that equal maps have equal lists; what the element type says about
the entries is not used, so the results hold for more values than Go can build.

Data that differs only where the redaction hides it is the same after the redaction (`Secure`).  The branch for
concretely typed maps does not look for cookie objects: it is there, and only there, that a cookie is not hidden
(`redaction_secure_iff`, `redaction_leaks`).
-/

namespace Noda.Trace

/-! ### Values -/

/-- The element type of a map, a slice or an array. -/
inductive Elem where
  | any
  | concrete (type : String)
  deriving DecidableEq, Repr

/-- The values that events carry; other scalars than strings are given by their type and their text. -/
inductive Value where
  | nil
  | str (s : String)
  | scalar (type text : String)
  | nilMap (elem : Elem)
  | map (elem : Elem) (entries : List (String × Value))
  | otherMap (entries : List (Value × Value))
  | nilSlice (elem : Elem)
  | slice (elem : Elem) (items : List Value)
  | array (elem : Elem) (items : List Value)

/-- `unicode.ToLower`, a table of which only the part for ASCII is used here. -/
structure CaseMap where
  toLower : Char → Char
  ascii : ∀ c, c.toNat < 128 → toLower c = c.toLower

variable (C : CaseMap)

/-- `strings.ToLower`. -/
def CaseMap.lower (s : String) : List Char := s.toList.map C.toLower

def sensitiveContains : List String :=
  ["password", "secret", "token", "authorization", "credential", "api_key", "apikey", "stream_key", "signing_key",
    "private_key"]

def sensitiveExact : List String := ["key"]

def cookieObjectKeys : List String := ["cookie", "clear_cookie"]

def maxRedactDepth : Nat := 32

/-- `IsSensitiveKey`. -/
def isSensitiveKey (key : String) : Bool :=
  sensitiveContains.any (fun pattern => decide (pattern.toList <:+: C.lower key)) ||
    (sensitiveExact.map String.toList).contains (C.lower key)

def isCookieContainerKey (key : String) : Bool := (cookieObjectKeys.map String.toList).contains (C.lower key)

def isCookieShapedMap (m : List (String × Value)) : Bool := m.any (·.1 = "name") && m.any (·.1 = "value")

/-- The entries after `m["value"] = "[REDACTED]"`, where `m` has a `value`. -/
def setValue (m : List (String × Value)) : List (String × Value) :=
  m.map fun e => if e.1 = "value" then (e.1, .str "[REDACTED]") else e

def redactCookieValue (m : List (String × Value)) : List (String × Value) :=
  if isCookieShapedMap m then setValue m else m

/-- The second half of the loop of `redactStringMap`: what becomes of the redacted value of `k`. -/
def redactContained (k : String) (out : Value) : Value :=
  if isCookieContainerKey C k then
    match out with
    | .map .any inner => .map .any (redactCookieValue inner)
    | out => out
  else out

mutual

def redactValueDepth (depth : Nat) (v : Value) : Value :=
  if depth > maxRedactDepth then .str "[REDACTED: max depth]"
  else
    match v with
    | .nil => .nil
    | .str s => .str s
    | .scalar type text => .scalar type text
    | .nilMap _ => .map .any []
    | .map .any entries => .map .any (redactStringMap depth entries)
    | .map (.concrete _) entries => .map .any (redactMapRange depth entries)
    | .otherMap _ => .str "[REDACTED: unclassifiable keys]"
    | .nilSlice elem => .nilSlice elem
    | .slice _ items => .slice .any (redactItems depth items)
    | .array _ items => .slice .any (redactItems depth items)

/-- `redactStringMap`, the branch for `map[string]any`. -/
def redactStringMap : Nat → List (String × Value) → List (String × Value)
  | _, [] => []
  | depth, (k, v) :: m =>
    (k, if isSensitiveKey C k then .str "[REDACTED]" else redactContained C k (redactValueDepth (depth + 1) v)) ::
      redactStringMap depth m

/-- The loop of the branch for other string-keyed maps. -/
def redactMapRange : Nat → List (String × Value) → List (String × Value)
  | _, [] => []
  | depth, (k, v) :: m =>
    (k, if isSensitiveKey C k then .str "[REDACTED]" else redactValueDepth (depth + 1) v) :: redactMapRange depth m

/-- The loop of the branch for slices and arrays. -/
def redactItems : Nat → List Value → List Value
  | _, [] => []
  | depth, v :: items => redactValueDepth (depth + 1) v :: redactItems depth items

end

def redactValue (v : Value) : Value := redactValueDepth C 0 v

/-! ### Events -/

/-- `api.Cookie`. -/
structure Cookie where
  name : String
  value : String
  path : String
  domain : String
  maxAge : Int
  secure : Bool
  httpOnly : Bool
  sameSite : String

/-- `api.HTTPResponse`. -/
structure HTTPResponse where
  status : Int
  headers : List (String × String)
  cookies : List Cookie
  body : Value

/-- The data of an event: an HTTP response, which may be nil, or any other value. -/
inductive Data where
  | response (resp : Option HTTPResponse)
  | value (v : Value)

def intValue (n : Int) : Value := .scalar "int" (toString n)

def boolValue (b : Bool) : Value := .scalar "bool" (toString b)

/-- A cookie of a response, without its value. -/
def redactCookie (c : Cookie) : Value :=
  .map .any [("domain", .str c.domain), ("http_only", boolValue c.httpOnly), ("max_age", intValue c.maxAge),
    ("name", .str c.name), ("path", .str c.path), ("same_site", .str c.sameSite), ("secure", boolValue c.secure),
    ("value", .str "[REDACTED]")]

def redactHeaders (headers : List (String × String)) : List (String × Value) :=
  headers.map fun h => (h.1, .str (if isSensitiveKey C h.1 then "[REDACTED]" else h.2))

def redactHTTPResponse : Option HTTPResponse → Value
  | none => .nilMap .any
  | some resp => .map .any [("body", redactValue C resp.body), ("cookies", .slice .any (resp.cookies.map redactCookie)),
      ("headers", .map .any (redactHeaders C resp.headers)), ("status", intValue resp.status)]

/-- The data that `Emit` marshals and pushes to the subscribers. -/
def emitData : Data → Value
  | .response resp => redactHTTPResponse C resp
  | .value v => redactValue C v

/-! ### Secrets -/

mutual

/-- The values are equal except in secrets; `cookie` says that they are stored under the key of a cookie. -/
def Agree (cookie : Bool) : Value → Value → Prop
  | .map e es, .map e' fs => e = e' ∧ AgreeEntries (cookie && isCookieShapedMap es) es fs
  | .slice e xs, .slice e' ys => e = e' ∧ AgreeItems xs ys
  | .array e xs, .array e' ys => e = e' ∧ AgreeItems xs ys
  | v, w => v = w

/-- The same for the entries of a map; `free` says that its `value` is the value of a cookie. -/
def AgreeEntries (free : Bool) : List (String × Value) → List (String × Value) → Prop
  | [], [] => True
  | (k, v) :: es, (k', w) :: fs =>
    k = k' ∧ (isSensitiveKey C k = true ∨ free = true ∧ k = "value" ∨ Agree (isCookieContainerKey C k) v w) ∧
      AgreeEntries free es fs
  | _, _ => False

def AgreeItems : List Value → List Value → Prop
  | [], [] => True
  | v :: xs, w :: ys => Agree false v w ∧ AgreeItems xs ys
  | _, _ => False

end

/-- The responses are equal except in secrets. -/
structure HTTPResponse.Agree (r r' : HTTPResponse) : Prop where
  status : r.status = r'.status
  headers : List.Forall₂ (fun h h' => h.1 = h'.1 ∧ (isSensitiveKey C h.1 = true ∨ h.2 = h'.2)) r.headers r'.headers
  cookies : List.Forall₂ (fun c c' => c' = { c with value := c'.value }) r.cookies r'.cookies
  body : Trace.Agree C false r.body r'.body

/-- The data of two events is equal except in secrets. -/
def Data.Agree : Data → Data → Prop
  | .response (some r), .response (some r') => HTTPResponse.Agree C r r'
  | .value v, .value w => Trace.Agree C false v w
  | d, d' => d = d'

/-- The redaction hides all secrets of the data. -/
def Secure (d : Data) : Prop := ∀ d', d.Agree C d' → emitData C d = emitData C d'

/-- Where a value is stored: under the key of a cookie, in a `map[string]any` or in a concretely typed map, or not. -/
inductive Place where
  | other
  | anyMap
  | typedMap
  deriving DecidableEq, Repr

def place (e : Elem) (k : String) : Place :=
  if isCookieContainerKey C k then if e = .any then .anyMap else .typedMap else .other

mutual

/-- The walk from `depth` on meets a cookie in a concretely typed map, at a depth where values are still shown. -/
def exposes (p : Place) (depth : Nat) : Value → Bool
  | .map e es => decide (depth ≤ maxRedactDepth) &&
      (decide (p = .typedMap) && isCookieShapedMap es && decide (depth + 1 ≤ maxRedactDepth) ||
        exposesEntries (decide (p = .anyMap) && isCookieShapedMap es) e depth es)
  | .slice _ xs => decide (depth ≤ maxRedactDepth) && exposesItems depth xs
  | .array _ xs => decide (depth ≤ maxRedactDepth) && exposesItems depth xs
  | _ => false

/-- The same for the entries of a map; `hidden` says that its `value` will be overwritten. -/
def exposesEntries (hidden : Bool) (e : Elem) (depth : Nat) : List (String × Value) → Bool
  | [] => false
  | (k, v) :: es =>
    !isSensitiveKey C k && !(hidden && decide (k = "value")) && exposes (place C e k) (depth + 1) v ||
      exposesEntries hidden e depth es

def exposesItems (depth : Nat) : List Value → Bool
  | [] => false
  | v :: xs => exposes .other (depth + 1) v || exposesItems depth xs

end

/-- The same for the data of an event. -/
def Data.exposes : Data → Bool
  | .response (some r) => Trace.exposes C .other 0 r.body
  | .response none => false
  | .value v => Trace.exposes C .other 0 v

/-! ### One branch for all maps -/

def stored (p : Place) (depth : Nat) (v : Value) : Value :=
  if p = .anyMap then
    match redactValueDepth C depth v with
    | .map .any inner => .map .any (redactCookieValue inner)
    | out => out
  else redactValueDepth C depth v

def redactEntries (e : Elem) (depth : Nat) (es : List (String × Value)) : List (String × Value) :=
  es.map fun x => (x.1, if isSensitiveKey C x.1 then .str "[REDACTED]" else stored C (place C e x.1) (depth + 1) x.2)

/-- The entries, with the value overwritten if it is hidden. -/
def hide (hidden : Bool) (es : List (String × Value)) : List (String × Value) := if hidden then setValue es else es

variable {C} {p : Place} {e : Elem} {depth : Nat} {es fs : List (String × Value)} {xs ys : List Value} {k : String}
  {v w : Value} {free hidden cookie : Bool}

private theorem redactStringMap_eq : redactStringMap C depth es = redactEntries C .any depth es := by
  induction es with
  | nil => rw [redactStringMap]; rfl
  | cons x es ih =>
    obtain ⟨k, v⟩ := x
    rw [redactStringMap, ih, redactEntries, redactEntries, List.map_cons]
    by_cases hk : isCookieContainerKey C k = true
    · simp [redactContained, stored, place, hk]
    · simp [redactContained, stored, place, hk]

private theorem redactMapRange_eq (type : String) :
    redactMapRange C depth es = redactEntries C (.concrete type) depth es := by
  induction es with
  | nil => rw [redactMapRange]; rfl
  | cons x es ih =>
    obtain ⟨k, v⟩ := x
    rw [redactMapRange, ih, redactEntries, redactEntries, List.map_cons]
    by_cases hk : isCookieContainerKey C k = true
    · simp [stored, place, hk]
    · simp [stored, place, hk]

private theorem redactItems_eq : redactItems C depth xs = xs.map (redactValueDepth C (depth + 1)) := by
  induction xs with
  | nil => rw [redactItems]; rfl
  | cons v xs ih => rw [redactItems, ih, List.map_cons]

private theorem redactValueDepth_of_lt (h : maxRedactDepth < depth) :
    redactValueDepth C depth v = .str "[REDACTED: max depth]" := by
  rw [redactValueDepth.eq_def, if_pos h]

private theorem redactValueDepth_map (h : depth ≤ maxRedactDepth) :
    redactValueDepth C depth (.map e es) = .map .any (redactEntries C e depth es) := by
  rw [redactValueDepth.eq_def, if_neg (Nat.not_lt.2 h)]
  cases e with
  | any => simp [redactStringMap_eq]
  | concrete type => simp [redactMapRange_eq type]

private theorem isCookieShapedMap_congr (h : es.map Prod.fst = fs.map Prod.fst) :
    isCookieShapedMap es = isCookieShapedMap fs := by
  have hany : ∀ name : String, es.any (·.1 = name) = fs.any (·.1 = name) := by
    intro name
    have := congrArg (List.any · (· = name)) h
    simpa [List.any_map, Function.comp_def] using this
  rw [isCookieShapedMap, isCookieShapedMap, hany, hany]

private theorem keys_redactEntries : (redactEntries C e depth es).map Prod.fst = es.map Prod.fst := by
  simp [redactEntries, Function.comp_def]

private theorem stored_map (h : depth ≤ maxRedactDepth) : stored C p depth (.map e es) =
    .map .any (hide (decide (p = .anyMap) && isCookieShapedMap es) (redactEntries C e depth es)) := by
  rw [stored, redactValueDepth_map h]
  have hshape : isCookieShapedMap (redactEntries C e depth es) = isCookieShapedMap es :=
    isCookieShapedMap_congr keys_redactEntries
  by_cases hp : p = .anyMap
  · simp [hp, redactCookieValue, hide, hshape]
  · simp [hp, hide]

private theorem stored_of_lt (h : maxRedactDepth < depth) : stored C p depth v = .str "[REDACTED: max depth]" := by
  rw [stored, redactValueDepth_of_lt h]
  simp

private theorem stored_items (h : depth ≤ maxRedactDepth) (hv : v = .slice e xs ∨ v = .array e xs) :
    stored C p depth v = .slice .any (xs.map (stored C .other (depth + 1))) := by
  have hred : redactValueDepth C depth v = .slice .any (xs.map (stored C .other (depth + 1))) := by
    have hfun : stored C .other (depth + 1) = redactValueDepth C (depth + 1) := by
      funext v
      simp [stored]
    rw [redactValueDepth.eq_def, if_neg (Nat.not_lt.2 h), hfun]
    rcases hv with rfl | rfl
    · simp [redactItems_eq]
    · simp [redactItems_eq]
  rw [stored, hred]
  simp

private theorem hide_cons : hide hidden ((k, v) :: es) =
    (k, if hidden = true ∧ k = "value" then .str "[REDACTED]" else v) :: hide hidden es := by
  unfold hide
  cases hidden with
  | false => simp
  | true =>
    by_cases hk : k = "value"
    · simp [setValue, hk]
    · simp [setValue, hk]

private theorem redactEntries_cons : redactEntries C e depth ((k, v) :: es) =
    (k, if isSensitiveKey C k then .str "[REDACTED]" else stored C (place C e k) (depth + 1) v) ::
      redactEntries C e depth es := rfl

private theorem place_ne_other : decide (place C e k ≠ .other) = isCookieContainerKey C k := by
  unfold place
  by_cases hk : isCookieContainerKey C k = true
  · by_cases he : e = .any
    · simp [hk, he]
    · simp [hk, he]
  · simp [hk]

/-! ### What is hidden -/

theorem AgreeEntries.keys (h : AgreeEntries C free es fs) : es.map Prod.fst = fs.map Prod.fst := by
  induction es generalizing fs with
  | nil =>
    cases fs with
    | nil => rfl
    | cons y fs => simp [AgreeEntries] at h
  | cons x es ih =>
    cases fs with
    | nil => simp [AgreeEntries] at h
    | cons y fs =>
      simp only [AgreeEntries] at h
      rw [List.map_cons, List.map_cons, h.1, ih h.2.2]

mutual

theorem stored_eq_of_agree (v w : Value) (p : Place) (depth : Nat) (hv : exposes C p depth v = false)
    (h : Agree C (decide (p ≠ .other)) v w) : stored C p depth v = stored C p depth w := by
  by_cases hd : depth ≤ maxRedactDepth
  · match v, w with
    | .map e es, .map e' fs =>
      simp only [Agree] at h
      obtain ⟨rfl, hes⟩ := h
      simp only [exposes, hd, decide_true, Bool.true_and, Bool.or_eq_false_iff] at hv
      rw [stored_map hd, stored_map hd, ← isCookieShapedMap_congr hes.keys]
      refine congrArg _ (hide_eq_of_agree es fs e depth _ _ hv.2 hes ?_)
      -- a cookie of a concretely typed map is too deep to be shown
      intro hfree
      simp only [Bool.and_eq_true, decide_eq_true_eq] at hfree
      cases p with
      | other => exact absurd rfl hfree.1
      | anyMap => simp [hfree.2]
      | typedMap => simpa [hfree.2] using hv.1
    | .slice e xs, .slice e' ys =>
      simp only [Agree] at h
      simp only [exposes, hd, decide_true, Bool.true_and] at hv
      rw [stored_items hd (.inl rfl), stored_items hd (.inl rfl), map_stored_eq xs ys depth hv h.2]
    | .array e xs, .array e' ys =>
      simp only [Agree] at h
      simp only [exposes, hd, decide_true, Bool.true_and] at hv
      rw [stored_items hd (.inr rfl), stored_items hd (.inr rfl), map_stored_eq xs ys depth hv h.2]
    | .nil, w => simp only [Agree] at h; rw [h]
    | .str s, w => simp only [Agree] at h; rw [h]
    | .scalar type text, w => simp only [Agree] at h; rw [h]
    | .nilMap e, w => simp only [Agree] at h; rw [h]
    | .otherMap es, w => simp only [Agree] at h; rw [h]
    | .nilSlice e, w => simp only [Agree] at h; rw [h]
  · rw [stored_of_lt (Nat.lt_of_not_le hd), stored_of_lt (Nat.lt_of_not_le hd)]

theorem hide_eq_of_agree (es fs : List (String × Value)) (e : Elem) (depth : Nat) (free hidden : Bool)
    (hes : exposesEntries C hidden e depth es = false) (h : AgreeEntries C free es fs)
    (hfree : free = true → hidden = true ∨ maxRedactDepth < depth + 1) :
    hide hidden (redactEntries C e depth es) = hide hidden (redactEntries C e depth fs) := by
  match es, fs with
  | [], [] => rfl
  | (k, v) :: es, (k', w) :: fs =>
    simp only [AgreeEntries] at h
    obtain ⟨rfl, hvw, hrest⟩ := h
    simp only [exposesEntries, Bool.or_eq_false_iff] at hes
    have ih := hide_eq_of_agree es fs e depth free hidden hes.2 hrest hfree
    rw [redactEntries_cons, redactEntries_cons, hide_cons, hide_cons, ih]
    by_cases hk : isSensitiveKey C k = true
    · simp [hk]
    by_cases hh : hidden = true ∧ k = "value"
    · simp [hh]
    have hshown : exposes C (place C e k) (depth + 1) v = false := by
      have hno : (hidden && decide (k = "value")) = false := by simpa using hh
      simpa [hk, hno] using hes.1
    have hstored : stored C (place C e k) (depth + 1) v = stored C (place C e k) (depth + 1) w := by
      rcases hvw with hs | ⟨hf, hvalue⟩ | hvw
      · exact absurd hs hk
      · rcases hfree hf with hhid | hdeep
        · exact absurd ⟨hhid, hvalue⟩ hh
        · rw [stored_of_lt hdeep, stored_of_lt hdeep]
      · exact stored_eq_of_agree v w (place C e k) (depth + 1) hshown (place_ne_other ▸ hvw)
    rw [hstored]

theorem map_stored_eq (xs ys : List Value) (depth : Nat) (hxs : exposesItems C depth xs = false)
    (h : AgreeItems C xs ys) : xs.map (stored C .other (depth + 1)) = ys.map (stored C .other (depth + 1)) := by
  match xs, ys with
  | [], [] => rfl
  | v :: xs, w :: ys =>
    simp only [AgreeItems] at h
    simp only [exposesItems, Bool.or_eq_false_iff] at hxs
    rw [List.map_cons, List.map_cons, stored_eq_of_agree v w .other (depth + 1) hxs.1 h.1,
      map_stored_eq xs ys depth hxs.2 h.2]

end

/-! ### What is exposed -/

mutual

theorem agree_refl (v : Value) (cookie : Bool) : Agree C cookie v v := by
  match v with
  | .map e es => rw [Agree]; exact ⟨rfl, agreeEntries_refl es _⟩
  | .slice e xs => rw [Agree]; exact ⟨rfl, agreeItems_refl xs⟩
  | .array e xs => rw [Agree]; exact ⟨rfl, agreeItems_refl xs⟩
  | .nil => simp only [Agree]
  | .str s => simp only [Agree]
  | .scalar type text => simp only [Agree]
  | .nilMap e => simp only [Agree]
  | .otherMap es => simp only [Agree]
  | .nilSlice e => simp only [Agree]

theorem agreeEntries_refl (es : List (String × Value)) (free : Bool) : AgreeEntries C free es es := by
  match es with
  | [] => simp only [AgreeEntries]
  | (k, v) :: es =>
    rw [AgreeEntries]
    exact ⟨rfl, .inr (.inr (agree_refl v _)), agreeEntries_refl es free⟩

theorem agreeItems_refl (xs : List Value) : AgreeItems C xs xs := by
  match xs with
  | [] => simp only [AgreeItems]
  | v :: xs =>
    simp only [AgreeItems]
    exact ⟨agree_refl v false, agreeItems_refl xs⟩

end

private theorem lower_value : C.lower "value" = "value".toList := by
  have hascii : ∀ c ∈ ['v', 'a', 'l', 'u', 'e'], c.toNat < 128 ∧ c.toLower = c := by
    simp only [List.forall_mem_cons, List.not_mem_nil, false_imp_iff, implies_true, and_true]
    decide
  refine (List.map_congr_left fun c hc => ?_).trans (List.map_id _)
  rw [C.ascii c (hascii c hc).1, (hascii c hc).2]
  rfl

private theorem isSensitiveKey_value : isSensitiveKey C "value" = false := by
  rw [isSensitiveKey, lower_value]
  decide +kernel

private theorem place_value : place C e "value" = .other := by
  have hno : isCookieContainerKey C "value" = false := by
    rw [isCookieContainerKey, lower_value]
    decide +kernel
  simp [place, hno]

/-- Some string is shown differently than the value. -/
private theorem exists_str_ne (h : depth ≤ maxRedactDepth) (v : Value) :
    ∃ s, stored C .other depth v ≠ stored C .other depth (.str s) := by
  have hstr : ∀ s, stored C .other depth (.str s) = .str s := by
    intro s
    rw [stored, redactValueDepth.eq_def, if_neg (Nat.not_lt.2 h)]
    simp
  by_cases hv : stored C .other depth v = .str ""
  · exact ⟨"x", by rw [hv, hstr]; simp⟩
  · exact ⟨"", by rw [hstr]; exact hv⟩

private theorem exists_cookie_ne (es : List (String × Value)) (hd : depth + 1 ≤ maxRedactDepth)
    (hes : es.any (·.1 = "value") = true) :
    ∃ fs, AgreeEntries C true es fs ∧ redactEntries C e depth es ≠ redactEntries C e depth fs := by
  induction es with
  | nil => simp at hes
  | cons x es ih =>
    obtain ⟨k, v⟩ := x
    by_cases hk : k = "value"
    · subst hk
      obtain ⟨s, hs⟩ := exists_str_ne (C := C) hd v
      refine ⟨("value", .str s) :: es, ?_, ?_⟩
      · rw [AgreeEntries]
        exact ⟨rfl, .inr (.inl ⟨rfl, rfl⟩), agreeEntries_refl es true⟩
      · simp only [redactEntries_cons, isSensitiveKey_value, place_value]
        simpa using hs
    · obtain ⟨fs, hagree, hne⟩ := ih (by simpa [hk] using hes)
      refine ⟨(k, v) :: fs, ?_, ?_⟩
      · rw [AgreeEntries]
        exact ⟨rfl, .inr (.inr (agree_refl v _)), hagree⟩
      · simpa [redactEntries_cons] using hne

mutual

theorem exists_agree_ne (v : Value) (p : Place) (depth : Nat) (hv : exposes C p depth v = true) :
    ∃ w, Agree C (decide (p ≠ .other)) v w ∧ stored C p depth v ≠ stored C p depth w := by
  match v with
  | .map e es =>
    simp only [exposes, Bool.and_eq_true, Bool.or_eq_true, decide_eq_true_eq] at hv
    obtain ⟨hd, hcases⟩ := hv
    suffices hes : ∃ fs, AgreeEntries C (decide (p ≠ .other) && isCookieShapedMap es) es fs ∧
        hide (decide (p = .anyMap) && isCookieShapedMap es) (redactEntries C e depth es) ≠
          hide (decide (p = .anyMap) && isCookieShapedMap es) (redactEntries C e depth fs) by
      obtain ⟨fs, hagree, hne⟩ := hes
      refine ⟨.map e fs, ?_, ?_⟩
      · rw [Agree]
        exact ⟨rfl, hagree⟩
      · rw [stored_map hd, stored_map hd, ← isCookieShapedMap_congr hagree.keys]
        simpa using hne
    rcases hcases with ⟨⟨rfl, hshape⟩, hd'⟩ | hes
    · have hvalue : es.any (·.1 = "value") = true := by
        rw [isCookieShapedMap, Bool.and_eq_true] at hshape
        exact hshape.2
      obtain ⟨fs, hagree, hne⟩ := exists_cookie_ne (C := C) (e := e) es hd' hvalue
      refine ⟨fs, ?_, ?_⟩
      · rw [hshape]
        exact hagree
      · simpa [hide] using hne
    · exact exists_entries_ne es e depth _ _ hes
  | .slice e xs =>
    simp only [exposes, Bool.and_eq_true, decide_eq_true_eq] at hv
    obtain ⟨ys, hagree, hne⟩ := exists_items_ne xs depth hv.2
    refine ⟨.slice e ys, ?_, ?_⟩
    · rw [Agree]
      exact ⟨rfl, hagree⟩
    · rw [stored_items hv.1 (.inl rfl), stored_items hv.1 (.inl rfl)]
      simpa using hne
  | .array e xs =>
    simp only [exposes, Bool.and_eq_true, decide_eq_true_eq] at hv
    obtain ⟨ys, hagree, hne⟩ := exists_items_ne xs depth hv.2
    refine ⟨.array e ys, ?_, ?_⟩
    · rw [Agree]
      exact ⟨rfl, hagree⟩
    · rw [stored_items hv.1 (.inr rfl), stored_items hv.1 (.inr rfl)]
      simpa using hne
  | .nil => simp [exposes] at hv
  | .str s => simp [exposes] at hv
  | .scalar type text => simp [exposes] at hv
  | .nilMap e => simp [exposes] at hv
  | .otherMap es => simp [exposes] at hv
  | .nilSlice e => simp [exposes] at hv

theorem exists_entries_ne (es : List (String × Value)) (e : Elem) (depth : Nat) (free hidden : Bool)
    (hes : exposesEntries C hidden e depth es = true) : ∃ fs, AgreeEntries C free es fs ∧
      hide hidden (redactEntries C e depth es) ≠ hide hidden (redactEntries C e depth fs) := by
  match es with
  | [] => simp [exposesEntries] at hes
  | (k, v) :: es =>
    simp only [exposesEntries, Bool.or_eq_true, Bool.and_eq_true, Bool.not_eq_true'] at hes
    rcases hes with ⟨⟨hk, hh⟩, hv⟩ | hes
    · obtain ⟨w, hagree, hne⟩ := exists_agree_ne v (place C e k) (depth + 1) hv
      rw [place_ne_other] at hagree
      refine ⟨(k, w) :: es, ?_, ?_⟩
      · rw [AgreeEntries]
        exact ⟨rfl, .inr (.inr hagree), agreeEntries_refl es free⟩
      · have hshown : ¬(hidden = true ∧ k = "value") := by simpa using hh
        rw [redactEntries_cons, redactEntries_cons, hide_cons, hide_cons, if_neg hshown, if_neg hshown]
        simpa [hk] using hne
    · obtain ⟨fs, hagree, hne⟩ := exists_entries_ne es e depth free hidden hes
      refine ⟨(k, v) :: fs, ?_, ?_⟩
      · rw [AgreeEntries]
        exact ⟨rfl, .inr (.inr (agree_refl v _)), hagree⟩
      · rw [redactEntries_cons, redactEntries_cons, hide_cons, hide_cons]
        simpa using hne

theorem exists_items_ne (xs : List Value) (depth : Nat) (hxs : exposesItems C depth xs = true) :
    ∃ ys, AgreeItems C xs ys ∧ xs.map (stored C .other (depth + 1)) ≠ ys.map (stored C .other (depth + 1)) := by
  match xs with
  | [] => simp [exposesItems] at hxs
  | v :: xs =>
    simp only [exposesItems, Bool.or_eq_true] at hxs
    rcases hxs with hv | hxs
    · obtain ⟨w, hagree, hne⟩ := exists_agree_ne v .other (depth + 1) hv
      refine ⟨w :: xs, ?_, ?_⟩
      · simp only [AgreeItems]
        exact ⟨hagree, agreeItems_refl xs⟩
      · simpa using hne
    · obtain ⟨ys, hagree, hne⟩ := exists_items_ne xs depth hxs
      refine ⟨v :: ys, ?_, ?_⟩
      · simp only [AgreeItems]
        exact ⟨agree_refl v false, hagree⟩
      · simpa using hne

end

/-! ### Events -/

private theorem stored_zero : stored C .other 0 v = redactValue C v := by
  simp [stored, redactValue]

private theorem redactHeaders_eq {hs hs' : List (String × String)}
    (h : List.Forall₂ (fun h h' => h.1 = h'.1 ∧ (isSensitiveKey C h.1 = true ∨ h.2 = h'.2)) hs hs') :
    redactHeaders C hs = redactHeaders C hs' := by
  induction h with
  | nil => rfl
  | @cons a b hs hs' hab hrest ih =>
    obtain ⟨k, x⟩ := a
    obtain ⟨k', x'⟩ := b
    obtain ⟨rfl, hx⟩ := hab
    simp only [redactHeaders, List.map_cons, List.cons.injEq] at ih ⊢
    refine ⟨?_, ih⟩
    rcases hx with hk | rfl
    · simp [hk]
    · rfl

private theorem redactCookies_eq {cs cs' : List Cookie}
    (h : List.Forall₂ (fun c c' : Cookie => c' = { c with value := c'.value }) cs cs') :
    cs.map redactCookie = cs'.map redactCookie := by
  induction h with
  | nil => rfl
  | @cons c c' cs cs' hc hrest ih =>
    rw [List.map_cons, List.map_cons, ih, hc]
    rfl

/-- The redaction hides all secrets of the data exactly if it meets no cookie object in a concretely typed map. -/
theorem redaction_secure_iff (C : CaseMap) (d : Data) : Secure C d ↔ d.exposes C = false := by
  constructor
  · intro hsecure
    by_contra hexp
    rw [Bool.not_eq_false] at hexp
    match d with
    | .response none => simp [Data.exposes] at hexp
    | .response (some r) =>
      obtain ⟨w, hagree, hne⟩ := exists_agree_ne r.body .other 0 hexp
      have hr : HTTPResponse.Agree C r { r with body := w } :=
        ⟨rfl, List.forall₂_same.2 fun _ _ => ⟨rfl, .inr rfl⟩, List.forall₂_same.2 fun _ _ => rfl, hagree⟩
      have heq := hsecure (.response (some { r with body := w })) hr
      simp only [emitData, redactHTTPResponse, Value.map.injEq, List.cons.injEq, Prod.mk.injEq, true_and,
        and_true] at heq
      rw [stored_zero, stored_zero] at hne
      exact hne heq
    | .value v =>
      obtain ⟨w, hagree, hne⟩ := exists_agree_ne v .other 0 hexp
      rw [stored_zero, stored_zero] at hne
      exact hne (hsecure (.value w) hagree)
  · intro hexp d' hagree
    match d, d' with
    | .response (some r), .response (some r') =>
      obtain ⟨hstatus, hheaders, hcookies, hbody⟩ := hagree
      have hred := stored_eq_of_agree r.body r'.body .other 0 hexp hbody
      rw [stored_zero, stored_zero] at hred
      simp only [emitData, redactHTTPResponse, hred, hstatus, redactHeaders_eq hheaders, redactCookies_eq hcookies]
    | .value v, .value w =>
      have hred := stored_eq_of_agree v w .other 0 hexp hagree
      rw [stored_zero, stored_zero] at hred
      exact hred
    | .response none, d' => rw [show Data.response none = d' from hagree]
    | .response (some r), .response none => exact nomatch hagree
    | .response (some r), .value w => exact nomatch hagree
    | .value v, .response r => exact nomatch hagree

/-! ### A sample -/

def asciiCase : CaseMap := ⟨Char.toLower, fun _ _ => rfl⟩

/-- A cookie object under the key `cookie` of a `map[string]map[string]any`. -/
def typedCookie (token : String) : Value :=
  .map (.concrete "map[string]any") [("cookie", .map .any [("name", .str "session"), ("value", .str token)])]

/-- The branch for concretely typed maps shows the value of a cookie. -/
theorem redaction_leaks : (Data.value (typedCookie "secret-1")).Agree asciiCase (.value (typedCookie "secret-2")) ∧
    emitData asciiCase (.value (typedCookie "secret-1")) ≠ emitData asciiCase (.value (typedCookie "secret-2")) := by
  have hcookie : isCookieContainerKey asciiCase "cookie" = true := by decide +kernel
  have hother : isCookieContainerKey asciiCase "name" = false ∧ isCookieContainerKey asciiCase "value" = false := by
    decide +kernel
  have hkeys : isSensitiveKey asciiCase "cookie" = false ∧ isSensitiveKey asciiCase "name" = false ∧
      isSensitiveKey asciiCase "value" = false := by decide +kernel
  constructor
  · simp [typedCookie, Data.Agree, Agree, AgreeEntries, hcookie, isCookieShapedMap]
  · simp [typedCookie, emitData, redactValue, redactValueDepth, redactMapRange, redactStringMap, redactContained,
      maxRedactDepth, hkeys, hother]

end Noda.Trace
