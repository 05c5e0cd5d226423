import Noda.Lib.GoMap

/-!
# Redirects of the HTTP client

`buildCheckRedirect` with `sameOrigin` and `stripAuthHeaders`, and the part of `net/http` that calls it: each redirected
request starts with the headers of the initial request, without those that `net/http` itself holds back from foreign
hosts, and the check may edit it before it is sent.

In the mode `strip_auth` the check compares the target with the request before, not with the initial one.  The second of
two redirects to one foreign origin is sent with the credentials (`redirect_leaks`); without such a pair of redirects no
credentials leave the origin of the initial request (`redirects_strip_auth_iff`).
-/

namespace Noda.Http

/-! ### URLs and headers -/

/-- `url.URL`, as far as the client reads it: the scheme, `Hostname()` and `Port()`. -/
structure URL where
  scheme : String
  hostname : String
  port : String
  port_digits : ∀ c ∈ port.toList, c.isDigit = true

/-- `http.Header`. -/
abbrev Header := GoMap (List String)

structure Request where
  url : URL
  header : Header

/-- The port, or the default one of the scheme. -/
def URL.portNormalised (u : URL) : String :=
  if u.port = "" then if u.scheme = "http" then "80" else if u.scheme = "https" then "443" else "" else u.port

def hostPortNormalised (u : URL) : String := u.hostname ++ ":" ++ u.portNormalised

def sameOrigin (a b : URL) : Bool := a.scheme = b.scheme ∧ hostPortNormalised a = hostPortNormalised b

def originString (u : URL) : String := u.scheme ++ "://" ++ hostPortNormalised u

/-- The bytes of a header name. -/
def validHeaderFieldByte (c : Char) : Bool := c.isAlphanum || "!#$%&'*+-.^_`|~".toList.contains c

/-- The letters of a header name, in upper case after a hyphen and at the beginning, else in lower case. -/
def canonicalLoop : Bool → List Char → List Char
  | _, [] => []
  | upper, c :: cs =>
    let c' := if upper then c.toUpper else c.toLower
    c' :: canonicalLoop (c' = '-') cs

/-- `http.CanonicalHeaderKey`: a name with other bytes is left as it is. -/
def canonicalHeaderKey (s : String) : String :=
  if s.toList.all validHeaderFieldByte then String.ofList (canonicalLoop true s.toList) else s

/-- `Header.Del`. -/
def Header.del (h : Header) (key : String) : Header := h.erase (canonicalHeaderKey key)

def authHeaderNames : List String := ["Authorization", "Cookie", "Proxy-Authorization", "X-Api-Key", "X-Auth-Token"]

/-- The name of a header `X-*-Token` or `X-*-Key`. -/
def isTokenHeader (canon : String) : Bool :=
  "X-".toList.isPrefixOf canon.toList &&
    ("-Token".toList.isSuffixOf canon.toList || "-Key".toList.isSuffixOf canon.toList)

/-- `stripAuthHeaders`.  The loop deletes entries of the map it ranges over: an entry that is gone when its turn comes
would be deleted again, so the keys may be listed before. -/
def stripAuthHeaders (h : Header) : Header :=
  let h := authHeaderNames.foldl Header.del h
  h.keys.foldl (fun h k => if isTokenHeader (canonicalHeaderKey k) then h.del k else h) h

/-! ### The check -/

/-- The modes, with any other string in the place of one. -/
inductive RedirectMode where
  | none
  | sameOrigin
  | stripAuth
  | unknown (mode : String)
  deriving DecidableEq, Repr

/-- What the check returns in the place of a request to send. -/
inductive RedirectError where
  | useLastResponse
  | message (text : String)
  | panicked
  deriving DecidableEq, Repr

/-- `buildCheckRedirect`: the request to send, from the one that `net/http` proposes and the ones before, the oldest
first. -/
def checkRedirect (mode : RedirectMode) (max : Int) (req : Request) (via : List Request) :
    Except RedirectError Request :=
  match mode with
  | .none => .error .useLastResponse
  | .sameOrigin =>
    if (via.length : Int) ≥ max then .error (.message ("http: max redirects (" ++ toString max ++ ") exceeded"))
    else
      match via.head? with
      | .none => .error .panicked
      | some first =>
        if Noda.Http.sameOrigin req.url first.url then .ok req
        else .error (.message ("http: cross-origin redirect denied: " ++ originString first.url ++ " -> " ++
          originString req.url))
  | .stripAuth =>
    if (via.length : Int) ≥ max then .error (.message ("http: max redirects (" ++ toString max ++ ") exceeded"))
    else
      match via.getLast? with
      | .none => .error .panicked
      | some last =>
        if Noda.Http.sameOrigin req.url last.url then .ok req
        else .ok { req with header := stripAuthHeaders req.header }
  | .unknown mode => .error (.message ("http: unknown redirect mode \"" ++ mode ++ "\""))

/-! ### The client -/

/-- The headers that `net/http` holds back from foreign hosts. -/
def sensitiveHeaders : List String := ["Authorization", "Cookie", "Www-Authenticate"]

def isDomainOrSubdomain (target initial : URL) : Bool :=
  target.hostname = initial.hostname || ("." ++ initial.hostname).toList.isSuffixOf target.hostname.toList

/-- `net/http` does not send the header to the target. -/
def holdsBack (initial target : URL) (k : String) : Bool :=
  sensitiveHeaders.contains (canonicalHeaderKey k) && !isDomainOrSubdomain target initial

/-- The request that `net/http` proposes for a redirect to the target. -/
def redirected (initial : Request) (target : URL) : Request where
  url := target
  header := initial.header.keys.foldl
    (fun h k => if holdsBack initial.url target k then h.erase k else h) initial.header

/-- The requests sent, the oldest first, when the servers redirect to the targets in turn. -/
def follow (check : Request → List Request → Except RedirectError Request) (initial : Request) :
    List Request → List URL → List Request
  | via, [] => via
  | via, target :: targets =>
    match check (redirected initial target) via with
    | .error _ => via
    | .ok req => follow check initial (via ++ [req]) targets

def sent (mode : RedirectMode) (max : Int) (initial : Request) (targets : List URL) : List Request :=
  follow (checkRedirect mode max) initial [initial] targets

/-! ### Origins -/

def URL.origin (u : URL) : String × String × String := (u.scheme, u.hostname, u.portNormalised)

private theorem colon_not_mem_port (u : URL) : ':' ∉ u.portNormalised.toList := by
  unfold URL.portNormalised
  split_ifs
  · decide
  · decide
  · decide
  · intro h
    exact absurd (u.port_digits ':' h) (by decide)

private theorem append_colon_inj {h₁ h₂ p₁ p₂ : List Char} (hp₁ : ':' ∉ p₁) (hp₂ : ':' ∉ p₂)
    (h : h₁ ++ ':' :: p₁ = h₂ ++ ':' :: p₂) : h₁ = h₂ ∧ p₁ = p₂ := by
  rcases List.append_eq_append_iff.1 h with ⟨as, rfl, has⟩ | ⟨as, rfl, has⟩
  · cases as with
    | nil => simpa using has
    | cons c as =>
      rw [List.cons_append, List.cons.injEq] at has
      exact absurd (has.2 ▸ by simp) hp₁
  · cases as with
    | nil => simpa [eq_comm] using has
    | cons c as =>
      rw [List.cons_append, List.cons.injEq] at has
      exact absurd (has.2 ▸ by simp) hp₂

private theorem sameOrigin_iff {a b : URL} : sameOrigin a b = true ↔ a.origin = b.origin := by
  simp only [sameOrigin, decide_eq_true_eq, URL.origin, Prod.mk.injEq]
  refine and_congr_right fun _ => ⟨fun h => ?_, fun ⟨hh, hp⟩ => by rw [hostPortNormalised, hh, hp, hostPortNormalised]⟩
  have hl : a.hostname.toList ++ ':' :: a.portNormalised.toList =
      b.hostname.toList ++ ':' :: b.portNormalised.toList := by
    simpa [hostPortNormalised] using congrArg String.toList h
  obtain ⟨hh, hp⟩ := append_colon_inj (colon_not_mem_port a) (colon_not_mem_port b) hl
  exact ⟨String.ext hh, String.ext hp⟩

/-! ### Headers -/

/-- Only ASCII letters have a case. -/
private theorem case_of_le {c : Char} (h : 128 ≤ c.toNat) : c.toUpper = c ∧ c.toLower = c := by
  constructor
  · refine dif_neg fun hc => ?_
    have : c.toNat ≤ 122 := hc.2
    omega
  · refine dif_neg fun hc => ?_
    have : c.toNat ≤ 90 := hc.2
    omega

private theorem case_valid (c : Char) : (validHeaderFieldByte c = true → validHeaderFieldByte c.toUpper = true ∧
    validHeaderFieldByte c.toLower = true) ∧ c.toUpper.toUpper = c.toUpper ∧ c.toLower.toLower = c.toLower := by
  by_cases hc : c.toNat < 128
  · have hall : ∀ n < 128, (validHeaderFieldByte (Char.ofNat n) = true →
        validHeaderFieldByte (Char.ofNat n).toUpper = true ∧ validHeaderFieldByte (Char.ofNat n).toLower = true) ∧
        (Char.ofNat n).toUpper.toUpper = (Char.ofNat n).toUpper ∧
        (Char.ofNat n).toLower.toLower = (Char.ofNat n).toLower := by
      decide +kernel
    simpa using hall c.toNat hc
  · obtain ⟨hu, hl⟩ := case_of_le (Nat.le_of_not_lt hc)
    simp only [hu, hl, and_self, imp_self]

private theorem canonicalLoop_valid (upper : Bool) {cs : List Char} (h : cs.all validHeaderFieldByte = true) :
    (canonicalLoop upper cs).all validHeaderFieldByte = true := by
  induction cs generalizing upper with
  | nil => rfl
  | cons c cs ih =>
    rw [List.all_cons, Bool.and_eq_true] at h
    obtain ⟨hu, hl⟩ := (case_valid c).1 h.1
    rw [canonicalLoop, List.all_cons, Bool.and_eq_true]
    refine ⟨?_, ih _ h.2⟩
    cases upper with
    | true => exact hu
    | false => exact hl

private theorem canonicalLoop_idem (upper : Bool) (cs : List Char) :
    canonicalLoop upper (canonicalLoop upper cs) = canonicalLoop upper cs := by
  induction cs generalizing upper with
  | nil => rfl
  | cons c cs ih =>
    obtain ⟨-, hu, hl⟩ := case_valid c
    cases upper with
    | true => simp only [canonicalLoop, if_true, hu, ih]
    | false => simp only [canonicalLoop, if_false, hl, ih, Bool.false_eq_true]

private theorem canonicalHeaderKey_idem (k : String) :
    canonicalHeaderKey (canonicalHeaderKey k) = canonicalHeaderKey k := by
  by_cases h : k.toList.all validHeaderFieldByte = true
  · have hk : canonicalHeaderKey k = String.ofList (canonicalLoop true k.toList) := if_pos h
    rw [hk, canonicalHeaderKey, String.toList_ofList, if_pos (canonicalLoop_valid true h), canonicalLoop_idem]
  · have hk : canonicalHeaderKey k = k := if_neg h
    rw [hk, hk]

/-- The headers that `stripAuthHeaders` removes. -/
def isAuthHeader (k : String) : Bool := k ∈ authHeaderNames ∨ canonicalHeaderKey k = k ∧ isTokenHeader k = true

private theorem mem_stripAuthHeaders {h : Header} {k : String} :
    k ∈ stripAuthHeaders h ↔ k ∈ h ∧ isAuthHeader k = false := by
  have hnames : k ∈ authHeaderNames.foldl Header.del h ↔ k ∈ h ∧ k ∉ authHeaderNames := by
    have hfold := AList.mem_foldl_erase (fun _ => true) canonicalHeaderKey authHeaderNames h (k := k)
    simp only [if_true, forall_const] at hfold
    refine hfold.trans (and_congr_right fun _ => ?_)
    have hcanon : ∀ x ∈ authHeaderNames, canonicalHeaderKey x = x := by decide +kernel
    exact ⟨fun hx hk => hx k hk (hcanon k hk), fun hk x hx heq => hk (heq ▸ (hcanon x hx).symm ▸ hx)⟩
  have htoken := AList.mem_foldl_erase (fun x => isTokenHeader (canonicalHeaderKey x)) canonicalHeaderKey
    (authHeaderNames.foldl Header.del h).keys (authHeaderNames.foldl Header.del h) (k := k)
  refine htoken.trans ?_
  rw [hnames, isAuthHeader, decide_eq_false_iff_not, not_or, and_assoc]
  refine and_congr_right fun hk => and_congr_right fun hno => ⟨fun hx hauth => ?_, fun hauth x _ hx heq => ?_⟩
  · exact hx k (AList.mem_keys.1 (hnames.2 ⟨hk, hno⟩)) (by rw [hauth.1]; exact hauth.2) hauth.1
  · exact hauth ⟨heq ▸ canonicalHeaderKey_idem x, heq ▸ hx⟩

private theorem mem_redirected {initial : Request} {target : URL} {k : String} :
    k ∈ (redirected initial target).header ↔ k ∈ initial.header ∧ holdsBack initial.url target k = false := by
  refine (AList.mem_foldl_erase (holdsBack initial.url target) id initial.header.keys initial.header).trans ?_
  refine and_congr_right fun hk => ⟨fun h => ?_, fun h x _ hx heq => ?_⟩
  · by_contra hb
    exact h k (AList.mem_keys.1 hk) (by simpa using hb) rfl
  · rw [← heq] at h
    exact absurd (hx.symm.trans h) (by decide)

/-! ### Chains of redirects -/

/-- The request that is sent to `target` after one to `last`. -/
def hop (initial : Request) (last target : URL) : Request :=
  if sameOrigin target last then redirected initial target
  else { redirected initial target with header := stripAuthHeaders (redirected initial target).header }

/-- The requests that are sent to the targets in turn. -/
def hops (initial : Request) : URL → List URL → List Request
  | _, [] => []
  | last, target :: targets => hop initial last target :: hops initial target targets

private theorem hop_url (initial : Request) (last target : URL) : (hop initial last target).url = target := by
  unfold hop
  split_ifs
  · rfl
  · rfl

private theorem follow_stripAuth (max : Int) (initial : Request) {via : List Request} {last : Request}
    (hlast : via.getLast? = some last) (targets : List URL) :
    follow (checkRedirect .stripAuth max) initial via targets =
      via ++ hops initial last.url (targets.take (max - via.length).toNat) := by
  induction targets generalizing via last with
  | nil => simp [follow, hops]
  | cons target targets ih =>
    by_cases hmax : (via.length : Int) ≥ max
    · have hzero : (max - via.length).toNat = 0 := by omega
      rw [follow, checkRedirect, if_pos hmax, hzero]
      simp [hops]
    · obtain ⟨n, hn⟩ : ∃ n, (max - via.length).toNat = n + 1 := ⟨(max - via.length).toNat - 1, by omega⟩
      have hcheck : checkRedirect .stripAuth max (redirected initial target) via =
          .ok (hop initial last.url target) := by
        simp only [checkRedirect, hlast, if_neg hmax, hop]
        split_ifs with h₁ h₂ h₃
        · rfl
        · exact absurd h₁ h₂
        · exact absurd h₃ h₁
        · rfl
      have hrest : (max - (via ++ [hop initial last.url target]).length).toNat = n := by
        rw [List.length_append, List.length_singleton]
        omega
      rw [follow, hcheck]
      dsimp only
      have hnext : (via ++ [hop initial last.url target]).getLast? = some (hop initial last.url target) := by simp
      rw [ih hnext, hrest, hn, List.take_succ_cons, hops, hop_url]
      simp

private theorem sent_stripAuth (max : Int) (initial : Request) (targets : List URL) :
    sent .stripAuth max initial targets = initial :: hops initial initial.url (targets.take (max - 1).toNat) := by
  have hlast : [initial].getLast? = some initial := rfl
  rw [sent, follow_stripAuth max initial hlast]
  rfl

private theorem mem_hops {initial r : Request} {last : URL} {targets : List URL} :
    r ∈ hops initial last targets ↔ ∃ u v, [u, v] <:+: last :: targets ∧ r = hop initial u v := by
  induction targets generalizing last with
  | nil =>
    simp only [hops, List.not_mem_nil, false_iff, not_exists, not_and]
    intro u v h
    have := h.length_le
    simp at this
  | cons target targets ih =>
    rw [hops, List.mem_cons, ih]
    constructor
    · rintro (rfl | ⟨u, v, h, rfl⟩)
      · exact ⟨last, target, ⟨[], targets, rfl⟩, rfl⟩
      · exact ⟨u, v, List.infix_cons h, rfl⟩
    · rintro ⟨u, v, h, rfl⟩
      rcases List.infix_cons_iff.1 h with h | h
      · obtain ⟨rest, hrest⟩ := h
        obtain ⟨rfl, rfl, -⟩ : u = last ∧ v = target ∧ rest = targets := by simpa using hrest
        exact .inl rfl
      · exact .inr ⟨u, v, h, rfl⟩

/-- No request to another origin than the initial one carries a header that `stripAuthHeaders` removes. -/
def StripsAuth (max : Int) (initial : Request) (targets : List URL) : Prop :=
  ∀ r ∈ sent .stripAuth max initial targets, r.url.origin ≠ initial.url.origin →
    ∀ k ∈ r.header, k ∈ stripAuthHeaders r.header

/-- A hop carries no such header if it goes to another origin than the last one, or if `net/http` holds them back. -/
private theorem hop_strips_iff {initial : Request} {last target : URL} :
    (∀ k ∈ (hop initial last target).header, k ∈ stripAuthHeaders (hop initial last target).header) ↔
      (last.origin = target.origin → ∀ k ∈ initial.header, k ∉ stripAuthHeaders initial.header →
        holdsBack initial.url target k = true) := by
  unfold hop
  split_ifs with h
  · have horigin : last.origin = target.origin := (sameOrigin_iff.1 h).symm
    simp only [mem_stripAuthHeaders, mem_redirected, horigin, forall_const]
    constructor
    · intro hall k hk hauth
      by_contra hb
      have := hall k ⟨hk, by simpa using hb⟩
      exact hauth ⟨hk, this.2⟩
    · intro hall k hk
      refine ⟨hk, ?_⟩
      by_contra hauth
      exact absurd (hall k hk.1 fun hs => hauth hs.2) (by simp [hk.2])
  · have horigin : last.origin ≠ target.origin := fun heq => h (sameOrigin_iff.2 heq.symm)
    simp only [mem_stripAuthHeaders, horigin, false_imp_iff, iff_true]
    exact fun k hk => ⟨hk, hk.2⟩

/-- No credentials leave the origin of the initial request exactly if the chain, as far as the hop limit lets it go,
has no two redirects in a row to one foreign origin, or the initial request has no header that `stripAuthHeaders`
removes and `net/http` would send there. -/
theorem redirects_strip_auth_iff (max : Int) (initial : Request) (targets : List URL) :
    StripsAuth max initial targets ↔ ∀ u v, [u, v] <:+: targets.take (max - 1).toNat → u.origin = v.origin →
      v.origin ≠ initial.url.origin → ∀ k ∈ initial.header, k ∉ stripAuthHeaders initial.header →
        holdsBack initial.url v k = true := by
  unfold StripsAuth
  rw [sent_stripAuth]
  constructor
  · intro h u v huv horigin hforeign
    have hmem : hop initial u v ∈ hops initial initial.url (targets.take (max - 1).toNat) :=
      mem_hops.2 ⟨u, v, List.infix_cons huv, rfl⟩
    exact hop_strips_iff.1 (h _ (List.mem_cons_of_mem _ hmem) (by rwa [hop_url])) horigin
  · intro h r hr hforeign
    rcases List.mem_cons.1 hr with rfl | hr
    · exact absurd rfl hforeign
    · obtain ⟨u, v, huv, rfl⟩ := mem_hops.1 hr
      rw [hop_url] at hforeign
      refine hop_strips_iff.2 fun horigin => ?_
      rcases List.infix_cons_iff.1 huv with hpre | huv
      · -- the first redirect is compared with the initial request
        obtain ⟨rest, hrest⟩ := hpre
        obtain ⟨rfl, -⟩ := List.cons.inj hrest
        exact absurd horigin.symm hforeign
      · exact h u v huv horigin hforeign

/-! ### A sample -/

def apiURL : URL := ⟨"https", "api.example.com", "", List.forall_mem_nil _⟩

def cdnURL : URL := ⟨"https", "cdn.example.net", "", List.forall_mem_nil _⟩

def keyRequest : Request := ⟨apiURL, GoMap.ofPairs [("X-Api-Key", ["k1"])]⟩

/-- A server of another origin redirects to itself: its second request carries the key. -/
theorem redirect_leaks : ¬StripsAuth 10 keyRequest [cdnURL, cdnURL] := by
  intro h
  have hmem : hop keyRequest cdnURL cdnURL ∈ sent .stripAuth 10 keyRequest [cdnURL, cdnURL] := by
    rw [sent_stripAuth]
    simp [hops]
  have hstrips := h _ hmem (by rw [hop_url]; decide)
  have hheld := hop_strips_iff.1 hstrips rfl "X-Api-Key" (by decide +kernel)
    (by rw [mem_stripAuthHeaders]; decide +kernel)
  exact absurd hheld (by decide +kernel)

end Noda.Http
