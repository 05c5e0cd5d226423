import Noda.Lib.Strconv
import Noda.Netguard.Policy

/-!
# The guarded transport of the HTTP client

The `DialContext` of `newTransport`: a literal is checked as it is, a hostname is resolved once, and the address that
was checked is the one that is dialed (`dialContext_spec`).
-/

namespace Noda.Http

open Cidr (IP)
open Netguard (Policy IPAddr Permitted errDenied)

/-- The functions of the package `net` that the transport calls. -/
structure Net where
  splitHostPort : String → Except String (String × String)
  parseIP : String → Option IP
  ipString : IP → String

/-- What is dialed: `net.JoinHostPort(ip.String(), port)`. -/
structure Dial where
  ip : IP
  port : String

section

variable (net : Net) (lookup : String → Except String (List IPAddr)) (policy : Policy)

/-- `base.DialContext`, as far as the call of the dialer. -/
def dialContext (address : String) : Except Netguard.Error Dial :=
  match net.splitHostPort address with
  | .error err => .error ⟨"http: parse address " ++ address.goQuote ++ ": " ++ err, false⟩
  | .ok (host, port) =>
    match net.parseIP host with
    | some ip =>
      if policy.ipDenied (some ip) then
        .error ⟨errDenied ++ ": " ++ net.ipString ip ++
          " (set allow_private_networks: true or add hostname to allowed_hosts to permit)", true⟩
      else .ok ⟨ip, port⟩
    | none =>
      match policy.checkHostWithLookup host lookup with
      | .error err => .error err
      | .ok ip => .ok ⟨ip, port⟩

/-- The addresses of a host: the literal itself, or the answer of the resolver. -/
def answer (host : String) : List IP :=
  match net.parseIP host with
  | some ip => [ip]
  | none =>
    match lookup host with
    | .error _ => []
    | .ok addrs => addrs.map IPAddr.ip

def Listed (host : String) : Prop := net.parseIP host = none ∧ host ∈ policy.allowedHosts

end

variable {net : Net} {lookup : String → Except String (List IPAddr)} {policy : Policy} {host : String}

private theorem listed_literal {ip : IP} (h : net.parseIP host = some ip) : Listed net policy host ↔ False := by
  simp [Listed, h]

private theorem listed_hostname (h : net.parseIP host = none) :
    Listed net policy host ↔ policy.allowedHosts.contains host = true := by
  simp [Listed, h]

/-- A resolved host: the address that is dialed is one of the answer and permitted. -/
private theorem checkHostWithLookup_ok {ip : IP} (hhost : net.parseIP host = none)
    (h : policy.checkHostWithLookup host lookup = .ok ip) :
    ip ∈ answer net lookup host ∧ Permitted policy (Listed net policy host) ip.address := by
  simp only [listed_hostname hhost, answer, hhost]
  rw [Policy.checkHostWithLookup] at h
  cases hlookup : lookup host with
  | error err => simp [hlookup] at h
  | ok addrs =>
    simp only [hlookup] at h
    cases hfirst : policy.firstAllowed (policy.allowedHosts.contains host) addrs with
    | none =>
      simp only [hfirst] at h
      cases h
    | some ip' =>
      simp only [hfirst] at h
      obtain rfl : ip' = ip := Except.ok.inj h
      obtain ⟨⟨a, ha, hip⟩, hp⟩ := Netguard.firstAllowed_eq_some hfirst
      exact ⟨List.mem_map.2 ⟨a, ha, hip⟩, hp⟩

/-- A host that is refused: the policy permits no address of the answer, if there is one. -/
private theorem checkHostWithLookup_error {err : Netguard.Error} (hhost : net.parseIP host = none)
    (h : policy.checkHostWithLookup host lookup = .error err) :
    ∀ ip ∈ answer net lookup host, ¬ Permitted policy (Listed net policy host) ip.address := by
  simp only [listed_hostname hhost, answer, hhost]
  rw [Policy.checkHostWithLookup] at h
  cases hlookup : lookup host with
  | error text => simp
  | ok addrs =>
    simp only [hlookup] at h
    cases hfirst : policy.firstAllowed (policy.allowedHosts.contains host) addrs with
    | none =>
      intro ip hip
      obtain ⟨a, ha, rfl⟩ := List.mem_map.1 hip
      exact Netguard.firstAllowed_eq_none hfirst a ha
    | some ip =>
      simp only [hfirst] at h
      cases h

/-- Every address that is dialed is one of the host's addresses and permitted, and the policy refuses a dial only if it
permits none of them. -/
theorem dialContext_spec (net : Net) (lookup : String → Except String (List IPAddr)) (policy : Policy)
    (address : String) :
    (∀ dial, dialContext net lookup policy address = .ok dial →
      ∃ host, net.splitHostPort address = .ok (host, dial.port) ∧ dial.ip ∈ answer net lookup host ∧
        Permitted policy (Listed net policy host) dial.ip.address) ∧
    (∀ err, dialContext net lookup policy address = .error err → err.denied = true →
      ∃ host port, net.splitHostPort address = .ok (host, port) ∧
        ∀ ip ∈ answer net lookup host, ¬ Permitted policy (Listed net policy host) ip.address) := by
  rw [dialContext]
  cases hsplit : net.splitHostPort address with
  | error text =>
    refine ⟨fun dial h => absurd h (by simp), fun err h hdenied => ?_⟩
    rw [← Except.error.inj h] at hdenied
    cases hdenied
  | ok hostPort =>
    obtain ⟨host, port⟩ := hostPort
    cases hhost : net.parseIP host with
    | some ip =>
      have hanswer : answer net lookup host = [ip] := by rw [answer, hhost]
      have hip : policy.ipDenied (some ip) = true ↔ ¬ Permitted policy (Listed net policy host) ip.address := by
        rw [listed_literal hhost]
        exact Netguard.ipDenied_iff
      simp only [hhost]
      split_ifs with hdenied
      · refine ⟨fun dial h => absurd h (by simp), fun err _ _ => ⟨host, port, rfl, ?_⟩⟩
        rw [hanswer, List.forall_mem_singleton]
        exact hip.1 hdenied
      · refine ⟨fun dial h => ?_, fun err h => absurd h (by simp)⟩
        obtain rfl := Except.ok.inj h
        exact ⟨host, rfl, hanswer ▸ List.mem_singleton_self ip, not_not.1 fun hp => hdenied (hip.2 hp)⟩
    | none =>
      simp only [hhost]
      cases hcheck : policy.checkHostWithLookup host lookup with
      | error err =>
        refine ⟨fun dial h => absurd h (by simp), fun err' _ _ => ⟨host, port, rfl, ?_⟩⟩
        exact checkHostWithLookup_error hhost hcheck
      | ok ip =>
        refine ⟨fun dial h => ?_, fun err h => absurd h (by simp)⟩
        obtain rfl := Except.ok.inj h
        obtain ⟨hmem, hp⟩ := checkHostWithLookup_ok hhost hcheck
        exact ⟨host, rfl, hmem, hp⟩

end Noda.Http
