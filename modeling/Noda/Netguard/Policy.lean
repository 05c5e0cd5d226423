import Noda.Lib.Cidr
import Noda.Lib.Strconv

/-!
# Outbound network policy

Which addresses a workflow may dial.  The metadata addresses and the blocks that are always denied stay blocked; the
private blocks are open if the policy allows private networks, or to the hosts that it lists.

An address is judged by what it means, in either of its forms: `ipDenied_iff` for a literal and `firstAllowed_eq_some`,
`firstAllowed_eq_none` for the answer of a resolver, both against one predicate (`Permitted`).
-/

namespace Noda.Netguard

open Cidr

structure Policy where
  allowPrivateNetworks : Bool
  allowedHosts : List String

/-- An error, and whether it is an `ErrDenied`. -/
structure Error where
  text : String
  denied : Bool

/-- `net.IPAddr`. -/
structure IPAddr where
  ip : IP
  zone : String

/-- The text of `ErrDenied`. -/
def errDenied : String := "netguard: destination denied by policy"

/-- An address and the length of its prefix: what a CIDR says. -/
abbrev CIDR := IP × ℕ

def ip4 (a b c d : UInt8) : IP := ⟨[a, b, c, d], .inl rfl⟩

/-- The IPv6 address with these first two bytes and this last byte, and zeros between them. -/
def ip6 (a b z : UInt8) : IP := ⟨[a, b, 0, 0, 0, 0, 0, 0, 0, 0, 0, 0, 0, 0, 0, z], .inr rfl⟩

def metadataIPs : List IP := [.ipv4 169 254 169 254, .ipv4 100 100 100 200]

def privateCIDRs : List CIDR :=
  [(ip4 127 0 0 0, 8),
   (ip6 0 0 1, 128),        -- ::1/128
   (ip4 169 254 0 0, 16),
   (ip6 0xfe 0x80 0, 10),   -- fe80::/10
   (ip4 10 0 0 0, 8),
   (ip4 172 16 0 0, 12),
   (ip4 192 168 0 0, 16),
   (ip6 0xfc 0 0, 7),       -- fc00::/7
   (ip4 100 64 0 0, 10)]

def alwaysDeniedCIDRs : List CIDR :=
  [(ip4 0 0 0 0, 32),
   (ip6 0 0 0, 128),        -- ::/128
   (ip4 255 255 255 255, 32)]

def mustParseCIDRs (cidrs : List CIDR) : List IPNet := cidrs.map fun c => cidr c.1 c.2

def privateBlocks : List IPNet := mustParseCIDRs privateCIDRs

def alwaysDenied : List IPNet := mustParseCIDRs alwaysDeniedCIDRs

def ipInBlocks (ip : IP) (blocks : List IPNet) : Bool := blocks.any fun b => b.contains ip

def ipIsMetadata (ip : IP) : Bool := metadataIPs.any fun m => m.equal ip

/-- The loop of `checkHostWithLookup` over the addresses. -/
def Policy.firstAllowed (p : Policy) (hostAllowed : Bool) : List IPAddr → Option IP
  | [] => none
  | a :: addrs =>
    if ipIsMetadata a.ip then p.firstAllowed hostAllowed addrs
    else if ipInBlocks a.ip alwaysDenied then p.firstAllowed hostAllowed addrs
    else if !p.allowPrivateNetworks && !hostAllowed && ipInBlocks a.ip privateBlocks then
      p.firstAllowed hostAllowed addrs
    else some a.ip

def Policy.checkHostWithLookup (p : Policy) (host : String) (lookup : String → Except String (List IPAddr)) :
    Except Error IP :=
  let hostAllowed := p.allowedHosts.contains host
  match lookup host with
  | .error err => .error ⟨"netguard: resolve " ++ host.goQuote ++ ": " ++ err, false⟩
  | .ok addrs =>
    match p.firstAllowed hostAllowed addrs with
    | some ip => .ok ip
    | none => .error ⟨errDenied ++ ": host " ++ host.goQuote ++ " resolved to no allowed addresses " ++
        "(set allow_private_networks: true or add to allowed_hosts to permit)", true⟩

def Policy.ipDenied (p : Policy) : Option IP → Bool
  | none => true
  | some ip =>
    if ipIsMetadata ip then true
    else if ipInBlocks ip alwaysDenied then true
    else if !p.allowPrivateNetworks && ipInBlocks ip privateBlocks then true
    else false

/-! ### What the policy permits -/

def InBlocks (cidrs : List CIDR) (a : Address) : Prop := ∃ c ∈ cidrs, Block.Contains ⟨c.1.address, c.2⟩ a

/-- The policy permits the address; `listed` tells whether the host is one of those that it lists. -/
structure Permitted (p : Policy) (listed : Prop) (a : Address) : Prop where
  not_metadata : ∀ m ∈ metadataIPs, a ≠ m.address
  not_denied : ¬ InBlocks alwaysDeniedCIDRs a
  private_only : InBlocks privateCIDRs a → p.allowPrivateNetworks = true ∨ listed

private theorem ipIsMetadata_iff {ip : IP} : ipIsMetadata ip = true ↔ ∃ m ∈ metadataIPs, ip.address = m.address := by
  rw [ipIsMetadata, List.any_eq_true]
  refine exists_congr fun m => and_congr_right fun _ => ?_
  rw [IP.equal_iff, eq_comm]

/-- The CIDR is one that the blocks are read off: a prefix of its address, which is in its short form. -/
def Readable (c : CIDR) : Prop :=
  c.2 ≤ 8 * c.1.bytes.length ∧ c.1.short = c.1.bytes ∧ (cidr c.1 c.2).ip.short = (cidr c.1 c.2).ip.bytes

instance (c : CIDR) : Decidable (Readable c) := inferInstanceAs (Decidable (_ ∧ _ ∧ _))

private theorem ipInBlocks_iff {cidrs : List CIDR} (h : ∀ c ∈ cidrs, Readable c) {ip : IP} :
    ipInBlocks ip (mustParseCIDRs cidrs) = true ↔ InBlocks cidrs ip.address := by
  rw [ipInBlocks, mustParseCIDRs, List.any_map, List.any_eq_true]
  refine exists_congr fun c => and_congr_right fun hc => ?_
  obtain ⟨hones, hbase, hip⟩ := h c hc
  exact contains_cidr hones hbase hip ip

private theorem ipInBlocks_privateBlocks {ip : IP} :
    ipInBlocks ip privateBlocks = true ↔ InBlocks privateCIDRs ip.address := by
  exact ipInBlocks_iff (by decide)

private theorem ipInBlocks_alwaysDenied {ip : IP} :
    ipInBlocks ip alwaysDenied = true ↔ InBlocks alwaysDeniedCIDRs ip.address := by
  exact ipInBlocks_iff (by decide)

/-- The three checks, in terms of what the address means. -/
private theorem permitted_iff {p : Policy} {listed : Prop} {ip : IP} :
    Permitted p listed ip.address ↔ ipIsMetadata ip = false ∧ ipInBlocks ip alwaysDenied = false ∧
      (ipInBlocks ip privateBlocks = true → p.allowPrivateNetworks = true ∨ listed) := by
  rw [← Bool.not_eq_true, ← Bool.not_eq_true, ipIsMetadata_iff, ipInBlocks_alwaysDenied, ipInBlocks_privateBlocks]
  push Not
  exact ⟨fun h => ⟨h.not_metadata, h.not_denied, h.private_only⟩, fun h => ⟨h.1, h.2.1, h.2.2⟩⟩

/-- A literal is denied exactly if the policy does not permit it, whatever hosts it lists. -/
theorem ipDenied_iff {p : Policy} {ip : IP} : p.ipDenied (some ip) = true ↔ ¬ Permitted p False ip.address := by
  rw [permitted_iff, Policy.ipDenied]
  cases ipIsMetadata ip <;> cases ipInBlocks ip alwaysDenied <;> cases p.allowPrivateNetworks <;>
    cases ipInBlocks ip privateBlocks <;> simp

example : (Policy.mk false []).ipDenied (some (ip4 10 0 0 1)) = true ∧
    (Policy.mk false []).ipDenied (some (.ipv4 10 0 0 1)) = true ∧
    (Policy.mk true []).ipDenied (some (.ipv4 100 100 100 200)) = true := by decide

theorem Policy.firstAllowed_cons (p : Policy) {hostAllowed : Bool} (a : IPAddr) (addrs : List IPAddr) :
    (Permitted p (hostAllowed = true) a.ip.address ∧ p.firstAllowed hostAllowed (a :: addrs) = some a.ip) ∨
      (¬ Permitted p (hostAllowed = true) a.ip.address ∧
        p.firstAllowed hostAllowed (a :: addrs) = p.firstAllowed hostAllowed addrs) := by
  rw [permitted_iff, Policy.firstAllowed]
  cases ipIsMetadata a.ip <;> cases ipInBlocks a.ip alwaysDenied <;> cases p.allowPrivateNetworks <;>
    cases hostAllowed <;> cases ipInBlocks a.ip privateBlocks <;> simp

theorem firstAllowed_eq_some {p : Policy} {hostAllowed : Bool} {addrs : List IPAddr} {ip : IP}
    (h : p.firstAllowed hostAllowed addrs = some ip) :
    (∃ a ∈ addrs, a.ip = ip) ∧ Permitted p (hostAllowed = true) ip.address := by
  induction addrs with
  | nil => cases h
  | cons a addrs ih =>
    rcases p.firstAllowed_cons a addrs with ⟨hp, hf⟩ | ⟨-, hf⟩ <;> rw [hf] at h
    · obtain rfl := Option.some.inj h
      exact ⟨⟨a, List.mem_cons_self, rfl⟩, hp⟩
    · obtain ⟨⟨a', ha', hip⟩, hp⟩ := ih h
      exact ⟨⟨a', List.mem_cons_of_mem _ ha', hip⟩, hp⟩

theorem firstAllowed_eq_none {p : Policy} {hostAllowed : Bool} {addrs : List IPAddr}
    (h : p.firstAllowed hostAllowed addrs = none) :
    ∀ a ∈ addrs, ¬ Permitted p (hostAllowed = true) a.ip.address := by
  induction addrs with
  | nil => simp
  | cons a addrs ih =>
    rcases p.firstAllowed_cons a addrs with ⟨-, hf⟩ | ⟨hp, hf⟩ <;> rw [hf] at h
    · cases h
    · exact List.forall_mem_cons.2 ⟨hp, ih h⟩

end Noda.Netguard
