import Mathlib.Algebra.Order.Ring.Nat

/-!
# Addresses and blocks of the internet

`net.IP` and `net.IPNet` of the Go standard library: addresses of 4 and of 16 bytes and blocks of addresses with a
mask, compared byte by byte.  A 16-byte address that is mapped from a 4-byte one means the same as that one.

What an address means is a number of 32 or of 128 bits (`Address`), and a block of addresses are those with the same
leading bits (`Block`): `contains_cidr` and `equal_iff`.
-/

namespace Cidr

/-- What an address means, in either form. -/
inductive Address where
  | v4 (n : ℕ)
  | v6 (n : ℕ)
deriving DecidableEq

/-- A block: the addresses that begin with the same bits as `base`. -/
structure Block where
  base : Address
  ones : ℕ

def Block.Contains (block : Block) (a : Address) : Prop :=
  match block.base, a with
  | .v4 m, .v4 n => m / 2 ^ (32 - block.ones) = n / 2 ^ (32 - block.ones)
  | .v6 m, .v6 n => m / 2 ^ (128 - block.ones) = n / 2 ^ (128 - block.ones)
  | _, _ => False

/-- The number that the bytes are the digits of, the highest one first. -/
def number : List UInt8 → ℕ
  | [] => 0
  | b :: bytes => b.toNat * 2 ^ (8 * bytes.length) + number bytes

/-- `net.IP`. -/
structure IP where
  bytes : List UInt8
  length_eq : bytes.length = 4 ∨ bytes.length = 16
deriving DecidableEq

namespace IP

def v4InV6Prefix : List UInt8 := [0, 0, 0, 0, 0, 0, 0, 0, 0, 0, 0xff, 0xff]

/-- `ip.To4()`. -/
def to4 (ip : IP) : Option (List UInt8) :=
  if ip.bytes.length = 4 then some ip.bytes
  else if ip.bytes.take 12 = v4InV6Prefix then some (ip.bytes.drop 12)
  else none

/-- `ip.Equal(x)`. -/
def equal (ip x : IP) : Bool :=
  if ip.bytes.length = x.bytes.length then ip.bytes = x.bytes
  else if ip.bytes.length = 4 then x.bytes.take 12 = v4InV6Prefix ∧ ip.bytes = x.bytes.drop 12
  else ip.bytes.take 12 = v4InV6Prefix ∧ ip.bytes.drop 12 = x.bytes

/-- The shorter form of the address. -/
def short (ip : IP) : List UInt8 := ip.to4.getD ip.bytes

/-- What the address means. -/
def address (ip : IP) : Address :=
  match ip.to4 with
  | some bytes => .v4 (number bytes)
  | none => .v6 (number ip.bytes)

/-- An IPv4 address in 16 bytes, as `net.ParseIP` returns it. -/
def ipv4 (a b c d : UInt8) : IP := ⟨v4InV6Prefix ++ [a, b, c, d], .inr rfl⟩

end IP

/-- `net.CIDRMask`, for a mask of `l` bytes. -/
def cidrMask : (ones l : ℕ) → List UInt8
  | _, 0 => []
  | n, l + 1 => if 8 ≤ n then 0xff :: cidrMask (n - 8) l else ~~~(0xff >>> UInt8.ofNat n) :: cidrMask 0 l

def masked (bytes mask : List UInt8) : List UInt8 := List.zipWith (· &&& ·) bytes mask

/-- `net.IPNet`. -/
structure IPNet where
  ip : IP
  mask : List UInt8

namespace IPNet

def networkNumberAndMask (n : IPNet) : Option (List UInt8 × List UInt8) :=
  let ip := n.ip.short
  if n.mask.length = 4 then
    if ip.length = 4 then some (ip, n.mask) else none
  else if n.mask.length = 16 then
    if ip.length = 4 then some (ip, n.mask.drop 12) else some (ip, n.mask)
  else none

/-- `n.Contains(ip)`. -/
def contains (n : IPNet) (ip : IP) : Bool :=
  match n.networkNumberAndMask with
  | none => false
  | some (nn, m) => ip.short.length = nn.length ∧ masked nn m = masked ip.short m

end IPNet

private theorem length_cidrMask (ones l : ℕ) : (cidrMask ones l).length = l := by
  induction l generalizing ones with
  | zero => rfl
  | succ l ih =>
    rw [cidrMask]
    split_ifs <;> rw [List.length_cons, ih]

private theorem length_masked {bytes : List UInt8} {ones l : ℕ} (h : bytes.length = l) :
    (masked bytes (cidrMask ones l)).length = l := by
  rw [masked, List.length_zipWith, length_cidrMask, h, min_self]

/-- The block of `net.ParseCIDR`, in the form of the address. -/
def cidr (base : IP) (ones : ℕ) : IPNet where
  ip := ⟨masked base.bytes (cidrMask ones base.bytes.length), by rw [length_masked rfl]; exact base.length_eq⟩
  mask := cidrMask ones base.bytes.length

/-! ### Numbers -/

private theorem number_lt (bytes : List UInt8) : number bytes < 2 ^ (8 * bytes.length) := by
  induction bytes with
  | nil => exact Nat.one_pos
  | cons b bytes ih =>
    have hb : b.toNat + 1 ≤ 2 ^ 8 := b.toNat_lt
    have hmul : (b.toNat + 1) * 2 ^ (8 * bytes.length) ≤ 2 ^ 8 * 2 ^ (8 * bytes.length) := Nat.mul_le_mul_right _ hb
    rw [← Nat.pow_add, Nat.add_mul, Nat.one_mul] at hmul
    have hexp : 8 * (b :: bytes).length = 8 + 8 * bytes.length := by rw [List.length_cons]; omega
    rw [number, hexp]
    omega

/-- A number tells its digits. -/
private theorem digits_inj {p x y q r : ℕ} (hq : q < p) (hr : r < p) : x * p + q = y * p + r ↔ x = y ∧ q = r := by
  constructor
  · intro h
    have hx : (x * p + q) / p = x := by
      rw [Nat.mul_comm, Nat.mul_add_div (by omega), Nat.div_eq_of_lt hq, Nat.add_zero]
    have hy : (y * p + r) / p = y := by
      rw [Nat.mul_comm, Nat.mul_add_div (by omega), Nat.div_eq_of_lt hr, Nat.add_zero]
    have hxy : x = y := by rw [← hx, ← hy, h]
    subst hxy
    omega
  · rintro ⟨rfl, rfl⟩
    rfl

private theorem number_inj {a b : List UInt8} (h : a.length = b.length) : number a = number b ↔ a = b := by
  induction a generalizing b with
  | nil =>
    rw [List.length_eq_zero_iff.1 h.symm]
    simp
  | cons x a ih =>
    obtain ⟨y, b, rfl⟩ := List.exists_cons_of_length_eq_add_one h.symm
    have hlen : a.length = b.length := Nat.succ.inj h
    have hb : number b < 2 ^ (8 * a.length) := by rw [hlen]; exact number_lt b
    rw [number, number, ← hlen, digits_inj (number_lt a) hb, ih hlen, UInt8.toNat_inj, List.cons.injEq]

/-! ### Masks -/

private theorem masked_cons (b m : UInt8) (bytes mask : List UInt8) :
    masked (b :: bytes) (m :: mask) = (b &&& m) :: masked bytes mask := rfl

private theorem masked_masked (bytes mask : List UInt8) : masked (masked bytes mask) mask = masked bytes mask := by
  induction bytes generalizing mask with
  | nil => rfl
  | cons b bytes ih =>
    cases mask with
    | nil => rfl
    | cons m mask => rw [masked_cons, masked_cons, ih, UInt8.and_assoc, UInt8.and_self]

/-- The upper bits of a byte. -/
private theorem toNat_and_mask (x : UInt8) {n : ℕ} (hn : n < 8) :
    (x &&& ~~~(0xff >>> UInt8.ofNat n)).toNat = x.toNat / 2 ^ (8 - n) * 2 ^ (8 - n) := by
  have hbytes : ∀ n : Fin 8, ∀ x : Fin 256,
      x.val &&& (~~~(0xff >>> UInt8.ofNat n.val) : UInt8).toNat = x.val / 2 ^ (8 - n.val) * 2 ^ (8 - n.val) := by
    decide +kernel
  rw [UInt8.toNat_and]
  exact hbytes ⟨n, hn⟩ ⟨x.toNat, x.toNat_lt⟩

private theorem and_mask_eq_iff {x y : UInt8} {n : ℕ} (hn : n < 8) :
    x &&& ~~~(0xff >>> UInt8.ofNat n) = y &&& ~~~(0xff >>> UInt8.ofNat n) ↔
      x.toNat / 2 ^ (8 - n) = y.toNat / 2 ^ (8 - n) := by
  rw [← UInt8.toNat_inj, toNat_and_mask x hn, toNat_and_mask y hn]
  exact Nat.mul_left_inj (Nat.pos_iff_ne_zero.1 (Nat.two_pow_pos _))

/-- The leading bits of a number whose first digit is cut. -/
private theorem number_cons_div_of_lt (b : UInt8) (bytes : List UInt8) {n : ℕ} (hn : n < 8) :
    number (b :: bytes) / 2 ^ (8 * (bytes.length + 1) - n) = b.toNat / 2 ^ (8 - n) := by
  have hexp : 8 * (bytes.length + 1) - n = 8 * bytes.length + (8 - n) := by omega
  rw [hexp, Nat.pow_add, ← Nat.div_div_eq_div_mul, number, Nat.mul_comm, Nat.mul_add_div (Nat.two_pow_pos _),
    Nat.div_eq_of_lt (number_lt bytes), Nat.add_zero]

/-- The leading bits of a number that are more than its first digit. -/
private theorem number_cons_div {k : ℕ} (b : UInt8) {bytes : List UInt8} (hk : k ≤ 8 * bytes.length) :
    number (b :: bytes) / 2 ^ k = b.toNat * 2 ^ (8 * bytes.length - k) + number bytes / 2 ^ k := by
  have hexp : 2 ^ (8 * bytes.length) = 2 ^ k * 2 ^ (8 * bytes.length - k) := by
    rw [← Nat.pow_add, Nat.add_sub_cancel' hk]
  rw [number, hexp, Nat.mul_left_comm, Nat.mul_add_div (Nat.two_pow_pos _)]

/-- Two addresses agree under a mask exactly if the leading bits of their numbers agree. -/
private theorem masked_eq_iff {a b : List UInt8} {ones l : ℕ} (ha : a.length = l) (hb : b.length = l)
    (h : ones ≤ 8 * l) :
    masked a (cidrMask ones l) = masked b (cidrMask ones l) ↔
      number a / 2 ^ (8 * l - ones) = number b / 2 ^ (8 * l - ones) := by
  induction l generalizing a b ones with
  | zero =>
    rw [List.length_eq_zero_iff] at ha hb
    rw [ha, hb]
    simp
  | succ l ih =>
    obtain ⟨x, xs, rfl⟩ := List.exists_cons_of_length_eq_add_one ha
    obtain ⟨y, ys, rfl⟩ := List.exists_cons_of_length_eq_add_one hb
    have hxs : xs.length = l := Nat.succ.inj ha
    have hys : ys.length = l := Nat.succ.inj hb
    rw [cidrMask]
    split_ifs with hones
    · -- the first byte is compared as a whole
      have hmask : ∀ z : UInt8, z &&& 0xff = z := fun z => UInt8.and_neg_one
      have hexp : 8 * (l + 1) - ones = 8 * l - (ones - 8) := by omega
      have hlt : ∀ zs : List UInt8, zs.length = l →
          number zs / 2 ^ (8 * l - (ones - 8)) < 2 ^ (8 * l - (8 * l - (ones - 8))) := by
        intro zs hzs
        rw [Nat.div_lt_iff_lt_mul (Nat.two_pow_pos _), ← Nat.pow_add, Nat.sub_add_cancel (Nat.sub_le _ _), ← hzs]
        exact number_lt zs
      rw [masked_cons, masked_cons, List.cons.injEq, hmask, hmask, hexp,
        number_cons_div x (by omega), number_cons_div y (by omega), hxs, hys, digits_inj (hlt xs hxs) (hlt ys hys),
        UInt8.toNat_inj]
      exact and_congr_right fun _ => ih hxs hys (by omega)
    · -- the rest is not compared
      have hrest : masked xs (cidrMask 0 l) = masked ys (cidrMask 0 l) := by
        rw [ih hxs hys (Nat.zero_le _), Nat.sub_zero, ← hxs, Nat.div_eq_of_lt (number_lt xs), hxs, ← hys,
          Nat.div_eq_of_lt (number_lt ys)]
      rw [masked_cons, masked_cons, List.cons.injEq, and_iff_left hrest, and_mask_eq_iff (by omega)]
      rw [← hxs, number_cons_div_of_lt x xs (by omega), hxs, ← hys, number_cons_div_of_lt y ys (by omega)]

/-! ### What the two forms mean -/

namespace IP

variable {ip x : IP}

private theorem short_of_length (h : ip.bytes.length = 4) : ip.short = ip.bytes := by
  rw [short, to4, if_pos h]
  rfl

private theorem short_of_mapped (h : ip.bytes.length = 16) (hm : ip.bytes.take 12 = v4InV6Prefix) :
    ip.short = ip.bytes.drop 12 := by
  rw [short, to4, if_neg (by omega), if_pos hm]
  rfl

private theorem short_of_not_mapped (hm : ip.bytes.take 12 ≠ v4InV6Prefix) : ip.short = ip.bytes := by
  rw [short, to4, if_neg hm]
  split_ifs <;> rfl

private theorem short_cases (ip : IP) :
    (ip.short.length = 4 ∧ ip.address = .v4 (number ip.short)) ∨
      (ip.short.length = 16 ∧ ip.short = ip.bytes ∧ ip.address = .v6 (number ip.short)) := by
  rw [short, address, to4]
  split_ifs with h4 hmapped
  · exact .inl ⟨h4, rfl⟩
  · have h16 := ip.length_eq.resolve_left h4
    exact .inl ⟨by simp [h16], rfl⟩
  · exact .inr ⟨ip.length_eq.resolve_left h4, rfl, rfl⟩

/-- Addresses mean the same exactly if their short forms are equal. -/
private theorem address_eq_iff : ip.address = x.address ↔ ip.short = x.short := by
  rcases ip.short_cases with ⟨hl, ha⟩ | ⟨hl, -, ha⟩ <;> rcases x.short_cases with ⟨hl', ha'⟩ | ⟨hl', -, ha'⟩
  · rw [ha, ha', Address.v4.injEq, number_inj (hl.trans hl'.symm)]
  · rw [ha, ha']
    refine iff_of_false (by simp) fun h => ?_
    rw [h] at hl
    omega
  · rw [ha, ha']
    refine iff_of_false (by simp) fun h => ?_
    rw [h] at hl
    omega
  · rw [ha, ha', Address.v6.injEq, number_inj (hl.trans hl'.symm)]

theorem equal_iff : ip.equal x = true ↔ ip.address = x.address := by
  have hlen : ∀ y : IP, y.bytes.length = 16 → (y.bytes.drop 12).length = 4 := fun y hy => by simp [hy]
  rw [address_eq_iff, equal]
  rcases ip.length_eq with h | h <;> rcases x.length_eq with h' | h'
  · rw [if_pos (h.trans h'.symm), decide_eq_true_eq, short_of_length h, short_of_length h']
  · rw [if_neg (by omega), if_pos h, decide_eq_true_eq, short_of_length h]
    by_cases hm : x.bytes.take 12 = v4InV6Prefix
    · rw [short_of_mapped h' hm, and_iff_right hm]
    · rw [short_of_not_mapped hm]
      exact iff_of_false (fun hx => hm hx.1) fun hx => by rw [hx] at h; omega
  · rw [if_neg (by omega), if_neg (by omega), decide_eq_true_eq, short_of_length h']
    by_cases hm : ip.bytes.take 12 = v4InV6Prefix
    · rw [short_of_mapped h hm, and_iff_right hm]
    · rw [short_of_not_mapped hm]
      exact iff_of_false (fun hx => hm hx.1) fun hx => by rw [hx] at h; omega
  · rw [if_pos (h.trans h'.symm), decide_eq_true_eq]
    by_cases hm : ip.bytes.take 12 = v4InV6Prefix <;> by_cases hm' : x.bytes.take 12 = v4InV6Prefix
    · rw [short_of_mapped h hm, short_of_mapped h' hm']
      refine ⟨fun hx => by rw [hx], fun hx => ?_⟩
      rw [← List.take_append_drop 12 ip.bytes, ← List.take_append_drop 12 x.bytes, hm, hm', hx]
    · rw [short_of_mapped h hm, short_of_not_mapped hm']
      exact iff_of_false (fun hx => hm' (hx ▸ hm)) fun hx => by have := hlen ip h; rw [hx] at this; omega
    · rw [short_of_not_mapped hm, short_of_mapped h' hm']
      exact iff_of_false (fun hx => hm (hx ▸ hm')) fun hx => by have := hlen x h'; rw [← hx] at this; omega
    · rw [short_of_not_mapped hm, short_of_not_mapped hm']

end IP

/-- The addresses in a block of `net.ParseCIDR`: those that begin with the same bits, where mapped addresses count as
what they are mapped from. -/
theorem contains_cidr {base : IP} {ones : ℕ} (hones : ones ≤ 8 * base.bytes.length) (hbase : base.short = base.bytes)
    (hip : (cidr base ones).ip.short = (cidr base ones).ip.bytes) (ip : IP) :
    (cidr base ones).contains ip = true ↔ Block.Contains ⟨base.address, ones⟩ ip.address := by
  have hnumber : (cidr base ones).networkNumberAndMask =
      some (masked base.bytes (cidrMask ones base.bytes.length), cidrMask ones base.bytes.length) := by
    rw [IPNet.networkNumberAndMask, hip]
    simp only [cidr, length_cidrMask, length_masked rfl]
    rcases base.length_eq with h | h <;> simp [h]
  rw [IPNet.contains, hnumber]
  simp only [decide_eq_true_eq]
  rw [length_masked rfl, masked_masked]
  rcases base.short_cases with ⟨hl, ha⟩ | ⟨hl, -, ha⟩ <;> rcases ip.short_cases with ⟨hl', ha'⟩ | ⟨hl', -, ha'⟩ <;>
    rw [hbase] at hl ha <;> rw [ha, ha', hl] <;> rw [hl] at hones
  · rw [and_iff_right hl']
    exact masked_eq_iff hl hl' hones
  · exact iff_of_false (fun h => by omega) id
  · exact iff_of_false (fun h => by omega) id
  · rw [and_iff_right hl']
    exact masked_eq_iff hl hl' hones

end Cidr
