import Noda.Engine.Parse

/-!
# The waits between retries

`retryNode` doubles the wait before every attempt and caps it at five minutes.  The product is an `int64`: the cap also
catches a product that is negative or zero, but not one that wraps to a small positive number, and it takes a delay of
zero for an overflow.  `backoff_correct_iff` says for which delays the waits are the capped doubles.
-/

namespace Noda.Engine

/-- The value of an `int64` operation. -/
def wrap64 (x : Int) : Int := x.bmod (2 ^ 64)

/-- Five minutes in nanoseconds. -/
def maxBackoffDelay : Int := 5 * 60 * 1000000000

/-- The delay of the policy; one second where it cannot be read. -/
def retryDelay (retry : RetryConfig) : Int := (Duration.parse retry.delay).getD 1000000000

/-- The wait of `retryNode` before an attempt, where the attempts are counted from one. -/
def currentDelay (retry : RetryConfig) (attempt : Nat) : Int :=
  if retry.backoff = "exponential" then
    let product := wrap64 (retryDelay retry * wrap64 (2 ^ (attempt - 1)))
    if product > maxBackoffDelay ∨ product ≤ 0 then maxBackoffDelay else product
  else retryDelay retry

/-! ### The wrapped product -/

/-- The product modulo `2 ^ 64` is made of the low bits of the delay. -/
private theorem mul_pow_mod (d k : Nat) : d * 2 ^ k % 2 ^ 64 = d % 2 ^ (64 - k) * 2 ^ k := by
  rcases Nat.le_total k 64 with hk | hk
  · have hpow : 2 ^ (64 - k) * 2 ^ k = 2 ^ 64 := by
      rw [← Nat.pow_add, Nat.sub_add_cancel hk]
    rw [← hpow, Nat.mul_mod_mul_right]
  · have hzero : 64 - k = 0 := by omega
    have hdvd : 2 ^ 64 ∣ d * 2 ^ k := Nat.dvd_mul_left_of_dvd (Nat.pow_dvd_pow 2 hk) d
    rw [hzero, Nat.pow_zero, Nat.mod_one, Nat.zero_mul]
    exact Nat.mod_eq_zero_of_dvd hdvd

/-- The product is out of range when a bit is shifted out. -/
private theorem le_mul_pow_iff {d k : Nat} (hd : 0 < d) : 2 ^ 64 ≤ d * 2 ^ k ↔ 2 ^ (64 - k) ≤ d := by
  rcases Nat.le_total k 64 with hk | hk
  · have hpow : 2 ^ 64 = 2 ^ (64 - k) * 2 ^ k := by
      rw [← Nat.pow_add, Nat.sub_add_cancel hk]
    rw [hpow]
    exact Nat.mul_le_mul_right_iff (Nat.two_pow_pos k)
  · have hzero : 64 - k = 0 := by omega
    have hle : 2 ^ 64 ≤ 2 ^ k := Nat.pow_le_pow_right (by decide) hk
    have hmul : 2 ^ k ≤ d * 2 ^ k := Nat.le_mul_of_pos_left _ hd
    rw [hzero]
    constructor
    · intro _
      exact hd
    · intro _
      omega

/-- The wait before attempt `k + 1` with a delay `d`: the product modulo `2 ^ 64` if it is positive and below the cap.
-/
private theorem currentDelay_eq {rc : RetryConfig} {d : Nat} (hexp : rc.backoff = "exponential")
    (hd : Duration.parse rc.delay = some (d : Int)) (k : Nat) :
    currentDelay rc (k + 1) =
      if d * 2 ^ k % 2 ^ 64 = 0 ∨ maxBackoffDelay ≤ (d * 2 ^ k % 2 ^ 64 : Nat) then maxBackoffDelay
      else (d * 2 ^ k % 2 ^ 64 : Nat) := by
  have hprod : wrap64 (retryDelay rc * wrap64 (2 ^ k)) = ((d * 2 ^ k : Nat) : Int).bmod (2 ^ 64) := by
    rw [wrap64, wrap64, Int.mul_bmod_bmod, retryDelay, hd]
    simp
  rw [currentDelay, if_pos hexp, Nat.add_sub_cancel]
  simp only [hprod]
  have hmod : ((d * 2 ^ k : Nat) : Int) % ((2 ^ 64 : Nat) : Int) = ((d * 2 ^ k % 2 ^ 64 : Nat) : Int) := by
    rw [Int.natCast_mod]
  have hlt : d * 2 ^ k % 2 ^ 64 < 2 ^ 64 := Nat.mod_lt _ (by decide)
  rw [Int.bmod_eq_emod, hmod]
  generalize d * 2 ^ k % 2 ^ 64 = r at hlt
  unfold maxBackoffDelay
  split_ifs <;> omega

private theorem currentDelay_succ_eq_min_iff {rc : RetryConfig} {d : Nat} (hexp : rc.backoff = "exponential")
    (hd : Duration.parse rc.delay = some (d : Int)) (hpos : 0 < d) (k : Nat) :
    currentDelay rc (k + 1) = min ((d * 2 ^ k : Nat) : Int) maxBackoffDelay ↔
      (2 ^ (64 - k) ≤ d → d % 2 ^ (64 - k) = 0 ∨ maxBackoffDelay ≤ (d % 2 ^ (64 - k) * 2 ^ k : Nat)) := by
  have hlow : d % 2 ^ (64 - k) = 0 ↔ d * 2 ^ k % 2 ^ 64 = 0 := by
    rw [mul_pow_mod, Nat.mul_eq_zero]
    simp
  rw [currentDelay_eq hexp hd, ← le_mul_pow_iff hpos, hlow, ← mul_pow_mod]
  have hprod : 0 < d * 2 ^ k := Nat.mul_pos hpos (Nat.two_pow_pos k)
  generalize d * 2 ^ k = p at hprod
  unfold maxBackoffDelay
  split_ifs <;> omega

/-! ### The capped doubles -/

/-- The waits are the doubles of the delay, capped, and so never decrease. -/
def BackoffOk (rc : RetryConfig) (d : Nat) : Prop :=
  (∀ n : Nat, 1 ≤ n → (n : Int) ≤ rc.attempts →
    currentDelay rc n = min ((d * 2 ^ (n - 1) : Nat) : Int) maxBackoffDelay) ∧
  ∀ n : Nat, 1 ≤ n → ((n + 1 : Nat) : Int) ≤ rc.attempts → currentDelay rc n ≤ currentDelay rc (n + 1)

/-- The bits of the delay that are left after `k` doublings, where some are lost: none, or enough for the cap. -/
def LowBitsOk (rc : RetryConfig) (d : Nat) : Prop :=
  ∀ k : Nat, (k : Int) < rc.attempts → 2 ^ (64 - k) ≤ d →
    d % 2 ^ (64 - k) = 0 ∨ maxBackoffDelay ≤ (d % 2 ^ (64 - k) * 2 ^ k : Nat)

private theorem min_mul_pow_le (d k : Nat) :
    min ((d * 2 ^ k : Nat) : Int) maxBackoffDelay ≤ min ((d * 2 ^ (k + 1) : Nat) : Int) maxBackoffDelay := by
  have hle : d * 2 ^ k ≤ d * 2 ^ (k + 1) := Nat.mul_le_mul_left d (Nat.pow_le_pow_right (by decide) (by omega))
  omega

/-- With a policy that passes the check, the waits are the capped doubles of the delay if and only if the delay is not
zero and no doubling loses bits and leaves a product between zero and the cap. -/
theorem backoff_correct_iff {retry rc : RetryConfig} {fromNode toNode : String} {d : Nat}
    (hvalid : validateRetryConfig retry fromNode toNode = .ok rc) (hexp : rc.backoff = "exponential")
    (hd : Duration.parse rc.delay = some (d : Int)) : BackoffOk rc d ↔ 0 < d ∧ LowBitsOk rc d := by
  have hattempts : 1 ≤ rc.attempts := by
    unfold validateRetryConfig at hvalid
    split_ifs at hvalid <;> cases hvalid <;> exact Int.not_lt.mp ‹_›
  constructor
  · rintro ⟨h, -⟩
    have hpos : 0 < d := by
      by_contra hzero
      obtain rfl : d = 0 := by omega
      have hfirst := h 1 (by decide) hattempts
      rw [currentDelay_eq hexp hd] at hfirst
      simp [maxBackoffDelay] at hfirst
    refine ⟨hpos, fun k hk => ?_⟩
    have hstep := h (k + 1) (by omega) (by omega)
    exact (currentDelay_succ_eq_min_iff hexp hd hpos k).mp hstep
  · rintro ⟨hpos, h⟩
    have hmin : ∀ n : Nat, 1 ≤ n → (n : Int) ≤ rc.attempts →
        currentDelay rc n = min ((d * 2 ^ (n - 1) : Nat) : Int) maxBackoffDelay := by
      intro n hn hle
      obtain ⟨k, rfl⟩ : ∃ k, n = k + 1 := ⟨n - 1, by omega⟩
      exact (currentDelay_succ_eq_min_iff hexp hd hpos k).mpr (h k (by omega))
    refine ⟨hmin, fun n hn hle => ?_⟩
    rw [hmin n hn (by omega), hmin (n + 1) (by omega) hle]
    have := min_mul_pow_le d (n - 1)
    rwa [Nat.sub_add_cancel hn] at this

/-- A policy that starts at one second. -/
def secondPolicy : RetryConfig := ⟨3, "exponential", "1s"⟩

theorem backoff_correct_iff_second : BackoffOk secondPolicy 1000000000 ↔
    0 < 1000000000 ∧ LowBitsOk secondPolicy 1000000000 := by
  have hvalid : validateRetryConfig secondPolicy "a" "b" = .ok secondPolicy := by decide +kernel
  exact backoff_correct_iff hvalid rfl (by decide +kernel)

/-- A policy whose third wait is 4 nanoseconds instead of five minutes. -/
def wrappingPolicy : RetryConfig := ⟨3, "exponential", "4611686018427387905ns"⟩

theorem backoff_incorrect :
    ¬ ∀ (retry rc : RetryConfig) (fromNode toNode : String) (d : Nat),
      validateRetryConfig retry fromNode toNode = .ok rc → rc.backoff = "exponential" →
        Duration.parse rc.delay = some (d : Int) → BackoffOk rc d := by
  intro h
  have hvalid : validateRetryConfig wrappingPolicy "a" "b" = .ok wrappingPolicy := by decide +kernel
  have hd : Duration.parse wrappingPolicy.delay = some ((4611686018427387905 : Nat) : Int) := by decide +kernel
  have hok := h wrappingPolicy wrappingPolicy "a" "b" _ hvalid rfl hd
  have hwait := hok.1 3 (by decide) (by decide)
  have hwrong : currentDelay wrappingPolicy 3 = 4 := by decide +kernel
  rw [hwrong] at hwait
  exact absurd hwait (by decide)

end Noda.Engine
