import EraPrecompiles.Arith.Bits
import Mathlib.Data.Nat.Size
import Mathlib.GroupTheory.OrderOfElement

/-!
# Double-and-add with an incomplete addition

Multiplication by a scalar, from its highest bit on, in a commutative group whose
addition is only almost implemented: adding the base point `A` to itself gives
`0` instead of the double.

So the ladder forgets what it has read so far when an addition meets `A` as the
accumulator.  `lost A n i k` is the number that is missing in the end, where `i`
bits of `n` are still to be read and the accumulator is `k • A`: each collision at
bit `i` loses `2 ^ (i + 1)`.  `ladder_add_lost` says that the ladder computes the
multiple up to this loss.
-/

namespace EraPrecompiles

section Ladder

variable {G : Type*} [AddCommGroup G] [DecidableEq G] (A : G) (n : ℕ)

/-- The addition of `A`, wrong for the accumulator `A`. -/
def incompleteAdd (C : G) : G :=
  if C = A then 0 else A + C

/-- Reads the bits `i - 1, ..., 0` of `n` with the accumulator `C`. -/
def ladder : ℕ → G → G
  | 0, C => C
  | i + 1, C => ladder i (if n.testBit i then incompleteAdd A (C + C) else C + C)

/-- What the ladder loses: `k` is the number read since the last collision. -/
def lost : ℕ → ℕ → ℕ
  | 0, _ => 0
  | i + 1, k =>
      if n.testBit i then
        if (2 * k) • A = A then 2 ^ (i + 1) + lost i 0 else lost i (2 * k + 1)
      else
        lost i (2 * k)

/-- The ladder computes the multiple, up to what it loses. -/
theorem ladder_add_lost (i k : ℕ) :
    ladder A n i (k • A) + lost A n i k • A = (2 ^ i * k + n % 2 ^ i) • A := by
  induction i generalizing k with
  | zero =>
      rw [ladder, lost, zero_nsmul, pow_zero, Nat.mod_one, one_mul, add_zero, add_zero]
  | succ i ih =>
      have hdouble : k • A + k • A = (2 * k) • A := by
        rw [two_mul, add_nsmul]
      rw [ladder, lost, hdouble, mod_two_pow_succ]
      by_cases hbit : n.testBit i
      · rw [if_pos hbit, if_pos hbit, if_pos hbit, incompleteAdd]
        by_cases hcoll : (2 * k) • A = A
        · have hzero := ih 0
          rw [zero_nsmul, Nat.mul_zero, Nat.zero_add] at hzero
          have htotal : (2 ^ (i + 1) * k) • A = 2 ^ i • A := by
            have hmul : 2 ^ (i + 1) * k = 2 * k * 2 ^ i := by ring
            rw [hmul, mul_nsmul, hcoll]
          have hpow : (2 : ℕ) ^ (i + 1) = 2 ^ i + 2 ^ i := by ring
          rw [if_pos hcoll, if_pos hcoll, add_nsmul, add_left_comm, hzero, add_nsmul,
            htotal, add_nsmul, hpow, add_nsmul]
          abel
        · have hnext := ih (2 * k + 1)
          have hsum : A + (2 * k) • A = (2 * k + 1) • A := by
            rw [add_nsmul, one_nsmul, add_comm]
          have hexp : 2 ^ i * (2 * k + 1) + n % 2 ^ i =
              2 ^ (i + 1) * k + (2 ^ i + n % 2 ^ i) := by ring
          rw [if_neg hcoll, if_neg hcoll, hsum, hnext, hexp]
      · have hexp : 2 ^ i * (2 * k) + n % 2 ^ i =
            2 ^ (i + 1) * k + (0 + n % 2 ^ i) := by ring
        rw [if_neg hbit, if_neg hbit, if_neg hbit, ih, hexp]

/-- Nothing is lost if no prefix of the number collides. -/
theorem lost_eq_zero (i : ℕ)
    (h : ∀ j, j < i → n.testBit j → (2 * (n / 2 ^ (j + 1))) • A ≠ A) :
    lost A n i (n / 2 ^ i) = 0 := by
  induction i with
  | zero =>
      rfl
  | succ i ih =>
      have hread := div_two_pow_succ n i
      have hlow := ih fun j hj => h j (by omega)
      rw [lost]
      by_cases hbit : n.testBit i
      · have hmod : n / 2 ^ i % 2 = 1 := by
          rw [Nat.testBit_eq_decide_div_mod_eq] at hbit
          exact of_decide_eq_true hbit
        rw [if_pos hbit, if_neg (h i (by omega) hbit), ← hlow]
        congr 1
        omega
      · have hmod : n / 2 ^ i % 2 = 0 := by
          rw [Nat.testBit_eq_decide_div_mod_eq, decide_eq_true_eq] at hbit
          omega
        rw [if_neg hbit, ← hlow]
        congr 1
        omega

/-- Without collisions the ladder over all bits computes the multiple. -/
theorem ladder_size
    (h : ∀ j, j < n.size → n.testBit j → (2 * (n / 2 ^ (j + 1))) • A ≠ A) :
    ladder A n n.size 0 = n • A := by
  have hlost := lost_eq_zero A n n.size h
  have htotal := ladder_add_lost A n n.size 0
  rw [Nat.div_eq_of_lt (Nat.lt_size_self n)] at hlost
  rw [hlost, zero_nsmul, add_zero, Nat.mul_zero, Nat.zero_add,
    Nat.mod_eq_of_lt (Nat.lt_size_self n)] at htotal
  exact htotal

omit [DecidableEq G] in
/-- Twice a multiple is the point itself only if its order divides an odd number. -/
theorem two_nsmul_ne {A : G} {k N : ℕ} (hA : A ≠ 0) (hN : N • A = 0)
    (hk : k = 0 ∨ Nat.Coprime (2 * k - 1) N) : (2 * k) • A ≠ A := by
  intro h
  rcases Nat.eq_zero_or_pos k with rfl | hpos
  · rw [Nat.mul_zero, zero_nsmul] at h
    exact hA h.symm
  · have hcop := hk.resolve_left hpos.ne'
    have hpred : (2 * k - 1) • A = 0 := by
      have hsucc : 2 * k = 2 * k - 1 + 1 := by omega
      rw [hsucc, add_nsmul, one_nsmul] at h
      exact add_eq_right.mp h
    have hdvd := Nat.dvd_gcd (addOrderOf_dvd_of_nsmul_eq_zero hpred)
      (addOrderOf_dvd_of_nsmul_eq_zero hN)
    rw [hcop, Nat.dvd_one] at hdvd
    exact hA (AddMonoid.addOrderOf_eq_one_iff.mp hdvd)

/-- No prefix of a scalar up to a prime order collides. -/
theorem ladder_of_prime_order {A : G} {q k : ℕ} (hq : q.Prime) (hA : A ≠ 0) (hqA : q • A = 0)
    (hk : k ≤ q) : ladder A k k.size 0 = k • A := by
  refine ladder_size A k fun j _ _ => two_nsmul_ne hA hqA ?_
  have hhalf : 2 * (k / 2 ^ (j + 1)) ≤ k := by
    rw [pow_succ, ← Nat.div_div_eq_div_mul]
    have hdiv := Nat.div_le_self k (2 ^ j)
    omega
  generalize k / 2 ^ (j + 1) = m at hhalf ⊢
  rcases Nat.eq_zero_or_pos m with h0 | hpos
  · exact Or.inl h0
  · exact Or.inr (Nat.coprime_of_lt_prime (by omega) (by omega) hq).symm

end Ladder

end EraPrecompiles
