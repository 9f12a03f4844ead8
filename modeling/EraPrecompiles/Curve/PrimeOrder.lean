import EraPrecompiles.Curve.Counting
import EraPrecompiles.Curve.Homogeneous
import Mathlib.Data.Nat.Size

/-!
# Curves of prime order

How to certify that a curve over a prime field has a given prime number of points, by
evaluation.  Three checks are enough:

* a point with its multiple at infinity, computed in homogeneous coordinates
  (`multipleIsInfinity`);
* no root of the cubic, so that the order is odd.  The power `x ^ p` is computed modulo the
  cubic, and a certificate shows that `x ^ p - x` is invertible there (`rootFree`);
* the order is below three times the prime.

The last section is about groups of prime order: every element other than zero generates.
-/

namespace EraPrecompiles

/-! ## Multiples by evaluation -/

namespace ShortWeierstrass

section Multiples

variable {K : Type*} [Field K] [DecidableEq K]

/-- Reads the bits `i - 1, ..., 0` of `n` with the accumulator `C`. -/
def homogeneousMultiple (a : K) (P : K × K × K) (n : ℕ) : ℕ → K × K × K → K × K × K
  | 0, C => C
  | i + 1, C =>
      let D := tangentDouble a C
      homogeneousMultiple a P n i (if n.testBit i then completeAdd a D P else D)

/-- The multiple by `n` has the third coordinate zero. -/
def multipleIsInfinity (a x y : K) (n : ℕ) : Bool :=
  decide ((homogeneousMultiple a (x, y, 1) n n.size (0, 1, 0)).2.2 = 0)

variable {E : ShortWeierstrass K} {A : E.Point} {P C : K × K × K}

theorem homogeneousMultiple_sound (hP : Homogeneous A P) (n i : ℕ) {k : ℕ}
    (hC : Homogeneous (k • A) C) :
    Homogeneous ((2 ^ i * k + n % 2 ^ i) • A) (homogeneousMultiple E.a P n i C) := by
  induction i generalizing k C with
  | zero =>
      rw [pow_zero, one_mul, Nat.mod_one, add_zero]
      exact hC
  | succ i ih =>
      have hD : Homogeneous ((2 * k) • A) (tangentDouble E.a C) := by
        rw [two_mul, add_nsmul]
        exact hC.tangent
      have hmod : n % 2 ^ (i + 1) = n % 2 ^ i + 2 ^ i * (n.testBit i).toNat := by
        rw [pow_succ, Nat.mod_mul, Nat.toNat_testBit]
      rw [homogeneousMultiple]
      cases hbit : n.testBit i with
      | false =>
          have hexp : 2 ^ (i + 1) * k + n % 2 ^ (i + 1) = 2 ^ i * (2 * k) + n % 2 ^ i := by
            rw [hmod, hbit, Bool.toNat_false]
            ring
          rw [hexp]
          exact ih hD
      | true =>
          have hexp : 2 ^ (i + 1) * k + n % 2 ^ (i + 1) =
              2 ^ i * (2 * k + 1) + n % 2 ^ i := by
            rw [hmod, hbit, Bool.toNat_true]
            ring
          have hS : Homogeneous ((2 * k + 1) • A) (completeAdd E.a (tangentDouble E.a C) P) := by
            rw [add_nsmul, one_nsmul]
            exact hD.add hP
          rw [hexp]
          exact ih hS

theorem nsmul_eq_zero_of_multipleIsInfinity {x y : K} (hA : Coords A x y) {n : ℕ}
    (h : multipleIsInfinity E.a x y n = true) : n • A = 0 := by
  have hzero : Homogeneous ((0 : ℕ) • A) ((0, 1, 0) : K × K × K) := by
    rw [zero_nsmul]
    exact Homogeneous.zero
  have hmul := homogeneousMultiple_sound (Homogeneous.of_coords hA) n n.size hzero
  rw [mul_zero, zero_add, Nat.mod_eq_of_lt (Nat.lt_size_self n)] at hmul
  exact hmul.eq_zero_iff.mpr (of_decide_eq_true h)

end Multiples

/-! ## Roots of the cubic -/

section Roots

variable {K : Type*} [Field K]

/-- The value of the polynomial with the coefficients `f`. -/
def quadraticEval (f : K × K × K) (t : K) : K :=
  f.1 + f.2.1 * t + f.2.2 * t ^ 2

/-- The product modulo `x ^ 3 + a * x + b`. -/
def mulModCubic (a b : K) (f g : K × K × K) : K × K × K :=
  let c3 := f.2.1 * g.2.2 + f.2.2 * g.2.1
  let c4 := f.2.2 * g.2.2
  (f.1 * g.1 - b * c3,
    f.1 * g.2.1 + f.2.1 * g.1 - a * c3 - b * c4,
    f.1 * g.2.2 + f.2.1 * g.2.1 + f.2.2 * g.1 - a * c4)

/-- `x ^ n` modulo the cubic, for the bits `i - 1, ..., 0` of `n`. -/
def powModCubic (a b : K) (n : ℕ) : ℕ → K × K × K → K × K × K
  | 0, f => f
  | i + 1, f =>
      let g := mulModCubic a b f f
      powModCubic a b n i (if n.testBit i then mulModCubic a b g (0, 1, 0) else g)

/-- The polynomial `x ^ n - x` has the inverse `e` modulo the cubic. -/
def rootFree [DecidableEq K] (a b : K) (n : ℕ) (e : K × K × K) : Bool :=
  let f := powModCubic a b n n.size (1, 0, 0)
  decide (mulModCubic a b (f.1, f.2.1 - 1, f.2.2) e = (1, 0, 0))

variable {a b t : K}

theorem quadraticEval_mul (ht : t ^ 3 + a * t + b = 0) (f g : K × K × K) :
    quadraticEval (mulModCubic a b f g) t = quadraticEval f t * quadraticEval g t := by
  simp only [quadraticEval, mulModCubic]
  linear_combination
    (-(f.2.1 * g.2.2 + f.2.2 * g.2.1) - f.2.2 * g.2.2 * t) * ht

theorem quadraticEval_pow (ht : t ^ 3 + a * t + b = 0) (n i : ℕ) {k : ℕ} {f : K × K × K}
    (hf : quadraticEval f t = t ^ k) :
    quadraticEval (powModCubic a b n i f) t = t ^ (2 ^ i * k + n % 2 ^ i) := by
  induction i generalizing k f with
  | zero =>
      rw [pow_zero, one_mul, Nat.mod_one, add_zero]
      exact hf
  | succ i ih =>
      have hsquare : quadraticEval (mulModCubic a b f f) t = t ^ (2 * k) := by
        rw [quadraticEval_mul ht, hf, ← pow_add, two_mul]
      have hmod : n % 2 ^ (i + 1) = n % 2 ^ i + 2 ^ i * (n.testBit i).toNat := by
        rw [pow_succ, Nat.mod_mul, Nat.toNat_testBit]
      rw [powModCubic]
      cases hbit : n.testBit i with
      | false =>
          have hexp : 2 ^ (i + 1) * k + n % 2 ^ (i + 1) = 2 ^ i * (2 * k) + n % 2 ^ i := by
            rw [hmod, hbit, Bool.toNat_false]
            ring
          rw [hexp]
          exact ih hsquare
      | true =>
          have hexp : 2 ^ (i + 1) * k + n % 2 ^ (i + 1) =
              2 ^ i * (2 * k + 1) + n % 2 ^ i := by
            rw [hmod, hbit, Bool.toNat_true]
            ring
          have hgen : quadraticEval ((0, 1, 0) : K × K × K) t = t := by
            simp [quadraticEval]
          rw [hexp]
          refine ih ?_
          rw [if_pos rfl, quadraticEval_mul ht, hsquare, hgen, pow_succ]

/-- The certificate leaves no root, in a field where all elements are `n`-th powers of
themselves. -/
theorem ne_zero_of_rootFree [DecidableEq K] {n : ℕ} {e : K × K × K}
    (hn : ∀ t : K, t ^ n = t) (h : rootFree a b n e = true) (t : K) :
    t ^ 3 + a * t + b ≠ 0 := by
  intro ht
  have hone : quadraticEval ((1, 0, 0) : K × K × K) t = t ^ 0 := by
    simp [quadraticEval]
  have hpow := quadraticEval_pow ht n n.size hone
  rw [mul_zero, zero_add, Nat.mod_eq_of_lt (Nat.lt_size_self n), hn] at hpow
  have hinv := congrArg (quadraticEval · t) (of_decide_eq_true h)
  simp only [quadraticEval_mul ht] at hinv
  simp only [quadraticEval] at hpow hinv
  refine one_ne_zero (α := K) ?_
  linear_combination (e.1 + e.2.1 * t + e.2.2 * t ^ 2) * hpow - hinv

end Roots

/-! ## The number of points -/

section PrimeField

variable {p : ℕ} [Fact p.Prime] {E : ShortWeierstrass (ZMod p)} {x y : ZMod p} {n : ℕ}

theorem not_onCurve_zero_of_rootFree {e : ZMod p × ZMod p × ZMod p}
    (h : rootFree E.a E.b p e = true) (t : ZMod p) : ¬E.OnCurve t 0 := by
  intro ht
  refine ne_zero_of_rootFree ZMod.pow_card h t ?_
  rw [OnCurve] at ht
  linear_combination -ht

/-- A point that `n` kills, an odd number of points and the trivial bound. -/
theorem card_eq_prime (hn : n.Prime) (hbound : 2 * (p + 1) < 3 * n)
    (hroot : ∀ t, ¬E.OnCurve t 0) (hxy : E.OnCurve x y)
    (hkill : multipleIsInfinity E.a x y n = true) : Nat.card E.Point = n := by
  have hfinite : Finite E.Point := finite_point
  have hprime : Fact n.Prime := ⟨hn⟩
  have hA : Coords (E.point x y hxy) x y := coords_point hxy
  have horder : addOrderOf (E.point x y hxy) = n :=
    addOrderOf_eq_prime (nsmul_eq_zero_of_multipleIsInfinity hA hkill) hA.ne_zero
  have hle : Nat.card E.Point ≤ 2 * (p + 1) := by
    have h : Nat.card E.Point ≤ 2 * (Nat.card (ZMod p) + 1) := card_point_le
    rwa [Nat.card_zmod] at h
  have hodd : ¬2 ∣ Nat.card E.Point := odd_card hroot
  have hpos : Nat.card E.Point ≠ 0 := Nat.card_pos.ne'
  obtain ⟨k, hk⟩ : n ∣ Nat.card E.Point := by
    rw [← horder]
    exact addOrderOf_dvd_natCard _
  rw [hk] at hle hodd hpos ⊢
  have hk3 : k < 3 := by
    by_contra h
    have hmul := Nat.mul_le_mul_left n (not_lt.mp h)
    omega
  interval_cases k
  · exact absurd (mul_zero n) hpos
  · exact mul_one n
  · exact absurd (Dvd.intro_left n rfl) hodd

end PrimeField

end ShortWeierstrass

/-! ## Groups of prime order -/

section Group

variable {G : Type*} [AddCommGroup G] {n : ℕ} [hn : Fact n.Prime]

omit hn in
theorem nsmul_eq_zero_of_card (hcard : Nat.card G = n) (A : G) : n • A = 0 := by
  rw [← hcard]
  exact card_nsmul_eq_zero'

omit hn in
theorem mod_nsmul_of_card (hcard : Nat.card G = n) (k : ℕ) (A : G) : (k % n) • A = k • A := by
  conv_rhs => rw [← Nat.mod_add_div k n, add_nsmul, mul_nsmul, nsmul_eq_zero_of_card hcard,
    nsmul_zero, add_zero]

theorem addOrderOf_of_card (hcard : Nat.card G = n) {A : G} (hA : A ≠ 0) : addOrderOf A = n :=
  addOrderOf_eq_prime (nsmul_eq_zero_of_card hcard A) hA

theorem nsmul_eq_nsmul_iff_of_card (hcard : Nat.card G = n) {A : G} (hA : A ≠ 0) {j k : ℕ} :
    j • A = k • A ↔ (j : ZMod n) = k := by
  rw [ZMod.natCast_eq_natCast_iff, ← addOrderOf_of_card hcard hA]
  exact nsmul_eq_nsmul_iff_modEq

theorem nsmul_eq_zero_iff_of_card (hcard : Nat.card G = n) {A : G} (hA : A ≠ 0) {k : ℕ} :
    k • A = 0 ↔ (k : ZMod n) = 0 := by
  have h := nsmul_eq_nsmul_iff_of_card hcard hA (j := k) (k := 0)
  rwa [zero_nsmul, Nat.cast_zero] at h

/-- Every element other than zero generates the group. -/
theorem exists_nsmul_of_card (hcard : Nat.card G = n) {A : G} (hA : A ≠ 0) (B : G) :
    ∃ k < n, B = k • A := by
  have hpos : 0 < n := hn.out.pos
  have hfinite : Finite G := Nat.finite_of_card_ne_zero (by rw [hcard]; exact hpos.ne')
  have hcard' : Nat.card G = n * 1 := by rw [hcard, mul_one]
  obtain ⟨k, rfl⟩ := exists_nsmul_of_torsion hcard' (Nat.coprime_one_right n) hpos
    (addOrderOf_of_card hcard hA) (nsmul_eq_zero_of_card hcard B)
  exact ⟨k % n, Nat.mod_lt k hpos, (mod_nsmul_of_card hcard k A).symm⟩

end Group

end EraPrecompiles
