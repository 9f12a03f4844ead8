import EraPrecompiles.Curve.Jacobian

/-!
# The order of a point, by evaluation

Multiples of a concrete point are computed in Jacobian coordinates, with the
formulas of the library.  The evaluation stops where the chord formula could have
met equal points, so every multiple it returns is right.  `multipleCheck` evaluates `n • A`
and compares it with a point; `orderCheck` evaluates `(n - 1) • A` and compares it with `-A`.
-/

namespace EraPrecompiles

namespace ShortWeierstrass

variable {K : Type*} [Field K] [DecidableEq K]

/-- Reads the bits `i - 1, ..., 0` of `n` with the accumulator `C`. -/
def jacobianMultiple (P : K × K × K) (n : ℕ) : ℕ → K × K × K → Option (K × K × K)
  | 0, C => some C
  | i + 1, C =>
      let D := jacobianDouble C
      if n.testBit i then
        let S := jacobianChord P D
        if S.2.2 = 0 then none else jacobianMultiple P n i S
      else
        jacobianMultiple P n i D

def multipleCheck (x y : K) (n : ℕ) (u v : K) : Bool :=
  match jacobianMultiple (x, y, 1) n n.log2 (x, y, 1) with
  | some (X, Y, Z) => decide (Z ≠ 0 ∧ X = u * (Z * Z) ∧ Y = v * (Z * Z * Z))
  | none => false

def orderCheck (x y : K) (n : ℕ) : Bool :=
  match jacobianMultiple (x, y, 1) (n - 1) (n - 1).log2 (x, y, 1) with
  | some (X, Y, Z) => decide (Z ≠ 0 ∧ X = x * (Z * Z) ∧ Y = -(y * (Z * Z * Z)))
  | none => false

variable {E : ShortWeierstrass K} {A : E.Point}

theorem jacobianMultiple_sound (ha : E.a = 0) {P : K × K × K} (hP : Jacobian A P)
    (hA : A ≠ 0) (n i : ℕ) {k : ℕ} {C T : K × K × K} (hC : Jacobian (k • A) C)
    (h : jacobianMultiple P n i C = some T) :
    Jacobian ((2 ^ i * k + n % 2 ^ i) • A) T := by
  induction i generalizing k C with
  | zero =>
      rw [jacobianMultiple, Option.some.injEq] at h
      rw [pow_zero, one_mul, Nat.mod_one, add_zero, ← h]
      exact hC
  | succ i ih =>
      have hD : Jacobian ((2 * k) • A) (jacobianDouble C) := by
        rw [two_mul, add_nsmul]
        exact hC.double ha
      have hmod : n % 2 ^ (i + 1) = n % 2 ^ i + 2 ^ i * (n / 2 ^ i % 2) := by
        rw [pow_succ, Nat.mod_mul]
      have hbit := Nat.testBit_eq_decide_div_mod_eq (x := n) (i := i)
      rw [jacobianMultiple] at h
      by_cases hn : n.testBit i
      · rw [hn, eq_comm, decide_eq_true_eq] at hbit
        simp only [if_pos hn] at h
        by_cases hZ : (jacobianChord P (jacobianDouble C)).2.2 = 0
        · simp only [if_pos hZ] at h
          exact absurd h (by simp)
        · simp only [if_neg hZ] at h
          have hD0 : (2 * k) • A ≠ 0 := by
            intro h0
            refine hZ ?_
            simp only [jacobianChord, hD.eq_zero_iff.mp h0]
            ring
          have hne : A ≠ (2 * k) • A := by
            intro heq
            rw [← heq] at hD
            exact hZ (hP.chord_self hD hA)
          have hS := hP.chord hD hA hD0 hne
          have hk : A + (2 * k) • A = (2 * k + 1) • A := by
            rw [add_nsmul, one_nsmul, add_comm]
          rw [hk] at hS
          have hexp : 2 ^ (i + 1) * k + n % 2 ^ (i + 1) =
              2 ^ i * (2 * k + 1) + n % 2 ^ i := by
            rw [hmod, hbit]
            ring
          rw [hexp]
          exact ih hS h
      · have hbit' : n / 2 ^ i % 2 = 0 := by
          rw [hbit, decide_eq_true_eq] at hn
          omega
        simp only [if_neg hn] at h
        have hexp : 2 ^ (i + 1) * k + n % 2 ^ (i + 1) = 2 ^ i * (2 * k) + n % 2 ^ i := by
          rw [hmod, hbit']
          ring
        rw [hexp]
        exact ih hD h

/-- The evaluation over all bits but the highest. -/
theorem jacobianMultiple_nsmul (ha : E.a = 0) {x y : K} (hA : Coords A x y) {n : ℕ}
    (hn : n ≠ 0) {T : K × K × K}
    (h : jacobianMultiple (x, y, 1) n n.log2 (x, y, 1) = some T) : Jacobian (n • A) T := by
  have hone : Jacobian (1 • A) (x, y, (1 : K)) := by
    rw [one_nsmul]
    exact Jacobian.of_coords hA
  have hmul := jacobianMultiple_sound ha (Jacobian.of_coords hA) hA.ne_zero n n.log2 hone h
  have hexp : 2 ^ n.log2 * 1 + n % 2 ^ n.log2 = n := by
    have hle : 2 ^ n.log2 ≤ n := Nat.log2_self_le hn
    have hlt : n < 2 ^ (n.log2 + 1) := Nat.lt_log2_self
    rw [pow_succ] at hlt
    rw [Nat.mod_eq_sub_mod hle, Nat.mod_eq_of_lt (by omega)]
    omega
  rwa [hexp] at hmul

omit [DecidableEq K] in
/-- Coordinates that a triple stands for determine the point. -/
theorem eq_of_jacobian {B : E.Point} {x y X Y Z : K} (hA : Coords A x y)
    (hB : Jacobian B (X, Y, Z)) (hZ : Z ≠ 0) (hX : X = x * (Z * Z))
    (hY : Y = y * (Z * Z * Z)) : B = A := by
  refine Coords.point_unique ((hB.coords hZ).congr ?_ ?_) hA
  · show X * (Z * Z)⁻¹ = x
    rw [hX]
    field_simp
  · show Y * (Z * Z * Z)⁻¹ = y
    rw [hY]
    field_simp

theorem nsmul_eq_of_multipleCheck (ha : E.a = 0) {x y u v : K} (hA : Coords A x y)
    {B : E.Point} (hB : Coords B u v) {n : ℕ} (hn : n ≠ 0)
    (h : multipleCheck x y n u v = true) : n • A = B := by
  rw [multipleCheck] at h
  cases hT : jacobianMultiple (x, y, 1) n n.log2 (x, y, 1) with
  | none =>
      rw [hT] at h
      exact absurd h (by simp)
  | some T =>
      obtain ⟨X, Y, Z⟩ := T
      rw [hT] at h
      obtain ⟨hZ, hX, hY⟩ := of_decide_eq_true h
      exact eq_of_jacobian hB (jacobianMultiple_nsmul ha hA hn hT) hZ hX hY

theorem nsmul_eq_zero_of_orderCheck (ha : E.a = 0) {x y : K} (hA : Coords A x y) {n : ℕ}
    (hn : 1 < n) (h : orderCheck x y n = true) : n • A = 0 := by
  rw [orderCheck] at h
  cases hT : jacobianMultiple (x, y, 1) (n - 1) (n - 1).log2 (x, y, 1) with
  | none =>
      rw [hT] at h
      exact absurd h (by simp)
  | some T =>
      obtain ⟨X, Y, Z⟩ := T
      rw [hT] at h
      obtain ⟨hZ, hX, hY⟩ := of_decide_eq_true h
      have hmul := jacobianMultiple_nsmul ha hA (by omega) hT
      have hneg := eq_of_jacobian hA.neg hmul hZ hX (by rw [hY, neg_mul])
      have hsucc : n = n - 1 + 1 := by omega
      rw [hsucc, succ_nsmul, hneg, neg_add_cancel]

end ShortWeierstrass

end EraPrecompiles
