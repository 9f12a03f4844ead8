import EraPrecompiles.Arith.Bits
import EraPrecompiles.Arith.CubicAlgebra
import EraPrecompiles.Bn254.Twist

/-!
# The tower of extensions of BN254

`Fp6` is `Fp2[v] / (v^3 - (9 + u))` and `Fp12` is `Fp6[w] / (w^2 - v)`.  Both are fields:
`9 + u` is no cube in `Fp2`, and `v` is no square in `Fp6`, because the norm of `9 + u` in
`Fp` is `82`, which is neither a cube nor a square.

The `p`-th power maps the coordinates to their conjugates, times powers of
`gamma = xi ^ ((p - 1) / 6)` (`fp12_pow_p`).
-/

namespace EraPrecompiles.Bn254

/-! ## Fields -/

theorem norm_xi : QuadraticAlgebra.norm xi = ((82 : ℕ) : Fp) := by
  rw [QuadraticAlgebra.norm_def, xi]
  decide

instance fact_xi_not_cube : Fact (∀ s : Fp2, s ^ 3 ≠ xi) := by
  refine ⟨fun s h => ?_⟩
  have hnorm : QuadraticAlgebra.norm s ^ 3 = ((82 : ℕ) : Fp) := by
    rw [← map_pow, h, norm_xi]
  exact pow_ne_of_powMod (by decide) (by decide) (by decide +kernel) _ hnorm

/-- Elements `c0 + c1 * v + c2 * v ^ 2` with `v ^ 3 = 9 + u`. -/
abbrev Fp6 : Type := CubicAlgebra Fp2 xi

instance fact_gen_not_square :
    Fact (∀ s : Fp6, s ^ 2 ≠ CubicAlgebra.gen + 0 * s) := by
  refine ⟨fun s h => ?_⟩
  rw [zero_mul, add_zero] at h
  have hgen : CubicAlgebra.norm (CubicAlgebra.gen : Fp6) = xi := by
    simp [CubicAlgebra.norm]
  have hsq : CubicAlgebra.norm s ^ 2 = xi := by
    rw [sq, ← CubicAlgebra.norm_mul, ← sq, h, hgen]
  have hnorm : QuadraticAlgebra.norm (CubicAlgebra.norm s) ^ 2 = ((82 : ℕ) : Fp) := by
    rw [← map_pow, hsq, norm_xi]
  exact pow_ne_of_powMod (by decide) (by decide) (by decide +kernel) _ hnorm

/-- Elements `re + im * w` with `w ^ 2 = v`. -/
abbrev Fp12 : Type := QuadraticAlgebra Fp6 CubicAlgebra.gen 0

theorem card_fp6 : Nat.card Fp6 = p ^ 6 := by
  rw [Nat.card_congr (CubicAlgebra.equivProd _), Nat.card_prod, Nat.card_prod, card_fp2]
  ring

theorem card_fp12 : Nat.card Fp12 = p ^ 12 := by
  rw [Nat.card_congr (QuadraticAlgebra.equivProd _ _), Nat.card_prod, card_fp6]
  ring

theorem fp12_pow_card_sub_one {z : Fp12} (hz : z ≠ 0) : z ^ (p ^ 12 - 1) = 1 := by
  have hfinite : Finite Fp12 := Nat.finite_of_card_ne_zero (by
    rw [card_fp12]
    exact pow_ne_zero 12 (by decide))
  have hpow := pow_card_eq_one' (x := Units.mk0 z hz)
  rw [Nat.card_units, card_fp12] at hpow
  exact congrArg Units.val hpow

/-! ## The powers of the elements of the tower -/

instance charP_fp2 : CharP Fp2 p :=
  charP_of_injective_algebraMap QuadraticAlgebra.algebraMap_injective p

instance charP_fp12 : CharP Fp12 p :=
  charP_of_injective_algebraMap QuadraticAlgebra.algebraMap_injective p

/-- The constant `g_1,1` of the Frobenius maps. -/
def gamma : Fp2 :=
  ⟨8376118865763821496583973867626364092589906065868298776909617916018768340080,
    16469823323077808223889137241176536799009286646108169935659301613961712198316⟩

theorem xi_pow : xi ^ ((p - 1) / 6) = gamma := by
  have hloop := powLoop_eq 254 (1 : Fp2) xi ((p - 1) / 6) (by decide)
  rw [one_mul] at hloop
  rw [← hloop]
  decide +kernel

theorem fp2_pow_p (x : Fp2) : x ^ p = star x := by
  have hodd : p = 2 * ((p - 1) / 2) + 1 := by decide
  rw [quadratic_pow_char hodd, ZMod.pow_card, ZMod.pow_card,
    Odd.neg_one_pow (n := (p - 1) / 2) (by decide)]
  ext <;> simp

theorem fp6_pow_p (x : Fp6) :
    x ^ p = ⟨star x.c0, star x.c1 * gamma ^ 2, star x.c2 * gamma ^ 4⟩ := by
  have hmod : p = 3 * (2 * ((p - 1) / 6)) + 1 := by decide
  have hpow : xi ^ (2 * ((p - 1) / 6)) = gamma ^ 2 := by
    rw [← xi_pow, ← pow_mul, mul_comm]
  rw [CubicAlgebra.pow_char hmod, fp2_pow_p, fp2_pow_p, fp2_pow_p, hpow, ← pow_mul]

/-! ## The Frobenius map of `Fp12` -/

/-- The power to `p`. -/
def fp12Frobenius : Fp12 →+* Fp12 :=
  frobenius Fp12 p

theorem fp12Frobenius_apply (z : Fp12) : fp12Frobenius z = z ^ p :=
  frobenius_def p z

/-- The coordinates of the powers of `w`, times the powers of `g`. -/
def weighted (g : Fp2) (z : Fp12) : Fp12 :=
  ⟨⟨z.re.c0, z.re.c1 * g ^ 2, z.re.c2 * g ^ 4⟩,
    ⟨z.im.c0 * g, z.im.c1 * g ^ 3, z.im.c2 * g ^ 5⟩⟩

/-- The conjugates of the coordinates. -/
def conjugated (z : Fp12) : Fp12 :=
  ⟨⟨star z.re.c0, star z.re.c1, star z.re.c2⟩, ⟨star z.im.c0, star z.im.c1, star z.im.c2⟩⟩

theorem weighted_weighted (g h : Fp2) (z : Fp12) :
    weighted g (weighted h z) = weighted (h * g) z := by
  simp only [weighted, mul_pow, mul_assoc]

theorem conjugated_weighted (g : Fp2) (z : Fp12) :
    conjugated (weighted g z) = weighted (star g) (conjugated z) := by
  simp only [conjugated, weighted, star_mul', star_pow]

theorem conjugated_conjugated (z : Fp12) : conjugated (conjugated z) = z := by
  simp only [conjugated, star_star]

theorem fp12_pow_p (z : Fp12) : z ^ p = weighted gamma (conjugated z) := by
  have hchar : CharP Fp6 p := CubicAlgebra.instCharP
  have hodd : p = 2 * (3 * ((p - 1) / 6)) + 1 := by decide
  have hpow : (CubicAlgebra.gen : Fp6) ^ (3 * ((p - 1) / 6)) = algebraMap Fp2 Fp6 gamma := by
    rw [pow_mul, CubicAlgebra.gen_cube, ← map_pow, xi_pow]
  rw [quadratic_pow_char hodd, hpow, fp6_pow_p, fp6_pow_p, weighted, conjugated]
  ext : 2
  all_goals simp [CubicAlgebra.algebraMap_eq]
  all_goals ring

/-- The coordinate of the constant `g_2,1`. -/
def gammaNorm : Fp :=
  21888242871839275220042445260109153167277707414472061641714758635765020556617

/-- The constant `g_2,1` of the second power, an element of `Fp`. -/
def gamma2 : Fp2 := QuadraticAlgebra.C gammaNorm

theorem star_gamma_mul : star gamma * gamma = gamma2 := by
  decide

theorem gamma2_pow (i : ℕ) : gamma2 ^ i = QuadraticAlgebra.C (gammaNorm ^ i) :=
  (QuadraticAlgebra.C_pow i gammaNorm).symm

theorem fp12_pow_p_sq (z : Fp12) : z ^ p ^ 2 = weighted gamma2 z := by
  have hexp : p ^ 2 = p * p := sq p
  rw [hexp, pow_mul, fp12_pow_p (z ^ p), fp12_pow_p z, conjugated_weighted,
    conjugated_conjugated, weighted_weighted, star_gamma_mul]

theorem fp12_pow_p_cube (z : Fp12) :
    z ^ p ^ 3 = weighted (gamma * gamma2) (conjugated z) := by
  have hexp : p ^ 3 = p * p ^ 2 := pow_succ' p 2
  rw [hexp, pow_mul, fp12_pow_p_sq, fp12_pow_p, weighted_weighted]

theorem fp12_pow_p_four (z : Fp12) : z ^ p ^ 4 = weighted (gamma2 * gamma2) z := by
  have hexp : p ^ 4 = p ^ 2 * p ^ 2 := pow_add p 2 2
  rw [hexp, pow_mul, fp12_pow_p_sq, fp12_pow_p_sq, weighted_weighted]

/-- The constant is a sixth root of unity. -/
theorem gamma2_sq : gamma2 ^ 2 = gamma2 - 1 := by
  decide

theorem gamma2_cube : gamma2 ^ 3 = -1 := by
  linear_combination (gamma2 + 1) * gamma2_sq

/-- The conjugate over `Fp6`. -/
theorem fp12_pow_p_six (z : Fp12) : z ^ p ^ 6 = star z := by
  have hexp : p ^ 6 = p ^ 4 * p ^ 2 := pow_add p 4 2
  have hroot : gamma2 * gamma2 * gamma2 = -1 := by
    linear_combination gamma2_cube
  rw [hexp, pow_mul, fp12_pow_p_sq, fp12_pow_p_four, weighted_weighted, hroot, weighted]
  ext : 2
  all_goals simp
  all_goals ring

end EraPrecompiles.Bn254
