import EraPrecompiles.Curve.Line
import EraPrecompiles.Pairing.Tower

/-!
# The twist and the curve over `Fp12`

The curve `y^2 = x^3 + 3` over `Fp12`, and the map that carries the points of the twist to it:
`(x, y) ↦ (x * w^2, y * w^3)` with the generator `w` of `Fp12`, whose sixth power is `9 + u`.

Lines through untwisted points have three coefficients in `Fp2`, the factors of `1`, `w` and
`w^3`.  The precompile keeps such a line in the places `0`, `3` and `4` of an element of
`Fp12` (`sparse_eq`).
-/

namespace EraPrecompiles.Pairing

open Bn254 ShortWeierstrass

/-! ## The fields -/

/-- `Fp2` in `Fp12`. -/
def ofFp2 : Fp2 →+* Fp12 :=
  (algebraMap Fp6 Fp12).comp (algebraMap Fp2 Fp6)

/-- `Fp` in `Fp12`. -/
def ofFp : Fp →+* Fp12 :=
  ofFp2.comp (algebraMap Fp Fp2)

/-- The generator `w`. -/
def root : Fp12 := QuadraticAlgebra.omega

theorem ofFp2_eq (x : Fp2) : ofFp2 x = ⟨⟨x, 0, 0⟩, 0⟩ := rfl

theorem ofFp_eq (x : Fp) : ofFp x = ofFp2 (QuadraticAlgebra.C x) := rfl

theorem root_sq : root ^ 2 = algebraMap Fp6 Fp12 CubicAlgebra.gen := by
  rw [root, sq, QuadraticAlgebra.omega_mul_omega_eq_mk]
  rfl

theorem root_pow_six : root ^ 6 = ofFp2 xi := by
  have h : root ^ 6 = (root ^ 2) ^ 3 := by
    rw [← pow_mul]
  rw [h, root_sq, ← map_pow, CubicAlgebra.gen_cube]
  rfl

theorem root_ne_zero : root ≠ 0 := by
  intro h
  have h6 := root_pow_six
  rw [h, zero_pow (by decide)] at h6
  exact xi_ne_zero ((map_eq_zero ofFp2).mp h6.symm)

/-! ## The curve -/

/-- The curve `y^2 = x^3 + 3` over `Fp12`. -/
def fullCurve : ShortWeierstrass Fp12 :=
  g1.baseChange ofFp

theorem untwist_map_b : fullCurve.b = ofFp2 g2.b * root ^ 6 := by
  have hb : fullCurve.b = ofFp2 (algebraMap Fp Fp2 3) := rfl
  have h : g2.b * xi = (3 : ℕ) := div_mul_cancel₀ _ xi_ne_zero
  rw [hb, root_pow_six, ← map_mul, h, map_ofNat, Nat.cast_ofNat]

/-- The points of the twist on the curve over `Fp12`. -/
def untwist : Scaling g2 fullCurve where
  hom := ofFp2
  c := root
  c_ne_zero := root_ne_zero
  map_a := by
    have ha : g2.a = 0 := rfl
    have hf : fullCurve.a = ofFp2 (algebraMap Fp Fp2 0) := rfl
    rw [ha, hf, map_zero, map_zero, zero_mul]
  map_b := by
    rw [untwist_map_b]

/-! ## Elements with three coefficients -/

/-- The element with the coefficients of a line. -/
def sparse (l0 l3 l4 : Fp2) : Fp12 :=
  ⟨⟨l0, 0, 0⟩, ⟨l3, l4, 0⟩⟩

theorem ofFp2_mul_root (x : Fp2) : ofFp2 x * root = ⟨0, ⟨x, 0, 0⟩⟩ := by
  rw [ofFp2_eq, root]
  refine QuadraticAlgebra.ext ?_ ?_
  · simp [QuadraticAlgebra.re_mul]
  · simp [QuadraticAlgebra.im_mul]

theorem ofFp2_mul_root_sq (x : Fp2) : ofFp2 x * root ^ 2 = ⟨⟨0, x, 0⟩, 0⟩ := by
  have hgen : (⟨x, 0, 0⟩ : Fp6) * CubicAlgebra.gen = ⟨0, x, 0⟩ := by
    refine CubicAlgebra.ext ?_ ?_ ?_ <;> simp
  have hmap : algebraMap Fp6 Fp12 CubicAlgebra.gen = ⟨CubicAlgebra.gen, 0⟩ := rfl
  rw [root_sq, hmap, ofFp2_eq]
  refine QuadraticAlgebra.ext ?_ ?_
  · rw [QuadraticAlgebra.re_mul, hgen]
    simp
  · rw [QuadraticAlgebra.im_mul]
    simp

theorem ofFp2_mul_root_cube (x : Fp2) : ofFp2 x * root ^ 3 = ⟨0, ⟨0, x, 0⟩⟩ := by
  rw [pow_succ, ← mul_assoc, ofFp2_mul_root_sq, root]
  refine QuadraticAlgebra.ext ?_ ?_
  · rw [QuadraticAlgebra.re_mul]
    simp
  · rw [QuadraticAlgebra.im_mul]
    simp

theorem sparse_eq (l0 l3 l4 : Fp2) (x y : Fp) :
    sparse (l0 * QuadraticAlgebra.C y) (l3 * QuadraticAlgebra.C x) l4 =
      scaledLine untwist.hom untwist.c l0 l3 l4 (ofFp x) (ofFp y) := by
  have hhom : untwist.hom = ofFp2 := rfl
  have hc : untwist.c = root := rfl
  have h0 : ofFp2 l0 * ofFp y = ofFp2 (l0 * QuadraticAlgebra.C y) := by
    rw [ofFp_eq, map_mul]
  have h3 : ofFp2 l3 * ofFp x = ofFp2 (l3 * QuadraticAlgebra.C x) := by
    rw [ofFp_eq, map_mul]
  rw [scaledLine, hhom, hc, h0, h3, ofFp2_mul_root, ofFp2_mul_root_cube, ofFp2_eq, sparse]
  refine QuadraticAlgebra.ext ?_ ?_
  · rw [QuadraticAlgebra.re_add, QuadraticAlgebra.re_add, add_zero, add_zero]
  · rw [QuadraticAlgebra.im_add, QuadraticAlgebra.im_add, zero_add]
    refine CubicAlgebra.ext ?_ ?_ ?_ <;> simp

end EraPrecompiles.Pairing
