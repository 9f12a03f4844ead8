import EraPrecompiles.Bn254.G1
import Mathlib.Algebra.QuadraticAlgebra.Basic
import Mathlib.NumberTheory.LegendreSymbol.Basic

/-!
# The quadratic extension of the base field

`Fp2` is `Fp` with a square root `u` of `-1`, which exists in no smaller field
since `p = 3` modulo `4`.  An element is handled as two words, the Montgomery
forms of its coordinates; the operations commute with this encoding.
-/

namespace EraPrecompiles.Bn254

theorem neg_one_not_square (r : Fp) : r ^ 2 ≠ -1 + 0 * r := by
  intro h
  have hsq : IsSquare (-1 : Fp) := ⟨r, by linear_combination -h⟩
  rw [ZMod.exists_sq_eq_neg_one_iff] at hsq
  exact hsq (by decide)

instance fact_neg_one_not_square : Fact (∀ r : Fp, r ^ 2 ≠ -1 + 0 * r) :=
  ⟨neg_one_not_square⟩

/-- Elements `re + im * u` with `u ^ 2 = -1`. -/
abbrev Fp2 : Type := QuadraticAlgebra Fp (-1) 0

/-- The words an element is handled as. -/
def encFp2 (x : Fp2) : Word × Word :=
  (enc x.re, enc x.im)

theorem card_fp2 : Nat.card Fp2 = p ^ 2 := by
  rw [Nat.card_congr (QuadraticAlgebra.equivProd _ _), Nat.card_prod, Nat.card_zmod, sq]

instance finite_fp2 : Finite Fp2 :=
  Nat.finite_of_card_ne_zero (by
    rw [card_fp2]
    exact pow_ne_zero 2 (by decide))

/-! ## The program -/

def fp2Add (a b : Word × Word) : Word × Word :=
  (montgomeryAdd a.1 b.1, montgomeryAdd a.2 b.2)

def fp2Sub (a b : Word × Word) : Word × Word :=
  (montgomerySub a.1 b.1, montgomerySub a.2 b.2)

def fp2Mul (a b : Word × Word) : Word × Word :=
  (montgomerySub (montgomeryMul a.1 b.1) (montgomeryMul a.2 b.2),
    montgomeryAdd (montgomeryMul a.1 b.2) (montgomeryMul a.2 b.1))

def fp2Inv (fuel : ℕ) (a : Word × Word) : Option (Word × Word) := do
  let t0 := montgomeryMul a.1 a.1
  let t1 := montgomeryMul a.2 a.2
  let t0 := montgomeryAdd t0 t1
  let t1 ← montgomeryModularInverse fuel t0
  return (montgomeryMul a.1 t1, montgomerySub 0 (montgomeryMul a.2 t1))

/-! ## The operations on Montgomery forms -/

theorem encFp2_injective : Function.Injective encFp2 := by
  intro x y h
  rw [encFp2, encFp2, Prod.mk.injEq, enc_inj, enc_inj] at h
  exact QuadraticAlgebra.ext h.1 h.2

@[simp] theorem encFp2_inj {x y : Fp2} : encFp2 x = encFp2 y ↔ x = y :=
  encFp2_injective.eq_iff

theorem encFp2_zero : encFp2 0 = (0, 0) := by
  rw [encFp2, QuadraticAlgebra.re_zero, QuadraticAlgebra.im_zero, enc_zero]

theorem encFp2_one : encFp2 1 = (MONTGOMERY_ONE, 0) := by
  rw [encFp2, QuadraticAlgebra.re_one, QuadraticAlgebra.im_one, enc_zero, MONTGOMERY_ONE_eq]

@[simp] theorem fp2Add_enc (x y : Fp2) : fp2Add (encFp2 x) (encFp2 y) = encFp2 (x + y) := by
  simp only [fp2Add, encFp2, montgomeryAdd_enc, QuadraticAlgebra.re_add,
    QuadraticAlgebra.im_add]

@[simp] theorem fp2Sub_enc (x y : Fp2) : fp2Sub (encFp2 x) (encFp2 y) = encFp2 (x - y) := by
  simp only [fp2Sub, encFp2, montgomerySub_enc, QuadraticAlgebra.re_sub,
    QuadraticAlgebra.im_sub]

@[simp] theorem fp2Mul_enc (x y : Fp2) : fp2Mul (encFp2 x) (encFp2 y) = encFp2 (x * y) := by
  have hre : x.re * y.re - x.im * y.im = (x * y).re := by
    rw [QuadraticAlgebra.re_mul]
    ring
  have him : x.re * y.im + x.im * y.re = (x * y).im := by
    rw [QuadraticAlgebra.im_mul]
    ring
  simp only [fp2Mul, encFp2, montgomeryMul_enc, montgomerySub_enc, montgomeryAdd_enc, hre,
    him]

/-- The sum of squares the inversion divides by. -/
theorem sq_add_sq_ne_zero {x : Fp2} (hx : x ≠ 0) : x.re * x.re + x.im * x.im ≠ 0 := by
  intro h
  refine hx (QuadraticAlgebra.norm_eq_zero_iff_eq_zero.mp ?_)
  rw [QuadraticAlgebra.norm_def]
  linear_combination h

theorem inv_eq {x : Fp2} (hx : x ≠ 0) :
    x⁻¹ = ⟨x.re * (x.re * x.re + x.im * x.im)⁻¹,
      0 - x.im * (x.re * x.re + x.im * x.im)⁻¹⟩ := by
  have hn := mul_inv_cancel₀ (sq_add_sq_ne_zero hx)
  refine inv_eq_of_mul_eq_one_right (QuadraticAlgebra.ext ?_ ?_)
  · rw [QuadraticAlgebra.re_mul, QuadraticAlgebra.re_one]
    linear_combination hn
  · rw [QuadraticAlgebra.im_mul, QuadraticAlgebra.im_one]
    ring

theorem fp2Inv_yields {x : Fp2} (hx : x ≠ 0) :
    Yields (fun fuel => fp2Inv fuel (encFp2 x)) (encFp2 x⁻¹) := by
  have h0 : (0 : Word) = enc (0 : Fp) := enc_zero.symm
  simp only [fp2Inv, encFp2, montgomeryMul_enc, montgomeryAdd_enc, inv_eq hx, h0]
  refine (montgomeryModularInverse_enc (sq_add_sq_ne_zero hx)).bind ?_
  simp only [montgomeryMul_enc, montgomerySub_enc]
  exact Yields.const _

/-- Inverting zero, the loop never ends. -/
theorem fp2Inv_zero_diverges : Diverges (fun fuel => fp2Inv fuel (encFp2 0)) := by
  have hzero : (0 : Fp2).re * (0 : Fp2).re + (0 : Fp2).im * (0 : Fp2).im = 0 := by
    simp
  simp only [fp2Inv, encFp2, montgomeryMul_enc, montgomeryAdd_enc, hzero]
  exact montgomeryModularInverse_zero_diverges.bind _

end EraPrecompiles.Bn254
