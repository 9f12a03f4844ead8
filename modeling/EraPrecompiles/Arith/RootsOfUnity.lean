import Mathlib.LinearAlgebra.Lagrange
import Mathlib.RingTheory.RootsOfUnity.PrimitiveRoots

/-!
# Interpolation at roots of unity

The Lagrange polynomials for the powers of a primitive root, and a formula for their values
outside of these powers.
-/

namespace EraPrecompiles

open Polynomial Finset

section Interpolation

variable {F : Type*} [Field F] {ω x : F} {n i : ℕ}

/-- The polynomial that vanishes at the powers of a primitive root. -/
theorem nodal_powers (h : IsPrimitiveRoot ω n) (hn : 0 < n) :
    Lagrange.nodal (range n) (fun i => ω ^ i) = X ^ n - 1 := by
  have hroots : nthRoots n (1 : F) = (Multiset.range n).map fun i => ω ^ i := by
    simpa only [mul_one] using h.nthRoots_eq (one_pow n)
  have hprod : ((nthRoots n (1 : F)).map fun a => X - C a).prod = X ^ n - C 1 := by
    refine prod_multiset_X_sub_C_of_monic_of_roots_card_eq (monic_X_pow_sub_C 1 hn.ne') ?_
    rw [natDegree_X_pow_sub_C, ← nthRoots]
    exact h.card_nthRoots_one
  rw [hroots, Multiset.map_map, C_1] at hprod
  rw [Lagrange.nodal_eq]
  exact hprod

theorem ne_pow_of_pow_ne_one (h : IsPrimitiveRoot ω n) (hx : x ^ n ≠ 1) (i : ℕ) : x ≠ ω ^ i := by
  rintro rfl
  rw [← pow_mul, mul_comm, pow_mul, h.pow_eq_one, one_pow] at hx
  exact hx rfl

/-- The weight of a power of the root. -/
theorem nodalWeight_powers (h : IsPrimitiveRoot ω n) (hi : i < n) :
    Lagrange.nodalWeight (range n) (fun i => ω ^ i) i = ω ^ i * (n : F)⁻¹ := by
  have hn : 0 < n := by omega
  have hinv : ((ω ^ i) ^ (n - 1))⁻¹ = ω ^ i := by
    refine inv_eq_of_mul_eq_one_left ?_
    rw [← pow_succ', Nat.sub_add_cancel hn, ← pow_mul, mul_comm, pow_mul, h.pow_eq_one, one_pow]
  rw [Lagrange.nodalWeight_eq_eval_derivative_nodal (mem_range.mpr hi), nodal_powers h hn,
    derivative_sub, derivative_X_pow, derivative_one, sub_zero, eval_mul, eval_pow, eval_X,
    eval_C, mul_inv, hinv, mul_comm]

/-- The value of a Lagrange polynomial outside of its domain. -/
theorem eval_basis_powers (h : IsPrimitiveRoot ω n) (hi : i < n) (hx : x ^ n ≠ 1) :
    (Lagrange.basis (range n) (fun i => ω ^ i) i).eval x =
      (x ^ n - 1) * ω ^ i * ((x - ω ^ i) * n)⁻¹ := by
  rw [Lagrange.eval_basis_not_at_node (mem_range.mpr hi) (ne_pow_of_pow_ne_one h hx i),
    nodal_powers h (by omega), nodalWeight_powers h hi, eval_sub, eval_pow, eval_X, eval_one,
    mul_inv]
  ring

end Interpolation

end EraPrecompiles
