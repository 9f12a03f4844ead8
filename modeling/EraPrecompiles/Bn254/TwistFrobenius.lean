import EraPrecompiles.Bn254.Tower
import EraPrecompiles.Bn254.TwistOrder
import EraPrecompiles.Curve.Scaling

/-!
# The Frobenius map of the twist

On the untwisted points the coordinates are raised to the power `p`.  On the twist this is
the map `(x, y) ↦ (star x * gamma^2, star y * gamma^3)`.  The points that `r` kills are
eigenvectors of it, with the eigenvalue `p`: this is so for the generator, by evaluation.
-/

namespace EraPrecompiles.Bn254

open ShortWeierstrass

theorem xi_mul_gamma_pow : xi * gamma ^ 6 = star xi := by
  have hexp : p = (p - 1) / 6 * 6 + 1 := by decide
  rw [← xi_pow, ← pow_mul, ← pow_succ', ← hexp, fp2_pow_p]

theorem gamma_ne_zero : gamma ≠ 0 := by
  intro h
  have hstar := xi_mul_gamma_pow
  rw [h, zero_pow (by decide), mul_zero, eq_comm, star_eq_zero] at hstar
  exact xi_ne_zero hstar

theorem star_b_mul_gamma_pow : g2.b = star g2.b * gamma ^ 6 := by
  have h : g2.b * xi = (3 : ℕ) := div_mul_cancel₀ _ xi_ne_zero
  have hstar : star g2.b * star xi = (3 : ℕ) := by
    rw [← star_mul', h, star_natCast]
  refine mul_right_cancel₀ xi_ne_zero ?_
  rw [h, ← hstar, ← xi_mul_gamma_pow]
  ring

/-- `(x, y) ↦ (star x * gamma^2, star y * gamma^3)` -/
def twistFrobenius : Scaling g2 g2 where
  hom := starRingEnd Fp2
  c := gamma
  c_ne_zero := gamma_ne_zero
  map_a := by
    have ha : g2.a = 0 := rfl
    rw [ha, map_zero, zero_mul]
  map_b := star_b_mul_gamma_pow

theorem coords_twistFrobenius {A : g2.Point} {x y : Fp2} (h : Coords A x y) :
    Coords (twistFrobenius.map A) (star x * gamma ^ 2) (star y * gamma ^ 3) :=
  twistFrobenius.coords h

theorem twistFrobenius_generator :
    twistFrobenius.map twistGenerator = (p - r) • twistGenerator := by
  have hG := coords_twistGenerator
  have hn : p - r ≠ 0 := by decide
  have hcheck : multipleCheck twistGeneratorX twistGeneratorY (p - r)
      (star twistGeneratorX * gamma ^ 2) (star twistGeneratorY * gamma ^ 3) = true := by
    decide +kernel
  exact (nsmul_eq_of_multipleCheck rfl hG (coords_twistFrobenius hG) hn hcheck).symm

/-- On the points of order `r` the map is the multiplication by `p`. -/
theorem twistFrobenius_eq {A : g2.Point} (hA : r • A = 0) : twistFrobenius.map A = p • A := by
  obtain ⟨k, rfl⟩ := exists_nsmul_twistGenerator hA
  have hle : r ≤ p := by decide
  have hG := add_nsmul twistGenerator r (p - r)
  rw [Nat.add_sub_of_le hle, nsmul_twistGenerator, zero_add, ← twistFrobenius_generator] at hG
  have hmap := map_nsmul twistFrobenius.pointHom k twistGenerator
  exact hmap.trans ((congrArg (k • ·) hG.symm).trans (nsmul_left_comm twistGenerator p k))

end EraPrecompiles.Bn254
