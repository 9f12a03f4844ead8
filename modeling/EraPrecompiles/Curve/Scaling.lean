import EraPrecompiles.Curve.ShortWeierstrass

/-!
# Maps between curves

A homomorphism of fields together with a factor `c` carries the points of one curve to
those of another by `(x, y) ↦ (c^2 * x, c^3 * y)`, if it carries the constants of the
curves to each other in the same way.  Twists, their Frobenius maps and extensions of the
field of coordinates are all of this form.

Such a map is a homomorphism of the groups of points (`Scaling.pointHom`), since it keeps
chords and tangents.
-/

namespace EraPrecompiles

namespace ShortWeierstrass

theorem map_disc_ne_zero {K L : Type*} [Field K] [Field L] (E : ShortWeierstrass K)
    (φ : K →+* L) : -16 * (4 * φ E.a ^ 3 + 27 * φ E.b ^ 2) ≠ 0 := by
  have h : -16 * (4 * φ E.a ^ 3 + 27 * φ E.b ^ 2) =
      φ (-16 * (4 * E.a ^ 3 + 27 * E.b ^ 2)) := by
    simp only [map_mul, map_neg, map_add, map_pow, map_ofNat]
  rw [h]
  exact (map_ne_zero φ).mpr E.disc_ne_zero

/-- The same curve over a larger field. -/
def baseChange {K L : Type*} [Field K] [Field L] (E : ShortWeierstrass K) (φ : K →+* L) :
    ShortWeierstrass L where
  a := φ E.a
  b := φ E.b
  disc_ne_zero := map_disc_ne_zero E φ

theorem OnCurve.baseChange {K L : Type*} [Field K] [Field L] {E : ShortWeierstrass K} {x y : K}
    (h : E.OnCurve x y) (φ : K →+* L) : (E.baseChange φ).OnCurve (φ x) (φ y) := by
  have hmap := congrArg φ h
  simp only [map_add, map_mul, map_pow] at hmap
  exact hmap

/-- A homomorphism of the fields and a factor, compatible with the constants of two curves. -/
structure Scaling {K L : Type*} [Field K] [Field L]
    (E : ShortWeierstrass K) (F : ShortWeierstrass L) where
  hom : K →+* L
  c : L
  c_ne_zero : c ≠ 0
  map_a : F.a = hom E.a * c ^ 4
  map_b : F.b = hom E.b * c ^ 6

namespace Scaling

section Map

variable {K L : Type*} [Field K] [Field L] {E : ShortWeierstrass K} {F : ShortWeierstrass L}
  (φ : Scaling E F)

theorem onCurve {x y : K} (h : E.OnCurve x y) :
    F.OnCurve (φ.hom x * φ.c ^ 2) (φ.hom y * φ.c ^ 3) := by
  have hmap : φ.hom y ^ 2 = φ.hom x ^ 3 + φ.hom E.a * φ.hom x + φ.hom E.b := by
    rw [← map_pow, h, map_add, map_add, map_pow, map_mul]
  rw [OnCurve, φ.map_a, φ.map_b]
  linear_combination φ.c ^ 6 * hmap

def map : E.Point → F.Point
  | .zero => 0
  | .some x y h =>
      F.point (φ.hom x * φ.c ^ 2) (φ.hom y * φ.c ^ 3) (φ.onCurve (E.nonsingular_iff.mp h))

theorem map_zero : φ.map 0 = 0 := rfl

theorem coords {A : E.Point} {x y : K} (h : Coords A x y) :
    Coords (φ.map A) (φ.hom x * φ.c ^ 2) (φ.hom y * φ.c ^ 3) := by
  obtain ⟨h, rfl⟩ := h
  exact coords_point (φ.onCurve h)

/-- Two ways from one curve to another agree if their homomorphisms and factors do. -/
theorem map_map_eq {K₁ K₂ : Type*} [Field K₁] [Field K₂] {E₁ : ShortWeierstrass K₁}
    {E₂ : ShortWeierstrass K₂} {φ : Scaling E E₁} {ψ : Scaling E₁ F} {φ' : Scaling E E₂}
    {ψ' : Scaling E₂ F} (hhom : ∀ z, ψ.hom (φ.hom z) = ψ'.hom (φ'.hom z))
    (hc : ψ.hom φ.c * ψ.c = ψ'.hom φ'.c * ψ'.c) (A : E.Point) :
    ψ.map (φ.map A) = ψ'.map (φ'.map A) := by
  rcases eq_zero_or_coords A with rfl | ⟨x, y, hxy⟩
  · rfl
  · have hpow (z : K) (k : ℕ) : ψ.hom (φ.hom z * φ.c ^ k) * ψ.c ^ k =
        ψ'.hom (φ'.hom z * φ'.c ^ k) * ψ'.c ^ k := by
      rw [map_mul, map_pow, mul_assoc, ← mul_pow, hc, hhom, map_mul, map_pow, mul_assoc,
        ← mul_pow]
    exact (ψ.coords (φ.coords hxy)).point_unique
      ((ψ'.coords (φ'.coords hxy)).congr (hpow x 2).symm (hpow y 3).symm)

/-! ### What the map keeps -/

section Slopes

variable {x y x₁ y₁ x₂ y₂ l : K}

theorem x_ne (hx : x₁ ≠ x₂) : φ.hom x₁ * φ.c ^ 2 ≠ φ.hom x₂ * φ.c ^ 2 := by
  intro h
  exact hx (φ.hom.injective (mul_right_cancel₀ (pow_ne_zero 2 φ.c_ne_zero) h))

theorem y_ne_zero (hy : y ≠ 0) : φ.hom y * φ.c ^ 3 ≠ 0 :=
  mul_ne_zero ((map_ne_zero φ.hom).mpr hy) (pow_ne_zero 3 φ.c_ne_zero)

theorem chord_slope (hl : l * (x₂ - x₁) = y₂ - y₁) :
    φ.hom l * φ.c * (φ.hom x₂ * φ.c ^ 2 - φ.hom x₁ * φ.c ^ 2) =
      φ.hom y₂ * φ.c ^ 3 - φ.hom y₁ * φ.c ^ 3 := by
  have hmap := congrArg φ.hom hl
  rw [map_mul, map_sub, map_sub] at hmap
  linear_combination φ.c ^ 3 * hmap

theorem tangent_slope (hl : l * (2 * y) = 3 * x ^ 2 + E.a) :
    φ.hom l * φ.c * (2 * (φ.hom y * φ.c ^ 3)) = 3 * (φ.hom x * φ.c ^ 2) ^ 2 + F.a := by
  have hmap := congrArg φ.hom hl
  rw [map_mul, map_mul, map_add, map_mul, map_pow, map_ofNat, map_ofNat] at hmap
  rw [φ.map_a]
  linear_combination φ.c ^ 4 * hmap

end Slopes

end Map

section Homomorphism

variable {K L : Type*} [Field K] [Field L] [DecidableEq K] [DecidableEq L]
  {E : ShortWeierstrass K} {F : ShortWeierstrass L} (φ : Scaling E F)

/-- Chords are kept. -/
theorem map_add_chord {A B : E.Point} {x₁ y₁ x₂ y₂ : K} (hA : Coords A x₁ y₁)
    (hB : Coords B x₂ y₂) (hx : x₁ ≠ x₂) : φ.map (A + B) = φ.map A + φ.map B := by
  have hsub : x₂ - x₁ ≠ 0 := sub_ne_zero.mpr (Ne.symm hx)
  obtain ⟨l, hl⟩ : ∃ l, l * (x₂ - x₁) = y₂ - y₁ := ⟨_, div_mul_cancel₀ _ hsub⟩
  have hsum := φ.coords (hA.add hB hx hl)
  refine hsum.point_unique
    (((φ.coords hA).add (φ.coords hB) (φ.x_ne hx) (φ.chord_slope hl)).congr ?_ ?_)
  · rw [map_sub, map_sub, map_pow]
    ring
  · rw [map_sub, map_mul, map_sub, map_sub, map_sub, map_pow]
    ring

/-- Tangents are kept. -/
theorem map_add_tangent {A : E.Point} {x y : K} (hA : Coords A x y) (hy : y ≠ 0) :
    φ.map (A + A) = φ.map A + φ.map A := by
  have h2y : 2 * y ≠ 0 := mul_ne_zero E.two_ne_zero hy
  obtain ⟨l, hl⟩ : ∃ l, l * (2 * y) = 3 * x ^ 2 + E.a := ⟨_, div_mul_cancel₀ _ h2y⟩
  have hsum := φ.coords (hA.double hy hl)
  refine hsum.point_unique
    (((φ.coords hA).double (φ.y_ne_zero hy) (φ.tangent_slope hl)).congr ?_ ?_)
  · rw [map_sub, map_sub, map_pow]
    ring
  · rw [map_sub, map_mul, map_sub, map_sub, map_sub, map_pow]
    ring

theorem map_add (A B : E.Point) : φ.map (A + B) = φ.map A + φ.map B := by
  rcases eq_zero_or_coords A with rfl | ⟨x₁, y₁, hA⟩
  · rw [map_zero, zero_add, zero_add]
  rcases eq_zero_or_coords B with rfl | ⟨x₂, y₂, hB⟩
  · rw [map_zero, add_zero, add_zero]
  by_cases hx : x₁ = x₂
  · subst hx
    by_cases hy : y₁ = -y₂
    · have hneg : φ.hom y₁ * φ.c ^ 3 = -(φ.hom y₂ * φ.c ^ 3) := by
        rw [hy, map_neg, neg_mul]
      rw [hA.add_eq_zero hB hy, (φ.coords hA).add_eq_zero (φ.coords hB) hneg, map_zero]
    · have hy' : y₁ = y₂ := (hA.eq_or_eq_neg hB).resolve_right hy
      subst hy'
      obtain rfl := hA.point_unique hB
      refine φ.map_add_tangent hA ?_
      rintro rfl
      exact hy neg_zero.symm
  · exact φ.map_add_chord hA hB hx

/-- The map as a homomorphism of groups. -/
def pointHom : E.Point →+ F.Point where
  toFun := φ.map
  map_zero' := φ.map_zero
  map_add' := φ.map_add

omit [DecidableEq K] [DecidableEq L] in
theorem map_eq_zero {A : E.Point} : φ.map A = 0 ↔ A = 0 := by
  constructor
  · intro h
    by_contra hA
    obtain ⟨x, y, hxy⟩ := (eq_zero_or_coords A).resolve_left hA
    exact (φ.coords hxy).ne_zero h
  · rintro rfl
    exact φ.map_zero

end Homomorphism

end Scaling

end ShortWeierstrass

end EraPrecompiles
