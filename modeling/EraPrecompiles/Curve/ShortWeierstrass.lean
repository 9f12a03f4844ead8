import Mathlib.Tactic
import Mathlib.AlgebraicGeometry.EllipticCurve.Affine.Point

/-!
# Short Weierstrass curves

The curves `y^2 = x^3 + a * x + b` over a field, with nonzero discriminant.  The
points with their addition are the group that Mathlib defines for Weierstrass
curves in affine coordinates; this file restates the addition of that group in
the short form, as the chord and the tangent rule.

The slope of a line is not a quotient here.  The rules take any `l` with
`l * (x₂ - x₁) = y₂ - y₁`, so that they apply to quotients that were computed in
whatever way.
-/

namespace EraPrecompiles

/-- The curve `y^2 = x^3 + a * x + b`. -/
structure ShortWeierstrass (K : Type*) [Field K] where
  a : K
  b : K
  disc_ne_zero : -16 * (4 * a ^ 3 + 27 * b ^ 2) ≠ 0

namespace ShortWeierstrass

section Equation

variable {K : Type*} [Field K] (E : ShortWeierstrass K)

/-- The curve among the general Weierstrass curves. -/
def curve : WeierstrassCurve.Affine K :=
  ⟨0, 0, 0, E.a, E.b⟩

/-- The group of points. -/
abbrev Point : Type _ :=
  E.curve.Point

def OnCurve (x y : K) : Prop :=
  y ^ 2 = x ^ 3 + E.a * x + E.b

instance [DecidableEq K] (x y : K) : Decidable (E.OnCurve x y) :=
  inferInstanceAs (Decidable (_ = _))

include E in
theorem two_ne_zero : (2 : K) ≠ 0 := by
  intro h
  refine E.disc_ne_zero ?_
  have h16 : (-16 : K) = -8 * 2 := by norm_num
  rw [h16, h, mul_zero, zero_mul]

/-- All points of the curve are nonsingular. -/
theorem nonsingular_iff {x y : K} :
    E.curve.Nonsingular x y ↔ E.OnCurve x y := by
  have hdisc : E.curve.Δ ≠ 0 := by
    have h : E.curve.Δ = -16 * (4 * E.a ^ 3 + 27 * E.b ^ 2) := by
      simp only [curve, WeierstrassCurve.Δ, WeierstrassCurve.b₂, WeierstrassCurve.b₄,
        WeierstrassCurve.b₆, WeierstrassCurve.b₈]
      ring
    rw [h]
    exact E.disc_ne_zero
  rw [← WeierstrassCurve.Affine.equation_iff_nonsingular_of_Δ_ne_zero hdisc,
    WeierstrassCurve.Affine.equation_iff]
  simp [curve, OnCurve]

/-- The point with given coordinates. -/
def point (x y : K) (h : E.OnCurve x y) : E.Point :=
  .some x y (E.nonsingular_iff.mpr h)

variable {E}

/-- `A` is the point with coordinates `x` and `y`. -/
def Coords (A : E.Point) (x y : K) : Prop :=
  ∃ h : E.OnCurve x y, A = E.point x y h

theorem coords_point {x y : K} (h : E.OnCurve x y) : Coords (E.point x y h) x y :=
  ⟨h, rfl⟩

theorem coords_of_eq_some
    {A : E.Point} {x y x' y' : K} {h : E.curve.Nonsingular x y}
    (hA : A = .some x y h) (hx : x = x') (hy : y = y') :
    Coords A x' y' := by
  subst hx hy
  exact ⟨E.nonsingular_iff.mp h, hA⟩

theorem eq_zero_or_coords (A : E.Point) : A = 0 ∨ ∃ x y, Coords A x y := by
  cases A with
  | zero => exact Or.inl rfl
  | some x y h => exact Or.inr ⟨x, y, coords_of_eq_some rfl rfl rfl⟩

theorem OnCurve.neg {x y : K} (h : E.OnCurve x y) : E.OnCurve x (-y) := by
  rw [OnCurve, neg_sq]
  exact h

namespace Coords

variable {A B : E.Point} {x y x₁ y₁ x₂ y₂ : K}

theorem onCurve (h : Coords A x y) : E.OnCurve x y :=
  h.1

theorem ne_zero (h : Coords A x y) : A ≠ 0 := by
  obtain ⟨h, rfl⟩ := h
  exact WeierstrassCurve.Affine.Point.some_ne_zero _

theorem congr (h : Coords A x₁ y₁) (hx : x₁ = x₂) (hy : y₁ = y₂) :
    Coords A x₂ y₂ := by
  subst hx hy
  exact h

/-- The coordinates determine the point. -/
theorem point_unique (hA : Coords A x y) (hB : Coords B x y) : A = B := by
  obtain ⟨_, rfl⟩ := hA
  obtain ⟨_, rfl⟩ := hB
  rfl

/-- The point determines the coordinates. -/
theorem unique (h₁ : Coords A x₁ y₁) (h₂ : Coords A x₂ y₂) :
    x₁ = x₂ ∧ y₁ = y₂ := by
  obtain ⟨_, rfl⟩ := h₁
  obtain ⟨_, h⟩ := h₂
  rw [point, point, WeierstrassCurve.Affine.Point.some.injEq] at h
  exact h

theorem neg (h : Coords A x y) : Coords (-A) x (-y) := by
  obtain ⟨h, rfl⟩ := h
  refine coords_of_eq_some (WeierstrassCurve.Affine.Point.neg_some _) rfl ?_
  simp [WeierstrassCurve.Affine.negY, curve]

/-- Points with the same `x` are equal or opposite. -/
theorem eq_or_eq_neg (hA : Coords A x y₁) (hB : Coords B x y₂) :
    y₁ = y₂ ∨ y₁ = -y₂ :=
  sq_eq_sq_iff_eq_or_eq_neg.mp (hA.onCurve.trans hB.onCurve.symm)

end Coords

end Equation

/-! ## The addition -/

section Addition

variable {K : Type*} [Field K] [DecidableEq K] {E : ShortWeierstrass K}

namespace Coords

variable {A B : E.Point} {x y x₁ y₁ x₂ y₂ l : K}

theorem add_eq_zero (hA : Coords A x y₁) (hB : Coords B x y₂) (hy : y₁ = -y₂) :
    A + B = 0 := by
  have h : A = -B := (hA.congr rfl hy).point_unique hB.neg
  rw [h, neg_add_cancel]

/-- Points that are neither equal nor opposite have different first coordinates. -/
theorem x_ne (hA : Coords A x₁ y₁) (hB : Coords B x₂ y₂) (hne : A ≠ B) (hsum : A + B ≠ 0) :
    x₁ ≠ x₂ := by
  rintro rfl
  rcases hA.eq_or_eq_neg hB with rfl | hy
  · exact hne (hA.point_unique hB)
  · exact hsum (hA.add_eq_zero hB hy)

theorem y_ne_zero (hA : Coords A x y) (h : A + A ≠ 0) : y ≠ 0 := by
  rintro rfl
  exact h (hA.add_eq_zero hA neg_zero.symm)

/-- The chord rule. -/
theorem add (hA : Coords A x₁ y₁) (hB : Coords B x₂ y₂)
    (hx : x₁ ≠ x₂) (hl : l * (x₂ - x₁) = y₂ - y₁) :
    Coords (A + B) (l ^ 2 - x₁ - x₂) (l * (x₁ - (l ^ 2 - x₁ - x₂)) - y₁) := by
  obtain ⟨hA, rfl⟩ := hA
  obtain ⟨hB, rfl⟩ := hB
  have hslope : E.curve.slope x₁ x₂ y₁ y₂ = l := by
    rw [WeierstrassCurve.Affine.slope_of_X_ne hx, div_eq_iff (sub_ne_zero.mpr hx)]
    linear_combination hl
  refine coords_of_eq_some (WeierstrassCurve.Affine.Point.add_of_X_ne hx) ?_ ?_
  · rw [hslope]
    simp [WeierstrassCurve.Affine.addX, curve]
  · rw [hslope]
    simp only [WeierstrassCurve.Affine.addY, WeierstrassCurve.Affine.negAddY,
      WeierstrassCurve.Affine.negY, WeierstrassCurve.Affine.addX, curve]
    ring

/-- The tangent rule. -/
theorem double (hA : Coords A x y) (hy : y ≠ 0)
    (hl : l * (2 * y) = 3 * x ^ 2 + E.a) :
    Coords (A + A) (l ^ 2 - x - x) (l * (x - (l ^ 2 - x - x)) - y) := by
  obtain ⟨hA, rfl⟩ := hA
  have hneg : E.curve.negY x y = -y := by
    simp [WeierstrassCurve.Affine.negY, curve]
  have hyneg : y - -y ≠ 0 := by
    rw [sub_neg_eq_add, ← two_mul]
    exact mul_ne_zero E.two_ne_zero hy
  have hne : y ≠ E.curve.negY x y := by
    rw [hneg]
    exact sub_ne_zero.mp hyneg
  have hslope : E.curve.slope x x y y = l := by
    rw [WeierstrassCurve.Affine.slope_of_Y_ne rfl hne, hneg, div_eq_iff hyneg]
    simp only [curve]
    linear_combination -hl
  refine coords_of_eq_some (WeierstrassCurve.Affine.Point.add_self_of_Y_ne hne) ?_ ?_
  · rw [hslope]
    simp [WeierstrassCurve.Affine.addX, curve]
  · rw [hslope]
    simp only [WeierstrassCurve.Affine.addY, WeierstrassCurve.Affine.negAddY,
      WeierstrassCurve.Affine.negY, WeierstrassCurve.Affine.addX, curve]
    ring

end Coords

/-- Without a root of the cubic there is no point of order two. -/
theorem double_ne_zero
    (hroot : ∀ x, ¬E.OnCurve x 0) {A : E.Point} (hA : A ≠ 0) :
    A + A ≠ 0 := by
  obtain ⟨x, y, h⟩ := (eq_zero_or_coords A).resolve_left hA
  have hy : y ≠ 0 := by
    rintro rfl
    exact hroot x h.onCurve
  have hl : (3 * x ^ 2 + E.a) / (2 * y) * (2 * y) = 3 * x ^ 2 + E.a :=
    div_mul_cancel₀ _ (mul_ne_zero E.two_ne_zero hy)
  exact (h.double hy hl).ne_zero

end Addition

end ShortWeierstrass

end EraPrecompiles
