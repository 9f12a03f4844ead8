import EraPrecompiles.Curve.ShortWeierstrass

/-!
# Jacobian coordinates

A triple `(X, Y, Z)` stands for the point `(X / Z^2, Y / Z^3)` when `Z` is not
zero, and for the point at infinity when it is zero.  `jacobianChord` and
`jacobianDouble` are the formulas of the precompiles over the twist, for curves
with `a = 0`.

The chord formula is not complete.  It is right for distinct points; for equal
points it gives a triple with `Z = 0`, that is, infinity instead of the double.
-/

namespace EraPrecompiles

namespace ShortWeierstrass

/-- The triple stands for the point `A`. -/
def Jacobian {K : Type*} [Field K] {E : ShortWeierstrass K}
    (A : E.Point) (T : K × K × K) : Prop :=
  (A = 0 ∧ T.2.2 = 0) ∨
    ∃ x y, Coords A x y ∧ T.2.2 ≠ 0 ∧ T.1 = x * T.2.2 ^ 2 ∧ T.2.1 = y * T.2.2 ^ 3

section Formulas

variable {K : Type*} [Field K]

def jacobianChord (P Q : K × K × K) : K × K × K :=
  let (X₁, Y₁, Z₁) := P
  let (X₂, Y₂, Z₂) := Q
  let u := X₁ * (Z₂ * Z₂)
  let s := Y₁ * (Z₂ * (Z₂ * Z₂))
  let h := X₂ * (Z₁ * Z₁) - u
  let i := (h + h) * (h + h)
  let j := h * i
  let t := Y₂ * (Z₁ * (Z₁ * Z₁)) - s
  let r := t + t
  let v := u * i
  let x := r * r - j - (v + v)
  (x, r * (v - x) - (s * j + s * j),
    ((Z₁ + Z₂) * (Z₁ + Z₂) - Z₁ * Z₁ - Z₂ * Z₂) * h)

def jacobianDouble (P : K × K × K) : K × K × K :=
  let (X, Y, Z) := P
  let a := X * X
  let b := Y * Y
  let c := b * b
  let t := (X + b) * (X + b) - a - c
  let d := t + t
  let e := a + a + a
  let x := e * e - (d + d)
  let c8 := c + c + (c + c) + (c + c + (c + c))
  (x, e * (d - x) - c8, Y * Z + Y * Z)

end Formulas

namespace Jacobian

section Reading

variable {K : Type*} [Field K] {E : ShortWeierstrass K} {A : E.Point} {T : K × K × K}

theorem zero {X Y : K} : Jacobian (0 : E.Point) (X, Y, 0) :=
  Or.inl ⟨rfl, rfl⟩

theorem of_coords {x y : K} (h : Coords A x y) : Jacobian A (x, y, 1) := by
  refine Or.inr ⟨x, y, h, one_ne_zero, ?_, ?_⟩
  · rw [one_pow, mul_one]
  · rw [one_pow, mul_one]

theorem eq_zero_iff (h : Jacobian A T) : A = 0 ↔ T.2.2 = 0 := by
  rcases h with ⟨hA, hZ⟩ | ⟨x, y, hxy, hZ, -, -⟩
  · exact ⟨fun _ => hZ, fun _ => hA⟩
  · exact ⟨fun hA => absurd hA hxy.ne_zero, fun h0 => absurd h0 hZ⟩

theorem exists_coords (h : Jacobian A T) (hA : A ≠ 0) :
    ∃ x y, Coords A x y ∧ T.2.2 ≠ 0 ∧ T.1 = x * T.2.2 ^ 2 ∧ T.2.1 = y * T.2.2 ^ 3 := by
  rcases h with ⟨hA', -⟩ | h
  · exact absurd hA' hA
  · exact h

/-- The affine coordinates, by division by the powers of `Z`. -/
theorem coords (h : Jacobian A T) (hZ : T.2.2 ≠ 0) :
    Coords A (T.1 * (T.2.2 * T.2.2)⁻¹) (T.2.1 * (T.2.2 * T.2.2 * T.2.2)⁻¹) := by
  obtain ⟨x, y, hxy, -, hX, hY⟩ := h.exists_coords (mt h.eq_zero_iff.mp hZ)
  refine hxy.congr ?_ ?_
  · rw [hX]
    field_simp
  · rw [hY]
    field_simp

/-- Off the axes the first two coordinates determine the third. -/
theorem z_unique {X Y Z Z' x y : K} (hxy : Coords A x y) (hx : x ≠ 0) (hy : y ≠ 0)
    (h : Jacobian A (X, Y, Z)) (h' : Jacobian A (X, Y, Z')) : Z = Z' := by
  obtain ⟨x₁, y₁, hxy₁, hZ, hX, hY⟩ := h.exists_coords hxy.ne_zero
  obtain ⟨x₂, y₂, hxy₂, -, hX', hY'⟩ := h'.exists_coords hxy.ne_zero
  obtain ⟨rfl, rfl⟩ := hxy₁.unique hxy
  obtain ⟨rfl, rfl⟩ := hxy₂.unique hxy
  dsimp only at hZ hX hY hX' hY'
  have hsq : Z ^ 2 = Z' ^ 2 := mul_left_cancel₀ hx (hX.symm.trans hX')
  have hcube : Z ^ 3 = Z' ^ 3 := mul_left_cancel₀ hy (hY.symm.trans hY')
  refine mul_left_cancel₀ (pow_ne_zero 2 hZ) ?_
  calc
    Z ^ 2 * Z = Z ^ 3 := by ring
    _ = Z' ^ 2 * Z' := by rw [hcube]; ring
    _ = Z ^ 2 * Z' := by rw [hsq]

end Reading

section Addition

variable {K : Type*} [Field K] [DecidableEq K] {E : ShortWeierstrass K}
  {A B : E.Point} {P Q : K × K × K}

/-- The chord formula, for distinct points not at infinity. -/
theorem chord (hP : Jacobian A P) (hQ : Jacobian B Q) (hA0 : A ≠ 0) (hB0 : B ≠ 0)
    (hAB : A ≠ B) : Jacobian (A + B) (jacobianChord P Q) := by
  obtain ⟨X₁, Y₁, Z₁⟩ := P
  obtain ⟨X₂, Y₂, Z₂⟩ := Q
  obtain ⟨x₁, y₁, hA, hZ₁, hX₁, hY₁⟩ := hP.exists_coords hA0
  obtain ⟨x₂, y₂, hB, hZ₂, hX₂, hY₂⟩ := hQ.exists_coords hB0
  dsimp only at hZ₁ hX₁ hY₁ hZ₂ hX₂ hY₂
  subst hX₁ hY₁ hX₂ hY₂
  by_cases hx : x₁ = x₂
  · left
    subst hx
    have hy : y₁ ≠ y₂ := by
      rintro rfl
      exact hAB (hA.point_unique hB)
    refine ⟨hA.add_eq_zero hB ((hA.eq_or_eq_neg hB).resolve_left hy), ?_⟩
    simp only [jacobianChord]
    ring
  · right
    have h2 : (2 : K) ≠ 0 := E.two_ne_zero
    have hsub : x₂ - x₁ ≠ 0 := sub_ne_zero.mpr (Ne.symm hx)
    refine ⟨_, _, hA.add hB hx (div_mul_cancel₀ _ hsub), ?_, ?_, ?_⟩
    · have h : (jacobianChord (x₁ * Z₁ ^ 2, y₁ * Z₁ ^ 3, Z₁)
          (x₂ * Z₂ ^ 2, y₂ * Z₂ ^ 3, Z₂)).2.2 = 2 * (x₂ - x₁) * (Z₁ * Z₂) ^ 3 := by
        simp only [jacobianChord]
        ring
      rw [h]
      exact mul_ne_zero (mul_ne_zero h2 hsub) (pow_ne_zero 3 (mul_ne_zero hZ₁ hZ₂))
    · simp only [jacobianChord]
      field_simp
      ring
    · simp only [jacobianChord]
      field_simp
      ring

omit [DecidableEq K] in
/-- For equal points the chord formula gives infinity. -/
theorem chord_self (hP : Jacobian A P) (hQ : Jacobian A Q) (hA0 : A ≠ 0) :
    (jacobianChord P Q).2.2 = 0 := by
  obtain ⟨X₁, Y₁, Z₁⟩ := P
  obtain ⟨X₂, Y₂, Z₂⟩ := Q
  obtain ⟨x₁, y₁, hA, -, hX₁, -⟩ := hP.exists_coords hA0
  obtain ⟨x₂, y₂, hB, -, hX₂, -⟩ := hQ.exists_coords hA0
  obtain ⟨rfl, -⟩ := hA.unique hB
  dsimp only at hX₁ hX₂
  subst hX₁ hX₂
  simp only [jacobianChord]
  ring

theorem double (ha : E.a = 0) (hP : Jacobian A P) :
    Jacobian (A + A) (jacobianDouble P) := by
  obtain ⟨X, Y, Z⟩ := P
  rcases hP with ⟨rfl, hZ⟩ | ⟨x, y, hA, hZ, hX, hY⟩
  · left
    dsimp only at hZ
    subst hZ
    refine ⟨add_zero 0, ?_⟩
    simp only [jacobianDouble]
    ring
  · dsimp only at hZ hX hY
    subst hX hY
    by_cases hy : y = 0
    · left
      subst hy
      refine ⟨hA.add_eq_zero hA neg_zero.symm, ?_⟩
      simp only [jacobianDouble]
      ring
    · right
      have h2 : (2 : K) ≠ 0 := E.two_ne_zero
      have h2y : 2 * y ≠ 0 := mul_ne_zero h2 hy
      refine ⟨_, _, hA.double hy (div_mul_cancel₀ _ h2y), ?_, ?_, ?_⟩
      · have h : (jacobianDouble (x * Z ^ 2, y * Z ^ 3, Z)).2.2 = 2 * y * Z ^ 4 := by
          simp only [jacobianDouble]
          ring
        rw [h]
        exact mul_ne_zero h2y (pow_ne_zero 4 hZ)
      · simp only [jacobianDouble, ha]
        field_simp
        ring
      · simp only [jacobianDouble, ha]
        field_simp
        ring

end Addition

end Jacobian

end ShortWeierstrass

end EraPrecompiles
