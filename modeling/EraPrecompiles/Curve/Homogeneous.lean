import EraPrecompiles.Curve.ShortWeierstrass

/-!
# Homogeneous coordinates

A triple `(X, Y, Z)` stands for the point `(X / Z, Y / Z)` when `Z` is not zero,
and for the point at infinity when it is zero, whatever `X` and `Y` are.  The
formulas below are those of the precompiles, as operations of the field:

* `chordAdd` adds points that are neither equal nor at infinity;
* `tangentDouble` doubles on any curve, also at infinity and where `y = 0`;
* `completeDouble` does the same on the curves with `a = 0`.

`completeAdd` puts the first two together to an addition of any points.
-/

namespace EraPrecompiles

namespace ShortWeierstrass

/-- The triple stands for the point `A`. -/
def Homogeneous {K : Type*} [Field K] {E : ShortWeierstrass K}
    (A : E.Point) (T : K × K × K) : Prop :=
  (A = 0 ∧ T.2.2 = 0) ∨
    ∃ x y, Coords A x y ∧ T.2.2 ≠ 0 ∧ T.1 = x * T.2.2 ∧ T.2.1 = y * T.2.2

section Formulas

variable {K : Type*} [Field K]

def chordAdd (P Q : K × K × K) : K × K × K :=
  let (X₁, Y₁, Z₁) := P
  let (X₂, Y₂, Z₂) := Q
  let t := Y₁ * Z₂ - Y₂ * Z₁
  let u := X₁ * Z₂ - X₂ * Z₁
  let u2 := u * u
  let u3 := u2 * u
  let v := Z₁ * Z₂
  let w := t * t * v - u2 * (X₁ * Z₂ + X₂ * Z₁)
  (u * w, t * (X₁ * Z₂ * u2 - w) - Y₁ * Z₂ * u3, u3 * v)

def tangentDouble (a : K) (P : K × K × K) : K × K × K :=
  let (X, Y, Z) := P
  let t := X * X + (X * X + X * X) + a * (Z * Z)
  let u := Y * Z + Y * Z
  let v := u * (X * Y) + u * (X * Y)
  let w := t * t - (v + v)
  (u * w, t * (v - w) - (u * Y * (u * Y) + u * Y * (u * Y)), u * (u * u))

/-- Addition of any two points. -/
def completeAdd [DecidableEq K] (a : K) (P Q : K × K × K) : K × K × K :=
  if P.2.2 = 0 then
    Q
  else if Q.2.2 = 0 then
    P
  else if P.1 * Q.2.2 = Q.1 * P.2.2 ∧ P.2.1 * Q.2.2 = Q.2.1 * P.2.2 then
    tangentDouble a P
  else
    chordAdd P Q

/-- Here `b3` is three times the constant of the curve. -/
def completeDouble (b3 : K) (P : K × K × K) : K × K × K :=
  let (X, Y, Z) := P
  let t2 := b3 * (Z * Z)
  let t0 := Y * Y - (t2 + t2 + t2)
  let z := Y * Y + Y * Y + (Y * Y + Y * Y) + (Y * Y + Y * Y + (Y * Y + Y * Y))
  (t0 * (X * Y) + t0 * (X * Y), t2 * z + t0 * (Y * Y + t2), Y * Z * z)

end Formulas

namespace Homogeneous

section Reading

variable {K : Type*} [Field K] {E : ShortWeierstrass K} {A : E.Point} {T : K × K × K}

theorem zero {X Y : K} : Homogeneous (0 : E.Point) (X, Y, 0) :=
  Or.inl ⟨rfl, rfl⟩

theorem of_coords {x y : K} (h : Coords A x y) : Homogeneous A (x, y, 1) :=
  Or.inr ⟨x, y, h, one_ne_zero, (mul_one x).symm, (mul_one y).symm⟩

theorem eq_zero_iff (h : Homogeneous A T) : A = 0 ↔ T.2.2 = 0 := by
  rcases h with ⟨hA, hZ⟩ | ⟨x, y, hxy, hZ, -, -⟩
  · exact ⟨fun _ => hZ, fun _ => hA⟩
  · exact ⟨fun hA => absurd hA hxy.ne_zero, fun h0 => absurd h0 hZ⟩

theorem exists_coords (h : Homogeneous A T) (hA : A ≠ 0) :
    ∃ x y, Coords A x y ∧ T.2.2 ≠ 0 ∧ T.1 = x * T.2.2 ∧ T.2.1 = y * T.2.2 := by
  rcases h with ⟨hA', -⟩ | h
  · exact absurd hA' hA
  · exact h

/-- The affine coordinates, by division by `Z`. -/
theorem coords (h : Homogeneous A T) (hZ : T.2.2 ≠ 0) :
    Coords A (T.1 * T.2.2⁻¹) (T.2.1 * T.2.2⁻¹) := by
  obtain ⟨x, y, hxy, -, hX, hY⟩ := h.exists_coords (mt h.eq_zero_iff.mp hZ)
  refine hxy.congr ?_ ?_
  · rw [hX, mul_assoc, mul_inv_cancel₀ hZ, mul_one]
  · rw [hY, mul_assoc, mul_inv_cancel₀ hZ, mul_one]

/-- A common factor of the coordinates does not matter. -/
theorem of_mul {c X Y Z : K} (hc : c ≠ 0) (h : Homogeneous A (c * X, c * Y, c * Z)) :
    Homogeneous A (X, Y, Z) := by
  rcases h with ⟨hA, hZ⟩ | ⟨x, y, hxy, hZ, hX, hY⟩
  · exact Or.inl ⟨hA, (mul_eq_zero.mp hZ).resolve_left hc⟩
  · dsimp only at hZ hX hY
    refine Or.inr ⟨x, y, hxy, right_ne_zero_of_mul hZ, mul_left_cancel₀ hc ?_,
      mul_left_cancel₀ hc ?_⟩
    · rw [hX]
      ring
    · rw [hY]
      ring

variable {B : E.Point} {P Q : K × K × K}

/-- Points not at infinity are compared by their cross products. -/
theorem eq_iff (hP : Homogeneous A P) (hQ : Homogeneous B Q) (hA0 : A ≠ 0) (hB0 : B ≠ 0) :
    A = B ↔ P.1 * Q.2.2 = Q.1 * P.2.2 ∧ P.2.1 * Q.2.2 = Q.2.1 * P.2.2 := by
  obtain ⟨x₁, y₁, hA, hZ₁, hX₁, hY₁⟩ := hP.exists_coords hA0
  obtain ⟨x₂, y₂, hB, hZ₂, hX₂, hY₂⟩ := hQ.exists_coords hB0
  have hZ : P.2.2 * Q.2.2 ≠ 0 := mul_ne_zero hZ₁ hZ₂
  have hcross : ∀ c d : K, c * P.2.2 * Q.2.2 = d * Q.2.2 * P.2.2 ↔ c = d := by
    intro c d
    have h : d * Q.2.2 * P.2.2 = d * (P.2.2 * Q.2.2) := by ring
    rw [mul_assoc, h, mul_left_inj' hZ]
  rw [hX₁, hX₂, hY₁, hY₂, hcross, hcross]
  constructor
  · rintro rfl
    exact hA.unique hB
  · rintro ⟨hx, hy⟩
    exact (hA.congr hx hy).point_unique hB

end Reading

section Addition

variable {K : Type*} [Field K] [DecidableEq K] {E : ShortWeierstrass K}
  {A B : E.Point} {P Q : K × K × K}

/-- The chord formula, for points that are neither equal nor at infinity. -/
theorem chord (hP : Homogeneous A P) (hQ : Homogeneous B Q) (hA0 : A ≠ 0) (hB0 : B ≠ 0)
    (hAB : A ≠ B) : Homogeneous (A + B) (chordAdd P Q) := by
  obtain ⟨X₁, Y₁, Z₁⟩ := P
  obtain ⟨X₂, Y₂, Z₂⟩ := Q
  obtain ⟨x₁, y₁, hA, hZ₁, hX₁, hY₁⟩ := hP.exists_coords hA0
  obtain ⟨x₂, y₂, hB, hZ₂, hX₂, hY₂⟩ := hQ.exists_coords hB0
  dsimp only at hZ₁ hX₁ hY₁ hZ₂ hX₂ hY₂
  subst hX₁ hY₁ hX₂ hY₂
  by_cases hx : x₁ = x₂
  · left
    subst hx
    have hy : y₁ ≠ y₂ := by
      rintro rfl
      exact hAB (hA.point_unique hB)
    refine ⟨hA.add_eq_zero hB ((hA.eq_or_eq_neg hB).resolve_left hy), ?_⟩
    simp only [chordAdd]
    ring
  · right
    have hsub : x₂ - x₁ ≠ 0 := sub_ne_zero.mpr (Ne.symm hx)
    refine ⟨_, _, hA.add hB hx (div_mul_cancel₀ _ hsub), ?_, ?_, ?_⟩
    · have h : (chordAdd (x₁ * Z₁, y₁ * Z₁, Z₁) (x₂ * Z₂, y₂ * Z₂, Z₂)).2.2 =
          (-(x₂ - x₁)) ^ 3 * (Z₁ * Z₂) ^ 4 := by
        simp only [chordAdd]
        ring
      rw [h]
      exact mul_ne_zero (pow_ne_zero 3 (neg_ne_zero.mpr hsub))
        (pow_ne_zero 4 (mul_ne_zero hZ₁ hZ₂))
    · simp only [chordAdd]
      field_simp
      ring
    · simp only [chordAdd]
      field_simp
      ring

/-- With the same `x`, points that are not equal are opposite. -/
theorem add_eq_zero (hP : Homogeneous A P) (hQ : Homogeneous B Q) (hA0 : A ≠ 0)
    (hB0 : B ≠ 0) (hAB : A ≠ B) (hX : P.1 * Q.2.2 = Q.1 * P.2.2) : A + B = 0 := by
  obtain ⟨x₁, y₁, hA, hZ₁, hX₁, hY₁⟩ := hP.exists_coords hA0
  obtain ⟨x₂, y₂, hB, hZ₂, hX₂, hY₂⟩ := hQ.exists_coords hB0
  have hx : x₁ = x₂ := by
    have hZ : P.2.2 * Q.2.2 ≠ 0 := mul_ne_zero hZ₁ hZ₂
    refine mul_right_cancel₀ hZ ?_
    rw [hX₁, hX₂] at hX
    linear_combination hX
  subst hx
  have hy : y₁ ≠ y₂ := by
    rintro rfl
    exact hAB (hA.point_unique hB)
  exact hA.add_eq_zero hB ((hA.eq_or_eq_neg hB).resolve_left hy)

theorem tangent (hA : Homogeneous A P) : Homogeneous (A + A) (tangentDouble E.a P) := by
  obtain ⟨X, Y, Z⟩ := P
  rcases hA with ⟨rfl, hZ⟩ | ⟨x, y, hA, hZ, hX, hY⟩
  · left
    dsimp only at hZ
    subst hZ
    refine ⟨add_zero 0, ?_⟩
    simp only [tangentDouble]
    ring
  · dsimp only at hZ hX hY
    subst hX hY
    by_cases hy : y = 0
    · left
      subst hy
      refine ⟨hA.add_eq_zero hA (neg_zero).symm, ?_⟩
      simp only [tangentDouble]
      ring
    · right
      have h2 : (2 : K) ≠ 0 := E.two_ne_zero
      have h2y : 2 * y ≠ 0 := mul_ne_zero h2 hy
      refine ⟨_, _, hA.double hy (div_mul_cancel₀ _ h2y), ?_, ?_, ?_⟩
      · have h : (tangentDouble E.a (x * Z, y * Z, Z)).2.2 = (2 * y) ^ 3 * Z ^ 6 := by
          simp only [tangentDouble]
          ring
        rw [h]
        exact mul_ne_zero (pow_ne_zero 3 h2y) (pow_ne_zero 6 hZ)
      · simp only [tangentDouble]
        field_simp
        ring
      · simp only [tangentDouble]
        field_simp
        ring

theorem add (hP : Homogeneous A P) (hQ : Homogeneous B Q) :
    Homogeneous (A + B) (completeAdd E.a P Q) := by
  rw [completeAdd]
  by_cases hA0 : A = 0
  · rw [if_pos (hP.eq_zero_iff.mp hA0), hA0, zero_add]
    exact hQ
  by_cases hB0 : B = 0
  · rw [if_neg (mt hP.eq_zero_iff.mpr hA0), if_pos (hQ.eq_zero_iff.mp hB0), hB0, add_zero]
    exact hP
  rw [if_neg (mt hP.eq_zero_iff.mpr hA0), if_neg (mt hQ.eq_zero_iff.mpr hB0)]
  by_cases hAB : A = B
  · rw [if_pos ((hP.eq_iff hQ hA0 hB0).mp hAB), ← hAB]
    exact hP.tangent
  · rw [if_neg (mt (hP.eq_iff hQ hA0 hB0).mpr hAB)]
    exact hP.chord hQ hA0 hB0 hAB

theorem complete (ha : E.a = 0) {b3 : K} (hb3 : b3 = 3 * E.b) (hA : Homogeneous A P) :
    Homogeneous (A + A) (completeDouble b3 P) := by
  obtain ⟨X, Y, Z⟩ := P
  rcases hA with ⟨rfl, hZ⟩ | ⟨x, y, hA, hZ, hX, hY⟩
  · left
    dsimp only at hZ
    subst hZ
    refine ⟨add_zero 0, ?_⟩
    simp only [completeDouble]
    ring
  · dsimp only at hZ hX hY
    subst hX hY hb3
    by_cases hy : y = 0
    · left
      subst hy
      refine ⟨hA.add_eq_zero hA (neg_zero).symm, ?_⟩
      simp only [completeDouble]
      ring
    · right
      have h2 : (2 : K) ≠ 0 := E.two_ne_zero
      have h2y : 2 * y ≠ 0 := mul_ne_zero h2 hy
      have hcurve : y ^ 2 = x ^ 3 + E.b := by
        have h := hA.onCurve
        rw [OnCurve, ha] at h
        linear_combination h
      refine ⟨_, _, hA.double hy (div_mul_cancel₀ _ h2y), ?_, ?_, ?_⟩
      · have h : (completeDouble (3 * E.b) (x * Z, y * Z, Z)).2.2 =
            (2 * y) ^ 3 * Z ^ 4 := by
          simp only [completeDouble]
          ring
        rw [h]
        exact mul_ne_zero (pow_ne_zero 3 h2y) (pow_ne_zero 4 hZ)
      · simp only [completeDouble, ha]
        field_simp
        linear_combination 72 * x * hcurve
      · simp only [completeDouble, ha]
        field_simp
        linear_combination 72 * (y ^ 2 + 3 * E.b - 3 * x ^ 3) * hcurve

end Addition

end Homogeneous

end ShortWeierstrass

end EraPrecompiles
