import EraPrecompiles.Curve.Scaling

/-!
# Lines through points

The line through two points of a curve, as a function on the plane: the chord through two
points, the tangent for a point and itself, and the vertical line for a point and its
opposite.

`line_peel` is the identity behind a shortcut for the multiplier `3 = 4 - 1`: instead of
doubling `2 * Q` and subtracting `Q`, one may add `Q` to `2 * Q`, with a line through `2 * Q`
and `-Q` in addition.  The two ways differ by vertical lines.
-/

namespace EraPrecompiles

namespace ShortWeierstrass

section Definition

variable {K : Type*} [Field K] [DecidableEq K] {E : ShortWeierstrass K}

/-- The line through two points, at the place `(x, y)`. -/
def line (A B : E.Point) (x y : K) : K :=
  match A, B with
  | .zero, .zero => 1
  | .zero, .some x₂ _ _ => x - x₂
  | .some x₁ _ _, .zero => x - x₁
  | .some x₁ y₁ _, .some x₂ y₂ _ =>
      if x₁ = x₂ then
        if y₁ = -y₂ then
          x - x₁
        else
          y - y₁ - (x₁ ^ 2 + x₁ ^ 2 + x₁ ^ 2 + E.a) / (y₁ + y₁) * (x - x₁)
      else
        y - y₁ - (y₂ - y₁) / (x₂ - x₁) * (x - x₁)

variable {A B : E.Point} {x₁ y₁ x₂ y₂ l : K}

theorem line_chord (hA : Coords A x₁ y₁) (hB : Coords B x₂ y₂) (hx : x₁ ≠ x₂)
    (hl : l * (x₂ - x₁) = y₂ - y₁) (x y : K) :
    line A B x y = y - y₁ - l * (x - x₁) := by
  have hsub : x₂ - x₁ ≠ 0 := sub_ne_zero.mpr (Ne.symm hx)
  obtain ⟨_, rfl⟩ := hA
  obtain ⟨_, rfl⟩ := hB
  rw [point, point, line, if_neg hx, ← hl, mul_div_cancel_right₀ l hsub]

theorem line_tangent (hA : Coords A x₁ y₁) (hy : y₁ ≠ 0)
    (hl : l * (2 * y₁) = 3 * x₁ ^ 2 + E.a) (x y : K) :
    line A A x y = y - y₁ - l * (x - x₁) := by
  have h2y : 2 * y₁ ≠ 0 := mul_ne_zero E.two_ne_zero hy
  have hneg : y₁ ≠ -y₁ := by
    intro h
    exact h2y (by linear_combination h)
  have hslope : (x₁ ^ 2 + x₁ ^ 2 + x₁ ^ 2 + E.a) / (y₁ + y₁) = l := by
    rw [← two_mul y₁, div_eq_iff h2y]
    linear_combination -hl
  obtain ⟨_, rfl⟩ := hA
  rw [point, line, if_pos rfl, if_neg hneg, hslope]

theorem line_vertical (hA : Coords A x₁ y₁) (x y : K) : line A (-A) x y = x - x₁ := by
  have hneg := hA.neg
  obtain ⟨_, rfl⟩ := hA
  obtain ⟨_, hB⟩ := hneg
  rw [hB, point, point, line, if_pos rfl, if_pos (neg_neg y₁).symm]

/-- At the opposite place, up to the sign: the line through the opposite points. -/
theorem line_neg_neg (A B : E.Point) (x y : K) :
    line A B x (-y) = line (-A) (-B) x y ∨ line A B x (-y) = -line (-A) (-B) x y := by
  rcases eq_zero_or_coords A with rfl | ⟨x₁, y₁, hA⟩
  · rcases eq_zero_or_coords B with rfl | ⟨x₂, y₂, hB⟩
    · exact Or.inl rfl
    · have hneg := hB.neg
      obtain ⟨_, rfl⟩ := hB
      obtain ⟨_, hB'⟩ := hneg
      rw [neg_zero, hB']
      exact Or.inl rfl
  have hnegA := hA.neg
  obtain ⟨_, rfl⟩ := hA
  obtain ⟨_, hA'⟩ := hnegA
  rcases eq_zero_or_coords B with rfl | ⟨x₂, y₂, hB⟩
  · rw [neg_zero, hA']
    exact Or.inl rfl
  have hnegB := hB.neg
  obtain ⟨_, rfl⟩ := hB
  obtain ⟨_, hB'⟩ := hnegB
  rw [hA', hB', point, point, point, point, line, line]
  by_cases hx : x₁ = x₂
  · by_cases hy : y₁ = -y₂
    · rw [if_pos hx, if_pos hy, if_pos hx, if_pos (by rw [hy])]
      exact Or.inl rfl
    · have hy' : ¬-y₁ = - -y₂ := fun h => hy (neg_injective h)
      rw [if_pos hx, if_neg hy, if_pos hx, if_neg hy', ← neg_add, div_neg]
      right
      ring
  · have hslope : (-y₂ - -y₁) / (x₂ - x₁) = -((y₂ - y₁) / (x₂ - x₁)) := by
      rw [← neg_div]
      congr 1
      ring
    rw [if_neg hx, if_neg hx, hslope]
    right
    ring

end Definition

/-! ## Lines through images of points -/

section Image

variable {K L : Type*} [Field K] [Field L]

/-- A line with coefficients in the smaller field: `l0 * y + l3 * x * w + l4 * w^3`. -/
def scaledLine (φ : K →+* L) (w : L) (l0 l3 l4 : K) (x y : L) : L :=
  φ l0 * y + φ l3 * x * w + φ l4 * w ^ 3

variable [DecidableEq L] {E : ShortWeierstrass K} {F : ShortWeierstrass L} (φ : Scaling E F)
  {A B : E.Point} {x₁ y₁ x₂ y₂ l : K}

/-- The tangent at the image of a point, times a constant. -/
theorem mul_line_tangent (hA : Coords A x₁ y₁) (hy : y₁ ≠ 0)
    (hl : l * (2 * y₁) = 3 * x₁ ^ 2 + E.a) (c : K) (x y : L) :
    φ.hom c * line (φ.map A) (φ.map A) x y =
      scaledLine φ.hom φ.c c (-(c * l)) (c * (l * x₁ - y₁)) x y := by
  rw [line_tangent (φ.coords hA) (φ.y_ne_zero hy) (φ.tangent_slope hl), scaledLine]
  simp only [map_neg, map_mul, map_sub]
  ring

/-- The chord through the images of two points, times a constant. -/
theorem mul_line_chord (hA : Coords A x₁ y₁) (hB : Coords B x₂ y₂) (hx : x₁ ≠ x₂)
    (hl : l * (x₂ - x₁) = y₂ - y₁) (c : K) (x y : L) :
    φ.hom c * line (φ.map A) (φ.map B) x y =
      scaledLine φ.hom φ.c c (-(c * l)) (c * (l * x₁ - y₁)) x y := by
  rw [line_chord (φ.coords hA) (φ.coords hB) (φ.x_ne hx) (φ.chord_slope hl),
    scaledLine]
  simp only [map_neg, map_mul, map_sub]
  ring

/-- Where nothing is scaled, a line through images is the image of the line. -/
theorem line_map [DecidableEq K] (hc : φ.c = 1) (A B : E.Point) (x y : K) :
    line (φ.map A) (φ.map B) (φ.hom x) (φ.hom y) = φ.hom (line A B x y) := by
  cases A with
  | zero =>
      cases B with
      | zero => exact (map_one φ.hom).symm
      | some x₂ y₂ h₂ =>
          show φ.hom x - φ.hom x₂ * φ.c ^ 2 = φ.hom (x - x₂)
          rw [hc, one_pow, mul_one, map_sub]
  | some x₁ y₁ h₁ =>
      cases B with
      | zero =>
          show φ.hom x - φ.hom x₁ * φ.c ^ 2 = φ.hom (x - x₁)
          rw [hc, one_pow, mul_one, map_sub]
      | some x₂ y₂ h₂ =>
          have ha : F.a = φ.hom E.a := by
            rw [φ.map_a, hc, one_pow, mul_one]
          simp only [Scaling.map, point, line, hc, one_pow, mul_one, φ.hom.injective.eq_iff,
            ← map_neg, ha]
          split_ifs
          · rw [map_sub]
          · simp only [map_sub, map_mul, map_div₀, map_add, map_pow]
          · simp only [map_sub, map_mul, map_div₀]

end Image

/-! ## Three times a point in two ways -/

section Peel

variable {K : Type*} [Field K] {a x y s t u w l m n k : K}

/-- The slopes of the tangent at `Q`, of the chord to `2 * Q`, of the tangent there and of
the chord from `4 * Q` to `-Q`. -/
structure PeelSlopes (a x y s t u w l m n k : K) : Prop where
  tangent : l * (2 * y) = 3 * x ^ 2 + a
  double_x : s = l ^ 2 - x - x
  double_y : t = l * (x - s) - y
  chord : m * (s - x) = t - y
  tangent' : n * (2 * t) = 3 * s ^ 2 + a
  double_x' : u = n ^ 2 - s - s
  double_y' : w = n * (s - u) - t
  chord' : k * (u - x) = w + y

namespace PeelSlopes

variable (h : PeelSlopes a x y s t u w l m n k)
include h

theorem slope_sub : (m - l) * (s - x) = 2 * t := by
  linear_combination h.chord - h.double_y

/-- Both sides are the tangent at `-Q`, read at `2 * Q`. -/
theorem tangent_third : s ^ 2 + x * s + x ^ 2 + a + l * (t - y) = 0 := by
  rw [h.double_y]
  linear_combination (s - x) * h.double_x - h.tangent

theorem third_point :
    (3 * s ^ 2 + a) * (s - x) ^ 2 - 2 * t * (s - x) * (t - y) =
      (3 * s ^ 2 + a) ^ 2 - 4 * t ^ 2 * (2 * s + x) := by
  have ha : a = l * (2 * y) - 3 * x ^ 2 := by
    linear_combination -h.tangent
  rw [ha, h.double_y, h.double_x]
  ring

theorem slope_sub' (ht : 2 * t ≠ 0) : (n - m) * (s - x) ^ 2 = 2 * t * (u - x) := by
  refine mul_left_cancel₀ ht ?_
  linear_combination (s - x) ^ 2 * h.tangent' - 2 * t * (s - x) * h.chord + h.third_point -
    (n * (2 * t) + (3 * s ^ 2 + a)) * h.tangent' - 4 * t ^ 2 * h.double_x'

/-- The slopes of the two pairs of lines have the same sum. -/
theorem chord'_eq (ht : 2 * t ≠ 0) (hx : s - x ≠ 0) (hu : u - x ≠ 0) : k = m - l - n := by
  have hsub := h.slope_sub' ht
  have hk : (m - l - n) * (u - x) = w + y := by
    refine mul_left_cancel₀ hx ?_
    linear_combination (u - x) * h.slope_sub - hsub - (s - x) * h.double_y' - (s - x) * h.chord
  exact mul_right_cancel₀ hu (h.chord'.trans hk.symm)

/-- The values of the two pairs of lines, divided by what they vanish at. -/
theorem quotients_eq (ht : 2 * t ≠ 0) (hx : s - x ≠ 0) (hu : u - x ≠ 0) (X Y : K) :
    X ^ 2 + x * X + x ^ 2 + a + (l - m) * Y - (l + m) * y - l * m * (X - x) =
      X ^ 2 + u * X + u ^ 2 + a - (k + n) * Y - (k - n) * w + n * k * (X - u) := by
  have hk := h.chord'_eq ht hx hu
  have hsum : x - l * m = u + n * k := by
    refine mul_right_cancel₀ hx ?_
    rw [hk]
    linear_combination -l * h.chord - (s - x) * h.double_x' - n * h.slope_sub - h.tangent' -
      h.tangent_third
  -- both sides are zero at the double of `Q`
  have hleft : s ^ 2 + x * s + x ^ 2 + a + (l - m) * t - (l + m) * y - l * m * (s - x) = 0 := by
    linear_combination h.tangent_third - m * h.double_y
  have hright :
      s ^ 2 + u * s + u ^ 2 + a - (k + n) * t - (k - n) * w + n * k * (s - u) = 0 := by
    linear_combination -(k - n) * h.double_y' - h.tangent' - (s - u) * h.double_x'
  linear_combination (X - s) * hsum + (Y - t) * hk + hleft - hright

/-- The products of lines, with the vertical lines they differ by. -/
theorem lines_eq (ht : 2 * t ≠ 0) (hx : s - x ≠ 0) (hu : u - x ≠ 0) {b X Y : K}
    (hQ : y ^ 2 = x ^ 3 + a * x + b) (hQ' : w ^ 2 = u ^ 3 + a * u + b)
    (hXY : Y ^ 2 = X ^ 3 + a * X + b) :
    (Y + y + l * (X - x)) * (Y - y - m * (X - x)) * (X - u) =
      (Y - t - n * (X - s)) * (Y + y - k * (X - x)) * (X - x) := by
  have hquot := h.quotients_eq ht hx hu X Y
  have hleft : (Y + y + l * (X - x)) * (Y - y - m * (X - x)) = (X - x) *
      (X ^ 2 + x * X + x ^ 2 + a + (l - m) * Y - (l + m) * y - l * m * (X - x)) := by
    linear_combination hXY - hQ
  have hright : (Y - t - n * (X - s)) * (Y + y - k * (X - x)) = (X - u) *
      (X ^ 2 + u * X + u ^ 2 + a - (k + n) * Y - (k - n) * w + n * k * (X - u)) := by
    have hn : Y - t - n * (X - s) = Y + w - n * (X - u) := by
      linear_combination -h.double_y'
    have hk : Y + y - k * (X - x) = Y - w - k * (X - u) := by
      linear_combination -h.chord'
    rw [hn, hk]
    linear_combination hXY - hQ'
  rw [hleft, hright, hquot]
  ring

end PeelSlopes

/-- From `Q` to `3 * Q`: through `2 * Q` and `Q` on the one side, through `4 * Q` and `-Q` on
the other. -/
theorem line_peel [DecidableEq K] {E : ShortWeierstrass K} {Q : E.Point}
    (hQ : ∀ k, 0 < k → k ≤ 5 → k • Q ≠ 0) {X Y : K} (hXY : E.OnCurve X Y) :
    line (2 • Q) (-Q) X Y * line (2 • Q) Q X Y * line (4 • Q) (-(4 • Q)) X Y =
      line (2 • Q) (2 • Q) X Y * line (4 • Q) (-Q) X Y * line Q (-Q) X Y := by
  have h1 : Q ≠ 0 := by
    rw [← one_nsmul Q]
    exact hQ 1 (by omega) (by omega)
  have h2 : Q + Q ≠ 0 := by
    rw [← two_nsmul]
    exact hQ 2 (by omega) (by omega)
  have h3 := hQ 3 (by omega) (by omega)
  have h4 := hQ 4 (by omega) (by omega)
  have h5 := hQ 5 (by omega) (by omega)
  have hfour : 4 • Q = 2 • Q + 2 • Q := by
    rw [← add_nsmul]
  obtain ⟨x, y, hxy⟩ := (eq_zero_or_coords Q).resolve_left h1
  have hy := hxy.y_ne_zero h2
  obtain ⟨l, hl⟩ : ∃ l, l * (2 * y) = 3 * x ^ 2 + E.a :=
    ⟨_, div_mul_cancel₀ _ (mul_ne_zero E.two_ne_zero hy)⟩
  have hst := hxy.double hy hl
  rw [← two_nsmul] at hst
  generalize hs : l ^ 2 - x - x = s at hst
  generalize ht : l * (x - s) - y = t at hst
  have ht0 : t ≠ 0 := hst.y_ne_zero (by rw [← hfour]; exact h4)
  obtain ⟨n, hn⟩ : ∃ n, n * (2 * t) = 3 * s ^ 2 + E.a :=
    ⟨_, div_mul_cancel₀ _ (mul_ne_zero E.two_ne_zero ht0)⟩
  have huw := hst.double ht0 hn
  rw [← hfour] at huw
  generalize hu : n ^ 2 - s - s = u at huw
  generalize hw : n * (s - u) - t = w at huw
  have hsx : s ≠ x := by
    refine hst.x_ne hxy ?_ ?_
    · intro h
      rw [two_nsmul] at h
      exact h1 (add_eq_right.mp h)
    · rw [← succ_nsmul]
      exact h3
  have hux : u ≠ x := by
    refine huw.x_ne hxy ?_ ?_
    · intro h
      rw [succ_nsmul] at h
      exact h3 (add_eq_right.mp h)
    · rw [← succ_nsmul]
      exact h5
  obtain ⟨m, hm⟩ : ∃ m, m * (s - x) = t - y := ⟨_, div_mul_cancel₀ _ (sub_ne_zero.mpr hsx)⟩
  obtain ⟨k, hk⟩ : ∃ k, k * (u - x) = w + y := ⟨_, div_mul_cancel₀ _ (sub_ne_zero.mpr hux)⟩
  have hpeel : PeelSlopes E.a x y s t u w l m n k :=
    ⟨hl, hs.symm, ht.symm, hm, hn, hu.symm, hw.symm, hk⟩
  have hlines := hpeel.lines_eq (mul_ne_zero E.two_ne_zero ht0) (sub_ne_zero.mpr hsx)
    (sub_ne_zero.mpr hux) hxy.onCurve huw.onCurve hXY
  have hA : line (2 • Q) (-Q) X Y = Y + y + l * (X - x) := by
    rw [line_chord hst hxy.neg hsx (l := -l) (by linear_combination -ht)]
    linear_combination ht
  have hB : line (2 • Q) Q X Y = Y - y - m * (X - x) := by
    rw [line_chord hst hxy hsx (l := m) (by linear_combination -hm)]
    linear_combination hm
  have hC : line (4 • Q) (-Q) X Y = Y + y - k * (X - x) := by
    rw [line_chord huw hxy.neg hux (l := k) (by linear_combination -hk)]
    linear_combination hk
  rw [hA, hB, hC, line_vertical huw, line_tangent hst ht0 hn, line_vertical hxy]
  exact hlines

end Peel

end ShortWeierstrass

end EraPrecompiles
