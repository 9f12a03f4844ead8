import EraPrecompiles.Bn254.TwistOrder
import EraPrecompiles.Curve.Homogeneous
import EraPrecompiles.Pairing.Untwist

/-!
# The steps of the Miller loop

`doubleStep` and `mixedAdditionStep` compute the next point of the loop in homogeneous
coordinates, together with the coefficients of the line that leads to it; `computeLine` is
the second without the point.  The coefficients are kept in the places of an element of
`Fp12`, and the loop multiplies two of them by the coordinates of the other point
(`evaluateLine`).

The point is the double, or the sum, and the value is that of the tangent, or the chord, of the
untwisted points, up to a factor in `Fp2` that is not zero: `doubleStep_enc`,
`mixedAdditionStep_enc` and, in terms of words, `millerSteps_consistent`.
-/

namespace EraPrecompiles.Pairing

open Bn254 ShortWeierstrass

/-! ## The program -/

/-- The words of a point of the twist in homogeneous coordinates. -/
abbrev TwistWords : Type := (Word × Word) × (Word × Word) × (Word × Word)

def MONTGOMERY_TWO_INV : Word :=
  14119558874979547267292681013829403749242370018224634694350716214666112402802

def doubleStep (q : TwistWords) : Words12 × TwistWords :=
  let (xq, yq, zq) := q
  let twoInv := MONTGOMERY_TWO_INV
  let t0 := fp2Mul xq yq
  let t1 := fp2ScalarMul t0 twoInv
  let t2 := fp2Mul yq yq
  let t3 := fp2Mul zq zq
  let t4 := fp2Add t3 t3
  let t4 := fp2Add t4 t3
  let t5 := MONTGOMERY_TWISTED_CURVE_COEFFS
  let t5 := fp2Mul t4 t5
  let t6 := fp2Add t5 t5
  let t6 := fp2Add t6 t5
  let t7 := fp2Add t2 t6
  let t7 := fp2ScalarMul t7 twoInv
  let t8 := fp2Add yq zq
  let t8 := fp2Mul t8 t8
  let t9 := fp2Add t3 t2
  let t8 := fp2Sub t8 t9
  let t10 := fp2Sub t5 t2
  let t11 := fp2Mul xq xq
  let t12 := fp2Mul t5 t5
  let t13 := fp2Add t12 t12
  let t13 := fp2Add t13 t12
  let l0 := fp2Neg t8
  let l3 := fp2Add t11 t11
  let l3 := fp2Add l3 t11
  let l4 := t10
  let xt := fp2Sub t2 t6
  let xt := fp2Mul xt t1
  let yt := fp2Mul t7 t7
  let yt := fp2Sub yt t13
  let zt := fp2Mul t2 t8
  (((l0, (0, 0), (0, 0)), (l3, l4, (0, 0))), (xt, yt, zt))

def mixedAdditionStep (xq yq : Word × Word) (t : TwistWords) : Words12 × TwistWords :=
  let (xt, yt, zt) := t
  let t0 := fp2Mul yq zt
  let t1 := fp2Sub yt t0
  let t0 := fp2Mul xq zt
  let t2 := fp2Sub xt t0
  let t3 := fp2Mul t1 t1
  let t4 := fp2Mul t2 t2
  let t5 := fp2Mul t2 t4
  let t6 := fp2Mul zt t3
  let t7 := fp2Mul xt t4
  let t0 := fp2Add t7 t7
  let t8 := fp2Add t5 t6
  let t8 := fp2Sub t8 t0
  let t0 := fp2Mul yt t5
  let xc := fp2Mul t2 t8
  let yc := fp2Sub t7 t8
  let yc := fp2Mul yc t1
  let yc := fp2Sub yc t0
  let zc := fp2Mul t5 zt
  let t0 := fp2Mul t2 yq
  let t9 := fp2Mul xq t1
  let t9 := fp2Sub t9 t0
  let l0 := t2
  let l3 := fp2Neg t1
  let l4 := t9
  (((l0, (0, 0), (0, 0)), (l3, l4, (0, 0))), (xc, yc, zc))

def computeLine (xq yq : Word × Word) (t : TwistWords) : Words12 :=
  let (xt, yt, zt) := t
  let t0 := fp2Mul yq zt
  let t1 := fp2Sub yt t0
  let t0 := fp2Mul xq zt
  let t2 := fp2Sub xt t0
  let t3 := fp2Mul t2 yq
  let t4 := fp2Mul xq t1
  let t4 := fp2Sub t4 t3
  let l0 := t2
  let l3 := fp2Neg t1
  let l4 := t4
  ((l0, (0, 0), (0, 0)), (l3, l4, (0, 0)))

/-- `l00, l01 := fp2ScalarMul(l00, l01, yp)` and `l30, l31 := fp2ScalarMul(l30, l31, xp)` -/
def evaluateLine (l : Words12) (xp yp : Word) : Words12 :=
  let ((l0, l1, l2), (l3, l4, l5)) := l
  ((fp2ScalarMul l0 yp, l1, l2), (fp2ScalarMul l3 xp, l4, l5))

/-! ## The formulas -/

/-- The words of a triple. -/
def encTwist (T : Fp2 × Fp2 × Fp2) : TwistWords :=
  (encFp2 T.1, encFp2 T.2.1, encFp2 T.2.2)

theorem encFp12_sparse (l0 l3 l4 : Fp2) :
    encFp12 (sparse l0 l3 l4) =
      ((encFp2 l0, (0, 0), (0, 0)), (encFp2 l3, encFp2 l4, (0, 0))) := by
  rw [encFp12, sparse, encFp6, encFp6, encFp2_zero]

theorem MONTGOMERY_TWO_INV_eq : MONTGOMERY_TWO_INV = enc (2⁻¹ : Fp) := by
  have hinv : (2⁻¹ : Fp) = ((p + 1) / 2 : ℕ) := by
    refine inv_eq_of_mul_eq_one_right ?_
    rw [← Nat.cast_ofNat, ← Nat.cast_mul]
    decide
  rw [hinv, enc_natCast]
  decide

/-- Half of an element. -/
theorem mul_half (x : Fp2) : 2 * (x * QuadraticAlgebra.C 2⁻¹) = x := by
  have h2 : (2 : Fp) ≠ 0 := g1.two_ne_zero
  have hC : (2 : Fp2) * QuadraticAlgebra.C 2⁻¹ = 1 := by
    rw [← QuadraticAlgebra.C_ofNat, ← QuadraticAlgebra.C_mul, mul_inv_cancel₀ h2,
      QuadraticAlgebra.C_one]
  rw [mul_left_comm, hC, mul_one]

/-- A step with equal coefficients and coordinates. -/
theorem encStep_congr {a b c a' b' c' : Fp2} {S T : Fp2 × Fp2 × Fp2} (ha : a = a') (hb : b = b')
    (hc : c = c') (hX : S.1 = T.1) (hY : S.2.1 = T.2.1) (hZ : S.2.2 = T.2.2) :
    (((encFp2 a, (0, 0), (0, 0)), (encFp2 b, encFp2 c, (0, 0))),
        (encFp2 S.1, encFp2 S.2.1, encFp2 S.2.2)) =
      (encFp12 (sparse a' b' c'), encTwist T) := by
  rw [encFp12_sparse, encTwist, ha, hb, hc, hX, hY, hZ]

/-- The line and the double, for the coordinates `X`, `Y` and `Z`. -/
theorem doubleStep_enc (X Y Z : Fp2) :
    doubleStep (encTwist (X, Y, Z)) =
      (encFp12 (sparse (-(2 * Y * Z)) (3 * X ^ 2) (3 * g2.b * Z ^ 2 - Y ^ 2)),
        encTwist ((Y ^ 2 - 9 * g2.b * Z ^ 2) * (X * Y * QuadraticAlgebra.C 2⁻¹),
          ((Y ^ 2 + 9 * g2.b * Z ^ 2) * QuadraticAlgebra.C 2⁻¹) ^ 2 -
            3 * (3 * g2.b * Z ^ 2) ^ 2,
          2 * Y ^ 3 * Z)) := by
  show doubleStep (encFp2 X, encFp2 Y, encFp2 Z) = _
  simp only [doubleStep, MONTGOMERY_TWISTED_CURVE_COEFFS_eq, MONTGOMERY_TWO_INV_eq,
    fp2Mul_enc, fp2Add_enc, fp2Sub_enc, fp2Neg_enc, fp2ScalarMul_enc]
  refine encStep_congr (S := (_, _, _)) ?_ ?_ ?_ ?_ ?_ ?_
  · ring
  · ring
  · ring
  · ring
  · ring
  · ring

theorem mixedAdditionStep_enc (x y X Y Z : Fp2) :
    mixedAdditionStep (encFp2 x) (encFp2 y) (encTwist (X, Y, Z)) =
      (encFp12 (sparse (X - x * Z) (-(Y - y * Z)) (x * (Y - y * Z) - (X - x * Z) * y)),
        encTwist (chordAdd (X, Y, Z) (x, y, 1))) := by
  show mixedAdditionStep (encFp2 x) (encFp2 y) (encFp2 X, encFp2 Y, encFp2 Z) = _
  simp only [mixedAdditionStep, fp2Mul_enc, fp2Add_enc, fp2Sub_enc, fp2Neg_enc]
  refine encStep_congr (S := (_, _, _)) rfl rfl rfl ?_ ?_ ?_
  · simp only [chordAdd]
    ring
  · simp only [chordAdd]
    ring
  · simp only [chordAdd]
    ring

theorem evaluateLine_enc (l0 l3 l4 : Fp2) (x y : Fp) :
    evaluateLine (encFp12 (sparse l0 l3 l4)) (enc x) (enc y) =
      encFp12 (sparse (l0 * QuadraticAlgebra.C y) (l3 * QuadraticAlgebra.C x) l4) := by
  rw [encFp12_sparse, encFp12_sparse]
  simp only [evaluateLine, fp2ScalarMul_enc]

/-! ## The points -/

section Points

variable {T Q : g2.Point} {X Y Z x y : Fp2}

theorem homogeneous_double (h : Homogeneous T (X, Y, Z)) :
    Homogeneous (T + T) ((Y ^ 2 - 9 * g2.b * Z ^ 2) * (X * Y * QuadraticAlgebra.C 2⁻¹),
      ((Y ^ 2 + 9 * g2.b * Z ^ 2) * QuadraticAlgebra.C 2⁻¹) ^ 2 - 3 * (3 * g2.b * Z ^ 2) ^ 2,
      2 * Y ^ 3 * Z) := by
  have h4 : (4 : Fp2) ≠ 0 := by
    have h22 : (4 : Fp2) = 2 * 2 := by norm_num
    rw [h22]
    exact mul_ne_zero g2.two_ne_zero g2.two_ne_zero
  have hXY := mul_half (X * Y)
  have hY2 := mul_half (Y ^ 2 + 9 * g2.b * Z ^ 2)
  generalize X * Y * QuadraticAlgebra.C 2⁻¹ = m at hXY ⊢
  generalize (Y ^ 2 + 9 * g2.b * Z ^ 2) * QuadraticAlgebra.C 2⁻¹ = n at hY2 ⊢
  refine Homogeneous.of_mul h4 ?_
  have hcomplete := h.complete rfl rfl
  simp only [completeDouble] at hcomplete
  convert hcomplete using 3
  · linear_combination 2 * (Y ^ 2 - 9 * g2.b * Z ^ 2) * hXY
  · linear_combination (2 * n + (Y ^ 2 + 9 * g2.b * Z ^ 2)) * hY2
  · ring

/-- The tangent at the untwisted point, times `-2 * Y * Z`. -/
theorem sparse_tangent (h : Homogeneous T (X, Y, Z)) (hT : T ≠ 0) (a b : Fp) :
    sparse (-(2 * Y * Z) * QuadraticAlgebra.C b) (3 * X ^ 2 * QuadraticAlgebra.C a)
        (3 * g2.b * Z ^ 2 - Y ^ 2) =
      ofFp2 (-(2 * Y * Z)) * line (untwist.map T) (untwist.map T) (ofFp a) (ofFp b) := by
  obtain ⟨x, y, hxy, hZ, hX, hY⟩ := h.exists_coords hT
  dsimp only at hZ hX hY
  subst hX hY
  have hy := hxy.y_ne_zero (g2_double_ne_zero hT)
  obtain ⟨l, hl⟩ : ∃ l, l * (2 * y) = 3 * x ^ 2 + g2.a :=
    ⟨_, div_mul_cancel₀ _ (mul_ne_zero g2.two_ne_zero hy)⟩
  have hcurve : y ^ 2 = x ^ 3 + g2.a * x + g2.b := hxy.onCurve
  have ha : g2.a = 0 := rfl
  have hhom : untwist.hom = ofFp2 := rfl
  have hline := mul_line_tangent untwist hxy hy hl (-(2 * (y * Z) * Z)) (ofFp a) (ofFp b)
  rw [ha, add_zero] at hl
  rw [ha, zero_mul, add_zero] at hcurve
  have h3 : -(-(2 * (y * Z) * Z) * l) = 3 * (x * Z) ^ 2 := by
    linear_combination Z ^ 2 * hl
  have h4 : -(2 * (y * Z) * Z) * (l * x - y) = 3 * g2.b * Z ^ 2 - (y * Z) ^ 2 := by
    linear_combination -(x * Z ^ 2) * hl + 3 * Z ^ 2 * hcurve
  rw [h3, h4, ← sparse_eq, hhom] at hline
  rw [hline]

theorem homogeneous_add (h : Homogeneous T (X, Y, Z)) (hT : T ≠ 0) (hQ : Coords Q x y)
    (hne : T ≠ Q) : Homogeneous (T + Q) (chordAdd (X, Y, Z) (x, y, 1)) :=
  h.chord (Homogeneous.of_coords hQ) hT hQ.ne_zero hne

/-- The chord through the untwisted points, times `X - x * Z`. -/
theorem sparse_chord (h : Homogeneous T (X, Y, Z)) (hT : T ≠ 0) (hQ : Coords Q x y)
    (hne : T ≠ Q) (hsum : T + Q ≠ 0) (a b : Fp) :
    X - x * Z ≠ 0 ∧
      sparse ((X - x * Z) * QuadraticAlgebra.C b) (-(Y - y * Z) * QuadraticAlgebra.C a)
          (x * (Y - y * Z) - (X - x * Z) * y) =
        ofFp2 (X - x * Z) * line (untwist.map T) (untwist.map Q) (ofFp a) (ofFp b) := by
  obtain ⟨s, t, hst, hZ, hX, hY⟩ := h.exists_coords hT
  dsimp only at hZ hX hY
  subst hX hY
  have hx := hst.x_ne hQ hne hsum
  have hsub : x - s ≠ 0 := sub_ne_zero.mpr (Ne.symm hx)
  obtain ⟨l, hl⟩ : ∃ l, l * (x - s) = y - t := ⟨_, div_mul_cancel₀ _ hsub⟩
  have hhom : untwist.hom = ofFp2 := rfl
  have hline := mul_line_chord untwist hst hQ hx hl (s * Z - x * Z) (ofFp a) (ofFp b)
  have h3 : -((s * Z - x * Z) * l) = -(t * Z - y * Z) := by
    linear_combination Z * hl
  have h4 : (s * Z - x * Z) * (l * s - t) = x * (t * Z - y * Z) - (s * Z - x * Z) * y := by
    linear_combination -(s * Z) * hl
  rw [h3, h4, ← sparse_eq, hhom] at hline
  refine ⟨?_, hline.symm⟩
  have hfactor : s * Z - x * Z = -(x - s) * Z := by ring
  rw [hfactor]
  exact mul_ne_zero (neg_ne_zero.mpr hsub) hZ

end Points

/-! ## The words -/

/-- The words are homogeneous coordinates of the point. -/
def RepresentsProjective (T : g2.Point) (V : TwistWords) : Prop :=
  ∃ W, V = encTwist W ∧ Homogeneous T W

/-- The coefficients are those of the line through the untwisted points, up to a factor. -/
def RepresentsLine (A B : g2.Point) (l : Words12) : Prop :=
  ∃ c : Fp2, c ≠ 0 ∧ ∀ x y : Fp, evaluateLine l (enc x) (enc y) =
    encFp12 (ofFp2 c * line (untwist.map A) (untwist.map B) (ofFp x) (ofFp y))

section Words

variable {T Q : g2.Point} {V : TwistWords} {x y : Fp2}

theorem representsProjective_zero_iff (hV : RepresentsProjective T V) :
    V.2.2 = (0, 0) ↔ T = 0 := by
  obtain ⟨W, rfl, hW⟩ := hV
  rw [hW.eq_zero_iff, encTwist, ← encFp2_zero, encFp2_inj]

theorem representsProjective_affine (hQ : Coords Q x y) :
    RepresentsProjective Q (encFp2 x, encFp2 y, (MONTGOMERY_ONE, 0)) := by
  refine ⟨(x, y, 1), ?_, Homogeneous.of_coords hQ⟩
  rw [encTwist, encFp2_one]

theorem doubleStep_represents (hV : RepresentsProjective T V) (hT : T ≠ 0) :
    RepresentsProjective (T + T) (doubleStep V).2 ∧ RepresentsLine T T (doubleStep V).1 := by
  obtain ⟨⟨X, Y, Z⟩, rfl, hW⟩ := hV
  rw [doubleStep_enc]
  refine ⟨⟨_, rfl, homogeneous_double hW⟩, -(2 * Y * Z), ?_, fun a b => ?_⟩
  · obtain ⟨s, t, hst, hZ, -, hY⟩ := hW.exists_coords hT
    dsimp only at hZ hY
    have ht := hst.y_ne_zero (g2_double_ne_zero hT)
    rw [hY]
    exact neg_ne_zero.mpr (mul_ne_zero (mul_ne_zero g2.two_ne_zero (mul_ne_zero ht hZ)) hZ)
  · rw [evaluateLine_enc, sparse_tangent hW hT]

theorem mixedAdditionStep_represents (hV : RepresentsProjective T V) (hT : T ≠ 0)
    (hQ : Coords Q x y) (hne : T ≠ Q) (hneg : T ≠ -Q) :
    RepresentsProjective (T + Q) (mixedAdditionStep (encFp2 x) (encFp2 y) V).2 ∧
      RepresentsLine T Q (mixedAdditionStep (encFp2 x) (encFp2 y) V).1 := by
  obtain ⟨⟨X, Y, Z⟩, rfl, hW⟩ := hV
  have hsum : T + Q ≠ 0 := fun h => hneg (eq_neg_of_add_eq_zero_left h)
  rw [mixedAdditionStep_enc]
  refine ⟨⟨_, rfl, homogeneous_add hW hT hQ hne⟩, X - x * Z, ?_, fun a b => ?_⟩
  · exact (sparse_chord hW hT hQ hne hsum 0 0).1
  · rw [evaluateLine_enc, (sparse_chord hW hT hQ hne hsum a b).2]

/-- `computeLine` is the line of `mixedAdditionStep`. -/
theorem computeLine_eq (xq yq : Word × Word) (t : TwistWords) :
    computeLine xq yq t = (mixedAdditionStep xq yq t).1 :=
  rfl

end Words

/-- The steps of the loop return the next point and the line that leads to it. -/
theorem millerSteps_consistent {T : g2.Point} {V : TwistWords} (hV : RepresentsProjective T V)
    (hT : T ≠ 0) :
    (RepresentsProjective (T + T) (doubleStep V).2 ∧ RepresentsLine T T (doubleStep V).1) ∧
      (∀ (Q : g2.Point) (x y : Fp2), Coords Q x y → T ≠ Q → T ≠ -Q →
        RepresentsProjective (T + Q) (mixedAdditionStep (encFp2 x) (encFp2 y) V).2 ∧
          (mixedAdditionStep (encFp2 x) (encFp2 y) V).2.2.2 ≠ (0, 0) ∧
          RepresentsLine T Q (mixedAdditionStep (encFp2 x) (encFp2 y) V).1) ∧
      ∀ xq yq : Word × Word, computeLine xq yq V = (mixedAdditionStep xq yq V).1 := by
  refine ⟨doubleStep_represents hV hT, ?_, fun xq yq => computeLine_eq xq yq V⟩
  intro Q x y hQ hne hneg
  have hadd := mixedAdditionStep_represents hV hT hQ hne hneg
  refine ⟨hadd.1, ?_, hadd.2⟩
  intro hZ
  exact hneg (eq_neg_of_add_eq_zero_left ((representsProjective_zero_iff hadd.1).mp hZ))

/-- From the generator to its double, and on to its triple. -/
theorem millerSteps_consistent_generator :
    RepresentsProjective (twistGenerator + twistGenerator) (doubleStep twistGeneratorWords).2 ∧
      RepresentsLine (twistGenerator + twistGenerator) twistGenerator
        (mixedAdditionStep (encFp2 twistGeneratorX) (encFp2 twistGeneratorY)
          (doubleStep twistGeneratorWords).2).1 := by
  have hG := coords_twistGenerator
  have h2 := g2_double_ne_zero hG.ne_zero
  have h3 : twistGenerator + twistGenerator ≠ -twistGenerator := by
    intro h
    have h3 : 3 • twistGenerator = 0 := by
      rw [succ_nsmul, two_nsmul, h, neg_add_cancel]
    exact absurd (Nat.le_of_dvd (by decide) (addOrderOf_dvd_of_nsmul_eq_zero h3))
      (by rw [addOrderOf_twistGenerator]; decide)
  have hdouble := (millerSteps_consistent (representsProjective_affine hG) hG.ne_zero).1.1
  refine ⟨hdouble, ?_⟩
  exact ((millerSteps_consistent hdouble h2).2.1 twistGenerator _ _ hG
    (fun h => hG.ne_zero (add_eq_right.mp h)) h3).2.2

end EraPrecompiles.Pairing
