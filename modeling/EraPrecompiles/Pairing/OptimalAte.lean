import EraPrecompiles.Bn254.TwistFrobenius
import EraPrecompiles.Curve.Miller
import EraPrecompiles.Pairing.FinalExponentiation
import EraPrecompiles.Pairing.Untwist

/-!
# The optimal ate pairing

The pairing of EcPairing as a function on points: Miller's algorithm for the number
`6 * x + 2` along the multiples of the untwisted point, with the affine lines through them,
then two lines through the images under the Frobenius map, and the power to
`(p^12 - 1) / r`.

The factors by which a program may differ from it are the elements of `Fp6` other than `0`:
the last power takes them to `1` (`pow_of_inSubfield`).  Among them are the constants of
`Fp2` and the vertical lines.
-/

namespace EraPrecompiles.Pairing

open Bn254 ShortWeierstrass

/-! ## The pairing -/

/-- The Frobenius map of the curve over `Fp12`. -/
def fullFrobenius : Scaling fullCurve fullCurve where
  hom := fp12Frobenius
  c := 1
  c_ne_zero := one_ne_zero
  map_a := by
    have ha : fullCurve.a = ofFp 0 := rfl
    rw [ha, map_zero, map_zero, zero_mul]
  map_b := by
    have hb : fullCurve.b = ofFp 3 := rfl
    rw [hb, fp12Frobenius_apply, ← map_pow, ZMod.pow_card, one_pow, mul_one]

/-- The digits of `6 * x + 2` behind the first. -/
def ateDigits : List ℤ :=
  (nonAdjacentForm (6 * bnParameter + 2)).tail

/-- The order of the multiplicative group, divided by that of the points. -/
def ateExponent : ℕ :=
  (p ^ 12 - 1) / r

noncomputable def optimalAte : g1.Point → g2.Point → Fp12
  | .zero, _ => 1
  | .some x y _, Q =>
      ateValue (fun A B => line A B (ofFp x) (ofFp y)) fullFrobenius.map (untwist.map Q)
        ateDigits ^ ateExponent

/-! ## On the twist -/

theorem root_pow_p : root ^ p = ofFp2 gamma * root := by
  have hexp : 6 * ((p - 1) / 6) + 1 = p := by decide
  have hpow : root ^ (6 * ((p - 1) / 6) + 1) = ofFp2 gamma * root := by
    rw [pow_succ, pow_mul, root_pow_six, ← map_pow, xi_pow]
  rwa [hexp] at hpow

theorem ofFp2_pow_p (x : Fp2) : ofFp2 x ^ p = ofFp2 (star x) := by
  rw [← map_pow, fp2_pow_p]

/-- The Frobenius map of the untwisted points. -/
theorem fullFrobenius_untwist (A : g2.Point) :
    fullFrobenius.map (untwist.map A) = untwist.map (twistFrobenius.map A) := by
  have hf : fullFrobenius.hom = fp12Frobenius := rfl
  have hfc : fullFrobenius.c = 1 := rfl
  have hu : untwist.hom = ofFp2 := rfl
  have huc : untwist.c = root := rfl
  have ht : twistFrobenius.hom = starRingEnd Fp2 := rfl
  have htc : twistFrobenius.c = gamma := rfl
  refine Scaling.map_map_eq (fun z => ?_) ?_ A
  · rw [hf, hu, ht, fp12Frobenius_apply, ofFp2_pow_p, starRingEnd_apply]
  · rw [hf, hfc, hu, huc, htc, fp12Frobenius_apply, root_pow_p, mul_one]

/-- The line through two untwisted points, at a point of the base curve. -/
noncomputable def twistLine (x y : Fp) (A B : g2.Point) : Fp12 :=
  line (untwist.map A) (untwist.map B) (ofFp x) (ofFp y)

theorem optimalAte_eq {P : g1.Point} {x y : Fp} (hP : Coords P x y) (Q : g2.Point) :
    optimalAte P Q = ateValue (twistLine x y) twistFrobenius.map Q ateDigits ^ ateExponent := by
  obtain ⟨_, rfl⟩ := hP
  have hvalue := ateValue_map untwist.pointHom (fun A B => line A B (ofFp x) (ofFp y)) Q
    (fullFrobenius_untwist Q) (fullFrobenius_untwist _) ateDigits
  exact congrArg (· ^ ateExponent) hvalue

/-! ## What the last power does not see -/

theorem pow_eq_of_mul_eq {M : Type*} [CommMonoid M] {u v f g : M} {n : ℕ} (h : u * f = v * g)
    (hu : u ^ n = 1) (hv : v ^ n = 1) : f ^ n = g ^ n := by
  have hpow : (u * f) ^ n = (v * g) ^ n := by
    rw [h]
  rwa [mul_pow, mul_pow, hu, hv, one_mul, one_mul] at hpow

/-- Elements of `Fp6` other than `0`. -/
def InSubfield (u : Fp12) : Prop :=
  u ≠ 0 ∧ u.im = 0

theorem pow_of_inSubfield {u : Fp12} (hu : InSubfield u) : u ^ ateExponent = 1 :=
  (pow_finalCofactor_eq_one_iff hu.1).mp (pow_finalCofactor_of_im_eq_zero hu.1 hu.2)

theorem InSubfield.one : InSubfield 1 :=
  ⟨one_ne_zero, QuadraticAlgebra.im_one⟩

theorem InSubfield.mul {u v : Fp12} (hu : InSubfield u) (hv : InSubfield v) :
    InSubfield (u * v) := by
  refine ⟨mul_ne_zero hu.1 hv.1, ?_⟩
  rw [QuadraticAlgebra.im_mul, hu.2, hv.2]
  simp

theorem inSubfield_ofFp2 {c : Fp2} (hc : c ≠ 0) : InSubfield (ofFp2 c) :=
  ⟨(map_ne_zero ofFp2).mpr hc, rfl⟩

/-- Equal up to factors of the subfield. -/
def Similar (f g : Fp12) : Prop :=
  ∃ u v, InSubfield u ∧ InSubfield v ∧ u * f = v * g

namespace Similar

variable {f f' g g' : Fp12}

theorem refl (f : Fp12) : Similar f f :=
  ⟨1, 1, InSubfield.one, InSubfield.one, rfl⟩

theorem of_mul {c : Fp2} (hc : c ≠ 0) (f : Fp12) : Similar (ofFp2 c * f) f := by
  refine ⟨1, ofFp2 c, InSubfield.one, inSubfield_ofFp2 hc, ?_⟩
  rw [one_mul]

theorem mul (h : Similar f g) (h' : Similar f' g') : Similar (f * f') (g * g') := by
  obtain ⟨u, v, hu, hv, huv⟩ := h
  obtain ⟨u', v', hu', hv', huv'⟩ := h'
  refine ⟨u * u', v * v', hu.mul hu', hv.mul hv', ?_⟩
  rw [mul_mul_mul_comm, huv, huv', mul_mul_mul_comm]

/-- Two factors behind another one. -/
theorem mul_right {a b c d e : Fp12} (h : Similar (b * c) (d * e)) :
    Similar (a * b * c) (a * d * e) := by
  rw [mul_assoc, mul_assoc]
  with_reducible exact (refl a).mul h

theorem trans {h : Fp12} (hfg : Similar f g) (hgh : Similar g h) : Similar f h := by
  obtain ⟨u, v, hu, hv, huv⟩ := hfg
  obtain ⟨u', v', hu', hv', huv'⟩ := hgh
  refine ⟨u' * u, v * v', hu'.mul hu, hv.mul hv', ?_⟩
  rw [mul_assoc, huv, mul_left_comm, huv', mul_assoc]

/-- Both sides have the same last power. -/
theorem pow_eq (h : Similar f g) : f ^ ateExponent = g ^ ateExponent := by
  obtain ⟨u, v, hu, hv, huv⟩ := h
  with_reducible exact pow_eq_of_mul_eq huv (pow_of_inSubfield hu) (pow_of_inSubfield hv)

theorem ne_zero (h : Similar f g) (hg : g ≠ 0) : f ≠ 0 := by
  obtain ⟨u, v, hu, hv, huv⟩ := h
  rintro rfl
  rw [mul_zero] at huv
  exact mul_ne_zero hv.1 hg huv.symm

end Similar

/-! ## Lines at a point of the base curve -/

section Lines

variable {x y : Fp} {A B Q : g2.Point}

theorem sparse_ne_zero {l0 : Fp2} (h : l0 ≠ 0) (l3 l4 : Fp2) : sparse l0 l3 l4 ≠ 0 := by
  intro h0
  exact h (congrArg (fun z : Fp12 => z.re.c0) h0)

/-- Vertical lines have their coefficients in `Fp6`. -/
theorem inSubfield_vertical (hA : A ≠ 0) : InSubfield (twistLine x y A (-A)) := by
  obtain ⟨s, t, hst⟩ := (eq_zero_or_coords A).resolve_left hA
  have hs : s ≠ 0 := by
    rintro rfl
    exact g2_x_ne_zero _ hst.onCurve
  have hhom : untwist.hom = ofFp2 := rfl
  have hc : untwist.c = root := rfl
  have hneg : untwist.map (-A) = -untwist.map A := map_neg untwist.pointHom A
  have hline := line_vertical (untwist.coords hst) (ofFp x) (ofFp y)
  rw [hhom, hc, ofFp2_mul_root_sq, ← hneg] at hline
  rw [twistLine, hline, ofFp_eq, ofFp2_eq]
  constructor
  · intro h0
    have h1 := congrArg (fun z : Fp12 => z.re.c1) h0
    simp only [QuadraticAlgebra.re_sub, CubicAlgebra.c1_sub, QuadraticAlgebra.re_zero,
      CubicAlgebra.c1_zero, zero_sub] at h1
    exact hs (neg_eq_zero.mp h1)
  · rw [QuadraticAlgebra.im_sub, sub_zero]

/-- The second digit in two ways: with the lines through `2 * Q` and `-Q` and through `2 * Q`
and `Q`, or with the tangent at `2 * Q` and the line through `4 * Q` and `-Q`. -/
theorem similar_peel {P : g1.Point} (hP : Coords P x y) (hQ : Q ≠ 0) (hr : r • Q = 0) :
    Similar (twistLine x y (2 • Q) (-Q) * twistLine x y (2 • Q) Q)
      (twistLine x y (2 • Q) (2 • Q) * twistLine x y (4 • Q) (-Q)) := by
  have hne : ∀ k : ℕ, 0 < k → k ≤ 5 → k • Q ≠ 0 := by
    intro k h0 h5 h
    have hdvd : r ∣ k := by
      rw [← addOrderOf_eq_prime hr hQ]
      exact addOrderOf_dvd_of_nsmul_eq_zero h
    exact absurd (Nat.le_of_dvd h0 hdvd) (not_le.mpr (lt_of_le_of_lt h5 (by decide)))
  have hmul (k : ℕ) : untwist.map (k • Q) = k • untwist.map Q :=
    map_nsmul untwist.pointHom k Q
  have hneg (A : g2.Point) : untwist.map (-A) = -untwist.map A := map_neg untwist.pointHom A
  have hpeel := line_peel (Q := untwist.map Q) (fun k h0 h5 h => hne k h0 h5 (by
    rwa [← hmul, Scaling.map_eq_zero] at h)) (hP.onCurve.baseChange ofFp)
  simp only [← hmul, ← hneg] at hpeel
  have h4 := inSubfield_vertical (x := x) (y := y) (hne 4 (by omega) (by omega))
  have h1 := inSubfield_vertical (x := x) (y := y) hQ
  have hdef (A B : g2.Point) :
      line (untwist.map A) (untwist.map B) (ofFp x) (ofFp y) = twistLine x y A B := rfl
  simp only [hdef] at hpeel
  refine ⟨_, _, h4, h1, ?_⟩
  rw [mul_comm, hpeel, mul_comm]

theorem g1_coords_y_ne_zero {P : g1.Point} (hP : Coords P x y) : y ≠ 0 := by
  rintro rfl
  exact g1_y_ne_zero _ hP.onCurve

/-- A line with the coefficient `l0` of `y` is not zero. -/
theorem twistLine_ne_zero_of_sparse {c l0 l3 l4 : Fp2} (hl0 : l0 ≠ 0)
    (h : sparse l0 l3 l4 = ofFp2 c * twistLine x y A B) : twistLine x y A B ≠ 0 := by
  intro h0
  rw [h0, mul_zero] at h
  exact sparse_ne_zero hl0 _ _ h

end Lines

end EraPrecompiles.Pairing
