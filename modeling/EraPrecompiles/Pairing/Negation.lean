import EraPrecompiles.Pairing.OptimalAte

/-!
# The pairing of opposite points

The conjugation of `Fp12` over `Fp6` takes an untwisted point to its opposite, because the
coordinate `y` of such a point is a multiple of `w^3`.  So the lines through opposite points are
the conjugate lines, and the same holds, up to the sign, of the lines at the opposite point of the
base curve.  A value and its conjugate have a product in `Fp6`, which the last power does not see:
the pairings of opposite points are inverse to each other (`optimalAte_neg_right`,
`optimalAte_neg_left`).
-/

namespace EraPrecompiles.Pairing

open Bn254 ShortWeierstrass

/-! ## The conjugation -/

theorem star_ofFp2 (x : Fp2) : star (ofFp2 x) = ofFp2 x := by
  rw [ofFp2_eq]
  refine QuadraticAlgebra.ext ?_ ?_ <;> simp

theorem star_ofFp (x : Fp) : star (ofFp x) = ofFp x := by
  rw [ofFp_eq, star_ofFp2]

theorem star_root : star root = -root := by
  rw [root]
  refine QuadraticAlgebra.ext ?_ ?_ <;> simp

theorem fp12_one_ne_zero : (1 : Fp12) ≠ 0 :=
  one_ne_zero

/-- The conjugation of the curve over `Fp12`. -/
noncomputable def fullConjugate : Scaling fullCurve fullCurve where
  hom := starRingEnd Fp12
  c := 1
  c_ne_zero := fp12_one_ne_zero
  map_a := by
    have ha : fullCurve.a = ofFp 0 := rfl
    rw [ha, starRingEnd_apply, star_ofFp, one_pow, mul_one]
  map_b := by
    have hb : fullCurve.b = ofFp 3 := rfl
    rw [hb, starRingEnd_apply, star_ofFp, one_pow, mul_one]

theorem fullConjugate_untwist (A : g2.Point) :
    fullConjugate.map (untwist.map A) = untwist.map (-A) := by
  have hf : fullConjugate.hom = starRingEnd Fp12 := rfl
  have hfc : fullConjugate.c = 1 := rfl
  have hu : untwist.hom = ofFp2 := rfl
  have huc : untwist.c = root := rfl
  rcases eq_zero_or_coords A with rfl | ⟨s, t, hA⟩
  · rfl
  · refine (fullConjugate.coords (untwist.coords hA)).point_unique
      ((untwist.coords hA.neg).congr ?_ ?_)
    · rw [hf, hfc, hu, huc, starRingEnd_apply, star_mul', star_pow, star_ofFp2, star_root,
        neg_sq, one_pow, mul_one]
    · rw [hf, hfc, hu, huc, starRingEnd_apply, star_mul', star_pow, star_ofFp2, star_root,
        map_neg, one_pow, mul_one, Odd.neg_pow (by decide), neg_mul, mul_neg]

section Lines

variable {x y : Fp}

/-- The line through the opposite points is the conjugate. -/
theorem twistLine_neg_neg (A B : g2.Point) :
    twistLine x y (-A) (-B) = star (twistLine x y A B) := by
  have hf (z : Fp12) : fullConjugate.hom z = star z := starRingEnd_apply z
  have hmap := line_map fullConjugate rfl (untwist.map A) (untwist.map B) (ofFp x) (ofFp y)
  rw [fullConjugate_untwist, fullConjugate_untwist, hf, hf, hf, star_ofFp, star_ofFp] at hmap
  exact hmap

theorem inSubfield_neg_one : InSubfield (-1) := by
  refine ⟨neg_ne_zero.mpr one_ne_zero, ?_⟩
  rw [QuadraticAlgebra.im_neg, QuadraticAlgebra.im_one, neg_zero]

/-- So is the line at the opposite point of the base curve, up to the sign. -/
theorem similar_twistLine_neg (A B : g2.Point) :
    Similar (twistLine x (-y) A B) (star (twistLine x y A B)) := by
  rw [← twistLine_neg_neg]
  have hneg (C : g2.Point) : untwist.map (-C) = -untwist.map C := map_neg untwist.pointHom C
  rw [twistLine, twistLine, hneg, hneg, map_neg ofFp]
  rcases line_neg_neg (untwist.map A) (untwist.map B) (ofFp x) (ofFp y) with h | h
  · rw [h]
    exact Similar.refl _
  · refine ⟨1, -1, InSubfield.one, inSubfield_neg_one, ?_⟩
    rw [h, one_mul, neg_one_mul]

end Lines

/-! ## Values -/

section Values

variable {x y : Fp} (Q : g2.Point) (ds : List ℤ)

/-- The run along the opposite points, as a run along the points. -/
theorem ateValue_opposite :
    ateValue (twistLine x y) twistFrobenius.map (-Q) ds =
      ateValue (fun A B => twistLine x y (-A) (-B)) twistFrobenius.map Q ds := by
  have hneg (C : g2.Point) : twistFrobenius.map (-C) = -twistFrobenius.map C :=
    map_neg twistFrobenius.pointHom C
  exact ateValue_map (negAddMonoidHom : g2.Point →+ g2.Point) (twistLine x y)
    (π := twistFrobenius.map) (ψ := twistFrobenius.map) Q (hneg Q) (hneg _) ds

theorem ateValue_neg :
    ateValue (twistLine x y) twistFrobenius.map (-Q) ds =
      star (ateValue (twistLine x y) twistFrobenius.map Q ds) := by
  have hrel : MillerRelated (fun a b => star a = b) (twistLine x y)
      (fun A B => twistLine x y (-A) (-B)) := by
    refine ⟨star_one _, ?_, fun A B => (twistLine_neg_neg A B).symm⟩
    rintro a b _ _ rfl rfl
    exact star_mul' a b
  rw [ateValue_opposite]
  exact (hrel.ateValue twistFrobenius.map Q ds).symm

theorem similar_ateValue_neg :
    Similar (ateValue (twistLine x (-y)) twistFrobenius.map Q ds)
      (star (ateValue (twistLine x y) twistFrobenius.map Q ds)) := by
  have hrel : MillerRelated Similar (twistLine x (-y)) (fun A B => twistLine x y (-A) (-B)) := by
    refine ⟨Similar.refl 1, Similar.mul, fun A B => ?_⟩
    rw [twistLine_neg_neg]
    exact similar_twistLine_neg A B
  rw [← ateValue_neg, ateValue_opposite]
  exact hrel.ateValue twistFrobenius.map Q ds

end Values

/-! ## Pairings -/

section Pairings

variable {P : g1.Point} {Q : g2.Point}

theorem inSubfield_mul_star {f : Fp12} (hf : f ≠ 0) : InSubfield (star f * f) := by
  refine ⟨mul_ne_zero (star_ne_zero.mpr hf) hf, ?_⟩
  rw [mul_comm, ← QuadraticAlgebra.algebraMap_norm_eq_mul_star]
  rfl

theorem ateValue_ne_zero {x y : Fp} (hP : Coords P x y) (h : optimalAte P Q ≠ 0) :
    ateValue (twistLine x y) twistFrobenius.map Q ateDigits ≠ 0 := by
  intro h0
  rw [optimalAte_eq hP, h0, zero_pow (by decide)] at h
  exact h rfl

theorem optimalAte_neg_right (h : optimalAte P Q ≠ 0) :
    optimalAte P (-Q) * optimalAte P Q = 1 := by
  rcases eq_zero_or_coords P with rfl | ⟨x, y, hP⟩
  · exact one_mul 1
  · have hf := ateValue_ne_zero hP h
    rw [optimalAte_eq hP, optimalAte_eq hP, ateValue_neg, ← mul_pow]
    exact pow_of_inSubfield (inSubfield_mul_star hf)

theorem optimalAte_neg_left (h : optimalAte P Q ≠ 0) :
    optimalAte (-P) Q * optimalAte P Q = 1 := by
  rcases eq_zero_or_coords P with rfl | ⟨x, y, hP⟩
  · exact one_mul 1
  · have hf := ateValue_ne_zero hP h
    rw [optimalAte_eq hP, optimalAte_eq hP.neg, (similar_ateValue_neg Q ateDigits).pow_eq,
      ← mul_pow]
    exact pow_of_inSubfield (inSubfield_mul_star hf)

end Pairings

end EraPrecompiles.Pairing
