import EraPrecompiles.Bn254.Twist

/-!
# EcAddG2

The precompile that adds two points of the twist.  Points with the same first
coordinate are told apart from the others before any arithmetic: equal points
are doubled, and for two different second coordinates the points must be
opposite, so that their sum is infinity.

`ecAddG2_refines_add` says that on every calldata the call ends as the addition
of encoded points does.  No case inverts zero: the coordinate `z` of a sum is
zero only for opposite points, and that of a double never, because no point of
the twist has order two.
-/

namespace EraPrecompiles.EcAddG2

open Bn254 ShortWeierstrass

/-! ## The program -/

def g2JacobianAdd (a b : (Word × Word) × (Word × Word) × (Word × Word)) :
    (Word × Word) × (Word × Word) × (Word × Word) :=
  g2JacobianChord a b

/-- The case of one point at infinity. -/
def addInfinity (x y : Word × Word) : Halt :=
  if iszero (and (g2CoordinateIsOnFieldOrder x) (g2CoordinateIsOnFieldOrder y)) ≠ 0 then
    .burned
  else if iszero (g2AffinePointIsOnCurve (fp2IntoMontgomeryForm x)
      (fp2IntoMontgomeryForm y)) ≠ 0 then
    .burned
  else
    returnTwistPoint x y

/-- The case of equal first coordinates. -/
def addSameX (fuel : ℕ) (aX aY bY : Word × Word) : Option Halt :=
  if iszero (and (g2CoordinateIsOnFieldOrder aX) (g2CoordinateIsOnFieldOrder aY)) ≠ 0 then
    some .burned
  else if iszero (g2AffinePointIsOnCurve (fp2IntoMontgomeryForm aX)
      (fp2IntoMontgomeryForm aY)) ≠ 0 then
    some .burned
  else if and (eq aY.1 bY.1) (eq aY.2 bY.2) ≠ 0 then
    returnJacobian fuel (g2JacobianDouble
      (fp2IntoMontgomeryForm aX, fp2IntoMontgomeryForm aY, (MONTGOMERY_ONE, 0)))
  else if iszero (g2CoordinateIsOnFieldOrder bY) ≠ 0 then
    some .burned
  else if iszero (g2AffinePointIsOnCurve (fp2IntoMontgomeryForm aX)
      (fp2IntoMontgomeryForm bY)) ≠ 0 then
    some .burned
  else
    some (returnTwistPoint (0, 0) (0, 0))

/-- The case of different first coordinates. -/
def addDistinct (fuel : ℕ) (aX aY bX bY : Word × Word) : Option Halt :=
  if iszero (and (g2CoordinateIsOnFieldOrder aX) (g2CoordinateIsOnFieldOrder aY)) ≠ 0 then
    some .burned
  else if iszero (and (g2CoordinateIsOnFieldOrder bX)
      (g2CoordinateIsOnFieldOrder bY)) ≠ 0 then
    some .burned
  else if iszero (g2AffinePointIsOnCurve (fp2IntoMontgomeryForm aX)
      (fp2IntoMontgomeryForm aY)) ≠ 0 then
    some .burned
  else if iszero (g2AffinePointIsOnCurve (fp2IntoMontgomeryForm bX)
      (fp2IntoMontgomeryForm bY)) ≠ 0 then
    some .burned
  else
    returnJacobian fuel (g2JacobianAdd
      (fp2IntoMontgomeryForm aX, fp2IntoMontgomeryForm aY, (MONTGOMERY_ONE, 0))
      (fp2IntoMontgomeryForm bX, fp2IntoMontgomeryForm bY, (MONTGOMERY_ONE, 0)))

/-- The program after the coordinates are loaded. -/
def addWords (fuel : ℕ) (aX aY bX bY : Word × Word) : Option Halt :=
  let aIsInfinity := g2AffinePointIsInfinity aX aY
  let bIsInfinity := g2AffinePointIsInfinity bX bY
  if and aIsInfinity bIsInfinity ≠ 0 then
    some (returnTwistPoint (0, 0) (0, 0))
  else if aIsInfinity ≠ 0 then
    some (addInfinity bX bY)
  else if bIsInfinity ≠ 0 then
    some (addInfinity aX aY)
  else if and (eq aX.1 bX.1) (eq aX.2 bX.2) ≠ 0 then
    addSameX fuel aX aY bY
  else
    addDistinct fuel aX aY bX bY

def fallback (fuel : ℕ) (cd : Calldata) : Option Halt :=
  let aX := (calldataload cd 0, calldataload cd 32)
  let aY := (calldataload cd 64, calldataload cd 96)
  let bX := (calldataload cd 128, calldataload cd 160)
  let bY := (calldataload cd 192, calldataload cd 224)
  addWords fuel aX aY bX bY

/-- Addition of encoded points. -/
def addPoints (aX aY bX bY : Word × Word) : Option g2.Point := do
  let A ← decodeTwist aX aY
  let B ← decodeTwist bX bY
  return A + B

/-! ## The cases -/

theorem addPoints_of_decode {aX aY bX bY : Word × Word} {A B : g2.Point}
    (hA : decodeTwist aX aY = some A) (hB : decodeTwist bX bY = some B) :
    addPoints aX aY bX bY = some (A + B) := by
  rw [addPoints, hA, hB]
  rfl

theorem addPoints_none_left {aX aY : Word × Word} (h : decodeTwist aX aY = none)
    (bX bY : Word × Word) : addPoints aX aY bX bY = none := by
  rw [addPoints, h]
  rfl

theorem addPoints_none_right {bX bY : Word × Word} (h : decodeTwist bX bY = none)
    (aX aY : Word × Word) : addPoints aX aY bX bY = none := by
  rw [addPoints, h]
  cases decodeTwist aX aY <;> rfl

theorem eq_pair (a b : Word × Word) :
    and (eq a.1 b.1) (eq a.2 b.2) = boolWord (a = b) := by
  rw [eq, eq, and_boolWord]
  exact boolWord_congr Prod.ext_iff.symm

theorem addInfinity_eq {x y : Word × Word} (h0 : ¬(x = (0, 0) ∧ y = (0, 0))) :
    addInfinity x y = twistAnswer (decodeTwist x y) := by
  by_cases hlt : InRange x ∧ InRange y
  · by_cases hcurve : g2.OnCurve (fp2OfWords x) (fp2OfWords y)
    · obtain ⟨A, hA, hxy⟩ := decodeTwist_of_onCurve hlt.1 hlt.2 hcurve
      rw [addInfinity, if_neg (mt (notOnFieldOrder_iff x y).mp (not_not_intro hlt)),
        if_neg (mt (notOnCurve_iff x y).mp (not_not_intro hcurve)), hA]
      exact returnTwistPoint_of_decode hlt.1 hlt.2 hxy
    · rw [addInfinity, if_neg (mt (notOnFieldOrder_iff x y).mp (not_not_intro hlt)),
        if_pos ((notOnCurve_iff x y).mpr hcurve),
        decodeTwist_eq_none h0 fun h => hcurve h.2, twistAnswer]
  · rw [addInfinity, if_pos ((notOnFieldOrder_iff x y).mpr hlt),
      decodeTwist_out_of_range h0 hlt, twistAnswer]

section Cases

variable {aX aY bX bY : Word × Word}

theorem addSameX_yields (h0 : ¬(aX = (0, 0) ∧ aY = (0, 0)))
    (h0' : ¬(aX = (0, 0) ∧ bY = (0, 0))) :
    Yields (fun fuel => addSameX fuel aX aY bY)
      (twistAnswer (addPoints aX aY aX bY)) := by
  by_cases hlt : InRange aX ∧ InRange aY
  swap
  · rw [addPoints_none_left (decodeTwist_out_of_range h0 hlt)]
    simp only [addSameX, if_pos ((notOnFieldOrder_iff aX aY).mpr hlt)]
    exact Yields.const _
  by_cases hcurve : g2.OnCurve (fp2OfWords aX) (fp2OfWords aY)
  swap
  · rw [addPoints_none_left (decodeTwist_eq_none h0 fun h => hcurve h.2)]
    simp only [addSameX, if_neg (mt (notOnFieldOrder_iff aX aY).mp (not_not_intro hlt)),
      if_pos ((notOnCurve_iff aX aY).mpr hcurve)]
    exact Yields.const _
  obtain ⟨A, hA, hxy⟩ := decodeTwist_of_onCurve hlt.1 hlt.2 hcurve
  have hrange : iszero (g2CoordinateIsOnFieldOrder bY) ≠ 0 ↔ ¬InRange bY := by
    rw [g2CoordinateIsOnFieldOrder_eq, iszero_boolWord, boolWord_ne_zero]
  simp only [addSameX, notOnFieldOrder_iff, notOnCurve_iff, eq_pair, boolWord_ne_zero,
    hrange, if_neg (not_not_intro hlt), if_neg (not_not_intro hcurve)]
  by_cases heq : aY = bY
  · subst heq
    rw [addPoints_of_decode hA hA]
    simp only [if_true, fp2IntoMontgomeryForm_eq]
    exact returnJacobian_yields (representsTwist_double (representsTwist_affine hxy))
      (g2_double_ne_zero hxy.ne_zero)
  by_cases hlt' : InRange bY
  swap
  · rw [addPoints_none_right (decodeTwist_out_of_range h0' fun h => hlt' h.2)]
    simp only [if_neg heq, if_pos hlt']
    exact Yields.const _
  by_cases hcurve' : g2.OnCurve (fp2OfWords aX) (fp2OfWords bY)
  · obtain ⟨B, hB, hxy'⟩ := decodeTwist_of_onCurve hlt.1 hlt' hcurve'
    have hne : fp2OfWords aY ≠ fp2OfWords bY := fun h =>
      heq (fp2OfWords_inj hlt.2 hlt' h)
    rw [addPoints_of_decode hA hB,
      hxy.add_eq_zero hxy' ((hxy.eq_or_eq_neg hxy').resolve_left hne)]
    simp only [if_neg heq, if_neg (not_not_intro hlt'), if_neg (not_not_intro hcurve'),
      returnTwistPoint_zero]
    exact Yields.const _
  · rw [addPoints_none_right (decodeTwist_eq_none h0' fun h => hcurve' h.2)]
    simp only [if_neg heq, if_neg (not_not_intro hlt'), if_pos hcurve']
    exact Yields.const _

theorem addDistinct_yields (h0 : ¬(aX = (0, 0) ∧ aY = (0, 0)))
    (h0' : ¬(bX = (0, 0) ∧ bY = (0, 0))) (hX : aX ≠ bX) :
    Yields (fun fuel => addDistinct fuel aX aY bX bY)
      (twistAnswer (addPoints aX aY bX bY)) := by
  by_cases hlt : InRange aX ∧ InRange aY
  swap
  · rw [addPoints_none_left (decodeTwist_out_of_range h0 hlt)]
    simp only [addDistinct, if_pos ((notOnFieldOrder_iff aX aY).mpr hlt)]
    exact Yields.const _
  by_cases hlt' : InRange bX ∧ InRange bY
  swap
  · rw [addPoints_none_right (decodeTwist_out_of_range h0' hlt')]
    simp only [addDistinct, if_neg (mt (notOnFieldOrder_iff aX aY).mp (not_not_intro hlt)),
      if_pos ((notOnFieldOrder_iff bX bY).mpr hlt')]
    exact Yields.const _
  simp only [addDistinct, if_neg (mt (notOnFieldOrder_iff aX aY).mp (not_not_intro hlt)),
    if_neg (mt (notOnFieldOrder_iff bX bY).mp (not_not_intro hlt')), notOnCurve_iff]
  by_cases hcurve : g2.OnCurve (fp2OfWords aX) (fp2OfWords aY)
  swap
  · rw [addPoints_none_left (decodeTwist_eq_none h0 fun h => hcurve h.2)]
    simp only [if_pos hcurve]
    exact Yields.const _
  by_cases hcurve' : g2.OnCurve (fp2OfWords bX) (fp2OfWords bY)
  swap
  · rw [addPoints_none_right (decodeTwist_eq_none h0' fun h => hcurve' h.2)]
    simp only [if_neg (not_not_intro hcurve), if_pos hcurve']
    exact Yields.const _
  obtain ⟨A, hA, hxy⟩ := decodeTwist_of_onCurve hlt.1 hlt.2 hcurve
  obtain ⟨B, hB, hxy'⟩ := decodeTwist_of_onCurve hlt'.1 hlt'.2 hcurve'
  have hx : fp2OfWords aX ≠ fp2OfWords bX := fun h =>
    hX (fp2OfWords_inj hlt.1 hlt'.1 h)
  have hAB : A ≠ B := by
    rintro rfl
    exact hx (hxy.unique hxy').1
  have hsum : A + B ≠ 0 := by
    have h := div_mul_cancel₀ (fp2OfWords bY - fp2OfWords aY)
      (sub_ne_zero.mpr (Ne.symm hx))
    exact (hxy.add hxy' hx h).ne_zero
  have hrep := representsTwist_chord (representsTwist_affine hxy)
    (representsTwist_affine hxy') hxy.ne_zero hxy'.ne_zero hAB
  rw [addPoints_of_decode hA hB]
  simp only [if_neg (not_not_intro hcurve), if_neg (not_not_intro hcurve'),
    fp2IntoMontgomeryForm_eq]
  exact returnJacobian_yields hrep hsum

end Cases

theorem addWords_yields (aX aY bX bY : Word × Word) :
    Yields (fun fuel => addWords fuel aX aY bX bY)
      (twistAnswer (addPoints aX aY bX bY)) := by
  simp only [addWords, g2AffinePointIsInfinity_eq, and_boolWord, boolWord_ne_zero, eq_pair]
  by_cases h0 : aX = (0, 0) ∧ aY = (0, 0)
  · obtain ⟨rfl, rfl⟩ := h0
    by_cases h0' : bX = (0, 0) ∧ bY = (0, 0)
    · obtain ⟨rfl, rfl⟩ := h0'
      rw [addPoints_of_decode decodeTwist_zero decodeTwist_zero, add_zero]
      simp only [and_self, if_true, returnTwistPoint_zero]
      exact Yields.const _
    · have hsum : addPoints (0, 0) (0, 0) bX bY = decodeTwist bX bY := by
        rw [addPoints, decodeTwist_zero]
        cases h : decodeTwist bX bY with
        | none => rfl
        | some B => exact congrArg some (zero_add B)
      simp only [and_self, true_and, if_true, if_neg h0', addInfinity_eq h0', hsum]
      exact Yields.const _
  · by_cases h0' : bX = (0, 0) ∧ bY = (0, 0)
    · obtain ⟨rfl, rfl⟩ := h0'
      have hsum : addPoints aX aY (0, 0) (0, 0) = decodeTwist aX aY := by
        rw [addPoints, decodeTwist_zero]
        cases h : decodeTwist aX aY with
        | none => rfl
        | some A => exact congrArg some (add_zero A)
      simp only [if_neg h0, and_self, and_true, if_true, addInfinity_eq h0, hsum]
      exact Yields.const _
    · simp only [if_neg h0, if_neg h0', if_neg fun h => h0 (And.left h)]
      by_cases hX : aX = bX
      · subst hX
        simp only [if_true]
        exact addSameX_yields h0 h0'
      · simp only [if_neg hX]
        exact addDistinct_yields h0 h0' hX

/-- On every calldata the call ends as the addition of encoded points: with the
encoded sum, or with all gas burned if four words encode no point. -/
theorem ecAddG2_refines_add (cd : Calldata) :
    Yields (fun fuel => fallback fuel cd)
      (twistAnswer (addPoints
        (calldataload cd 0, calldataload cd 32) (calldataload cd 64, calldataload cd 96)
        (calldataload cd 128, calldataload cd 160)
        (calldataload cd 192, calldataload cd 224))) :=
  addWords_yields (calldataload cd 0, calldataload cd 32)
    (calldataload cd 64, calldataload cd 96) (calldataload cd 128, calldataload cd 160)
    (calldataload cd 192, calldataload cd 224)

end EraPrecompiles.EcAddG2
