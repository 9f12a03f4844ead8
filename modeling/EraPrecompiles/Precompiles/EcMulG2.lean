import EraPrecompiles.Bn254.TwistLadder
import EraPrecompiles.Curve.Order

/-!
# EcMulG2

The precompile that multiplies a point of the twist by a scalar.  Scalars up to
two are treated apart; for the others the double-and-add loop runs over all bits
of the scalar, and the result is brought back to affine coordinates.

The loop has an addition without a branch for equal points, and the conversion to
affine coordinates inverts zero at infinity.  So the call does not always return
the multiple: `ecMulG2_refines_mul_iff` says exactly when it does.  Small orders
exist on the twist, and a point of order 10069 gives a call that never ends.
-/

namespace EraPrecompiles.EcMulG2

open Bn254 ShortWeierstrass

/-! ## The program -/

/-- The program after the operands are loaded. -/
def mulWords (fuel : ℕ) (aX aY : Word × Word) (scalar : Word) : Option Halt :=
  if iszero (and (g2CoordinateIsOnFieldOrder aX) (g2CoordinateIsOnFieldOrder aY)) ≠ 0 then
    some .burned
  else if g2AffinePointIsInfinity aX aY ≠ 0 then
    some (returnTwistPoint (0, 0) (0, 0))
  else if iszero (g2AffinePointIsOnCurve (fp2IntoMontgomeryForm aX)
      (fp2IntoMontgomeryForm aY)) ≠ 0 then
    some .burned
  else if eq scalar 0 ≠ 0 then
    some (returnTwistPoint (0, 0) (0, 0))
  else if eq scalar 1 ≠ 0 then
    some (returnTwistPoint aX aY)
  else if eq scalar 2 ≠ 0 then
    returnJacobian fuel (g2JacobianDouble
      (fp2IntoMontgomeryForm aX, fp2IntoMontgomeryForm aY, (MONTGOMERY_ONE, 0)))
  else do
    let scalarBitIndex ← bitLen fuel scalar
    let c ← scalarLoop fuel
      (fp2IntoMontgomeryForm aX, fp2IntoMontgomeryForm aY, (MONTGOMERY_ONE, 0))
      scalar scalarBitIndex ((0, 0), (MONTGOMERY_ONE, 0), (0, 0))
    returnJacobian fuel c

def fallback (fuel : ℕ) (cd : Calldata) : Option Halt :=
  let aX := (calldataload cd 0, calldataload cd 32)
  let aY := (calldataload cd 64, calldataload cd 96)
  let scalar := calldataload cd 128
  mulWords fuel aX aY scalar

/-- Multiplication of an encoded point. -/
def mulPoint (aX aY : Word × Word) (scalar : Word) : Option g2.Point :=
  (decodeTwist aX aY).map fun A => scalar.toNat • A

/-- The point and the scalar meet neither defect: the multiple is not infinity,
and what the loop loses at collisions is a multiple of the order of the point. -/
def MulExact (A : g2.Point) (n : ℕ) : Prop :=
  A = 0 ∨ n ≤ 2 ∨ (n • A ≠ 0 ∧ lost A n n.size 0 • A = 0)

/-! ## The cases -/

section Cases

variable {aX aY : Word × Word}

theorem mulWords_none (h : decodeTwist aX aY = none) (scalar : Word) :
    Yields (fun fuel => mulWords fuel aX aY scalar) .burned := by
  have h0 : ¬(aX = (0, 0) ∧ aY = (0, 0)) := by
    rintro ⟨rfl, rfl⟩
    rw [decodeTwist_zero] at h
    exact absurd h (by simp)
  simp only [mulWords, notOnFieldOrder_iff, g2AffinePointIsInfinity_eq, boolWord_ne_zero,
    if_neg h0, notOnCurve_iff]
  by_cases hlt : InRange aX ∧ InRange aY
  · by_cases hcurve : g2.OnCurve (fp2OfWords aX) (fp2OfWords aY)
    · obtain ⟨A, hA, -⟩ := decodeTwist_of_onCurve hlt.1 hlt.2 hcurve
      rw [hA] at h
      exact absurd h (by simp)
    · simp only [if_neg (not_not_intro hlt), if_pos hcurve]
      exact Yields.const _
  · simp only [if_pos hlt]
    exact Yields.const _

theorem mulWords_zero (scalar : Word) :
    Yields (fun fuel => mulWords fuel (0, 0) (0, 0) scalar) (twistAnswer (some 0)) := by
  simp only [mulWords, notOnFieldOrder_iff, g2AffinePointIsInfinity_eq, boolWord_ne_zero,
    and_self, if_true, returnTwistPoint_zero]
  exact Yields.const _

/-- A decoded point other than infinity. -/
theorem decodeTwist_some {A : g2.Point} (h : decodeTwist aX aY = some A) (hA : A ≠ 0) :
    ¬(aX = (0, 0) ∧ aY = (0, 0)) ∧ (InRange aX ∧ InRange aY) ∧
      Coords A (fp2OfWords aX) (fp2OfWords aY) := by
  have h0 : ¬(aX = (0, 0) ∧ aY = (0, 0)) := by
    rintro ⟨rfl, rfl⟩
    rw [decodeTwist_zero, Option.some.injEq] at h
    exact hA h.symm
  rw [decodeTwist, if_neg h0] at h
  by_cases hv : (InRange aX ∧ InRange aY) ∧ g2.OnCurve (fp2OfWords aX) (fp2OfWords aY)
  · rw [dif_pos hv, Option.some.injEq] at h
    exact ⟨h0, hv.1, h ▸ coords_point hv.2⟩
  · rw [dif_neg hv] at h
    exact absurd h (by simp)

variable {A : g2.Point} {scalar : Word}

theorem mulWords_small (h : decodeTwist aX aY = some A) (hA : A ≠ 0)
    (hn : scalar.toNat ≤ 2) :
    Yields (fun fuel => mulWords fuel aX aY scalar)
      (twistAnswer (some (scalar.toNat • A))) := by
  obtain ⟨h0, hlt, hxy⟩ := decodeTwist_some h hA
  simp only [mulWords, notOnFieldOrder_iff, g2AffinePointIsInfinity_eq, boolWord_ne_zero,
    if_neg h0, notOnCurve_iff, if_neg (not_not_intro hlt),
    if_neg (not_not_intro hxy.onCurve), eq]
  by_cases hk0 : scalar = 0
  · have hzero : scalar.toNat = 0 := toNat_eq_zero.mpr hk0
    simp only [if_pos hk0, hzero, zero_nsmul, returnTwistPoint_zero]
    exact Yields.const _
  by_cases hk1 : scalar = 1
  · have hone : scalar.toNat = 1 := toNat_eq_one.mpr hk1
    simp only [if_neg hk0, if_pos hk1, hone, one_nsmul,
      returnTwistPoint_of_decode hlt.1 hlt.2 hxy]
    exact Yields.const _
  have htwo : scalar.toNat = 2 := by
    have h0' := mt toNat_eq_zero.mp hk0
    have h1' := mt toNat_eq_one.mp hk1
    omega
  have hk2 : scalar = 2 := word_ext htwo
  simp only [if_neg hk0, if_neg hk1, if_pos hk2, htwo, two_nsmul, fp2IntoMontgomeryForm_eq]
  exact returnJacobian_yields (representsTwist_double (representsTwist_affine hxy))
    (g2_double_ne_zero hA)

/-- The loop leaves a triple for the result of the incomplete ladder. -/
theorem mulWords_large (h : decodeTwist aX aY = some A) (hA : A ≠ 0)
    (hn : ¬scalar.toNat ≤ 2) :
    ∃ W, RepresentsTwist (ladder A scalar.toNat scalar.toNat.size 0) W ∧
      (∀ a, Yields (fun fuel => returnJacobian fuel W) a →
        Yields (fun fuel => mulWords fuel aX aY scalar) a) ∧
      (Diverges (fun fuel => returnJacobian fuel W) →
        ∀ a, ¬Yields (fun fuel => mulWords fuel aX aY scalar) a) := by
  obtain ⟨h0, hlt, hxy⟩ := decodeTwist_some h hA
  have hk0 : ¬scalar = 0 := fun h => hn (by rw [h]; decide)
  have hk1 : ¬scalar = 1 := fun h => hn (by rw [h]; decide)
  have hk2 : ¬scalar = 2 := fun h => hn (by rw [h]; decide)
  have hsize : scalar.toNat.size ≤ 256 := Nat.size_le.mpr (word_lt scalar)
  have hinit : RepresentsTwist 0 ((0, 0), (MONTGOMERY_ONE, 0), (0, 0)) := by
    have hzero := representsTwist_zero 0 1
    rw [encFp2_zero, encFp2_one] at hzero
    exact hzero
  have hrun := representsTwist_ladderRun (representsTwist_affine hxy) hA scalar hsize hinit
  simp only [mulWords, notOnFieldOrder_iff, g2AffinePointIsInfinity_eq, boolWord_ne_zero,
    if_neg h0, notOnCurve_iff, if_neg (not_not_intro hlt),
    if_neg (not_not_intro hxy.onCurve), eq, if_neg hk0, if_neg hk1, if_neg hk2]
  simp only [fp2IntoMontgomeryForm_eq]
  have hloop := scalarLoop_yields
    (encFp2 (fp2OfWords aX), encFp2 (fp2OfWords aY), (MONTGOMERY_ONE, 0)) scalar
    (show scalar.toNat.size < 2 ^ 256 by omega) ((0, 0), (MONTGOMERY_ONE, 0), (0, 0))
  refine ⟨_, hrun, fun a ha => ?_, fun hd a => ?_⟩
  · exact (bitLen_yields scalar).bind (hloop.bind ha)
  · refine not_yields_bind (bitLen_yields scalar) (not_yields_bind hloop ?_)
    exact fun ha => ha.not_diverges hd

end Cases

/-- The call ends with the multiple exactly where neither defect is met. -/
theorem mulWords_yields_iff (aX aY : Word × Word) (scalar : Word) :
    Yields (fun fuel => mulWords fuel aX aY scalar)
        (twistAnswer (mulPoint aX aY scalar)) ↔
      ∀ A, decodeTwist aX aY = some A → MulExact A scalar.toNat := by
  cases hdecode : decodeTwist aX aY with
  | none =>
      have hnone : mulPoint aX aY scalar = none := by
        rw [mulPoint, hdecode, Option.map_none]
      rw [hnone]
      exact ⟨fun _ A h => by simp at h, fun _ => mulWords_none hdecode scalar⟩
  | some A =>
      have hmul : mulPoint aX aY scalar = some (scalar.toNat • A) := by
        rw [mulPoint, hdecode, Option.map_some]
      simp only [Option.some.injEq, forall_eq', hmul]
      by_cases hA : A = 0
      · have hwords : aX = (0, 0) ∧ aY = (0, 0) := by
          by_contra h0
          rw [decodeTwist, if_neg h0] at hdecode
          by_cases hv : (InRange aX ∧ InRange aY) ∧
              g2.OnCurve (fp2OfWords aX) (fp2OfWords aY)
          · rw [dif_pos hv, Option.some.injEq, hA] at hdecode
            exact (coords_point hv.2).ne_zero hdecode
          · rw [dif_neg hv] at hdecode
            simp at hdecode
        rw [hwords.1, hwords.2, hA, nsmul_zero]
        exact ⟨fun _ => Or.inl rfl, fun _ => mulWords_zero scalar⟩
      by_cases hn : scalar.toNat ≤ 2
      · exact ⟨fun _ => Or.inr (Or.inl hn), fun _ => mulWords_small hdecode hA hn⟩
      obtain ⟨W, hW, hyields, hdiverges⟩ := mulWords_large hdecode hA hn
      have htotal := ladder_add_lost A scalar.toNat scalar.toNat.size 0
      rw [zero_nsmul, Nat.mul_zero, Nat.zero_add,
        Nat.mod_eq_of_lt (Nat.lt_size_self scalar.toNat)] at htotal
      have hexact : MulExact A scalar.toNat ↔ scalar.toNat • A ≠ 0 ∧
          lost A scalar.toNat scalar.toNat.size 0 • A = 0 := by
        rw [MulExact, or_iff_right hA, or_iff_right hn]
      rw [hexact]
      by_cases hC : ladder A scalar.toNat scalar.toNat.size 0 = 0
      · have hdiv : Diverges (fun fuel => returnJacobian fuel W) := by
          obtain ⟨T, rfl, hT⟩ := hW
          exact returnJacobian_zero_diverges (hT.eq_zero_iff.mp hC)
        constructor
        · intro h
          exact absurd h (hdiverges hdiv _)
        · rintro ⟨hne, hlost⟩
          rw [hC, hlost, zero_add] at htotal
          exact absurd htotal.symm hne
      · have hrun := hyields _ (returnJacobian_yields hW hC)
        constructor
        · intro h
          have heq := twistAnswer_inj.mp (hrun.unique h)
          rw [← heq]
          refine ⟨hC, ?_⟩
          rw [← heq] at htotal
          exact add_eq_left.mp htotal
        · rintro ⟨-, hlost⟩
          rw [hlost, add_zero] at htotal
          rw [← htotal]
          exact hrun

/-- The call returns the multiple of the point if and only if the four words
encode no point (and all gas is burned), or the point is infinity, or the scalar
is at most two, or the multiple is not infinity and the numbers lost at
collisions add up to a multiple of the order of the point. -/
theorem ecMulG2_refines_mul_iff (cd : Calldata) :
    Yields (fun fuel => fallback fuel cd)
        (twistAnswer (mulPoint
          (calldataload cd 0, calldataload cd 32) (calldataload cd 64, calldataload cd 96)
          (calldataload cd 128))) ↔
      ∀ A, decodeTwist (calldataload cd 0, calldataload cd 32)
          (calldataload cd 64, calldataload cd 96) = some A →
        MulExact A (calldataload cd 128).toNat :=
  mulWords_yields_iff (calldataload cd 0, calldataload cd 32)
    (calldataload cd 64, calldataload cd 96) (calldataload cd 128)

/-! ## A call that never ends -/

/-- A point of order 10069, multiplied by its order. -/
def orderCall : Calldata where
  bytes :=
    [(9034683063271952816481002916791737813195552112949541133424137370281971747016 : Word),
      2005626922539033994882376640571980328606969867221386883440718589034092971637,
      7661180844441110993051009073179916927001990469391761897918691168487243482237,
      9222975962810544045783369988254016637597473957429378927688590047695955524068,
      10069].flatMap wordBytes
  length_lt := by decide +kernel

theorem orderCall_words :
    InRange (calldataload orderCall 0, calldataload orderCall 32) ∧
      InRange (calldataload orderCall 64, calldataload orderCall 96) ∧
      (calldataload orderCall 128).toNat = 10069 := by
  decide

theorem orderCall_onCurve :
    g2.OnCurve (fp2OfWords (calldataload orderCall 0, calldataload orderCall 32))
      (fp2OfWords (calldataload orderCall 64, calldataload orderCall 96)) := by
  decide +kernel

theorem orderCall_order :
    orderCheck (fp2OfWords (calldataload orderCall 0, calldataload orderCall 32))
      (fp2OfWords (calldataload orderCall 64, calldataload orderCall 96)) 10069 = true := by
  decide +kernel

/-- The multiple of the point is infinity, which the call does not return. -/
theorem ecMulG2_not_refines_at_order :
    ¬Yields (fun fuel => fallback fuel orderCall)
      (twistAnswer (mulPoint
        (calldataload orderCall 0, calldataload orderCall 32)
        (calldataload orderCall 64, calldataload orderCall 96)
        (calldataload orderCall 128))) := by
  obtain ⟨hx, hy, hn⟩ := orderCall_words
  obtain ⟨A, hA, hxy⟩ := decodeTwist_of_onCurve hx hy orderCall_onCurve
  have hzero : 10069 • A = 0 :=
    nsmul_eq_zero_of_orderCheck rfl hxy (by decide) orderCall_order
  intro h
  rcases (mulWords_yields_iff _ _ _).mp h A hA with hA0 | hle | ⟨hne, -⟩
  · exact hxy.ne_zero hA0
  · omega
  · rw [hn] at hne
    exact hne hzero

end EraPrecompiles.EcMulG2
