import EraPrecompiles.Bn254.TwistOrder

/-!
# The subgroup test of EcPairing

`g2ScalarMul` multiplies a point of the twist by a scalar, and `g2IsInSubGroup` applies it to
the order of the subgroup.

The branch for the scalar two passes `yp1` where `zp1` belongs, so it doubles another
representative.  All other scalars go through the loop, whose addition has no branch for
equal points.  On points of order `r` and scalars up to `r` no addition meets equal points,
and the result is right (`g2ScalarMul_represents_iff`).  For the scalar `r` this is so on all
points of the twist, which makes the subgroup test exact (`g2IsInSubGroup_yields`).
-/

namespace EraPrecompiles.Pairing

open Bn254 ShortWeierstrass

/-! ## The program -/

def TWISTED_SUBGROUP_ORDER : Word :=
  21888242871839275222246405745257275088548364400416034343698204186575808495617

def g2ScalarMul (fuel : ℕ) (p : (Word × Word) × (Word × Word) × (Word × Word))
    (scalar : Word) : Option ((Word × Word) × (Word × Word) × (Word × Word)) := do
  let scalarBitIndex ← bitLen fuel scalar
  if scalar = 0x02 then
    -- the source passes `yp1` as the second word of `z`
    return g2JacobianDouble (p.1, p.2.1, (p.2.2.1, p.2.1.2))
  else
    scalarLoop fuel p scalar scalarBitIndex ((0, 0), (MONTGOMERY_ONE, 0), (0, 0))

def g2IsInSubGroup (fuel : ℕ) (p : (Word × Word) × (Word × Word) × (Word × Word)) :
    Option Word := do
  let r ← g2ScalarMul fuel p TWISTED_SUBGROUP_ORDER
  return and (iszero r.2.2.1) (iszero r.2.2.2)

theorem toNat_TWISTED_SUBGROUP_ORDER : TWISTED_SUBGROUP_ORDER.toNat = r := by
  decide

/-! ## The loop -/

theorem representsTwist_start :
    RepresentsTwist 0 ((0, 0), (MONTGOMERY_ONE, 0), (0, 0)) := by
  have h := representsTwist_zero 0 1
  rw [encFp2_zero, encFp2_one] at h
  exact h

section ScalarMul

variable {A : g2.Point} {V : (Word × Word) × (Word × Word) × (Word × Word)} {k : Word}

/-- Where the scalar is not two, the multiplication ends, on all words. -/
theorem g2ScalarMul_yields_run (V : (Word × Word) × (Word × Word) × (Word × Word))
    (hk : k ≠ 2) :
    Yields (fun fuel => g2ScalarMul fuel V k)
      (ladderRun V k k.toNat.size ((0, 0), (MONTGOMERY_ONE, 0), (0, 0))) := by
  have hsize : k.toNat.size ≤ 256 := Nat.size_le.mpr (word_lt k)
  refine (bitLen_yields k).bind ?_
  simp only [if_neg hk]
  exact scalarLoop_yields V k (by omega) _

/-- Where the scalar is not two, the result is what the ladder computes. -/
theorem g2ScalarMul_yields_ladder (hV : RepresentsTwist A V) (hA : A ≠ 0) (hk : k ≠ 2) :
    ∃ W, Yields (fun fuel => g2ScalarMul fuel V k) W ∧
      RepresentsTwist (ladder A k.toNat k.toNat.size 0) W := by
  have hsize : k.toNat.size ≤ 256 := Nat.size_le.mpr (word_lt k)
  exact ⟨_, g2ScalarMul_yields_run V hk,
    representsTwist_ladderRun hV hA k hsize representsTwist_start⟩

/-- Multiples of the point at infinity. -/
theorem representsTwist_ladderRun_zero (hV : RepresentsTwist 0 V) (scalar : Word) (i : ℕ)
    {W : (Word × Word) × (Word × Word) × (Word × Word)} (hW : RepresentsTwist 0 W) :
    RepresentsTwist 0 (ladderRun V scalar i W) := by
  induction i generalizing W with
  | zero =>
      exact hW
  | succ i ih =>
      have hdouble := representsTwist_double hW
      have hadd := representsTwist_add_of_zero hV hdouble (Or.inl rfl)
      rw [zero_add] at hdouble
      rw [zero_add, zero_add] at hadd
      rw [ladderRun]
      refine ih ?_
      by_cases h : checkBit (BitVec.ofNat 256 i) scalar ≠ 0
      · simp only [scalarStep, if_pos h]
        exact hadd
      · simp only [scalarStep, if_neg h]
        exact hdouble

/-- The double has its coordinates off the axes, so its `z` is determined. -/
theorem double_z_unique {X Y Z Z' : Fp2} (hA : A ≠ 0) (h : Jacobian A (X, Y, Z))
    (h' : Jacobian (A + A) (jacobianDouble (X, Y, Z'))) : Z = Z' := by
  obtain ⟨x, y, hxy, hZ, -, hY⟩ := h.exists_coords hA
  have hy : y ≠ 0 := by
    rintro rfl
    exact g2_y_ne_zero _ hxy.onCurve
  have hY0 : Y ≠ 0 := by
    dsimp only at hY
    rw [hY]
    exact mul_ne_zero hy (pow_ne_zero 3 hZ)
  obtain ⟨x₂, y₂, hxy₂⟩ := (eq_zero_or_coords (A + A)).resolve_left (g2_double_ne_zero hA)
  have hx₂ : x₂ ≠ 0 := by
    rintro rfl
    exact g2_x_ne_zero _ hxy₂.onCurve
  have hy₂ : y₂ ≠ 0 := by
    rintro rfl
    exact g2_y_ne_zero _ hxy₂.onCurve
  have hz : Y * Z + Y * Z = Y * Z' + Y * Z' := Jacobian.z_unique hxy₂ hx₂ hy₂ (h.double rfl) h'
  rw [← two_mul, ← two_mul] at hz
  exact mul_left_cancel₀ hY0 (mul_left_cancel₀ g2.two_ne_zero hz)

/-- Doubling with `yp1` in place of `zp1` is right only if the two words are equal. -/
theorem double_with_yp1_iff (hV : RepresentsTwist A V) (hA : A ≠ 0) :
    RepresentsTwist (A + A) (g2JacobianDouble (V.1, V.2.1, (V.2.2.1, V.2.1.2))) ↔
      V.2.2.2 = V.2.1.2 := by
  constructor
  · intro h
    obtain ⟨⟨X, Y, Z⟩, rfl, hS⟩ := hV
    have henc := g2JacobianDouble_enc (X, Y, ⟨Z.re, Y.im⟩)
    have hwords : (encFp2 X, encFp2 Y, ((encFp2 Z).1, (encFp2 Y).2)) =
        (encFp2 X, encFp2 Y, encFp2 ⟨Z.re, Y.im⟩) := rfl
    dsimp only at h henc ⊢
    rw [hwords, henc, representsTwist_enc_iff] at h
    have hZ : Z = ⟨Z.re, Y.im⟩ := double_z_unique hA hS h
    rw [hZ]
    rfl
  · intro h
    have hz : (V.2.2.1, V.2.1.2) = V.2.2 := by
      rw [← h]
    rw [hz]
    exact representsTwist_double hV

/-- On points of order `r` and scalars up to `r`, the multiplication is right unless it takes
the branch for the scalar two with `yp1` other than `zp1`. -/
theorem g2ScalarMul_represents_iff (hV : RepresentsTwist A V) (hA : A ≠ 0) (hr : r • A = 0)
    (hk : k.toNat ≤ r) :
    (∃ W, Yields (fun fuel => g2ScalarMul fuel V k) W ∧
        RepresentsTwist (k.toNat • A) W ∧ (W.2.2 = (0, 0) ↔ k.toNat • A = 0)) ↔
      (k = 2 → V.2.2.2 = V.2.1.2) := by
  by_cases hk2 : k = 2
  · have hrun : Yields (fun fuel => g2ScalarMul fuel V k)
        (g2JacobianDouble (V.1, V.2.1, (V.2.2.1, V.2.1.2))) := by
      refine (bitLen_yields k).bind ?_
      simp only [if_pos hk2]
      exact Yields.const _
    have htwo : k.toNat • A = A + A := by
      rw [hk2, ← two_nsmul]
      rfl
    rw [forall_prop_of_true hk2, ← double_with_yp1_iff hV hA, htwo]
    constructor
    · rintro ⟨W, hW, hrep, -⟩
      rw [hrun.unique hW]
      exact hrep
    · intro hrep
      exact ⟨_, hrun, hrep, representsTwist_eq_zero_iff hrep⟩
  · refine iff_of_true ?_ fun h => absurd h hk2
    obtain ⟨W, hW, hrep⟩ := g2ScalarMul_yields_ladder hV hA hk2
    rw [ladder_of_prime_order prime_r.out hA hr hk] at hrep
    exact ⟨W, hW, hrep, representsTwist_eq_zero_iff hrep⟩

/-- Five times the generator. -/
theorem g2ScalarMul_represents_iff_five :
    ∃ W, Yields (fun fuel => g2ScalarMul fuel twistGeneratorWords 5) W ∧
      RepresentsTwist ((5 : Word).toNat • twistGenerator) W ∧
      (W.2.2 = (0, 0) ↔ (5 : Word).toNat • twistGenerator = 0) :=
  (g2ScalarMul_represents_iff (k := 5) representsTwist_generator coords_twistGenerator.ne_zero
    nsmul_twistGenerator (by decide)).mpr fun h => absurd h (by decide)

/-- Twice the generator is not what the branch for the scalar two returns. -/
theorem g2ScalarMul_generator_two :
    RepresentsTwist twistGenerator twistGeneratorWords ∧ r • twistGenerator = 0 ∧
      ∃ W, Yields (fun fuel => g2ScalarMul fuel twistGeneratorWords 2) W ∧
        ¬RepresentsTwist (2 • twistGenerator) W := by
  refine ⟨representsTwist_generator, nsmul_twistGenerator, _,
    (bitLen_yields 2).bind (Yields.const _), ?_⟩
  rw [two_nsmul]
  have hne : ¬twistGeneratorWords.2.2.2 = twistGeneratorWords.2.1.2 := by
    decide
  exact mt (double_with_yp1_iff representsTwist_generator coords_twistGenerator.ne_zero).mp hne

/-! ## The subgroup test -/

/-- The test ends on every finite point of the twist, and is exact. -/
theorem g2IsInSubGroup_yields (hV : RepresentsTwist A V) (hA : A ≠ 0) :
    ∃ ret, Yields (fun fuel => g2IsInSubGroup fuel V) ret ∧ (ret ≠ 0 ↔ r • A = 0) := by
  have hne : TWISTED_SUBGROUP_ORDER ≠ 2 := by decide
  obtain ⟨W, hW, hrep⟩ := g2ScalarMul_yields_ladder hV hA hne
  rw [toNat_TWISTED_SUBGROUP_ORDER, ladder_r hA] at hrep
  refine ⟨_, hW.bind (Yields.const _), ?_⟩
  rw [iszero, iszero, and_boolWord, boolWord_ne_zero, ← representsTwist_eq_zero_iff hrep,
    Prod.ext_iff]

/-- The test ends on all words. -/
theorem g2IsInSubGroup_terminates (V : (Word × Word) × (Word × Word) × (Word × Word)) :
    ∃ ret, Yields (fun fuel => g2IsInSubGroup fuel V) ret := by
  have hne : TWISTED_SUBGROUP_ORDER ≠ 2 := by decide
  exact ⟨_, (g2ScalarMul_yields_run V hne).bind (Yields.const _)⟩

/-- The test is exact on all points of the twist. -/
theorem g2IsInSubGroup_exact (hV : RepresentsTwist A V) :
    ∃ ret, Yields (fun fuel => g2IsInSubGroup fuel V) ret ∧ (ret ≠ 0 ↔ r • A = 0) := by
  by_cases hA : A = 0
  · subst hA
    have hne : TWISTED_SUBGROUP_ORDER ≠ 2 := by decide
    have hrep := representsTwist_ladderRun_zero hV TWISTED_SUBGROUP_ORDER
      TWISTED_SUBGROUP_ORDER.toNat.size representsTwist_start
    refine ⟨_, (g2ScalarMul_yields_run V hne).bind (Yields.const _),
      iff_of_true ?_ (nsmul_zero r)⟩
    rw [iszero, iszero, and_boolWord, boolWord_ne_zero]
    exact Prod.ext_iff.mp ((representsTwist_eq_zero_iff hrep).mpr rfl)
  · exact g2IsInSubGroup_yields hV hA

end ScalarMul

end EraPrecompiles.Pairing
