import EraPrecompiles.Precompiles.PointCalls
import EraPrecompiles.Scripts.Ecdsa
import EraPrecompiles.Scripts.Signing

/-!
# The script for multiples of the generator

`double_and_add.py` prints a multiple of the generator of BN254.  Its points are those of the
signature scripts, but its addition doubles equal points and its doubling has no test for
`y = 0`.

`ecMul_agrees_with_script` compares it with the precompile, for every multiplier: the call is
made with the multiplier modulo the order of the curve.  A negative multiplier does not enter
the loop, and the script prints the pair for infinity.
-/

namespace EraPrecompiles.Scripts.DoubleAndAdd

open Bn254 ShortWeierstrass

/-! ## The functions -/

def pointDouble (x y mod : ℤ) : ℤ × ℤ :=
  if isInfinity x y then
    (0, 0)
  else
    let m := divMod (mulMod 3 (mulMod x x mod) mod) (addMod y y mod) mod
    let ret_x := subMod (mulMod m m mod) (addMod x x mod) mod
    let ret_y := subMod (mulMod m (subMod x ret_x mod) mod) y mod
    (ret_x, ret_y)

def pointAdd (x1 y1 x2 y2 mod : ℤ) : ℤ × ℤ :=
  if isInfinity x1 y1 ∧ isInfinity x2 y2 then
    (0, 0)
  else if isInfinity x1 y1 ∧ ¬isInfinity x2 y2 then
    (x2, y2)
  else if ¬isInfinity x1 y1 ∧ isInfinity x2 y2 then
    (x1, y1)
  else if x1 = x2 ∧ subMod 0 y1 mod = y2 then
    (0, 0)
  else if x1 = x2 ∧ y1 = y2 then
    pointDouble x1 y1 mod
  else
    let m := divMod (subMod y2 y1 mod) (subMod x2 x1 mod) mod
    let ret_x := subMod (mulMod m m mod) (addMod x1 x2 mod) mod
    let ret_y := subMod (mulMod m (subMod x1 ret_x mod) mod) y1 mod
    (ret_x, ret_y)

/-- The loop of `main`. -/
def mainLoop (mod multiplier : ℤ) (res p : ℤ × ℤ) : ℤ × ℤ :=
  if 0 < multiplier then
    let res := if ¬isEven multiplier then pointAdd res.1 res.2 p.1 p.2 mod else res
    mainLoop mod (multiplier >>> (1 : ℕ)) res (pointDouble p.1 p.2 mod)
  else
    res
termination_by multiplier.toNat
decreasing_by
  rw [Int.shiftRight_eq_div_pow]
  omega

/-- What is printed for a multiplier. -/
def main (multiplier : ℤ) : ℤ × ℤ :=
  mainLoop 21888242871839275222246405745257275088696311157297823662689037894645226208583
    multiplier (0, 0) (1, 2)

/-! ## The group -/

theorem g1_b_ne_zero : g1.b ≠ 0 := by
  decide

theorem two_lt_p : 2 < p := by
  decide

theorem pointDouble_eq (S : g1.Point) :
    pointDouble (scriptPoint S).1 (scriptPoint S).2 p = scriptPoint (S + S) := by
  rcases eq_zero_or_coords S with rfl | ⟨x, y, hS⟩
  · rw [add_zero]
    rfl
  · have hy : y ≠ 0 := by
      rintro rfl
      exact g1_y_ne_zero x hS.onCurve
    have hslope : 3 * (x * x) / (y + y) * (2 * y) = 3 * x ^ 2 + g1.a := by
      have h2y : 2 * y ≠ 0 := mul_ne_zero g1.two_ne_zero hy
      rw [← two_mul, div_mul_cancel₀ _ h2y]
      simp only [g1]
      ring
    rw [scriptPoint_of_coords hS, pointDouble, isInfinity_of_coords g1_b_ne_zero hS,
      if_neg Bool.false_ne_true]
    simp only [mulMod_residue, mulMod_three_residue, addMod_residue, divMod_residue two_lt_p,
      subMod_residue]
    rw [scriptPoint_of_coords (hS.double hy hslope)]
    congr 2 <;> ring

theorem pointAdd_eq (S T : g1.Point) :
    pointAdd (scriptPoint S).1 (scriptPoint S).2 (scriptPoint T).1 (scriptPoint T).2 p =
      scriptPoint (S + T) := by
  rcases eq_zero_or_coords S with rfl | ⟨x₁, y₁, hS⟩
  · rcases eq_zero_or_coords T with rfl | ⟨x₂, y₂, hT⟩
    · simp [scriptPoint_zero, pointAdd, isInfinity_zero]
    · simp [scriptPoint_zero, scriptPoint_of_coords hT, pointAdd, isInfinity_zero,
        isInfinity_of_coords g1_b_ne_zero hT]
  rcases eq_zero_or_coords T with rfl | ⟨x₂, y₂, hT⟩
  · simp [scriptPoint_zero, scriptPoint_of_coords hS, pointAdd, isInfinity_zero,
      isInfinity_of_coords g1_b_ne_zero hS]
  have hdouble := pointDouble_eq S
  rw [scriptPoint_of_coords hS] at hdouble
  simp only [scriptPoint_of_coords hS, scriptPoint_of_coords hT, pointAdd,
    isInfinity_of_coords g1_b_ne_zero hS, isInfinity_of_coords g1_b_ne_zero hT,
    subMod_zero_residue, residue_inj, Bool.false_eq_true, false_and, and_false,
    not_false_eq_true, if_false]
  by_cases hx : x₁ = x₂
  · subst hx
    by_cases hy : -y₁ = y₂
    · have hsum : S + T = 0 := hS.add_eq_zero hT (by rw [← hy, neg_neg])
      rw [if_pos ⟨rfl, hy⟩, hsum, scriptPoint_zero]
    · have hyy : y₁ = y₂ := (hS.eq_or_eq_neg hT).resolve_right fun h => hy (by rw [h, neg_neg])
      subst hyy
      rw [if_neg fun h => hy h.2, if_pos ⟨rfl, rfl⟩, hdouble, hS.point_unique hT]
  · have hsub : x₂ - x₁ ≠ 0 := sub_ne_zero.mpr (Ne.symm hx)
    have hslope : (y₂ - y₁) / (x₂ - x₁) * (x₂ - x₁) = y₂ - y₁ := div_mul_cancel₀ _ hsub
    rw [if_neg fun h => hx h.1, if_neg fun h => hx h.1]
    simp only [mulMod_residue, addMod_residue, divMod_residue two_lt_p, subMod_residue]
    rw [scriptPoint_of_coords (hS.add hT hx hslope)]
    congr 2 <;> ring

/-- One round of the loop. -/
theorem mainLoop_succ {m : ℤ} (hm : 0 < m) (S T : g1.Point) :
    mainLoop p m (scriptPoint S) (scriptPoint T) =
      mainLoop p (m >>> (1 : ℕ)) (scriptPoint (S + (m.toNat % 2) • T)) (scriptPoint (T + T)) := by
  have heven := isEven_iff hm.le
  rw [mainLoop, if_pos hm, pointDouble_eq]
  cases Nat.mod_two_eq_zero_or_one m.toNat with
  | inl h0 =>
      rw [heven.mpr h0, if_neg (not_not_intro rfl), h0, zero_nsmul, add_zero]
  | inr h1 =>
      have hodd : ¬isEven m = true := by
        rw [heven, h1]
        exact one_ne_zero
      rw [if_pos hodd, h1, one_nsmul, pointAdd_eq]

/-- The loop adds the multiple of the point. -/
theorem mainLoop_eq (k : ℕ) (S T : g1.Point) :
    mainLoop p k (scriptPoint S) (scriptPoint T) = scriptPoint (S + k • T) := by
  induction k using Nat.strongRecOn generalizing S T with
  | ind k ih =>
      cases Nat.eq_zero_or_pos k with
      | inl h0 =>
          rw [h0, mainLoop, if_neg (by simp), zero_nsmul, add_zero]
      | inr hpos =>
          have hhalf : ((k : ℤ) >>> (1 : ℕ)) = (k / 2 : ℕ) := by
            rw [Int.shiftRight_eq_div_pow]
            omega
          rw [mainLoop_succ (by omega), hhalf, Int.toNat_natCast, ih (k / 2) (by omega),
            add_assoc, ← nsmul_eq_half]

/-- The multiple that is printed: infinity for a negative multiplier. -/
theorem main_eq (multiplier : ℤ) :
    main multiplier = scriptPoint (multiplier.toNat • g1.point 1 2 generator_onCurve) := by
  have hzero : ((0, 0) : ℤ × ℤ) = scriptPoint (0 : g1.Point) := rfl
  by_cases hnonneg : 0 ≤ multiplier
  · have hstart : ((1, 2) : ℤ × ℤ) = scriptPoint (g1.point 1 2 generator_onCurve) := by
      rw [scriptPoint_of_coords (coords_point generator_onCurve)]
      decide
    have hmain := mainLoop_eq multiplier.toNat 0 (g1.point 1 2 generator_onCurve)
    rw [zero_add, ← hstart, ← hzero, Int.toNat_of_nonneg hnonneg] at hmain
    exact hmain
  · rw [main, mainLoop, if_neg (by omega), Int.toNat_of_nonpos (by omega), zero_nsmul, hzero]

/-- The words of a pair of the script. -/
theorem intWord_scriptPoint (A : g1.Point) :
    [intWord (scriptPoint A).1, intWord (scriptPoint A).2] = pointWords A := by
  have hword : ∀ x : Fp, intWord (residue x) = toWord x := fun x => by
    rw [residue, intWord_natCast, toWord]
  rcases eq_zero_or_coords A with rfl | ⟨x, y, hA⟩
  · rw [scriptPoint_zero, pointWords_zero]
    decide
  · rw [scriptPoint_of_coords hA, pointWords_of_coords hA, hword, hword]

/-- The call with the generator and a scalar returns what the script prints for a multiplier if
and only if the two are congruent modulo the order of the curve.  A negative multiplier counts
as zero. -/
theorem ecMul_agrees_with_script {cd : Calldata} {k : Word} (h : Carries cd [1, 2, k])
    (multiplier : ℤ) :
    ∃ halt, Yields (fun fuel => EcMul.fallback fuel cd) halt ∧
      (halt = .returned ([intWord (main multiplier).1, intWord (main multiplier).2].flatMap
          wordBytes) ↔
        k.toNat % r = multiplier.toNat % r) := by
  have hcarries : Carries cd (pointWords (g1.point 1 2 generator_onCurve) ++ [k]) := by
    rw [pointWords_generator]
    exact h
  refine ⟨_, EcMul.fallback_points hcarries, ?_⟩
  have hanswer : Halt.returned ([intWord (main multiplier).1, intWord (main multiplier).2].flatMap
      wordBytes) = answer (some (multiplier.toNat • g1.point 1 2 generator_onCurve)) := by
    rw [main_eq, intWord_scriptPoint, answer, encodePoint]
  rw [hanswer, answer_some_inj,
    nsmul_eq_nsmul_iff_of_card card_g1 (coords_point generator_onCurve).ne_zero,
    ZMod.natCast_eq_natCast_iff']

/-- The scalar five and the multiplier `r + 5`, and the scalar zero and a negative multiplier. -/
theorem ecMul_agrees_with_script_order :
    (∃ halt, Yields (fun fuel => EcMul.fallback fuel
        (Calldata.ofWords [1, 2, 5] (by decide))) halt ∧
      (halt = .returned ([intWord (main (r + 5 : ℕ)).1, intWord (main (r + 5 : ℕ)).2].flatMap
          wordBytes) ↔
        (5 : Word).toNat % r = (r + 5) % r)) ∧
    ∃ halt, Yields (fun fuel => EcMul.fallback fuel
        (Calldata.ofWords [1, 2, 0] (by decide))) halt ∧
      (halt = .returned ([intWord (main (-5)).1, intWord (main (-5)).2].flatMap wordBytes) ↔
        (0 : Word).toNat % r = 0 % r) :=
  ⟨ecMul_agrees_with_script (carries_ofWords _ _) (r + 5 : ℕ),
    ecMul_agrees_with_script (carries_ofWords _ _) (-5)⟩

end EraPrecompiles.Scripts.DoubleAndAdd
