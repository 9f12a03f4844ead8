import EraPrecompiles.Pairing.Cyclotomic

/-!
# The final exponentiation

The first part of `finalExponentiation` raises to `(p^6 - 1) * (p^2 + 1)`, which leads to the
cyclotomic subgroup.  There the conjugate is the inverse, so every value of the second part
is a power of one element `g` with an exponent in `ℤ`, and the second part is traced by its
exponents (`hardPart_yields`).

Like its callees, `finalExponentiation` has the square of the cyclotomic subgroup as an
argument.  With `checkedSquare`, which refuses the words that are not in the subgroup, it
gives the same result: all values that are squared are in the subgroup.
-/

namespace EraPrecompiles.Pairing

open Bn254

/-! ## The program -/

/-- `finalExponentiation`, with the square of the cyclotomic subgroup as an argument. -/
def finalExponentiationWith (square : Words12 → Option Words12) (fuel : ℕ) (a : Words12) :
    Option Words12 := do
  let f := a
  -- Easy Part
  let t0 := fp12Conjugate f
  let f ← fp12Inv fuel f
  let t0 := fp12Mul t0 f
  let t1 := frobeniusSquare t0
  let f := fp12Mul t1 t0
  -- Hard Part
  let t0 ← fp12ExptWith square fuel f
  let t0 := fp12Conjugate t0
  let t0 ← square t0
  let t1 ← square t0
  let t1 := fp12Mul t0 t1
  let t2 ← fp12ExptWith square fuel t1
  let t2 := fp12Conjugate t2
  let t3 := fp12Conjugate t1
  let t1 := fp12Mul t2 t3
  let t3 ← square t2
  let t4 ← fp12ExptWith square fuel t3
  let t4 := fp12Mul t4 t1
  let t3 := fp12Mul t4 t0
  let t0 := fp12Mul t2 t4
  let t0 := fp12Mul t0 f
  let t2 := frobenius t3
  let t0 := fp12Mul t2 t0
  let t2 := frobeniusSquare t4
  let t0 := fp12Mul t2 t0
  let t2 := fp12Conjugate f
  let t2 := fp12Mul t2 t3
  let t2 := frobeniusCube t2
  return fp12Mul t2 t0

def finalExponentiation (fuel : ℕ) (a : Words12) : Option Words12 :=
  finalExponentiationWith (fun w => some (fp12CyclotomicSquare w)) fuel a

/-! ## Powers with exponents in `ℤ` -/

/-- The parameter of the curve. -/
def bnParameter : ℕ :=
  4965661367192848881

namespace Cyclotomic

variable {g : Fp12} (hg : Cyclotomic g)

include hg

theorem ne_zero : g ≠ 0 := by
  rintro rfl
  have hexp : p ^ 4 - p ^ 2 + 1 ≠ 0 := Nat.succ_ne_zero _
  rw [Cyclotomic, zero_pow hexp] at hg
  exact zero_ne_one hg

theorem zpow (k : ℤ) : Cyclotomic (g ^ k) := by
  rw [Cyclotomic, ← zpow_natCast, zpow_comm, zpow_natCast, hg, one_zpow]

/-- The conjugate is the inverse. -/
theorem star_eq_inv : star g = g⁻¹ := by
  have hexp : p ^ 6 + 1 = (p ^ 4 - p ^ 2 + 1) * (p ^ 2 + 1) := by
    decide
  refine eq_inv_of_mul_eq_one_left ?_
  rw [← fp12_pow_p_six, ← pow_succ, hexp, pow_mul, hg, one_pow]

end Cyclotomic

section Exponents

variable {square : Words12 → Option Words12} (hs : Squares square) {g : Fp12}
  (hg : Cyclotomic g)

include hg

theorem fp12Mul_zpow (k l : ℤ) :
    fp12Mul (encFp12 (g ^ k)) (encFp12 (g ^ l)) = encFp12 (g ^ (k + l)) := by
  rw [fp12Mul_enc, zpow_add₀ hg.ne_zero]

theorem fp12Conjugate_zpow (k : ℤ) :
    fp12Conjugate (encFp12 (g ^ k)) = encFp12 (g ^ (-k)) := by
  rw [fp12Conjugate_enc, (hg.zpow k).star_eq_inv, zpow_neg]

omit hg in
theorem frobenius_zpow {f : Words12 → Words12} {n : ℕ}
    (hf : ∀ z, f (encFp12 z) = encFp12 (z ^ n)) (k : ℤ) :
    f (encFp12 (g ^ k)) = encFp12 (g ^ (k * n)) := by
  rw [hf, ← zpow_natCast, zpow_mul]

include hs

theorem square_zpow (k : ℤ) : square (encFp12 (g ^ k)) = some (encFp12 (g ^ (k + k))) := by
  rw [hs _ (hg.zpow k), zpow_add₀ hg.ne_zero]

theorem fp12Expt_zpow (k : ℤ) :
    Yields (fun fuel => fp12ExptWith square fuel (encFp12 (g ^ k)))
      (encFp12 (g ^ (k * (bnParameter : ℕ)))) := by
  have hyields := fp12ExptWith_yields hs (hg.zpow k)
  rwa [← zpow_natCast, ← zpow_mul] at hyields

/-- The exponent of the second part. -/
def hardExponent (x q q2 q3 : ℤ) : ℤ :=
  (12 * x ^ 3 + 12 * x ^ 2 + 6 * x + 1) + (12 * x ^ 3 + 6 * x ^ 2 + 4 * x) * q +
    (12 * x ^ 3 + 6 * x ^ 2 + 6 * x) * q2 + (12 * x ^ 3 + 6 * x ^ 2 + 4 * x - 1) * q3

end Exponents

/-! ## The exponent -/

/-- What the result is a power of, besides `(p^12 - 1) / r`. -/
def finalCofactor : ℕ :=
  2 * bnParameter * (6 * bnParameter ^ 2 + 3 * bnParameter + 1)

theorem coprime_finalCofactor : finalCofactor.Coprime r := by
  decide

theorem easyPart_of_frobenius {f : Fp12} (hf : f ≠ 0) :
    (star f * f⁻¹) ^ p ^ 2 * (star f * f⁻¹) = easyPart f := by
  have hpos : 0 < p ^ 6 := Nat.pow_pos (by decide)
  have hexp : p ^ 6 = p ^ 6 - 1 + 1 := by omega
  have hbase : star f * f⁻¹ = f ^ (p ^ 6 - 1) := by
    rw [← fp12_pow_p_six]
    conv_lhs => rw [hexp]
    rw [pow_succ, mul_inv_cancel_right₀ hf]
  rw [hbase, ← pow_succ, ← pow_mul, easyPart]

theorem hardExponent_eq :
    hardExponent (bnParameter : ℕ) (p : ℕ) (p ^ 2 : ℕ) (p ^ 3 : ℕ) =
      (finalCofactor * ((p ^ 4 - p ^ 2 + 1) / r) : ℕ) := by
  decide

theorem easyPart_pow (f : Fp12) :
    easyPart f ^ (finalCofactor * ((p ^ 4 - p ^ 2 + 1) / r)) =
      f ^ (finalCofactor * ((p ^ 12 - 1) / r)) := by
  have hexp : (p ^ 6 - 1) * (p ^ 2 + 1) * (finalCofactor * ((p ^ 4 - p ^ 2 + 1) / r)) =
      finalCofactor * ((p ^ 12 - 1) / r) := by
    decide
  rw [easyPart, ← pow_mul, hexp]

theorem finalExponentiationWith_yields {square : Words12 → Option Words12}
    (hs : Squares square) {f : Fp12} (hf : f ≠ 0) :
    Yields (fun fuel => finalExponentiationWith square fuel (encFp12 f))
      (encFp12 (f ^ (finalCofactor * ((p ^ 12 - 1) / r)))) := by
  have hg := cyclotomic_easyPart hf
  have hexpt := fp12Expt_zpow hs hg
  rw [← easyPart_pow, ← zpow_natCast, ← hardExponent_eq]
  refine (fp12Inv_yields hf).bind ?_
  simp only [fp12Conjugate_enc f, fp12Mul_enc, frobeniusSquare_enc, easyPart_of_frobenius hf]
  generalize easyPart f = g at hg hexpt
  have hone : encFp12 g = encFp12 (g ^ (1 : ℤ)) := by rw [zpow_one]
  rw [hone]
  refine (hexpt 1).bind ?_
  simp only [fp12Conjugate_zpow hg, square_zpow hs hg, fp12Mul_zpow hg, Option.bind_eq_bind,
    Option.bind_some]
  refine (hexpt _).bind ?_
  simp only [fp12Conjugate_zpow hg, square_zpow hs hg, fp12Mul_zpow hg, Option.bind_some]
  refine (hexpt _).bind ?_
  simp only [fp12Mul_zpow hg, frobenius_zpow frobenius_enc, frobenius_zpow frobeniusSquare_enc,
    frobenius_zpow frobeniusCube_enc]
  refine Yields.of_eq fun _ => congrArg (fun k => some (encFp12 (g ^ k))) ?_
  rw [hardExponent]
  ring

/-! ## Results -/

theorem pow_finalCofactor_eq_one_iff {f : Fp12} (hf : f ≠ 0) :
    f ^ (finalCofactor * ((p ^ 12 - 1) / r)) = 1 ↔ f ^ ((p ^ 12 - 1) / r) = 1 := by
  have hexp : (p ^ 12 - 1) / r * r = p ^ 12 - 1 := by
    decide
  rw [mul_comm finalCofactor, pow_mul]
  constructor
  · intro h
    have hr : (f ^ ((p ^ 12 - 1) / r)) ^ r = 1 := by
      rw [← pow_mul, hexp, fp12_pow_card_sub_one hf]
    have hgcd := pow_gcd_eq_one.mpr ⟨h, hr⟩
    rwa [coprime_finalCofactor.gcd_eq_one, pow_one] at hgcd
  · intro h
    rw [h, one_pow]

/-- The elements of `Fp6` are raised to a multiple of `p^6 - 1`. -/
theorem pow_finalCofactor_of_im_eq_zero {f : Fp12} (hf : f ≠ 0) (him : f.im = 0) :
    f ^ (finalCofactor * ((p ^ 12 - 1) / r)) = 1 := by
  have hstar : star f = f := by
    ext : 1
    · simp [him]
    · simp [him]
  have heasy : easyPart f = 1 := by
    rw [← easyPart_of_frobenius hf, hstar, mul_inv_cancel₀ hf, one_pow, one_mul]
  rw [← easyPart_pow, heasy, one_pow]

/-- The final exponentiation is a power, to a multiple of `(p^12 - 1) / r` that is prime to
`r` after division by it. -/
theorem finalExponentiation_eq_pow {f : Fp12} (hf : f ≠ 0) :
    finalCofactor.Coprime r ∧
    ∃ w, Yields (fun fuel => finalExponentiation fuel (encFp12 f)) w ∧
      w = encFp12 (f ^ (finalCofactor * ((p ^ 12 - 1) / r))) ∧
      (w = encFp12 1 ↔ f ^ ((p ^ 12 - 1) / r) = 1) ∧
      (f.im = 0 → w = encFp12 1) := by
  refine ⟨coprime_finalCofactor, _,
    finalExponentiationWith_yields squares_fp12CyclotomicSquare hf, rfl, ?_, fun him => ?_⟩
  · rw [encFp12_inj, pow_finalCofactor_eq_one_iff hf]
  · rw [pow_finalCofactor_of_im_eq_zero hf him]

theorem finalExponentiation_eq_pow_one_add :
    finalCofactor.Coprime r ∧
    ∃ w, Yields (fun fuel => finalExponentiation fuel (encFp12 ⟨1, 1⟩)) w ∧
      w = encFp12 (⟨1, 1⟩ ^ (finalCofactor * ((p ^ 12 - 1) / r))) ∧
      (w = encFp12 1 ↔ (⟨1, 1⟩ : Fp12) ^ ((p ^ 12 - 1) / r) = 1) ∧
      ((⟨1, 1⟩ : Fp12).im = 0 → w = encFp12 1) :=
  finalExponentiation_eq_pow (by decide)

open Classical in
/-- `fp12CyclotomicSquare`, on the elements of the cyclotomic subgroup only. -/
noncomputable def checkedSquare (w : Words12) : Option Words12 :=
  if ∃ a, Cyclotomic a ∧ w = encFp12 a then some (fp12CyclotomicSquare w) else none

theorem squares_checkedSquare : Squares checkedSquare := by
  intro a ha
  rw [checkedSquare, if_pos ⟨a, ha, rfl⟩]
  exact squares_fp12CyclotomicSquare a ha

/-- In the cyclotomic subgroup the compressed formula is the square; and the final
exponentiation of an element other than `0` squares with it in the subgroup only. -/
theorem fp12CyclotomicSquare_eq_square :
    (∀ a, Cyclotomic a →
      fp12CyclotomicSquare (encFp12 a) = fp12Square (encFp12 a) ∧
      fp12Square (encFp12 a) = fp12Mul (encFp12 a) (encFp12 a) ∧
      ∀ n : Word, Yields (fun fuel => nSquare fuel (encFp12 a) n)
        (encFp12 (a ^ 2 ^ n.toNat))) ∧
    ∀ f, f ≠ 0 → ∃ w,
      Yields (fun fuel => finalExponentiation fuel (encFp12 f)) w ∧
      Yields (fun fuel => finalExponentiationWith checkedSquare fuel (encFp12 f)) w := by
  constructor
  · intro a ha
    refine ⟨?_, ?_, fun n => ?_⟩
    · rw [fp12CyclotomicSquare_of_equations ha.squareEquations, fp12Square_enc]
    · rw [fp12Square_enc, fp12Mul_enc]
    · have hpow := nSquareWith_yields squares_fp12CyclotomicSquare ha 1 n
      rwa [pow_one, one_mul] at hpow
  · intro f hf
    exact ⟨_, finalExponentiationWith_yields squares_fp12CyclotomicSquare hf,
      finalExponentiationWith_yields squares_checkedSquare hf⟩

theorem fp12CyclotomicSquare_eq_square_easy :
    fp12CyclotomicSquare (encFp12 (easyPart ⟨1, 1⟩)) = fp12Square (encFp12 (easyPart ⟨1, 1⟩)) ∧
      (∃ w, Yields (fun fuel => nSquare fuel (encFp12 (easyPart ⟨1, 1⟩)) 3) w ∧
        w = encFp12 (easyPart ⟨1, 1⟩ ^ 2 ^ 3)) ∧
      ∃ w, Yields (fun fuel => finalExponentiation fuel (encFp12 ⟨1, 1⟩)) w ∧
        Yields (fun fuel => finalExponentiationWith checkedSquare fuel (encFp12 ⟨1, 1⟩)) w := by
  have hone : (⟨1, 1⟩ : Fp12) ≠ 0 := by decide
  obtain ⟨hsquare, -, hpow⟩ := fp12CyclotomicSquare_eq_square.1 _ (cyclotomic_easyPart hone)
  exact ⟨hsquare, ⟨_, hpow 3, rfl⟩, fp12CyclotomicSquare_eq_square.2 _ hone⟩

end EraPrecompiles.Pairing
