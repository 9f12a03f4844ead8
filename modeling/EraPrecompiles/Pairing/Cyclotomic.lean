import EraPrecompiles.Pairing.Frobenius

/-!
# The cyclotomic subgroup

The elements with `a ^ (p^4 - p^2 + 1) = 1`, that is `a ^ p^4 * a = a ^ p^2`.  In
coordinates this is a quadratic equation for each power of `w`, because the powers to
`p^2` and `p^4` multiply the coordinates by sixth roots of unity
(`Cyclotomic.coordinates`).  With these six equations the compressed formula of
`fp12CyclotomicSquare` is the square.

The functions that call `fp12CyclotomicSquare` take it as an argument `square`, so that one
can say on which values it is called.
-/

namespace EraPrecompiles.Pairing

open Bn254

/-! ## The program -/

def fp12CyclotomicSquare (a : Words12) : Words12 :=
  let ((a00, a01, a02), (a10, a11, a12)) := a
  let t0 := fp2Mul a11 a11
  let t1 := fp2Mul a00 a00
  let t2 := fp2Add a11 a00
  let t2 := fp2Mul t2 t2
  let t2 := fp2Sub t2 t0
  let t2 := fp2Sub t2 t1
  let t3 := fp2Mul a02 a02
  let t4 := fp2Mul a10 a10
  let t5 := fp2Add a02 a10
  let t5 := fp2Mul t5 t5
  let t5 := fp2Sub t5 t3
  let t5 := fp2Sub t5 t4
  let t6 := fp2Mul a12 a12
  let t7 := fp2Mul a01 a01
  let t8 := fp2Add a12 a01
  let t8 := fp2Mul t8 t8
  let t8 := fp2Sub t8 t6
  let t8 := fp2Sub t8 t7
  let t8 := mulByXi t8
  let t0 := mulByXi t0
  let t0 := fp2Add t0 t1
  let t3 := mulByXi t3
  let t3 := fp2Add t3 t4
  let t6 := mulByXi t6
  let t6 := fp2Add t6 t7
  let c00 := fp2Sub t0 a00
  let c00 := fp2Add c00 c00
  let c00 := fp2Add c00 t0
  let c01 := fp2Sub t3 a01
  let c01 := fp2Add c01 c01
  let c01 := fp2Add c01 t3
  let c02 := fp2Sub t6 a02
  let c02 := fp2Add c02 c02
  let c02 := fp2Add c02 t6
  let c10 := fp2Add t8 a10
  let c10 := fp2Add c10 c10
  let c10 := fp2Add c10 t8
  let c11 := fp2Add t2 a11
  let c11 := fp2Add c11 c11
  let c11 := fp2Add c11 t2
  let c12 := fp2Add t5 a12
  let c12 := fp2Add c12 c12
  let c12 := fp2Add c12 t5
  ((c00, c01, c02), (c10, c11, c12))

/-- `nSquare`, with the square of the cyclotomic subgroup as an argument. -/
def nSquareWith (square : Words12 → Option Words12) (fuel : ℕ) (a : Words12) (n : Word) :
    Option Words12 :=
  iterate
    (fun (s : Words12 × Word) =>
      let (c, i) := s
      if lt i n ≠ 0 then do
        let c ← square c
        some (.next (c, add i 1))
      else
        some (.done c))
    fuel (a, 0)

def nSquare (fuel : ℕ) (a : Words12) (n : Word) : Option Words12 :=
  nSquareWith (fun w => some (fp12CyclotomicSquare w)) fuel a n

/-- `fp12Expt`, with the square of the cyclotomic subgroup as an argument. -/
def fp12ExptWith (square : Words12 → Option Words12) (fuel : ℕ) (a : Words12) :
    Option Words12 := do
  let t0 ← square a
  let t2 ← square t0
  let c ← square t2
  let t4 ← square c
  let t6 := fp12Mul a t4
  let t4 := fp12Mul t6 t0
  let t8 := fp12Mul a t4
  let t10 := fp12Mul c t6
  let t12 ← square t6
  let t8 := fp12Mul t8 t4
  let t4 := fp12Mul t8 t0
  let t12 ← nSquareWith square fuel t12 6
  let t2 := fp12Mul t12 t2
  let t2 := fp12Mul t2 t10
  let t2 ← nSquareWith square fuel t2 7
  let t10 := fp12Mul t2 t10
  let t10 ← nSquareWith square fuel t10 8
  let t10 := fp12Mul t10 t4
  let t0 := fp12Mul t10 t0
  let t0 ← nSquareWith square fuel t0 6
  let t6 := fp12Mul t0 t6
  let t6 ← nSquareWith square fuel t6 8
  let t6 := fp12Mul t6 t4
  let t6 ← nSquareWith square fuel t6 6
  let t6 := fp12Mul t6 t4
  let t6 ← nSquareWith square fuel t6 10
  let t8 := fp12Mul t6 t8
  let t8 ← nSquareWith square fuel t8 6
  let t4 := fp12Mul t4 t8
  return fp12Mul t4 c

def fp12Expt (fuel : ℕ) (a : Words12) : Option Words12 :=
  fp12ExptWith (fun w => some (fp12CyclotomicSquare w)) fuel a

/-! ## The equations of the subgroup -/

section Equations

variable {g : Fp2} (hg : g ^ 2 = g - 1) (a : Fp12)

include hg

/-- The coordinates of `1`, `w`, ..., `w ^ 5` times the powers of a sixth root of unity. -/
theorem weighted_root :
    weighted g a =
      ⟨⟨a.re.c0, a.re.c1 * (g - 1), a.re.c2 * -g⟩,
        ⟨a.im.c0 * g, a.im.c1 * -1, a.im.c2 * (1 - g)⟩⟩ := by
  have h₃ : g ^ 3 = -1 := by linear_combination (g + 1) * hg
  have h₄ : g ^ 4 = -g := by linear_combination g * h₃
  have h₅ : g ^ 5 = 1 - g := by linear_combination g * h₄ - hg
  rw [weighted, hg, h₃, h₄, h₅]

theorem weighted_root_sq :
    weighted (g * g) a =
      ⟨⟨a.re.c0, a.re.c1 * -g, a.re.c2 * (g - 1)⟩,
        ⟨a.im.c0 * (g - 1), a.im.c1, a.im.c2 * -g⟩⟩ := by
  rw [← weighted_weighted, weighted_root hg, weighted_root hg]
  have h₁ : g * g = g - 1 := by linear_combination hg
  have h₂ : (g - 1) * (g - 1) = -g := by linear_combination hg
  have h₃ : (1 - g) * (1 - g) = -g := by linear_combination hg
  simp only [mul_assoc, h₁, h₂, h₃, neg_mul_neg, mul_one]

end Equations

/-- The equations for the coordinates of `1`, `w`, ..., `w ^ 5`. -/
structure SquareEquations (a : Fp12) : Prop where
  eq0 : a.re.c0 ^ 2 + xi * a.im.c1 ^ 2 - xi * (a.im.c0 * a.im.c2 + a.re.c1 * a.re.c2) =
    a.re.c0
  eq1 : a.re.c0 * a.im.c0 + xi * (a.im.c1 * a.re.c2) - 2 * (xi * (a.re.c1 * a.im.c2)) =
    a.im.c0
  eq2 : a.im.c0 ^ 2 + xi * a.re.c2 ^ 2 - a.re.c0 * a.re.c1 - xi * (a.im.c1 * a.im.c2) =
    a.re.c1
  eq3 : a.im.c0 * a.re.c1 + xi * (a.re.c2 * a.im.c2) - 2 * (a.re.c0 * a.im.c1) = a.im.c1
  eq4 : a.re.c1 ^ 2 + xi * a.im.c2 ^ 2 - a.re.c0 * a.re.c2 - a.im.c0 * a.im.c1 = a.re.c2
  eq5 : a.re.c0 * a.im.c2 + a.re.c1 * a.im.c1 - 2 * (a.im.c0 * a.re.c2) = a.im.c2

/-- The equations follow from one equation between the element and its weighted copies. -/
theorem squareEquations_of_weighted {g : Fp2} (hg : g ^ 2 = g - 1) {a : Fp12}
    (h : weighted (g * g) a * a = weighted g a) : SquareEquations a := by
  have hg0 : g ≠ 0 := by
    rintro rfl
    have h01 : (0 : Fp2) = -1 := by linear_combination hg
    exact one_ne_zero (neg_eq_zero.mp h01.symm)
  have hg1 : g - 1 ≠ 0 := by
    rw [← hg]
    exact pow_ne_zero 2 hg0
  rw [weighted_root_sq hg, weighted_root hg] at h
  have h₀ := congrArg (fun z : Fp12 => z.re.c0) h
  have h₁ := congrArg (fun z : Fp12 => z.im.c0) h
  have h₂ := congrArg (fun z : Fp12 => z.re.c1) h
  have h₃ := congrArg (fun z : Fp12 => z.im.c1) h
  have h₄ := congrArg (fun z : Fp12 => z.re.c2) h
  have h₅ := congrArg (fun z : Fp12 => z.im.c2) h
  simp only [QuadraticAlgebra.re_mul, QuadraticAlgebra.im_mul, CubicAlgebra.c0_add,
    CubicAlgebra.c1_add, CubicAlgebra.c2_add, CubicAlgebra.c0_mul, CubicAlgebra.c1_mul,
    CubicAlgebra.c2_mul, CubicAlgebra.c0_gen, CubicAlgebra.c1_gen, CubicAlgebra.c2_gen,
    CubicAlgebra.c0_zero, CubicAlgebra.c1_zero,
    CubicAlgebra.c2_zero] at h₀ h₁ h₂ h₃ h₄ h₅
  refine ⟨?_, ?_, ?_, ?_, ?_, ?_⟩
  · linear_combination h₀
  · refine mul_left_cancel₀ hg0 ?_
    linear_combination h₁
  · refine mul_left_cancel₀ hg1 ?_
    linear_combination h₂
  · linear_combination -h₃
  · refine mul_left_cancel₀ hg0 ?_
    linear_combination -h₄
  · refine mul_left_cancel₀ hg1 ?_
    linear_combination -h₅

/-- The order condition of the cyclotomic subgroup. -/
def Cyclotomic (a : Fp12) : Prop :=
  a ^ (p ^ 4 - p ^ 2 + 1) = 1

namespace Cyclotomic

theorem pow_four_mul {a : Fp12} (h : Cyclotomic a) : a ^ p ^ 4 * a = a ^ p ^ 2 := by
  have hle : p ^ 2 ≤ p ^ 4 := Nat.pow_le_pow_right (by decide) (by norm_num)
  have hexp : p ^ 4 - p ^ 2 + 1 + p ^ 2 = p ^ 4 + 1 := by omega
  rw [← pow_succ, ← hexp, pow_add, h, one_mul]

theorem pow {a : Fp12} (h : Cyclotomic a) (n : ℕ) : Cyclotomic (a ^ n) := by
  rw [Cyclotomic, pow_right_comm, h, one_pow]

theorem squareEquations {a : Fp12} (h : Cyclotomic a) : SquareEquations a := by
  have hpow := h.pow_four_mul
  rw [fp12_pow_p_four, fp12_pow_p_sq] at hpow
  exact squareEquations_of_weighted gamma2_sq hpow

end Cyclotomic

/-- The power of the easy part of the final exponentiation. -/
def easyPart (f : Fp12) : Fp12 :=
  f ^ ((p ^ 6 - 1) * (p ^ 2 + 1))

theorem cyclotomic_easyPart {f : Fp12} (hf : f ≠ 0) : Cyclotomic (easyPart f) := by
  have hexp : (p ^ 6 - 1) * (p ^ 2 + 1) * (p ^ 4 - p ^ 2 + 1) = p ^ 12 - 1 := by
    decide
  rw [Cyclotomic, easyPart, ← pow_mul, hexp]
  exact fp12_pow_card_sub_one hf

/-- The compressed formula is the square where the equations hold. -/
theorem fp12CyclotomicSquare_of_equations {a : Fp12} (h : SquareEquations a) :
    fp12CyclotomicSquare (encFp12 a) = encFp12 (a * a) := by
  obtain ⟨h₀, h₁, h₂, h₃, h₄, h₅⟩ := h
  simp only [fp12CyclotomicSquare, encFp12, encFp6, fp2Mul_enc, fp2Add_enc, fp2Sub_enc,
    mulByXi_enc]
  refine Prod.ext (encFp6_congr ?_ ?_ ?_) (encFp6_congr ?_ ?_ ?_)
  all_goals simp only [QuadraticAlgebra.re_mul, QuadraticAlgebra.im_mul, CubicAlgebra.c0_add,
    CubicAlgebra.c1_add, CubicAlgebra.c2_add, CubicAlgebra.c0_mul, CubicAlgebra.c1_mul,
    CubicAlgebra.c2_mul, CubicAlgebra.c0_gen, CubicAlgebra.c1_gen, CubicAlgebra.c2_gen,
    CubicAlgebra.c0_zero, CubicAlgebra.c1_zero, CubicAlgebra.c2_zero]
  · linear_combination 2 * h₀
  · linear_combination 2 * h₂
  · linear_combination 2 * h₄
  · linear_combination -2 * h₁
  · linear_combination -2 * h₃
  · linear_combination -2 * h₅

/-- A function that squares the elements of the cyclotomic subgroup. -/
def Squares (square : Words12 → Option Words12) : Prop :=
  ∀ a, Cyclotomic a → square (encFp12 a) = some (encFp12 (a * a))

theorem squares_fp12CyclotomicSquare : Squares fun w => some (fp12CyclotomicSquare w) :=
  fun _ h => congrArg some (fp12CyclotomicSquare_of_equations h.squareEquations)

/-! ## Powers -/

section Powers

variable {square : Words12 → Option Words12} (hs : Squares square) {a : Fp12}
  (ha : Cyclotomic a)

include hs ha

theorem square_pow (m : ℕ) : square (encFp12 (a ^ m)) = some (encFp12 (a ^ (2 * m))) := by
  rw [hs _ (ha.pow m), ← pow_add, two_mul]

/-- `n` squares in a row. -/
theorem nSquareWith_yields (m : ℕ) (n : Word) :
    Yields (fun fuel => nSquareWith square fuel (encFp12 (a ^ m)) n)
      (encFp12 (a ^ (m * 2 ^ n.toNat))) := by
  obtain ⟨c, hrun, rfl⟩ := count_within
    (fun _ (s : Words12 × Word) =>
      if lt s.2 n ≠ 0 then
        square s.1 >>= fun c => some (Flow.next (c, add s.2 1))
      else
        some (.done s.1))
    (fun k s => s.2.toNat = k ∧ s.1 = encFp12 (a ^ (m * 2 ^ k)))
    (fun c => c = encFp12 (a ^ (m * 2 ^ n.toNat)))
    n.toNat (n.toNat + 1) (Nat.lt_succ_self _)
    (by
      rintro k ⟨c, i⟩ hk ⟨hi, hc⟩
      dsimp only at hi hc ⊢
      subst hc
      have hn := word_lt n
      have htest : lt i n ≠ 0 := by
        rw [lt_ne_zero]
        omega
      have hnext : (add i 1).toNat = k + 1 := by
        rw [toNat_add_one (by omega), hi]
      refine ⟨(encFp12 (a ^ (m * 2 ^ (k + 1))), add i 1), Within.of_eq fun _ => ?_, hnext, rfl⟩
      have hexp : 2 * (m * 2 ^ k) = m * 2 ^ (k + 1) := by ring
      rw [if_pos htest, square_pow hs ha, hexp]
      rfl)
    (by
      rintro ⟨c, i⟩ ⟨hi, hc⟩
      dsimp only at hi hc ⊢
      have htest : ¬lt i n ≠ 0 := by
        rw [lt_ne_zero]
        omega
      exact ⟨c, Within.of_eq fun _ => if_neg htest, hc⟩)
    (encFp12 (a ^ m), 0) ⟨rfl, by rw [pow_zero, mul_one]⟩
  exact hrun.yields

omit hs ha in
theorem fp12Mul_pow (m n : ℕ) :
    fp12Mul (encFp12 (a ^ m)) (encFp12 (a ^ n)) = encFp12 (a ^ (m + n)) := by
  rw [fp12Mul_enc, pow_add]

/-- The addition chain, exponent by exponent. -/
theorem fp12ExptWith_yields :
    Yields (fun fuel => fp12ExptWith square fuel (encFp12 a))
      (encFp12 (a ^ 4965661367192848881)) := by
  have hn := nSquareWith_yields hs ha
  have h6 : (6 : Word).toNat = 6 := rfl
  have h7 : (7 : Word).toNat = 7 := rfl
  have h8 : (8 : Word).toNat = 8 := rfl
  have h10 : (10 : Word).toNat = 10 := rfl
  suffices h : Yields (fun fuel => fp12ExptWith square fuel (encFp12 (a ^ 1)))
      (encFp12 (a ^ 4965661367192848881)) by
    simpa only [pow_one] using h
  simp only [fp12ExptWith, square_pow hs ha, Option.bind_eq_bind, Option.bind_some, fp12Mul_pow,
    Nat.reduceMul, Nat.reduceAdd]
  refine (hn 34 6).bind ?_
  simp only [h6, fp12Mul_pow, Nat.reducePow, Nat.reduceMul, Nat.reduceAdd]
  refine (hn 2205 7).bind ?_
  simp only [h7, fp12Mul_pow, Nat.reducePow, Nat.reduceMul, Nat.reduceAdd]
  refine (hn 282265 8).bind ?_
  simp only [h8, fp12Mul_pow, Nat.reducePow, Nat.reduceMul, Nat.reduceAdd]
  refine (hn 72259883 6).bind ?_
  simp only [h6, fp12Mul_pow, Nat.reducePow, Nat.reduceMul, Nat.reduceAdd]
  refine (hn 4624632529 8).bind ?_
  simp only [h8, fp12Mul_pow, Nat.reducePow, Nat.reduceMul, Nat.reduceAdd]
  refine (hn 1183905927465 6).bind ?_
  simp only [h6, fp12Mul_pow, Nat.reducePow, Nat.reduceMul, Nat.reduceAdd]
  refine (hn 75769979357801 10).bind ?_
  simp only [h10, fp12Mul_pow, Nat.reducePow, Nat.reduceMul, Nat.reduceAdd]
  refine (hn 77588458862388263 6).bind ?_
  simp only [h6, fp12Mul_pow, Nat.reducePow, Nat.reduceMul, Nat.reduceAdd]
  exact Yields.const _

end Powers

/-- The addition chain is the power to the parameter of the curve. -/
theorem fp12Expt_eq_pow {a : Fp12} (ha : Cyclotomic a) :
    Yields (fun fuel => fp12Expt fuel (encFp12 a)) (encFp12 (a ^ 4965661367192848881)) :=
  fp12ExptWith_yields squares_fp12CyclotomicSquare ha

theorem fp12Expt_eq_pow_easy :
    Yields (fun fuel => fp12Expt fuel (encFp12 (easyPart ⟨1, 1⟩)))
      (encFp12 (easyPart ⟨1, 1⟩ ^ 4965661367192848881)) :=
  fp12Expt_eq_pow (cyclotomic_easyPart (by decide))

end EraPrecompiles.Pairing
