import EraPrecompiles.Bn254.Tower

/-!
# Arithmetic in the tower

The functions of the pairing precompile on elements of `Fp2`, `Fp6` and `Fp12`.  An element
of `Fp6` is handled as three pairs of words and an element of `Fp12` as two such triples,
the Montgomery forms of the coordinates.  Each function is followed, in the second part, by
what it does to these encodings.
-/

namespace EraPrecompiles.Pairing

open Bn254

/-- The words of an element of `Fp6`. -/
abbrev Words6 : Type := (Word × Word) × (Word × Word) × (Word × Word)

/-- The words of an element of `Fp12`. -/
abbrev Words12 : Type := Words6 × Words6

/-! ## The program -/

def fp2ScalarMul (a : Word × Word) (scalar : Word) : Word × Word :=
  (montgomeryMul a.1 scalar, montgomeryMul a.2 scalar)

def fp2Neg (a : Word × Word) : Word × Word :=
  fp2Sub (0, 0) a

def mulByXi (a : Word × Word) : Word × Word :=
  let (t0, t1) := fp2ScalarMul a (intoMontgomeryForm 8)
  (montgomerySub (montgomeryAdd t0 a.1) a.2, montgomeryAdd (montgomeryAdd t1 a.1) a.2)

def fp2Conjugate (a : Word × Word) : Word × Word :=
  (a.1, montgomerySub 0 a.2)

def FP6_ZERO : Words6 :=
  ((0, 0), (0, 0), (0, 0))

def fp6Add (a b : Words6) : Words6 :=
  (fp2Add a.1 b.1, fp2Add a.2.1 b.2.1, fp2Add a.2.2 b.2.2)

def fp6Sub (a b : Words6) : Words6 :=
  (fp2Sub a.1 b.1, fp2Sub a.2.1 b.2.1, fp2Sub a.2.2 b.2.2)

def mulByGamma (a : Words6) : Words6 :=
  let (a0, a1, a2) := a
  (mulByXi a2, a0, a1)

def fp6Mul (a b : Words6) : Words6 :=
  let (a0, a1, a2) := a
  let (b0, b1, b2) := b
  let t0 := fp2Mul a0 b0
  let t1 := fp2Mul a1 b1
  let t2 := fp2Mul a2 b2
  let tmp0 := fp2Add a1 a2
  let tmp2 := fp2Add b1 b2
  let tmp4 := fp2Mul tmp0 tmp2
  let tmp6 := fp2Sub tmp4 t1
  let tmp8 := fp2Sub tmp6 t2
  let tmp10 := mulByXi tmp8
  let c0 := fp2Add tmp10 t0
  let tmp0 := fp2Add a0 a1
  let tmp2 := fp2Add b0 b1
  let tmp4 := fp2Mul tmp0 tmp2
  let tmp6 := fp2Sub tmp4 t0
  let tmp8 := fp2Sub tmp6 t1
  let tmp10 := mulByXi t2
  let c1 := fp2Add tmp8 tmp10
  let tmp0 := fp2Add a0 a2
  let tmp2 := fp2Add b0 b2
  let tmp4 := fp2Mul tmp0 tmp2
  let tmp6 := fp2Sub tmp4 t0
  let tmp8 := fp2Sub tmp6 t2
  let c2 := fp2Add tmp8 t1
  (c0, c1, c2)

def fp6Neg (a : Words6) : Words6 :=
  (fp2Neg a.1, fp2Neg a.2.1, fp2Neg a.2.2)

def fp6Square (a : Words6) : Words6 :=
  let (a0, a1, a2) := a
  let tmp0 := fp2Mul a0 a1
  let tmp0 := fp2Add tmp0 tmp0
  let tmp2 := fp2Mul a2 a2
  let tmp4 := mulByXi tmp2
  let c1 := fp2Add tmp4 tmp0
  let c2 := fp2Sub tmp0 tmp2
  let tmp6 := fp2Mul a0 a0
  let tmp8 := fp2Sub a0 a1
  let tmp0 := fp2Add tmp8 a2
  let tmp10 := fp2Mul a1 a2
  let tmp2 := fp2Add tmp10 tmp10
  let tmp0 := fp2Mul tmp0 tmp0
  let tmp12 := mulByXi tmp2
  let c0 := fp2Add tmp12 tmp6
  let tmp14 := fp2Add c2 tmp0
  let tmp14 := fp2Add tmp14 tmp2
  let c2 := fp2Sub tmp14 tmp6
  (c0, c1, c2)

def fp6Inv (fuel : ℕ) (a : Words6) : Option Words6 := do
  let (a0, a1, a2) := a
  let t0 := fp2Mul a0 a0
  let t1 := fp2Mul a1 a1
  let t2 := fp2Mul a2 a2
  let t3 := fp2Mul a0 a1
  let t4 := fp2Mul a0 a2
  let t5 := fp2Mul a2 a1
  let t5Xi := mulByXi t5
  let c0 := fp2Sub t0 t5Xi
  let t2Xi := mulByXi t2
  let c1 := fp2Sub t2Xi t3
  let c2 := fp2Sub t1 t4
  let t6 := fp2Mul a0 c0
  let a2Xi := mulByXi a2
  let a2XiC1 := fp2Mul a2Xi c1
  let t6 := fp2Add t6 a2XiC1
  let a1Xi := mulByXi a1
  let a1XiC2 := fp2Mul a1Xi c2
  let t6 := fp2Add t6 a1XiC2
  let t6 ← fp2Inv fuel t6
  return (fp2Mul c0 t6, fp2Mul c1 t6, fp2Mul c2 t6)

def fp12Add (a b : Words12) : Words12 :=
  (fp6Add a.1 b.1, fp6Add a.2 b.2)

def fp12Mul (a b : Words12) : Words12 :=
  let (a0, a1) := a
  let (b0, b1) := b
  let t0 := fp6Mul a0 b0
  let t1 := fp6Mul a1 b1
  let t2 := mulByGamma t1
  let c0 := fp6Add t0 t2
  let t3 := fp6Add a0 a1
  let t4 := fp6Add b0 b1
  let c1 := fp6Mul t3 t4
  let c1 := fp6Sub c1 t0
  let c1 := fp6Sub c1 t1
  (c0, c1)

def fp12Square (a : Words12) : Words12 :=
  let (a0, a1) := a
  let t1 := fp6Sub a0 a1
  let t2 := mulByGamma a1
  let t3 := fp6Sub a0 t2
  let t4 := fp6Mul a0 a1
  let t5 := fp6Mul t1 t3
  let t6 := fp6Add t4 t5
  let c1 := fp6Add t4 t4
  let t7 := mulByGamma t4
  let c0 := fp6Add t6 t7
  (c0, c1)

def fp12Inv (fuel : ℕ) (a : Words12) : Option Words12 := do
  let (a0, a1) := a
  let t0 := fp6Square a0
  let t1 := fp6Square a1
  let t2 := mulByGamma t1
  let t0 := fp6Sub t0 t2
  let t1 ← fp6Inv fuel t0
  let c0 := fp6Mul a0 t1
  let z := FP6_ZERO
  let c1 := fp6Mul a1 t1
  let c1 := fp6Sub z c1
  return (c0, c1)

def fp12Conjugate (a : Words12) : Words12 :=
  (a.1, fp6Neg a.2)

/-! ## The operations on Montgomery forms -/

def encFp6 (x : Fp6) : Words6 :=
  (encFp2 x.c0, encFp2 x.c1, encFp2 x.c2)

def encFp12 (z : Fp12) : Words12 :=
  (encFp6 z.re, encFp6 z.im)

theorem encFp6_injective : Function.Injective encFp6 := by
  intro x y h
  have h₀ : encFp2 x.c0 = encFp2 y.c0 := congrArg Prod.fst h
  have h₁ : encFp2 x.c1 = encFp2 y.c1 := congrArg (fun t => t.2.1) h
  have h₂ : encFp2 x.c2 = encFp2 y.c2 := congrArg (fun t => t.2.2) h
  exact CubicAlgebra.ext (encFp2_injective h₀) (encFp2_injective h₁) (encFp2_injective h₂)

theorem encFp12_injective : Function.Injective encFp12 := by
  intro x y h
  exact QuadraticAlgebra.ext (encFp6_injective (congrArg Prod.fst h))
    (encFp6_injective (congrArg Prod.snd h))

@[simp] theorem encFp12_inj {x y : Fp12} : encFp12 x = encFp12 y ↔ x = y :=
  encFp12_injective.eq_iff

/-- The pairs of words below `p`. -/
def Reduced2 (a : Word × Word) : Prop :=
  a.1.toNat < p ∧ a.2.toNat < p

def Reduced6 (a : Words6) : Prop :=
  Reduced2 a.1 ∧ Reduced2 a.2.1 ∧ Reduced2 a.2.2

def Reduced12 (a : Words12) : Prop :=
  Reduced6 a.1 ∧ Reduced6 a.2

theorem exists_encFp2 {a : Word × Word} (ha : Reduced2 a) : ∃ x, a = encFp2 x := by
  obtain ⟨x₀, h₀⟩ := exists_enc ha.1
  obtain ⟨x₁, h₁⟩ := exists_enc ha.2
  exact ⟨⟨x₀, x₁⟩, Prod.ext h₀ h₁⟩

theorem exists_encFp6 {a : Words6} (ha : Reduced6 a) : ∃ x, a = encFp6 x := by
  obtain ⟨x₀, h₀⟩ := exists_encFp2 ha.1
  obtain ⟨x₁, h₁⟩ := exists_encFp2 ha.2.1
  obtain ⟨x₂, h₂⟩ := exists_encFp2 ha.2.2
  exact ⟨⟨x₀, x₁, x₂⟩, Prod.ext h₀ (Prod.ext h₁ h₂)⟩

/-- The words below `p` are the encodings of the elements of `Fp12`. -/
theorem exists_encFp12 {a : Words12} (ha : Reduced12 a) : ∃ z, a = encFp12 z := by
  obtain ⟨x, hx⟩ := exists_encFp6 ha.1
  obtain ⟨y, hy⟩ := exists_encFp6 ha.2
  exact ⟨⟨x, y⟩, Prod.ext hx hy⟩

@[simp] theorem fp2ScalarMul_enc (x : Fp2) (s : Fp) :
    fp2ScalarMul (encFp2 x) (enc s) = encFp2 (x * QuadraticAlgebra.C s) := by
  simp only [fp2ScalarMul, encFp2, montgomeryMul_enc, QuadraticAlgebra.re_mul,
    QuadraticAlgebra.im_mul, QuadraticAlgebra.re_C, QuadraticAlgebra.im_C, mul_zero, add_zero,
    zero_add]

@[simp] theorem fp2Neg_enc (x : Fp2) : fp2Neg (encFp2 x) = encFp2 (-x) := by
  rw [fp2Neg, ← encFp2_zero, fp2Sub_enc, zero_sub]

@[simp] theorem mulByXi_enc (x : Fp2) : mulByXi (encFp2 x) = encFp2 (xi * x) := by
  have h8 : intoMontgomeryForm 8 = enc (8 : Fp) := by
    rw [intoMontgomeryForm_eq]
    rfl
  have hre : x.re * 8 + x.re - x.im = (xi * x).re := by
    rw [QuadraticAlgebra.re_mul, xi]
    ring
  have him : x.im * 8 + x.re + x.im = (xi * x).im := by
    rw [QuadraticAlgebra.im_mul, xi]
    ring
  simp only [mulByXi, h8, fp2ScalarMul, encFp2, montgomeryMul_enc, montgomeryAdd_enc,
    montgomerySub_enc, hre, him]

@[simp] theorem fp2Conjugate_enc (x : Fp2) : fp2Conjugate (encFp2 x) = encFp2 (star x) := by
  have h0 : (0 : Word) = enc (0 : Fp) := enc_zero.symm
  have hre : (star x).re = x.re := by simp
  have him : (star x).im = 0 - x.im := by simp
  simp only [fp2Conjugate, encFp2, h0, montgomerySub_enc, hre, him]

@[simp] theorem fp6Add_enc (x y : Fp6) : fp6Add (encFp6 x) (encFp6 y) = encFp6 (x + y) := by
  simp only [fp6Add, encFp6, fp2Add_enc, CubicAlgebra.c0_add, CubicAlgebra.c1_add,
    CubicAlgebra.c2_add]

@[simp] theorem fp6Sub_enc (x y : Fp6) : fp6Sub (encFp6 x) (encFp6 y) = encFp6 (x - y) := by
  simp only [fp6Sub, encFp6, fp2Sub_enc, CubicAlgebra.c0_sub, CubicAlgebra.c1_sub,
    CubicAlgebra.c2_sub]

@[simp] theorem fp6Neg_enc (x : Fp6) : fp6Neg (encFp6 x) = encFp6 (-x) := by
  simp only [fp6Neg, encFp6, fp2Neg_enc, CubicAlgebra.c0_neg, CubicAlgebra.c1_neg,
    CubicAlgebra.c2_neg]

/-- An encoding with equal coordinates. -/
theorem encFp6_congr {x : Fp6} {c0 c1 c2 : Fp2} (h₀ : c0 = x.c0) (h₁ : c1 = x.c1)
    (h₂ : c2 = x.c2) : (encFp2 c0, encFp2 c1, encFp2 c2) = encFp6 x := by
  rw [h₀, h₁, h₂, encFp6]

@[simp] theorem mulByGamma_enc (x : Fp6) :
    mulByGamma (encFp6 x) = encFp6 (CubicAlgebra.gen * x) := by
  simp only [mulByGamma, encFp6, mulByXi_enc]
  refine encFp6_congr ?_ ?_ ?_
  · simp
  · simp
  · simp

@[simp] theorem fp6Mul_enc (x y : Fp6) : fp6Mul (encFp6 x) (encFp6 y) = encFp6 (x * y) := by
  simp only [fp6Mul, encFp6, fp2Mul_enc, fp2Add_enc, fp2Sub_enc, mulByXi_enc]
  refine encFp6_congr ?_ ?_ ?_
  · rw [CubicAlgebra.c0_mul]
    ring
  · rw [CubicAlgebra.c1_mul]
    ring
  · rw [CubicAlgebra.c2_mul]
    ring

@[simp] theorem fp6Square_enc (x : Fp6) : fp6Square (encFp6 x) = encFp6 (x * x) := by
  simp only [fp6Square, encFp6, fp2Mul_enc, fp2Add_enc, fp2Sub_enc, mulByXi_enc]
  refine encFp6_congr ?_ ?_ ?_
  · rw [CubicAlgebra.c0_mul]
    ring
  · rw [CubicAlgebra.c1_mul]
    ring
  · rw [CubicAlgebra.c2_mul]
    ring

theorem fp6Inv_yields {x : Fp6} (hx : x ≠ 0) :
    Yields (fun fuel => fp6Inv fuel (encFp6 x)) (encFp6 x⁻¹) := by
  have hnorm : x.c0 * (x.c0 * x.c0 - xi * (x.c2 * x.c1)) +
      xi * x.c2 * (xi * (x.c2 * x.c2) - x.c0 * x.c1) +
      xi * x.c1 * (x.c1 * x.c1 - x.c0 * x.c2) = CubicAlgebra.norm x := by
    rw [CubicAlgebra.norm]
    ring
  simp only [fp6Inv, encFp6, fp2Mul_enc, fp2Add_enc, fp2Sub_enc, mulByXi_enc, hnorm]
  refine (fp2Inv_yields (CubicAlgebra.norm_ne_zero hx)).bind ?_
  simp only [fp2Mul_enc]
  refine Yields.of_eq fun _ => congrArg some (Prod.ext ?_ (Prod.ext ?_ ?_))
  · rw [CubicAlgebra.inv_def, CubicAlgebra.adj]
    exact congrArg encFp2 (by ring)
  · rw [CubicAlgebra.inv_def, CubicAlgebra.adj]
    exact congrArg encFp2 (by ring)
  · rw [CubicAlgebra.inv_def, CubicAlgebra.adj]
    exact congrArg encFp2 (by ring)

/-- An encoding with equal coordinates. -/
theorem encFp12_congr {z : Fp12} {c0 c1 : Fp6} (h₀ : c0 = z.re) (h₁ : c1 = z.im) :
    (encFp6 c0, encFp6 c1) = encFp12 z := by
  rw [h₀, h₁, encFp12]

@[simp] theorem fp12Add_enc (x y : Fp12) :
    fp12Add (encFp12 x) (encFp12 y) = encFp12 (x + y) := by
  simp only [fp12Add, encFp12, fp6Add_enc, QuadraticAlgebra.re_add, QuadraticAlgebra.im_add]

@[simp] theorem fp12Mul_enc (x y : Fp12) :
    fp12Mul (encFp12 x) (encFp12 y) = encFp12 (x * y) := by
  simp only [fp12Mul, encFp12, fp6Mul_enc, fp6Add_enc, fp6Sub_enc, mulByGamma_enc]
  refine encFp12_congr ?_ ?_
  · rw [QuadraticAlgebra.re_mul]
    ring
  · rw [QuadraticAlgebra.im_mul]
    ring

@[simp] theorem fp12Square_enc (x : Fp12) : fp12Square (encFp12 x) = encFp12 (x * x) := by
  simp only [fp12Square, encFp12, fp6Mul_enc, fp6Add_enc, fp6Sub_enc, mulByGamma_enc]
  refine encFp12_congr ?_ ?_
  · rw [QuadraticAlgebra.re_mul]
    ring
  · rw [QuadraticAlgebra.im_mul]
    ring

@[simp] theorem fp12Conjugate_enc (x : Fp12) :
    fp12Conjugate (encFp12 x) = encFp12 (star x) := by
  simp only [fp12Conjugate, encFp12, fp6Neg_enc]
  refine encFp12_congr ?_ ?_
  · simp
  · simp

theorem fp12Inv_yields {x : Fp12} (hx : x ≠ 0) :
    Yields (fun fuel => fp12Inv fuel (encFp12 x)) (encFp12 x⁻¹) := by
  have hzero : FP6_ZERO = encFp6 0 := by
    rw [encFp6, CubicAlgebra.c0_zero, CubicAlgebra.c1_zero, CubicAlgebra.c2_zero, encFp2_zero,
      FP6_ZERO]
  have hnorm : x.re * x.re - CubicAlgebra.gen * (x.im * x.im) = QuadraticAlgebra.norm x := by
    rw [QuadraticAlgebra.norm_def]
    ring
  have hne : QuadraticAlgebra.norm x ≠ 0 :=
    mt QuadraticAlgebra.norm_eq_zero_iff_eq_zero.mp hx
  simp only [fp12Inv, encFp12, fp6Square_enc, mulByGamma_enc, fp6Sub_enc, hnorm]
  refine (fp6Inv_yields hne).bind ?_
  simp only [fp6Mul_enc, hzero, fp6Sub_enc]
  refine Yields.of_eq fun _ => congrArg some (Prod.ext ?_ ?_)
  · refine congrArg encFp6 ?_
    rw [QuadraticAlgebra.re_inv]
    simp
    ring
  · refine congrArg encFp6 ?_
    rw [QuadraticAlgebra.im_inv]
    simp
    ring

/-! ## The tower as a whole -/

/-- The reduced words are the encodings of the elements of a field, `mul` multiplies them and
`inv` inverts those of the nonzero elements. -/
structure FaithfulField {F W : Type*} [Field F] (enc : F → W) (Reduced : W → Prop)
    (mul : W → W → W) (inv : ℕ → W → Option W) : Prop where
  injective : Function.Injective enc
  reduced_iff : ∀ a, Reduced a ↔ ∃ x, a = enc x
  mul_enc : ∀ x y, mul (enc x) (enc y) = enc (x * y)
  inv_yields : ∀ x, x ≠ 0 → ∃ y, Yields (fun fuel => inv fuel (enc x)) (enc y) ∧ x * y = 1

theorem reduced2_enc (x : Fp2) : Reduced2 (encFp2 x) :=
  ⟨toNat_enc_lt x.re, toNat_enc_lt x.im⟩

theorem reduced6_enc (x : Fp6) : Reduced6 (encFp6 x) :=
  ⟨reduced2_enc x.c0, reduced2_enc x.c1, reduced2_enc x.c2⟩

theorem fp2_faithful : FaithfulField encFp2 Reduced2 fp2Mul fp2Inv where
  injective := encFp2_injective
  reduced_iff a := by
    constructor
    · exact exists_encFp2
    · rintro ⟨x, rfl⟩
      exact reduced2_enc x
  mul_enc x y := by
    rw [fp2Mul_enc]
  inv_yields x hx := by
    refine ⟨x⁻¹, fp2Inv_yields hx, ?_⟩
    rw [mul_inv_cancel₀ hx]

theorem fp6_faithful : FaithfulField encFp6 Reduced6 fp6Mul fp6Inv where
  injective := encFp6_injective
  reduced_iff a := by
    constructor
    · exact exists_encFp6
    · rintro ⟨x, rfl⟩
      exact reduced6_enc x
  mul_enc x y := by
    rw [fp6Mul_enc]
  inv_yields x hx := by
    refine ⟨x⁻¹, fp6Inv_yields hx, ?_⟩
    rw [mul_inv_cancel₀ hx]

theorem fp12_faithful : FaithfulField encFp12 Reduced12 fp12Mul fp12Inv where
  injective := encFp12_injective
  reduced_iff a := by
    constructor
    · exact exists_encFp12
    · rintro ⟨z, rfl⟩
      exact ⟨reduced6_enc z.re, reduced6_enc z.im⟩
  mul_enc x y := by
    rw [fp12Mul_enc]
  inv_yields x hx := by
    refine ⟨x⁻¹, fp12Inv_yields hx, ?_⟩
    rw [mul_inv_cancel₀ hx]

theorem xi_eq : xi = 9 + QuadraticAlgebra.omega := by
  refine QuadraticAlgebra.ext ?_ ?_
  · rw [QuadraticAlgebra.re_add, QuadraticAlgebra.re_ofNat, QuadraticAlgebra.omega_re, add_zero,
      xi]
  · rw [QuadraticAlgebra.im_add, QuadraticAlgebra.im_ofNat, QuadraticAlgebra.omega_im, zero_add,
      xi]

/-- The three extensions, with what their generators satisfy. -/
theorem tower_faithful :
    FaithfulField encFp2 Reduced2 fp2Mul fp2Inv ∧
    FaithfulField encFp6 Reduced6 fp6Mul fp6Inv ∧
    FaithfulField encFp12 Reduced12 fp12Mul fp12Inv ∧
    (∀ x, fp6Square (encFp6 x) = encFp6 (x ^ 2)) ∧
    (∀ x, fp12Square (encFp12 x) = encFp12 (x ^ 2)) ∧
    (∀ x, mulByXi (encFp2 x) = encFp2 ((9 + QuadraticAlgebra.omega) * x)) ∧
    (∀ x, mulByGamma (encFp6 x) = encFp6 (CubicAlgebra.gen * x)) ∧
    (QuadraticAlgebra.omega : Fp2) ^ 2 = -1 ∧
    (CubicAlgebra.gen : Fp6) ^ 3 = algebraMap Fp2 Fp6 (9 + QuadraticAlgebra.omega) ∧
    (QuadraticAlgebra.omega : Fp12) ^ 2 = algebraMap Fp6 Fp12 CubicAlgebra.gen := by
  refine ⟨fp2_faithful, fp6_faithful, fp12_faithful, fun x => ?_, fun x => ?_, fun x => ?_,
    mulByGamma_enc, ?_, ?_, ?_⟩
  · rw [fp6Square_enc, sq]
  · rw [fp12Square_enc, sq]
  · rw [mulByXi_enc, xi_eq]
  · rw [sq, QuadraticAlgebra.omega_mul_omega_eq_mk]
    rfl
  · rw [CubicAlgebra.gen_cube]
    exact congrArg (algebraMap Fp2 Fp6) xi_eq
  · rw [sq, QuadraticAlgebra.omega_mul_omega_eq_mk]
    rfl

end EraPrecompiles.Pairing
