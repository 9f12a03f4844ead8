import EraPrecompiles.Bn254.Fp2
import EraPrecompiles.Curve.Jacobian

/-!
# The twist of BN254

The curve `y^2 = x^3 + 3 / (9 + u)` over `Fp2`, the functions that the precompiles
over the twist have in common, and the encoding of points as four words, with
zero words for the point at infinity.

The twist has no point with `y = 0`, because the constant of the curve is not a
cube in `Fp2`: its norm is not a cube in `Fp`.  It has no point with `x = 0` either,
because this norm is not a square.
-/

namespace EraPrecompiles.Bn254

open ShortWeierstrass

/-- The element `9 + u`. -/
def xi : Fp2 := ⟨9, 1⟩

theorem xi_ne_zero : xi ≠ 0 := by
  intro h
  have him := congrArg QuadraticAlgebra.im h
  exact one_ne_zero him

theorem fp2_natCast_ne_zero {k : ℕ} (hk : k % p ≠ 0) : (k : Fp2) ≠ 0 := by
  intro h
  have hre := congrArg QuadraticAlgebra.re h
  rw [QuadraticAlgebra.re_natCast, QuadraticAlgebra.re_zero] at hre
  exact natCast_ne_zero hk hre

theorem twist_disc_ne_zero :
    -16 * (4 * (0 : Fp2) ^ 3 + 27 * (((3 : ℕ) : Fp2) / xi) ^ 2) ≠ 0 := by
  have h3 : (3 : Fp2) ≠ 0 := by
    exact_mod_cast fp2_natCast_ne_zero (k := 3) (by decide)
  have h432 : (432 : Fp2) ≠ 0 := by
    exact_mod_cast fp2_natCast_ne_zero (k := 432) (by decide)
  have h : -16 * (4 * 0 ^ 3 + 27 * (3 / xi) ^ 2) = -(432 * (3 / xi) ^ 2) := by ring
  rw [Nat.cast_ofNat, h, neg_ne_zero]
  exact mul_ne_zero h432 (pow_ne_zero 2 (div_ne_zero h3 xi_ne_zero))

def g2 : ShortWeierstrass Fp2 where
  a := 0
  b := (3 : ℕ) / xi
  disc_ne_zero := twist_disc_ne_zero

/-- The coordinates of `3 / (9 + u)`. -/
theorem g2_b : g2.b =
    ⟨19485874751759354771024239261021720505790618469301721065564631296452457478373,
      266929791119991161246907387137283842545076965332900288569378510910307636690⟩ := by
  rw [g2, div_eq_iff xi_ne_zero]
  decide

/-- No point of the twist has `y = 0`. -/
theorem g2_y_ne_zero (x : Fp2) : ¬g2.OnCurve x 0 := by
  intro h
  have hcube : x ^ 3 = -g2.b := by
    have h' : (0 : Fp2) ^ 2 = x ^ 3 + 0 * x + g2.b := h
    linear_combination -h'
  have hnorm : QuadraticAlgebra.norm x ^ 3 =
      ((21087453498479301738505683583845423561061080261299122796980902361914303298513 : ℕ) :
        Fp) := by
    rw [← map_pow, hcube, QuadraticAlgebra.norm_neg, g2_b, QuadraticAlgebra.norm_def]
    decide
  exact pow_ne_of_powMod (by decide) (by decide) (by decide +kernel) _ hnorm

/-- No point of the twist has `x = 0`. -/
theorem g2_x_ne_zero (y : Fp2) : ¬g2.OnCurve 0 y := by
  intro h
  have hsq : y ^ 2 = g2.b := by
    have h' : y ^ 2 = (0 : Fp2) ^ 3 + g2.a * 0 + g2.b := h
    linear_combination h'
  have hnorm : QuadraticAlgebra.norm y ^ 2 =
      ((21087453498479301738505683583845423561061080261299122796980902361914303298513 : ℕ) :
        Fp) := by
    rw [← map_pow, hsq, g2_b, QuadraticAlgebra.norm_def]
    decide
  exact pow_ne_of_powMod (by decide) (by decide) (by decide +kernel) _ hnorm

theorem g2_double_ne_zero {A : g2.Point} (hA : A ≠ 0) : A + A ≠ 0 :=
  double_ne_zero g2_y_ne_zero hA

/-! ## The program -/

def MONTGOMERY_TWISTED_CURVE_COEFFS : Word × Word :=
  (16772280239760917788496391897731603718812008455956943122563801666366297604776,
    568440292453150825972223760836185707764922522371208948902804025364325400423)

def g2AffinePointIsInfinity (x y : Word × Word) : Word :=
  iszero (or (or x.1 x.2) (or y.1 y.2))

def g2AffinePointIsOnCurve (x y : Word × Word) : Word :=
  let a := MONTGOMERY_TWISTED_CURVE_COEFFS
  let b := fp2Mul x x
  let b := fp2Mul b x
  let b := fp2Add b a
  let c := fp2Mul y y
  and (eq b.1 c.1) (eq b.2 c.2)

def g2CoordinateIsOnFieldOrder (x : Word × Word) : Word :=
  and (lt x.1 P) (lt x.2 P)

/-- The arithmetic part of the additions in Jacobian coordinates. -/
def g2JacobianChord (q r : (Word × Word) × (Word × Word) × (Word × Word)) :
    (Word × Word) × (Word × Word) × (Word × Word) :=
  let (xq, yq, zq) := q
  let (xr, yr, zr) := r
  let zqzq := fp2Mul zq zq
  let zrzr := fp2Mul zr zr
  let u := fp2Mul xq zrzr
  let u2 := fp2Mul xr zqzq
  let t0 := fp2Mul zr zrzr
  let s := fp2Mul yq t0
  let t2 := fp2Mul zq zqzq
  let s2 := fp2Mul yr t2
  let h := fp2Sub u2 u
  let t4 := fp2Add h h
  let i := fp2Mul t4 t4
  let j := fp2Mul h i
  let t6 := fp2Sub s2 s
  let r := fp2Add t6 t6
  let v := fp2Mul u i
  let t8 := fp2Mul r r
  let t10 := fp2Add v v
  let t12 := fp2Sub t8 j
  let c0 := fp2Sub t12 t10
  let t14 := fp2Sub v c0
  let t16 := fp2Mul s j
  let t18 := fp2Add t16 t16
  let t20 := fp2Mul r t14
  let c1 := fp2Sub t20 t18
  let t22 := fp2Add zq zr
  let t24 := fp2Mul t22 t22
  let t26 := fp2Sub t24 zqzq
  let t28 := fp2Sub t26 zrzr
  let c2 := fp2Mul t28 h
  (c0, c1, c2)

def g2JacobianDouble (P : (Word × Word) × (Word × Word) × (Word × Word)) :
    (Word × Word) × (Word × Word) × (Word × Word) :=
  let (xp, yp, zp) := P
  let a := fp2Mul xp xp
  let b := fp2Mul yp yp
  let c := fp2Mul b b
  let t0 := fp2Add xp b
  let t1 := fp2Mul t0 t0
  let t2 := fp2Sub t1 a
  let t3 := fp2Sub t2 c
  let d := fp2Add t3 t3
  let e := fp2Add a a
  let e := fp2Add e a
  let f := fp2Mul e e
  let t4 := fp2Add d d
  let xr := fp2Sub f t4
  let t5 := fp2Sub d xr
  let t6 := fp2Add c c
  let t6 := fp2Add t6 t6
  let t6 := fp2Add t6 t6
  let t7 := fp2Mul e t5
  let yr := fp2Sub t7 t6
  let t8 := fp2Mul yp zp
  let zr := fp2Add t8 t8
  (xr, yr, zr)

def g2OutOfJacobian (fuel : ℕ) (P : (Word × Word) × (Word × Word) × (Word × Word)) :
    Option ((Word × Word) × (Word × Word)) := do
  let (x, y, z) := P
  let zSquare := fp2Mul z z
  let zCube := fp2Mul zSquare z
  let t0 ← fp2Inv fuel zSquare
  let t2 ← fp2Inv fuel zCube
  return (fp2Mul x t0, fp2Mul y t2)

/-- Both coordinates in Montgomery form. -/
def fp2IntoMontgomeryForm (a : Word × Word) : Word × Word :=
  (intoMontgomeryForm a.1, intoMontgomeryForm a.2)

/-- `mstore(0, x0) mstore(32, x1) mstore(64, y0) mstore(96, y1) return(0, 128)` -/
def returnTwistPoint (x y : Word × Word) : Halt :=
  let mem := mstore Memory.zero 0 x.1
  let mem := mstore mem 32 x.2
  let mem := mstore mem 64 y.1
  let mem := mstore mem 96 y.2
  returnMem mem 0 128

/-- The last lines of the precompiles: out of Jacobian coordinates and out of
Montgomery form. -/
def returnJacobian (fuel : ℕ) (P : (Word × Word) × (Word × Word) × (Word × Word)) :
    Option Halt := do
  let (x, y) ← g2OutOfJacobian fuel P
  return returnTwistPoint (outOfMontgomeryForm x.1, outOfMontgomeryForm x.2)
    (outOfMontgomeryForm y.1, outOfMontgomeryForm y.2)

/-! ## Encoded points -/

/-- The element with the representatives `w`. -/
def fp2OfWords (w : Word × Word) : Fp2 :=
  ⟨w.1.toNat, w.2.toNat⟩

/-- The representatives of an element. -/
def fp2Words (x : Fp2) : Word × Word :=
  (toWord x.re, toWord x.im)

def InRange (w : Word × Word) : Prop :=
  w.1.toNat < p ∧ w.2.toNat < p

instance (w : Word × Word) : Decidable (InRange w) :=
  inferInstanceAs (Decidable (_ ∧ _))

/-- The point with the encoding `x`, `y`. -/
def decodeTwist (x y : Word × Word) : Option g2.Point :=
  if x = (0, 0) ∧ y = (0, 0) then
    some 0
  else if h : (InRange x ∧ InRange y) ∧ g2.OnCurve (fp2OfWords x) (fp2OfWords y) then
    some (g2.point (fp2OfWords x) (fp2OfWords y) h.2)
  else
    none

def twistWords : g2.Point → (Word × Word) × (Word × Word)
  | .zero => ((0, 0), (0, 0))
  | .some x y _ => (fp2Words x, fp2Words y)

/-- The 128 bytes a point is returned as. -/
def encodeTwist (A : g2.Point) : List Byte :=
  let (x, y) := twistWords A
  [x.1, x.2, y.1, y.2].flatMap wordBytes

/-- How a call ends: with the encoding of a point, or with all gas burned. -/
def twistAnswer : Option g2.Point → Halt
  | some A => .returned (encodeTwist A)
  | none => .burned

/-! ## Facts about the encoding -/

theorem fp2IntoMontgomeryForm_eq (w : Word × Word) :
    fp2IntoMontgomeryForm w = encFp2 (fp2OfWords w) := by
  rw [fp2IntoMontgomeryForm, intoMontgomeryForm_eq, intoMontgomeryForm_eq, encFp2,
    fp2OfWords]

theorem outOfMontgomery_encFp2 (x : Fp2) :
    (outOfMontgomeryForm (encFp2 x).1, outOfMontgomeryForm (encFp2 x).2) = fp2Words x := by
  rw [encFp2, outOfMontgomeryForm_enc, outOfMontgomeryForm_enc, fp2Words]

theorem fp2Words_fp2OfWords {w : Word × Word} (hw : InRange w) :
    fp2Words (fp2OfWords w) = w :=
  Prod.ext (toWord_cast hw.1) (toWord_cast hw.2)

theorem fp2Words_zero : fp2Words 0 = (0, 0) := by
  rw [fp2Words, QuadraticAlgebra.re_zero, QuadraticAlgebra.im_zero, toWord_zero]

theorem fp2OfWords_zero : fp2OfWords (0, 0) = 0 := by
  refine QuadraticAlgebra.ext ?_ ?_ <;> simp [fp2OfWords]

theorem fp2OfWords_inj {v w : Word × Word} (hv : InRange v) (hw : InRange w)
    (h : fp2OfWords v = fp2OfWords w) : v = w := by
  rw [← fp2Words_fp2OfWords hv, h, fp2Words_fp2OfWords hw]

theorem inRange_zero : InRange (0, 0) := by
  constructor <;> decide

theorem twistWords_of_coords {A : g2.Point} {x y : Fp2} (h : Coords A x y) :
    twistWords A = (fp2Words x, fp2Words y) := by
  obtain ⟨_, rfl⟩ := h
  rfl

theorem returnTwistPoint_eq (x y : Word × Word) :
    returnTwistPoint x y = .returned ([x.1, x.2, y.1, y.2].flatMap wordBytes) :=
  returnMem_storeWords [x.1, x.2, y.1, y.2] Memory.zero (by simp)

theorem returnTwistPoint_zero : returnTwistPoint (0, 0) (0, 0) = twistAnswer (some 0) :=
  returnTwistPoint_eq (0, 0) (0, 0)

theorem returnTwistPoint_of_coords {A : g2.Point} {x y : Fp2} (h : Coords A x y) :
    returnTwistPoint (fp2Words x) (fp2Words y) = twistAnswer (some A) := by
  rw [returnTwistPoint_eq, twistAnswer, encodeTwist, twistWords_of_coords h]

theorem fp2Words_inj {x y : Fp2} : fp2Words x = fp2Words y ↔ x = y := by
  rw [fp2Words, fp2Words, Prod.mk.injEq, toWord_inj, toWord_inj, QuadraticAlgebra.ext_iff]

theorem twistWords_ne_zero {A : g2.Point} (hA : A ≠ 0) :
    twistWords A ≠ ((0, 0), (0, 0)) := by
  obtain ⟨x, y, h⟩ := (eq_zero_or_coords A).resolve_left hA
  intro hzero
  rw [twistWords_of_coords h, Prod.mk.injEq, ← fp2Words_zero, fp2Words_inj] at hzero
  have hcurve := h.onCurve
  rw [fp2Words_inj.mp hzero.2] at hcurve
  exact g2_y_ne_zero x hcurve

theorem twistWords_injective : Function.Injective twistWords := by
  intro A B h
  by_cases hA : A = 0
  · subst hA
    by_contra hB
    exact twistWords_ne_zero (Ne.symm hB) h.symm
  · by_cases hB : B = 0
    · subst hB
      exact absurd h (twistWords_ne_zero hA)
    · obtain ⟨x₁, y₁, h₁⟩ := (eq_zero_or_coords A).resolve_left hA
      obtain ⟨x₂, y₂, h₂⟩ := (eq_zero_or_coords B).resolve_left hB
      rw [twistWords_of_coords h₁, twistWords_of_coords h₂, Prod.mk.injEq, fp2Words_inj,
        fp2Words_inj] at h
      exact (h₁.congr h.1 h.2).point_unique h₂

theorem encodeTwist_eq (A : g2.Point) :
    encodeTwist A = [(twistWords A).1.1, (twistWords A).1.2, (twistWords A).2.1,
      (twistWords A).2.2].flatMap wordBytes :=
  rfl

/-- Different points have different encodings. -/
theorem twistAnswer_inj {A B : g2.Point} :
    twistAnswer (some A) = twistAnswer (some B) ↔ A = B := by
  constructor
  · intro h
    have hdata : encodeTwist A = encodeTwist B := Halt.returned.inj h
    rw [encodeTwist_eq, encodeTwist_eq] at hdata
    have hbytes := flatMap_wordBytes_inj (by rfl) hdata
    simp only [List.cons.injEq, and_true] at hbytes
    obtain ⟨h₁, h₂, h₃, h₄⟩ := hbytes
    exact twistWords_injective (Prod.ext (Prod.ext h₁ h₂) (Prod.ext h₃ h₄))
  · rintro rfl
    rfl

theorem decodeTwist_zero : decodeTwist (0, 0) (0, 0) = some 0 :=
  if_pos ⟨rfl, rfl⟩

theorem decodeTwist_of_onCurve {x y : Word × Word} (hx : InRange x) (hy : InRange y)
    (h : g2.OnCurve (fp2OfWords x) (fp2OfWords y)) :
    ∃ A, decodeTwist x y = some A ∧ Coords A (fp2OfWords x) (fp2OfWords y) := by
  have h0 : ¬(x = (0, 0) ∧ y = (0, 0)) := by
    rintro ⟨rfl, rfl⟩
    rw [fp2OfWords_zero] at h
    exact g2_y_ne_zero 0 h
  exact ⟨_, (if_neg h0).trans (dif_pos ⟨⟨hx, hy⟩, h⟩), coords_point h⟩

theorem decodeTwist_eq_none {x y : Word × Word} (h0 : ¬(x = (0, 0) ∧ y = (0, 0)))
    (h : ¬((InRange x ∧ InRange y) ∧ g2.OnCurve (fp2OfWords x) (fp2OfWords y))) :
    decodeTwist x y = none :=
  (if_neg h0).trans (dif_neg h)

theorem decodeTwist_out_of_range {x y : Word × Word} (h0 : ¬(x = (0, 0) ∧ y = (0, 0)))
    (h : ¬(InRange x ∧ InRange y)) : decodeTwist x y = none :=
  decodeTwist_eq_none h0 fun h' => h h'.1

theorem returnTwistPoint_of_decode {A : g2.Point} {x y : Word × Word} (hx : InRange x)
    (hy : InRange y) (h : Coords A (fp2OfWords x) (fp2OfWords y)) :
    returnTwistPoint x y = twistAnswer (some A) := by
  have hret := returnTwistPoint_of_coords h
  rw [fp2Words_fp2OfWords hx, fp2Words_fp2OfWords hy] at hret
  exact hret

/-! ## Facts about the program -/

theorem MONTGOMERY_TWISTED_CURVE_COEFFS_eq :
    MONTGOMERY_TWISTED_CURVE_COEFFS = encFp2 g2.b := by
  rw [g2_b, encFp2, enc_ofNat, enc_ofNat]
  decide

theorem g2AffinePointIsInfinity_eq (x y : Word × Word) :
    g2AffinePointIsInfinity x y = boolWord (x = (0, 0) ∧ y = (0, 0)) := by
  refine boolWord_congr ?_
  rw [or_eq_zero, or_eq_zero, or_eq_zero, Prod.ext_iff, Prod.ext_iff]

theorem g2CoordinateIsOnFieldOrder_eq (x : Word × Word) :
    g2CoordinateIsOnFieldOrder x = boolWord (InRange x) := by
  rw [g2CoordinateIsOnFieldOrder, lt, lt, and_boolWord]
  exact boolWord_congr (by rw [toNat_P, InRange])

theorem g2AffinePointIsOnCurve_enc (x y : Fp2) :
    g2AffinePointIsOnCurve (encFp2 x) (encFp2 y) = boolWord (g2.OnCurve x y) := by
  simp only [g2AffinePointIsOnCurve, MONTGOMERY_TWISTED_CURVE_COEFFS_eq, fp2Mul_enc,
    fp2Add_enc, eq, and_boolWord]
  refine boolWord_congr ?_
  have h : x * x * x + g2.b = x ^ 3 + g2.a * x + g2.b := by
    simp only [g2]
    ring
  rw [← Prod.ext_iff, encFp2_inj, OnCurve, h, pow_two, eq_comm]

theorem notOnFieldOrder_iff (x y : Word × Word) :
    iszero (and (g2CoordinateIsOnFieldOrder x) (g2CoordinateIsOnFieldOrder y)) ≠ 0 ↔
      ¬(InRange x ∧ InRange y) := by
  rw [g2CoordinateIsOnFieldOrder_eq, g2CoordinateIsOnFieldOrder_eq, and_boolWord,
    iszero_boolWord, boolWord_ne_zero]

theorem notOnCurve_iff (x y : Word × Word) :
    iszero (g2AffinePointIsOnCurve (fp2IntoMontgomeryForm x) (fp2IntoMontgomeryForm y)) ≠ 0 ↔
      ¬g2.OnCurve (fp2OfWords x) (fp2OfWords y) := by
  rw [fp2IntoMontgomeryForm_eq, fp2IntoMontgomeryForm_eq, g2AffinePointIsOnCurve_enc,
    iszero_boolWord, boolWord_ne_zero]

/-- The words `W` stand for the point `A`. -/
def RepresentsTwist (A : g2.Point)
    (W : (Word × Word) × (Word × Word) × (Word × Word)) : Prop :=
  ∃ T : Fp2 × Fp2 × Fp2,
    W = (encFp2 T.1, encFp2 T.2.1, encFp2 T.2.2) ∧ Jacobian A T

theorem representsTwist_affine {A : g2.Point} {x y : Fp2} (h : Coords A x y) :
    RepresentsTwist A (encFp2 x, encFp2 y, (MONTGOMERY_ONE, 0)) :=
  ⟨(x, y, 1), by rw [encFp2_one], Jacobian.of_coords h⟩

theorem representsTwist_enc_iff {A : g2.Point} {T : Fp2 × Fp2 × Fp2} :
    RepresentsTwist A (encFp2 T.1, encFp2 T.2.1, encFp2 T.2.2) ↔ Jacobian A T := by
  constructor
  · rintro ⟨S, hTS, hS⟩
    have hX : encFp2 T.1 = encFp2 S.1 := congrArg Prod.fst hTS
    have hY : encFp2 T.2.1 = encFp2 S.2.1 := congrArg (fun W => W.2.1) hTS
    have hZ : encFp2 T.2.2 = encFp2 S.2.2 := congrArg (fun W => W.2.2) hTS
    obtain rfl : T = S :=
      Prod.ext (encFp2_injective hX) (Prod.ext (encFp2_injective hY) (encFp2_injective hZ))
    exact hS
  · intro h
    exact ⟨T, rfl, h⟩

theorem g2JacobianDouble_enc (T : Fp2 × Fp2 × Fp2) :
    g2JacobianDouble (encFp2 T.1, encFp2 T.2.1, encFp2 T.2.2) =
      (encFp2 (jacobianDouble T).1, encFp2 (jacobianDouble T).2.1,
        encFp2 (jacobianDouble T).2.2) := by
  simp only [g2JacobianDouble, fp2Mul_enc, fp2Add_enc, fp2Sub_enc, jacobianDouble]

theorem representsTwist_double {A : g2.Point}
    {W : (Word × Word) × (Word × Word) × (Word × Word)} (h : RepresentsTwist A W) :
    RepresentsTwist (A + A) (g2JacobianDouble W) := by
  obtain ⟨T, rfl, hT⟩ := h
  exact ⟨jacobianDouble T, g2JacobianDouble_enc T, hT.double rfl⟩

theorem g2JacobianChord_enc (S T : Fp2 × Fp2 × Fp2) :
    g2JacobianChord (encFp2 S.1, encFp2 S.2.1, encFp2 S.2.2)
        (encFp2 T.1, encFp2 T.2.1, encFp2 T.2.2) =
      (encFp2 (jacobianChord S T).1, encFp2 (jacobianChord S T).2.1,
        encFp2 (jacobianChord S T).2.2) := by
  simp only [g2JacobianChord, fp2Mul_enc, fp2Add_enc, fp2Sub_enc, jacobianChord]

theorem representsTwist_chord {A B : g2.Point}
    {V W : (Word × Word) × (Word × Word) × (Word × Word)} (hV : RepresentsTwist A V)
    (hW : RepresentsTwist B W) (hA : A ≠ 0) (hB : B ≠ 0) (hAB : A ≠ B) :
    RepresentsTwist (A + B) (g2JacobianChord V W) := by
  obtain ⟨S, rfl, hS⟩ := hV
  obtain ⟨T, rfl, hT⟩ := hW
  exact ⟨jacobianChord S T, g2JacobianChord_enc S T, hS.chord hT hA hB hAB⟩

theorem g2OutOfJacobian_yields (X Y : Fp2) {Z : Fp2} (hZ : Z ≠ 0) :
    Yields (fun fuel => g2OutOfJacobian fuel (encFp2 X, encFp2 Y, encFp2 Z))
      (encFp2 (X * (Z * Z)⁻¹), encFp2 (Y * (Z * Z * Z)⁻¹)) := by
  have hZ2 : Z * Z ≠ 0 := mul_ne_zero hZ hZ
  simp only [g2OutOfJacobian, fp2Mul_enc]
  refine (fp2Inv_yields hZ2).bind ((fp2Inv_yields (mul_ne_zero hZ2 hZ)).bind ?_)
  simp only [fp2Mul_enc]
  exact Yields.const _

/-- A point that is not infinity is returned. -/
theorem returnJacobian_yields {A : g2.Point}
    {W : (Word × Word) × (Word × Word) × (Word × Word)} (h : RepresentsTwist A W)
    (hA : A ≠ 0) :
    Yields (fun fuel => returnJacobian fuel W) (twistAnswer (some A)) := by
  obtain ⟨T, rfl, hT⟩ := h
  have hZ : T.2.2 ≠ 0 := mt hT.eq_zero_iff.mpr hA
  refine (g2OutOfJacobian_yields T.1 T.2.1 hZ).bind ?_
  rw [← returnTwistPoint_of_coords (hT.coords hZ), ← outOfMontgomery_encFp2,
    ← outOfMontgomery_encFp2]
  exact Yields.const _

/-- At infinity the conversion to affine coordinates does not end. -/
theorem returnJacobian_zero_diverges {T : Fp2 × Fp2 × Fp2} (hZ : T.2.2 = 0) :
    Diverges (fun fuel => returnJacobian fuel (encFp2 T.1, encFp2 T.2.1, encFp2 T.2.2)) := by
  refine Diverges.bind ?_ _
  simp only [g2OutOfJacobian, fp2Mul_enc, hZ, mul_zero]
  exact fp2Inv_zero_diverges.bind _

end EraPrecompiles.Bn254
