import EraPrecompiles.Bn254.G1
import EraPrecompiles.Curve.Encoded

/-!
# EcMul

The precompile that multiplies a point of BN254 by a scalar.  The scalar is read
from its lowest bit on; `q` runs through the doubles of the point and `r` is the
sum so far, both in homogeneous coordinates.  The addition is inlined in the
loop, with three branches: the sum is at infinity, the sum equals `q`, and the
chord.  The second branch makes the doubled sum the next `q`.

The invariant of the loop is `r + scalar * q`.  The branches for special points
are only met by scalars above the order of the group, and they preserve it like
the others.  `q` never is at infinity, because no point has order two.
-/

namespace EraPrecompiles.EcMul

open Bn254 ShortWeierstrass

/-! ## The program -/

/-- Three times the constant of the curve. -/
def MONTGOMERY_B3 : Word :=
  13381388159399823366557795051099241510703237597767364208733475022892534956023

def lsbIsOne (x : Word) : Word :=
  and x 1

def coordinateIsOnFieldOrder (coordinate : Word) : Word :=
  lt coordinate P

def affinePointCoordinatesAreOnFieldOrder (x y : Word) : Word :=
  and (coordinateIsOnFieldOrder x) (coordinateIsOnFieldOrder y)

def affinePointIsOnCurve (x y : Word) : Word :=
  let ySquared := montgomeryMul y y
  let xSquared := montgomeryMul x x
  let xQubed := montgomeryMul xSquared x
  let xQubedPlusThree := montgomeryAdd xQubed MONTGOMERY_THREE
  eq ySquared xQubedPlusThree

def affinePointIsInfinity (x y : Word) : Word :=
  and (iszero x) (iszero y)

def projectivePointIsInfinity (_x _y z : Word) : Word :=
  iszero z

def projectiveFromAffine (xp yp : Word) : Word × Word × Word :=
  (xp, yp, MONTGOMERY_ONE)

def projectiveIntoAffine (fuel : ℕ) (xp yp zp : Word) : Option (Word × Word) :=
  if zp ≠ 0 then do
    let zp_inv ← montgomeryModularInverse fuel zp
    return (montgomeryMul xp zp_inv, montgomeryMul yp zp_inv)
  else
    some (0, 0)

def projectiveDouble (xp yp zp : Word) : Word × Word × Word :=
  let t0 := montgomeryMul yp yp
  let zr := montgomeryAdd t0 t0
  let zr := montgomeryAdd zr zr
  let zr := montgomeryAdd zr zr
  let t1 := montgomeryMul yp zp
  let t2 := montgomeryMul zp zp
  let t2 := montgomeryMul MONTGOMERY_B3 t2
  let xr := montgomeryMul t2 zr
  let yr := montgomeryAdd t0 t2
  let zr := montgomeryMul t1 zr
  let t1 := montgomeryAdd t2 t2
  let t2 := montgomeryAdd t1 t2
  let t0 := montgomerySub t0 t2
  let yr := montgomeryMul t0 yr
  let yr := montgomeryAdd xr yr
  let t1 := montgomeryMul xp yp
  let xr := montgomeryMul t0 t1
  let xr := montgomeryAdd xr xr
  (xr, yr, zr)

/-- The variables of the loop. -/
structure MulState where
  scalar : Word
  q : Word × Word × Word
  r : Word × Word × Word

/-- The body of the loop where the lowest bit is one and `r` is not at
infinity. -/
def addStep (scalar : Word) (q r : Word × Word × Word) : MulState :=
  let (xq, yq, zq) := q
  let (xr, yr, zr) := r
  let t0 := montgomeryMul yq zr
  let t1 := montgomeryMul yr zq
  let t := montgomerySub t0 t1
  let u0 := montgomeryMul xq zr
  let u1 := montgomeryMul xr zq
  let u := montgomerySub u0 u1
  if iszero (or t u) ≠ 0 then
    let r := projectiveDouble xr yr zr
    ⟨shr 1 scalar, r, r⟩
  else
    let u2 := montgomeryMul u u
    let u3 := montgomeryMul u2 u
    let v := montgomeryMul zq zr
    let w := montgomerySub (montgomeryMul (montgomeryMul t t) v)
      (montgomeryMul u2 (montgomeryAdd u0 u1))
    let xr := montgomeryMul u w
    let yr := montgomerySub
      (montgomeryMul t (montgomerySub (montgomeryMul u0 u2) w)) (montgomeryMul t0 u3)
    let zr := montgomeryMul u3 v
    ⟨shr 1 scalar, projectiveDouble xq yq zq, (xr, yr, zr)⟩

def mulStep (s : MulState) : Flow MulState (Word × Word × Word) :=
  let (xq, yq, zq) := s.q
  let (xr, yr, zr) := s.r
  if s.scalar ≠ 0 then
    if lsbIsOne s.scalar ≠ 0 then
      if projectivePointIsInfinity xr yr zr ≠ 0 then
        .next ⟨shr 1 s.scalar, projectiveDouble xq yq zq, s.q⟩
      else
        .next (addStep s.scalar s.q s.r)
    else
      .next ⟨shr 1 s.scalar, projectiveDouble xq yq zq, s.r⟩
  else
    .done s.r

/-- The loop over the bits of the scalar. -/
def mulLoop (fuel : ℕ) (s : MulState) : Option (Word × Word × Word) :=
  iterate (fun s => some (mulStep s)) fuel s

/-- Back to affine coordinates and out of Montgomery form. -/
def returnProjective (fuel : ℕ) (r : Word × Word × Word) : Option Halt := do
  let (xr, yr, zr) := r
  let (xr, yr) ← projectiveIntoAffine fuel xr yr zr
  return returnPoint (outOfMontgomeryForm xr) (outOfMontgomeryForm yr)

def fallback (fuel : ℕ) (cd : Calldata) : Option Halt :=
  let x := calldataload cd 0
  let y := calldataload cd 32
  if iszero (affinePointCoordinatesAreOnFieldOrder x y) ≠ 0 then
    some .burned
  else
    let scalar := calldataload cd 64
    if affinePointIsInfinity x y ≠ 0 then
      some (returnPoint 0 0)
    else
      let m_x := intoMontgomeryForm x
      let m_y := intoMontgomeryForm y
      if iszero (affinePointIsOnCurve m_x m_y) ≠ 0 then
        some .burned
      else if eq scalar 0 ≠ 0 then
        some (returnPoint 0 0)
      else if eq scalar 1 ≠ 0 then
        some (returnPoint x y)
      else
        let (xp, yp, zp) := projectiveFromAffine m_x m_y
        if eq scalar 2 ≠ 0 then
          returnProjective fuel (projectiveDouble xp yp zp)
        else do
          let r ← mulLoop fuel ⟨scalar, (xp, yp, zp), (0, MONTGOMERY_ONE, 0)⟩
          returnProjective fuel r

/-- Multiplication of an encoded point. -/
def mulPoint (x y scalar : Word) : Option g1.Point :=
  (decodePoint x y).map fun A => scalar.toNat • A

/-! ## The operations on points -/

theorem MONTGOMERY_B3_eq : MONTGOMERY_B3 = enc (9 : Fp) := by
  rw [enc_ofNat]
  decide

theorem represents_double {A : g1.Point} {W : Word × Word × Word} (h : Represents A W) :
    Represents (A + A) (projectiveDouble W.1 W.2.1 W.2.2) := by
  obtain ⟨T, rfl, hT⟩ := h
  refine ⟨completeDouble 9 T, ?_, hT.complete rfl ?_⟩
  · simp only [projectiveDouble, encTriple, MONTGOMERY_B3_eq, montgomeryMul_enc,
      montgomeryAdd_enc, montgomerySub_enc, completeDouble]
  · simp only [g1]
    norm_num

theorem represents_zero_iff {A : g1.Point} {W : Word × Word × Word}
    (h : Represents A W) : projectivePointIsInfinity W.1 W.2.1 W.2.2 ≠ 0 ↔ A = 0 := by
  rw [projectivePointIsInfinity, iszero, boolWord_ne_zero]
  exact h.eq_zero_iff

/-- The inlined addition, for points not at infinity. -/
theorem addStep_spec {A B : g1.Point} {q r : Word × Word × Word} (hq : Represents B q)
    (hr : Represents A r) (hB : B ≠ 0) (hA : A ≠ 0) (scalar : Word) :
    (addStep scalar q r).scalar = shr 1 scalar ∧
      Represents (B + B) (addStep scalar q r).q ∧
      Represents (A + B) (addStep scalar q r).r := by
  have hdouble := represents_double hq
  have hrdouble := represents_double hr
  obtain ⟨Q, rfl, hQ⟩ := hq
  obtain ⟨R, rfl, hR⟩ := hr
  have htest : iszero (or (enc (Q.2.1 * R.2.2 - R.2.1 * Q.2.2))
      (enc (Q.1 * R.2.2 - R.1 * Q.2.2))) ≠ 0 ↔ B = A := by
    rw [hQ.eq_iff hR hB hA, iszero, boolWord_ne_zero, or_eq_zero, enc_eq_zero, enc_eq_zero,
      sub_eq_zero, sub_eq_zero, and_comm]
  simp only [addStep, encTriple, montgomeryMul_enc, montgomerySub_enc, montgomeryAdd_enc]
  by_cases heq : B = A
  · subst heq
    rw [if_pos (htest.mpr rfl)]
    exact ⟨rfl, hrdouble, hrdouble⟩
  · rw [if_neg (mt htest.mp heq)]
    refine ⟨rfl, hdouble, chordAdd Q R, rfl, ?_⟩
    rw [add_comm]
    exact hQ.chord hR hB hA heq

/-! ## The loop -/

theorem nsmul_of_even {G : Type*} [AddMonoid G] {n : ℕ} (hn : n % 2 = 0) (B : G) :
    n • B = (n / 2) • (B + B) := by
  rw [← two_nsmul, ← mul_nsmul, Nat.mul_div_cancel' (Nat.dvd_of_mod_eq_zero hn)]

theorem nsmul_of_odd {G : Type*} [AddMonoid G] {n : ℕ} (hn : n % 2 = 1) (B : G) :
    n • B = B + (n / 2) • (B + B) := by
  have h : n = 1 + 2 * (n / 2) := by omega
  conv_lhs => rw [h]
  rw [add_nsmul, one_nsmul, mul_nsmul, two_nsmul]

/-- The invariant of the loop: what is left of the scalar, applied to `q`, is
missing from the sum `r`. -/
structure MulInv (S : g1.Point) (s : MulState) (B C : g1.Point) : Prop where
  double : Represents B s.q
  sum : Represents C s.r
  double_ne_zero : B ≠ 0
  total : C + s.scalar.toNat • B = S

theorem mulStep_spec {S B C : g1.Point} {s : MulState} (hs : MulInv S s B C)
    (hscalar : s.scalar ≠ 0) :
    ∃ s' B' C', mulStep s = .next s' ∧ MulInv S s' B' C' ∧ s'.scalar = shr 1 s.scalar := by
  have hhalf : (shr 1 s.scalar).toNat = s.scalar.toNat / 2 := toNat_shr_one s.scalar
  have hdouble := represents_double hs.double
  have hB := g1_double_ne_zero hs.double_ne_zero
  have htotal := hs.total
  by_cases hbit : s.scalar.toNat % 2 = 0
  · have htest : ¬lsbIsOne s.scalar ≠ 0 := not_not_intro (and_one_eq_zero.mpr hbit)
    refine ⟨⟨shr 1 s.scalar, projectiveDouble s.q.1 s.q.2.1 s.q.2.2, s.r⟩, B + B, C, ?_,
      ⟨hdouble, hs.sum, hB, ?_⟩, rfl⟩
    · simp only [mulStep, if_pos hscalar, if_neg htest]
    · dsimp only
      rw [hhalf, ← nsmul_of_even hbit]
      exact htotal
  · have htest : lsbIsOne s.scalar ≠ 0 := mt and_one_eq_zero.mp hbit
    have hodd : s.scalar.toNat % 2 = 1 := Nat.mod_two_ne_zero.mp hbit
    rw [nsmul_of_odd hodd] at htotal
    by_cases hC : C = 0
    · have hinf := (represents_zero_iff hs.sum).mpr hC
      refine ⟨⟨shr 1 s.scalar, projectiveDouble s.q.1 s.q.2.1 s.q.2.2, s.q⟩, B + B, B, ?_,
        ⟨hdouble, hs.double, hB, ?_⟩, rfl⟩
      · simp only [mulStep, if_pos hscalar, if_pos htest, if_pos hinf]
      · dsimp only
        rw [hhalf, ← htotal, hC, zero_add]
    · have hinf := mt (represents_zero_iff hs.sum).mp hC
      obtain ⟨hscalar', hq, hr⟩ :=
        addStep_spec hs.double hs.sum hs.double_ne_zero hC s.scalar
      refine ⟨addStep s.scalar s.q s.r, B + B, C + B, ?_, ⟨hq, hr, hB, ?_⟩, hscalar'⟩
      · simp only [mulStep, if_pos hscalar, if_pos htest, if_neg hinf]
      · rw [hscalar', hhalf, add_assoc]
        exact htotal

/-- The loop ends with the multiple of the point. -/
theorem mulLoop_yields {S B C : g1.Point} {s : MulState} (hs : MulInv S s B C) :
    ∃ r, Yields (fun fuel => mulLoop fuel s) r ∧ Represents S r := by
  refine iterate_yields (fun _ s => some (mulStep s))
    (fun s => ∃ B C, MulInv S s B C) (fun r => Represents S r)
    (fun s => s.scalar.toNat) ?_ s ⟨B, C, hs⟩
  rintro s ⟨B, C, hs⟩
  by_cases hscalar : s.scalar = 0
  · left
    have htotal := hs.total
    rw [hscalar, toNat_eq_zero.mpr rfl, zero_nsmul, add_zero] at htotal
    refine ⟨s.r, Yields.of_eq fun _ => ?_, htotal ▸ hs.sum⟩
    simp only [mulStep, if_neg (not_not_intro hscalar)]
  · right
    obtain ⟨s', B', C', hstep, hinv, hs'⟩ := mulStep_spec hs hscalar
    refine ⟨s', Yields.of_eq fun _ => by rw [hstep], ⟨B', C', hinv⟩, ?_⟩
    have hpos : s.scalar.toNat ≠ 0 := fun h => hscalar (toNat_eq_zero.mp h)
    rw [hs', toNat_shr_one]
    omega

/-! ## The result -/

theorem projectiveIntoAffine_yields (X Y : Fp) {Z : Fp} (hZ : Z ≠ 0) :
    Yields (fun fuel => projectiveIntoAffine fuel (enc X) (enc Y) (enc Z))
      (enc (X * Z⁻¹), enc (Y * Z⁻¹)) := by
  have hz : enc Z ≠ 0 := mt enc_eq_zero.mp hZ
  simp only [projectiveIntoAffine, if_pos hz]
  refine (montgomeryModularInverse_enc hZ).bind ?_
  rw [← montgomeryMul_enc, ← montgomeryMul_enc]
  exact Yields.const _

/-- The end of the call, for any point including infinity. -/
theorem returnProjective_yields {A : g1.Point} {r : Word × Word × Word}
    (h : Represents A r) :
    Yields (fun fuel => returnProjective fuel r) (answer (some A)) := by
  obtain ⟨T, rfl, hT⟩ := h
  show Yields (fun fuel => returnProjective fuel (enc T.1, enc T.2.1, enc T.2.2)) _
  by_cases hZ : T.2.2 = 0
  · have hA : A = 0 := hT.eq_zero_iff.mpr hZ
    have hz : ¬enc T.2.2 ≠ 0 := not_not_intro (enc_eq_zero.mpr hZ)
    have hzero : outOfMontgomeryForm 0 = 0 := by
      have h := outOfMontgomeryForm_enc 0
      rw [enc_zero, toWord_zero] at h
      exact h
    simp only [returnProjective, projectiveIntoAffine, if_neg hz, Option.bind_eq_bind,
      Option.bind_some, hzero, hA, ← returnPoint_zero]
    exact Yields.const _
  · refine (projectiveIntoAffine_yields T.1 T.2.1 hZ).bind ?_
    rw [← returnPoint_outOfMontgomery (hT.coords hZ)]
    exact Yields.const _

theorem affinePointIsOnCurve_enc (x y : Fp) :
    affinePointIsOnCurve (enc x) (enc y) = boolWord (g1.OnCurve x y) := by
  simp only [affinePointIsOnCurve, MONTGOMERY_THREE_eq, montgomeryMul_enc,
    montgomeryAdd_enc, eq_enc]
  refine boolWord_congr ?_
  have h : x * x * x + 3 = x ^ 3 + g1.a * x + g1.b := by
    simp only [g1]
    ring
  rw [OnCurve, h, pow_two]

theorem notOnFieldOrder_iff (x y : Word) :
    iszero (affinePointCoordinatesAreOnFieldOrder x y) ≠ 0 ↔
      ¬(x.toNat < p ∧ y.toNat < p) := by
  rw [affinePointCoordinatesAreOnFieldOrder, coordinateIsOnFieldOrder,
    coordinateIsOnFieldOrder, lt, lt, and_boolWord, iszero_boolWord, boolWord_ne_zero,
    toNat_P]

/-- The call in the words that it reads: the shortcuts for small scalars, and the loop for the
others. -/
theorem fallback_yields {cd : Calldata} {x y scalar : Word} (hx : calldataload cd 0 = x)
    (hy : calldataload cd 32 = y) (hk : calldataload cd 64 = scalar) :
    Yields (fun fuel => fallback fuel cd) (answer (mulPoint x y scalar)) := by
  have hinfinity : affinePointIsInfinity x y ≠ 0 ↔ x = 0 ∧ y = 0 := by
    rw [affinePointIsInfinity, iszero, iszero, and_boolWord, boolWord_ne_zero]
  simp only [fallback, hx, hy, hk, notOnFieldOrder_iff, hinfinity, eq, boolWord_ne_zero]
  by_cases h0 : x = 0 ∧ y = 0
  · obtain ⟨rfl, rfl⟩ := h0
    have hlt : (0 : Word).toNat < p ∧ (0 : Word).toNat < p := by decide
    have hmul : mulPoint 0 0 scalar = some 0 := by
      rw [mulPoint, decodePoint_zero, Option.map_some, nsmul_zero]
    simp only [if_neg (not_not_intro hlt), returnPoint_zero, hmul]
    exact Yields.const _
  by_cases hlt : x.toNat < p ∧ y.toNat < p
  · have hcurve : iszero (affinePointIsOnCurve (intoMontgomeryForm x)
        (intoMontgomeryForm y)) ≠ 0 ↔ ¬g1.OnCurve x.toNat y.toNat := by
      rw [intoMontgomeryForm_eq, intoMontgomeryForm_eq, affinePointIsOnCurve_enc,
        iszero_boolWord, boolWord_ne_zero]
    simp only [if_neg (not_not_intro hlt), if_neg h0, hcurve]
    by_cases hvalid : g1.OnCurve x.toNat y.toNat
    · obtain ⟨A, hA, hxy⟩ := decodePoint_of_onCurve hlt.1 hlt.2 hvalid
      have hmul : mulPoint x y scalar = some (scalar.toNat • A) := by
        rw [mulPoint, hA, Option.map_some]
      have hrep : Represents A (projectiveFromAffine (intoMontgomeryForm x)
          (intoMontgomeryForm y)) := by
        refine ⟨(_, _, 1), ?_, Homogeneous.of_coords hxy⟩
        rw [projectiveFromAffine, intoMontgomeryForm_eq, intoMontgomeryForm_eq,
          MONTGOMERY_ONE_eq, encTriple]
      simp only [if_neg (not_not_intro hvalid), hmul]
      by_cases hk0 : scalar = 0
      · have hzero : scalar.toNat = 0 := toNat_eq_zero.mpr hk0
        simp only [if_pos hk0, hzero, zero_nsmul, returnPoint_zero]
        exact Yields.const _
      by_cases hk1 : scalar = 1
      · have hone : scalar.toNat = 1 := toNat_eq_one.mpr hk1
        simp only [if_neg hk0, if_pos hk1, hone, one_nsmul,
          returnPoint_of_decode hlt.1 hlt.2 hxy]
        exact Yields.const _
      by_cases hk2 : scalar = 2
      · have htwo : scalar.toNat = 2 := congrArg BitVec.toNat hk2
        simp only [if_neg hk0, if_neg hk1, if_pos hk2, htwo, two_nsmul]
        exact returnProjective_yields (represents_double hrep)
      · simp only [if_neg hk0, if_neg hk1, if_neg hk2]
        generalize projectiveFromAffine (intoMontgomeryForm x) (intoMontgomeryForm y) = T
          at hrep ⊢
        have hinit : MulInv (scalar.toNat • A) ⟨scalar, T, (0, MONTGOMERY_ONE, 0)⟩ A 0 := by
          refine ⟨hrep, ⟨(0, 1, 0), ?_, Homogeneous.zero⟩, hxy.ne_zero, zero_add _⟩
          rw [encTriple, enc_zero, MONTGOMERY_ONE_eq]
        obtain ⟨r, hr, hr'⟩ := mulLoop_yields hinit
        exact hr.bind (returnProjective_yields hr')
    · have hnone : mulPoint x y scalar = none := by
        rw [mulPoint, decodePoint_eq_none h0 fun h => hvalid h.2, Option.map_none]
      simp only [if_pos hvalid, hnone]
      exact Yields.const _
  · have hnone : mulPoint x y scalar = none := by
      rw [mulPoint, decodePoint_out_of_range h0 hlt, Option.map_none]
    simp only [if_pos hlt, hnone]
    exact Yields.const _

/-- On every calldata the call ends as the multiplication of an encoded point:
with the encoded multiple, or with all gas burned if the first two words encode
no point. -/
theorem ecMul_refines_mul (cd : Calldata) :
    Yields (fun fuel => fallback fuel cd)
      (answer (mulPoint (calldataload cd 0) (calldataload cd 32)
        (calldataload cd 64))) :=
  fallback_yields rfl rfl rfl

end EraPrecompiles.EcMul
