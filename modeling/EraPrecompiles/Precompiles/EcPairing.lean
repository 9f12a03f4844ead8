import EraPrecompiles.Pairing.MillerLoop
import EraPrecompiles.Pairing.Subgroup
import EraPrecompiles.Precompiles.EcAdd

/-!
# EcPairing

The precompile that checks a product of pairings.  The calldata is a sequence of pairs of
points, of 192 bytes each.  A loop over the pairs validates both points and multiplies the
pairings of those pairs that have no point at infinity; the answer is one if the product is
one.

`ecPairing_validation_exact` says which calldata burns all gas, and `ecPairing_result` what
the answer is for the others.
-/

namespace EraPrecompiles.EcPairing

open Bn254 Pairing ShortWeierstrass

/-! ## The program -/

def PAIR_LENGTH : Word := 0xc0

def coordinateIsOnFieldOrder (coordinate : Word) : Word :=
  lt coordinate P

def g1AffinePointIsInfinity (x y : Word) : Word :=
  iszero (or x y)

/-- The coordinates are in Montgomery form. -/
def g1AffinePointIsOnCurve (x y : Word) : Word :=
  let ySquared := montgomeryMul y y
  let xSquared := montgomeryMul x x
  let xQubed := montgomeryMul xSquared x
  let xQubedPlusThree := montgomeryAdd xQubed MONTGOMERY_THREE
  eq ySquared xQubedPlusThree

def pair (fuel : ℕ) (g1_x g1_y : Word) (g2_x g2_y : Word × Word) : Option Words12 := do
  let f ← millerLoop fuel g2_x g2_y g1_x g1_y
  finalExponentiation fuel f

/-- The tests of the second point and the product, for the words of the calldata.  The call
is ended, or the loop continues with the product that is returned. -/
def pairWords (fuel : ℕ) (r : Words12) (g1_x g1_y g1IsInfinity : Word)
    (g2_x g2_y : Word × Word) : Option (Except Halt Words12) :=
  if iszero (and (coordinateIsOnFieldOrder g2_x.1) (coordinateIsOnFieldOrder g2_x.2)) ≠ 0 then
    some (.error .burned)
  else if iszero (and (coordinateIsOnFieldOrder g2_y.1)
      (coordinateIsOnFieldOrder g2_y.2)) ≠ 0 then
    some (.error .burned)
  else if g2AffinePointIsInfinity g2_x g2_y ≠ 0 then
    some (.ok r)
  else do
    let g2_x := fp2IntoMontgomeryForm g2_x
    let g2_y := fp2IntoMontgomeryForm g2_y
    let inSubGroup ← g2IsInSubGroup fuel (g2_x, g2_y, (MONTGOMERY_ONE, 0))
    if iszero inSubGroup ≠ 0 then
      some (.error .burned)
    else if iszero (g2AffinePointIsOnCurve g2_x g2_y) ≠ 0 then
      some (.error .burned)
    else if g1IsInfinity ≠ 0 then
      some (.ok r)
    else do
      let f ← pair fuel g1_x g1_y g2_x g2_y
      return .ok (fp12Mul r f)

/-- The variables of the loop. -/
structure PairState where
  mem : Memory
  i : Word
  r : Words12

/-- One pair of points. -/
def pairRound (fuel : ℕ) (cd : Calldata) (s : PairState) :
    Option (Flow PairState (Except Halt (Memory × Words12))) :=
  let i := s.i
  let mem := calldatacopy s.mem cd i i 32
  let mem := calldatacopy mem cd (add i 32) (add i 32) 32
  let g1_x := mload mem i
  let g1_y := mload mem (add i 32)
  if iszero (and (coordinateIsOnFieldOrder g1_x) (coordinateIsOnFieldOrder g1_y)) ≠ 0 then
    some (.done (.error .burned))
  else
    let g1_x := intoMontgomeryForm g1_x
    let g1_y := intoMontgomeryForm g1_y
    let g1IsInfinity := g1AffinePointIsInfinity g1_x g1_y
    if and (iszero g1IsInfinity) (iszero (g1AffinePointIsOnCurve g1_x g1_y)) ≠ 0 then
      some (.done (.error .burned))
    else do
      let g2_x1_offset := add i 64
      let g2_x0_offset := add i 96
      let g2_y1_offset := add i 128
      let g2_y0_offset := add i 160
      let mem := calldatacopy mem cd g2_x1_offset g2_x1_offset 32
      let mem := calldatacopy mem cd g2_x0_offset g2_x0_offset 32
      let mem := calldatacopy mem cd g2_y1_offset g2_y1_offset 32
      let mem := calldatacopy mem cd g2_y0_offset g2_y0_offset 32
      let g2_x1 := mload mem g2_x1_offset
      let g2_x0 := mload mem g2_x0_offset
      let g2_y1 := mload mem g2_y1_offset
      let g2_y0 := mload mem g2_y0_offset
      let result ← pairWords fuel s.r g1_x g1_y g1IsInfinity (g2_x0, g2_x1) (g2_y0, g2_y1)
      match result with
      | .error halt => return .done (.error halt)
      | .ok r => return .next ⟨mem, add i PAIR_LENGTH, r⟩

/-- `mstore(0, result) return(0, 32)` -/
def returnResult (mem : Memory) (result : Word) : Halt :=
  returnMem (mstore mem 0 result) 0 32

/-- The comparison of the product with one. -/
def pairCheck (mem : Memory) (r : Words12) : Halt :=
  let (((r000, r001), (r010, r011), (r020, r021)), ((r100, r101), (r110, r111), (r120, r121))) :=
    r
  if and (eq r000 MONTGOMERY_ONE) (iszero (or r001 (or r010 r011))) ≠ 0 then
    if iszero (or (or r020 r021) (or r100 r101)) ≠ 0 then
      if iszero (or (or r110 r111) (or r120 r121)) ≠ 0 then
        returnResult mem 1
      else
        returnResult mem 0
    else
      returnResult mem 0
  else
    returnResult mem 0

def fallback (fuel : ℕ) (cd : Calldata) : Option Halt :=
  let inputSize := calldatasize cd
  if eq inputSize 0 ≠ 0 then
    some (returnResult Memory.zero 1)
  else if mod inputSize PAIR_LENGTH ≠ 0 then
    some .burned
  else do
    let result ← iterate
      (fun (s : PairState) =>
        if lt s.i inputSize ≠ 0 then pairRound fuel cd s else some (.done (.ok (s.mem, s.r))))
      fuel ⟨Memory.zero, 0, FP12_ONE⟩
    match result with
    | .error halt => return halt
    | .ok (mem, r) => return pairCheck mem r

/-! ## Valid calldata -/

/-- The words of one pair of points. -/
structure Chunk where
  g1_x : Word
  g1_y : Word
  g2_x : Word × Word
  g2_y : Word × Word

/-- The words from byte `192 * k` on; the imaginary parts come first. -/
def chunk (cd : Calldata) (k : ℕ) : Chunk where
  g1_x := calldataload cd (BitVec.ofNat 256 (192 * k))
  g1_y := calldataload cd (BitVec.ofNat 256 (192 * k + 32))
  g2_x := (calldataload cd (BitVec.ofNat 256 (192 * k + 96)),
    calldataload cd (BitVec.ofNat 256 (192 * k + 64)))
  g2_y := (calldataload cd (BitVec.ofNat 256 (192 * k + 160)),
    calldataload cd (BitVec.ofNat 256 (192 * k + 128)))

/-- Coordinates below `p`, of a point of the curve or both zero. -/
def ValidG1 (x y : Word) : Prop :=
  (x.toNat < p ∧ y.toNat < p) ∧ (x = 0 ∧ y = 0 ∨ g1.OnCurve x.toNat y.toNat)

/-- Coordinates below `p`, of a point of the twist that `r` kills or all zero. -/
def ValidG2 (x y : Word × Word) : Prop :=
  (InRange x ∧ InRange y) ∧
    (x = (0, 0) ∧ y = (0, 0) ∨
      ∃ Q : g2.Point, Coords Q (fp2OfWords x) (fp2OfWords y) ∧ r • Q = 0)

def ValidChunk (c : Chunk) : Prop :=
  ValidG1 c.g1_x c.g1_y ∧ ValidG2 c.g2_x c.g2_y

def ValidInput (cd : Calldata) : Prop :=
  192 ∣ cd.bytes.length ∧ ∀ k, 192 * k < cd.bytes.length → ValidChunk (chunk cd k)

/-- The words are the encodings of the points. -/
def ChunkEncodes (c : Chunk) (q : g1.Point × g2.Point) : Prop :=
  decodePoint c.g1_x c.g1_y = some q.1 ∧ decodeTwist c.g2_x c.g2_y = some q.2 ∧ r • q.2 = 0

/-- The calldata is the encoding of a list of pairs of points. -/
structure Encodes (cd : Calldata) (points : List (g1.Point × g2.Point)) : Prop where
  length : cd.bytes.length = 192 * points.length
  pair : ∀ k q, points[k]? = some q → ChunkEncodes (chunk cd k) q

open Classical in
/-- The product of the pairings of those pairs that have no point at infinity. -/
noncomputable def pairingProduct (points : List (g1.Point × g2.Point)) : Fp12 :=
  ((points.filter fun q => q.1 ≠ 0 ∧ q.2 ≠ 0).map fun q => optimalAte q.1 q.2).prod

/-! ## The tests -/

theorem coordinatesOnFieldOrder_iff (v w : Word) :
    iszero (and (coordinateIsOnFieldOrder v) (coordinateIsOnFieldOrder w)) ≠ 0 ↔
      ¬(v.toNat < p ∧ w.toNat < p) := by
  rw [coordinateIsOnFieldOrder, coordinateIsOnFieldOrder, lt, lt, and_boolWord, iszero_boolWord,
    boolWord_ne_zero, toNat_P]

theorem g1AffinePointIsInfinity_iff (x y : Word) :
    g1AffinePointIsInfinity x y ≠ 0 ↔ x = 0 ∧ y = 0 := by
  rw [g1AffinePointIsInfinity, iszero, boolWord_ne_zero, or_eq_zero]

theorem intoMontgomeryForm_eq_zero {x : Word} (hx : x.toNat < p) :
    intoMontgomeryForm x = 0 ↔ x = 0 := by
  rw [intoMontgomeryForm_eq, enc_eq_zero, ← toWord_inj, toWord_cast hx, toWord_zero]

theorem g1AffinePointIsOnCurve_iff (x y : Word) :
    g1AffinePointIsOnCurve (intoMontgomeryForm x) (intoMontgomeryForm y) ≠ 0 ↔
      g1.OnCurve x.toNat y.toNat := by
  have h : g1AffinePointIsOnCurve (intoMontgomeryForm x) (intoMontgomeryForm y) =
      EcAdd.pointIsInCurve (intoMontgomeryForm x) (intoMontgomeryForm y) := rfl
  rw [h, intoMontgomeryForm_eq, intoMontgomeryForm_eq, EcAdd.pointIsInCurve_enc,
    boolWord_ne_zero]

/-! ## The product -/

/-- The words are those of the product for the points so far: it is raised to a multiple of
the exponent. -/
def Accumulates (w : Words12) (points : List (g1.Point × g2.Point)) : Prop :=
  ∃ g, g ≠ 0 ∧ w = encFp12 (g ^ (finalCofactor * ateExponent)) ∧
    g ^ ateExponent = pairingProduct points

theorem pairingProduct_skip {points : List (g1.Point × g2.Point)} {q : g1.Point × g2.Point}
    (h : q.1 = 0 ∨ q.2 = 0) : pairingProduct (points ++ [q]) = pairingProduct points := by
  have hq : ¬(q.1 ≠ 0 ∧ q.2 ≠ 0) := by
    rintro ⟨h1, h2⟩
    exact h.elim h1 h2
  rw [pairingProduct, List.filter_append, List.filter_cons_of_neg (by rwa [decide_eq_true_eq]),
    List.filter_nil, List.append_nil, pairingProduct]

theorem pairingProduct_mul {points : List (g1.Point × g2.Point)} {q : g1.Point × g2.Point}
    (h1 : q.1 ≠ 0) (h2 : q.2 ≠ 0) :
    pairingProduct (points ++ [q]) = pairingProduct points * optimalAte q.1 q.2 := by
  have hq : q.1 ≠ 0 ∧ q.2 ≠ 0 := ⟨h1, h2⟩
  rw [pairingProduct, List.filter_append, List.filter_cons_of_pos (by rwa [decide_eq_true_eq]),
    List.filter_nil, List.map_append, List.prod_append, List.map_singleton, List.prod_singleton,
    pairingProduct]

namespace Accumulates

variable {w : Words12} {points : List (g1.Point × g2.Point)} {q : g1.Point × g2.Point}

theorem nil : Accumulates FP12_ONE [] := by
  refine ⟨1, one_ne_zero, ?_, ?_⟩
  · rw [one_pow, FP12_ONE_eq]
  · rw [one_pow]
    rfl

theorem skip (h : Accumulates w points) (hq : q.1 = 0 ∨ q.2 = 0) :
    Accumulates w (points ++ [q]) := by
  rw [Accumulates, pairingProduct_skip hq]
  exact h

theorem mul (h : Accumulates w points) (h1 : q.1 ≠ 0) (h2 : q.2 ≠ 0) {f : Fp12} (hf : f ≠ 0)
    (hq : f ^ ateExponent = optimalAte q.1 q.2) :
    Accumulates (fp12Mul w (encFp12 (f ^ (finalCofactor * ateExponent)))) (points ++ [q]) := by
  obtain ⟨g, hg, rfl, hprod⟩ := h
  refine ⟨g * f, mul_ne_zero hg hf, ?_, ?_⟩
  · rw [fp12Mul_enc, mul_pow]
  · rw [mul_pow, hprod, hq, pairingProduct_mul h1 h2]

end Accumulates

/-- The pairing of two finite points. -/
theorem pair_yields {P : g1.Point} {xP yP : Fp} (hP : Coords P xP yP) {Q : g2.Point}
    {xQ yQ : Fp2} (hQ : Coords Q xQ yQ) (hr : r • Q = 0) :
    ∃ f, f ≠ 0 ∧ f ^ ateExponent = optimalAte P Q ∧
      Yields (fun fuel => pair fuel (enc xP) (enc yP) (encFp2 xQ) (encFp2 yQ))
        (encFp12 (f ^ (finalCofactor * ateExponent))) := by
  obtain ⟨f, hloop, hf, hpow⟩ := millerLoop_yields hP hQ hr
  have hfinal := finalExponentiationWith_yields squares_fp12CyclotomicSquare hf
  rw [← ateExponent] at hfinal
  exact ⟨f, hf, hpow, hloop.bind hfinal⟩

/-! ## One pair -/

/-- The first point of a pair, as the loop has it: in Montgomery form, with the test for
infinity. -/
structure FirstPoint (P : g1.Point) (g1_x g1_y g1IsInfinity : Word) : Prop where
  infinity : g1IsInfinity ≠ 0 ↔ P = 0
  coords : P ≠ 0 → ∃ x y, Coords P x y ∧ g1_x = enc x ∧ g1_y = enc y

section Words

variable {w : Words12} {points : List (g1.Point × g2.Point)} {P : g1.Point}
  {g1_x g1_y g1IsInfinity : Word} {g2_x g2_y : Word × Word}

theorem notInRange_iff (v : Word × Word) :
    iszero (and (coordinateIsOnFieldOrder v.1) (coordinateIsOnFieldOrder v.2)) ≠ 0 ↔
      ¬InRange v :=
  coordinatesOnFieldOrder_iff v.1 v.2

theorem pairWords_out_of_range (h : ¬(InRange g2_x ∧ InRange g2_y)) (fuel : ℕ) :
    pairWords fuel w g1_x g1_y g1IsInfinity g2_x g2_y = some (.error .burned) := by
  rw [pairWords]
  by_cases hx : InRange g2_x
  · have hy : ¬InRange g2_y := fun hy => h ⟨hx, hy⟩
    rw [if_neg (mt (notInRange_iff g2_x).mp (not_not_intro hx)),
      if_pos ((notInRange_iff g2_y).mpr hy)]
  · rw [if_pos ((notInRange_iff g2_x).mpr hx)]

theorem pairWords_infinity (fuel : ℕ) :
    pairWords fuel w g1_x g1_y g1IsInfinity (0, 0) (0, 0) = some (.ok w) := by
  have hrange := mt (notInRange_iff (0, 0)).mp (not_not_intro inRange_zero)
  have hinf : g2AffinePointIsInfinity (0, 0) (0, 0) ≠ 0 := by decide
  rw [pairWords, if_neg hrange, if_neg hrange, if_pos hinf]

/-- What is left for a second point that is not infinity. -/
theorem pairWords_finite (hrange : InRange g2_x ∧ InRange g2_y)
    (h0 : ¬(g2_x = (0, 0) ∧ g2_y = (0, 0))) (fuel : ℕ) :
    pairWords fuel w g1_x g1_y g1IsInfinity g2_x g2_y =
      (g2IsInSubGroup fuel (fp2IntoMontgomeryForm g2_x, fp2IntoMontgomeryForm g2_y,
        (MONTGOMERY_ONE, 0)) >>= fun inSubGroup =>
          if iszero inSubGroup ≠ 0 then
            some (.error .burned)
          else if iszero (g2AffinePointIsOnCurve (fp2IntoMontgomeryForm g2_x)
              (fp2IntoMontgomeryForm g2_y)) ≠ 0 then
            some (.error .burned)
          else if g1IsInfinity ≠ 0 then
            some (.ok w)
          else
            pair fuel g1_x g1_y (fp2IntoMontgomeryForm g2_x) (fp2IntoMontgomeryForm g2_y) >>=
              fun f => some (.ok (fp12Mul w f))) := by
  have hinf : ¬g2AffinePointIsInfinity g2_x g2_y ≠ 0 := by
    rw [g2AffinePointIsInfinity_eq, boolWord_ne_zero]
    exact h0
  rw [pairWords, if_neg (mt (notInRange_iff g2_x).mp (not_not_intro hrange.1)),
    if_neg (mt (notInRange_iff g2_y).mp (not_not_intro hrange.2)), if_neg hinf]
  rfl

theorem pairWords_invalid (h : ¬ValidG2 g2_x g2_y) :
    Yields (fun fuel => pairWords fuel w g1_x g1_y g1IsInfinity g2_x g2_y)
      (.error .burned) := by
  by_cases hrange : InRange g2_x ∧ InRange g2_y
  swap
  · exact Yields.of_eq fun fuel => pairWords_out_of_range hrange fuel
  have h0 : ¬(g2_x = (0, 0) ∧ g2_y = (0, 0)) := fun h0 => h ⟨hrange, Or.inl h0⟩
  obtain ⟨ret, hret⟩ := g2IsInSubGroup_terminates
    (fp2IntoMontgomeryForm g2_x, fp2IntoMontgomeryForm g2_y, (MONTGOMERY_ONE, 0))
  refine (hret.bind ?_).congr fun fuel => pairWords_finite hrange h0 fuel
  by_cases hsub : iszero ret ≠ 0
  · simp only [if_pos hsub]
    exact Yields.const _
  by_cases hcurve : g2.OnCurve (fp2OfWords g2_x) (fp2OfWords g2_y)
  · obtain ⟨Q, -, hQ⟩ := decodeTwist_of_onCurve hrange.1 hrange.2 hcurve
    obtain ⟨ret', hret', hiff⟩ := g2IsInSubGroup_exact (representsTwist_affine hQ)
    rw [← fp2IntoMontgomeryForm_eq, ← fp2IntoMontgomeryForm_eq] at hret'
    have hne : ret ≠ 0 := by
      rw [iszero, boolWord_ne_zero] at hsub
      exact hsub
    rw [hret'.unique hret] at hiff
    exact absurd ⟨hrange, Or.inr ⟨Q, hQ, hiff.mp hne⟩⟩ h
  · simp only [if_neg hsub, if_pos ((notOnCurve_iff g2_x g2_y).mpr hcurve)]
    exact Yields.const _

theorem pairWords_valid (hw : Accumulates w points) (hP : FirstPoint P g1_x g1_y g1IsInfinity)
    (h : ValidG2 g2_x g2_y) :
    ∃ Q w', decodeTwist g2_x g2_y = some Q ∧ r • Q = 0 ∧
      Yields (fun fuel => pairWords fuel w g1_x g1_y g1IsInfinity g2_x g2_y) (.ok w') ∧
      Accumulates w' (points ++ [(P, Q)]) := by
  obtain ⟨hrange, ⟨rfl, rfl⟩ | ⟨Q, hQ, hr⟩⟩ := h
  · exact ⟨0, w, decodeTwist_zero, nsmul_zero r, Yields.of_eq pairWords_infinity,
      hw.skip (Or.inr rfl)⟩
  obtain ⟨Q', hdecode, hQ'⟩ := decodeTwist_of_onCurve hrange.1 hrange.2 hQ.onCurve
  obtain rfl := hQ'.point_unique hQ
  have h0 : ¬(g2_x = (0, 0) ∧ g2_y = (0, 0)) := by
    rintro ⟨rfl, rfl⟩
    exact hQ'.ne_zero (Option.some.inj (hdecode.symm.trans decodeTwist_zero))
  obtain ⟨ret, hret, hiff⟩ := g2IsInSubGroup_exact (representsTwist_affine hQ)
  have hcurve := mt (notOnCurve_iff g2_x g2_y).mp (not_not_intro hQ.onCurve)
  have hsub : ¬iszero ret ≠ 0 := by
    rw [iszero, boolWord_ne_zero]
    exact hiff.mpr hr
  rw [← fp2IntoMontgomeryForm_eq, ← fp2IntoMontgomeryForm_eq] at hret
  by_cases hP0 : P = 0
  · refine ⟨Q', w, hdecode, hr, ?_, hw.skip (Or.inl hP0)⟩
    refine (hret.bind ?_).congr fun fuel => pairWords_finite hrange h0 fuel
    simp only [if_neg hsub, if_neg hcurve, if_pos (hP.infinity.mpr hP0)]
    exact Yields.const _
  · obtain ⟨x, y, hxy, rfl, rfl⟩ := hP.coords hP0
    obtain ⟨f, hf, hpow, hpair⟩ := pair_yields hxy hQ hr
    rw [← fp2IntoMontgomeryForm_eq, ← fp2IntoMontgomeryForm_eq] at hpair
    refine ⟨Q', _, hdecode, hr, ?_, hw.mul hP0 hQ.ne_zero hf hpow⟩
    refine (hret.bind ?_).congr fun fuel => pairWords_finite hrange h0 fuel
    simp only [if_neg hsub, if_neg hcurve, if_neg (mt hP.infinity.mp hP0)]
    exact hpair.bind (Yields.const _)

end Words

/-- A round for the words of a pair. -/
def pairChunk (fuel : ℕ) (w : Words12) (c : Chunk) : Option (Except Halt Words12) :=
  let g1_x := intoMontgomeryForm c.g1_x
  let g1_y := intoMontgomeryForm c.g1_y
  let g1IsInfinity := g1AffinePointIsInfinity g1_x g1_y
  if iszero (and (coordinateIsOnFieldOrder c.g1_x) (coordinateIsOnFieldOrder c.g1_y)) ≠ 0 then
    some (.error .burned)
  else if and (iszero g1IsInfinity) (iszero (g1AffinePointIsOnCurve g1_x g1_y)) ≠ 0 then
    some (.error .burned)
  else
    pairWords fuel w g1_x g1_y g1IsInfinity c.g2_x c.g2_y

/-- The memory behind the four words of the second point. -/
def copySecond (mem : Memory) (cd : Calldata) (i : Word) : Memory :=
  calldatacopy (calldatacopy (calldatacopy (calldatacopy mem cd (add i 64) (add i 64) 32)
    cd (add i 96) (add i 96) 32) cd (add i 128) (add i 128) 32) cd (add i 160) (add i 160) 32

theorem mload_copySecond (mem : Memory) (cd : Calldata) (i : Word) :
    mload (copySecond mem cd i) (add i 64) = calldataload cd (add i 64) ∧
      mload (copySecond mem cd i) (add i 96) = calldataload cd (add i 96) ∧
      mload (copySecond mem cd i) (add i 128) = calldataload cd (add i 128) ∧
      mload (copySecond mem cd i) (add i 160) = calldataload cd (add i 160) := by
  refine ⟨Mirrors.mload_eq ?_, Mirrors.mload_eq ?_, Mirrors.mload_eq ?_, Mirrors.mload_eq ?_⟩
  · exact (((mirrors_calldatacopy cd mem _).copy _ _).copy _ _).copy _ _
  · exact ((mirrors_calldatacopy cd _ _).copy _ _).copy _ _
  · exact (mirrors_calldatacopy cd _ _).copy _ _
  · exact mirrors_calldatacopy cd _ _

theorem pairRound_eq (cd : Calldata) (s : PairState) {k : ℕ}
    (hi : s.i = BitVec.ofNat 256 (192 * k)) :
    ∃ mem', ∀ fuel, pairRound fuel cd s =
      (pairChunk fuel s.r (chunk cd k) >>= fun result =>
        match result with
        | .error halt => some (.done (.error halt))
        | .ok r => some (.next ⟨mem', add s.i PAIR_LENGTH, r⟩)) := by
  have hoffset (n : ℕ) : BitVec.ofNat 256 (192 * k + n) = add s.i (BitVec.ofNat 256 n) := by
    rw [hi, BitVec.ofNat_add, add]
  have hchunk : chunk cd k =
      ⟨calldataload cd s.i, calldataload cd (add s.i 32),
        (calldataload cd (add s.i 96), calldataload cd (add s.i 64)),
        (calldataload cd (add s.i 160), calldataload cd (add s.i 128))⟩ := by
    rw [chunk, hoffset, hoffset, hoffset, hoffset, hoffset, ← hi]
    rfl
  obtain ⟨mem, hmem⟩ : ∃ mem, mem = calldatacopy (calldatacopy s.mem cd s.i s.i 32) cd
      (add s.i 32) (add s.i 32) 32 := ⟨_, rfl⟩
  have hx : mload mem s.i = calldataload cd s.i := by
    rw [hmem]
    exact ((mirrors_calldatacopy cd _ _).copy _ _).mload_eq
  have hy : mload mem (add s.i 32) = calldataload cd (add s.i 32) := by
    rw [hmem]
    exact (mirrors_calldatacopy cd _ _).mload_eq
  obtain ⟨h64, h96, h128, h160⟩ := mload_copySecond mem cd s.i
  refine ⟨copySecond mem cd s.i, fun fuel => ?_⟩
  rw [copySecond] at h64 h96 h128 h160
  simp only [pairRound, pairChunk, hchunk, ← hmem, hx, hy, h64, h96, h128, h160, copySecond]
  split
  · rfl
  split
  · rfl
  · rfl

section Chunks

variable {c : Chunk}

theorem firstPointRejected_iff (hrange : c.g1_x.toNat < p ∧ c.g1_y.toNat < p) :
    and (iszero (g1AffinePointIsInfinity (intoMontgomeryForm c.g1_x)
        (intoMontgomeryForm c.g1_y)))
      (iszero (g1AffinePointIsOnCurve (intoMontgomeryForm c.g1_x)
        (intoMontgomeryForm c.g1_y))) ≠ 0 ↔
      ¬ValidG1 c.g1_x c.g1_y := by
  rw [iszero, iszero, and_boolWord, boolWord_ne_zero, ← not_ne_iff, ← not_ne_iff,
    g1AffinePointIsInfinity_iff, g1AffinePointIsOnCurve_iff, intoMontgomeryForm_eq_zero hrange.1,
    intoMontgomeryForm_eq_zero hrange.2, ← not_or, ValidG1, and_iff_right hrange]

theorem firstPoint_of_valid (h : ValidG1 c.g1_x c.g1_y) :
    ∃ P, decodePoint c.g1_x c.g1_y = some P ∧
      FirstPoint P (intoMontgomeryForm c.g1_x) (intoMontgomeryForm c.g1_y)
        (g1AffinePointIsInfinity (intoMontgomeryForm c.g1_x) (intoMontgomeryForm c.g1_y)) := by
  have hinf := g1AffinePointIsInfinity_iff (intoMontgomeryForm c.g1_x)
    (intoMontgomeryForm c.g1_y)
  rw [intoMontgomeryForm_eq_zero h.1.1, intoMontgomeryForm_eq_zero h.1.2] at hinf
  rcases h.2 with h0 | hcurve
  · refine ⟨0, ?_, iff_of_true (hinf.mpr h0) rfl, fun hne => absurd rfl hne⟩
    rw [h0.1, h0.2]
    exact decodePoint_zero
  · obtain ⟨P, hdecode, hP⟩ := decodePoint_of_onCurve h.1.1 h.1.2 hcurve
    refine ⟨P, hdecode, iff_of_false (fun hne => ?_) hP.ne_zero, fun _ => ⟨_, _, hP, ?_, ?_⟩⟩
    · obtain ⟨hx, hy⟩ := hinf.mp hne
      rw [hx, hy] at hdecode
      exact hP.ne_zero (Option.some.inj (hdecode.symm.trans decodePoint_zero))
    · exact intoMontgomeryForm_eq _
    · exact intoMontgomeryForm_eq _

theorem pairChunk_invalid {w : Words12} (h : ¬ValidChunk c) :
    Yields (fun fuel => pairChunk fuel w c) (.error .burned) := by
  by_cases hrange : c.g1_x.toNat < p ∧ c.g1_y.toNat < p
  swap
  · simp only [pairChunk, if_pos ((coordinatesOnFieldOrder_iff c.g1_x c.g1_y).mpr hrange)]
    exact Yields.const _
  simp only [pairChunk,
    if_neg (mt (coordinatesOnFieldOrder_iff c.g1_x c.g1_y).mp (not_not_intro hrange))]
  by_cases hg1 : ValidG1 c.g1_x c.g1_y
  · simp only [if_neg (mt (firstPointRejected_iff hrange).mp (not_not_intro hg1))]
    exact pairWords_invalid fun hg2 => h ⟨hg1, hg2⟩
  · simp only [if_pos ((firstPointRejected_iff hrange).mpr hg1)]
    exact Yields.const _

theorem pairChunk_valid {w : Words12} {points : List (g1.Point × g2.Point)}
    (hw : Accumulates w points) (h : ValidChunk c) :
    ∃ q w', ChunkEncodes c q ∧ Yields (fun fuel => pairChunk fuel w c) (.ok w') ∧
      Accumulates w' (points ++ [q]) := by
  obtain ⟨P, hdecode, hP⟩ := firstPoint_of_valid h.1
  obtain ⟨Q, w', hdecode', hr, hyields, hw'⟩ := pairWords_valid hw hP h.2
  refine ⟨(P, Q), w', ⟨hdecode, hdecode', hr⟩, ?_, hw'⟩
  simp only [pairChunk,
    if_neg (mt (coordinatesOnFieldOrder_iff c.g1_x c.g1_y).mp (not_not_intro h.1.1)),
    if_neg (mt (firstPointRejected_iff h.1.1).mp (not_not_intro h.1))]
  exact hyields

theorem ChunkEncodes.valid {q : g1.Point × g2.Point} (h : ChunkEncodes c q) : ValidChunk c := by
  obtain ⟨h1, h2, hr⟩ := h
  constructor
  · by_contra hnot
    have h0 : ¬(c.g1_x = 0 ∧ c.g1_y = 0) := by
      rintro ⟨hx, hy⟩
      refine hnot ⟨?_, Or.inl ⟨hx, hy⟩⟩
      rw [hx, hy]
      decide
    have hnone := decodePoint_eq_none h0 fun hon => hnot ⟨hon.1, Or.inr hon.2⟩
    rw [hnone] at h1
    cases h1
  · by_contra hnot
    have h0 : ¬(c.g2_x = (0, 0) ∧ c.g2_y = (0, 0)) := by
      rintro ⟨hx, hy⟩
      refine hnot ⟨?_, Or.inl ⟨hx, hy⟩⟩
      rw [hx, hy]
      exact ⟨inRange_zero, inRange_zero⟩
    have hnone : decodeTwist c.g2_x c.g2_y = none := by
      refine decodeTwist_eq_none h0 fun hon => ?_
      obtain ⟨Q, hdecode, hQ⟩ := decodeTwist_of_onCurve hon.1.1 hon.1.2 hon.2
      obtain rfl := Option.some.inj (hdecode.symm.trans h2)
      exact hnot ⟨hon.1, Or.inr ⟨_, hQ, hr⟩⟩
    rw [hnone] at h2
    cases h2

end Chunks

theorem Encodes.valid {cd : Calldata} {points : List (g1.Point × g2.Point)}
    (h : Encodes cd points) : ValidInput cd := by
  refine ⟨⟨_, h.length⟩, fun k hk => ?_⟩
  rw [h.length] at hk
  have hlt : k < points.length := by omega
  exact (h.pair k _ (List.getElem?_eq_getElem hlt)).valid

/-! ## The loop -/

/-- The pairs before the current one are valid, and the product is that of their points. -/
structure PairInv (cd : Calldata) (points : List (g1.Point × g2.Point)) (s : PairState) :
    Prop where
  index : s.i.toNat = 192 * points.length
  inside : 192 * points.length ≤ cd.bytes.length
  pair : ∀ k q, points[k]? = some q → ChunkEncodes (chunk cd k) q
  product : Accumulates s.r points

section Loop

variable {cd : Calldata}

theorem pairInv_step {points : List (g1.Point × g2.Point)} {q : g1.Point × g2.Point}
    {s : PairState} {w : Words12} (mem : Memory) (hI : PairInv cd points s)
    (hlt : 192 * (points.length + 1) ≤ cd.bytes.length)
    (hq : ChunkEncodes (chunk cd points.length) q) (hw : Accumulates w (points ++ [q])) :
    PairInv cd (points ++ [q]) ⟨mem, add s.i PAIR_LENGTH, w⟩ := by
  have hlength : (points ++ [q]).length = points.length + 1 := by
    rw [List.length_append, List.length_singleton]
  have hpair : PAIR_LENGTH.toNat = 192 := rfl
  have hcd := cd.length_lt
  refine ⟨?_, ?_, fun k q' hk => ?_, hw⟩
  · rw [hlength]
    have hindex := hI.index
    rw [toNat_add_of_lt (by omega), hpair]
    omega
  · rw [hlength]
    exact hlt
  · rcases Nat.lt_trichotomy k points.length with h | h | h
    · rw [List.getElem?_append_left h] at hk
      exact hI.pair k q' hk
    · rw [h, List.getElem?_concat_length] at hk
      rw [h, ← Option.some.inj hk]
      exact hq
    · rw [List.getElem?_eq_none (by omega)] at hk
      cases hk

/-- The loop ends: with the product for the points, or with the end of the call if the
calldata is not valid. -/
theorem pairLoop_yields (hdvd : 192 ∣ cd.bytes.length) :
    ∃ result, Yields (fun fuel => iterate
        (fun (s : PairState) =>
          if lt s.i (calldatasize cd) ≠ 0 then
            pairRound fuel cd s
          else
            some (.done (.ok (s.mem, s.r))))
        fuel ⟨Memory.zero, 0, FP12_ONE⟩) result ∧
      ((∃ points mem w, Encodes cd points ∧ Accumulates w points ∧ result = .ok (mem, w)) ∨
        ¬ValidInput cd ∧ result = .error .burned) := by
  refine iterate_yields
    (fun fuel (s : PairState) =>
      if lt s.i (calldatasize cd) ≠ 0 then
        pairRound fuel cd s
      else
        some (.done (.ok (s.mem, s.r))))
    (fun s => ∃ points, PairInv cd points s) _ (fun s => cd.bytes.length - s.i.toNat) ?_ _ ?_
  · rintro s ⟨points, hI⟩
    have htest : lt s.i (calldatasize cd) ≠ 0 ↔ 192 * points.length < cd.bytes.length := by
      rw [lt_ne_zero, toNat_calldatasize, hI.index]
    by_cases hlt : 192 * points.length < cd.bytes.length
    · simp only [if_pos (htest.mpr hlt)]
      have hi : s.i = BitVec.ofNat 256 (192 * points.length) :=
        word_ext (hI.index.trans (toNat_ofNat_of_lt (hlt.trans cd.length_lt)).symm)
      obtain ⟨mem', hround⟩ := pairRound_eq cd s hi
      simp only [hround]
      by_cases hvalid : ValidChunk (chunk cd points.length)
      · obtain ⟨q, w, hq, hchunk, hw⟩ := pairChunk_valid hI.product hvalid
        have hnext := pairInv_step mem' hI (by omega) hq hw
        refine Or.inr ⟨_, hchunk.bind (Yields.const _), ⟨_, hnext⟩, ?_⟩
        rw [hnext.index, hI.index, List.length_append, List.length_singleton]
        omega
      · refine Or.inl ⟨_, (pairChunk_invalid hvalid).bind (Yields.const _), Or.inr ⟨?_, rfl⟩⟩
        exact fun hinput => hvalid (hinput.2 _ hlt)
    · simp only [if_neg (mt htest.mp hlt)]
      left
      refine ⟨_, Yields.const _, Or.inl ⟨points, s.mem, s.r, ⟨?_, hI.pair⟩, hI.product, rfl⟩⟩
      have hinside := hI.inside
      omega
  · refine ⟨[], rfl, Nat.zero_le _, fun k q hk => ?_, Accumulates.nil⟩
    rw [List.getElem?_nil] at hk
    cases hk

end Loop

/-! ## The answer -/

theorem returnResult_eq (mem : Memory) (w : Word) :
    returnResult mem w = .returned (wordBytes w) := by
  have h := returnMem_storeWords [w] mem (by simp)
  rw [List.flatMap_singleton] at h
  exact h

theorem pairCheck_eq (mem : Memory) (w : Words12) :
    pairCheck mem w = .returned (wordBytes (if w = FP12_ONE then 1 else 0)) := by
  obtain ⟨⟨⟨r000, r001⟩, ⟨r010, r011⟩, r020, r021⟩, ⟨r100, r101⟩, ⟨r110, r111⟩, r120, r121⟩ := w
  have h1 : and (eq r000 MONTGOMERY_ONE) (iszero (or r001 (or r010 r011))) ≠ 0 ↔
      r000 = MONTGOMERY_ONE ∧ r001 = 0 ∧ r010 = 0 ∧ r011 = 0 := by
    rw [eq, iszero, and_boolWord, boolWord_ne_zero, or_eq_zero, or_eq_zero]
  have h2 (a b c d : Word) : iszero (or (or a b) (or c d)) ≠ 0 ↔
      (a = 0 ∧ b = 0) ∧ c = 0 ∧ d = 0 := by
    rw [iszero, boolWord_ne_zero, or_eq_zero, or_eq_zero, or_eq_zero]
  have hone : ((((r000, r001), (r010, r011), (r020, r021)),
      ((r100, r101), (r110, r111), (r120, r121))) : Words12) = FP12_ONE ↔
        (r000 = MONTGOMERY_ONE ∧ r001 = 0 ∧ r010 = 0 ∧ r011 = 0) ∧
          ((r020 = 0 ∧ r021 = 0) ∧ r100 = 0 ∧ r101 = 0) ∧
            (r110 = 0 ∧ r111 = 0) ∧ r120 = 0 ∧ r121 = 0 := by
    simp only [FP12_ONE, Prod.mk.injEq, and_assoc]
  simp only [pairCheck, returnResult_eq]
  by_cases ha : and (eq r000 MONTGOMERY_ONE) (iszero (or r001 (or r010 r011))) ≠ 0
  swap
  · rw [if_neg ha, if_neg fun h => ha (h1.mpr (hone.mp h).1)]
  by_cases hb : iszero (or (or r020 r021) (or r100 r101)) ≠ 0
  swap
  · rw [if_pos ha, if_neg hb, if_neg fun h => hb ((h2 _ _ _ _).mpr (hone.mp h).2.1)]
  by_cases hc : iszero (or (or r110 r111) (or r120 r121)) ≠ 0
  · rw [if_pos ha, if_pos hb, if_pos hc,
      if_pos (hone.mpr ⟨h1.mp ha, (h2 _ _ _ _).mp hb, (h2 _ _ _ _).mp hc⟩)]
  · rw [if_pos ha, if_pos hb, if_neg hc,
      if_neg fun h => hc ((h2 _ _ _ _).mpr (hone.mp h).2.2)]

theorem Accumulates.eq_one_iff {w : Words12} {points : List (g1.Point × g2.Point)}
    (h : Accumulates w points) : w = FP12_ONE ↔ pairingProduct points = 1 := by
  obtain ⟨g, hg, rfl, hprod⟩ := h
  rw [FP12_ONE_eq, encFp12_inj, ← hprod]
  exact pow_finalCofactor_eq_one_iff hg

open Classical in
/-- The call ends: with the answer for the points, or with all gas burned if the calldata is not
valid. -/
theorem fallback_yields (cd : Calldata) :
    ∃ halt, Yields (fun fuel => fallback fuel cd) halt ∧
      ((∃ points, Encodes cd points ∧
          halt = .returned (wordBytes (if pairingProduct points = 1 then 1 else 0))) ∨
        ¬ValidInput cd ∧ halt = .burned) := by
  have hempty : eq (calldatasize cd) 0 ≠ 0 ↔ cd.bytes.length = 0 := by
    rw [eq, boolWord_ne_zero, ← toNat_eq_zero, toNat_calldatasize]
  have hmod : mod (calldatasize cd) PAIR_LENGTH ≠ 0 ↔ ¬192 ∣ cd.bytes.length := by
    have hpair : PAIR_LENGTH.toNat = 192 := rfl
    rw [ne_eq, ← toNat_eq_zero, toNat_mod _ (by decide), toNat_calldatasize, hpair,
      Nat.dvd_iff_mod_eq_zero]
  by_cases h0 : cd.bytes.length = 0
  · simp only [fallback, if_pos (hempty.mpr h0), returnResult_eq]
    refine ⟨_, Yields.const _, Or.inl ⟨[], ⟨h0, fun k q hk => ?_⟩, ?_⟩⟩
    · rw [List.getElem?_nil] at hk
      cases hk
    · have hprod : pairingProduct [] = 1 := rfl
      rw [if_pos hprod]
  by_cases hdvd : 192 ∣ cd.bytes.length
  swap
  · simp only [fallback, if_neg (mt hempty.mp h0), if_pos (hmod.mpr hdvd)]
    exact ⟨_, Yields.const _, Or.inr ⟨fun h => hdvd h.1, rfl⟩⟩
  simp only [fallback, if_neg (mt hempty.mp h0), if_neg (mt hmod.mp (not_not_intro hdvd))]
  obtain ⟨result, hloop, ⟨points, mem, w, hpoints, hw, rfl⟩ | ⟨hinvalid, rfl⟩⟩ :=
    pairLoop_yields hdvd
  · refine ⟨_, hloop.bind (Yields.const _), Or.inl ⟨points, hpoints, ?_⟩⟩
    rw [pairCheck_eq, if_congr hw.eq_one_iff rfl rfl]
  · exact ⟨_, hloop.bind (Yields.const _), Or.inr ⟨hinvalid, rfl⟩⟩

open Classical in
/-- For valid calldata the answer is one if and only if the product of the pairings is one. -/
theorem ecPairing_result (cd : Calldata) (hvalid : ValidInput cd) :
    ∃ points, Encodes cd points ∧
      Yields (fun fuel => fallback fuel cd)
        (.returned (wordBytes (if pairingProduct points = 1 then 1 else 0))) := by
  obtain ⟨halt, hyields, ⟨points, hpoints, rfl⟩ | ⟨hinvalid, -⟩⟩ := fallback_yields cd
  · exact ⟨points, hpoints, hyields⟩
  · exact absurd hvalid hinvalid

/-- The generators of both groups. -/
def generatorInput : Calldata where
  bytes := [1, 2, (fp2Words twistGeneratorX).2, (fp2Words twistGeneratorX).1,
    (fp2Words twistGeneratorY).2, (fp2Words twistGeneratorY).1].flatMap wordBytes
  length_lt := by decide +kernel

theorem generatorInput_words :
    generatorInput.bytes.length = 192 ∧
      (chunk generatorInput 0).g1_x = 1 ∧ (chunk generatorInput 0).g1_y = 2 ∧
      (chunk generatorInput 0).g2_x = fp2Words twistGeneratorX ∧
      (chunk generatorInput 0).g2_y = fp2Words twistGeneratorY := by
  decide +kernel

theorem generatorInput_valid : ValidInput generatorInput := by
  obtain ⟨hlength, hx1, hy1, hx, hy⟩ := generatorInput_words
  have hX : fp2OfWords (fp2Words twistGeneratorX) = twistGeneratorX := by decide
  have hY : fp2OfWords (fp2Words twistGeneratorY) = twistGeneratorY := by decide
  refine ⟨⟨1, hlength⟩, fun k hk => ?_⟩
  obtain rfl : k = 0 := by omega
  constructor
  · rw [hx1, hy1]
    exact ⟨by decide, Or.inr (by decide)⟩
  · rw [hx, hy]
    refine ⟨by decide, Or.inr ⟨twistGenerator, ?_, nsmul_twistGenerator⟩⟩
    rw [hX, hY]
    exact coords_twistGenerator

open Classical in
theorem ecPairing_result_generators :
    ∃ points, Encodes generatorInput points ∧
      Yields (fun fuel => fallback fuel generatorInput)
        (.returned (wordBytes (if pairingProduct points = 1 then 1 else 0))) :=
  ecPairing_result generatorInput generatorInput_valid

/-- All gas is burned if and only if the calldata is not valid; otherwise zero or one is
returned.  The subgroup test is exact on all points of the twist. -/
theorem ecPairing_validation_exact :
    (∀ cd : Calldata, ∃ halt, Yields (fun fuel => fallback fuel cd) halt ∧
      (halt = .burned ↔ ¬ValidInput cd) ∧
      (halt ≠ .burned → halt = .returned (wordBytes 0) ∨ halt = .returned (wordBytes 1))) ∧
    ∀ (Q : g2.Point) (V : (Word × Word) × (Word × Word) × (Word × Word)), RepresentsTwist Q V →
      ∃ ret, Yields (fun fuel => g2IsInSubGroup fuel V) ret ∧ (ret ≠ 0 ↔ r • Q = 0) := by
  refine ⟨fun cd => ?_, fun Q V hV => g2IsInSubGroup_exact hV⟩
  obtain ⟨halt, hyields, ⟨points, hpoints, rfl⟩ | ⟨hinvalid, rfl⟩⟩ := fallback_yields cd
  · refine ⟨_, hyields, iff_of_false Halt.noConfusion (not_not_intro hpoints.valid), fun _ => ?_⟩
    split
    · exact Or.inr rfl
    · exact Or.inl rfl
  · exact ⟨_, hyields, iff_of_true rfl hinvalid, fun h => absurd rfl h⟩

end EraPrecompiles.EcPairing
