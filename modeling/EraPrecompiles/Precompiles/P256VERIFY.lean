import EraPrecompiles.Arith.Primes
import EraPrecompiles.Ecdsa.Verify

/-!
# P256VERIFY

The precompile that verifies a signature over the curve P-256.  Its reduction keeps
both carries and subtracts the modulus once at the end, and its addition takes the
chord formula for opposite points too, whose third coordinate is then zero.

A combination at infinity is answered before the inversion, so on every calldata
the call ends with the verdict on the signature: `p256Verify_decides`.
-/

namespace EraPrecompiles.P256VERIFY

open Ecdsa P256 ShortWeierstrass

/-! ## The program -/

def P : Word :=
  0xffffffff00000001000000000000000000000000ffffffffffffffffffffffff

def N : Word :=
  0xffffffff00000000ffffffffffffffffbce6faada7179e84f3b9cac2fc632551

def MONTGOMERY_ONE_P : Word :=
  26959946660873538059280334323183841250350249843923952699046031785985

def MONTGOMERY_A_P : Word :=
  115792089129476408780076832771566570560534619664239564663761773211729002495996

def MONTGOMERY_B_P : Word :=
  99593677540221402957765480916910020772520766868399186769503856397241456836063

def MONTGOMERY_PROJECTIVE_G_P : Word × Word × Word :=
  (0x18905F76A53755C679FB732B7762251075BA95FC5FEDB60179E730D418A9143C,
    0x8571FF1825885D85D2E88688DD21F3258B4AB8E4BA19E45CDDF25357CE95560A,
    MONTGOMERY_ONE_P)

def R2_MOD_P : Word :=
  134799733323198995502561713907086292154532538166959272814710328655875

def R2_MOD_N : Word :=
  46533765739406314298121036767150998762426774378559716911348521029833835802274

/-- `P' * P = -1` modulo `2^256`. -/
def P_PRIME : Word :=
  115792089210356248768974548684794254293921932838497980611635986753331132366849

/-- `N' * N = -1` modulo `2^256`. -/
def N_PRIME : Word :=
  43790243024438006127650828685417305984841428635278707415088219106730833919055

def REDC (TLo THi n nPrime : Word) : Word :=
  let m := mul TLo nPrime
  let (tHi, tHiOverflowed1) := overflowingAdd THi (mulHigh m n)
  let aLoOverflowed := (overflowingAdd TLo (mul m n)).2
  let (tHi, tHiOverflowed2) :=
    if aLoOverflowed ≠ 0 then overflowingAdd tHi 1 else (tHi, 0)
  if or (or tHiOverflowed1 tHiOverflowed2) (iszero (lt tHi n)) ≠ 0 then sub tHi n else tHi

def intoMontgomeryForm (a n nPrime r2 : Word) : Word :=
  Ecdsa.intoMontgomeryForm REDC a n nPrime r2

def outOfMontgomeryForm (m n nPrime : Word) : Word :=
  Ecdsa.outOfMontgomeryForm REDC m n nPrime

def montgomeryMul (multiplicand multiplier n nPrime : Word) : Word :=
  Ecdsa.montgomeryMul REDC multiplicand multiplier n nPrime

def fieldElementIsOnFieldOrder (felt : Word) : Word :=
  lt felt P

def fieldElementIsOnSubgroupOrder (felt : Word) : Word :=
  lt felt N

def affinePointCoordinatesAreOnFieldOrder (xp yp : Word) : Word :=
  and (fieldElementIsOnFieldOrder xp) (fieldElementIsOnFieldOrder yp)

def affinePointIsInfinity (xp yp : Word) : Word :=
  iszero (or xp yp)

def affinePointIsOnCurve (xp yp : Word) : Word :=
  let left := montgomeryMul yp yp P P_PRIME
  let right := montgomeryAdd
    (montgomeryMul xp (montgomeryMul xp xp P P_PRIME) P P_PRIME)
    (montgomeryAdd (montgomeryMul MONTGOMERY_A_P xp P P_PRIME) MONTGOMERY_B_P P) P
  eq left right

def projectiveFromAffine (xp yp : Word) : Word × Word × Word :=
  (xp, yp, MONTGOMERY_ONE_P)

def projectivePointIsInfinity (_xp _yp zp : Word) : Word :=
  iszero zp

def projectiveDouble (p : Word × Word × Word) : Word × Word × Word :=
  let (xp, yp, zp) := p
  let x_squared := montgomeryMul xp xp P P_PRIME
  let z_squared := montgomeryMul zp zp P P_PRIME
  let az_squared := montgomeryMul MONTGOMERY_A_P z_squared P P_PRIME
  let t := montgomeryAdd
    (montgomeryAdd x_squared (montgomeryAdd x_squared x_squared P) P) az_squared P
  let yz := montgomeryMul yp zp P P_PRIME
  let u := montgomeryAdd yz yz P
  let uxy := montgomeryMul u (montgomeryMul xp yp P P_PRIME) P P_PRIME
  let v := montgomeryAdd uxy uxy P
  let w := montgomerySub (montgomeryMul t t P P_PRIME) (montgomeryAdd v v P) P
  let xr := montgomeryMul u w P P_PRIME
  let uy := montgomeryMul u yp P P_PRIME
  let uy_squared := montgomeryMul uy uy P P_PRIME
  let yr := montgomerySub (montgomeryMul t (montgomerySub v w P) P P_PRIME)
    (montgomeryAdd uy_squared uy_squared P) P
  let zr := montgomeryMul u (montgomeryMul u u P P_PRIME) P P_PRIME
  (xr, yr, zr)

def projectiveAdd (p q : Word × Word × Word) : Word × Word × Word :=
  let (xp, yp, zp) := p
  let (xq, yq, zq) := q
  let qIsInfinity := projectivePointIsInfinity xq yq zq
  let pIsInfinity := projectivePointIsInfinity xp yp zp
  if pIsInfinity ≠ 0 then
    (xq, yq, zq)
  else if qIsInfinity ≠ 0 then
    (xp, yp, zp)
  else
    let t0 := montgomeryMul yp zq P P_PRIME
    let t1 := montgomeryMul yq zp P P_PRIME
    let t := montgomerySub t0 t1 P
    let u0 := montgomeryMul xp zq P P_PRIME
    let u1 := montgomeryMul xq zp P P_PRIME
    let u := montgomerySub u0 u1 P
    if iszero (or t u) ≠ 0 then
      projectiveDouble (xp, yp, zp)
    else
      let u2 := montgomeryMul u u P P_PRIME
      let u3 := montgomeryMul u2 u P P_PRIME
      let v := montgomeryMul zp zq P P_PRIME
      let w := montgomerySub (montgomeryMul (montgomeryMul t t P P_PRIME) v P P_PRIME)
        (montgomeryMul u2 (montgomeryAdd u0 u1 P) P P_PRIME) P
      let xr := montgomeryMul u w P P_PRIME
      let yr := montgomerySub
        (montgomeryMul t (montgomerySub (montgomeryMul u0 u2 P P_PRIME) w P) P P_PRIME)
        (montgomeryMul t0 u3 P P_PRIME) P
      let zr := montgomeryMul u3 v P P_PRIME
      (xr, yr, zr)

def shamirLinearCombination (fuel : ℕ) (q : Word × Word × Word) (t0 t1 : Word) :
    Option (Word × Word × Word) :=
  Ecdsa.shamirLinearCombination projectiveDouble projectiveAdd MONTGOMERY_PROJECTIVE_G_P
    fuel q t0 t1

/-- The program after the operands are loaded. -/
def verifyWords (fuel : ℕ) (hash r s x y : Word) : Option Halt :=
  if or (or (iszero r) (iszero (fieldElementIsOnSubgroupOrder r)))
      (or (iszero s) (iszero (fieldElementIsOnSubgroupOrder s))) ≠ 0 then
    some .burned
  else if or (affinePointIsInfinity x y)
      (iszero (affinePointCoordinatesAreOnFieldOrder x y)) ≠ 0 then
    some .burned
  else
    let x := intoMontgomeryForm x P P_PRIME R2_MOD_P
    let y := intoMontgomeryForm y P P_PRIME R2_MOD_P
    if iszero (affinePointIsOnCurve x y) ≠ 0 then
      some .burned
    else do
      let q := projectiveFromAffine x y
      let hash := intoMontgomeryForm hash N N_PRIME R2_MOD_N
      let rTmp := r
      let r := intoMontgomeryForm r N N_PRIME R2_MOD_N
      let s := intoMontgomeryForm s N N_PRIME R2_MOD_N
      let s1 ← montgomeryModularInverse fuel s N R2_MOD_N
      let t0 := outOfMontgomeryForm (montgomeryMul hash s1 N N_PRIME) N N_PRIME
      let t1 := outOfMontgomeryForm (montgomeryMul r s1 N N_PRIME) N N_PRIME
      let (xr, _, zr) ← shamirLinearCombination fuel q t0 t1
      if iszero zr ≠ 0 then
        some (returnWord 0)
      else do
        let z_inv ← montgomeryModularInverse fuel zr P R2_MOD_P
        let xr := montgomeryMul xr z_inv P P_PRIME
        let xr := outOfMontgomeryForm xr P P_PRIME
        let xr := mod xr N
        some (returnWord (eq xr rTmp))

def fallback (fuel : ℕ) (cd : Calldata) : Option Halt :=
  let hash := calldataload cd 0
  let r := calldataload cd 32
  let s := calldataload cd 64
  let x := calldataload cd 96
  let y := calldataload cd 128
  verifyWords fuel hash r s x y

/-! ## The curve -/

def curve : ShortWeierstrass (ZMod p) where
  a := (-3 : ℤ)
  b := 41058363725152142129326129780047268409114441015993725554835256314039467401291
  disc_ne_zero := by decide +kernel

theorem generator_onCurve :
    curve.OnCurve
      48439561293906451759052585252797914202762949526041747995844080717082404635286
      36134250956749795798585127919587881956611106672985015071877198253568414405109 := by
  decide

/-- The curve P-256. -/
def p256 : SigningCurve p n where
  curve := curve
  generator := curve.point _ _ generator_onCurve
  b_ne_zero := by decide +kernel

theorem generator_ne_zero : p256.generator ≠ 0 :=
  (coords_point generator_onCurve).ne_zero

/-! ## Montgomery arithmetic -/

theorem constants_P : Constants p P P_PRIME R2_MOD_P where
  toNat_modulus := by decide
  inverse := by decide
  square := by
    rw [radix, ← Nat.cast_mul, toWord, ZMod.val_natCast]
    decide

theorem constants_N : Constants n N N_PRIME R2_MOD_N where
  toNat_modulus := by decide
  inverse := by decide
  square := by
    rw [radix, ← Nat.cast_mul, toWord, ZMod.val_natCast]
    decide

/-- The last step of a reduction: `w` is the sum `t` up to wrapping. -/
theorem reduceOnce {n t : ℕ} {w N : Word} (hN : N.toNat = n) (hw : w.toNat = t % 2 ^ 256)
    (ht : t < 2 * n) {overflowed : Prop} [Decidable overflowed]
    (hov : overflowed ↔ 2 ^ 256 ≤ t) :
    (if overflowed ∨ ¬w.toNat < n then sub w N else w).toNat =
      if t < n then t else t - n := by
  have hlt := word_lt N
  by_cases h : t < n
  · have hsmall : ¬(overflowed ∨ ¬w.toNat < n) := by
      rw [hov]
      omega
    rw [if_neg hsmall, if_pos h]
    omega
  · have hlarge : overflowed ∨ ¬w.toNat < n := by
      rw [hov]
      omega
    rw [if_pos hlarge, if_neg h]
    exact toNat_sub_of_wrap hN hw ht (by omega)

/-- The result is the upper sum, reduced once. -/
theorem toNat_REDC {lo hi N N' : Word} {t : ℕ} (hinv : add (mul N N') 1 = 0)
    (hsum : hi.toNat + (mulHigh (mul lo N') N).toNat + (if lo ≠ 0 then 1 else 0) = t)
    (ht : t < 2 * N.toNat) :
    (REDC lo hi N N').toNat = if t < N.toNat then t else t - N.toNat := by
  subst hsum
  have hcarry := redc_carry lo N N' hinv
  have hadd := toNat_add hi (mulHigh (mul lo N') N)
  simp only [REDC, hcarry, boolWord_ne_zero]
  by_cases h0 : lo = 0
  · rw [if_neg (not_not_intro h0), Nat.add_zero] at ht
    simp only [if_neg (not_not_intro h0), Nat.add_zero, overflowingAdd_fst, overflowingAdd_snd, lt,
      or_zero_right, iszero_boolWord, or_boolWord, boolWord_ne_zero]
    exact reduceOnce rfl hadd ht Iff.rfl
  · have hone : (1 : Word).toNat = 1 := rfl
    have hadd1 := toNat_add (add hi (mulHigh (mul lo N') N)) 1
    rw [if_pos h0] at ht
    simp only [if_pos h0, overflowingAdd_fst, overflowingAdd_snd, lt, iszero_boolWord,
      or_boolWord, boolWord_ne_zero]
    exact reduceOnce rfl (by omega) ht (by omega)

theorem reduces_REDC : Reduces REDC :=
  reduces_of_toNat toNat_REDC

theorem arithmetic_P : Arithmetic REDC p P P_PRIME R2_MOD_P :=
  constants_P.arithmetic reduces_REDC

theorem arithmetic_N : Arithmetic REDC n N N_PRIME R2_MOD_N :=
  constants_N.arithmetic reduces_REDC

theorem MONTGOMERY_ONE_P_eq : MONTGOMERY_ONE_P = enc (1 : ZMod p) := by
  rw [← Nat.cast_one, enc_natCast]
  decide

theorem MONTGOMERY_A_P_eq : MONTGOMERY_A_P = enc curve.a := by
  have ha : curve.a = ((p - 3 : ℕ) : ZMod p) := by decide
  rw [ha, enc_natCast]
  decide

theorem MONTGOMERY_B_P_eq : MONTGOMERY_B_P = enc curve.b := by
  show _ = enc (OfNat.ofNat _ : ZMod p)
  rw [enc_ofNat]
  decide

/-! ## The operations on points -/

theorem represents_generator :
    Represents p256.generator MONTGOMERY_PROJECTIVE_G_P := by
  refine Represents.of_words (coords_point generator_onCurve) ?_ ?_ MONTGOMERY_ONE_P_eq.symm
  · rw [enc_ofNat]
    decide
  · rw [enc_ofNat]
    decide

theorem affinePointIsOnCurve_enc (x y : ZMod p) :
    affinePointIsOnCurve (enc x) (enc y) = boolWord (curve.OnCurve x y) := by
  simp only [affinePointIsOnCurve, MONTGOMERY_A_P_eq, MONTGOMERY_B_P_eq, montgomeryMul,
    arithmetic_P.mul, arithmetic_P.add]
  exact eq_enc_onCurve (by ring)

theorem projectiveDouble_enc (T : ZMod p × ZMod p × ZMod p) :
    projectiveDouble (encTriple T) = encTriple (tangentDouble curve.a T) := by
  simp only [projectiveDouble, encTriple, MONTGOMERY_A_P_eq, montgomeryMul, arithmetic_P.mul,
    arithmetic_P.add, arithmetic_P.sub, tangentDouble]

/-- The branches of the addition: an operand at infinity, equal points, the chord. -/
theorem projectiveAdd_enc (S T : ZMod p × ZMod p × ZMod p) :
    projectiveAdd (encTriple S) (encTriple T) = encTriple (completeAdd curve.a S T) := by
  have htest : or (enc (S.2.1 * T.2.2 - T.2.1 * S.2.2)) (enc (S.1 * T.2.2 - T.1 * S.2.2)) = 0 ↔
      S.1 * T.2.2 = T.1 * S.2.2 ∧ S.2.1 * T.2.2 = T.2.1 * S.2.2 := by
    rw [or_eq_zero, enc_eq_zero, enc_eq_zero, sub_eq_zero, sub_eq_zero, and_comm]
  show projectiveAdd (enc S.1, enc S.2.1, enc S.2.2) (enc T.1, enc T.2.1, enc T.2.2) = _
  simp only [projectiveAdd, projectivePointIsInfinity, montgomeryMul, arithmetic_P.mul,
    arithmetic_P.add, arithmetic_P.sub, iszero, boolWord_ne_zero, enc_eq_zero, htest, completeAdd]
  by_cases hS : S.2.2 = 0
  · rw [if_pos hS, if_pos hS, encTriple]
  by_cases hT : T.2.2 = 0
  · rw [if_neg hS, if_neg hS, if_pos hT, if_pos hT, encTriple]
  rw [if_neg hS, if_neg hS, if_neg hT, if_neg hT]
  by_cases heq : S.1 * T.2.2 = T.1 * S.2.2 ∧ S.2.1 * T.2.2 = T.2.1 * S.2.2
  · rw [if_pos heq, if_pos heq]
    exact projectiveDouble_enc S
  · rw [if_neg heq, if_neg heq]
    simp only [encTriple, chordAdd]

theorem implements : Implements curve projectiveDouble projectiveAdd where
  double := by
    rintro A W ⟨T, rfl, hT⟩
    exact ⟨_, projectiveDouble_enc T, hT.tangent⟩
  add := by
    rintro A B V W ⟨S, rfl, hS⟩ ⟨T, rfl, hT⟩
    exact ⟨_, projectiveAdd_enc S T, hS.add hT⟩

theorem represents_publicKey {r s x y : Word} (h : p256.ValidInput r s x y) :
    Represents (p256.publicKey h)
      (projectiveFromAffine (enc (x.toNat : ZMod p)) (enc (y.toNat : ZMod p))) :=
  Represents.of_words (SigningCurve.coords_publicKey h) rfl rfl MONTGOMERY_ONE_P_eq.symm

/-! ## The test of the curve equation -/

theorem curveTest_iff (x y : Word) :
    iszero (affinePointIsOnCurve (intoMontgomeryForm x P P_PRIME R2_MOD_P)
        (intoMontgomeryForm y P P_PRIME R2_MOD_P)) ≠ 0 ↔
      ¬p256.curve.OnCurve x.toNat y.toNat := by
  rw [intoMontgomeryForm, intoMontgomeryForm, arithmetic_P.into, arithmetic_P.into,
    affinePointIsOnCurve_enc, iszero_boolWord, boolWord_ne_zero]
  rfl

/-! ## The verification -/

theorem verifyWords_invalid {hash r s x y : Word} (h : ¬p256.ValidInput r s x y) :
    Yields (fun fuel => verifyWords fuel hash r s x y) (p256.verdict hash r s x y) := by
  rw [SigningCurve.verdict, dif_neg h]
  exact tests_burned constants_N.toNat_modulus constants_P.toNat_modulus (curveTest_iff x y) h _

theorem verifyWords_valid {hash r s x y : Word} (h : p256.ValidInput r s x y) :
    Yields (fun fuel => verifyWords fuel hash r s x y) (p256.verdict hash r s x y) := by
  obtain ⟨T, hT, hsum⟩ :=
    combination_yields implements represents_generator hash h (represents_publicKey h)
  rw [SigningCurve.verdict, dif_pos h]
  refine (tests_passed constants_N.toNat_modulus constants_P.toNat_modulus (curveTest_iff x y) h
    _ _).mpr ?_
  simp only [intoMontgomeryForm, arithmetic_P.into, arithmetic_N.into]
  refine (montgomeryModularInverse_enc constants_N (natCast_ne_zero h.2.1)).bind ?_
  simp only [montgomeryMul, outOfMontgomeryForm, arithmetic_N.mul, arithmetic_N.outOf]
  refine hsum.bind ?_
  generalize p256.combination hash.toNat r.toNat s.toNat (p256.publicKey h) = R at hT ⊢
  dsimp only
  by_cases hR : R = 0
  · have htest : iszero (enc T.2.2) ≠ 0 := by
      rw [iszero, boolWord_ne_zero, enc_eq_zero]
      exact hT.eq_zero_iff.mp hR
    simp only [if_pos htest, returnWord_eq, hR, SigningCurve.accepts_zero]
    exact Yields.const _
  · have hZ : T.2.2 ≠ 0 := mt hT.eq_zero_iff.mpr hR
    have htest : ¬iszero (enc T.2.2) ≠ 0 := by
      rw [iszero, boolWord_ne_zero, enc_eq_zero]
      exact hZ
    simp only [if_neg htest]
    refine (montgomeryModularInverse_enc constants_P hZ).bind ?_
    have haccepts := SigningCurve.accepts_of_coords (C := p256) (hT.coords hZ) r.toNat
    simp only [arithmetic_P.mul, arithmetic_P.outOf,
      eq_mod_toWord constants_N.toNat_modulus, returnWord_eq, haccepts]
    exact Yields.const _

theorem verifyWords_yields (hash r s x y : Word) :
    Yields (fun fuel => verifyWords fuel hash r s x y) (p256.verdict hash r s x y) := by
  by_cases h : p256.ValidInput r s x y
  · exact verifyWords_valid h
  · exact verifyWords_invalid h

/-- On every calldata the call ends with the verdict on the signature. -/
theorem p256Verify_decides (cd : Calldata) :
    Yields (fun fuel => fallback fuel cd)
      (p256.verdict (calldataload cd 0) (calldataload cd 32) (calldataload cd 64)
        (calldataload cd 96) (calldataload cd 128)) :=
  verifyWords_yields (calldataload cd 0) (calldataload cd 32) (calldataload cd 64)
    (calldataload cd 96) (calldataload cd 128)

end EraPrecompiles.P256VERIFY
