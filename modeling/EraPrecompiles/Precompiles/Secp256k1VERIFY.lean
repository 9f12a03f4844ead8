import EraPrecompiles.Arith.Primes
import EraPrecompiles.Ecdsa.Verify

/-!
# secp256k1VERIFY

The precompile that verifies a signature over the curve secp256k1.  Its reduction
corrects a wrapped sum at once, and its addition has a branch for opposite points.

The combination of the points is brought to affine coordinates without a test for
infinity, and the inversion loop never ends on zero.  So the call ends with the
verdict exactly where the combination is finite: `secp256k1Verify_decides_iff`.
Nothing keeps a caller from such a combination; `infinityCall` is one.
-/

namespace EraPrecompiles.Secp256k1VERIFY

open Ecdsa Secp256k1 ShortWeierstrass

/-! ## The program -/

def P : Word :=
  0xfffffffffffffffffffffffffffffffffffffffffffffffffffffffefffffc2f

def N : Word :=
  0xfffffffffffffffffffffffffffffffebaaedce6af48a03bbfd25e8cd0364141

def MONTGOMERY_ONE_P : Word :=
  4294968273

def MONTGOMERY_B_P : Word :=
  30064777911

def MONTGOMERY_PROJECTIVE_G_P : Word × Word × Word :=
  (69433378337113668455105412783699478161510570509662971881309371014080806920343,
    93740989812233943577428291822008373258935927472951925563046116858250011585506,
    MONTGOMERY_ONE_P)

def R2_MOD_P : Word :=
  18446752466076602529

def R2_MOD_N : Word :=
  71195301480278335217902614543643724933430614355449737089222010364394701574464

/-- `P' * P = -1` modulo `2^256`. -/
def P_PRIME : Word :=
  91248989341183975618893650062416139444822672217621753343178995607987479196977

/-- `N' * N = -1` modulo `2^256`. -/
def N_PRIME : Word :=
  98562742561918706241446412617699626731532222289571144322335133855687966765375

def REDC (TLo THi n nPrime : Word) : Word :=
  let m := mul TLo nPrime
  let (tHi, tHiOverflowed) := overflowingAdd THi (mulHigh m n)
  let aLoOverflowed := (overflowingAdd TLo (mul m n)).2
  let tHi := if tHiOverflowed ≠ 0 then add tHi (sub 0 n) else tHi
  let (tHi, tHiOverflowed) :=
    if aLoOverflowed ≠ 0 then overflowingAdd tHi 1 else (tHi, tHiOverflowed)
  let tHi := if tHiOverflowed ≠ 0 then add tHi (sub 0 n) else tHi
  if iszero (lt tHi n) ≠ 0 then sub tHi n else tHi

def intoMontgomeryForm (a n nPrime r2 : Word) : Word :=
  Ecdsa.intoMontgomeryForm REDC a n nPrime r2

def outOfMontgomeryForm (m n nPrime : Word) : Word :=
  Ecdsa.outOfMontgomeryForm REDC m n nPrime

def montgomeryMul (multiplicand multiplier n nPrime : Word) : Word :=
  Ecdsa.montgomeryMul REDC multiplicand multiplier n nPrime

def fieldElementIsOnFieldOrder (felt : Word) : Word :=
  lt felt P

def fieldElementIsOnSubgroupOrder (felt : Word) : Word :=
  lt felt N

def affinePointCoordinatesAreOnFieldOrder (xp yp : Word) : Word :=
  and (fieldElementIsOnFieldOrder xp) (fieldElementIsOnFieldOrder yp)

def affinePointIsInfinity (xp yp : Word) : Word :=
  iszero (or xp yp)

def affinePointIsOnCurve (xp yp : Word) : Word :=
  let left := montgomeryMul yp yp P P_PRIME
  let right := montgomeryAdd
    (montgomeryMul xp (montgomeryMul xp xp P P_PRIME) P P_PRIME) MONTGOMERY_B_P P
  eq left right

def projectiveFromAffine (xp yp : Word) : Word × Word × Word :=
  (xp, yp, MONTGOMERY_ONE_P)

def projectivePointIsInfinity (_xp _yp zp : Word) : Word :=
  iszero zp

def projectiveDouble (p : Word × Word × Word) : Word × Word × Word :=
  let (xp, yp, zp) := p
  let x_squared := montgomeryMul xp xp P P_PRIME
  let t := montgomeryAdd x_squared (montgomeryAdd x_squared x_squared P) P
  let yz := montgomeryMul yp zp P P_PRIME
  let u := montgomeryAdd yz yz P
  let uxy := montgomeryMul u (montgomeryMul xp yp P P_PRIME) P P_PRIME
  let v := montgomeryAdd uxy uxy P
  let w := montgomerySub (montgomeryMul t t P P_PRIME) (montgomeryAdd v v P) P
  let xr := montgomeryMul u w P P_PRIME
  let uy := montgomeryMul u yp P P_PRIME
  let uy_squared := montgomeryMul uy uy P P_PRIME
  let yr := montgomerySub (montgomeryMul t (montgomerySub v w P) P P_PRIME)
    (montgomeryAdd uy_squared uy_squared P) P
  let zr := montgomeryMul u (montgomeryMul u u P P_PRIME) P P_PRIME
  (xr, yr, zr)

def projectiveAdd (p q : Word × Word × Word) : Word × Word × Word :=
  let (xp, yp, zp) := p
  let (xq, yq, zq) := q
  let qIsInfinity := projectivePointIsInfinity xq yq zq
  let pIsInfinity := projectivePointIsInfinity xp yp zp
  if and pIsInfinity qIsInfinity ≠ 0 then
    (0, MONTGOMERY_ONE_P, 0)
  else if pIsInfinity ≠ 0 then
    (xq, yq, zq)
  else if qIsInfinity ≠ 0 then
    (xp, yp, zp)
  else if eq (montgomeryMul xp zq P P_PRIME) (montgomeryMul xq zp P P_PRIME) ≠ 0 then
    if eq (montgomeryMul yp zq P P_PRIME) (montgomeryMul yq zp P P_PRIME) ≠ 0 then
      projectiveDouble (xp, yp, zp)
    else
      (0, MONTGOMERY_ONE_P, 0)
  else
    let t0 := montgomeryMul yq zp P P_PRIME
    let t1 := montgomeryMul yp zq P P_PRIME
    let t := montgomerySub t0 t1 P
    let u0 := montgomeryMul xq zp P P_PRIME
    let u1 := montgomeryMul xp zq P P_PRIME
    let u := montgomerySub u0 u1 P
    let u2 := montgomeryMul u u P P_PRIME
    let u3 := montgomeryMul u2 u P P_PRIME
    let v := montgomeryMul zq zp P P_PRIME
    let w := montgomerySub (montgomeryMul (montgomeryMul t t P P_PRIME) v P P_PRIME)
      (montgomeryMul u2 (montgomeryAdd u0 u1 P) P P_PRIME) P
    let xr := montgomeryMul u w P P_PRIME
    let yr := montgomerySub
      (montgomeryMul t (montgomerySub (montgomeryMul u0 u2 P P_PRIME) w P) P P_PRIME)
      (montgomeryMul t0 u3 P P_PRIME) P
    let zr := montgomeryMul u3 v P P_PRIME
    (xr, yr, zr)

def shamirLinearCombination (fuel : ℕ) (q : Word × Word × Word) (t0 t1 : Word) :
    Option (Word × Word × Word) :=
  Ecdsa.shamirLinearCombination projectiveDouble projectiveAdd MONTGOMERY_PROJECTIVE_G_P
    fuel q t0 t1

/-- The end of the call, from the combination of the points on. -/
def compareFirstCoordinate (fuel : ℕ) (xr zr r : Word) : Option Halt := do
  let z_inv ← montgomeryModularInverse fuel zr P R2_MOD_P
  let xr := montgomeryMul xr z_inv P P_PRIME
  let xr := outOfMontgomeryForm xr P P_PRIME
  let r := outOfMontgomeryForm r N N_PRIME
  let xr := mod xr N
  return returnWord (eq xr r)

/-- The program after the operands are loaded. -/
def verifyWords (fuel : ℕ) (hash r s x y : Word) : Option Halt :=
  if or (or (iszero r) (iszero (fieldElementIsOnSubgroupOrder r)))
      (or (iszero s) (iszero (fieldElementIsOnSubgroupOrder s))) ≠ 0 then
    some .burned
  else if or (affinePointIsInfinity x y)
      (iszero (affinePointCoordinatesAreOnFieldOrder x y)) ≠ 0 then
    some .burned
  else
    let x := intoMontgomeryForm x P P_PRIME R2_MOD_P
    let y := intoMontgomeryForm y P P_PRIME R2_MOD_P
    if iszero (affinePointIsOnCurve x y) ≠ 0 then
      some .burned
    else do
      let q := projectiveFromAffine x y
      let hash := intoMontgomeryForm hash N N_PRIME R2_MOD_N
      let r := intoMontgomeryForm r N N_PRIME R2_MOD_N
      let s := intoMontgomeryForm s N N_PRIME R2_MOD_N
      let s1 ← montgomeryModularInverse fuel s N R2_MOD_N
      let t0 := outOfMontgomeryForm (montgomeryMul hash s1 N N_PRIME) N N_PRIME
      let t1 := outOfMontgomeryForm (montgomeryMul r s1 N N_PRIME) N N_PRIME
      let (xr, _, zr) ← shamirLinearCombination fuel q t0 t1
      compareFirstCoordinate fuel xr zr r

def fallback (fuel : ℕ) (cd : Calldata) : Option Halt :=
  let hash := calldataload cd 0
  let r := calldataload cd 32
  let s := calldataload cd 64
  let x := calldataload cd 96
  let y := calldataload cd 128
  verifyWords fuel hash r s x y

/-! ## The curve -/

def curve : ShortWeierstrass (ZMod p) where
  a := 0
  b := 7
  disc_ne_zero := by decide +kernel

theorem generator_onCurve :
    curve.OnCurve
      55066263022277343669578718895168534326250603453777594175500187360389116729240
      32670510020758816978083085130507043184471273380659243275938904335757337482424 := by
  decide

/-- The curve secp256k1. -/
def secp256k1 : SigningCurve p n where
  curve := curve
  generator := curve.point _ _ generator_onCurve
  b_ne_zero := by decide +kernel

theorem generator_ne_zero : secp256k1.generator ≠ 0 :=
  (coords_point generator_onCurve).ne_zero

/-! ## Montgomery arithmetic -/

theorem constants_P : Constants p P P_PRIME R2_MOD_P where
  toNat_modulus := by decide
  inverse := by decide
  square := by
    rw [radix, ← Nat.cast_mul, toWord, ZMod.val_natCast]
    decide

theorem constants_N : Constants n N N_PRIME R2_MOD_N where
  toNat_modulus := by decide
  inverse := by decide
  square := by
    rw [radix, ← Nat.cast_mul, toWord, ZMod.val_natCast]
    decide

theorem add_sub_zero (w n : Word) : add w (sub 0 n) = sub w n := by
  show w + (0 - n) = w - n
  ring

/-! ### The corrections of a reduction

The flag of the first sum is still set when the second correction is decided, unless the
carry of the lower words replaces it.
-/

section Corrections

variable (TLo THi n nPrime : Word)

/-- The first `tHi` with its flag. -/
def redcUpper : Word × Word :=
  overflowingAdd THi (mulHigh (mul TLo nPrime) n)

/-- `tHi` after the first correction. -/
def redcFirst : Word :=
  if (redcUpper TLo THi n nPrime).2 ≠ 0 then add (redcUpper TLo THi n nPrime).1 (sub 0 n)
  else (redcUpper TLo THi n nPrime).1

/-- `tHi` with the carry of the lower words, and the flag of the second correction. -/
def redcCarried : Word × Word :=
  if (overflowingAdd TLo (mul (mul TLo nPrime) n)).2 ≠ 0 then
    overflowingAdd (redcFirst TLo THi n nPrime) 1
  else
    (redcFirst TLo THi n nPrime, (redcUpper TLo THi n nPrime).2)

/-- `tHi` after the second correction. -/
def redcSecond : Word :=
  if (redcCarried TLo THi n nPrime).2 ≠ 0 then
    add (redcCarried TLo THi n nPrime).1 (sub 0 n)
  else
    (redcCarried TLo THi n nPrime).1

/-- How often the reduction subtracts the modulus. -/
def redcCorrections : ℕ :=
  (if (redcUpper TLo THi n nPrime).2 ≠ 0 then 1 else 0) +
    (if (redcCarried TLo THi n nPrime).2 ≠ 0 then 1 else 0) +
    (if iszero (lt (redcSecond TLo THi n nPrime) n) ≠ 0 then 1 else 0)

theorem REDC_eq_second :
    REDC TLo THi n nPrime =
      if iszero (lt (redcSecond TLo THi n nPrime) n) ≠ 0 then
        sub (redcSecond TLo THi n nPrime) n
      else
        redcSecond TLo THi n nPrime :=
  rfl

end Corrections

/-- A sum with the flag set is corrected at once, and leaves no second correction. -/
theorem redcFirst_of_overflow {lo hi N N' : Word}
    (hlt : hi.toNat + (mulHigh (mul lo N') N).toNat + 1 < 2 * N.toNat)
    (hov : 2 ^ 256 ≤ hi.toNat + (mulHigh (mul lo N') N).toNat) :
    (redcFirst lo hi N N').toNat = hi.toNat + (mulHigh (mul lo N') N).toNat - N.toNat := by
  have hNlt := word_lt N
  have hadd := toNat_add hi (mulHigh (mul lo N') N)
  have hN : N.toNat = N.toNat := rfl
  have hflag : (redcUpper lo hi N N').2 ≠ 0 := by
    rw [redcUpper, overflowingAdd_snd, boolWord_ne_zero]
    exact hov
  rw [redcFirst, if_pos hflag, add_sub_zero]
  exact toNat_sub_of_wrap hN hadd (by omega) (by omega)

/-- The three ways to the last subtraction: no correction, or one of the two. -/
theorem redc_cases {lo hi N N' : Word} {t : ℕ} (hinv : add (mul N N') 1 = 0)
    (hsum : hi.toNat + (mulHigh (mul lo N') N).toNat + (if lo ≠ 0 then 1 else 0) = t)
    (ht : t < 2 * N.toNat) :
    ((redcUpper lo hi N N').2 = 0 ∧ (redcCarried lo hi N N').2 = 0 ∧
      (redcSecond lo hi N N').toNat = t) ∨
    ((redcUpper lo hi N N').2 ≠ 0 ∧ (redcCarried lo hi N N').2 = 0 ∧
      (redcSecond lo hi N N').toNat + N.toNat = t) ∨
    ((redcUpper lo hi N N').2 = 0 ∧ (redcCarried lo hi N N').2 ≠ 0 ∧
      (redcSecond lo hi N N').toNat + N.toNat = t) := by
  have hcarry := redc_carry lo N N' hinv
  have hNlt := word_lt N
  have hone : (1 : Word).toNat = 1 := rfl
  have hadd := toNat_add hi (mulHigh (mul lo N') N)
  have hupper : (redcUpper lo hi N N').2 =
      boolWord (2 ^ 256 ≤ hi.toNat + (mulHigh (mul lo N') N).toNat) := overflowingAdd_snd _ _
  have hlow : (overflowingAdd lo (mul (mul lo N') N)).2 ≠ 0 ↔ lo ≠ 0 := by
    rw [hcarry, boolWord_ne_zero]
  by_cases h0 : lo = 0
  · left
    have hzero := mulHigh_of_low_zero h0 N N'
    have hhi := word_lt hi
    have hflag : (redcUpper lo hi N N').2 = 0 := by
      rw [hupper, boolWord_eq_zero]
      omega
    have hcarried : redcCarried lo hi N N' = (add hi (mulHigh (mul lo N') N), 0) := by
      rw [redcCarried, if_neg (mt hlow.mp (not_not_intro h0)), redcFirst, hflag,
        if_neg (not_not_intro rfl)]
      rfl
    rw [if_neg (not_not_intro h0)] at hsum
    refine ⟨hflag, by rw [hcarried], ?_⟩
    rw [redcSecond, hcarried, if_neg (not_not_intro rfl), hadd]
    omega
  have hcarried : redcCarried lo hi N N' = overflowingAdd (redcFirst lo hi N N') 1 := by
    rw [redcCarried, if_pos (hlow.mpr h0)]
  have hflag2 : (redcCarried lo hi N N').2 =
      boolWord (2 ^ 256 ≤ (redcFirst lo hi N N').toNat + 1) := by
    rw [hcarried, overflowingAdd_snd, hone]
  have hadd1 := toNat_add (redcFirst lo hi N N') 1
  rw [if_pos h0] at hsum
  by_cases hov : 2 ^ 256 ≤ hi.toNat + (mulHigh (mul lo N') N).toNat
  · right
    left
    have hfirst := redcFirst_of_overflow (by omega) hov
    have hflag : (redcCarried lo hi N N').2 = 0 := by
      rw [hflag2, boolWord_eq_zero]
      omega
    refine ⟨?_, hflag, ?_⟩
    · rw [hupper, boolWord_ne_zero]
      exact hov
    · rw [redcSecond, if_neg (not_not_intro hflag), hcarried, overflowingAdd_fst, hadd1]
      omega
  have hflag1 : (redcUpper lo hi N N').2 = 0 := by
    rw [hupper, boolWord_eq_zero]
    exact hov
  have hfirst : redcFirst lo hi N N' = add hi (mulHigh (mul lo N') N) := by
    rw [redcFirst, hflag1, if_neg (not_not_intro rfl)]
    rfl
  rw [hfirst, hadd] at hadd1 hflag2
  by_cases hov2 : 2 ^ 256 ≤ hi.toNat + (mulHigh (mul lo N') N).toNat + 1
  · right
    right
    have hflag : (redcCarried lo hi N N').2 ≠ 0 := by
      rw [hflag2, boolWord_ne_zero]
      omega
    have hN : N.toNat = N.toNat := rfl
    have hsub := toNat_sub_of_wrap hN (w := add (add hi (mulHigh (mul lo N') N)) 1)
      (t := t) (by omega) ht (by omega)
    refine ⟨hflag1, hflag, ?_⟩
    rw [redcSecond, if_pos hflag, hcarried, hfirst, overflowingAdd_fst, add_sub_zero, hsub]
    omega
  · left
    have hflag : (redcCarried lo hi N N').2 = 0 := by
      rw [hflag2, boolWord_eq_zero]
      omega
    refine ⟨hflag1, hflag, ?_⟩
    rw [redcSecond, if_neg (not_not_intro hflag), hcarried, hfirst, overflowingAdd_fst, hadd1]
    omega

/-- The result is the upper sum, reduced once: the reduction subtracts the modulus as soon
as the sum has wrapped. -/
theorem toNat_REDC {lo hi N N' : Word} {t : ℕ} (hinv : add (mul N N') 1 = 0)
    (hsum : hi.toNat + (mulHigh (mul lo N') N).toNat + (if lo ≠ 0 then 1 else 0) = t)
    (ht : t < 2 * N.toNat) :
    (REDC lo hi N N').toNat = if t < N.toNat then t else t - N.toNat := by
  have hN : N.toNat = N.toNat := rfl
  rw [REDC_eq_second, toNat_reduceOnce hN]
  rcases redc_cases hinv hsum ht with ⟨-, -, hval⟩ | ⟨-, -, hval⟩ | ⟨-, -, hval⟩
  · rw [hval]
  · rw [if_pos (by omega), if_neg (by omega)]
    omega
  · rw [if_pos (by omega), if_neg (by omega)]
    omega

/-- The modulus is subtracted at most once, and adding `sub(0, n)` after the first overflow
does not overflow. -/
theorem redc_corrections_le {lo hi N N' : Word} {t : ℕ} (hinv : add (mul N N') 1 = 0)
    (hsum : hi.toNat + (mulHigh (mul lo N') N).toNat + (if lo ≠ 0 then 1 else 0) = t)
    (ht : t < 2 * N.toNat) :
    redcCorrections lo hi N N' ≤ 1 ∧
      ((redcUpper lo hi N N').2 ≠ 0 →
        (redcUpper lo hi N N').1.toNat + (sub 0 N).toNat < 2 ^ 256) := by
  have hlast : iszero (lt (redcSecond lo hi N N') N) ≠ 0 ↔
      ¬(redcSecond lo hi N N').toNat < N.toNat := by
    rw [lt, iszero_boolWord, boolWord_ne_zero]
  have hadd := toNat_add hi (mulHigh (mul lo N') N)
  have hsub := toNat_sub 0 N
  have hzero : (0 : Word).toNat = 0 := rfl
  have hhi := word_lt hi
  have hmh := word_lt (mulHigh (mul lo N') N)
  rw [redcCorrections]
  simp only [hlast]
  rcases redc_cases hinv hsum ht with ⟨h₁, h₂, hval⟩ | ⟨h₁, h₂, hval⟩ | ⟨h₁, h₂, hval⟩
  · rw [if_neg (not_not_intro h₁), if_neg (not_not_intro h₂)]
    refine ⟨?_, fun h => absurd h₁ h⟩
    split <;> omega
  · rw [if_pos h₁, if_neg (not_not_intro h₂), if_neg (by omega)]
    refine ⟨le_rfl, fun _ => ?_⟩
    have hov := h₁
    rw [redcUpper, overflowingAdd_snd, boolWord_ne_zero] at hov
    rw [redcUpper, overflowingAdd_fst, hadd]
    omega
  · rw [if_neg (not_not_intro h₁), if_pos h₂, if_neg (by omega)]
    exact ⟨le_rfl, fun h => absurd h₁ h⟩

theorem reduces_REDC : Reduces REDC :=
  reduces_of_toNat toNat_REDC

theorem arithmetic_P : Arithmetic REDC p P P_PRIME R2_MOD_P :=
  constants_P.arithmetic reduces_REDC

theorem arithmetic_N : Arithmetic REDC n N N_PRIME R2_MOD_N :=
  constants_N.arithmetic reduces_REDC

theorem MONTGOMERY_ONE_P_eq : MONTGOMERY_ONE_P = enc (1 : ZMod p) := by
  rw [← Nat.cast_one, enc_natCast]
  decide

theorem MONTGOMERY_B_P_eq : MONTGOMERY_B_P = enc curve.b := by
  show _ = enc (OfNat.ofNat _ : ZMod p)
  rw [enc_ofNat]
  decide

/-! ## The operations on points -/

theorem represents_generator :
    Represents secp256k1.generator MONTGOMERY_PROJECTIVE_G_P := by
  refine Represents.of_words (coords_point generator_onCurve) ?_ ?_ MONTGOMERY_ONE_P_eq.symm
  · rw [enc_ofNat]
    decide
  · rw [enc_ofNat]
    decide

theorem affinePointIsOnCurve_enc (x y : ZMod p) :
    affinePointIsOnCurve (enc x) (enc y) = boolWord (curve.OnCurve x y) := by
  have ha : curve.a = 0 := rfl
  simp only [affinePointIsOnCurve, MONTGOMERY_B_P_eq, montgomeryMul, arithmetic_P.mul,
    arithmetic_P.add]
  exact eq_enc_onCurve (by rw [ha]; ring)

theorem projectiveDouble_enc (T : ZMod p × ZMod p × ZMod p) :
    projectiveDouble (encTriple T) = encTriple (tangentDouble curve.a T) := by
  have ha : curve.a = 0 := rfl
  simp only [projectiveDouble, encTriple, montgomeryMul, arithmetic_P.mul, arithmetic_P.add,
    arithmetic_P.sub, tangentDouble, ha, zero_mul, add_zero]

/-- The branches of the addition: operands at infinity, equal points, opposite points,
the chord. -/
theorem represents_add {A B : curve.Point} {V W : Word × Word × Word}
    (hV : Represents A V) (hW : Represents B W) :
    Represents (A + B) (projectiveAdd V W) := by
  obtain ⟨S, rfl, hS⟩ := hV
  obtain ⟨T, rfl, hT⟩ := hW
  have hinfinity : Represents (0 : curve.Point) (0, MONTGOMERY_ONE_P, 0) := by
    refine ⟨(0, 1, 0), ?_, Homogeneous.zero⟩
    rw [encTriple, enc_zero, MONTGOMERY_ONE_P_eq]
  have hSA := hS.eq_zero_iff
  have hTB := hT.eq_zero_iff
  show Represents (A + B)
    (projectiveAdd (enc S.1, enc S.2.1, enc S.2.2) (enc T.1, enc T.2.1, enc T.2.2))
  simp only [projectiveAdd, projectivePointIsInfinity, montgomeryMul, arithmetic_P.mul,
    arithmetic_P.add, arithmetic_P.sub, iszero, eq, and_boolWord, boolWord_ne_zero, enc_eq_zero,
    enc_inj]
  by_cases hZS : S.2.2 = 0
  · by_cases hZT : T.2.2 = 0
    · rw [if_pos ⟨hZS, hZT⟩, hSA.mpr hZS, hTB.mpr hZT, add_zero]
      exact hinfinity
    · rw [if_neg fun h => hZT h.2, if_pos hZS, hSA.mpr hZS, zero_add]
      exact ⟨T, rfl, hT⟩
  by_cases hZT : T.2.2 = 0
  · rw [if_neg fun h => hZS h.1, if_neg hZS, if_pos hZT, hTB.mpr hZT, add_zero]
    exact ⟨S, rfl, hS⟩
  rw [if_neg fun h => hZS h.1, if_neg hZS, if_neg hZT]
  have hA0 : A ≠ 0 := mt hSA.mp hZS
  have hB0 : B ≠ 0 := mt hTB.mp hZT
  have heq := hS.eq_iff hT hA0 hB0
  by_cases hAB : A = B
  · obtain ⟨hX, hY⟩ := heq.mp hAB
    rw [if_pos hX, if_pos hY, ← hAB]
    exact ⟨_, projectiveDouble_enc S, hS.tangent⟩
  by_cases hX : S.1 * T.2.2 = T.1 * S.2.2
  · rw [if_pos hX, if_neg fun hY => hAB (heq.mpr ⟨hX, hY⟩),
      hS.add_eq_zero hT hA0 hB0 hAB hX]
    exact hinfinity
  · rw [if_neg hX, add_comm]
    refine ⟨chordAdd T S, ?_, hT.chord hS hB0 hA0 (Ne.symm hAB)⟩
    simp only [encTriple, chordAdd]

theorem implements : Implements curve projectiveDouble projectiveAdd where
  double := by
    rintro A W ⟨T, rfl, hT⟩
    exact ⟨_, projectiveDouble_enc T, hT.tangent⟩
  add := represents_add

theorem represents_publicKey {r s x y : Word} (h : secp256k1.ValidInput r s x y) :
    Represents (secp256k1.publicKey h)
      (projectiveFromAffine (enc (x.toNat : ZMod p)) (enc (y.toNat : ZMod p))) :=
  Represents.of_words (SigningCurve.coords_publicKey h) rfl rfl MONTGOMERY_ONE_P_eq.symm

/-! ## The test of the curve equation -/

theorem curveTest_iff (x y : Word) :
    iszero (affinePointIsOnCurve (intoMontgomeryForm x P P_PRIME R2_MOD_P)
        (intoMontgomeryForm y P P_PRIME R2_MOD_P)) ≠ 0 ↔
      ¬secp256k1.curve.OnCurve x.toNat y.toNat := by
  rw [intoMontgomeryForm, intoMontgomeryForm, arithmetic_P.into, arithmetic_P.into,
    affinePointIsOnCurve_enc, iszero_boolWord, boolWord_ne_zero]
  rfl

/-! ## The verification -/

theorem verifyWords_invalid {hash r s x y : Word} (h : ¬secp256k1.ValidInput r s x y) :
    Yields (fun fuel => verifyWords fuel hash r s x y) (secp256k1.verdict hash r s x y) := by
  rw [SigningCurve.verdict, dif_neg h]
  exact tests_burned constants_N.toNat_modulus constants_P.toNat_modulus (curveTest_iff x y) h _

/-- The words the end of the call is reached with. -/
theorem verifyWords_valid (hash : Word) {r s x y : Word} (h : secp256k1.ValidInput r s x y) :
    ∃ T : ZMod p × ZMod p × ZMod p,
      Homogeneous (secp256k1.combination hash.toNat r.toNat s.toNat
        (secp256k1.publicKey h)) T ∧
      (∀ a, Yields (fun fuel => compareFirstCoordinate fuel (enc T.1) (enc T.2.2)
          (enc (r.toNat : ZMod n))) a →
        Yields (fun fuel => verifyWords fuel hash r s x y) a) ∧
      (Diverges (fun fuel => compareFirstCoordinate fuel (enc T.1) (enc T.2.2)
          (enc (r.toNat : ZMod n))) →
        ∀ a, ¬Yields (fun fuel => verifyWords fuel hash r s x y) a) := by
  obtain ⟨T, hT, hsum⟩ :=
    combination_yields implements represents_generator hash h (represents_publicKey h)
  have hinverse := montgomeryModularInverse_enc constants_N (natCast_ne_zero h.2.1)
  have htests := tests_passed constants_N.toNat_modulus constants_P.toNat_modulus
    (curveTest_iff x y) h
  refine ⟨T, hT, fun a ha => (htests _ a).mpr ?_, fun hd a hrun => ?_⟩
  · simp only [intoMontgomeryForm, arithmetic_P.into, arithmetic_N.into]
    refine hinverse.bind ?_
    simp only [montgomeryMul, outOfMontgomeryForm, arithmetic_N.mul, arithmetic_N.outOf]
    exact hsum.bind ha
  · have hbody := (htests _ a).mp hrun
    simp only [intoMontgomeryForm, arithmetic_P.into, arithmetic_N.into] at hbody
    refine not_yields_bind hinverse ?_ hbody
    simp only [montgomeryMul, outOfMontgomeryForm, arithmetic_N.mul, arithmetic_N.outOf]
    exact not_yields_bind hsum fun ha => ha.not_diverges hd

/-- The end of the call, for a finite combination. -/
theorem compareFirstCoordinate_yields {R : secp256k1.curve.Point}
    {T : ZMod p × ZMod p × ZMod p} (hT : Homogeneous R T) (hR : R ≠ 0) {r : Word}
    (hr : r.toNat < n) :
    Yields (fun fuel => compareFirstCoordinate fuel (enc T.1) (enc T.2.2)
        (enc (r.toNat : ZMod n)))
      (.returned (wordBytes (boolWord (secp256k1.accepts r.toNat R = true)))) := by
  have hZ : T.2.2 ≠ 0 := mt hT.eq_zero_iff.mpr hR
  refine (montgomeryModularInverse_enc constants_P hZ).bind ?_
  have haccepts := SigningCurve.accepts_of_coords (C := secp256k1) (hT.coords hZ) r.toNat
  simp only [montgomeryMul, outOfMontgomeryForm, arithmetic_P.mul, arithmetic_P.outOf,
    arithmetic_N.outOf, toWord_cast hr, eq_mod_toWord constants_N.toNat_modulus, returnWord_eq,
    haccepts]
  exact Yields.const _

theorem compareFirstCoordinate_zero_diverges (X : ZMod p) (r : Word) :
    Diverges (fun fuel => compareFirstCoordinate fuel (enc X) (enc (0 : ZMod p)) r) :=
  (montgomeryModularInverse_zero_diverges constants_P).bind _

/-- The call ends with the verdict exactly if the input is not valid or the
combination is not the point at infinity. -/
theorem verifyWords_yields_iff (hash r s x y : Word) :
    Yields (fun fuel => verifyWords fuel hash r s x y) (secp256k1.verdict hash r s x y) ↔
      ∀ h : secp256k1.ValidInput r s x y,
        secp256k1.combination hash.toNat r.toNat s.toNat (secp256k1.publicKey h) ≠ 0 := by
  by_cases h : secp256k1.ValidInput r s x y
  · obtain ⟨T, hT, hyields, hdiverges⟩ := verifyWords_valid hash h
    rw [forall_prop_of_true h, SigningCurve.verdict, dif_pos h]
    generalize secp256k1.combination hash.toNat r.toNat s.toNat (secp256k1.publicKey h) = R
      at hT ⊢
    constructor
    · rintro hrun rfl
      have hZ : T.2.2 = 0 := hT.eq_zero_iff.mp rfl
      rw [hZ] at hdiverges
      exact hdiverges (compareFirstCoordinate_zero_diverges T.1 _) _ hrun
    · intro hR
      exact hyields _ (compareFirstCoordinate_yields hT hR h.1.2)
  · exact ⟨fun _ h' => absurd h' h, fun _ => verifyWords_invalid h⟩

/-- On every calldata: the call ends with the verdict on the signature if and only if
the input is not valid or the combination is not the point at infinity. -/
theorem secp256k1Verify_decides_iff (cd : Calldata) :
    Yields (fun fuel => fallback fuel cd)
        (secp256k1.verdict (calldataload cd 0) (calldataload cd 32) (calldataload cd 64)
          (calldataload cd 96) (calldataload cd 128)) ↔
      ∀ h : secp256k1.ValidInput (calldataload cd 32) (calldataload cd 64)
          (calldataload cd 96) (calldataload cd 128),
        secp256k1.combination (calldataload cd 0).toNat (calldataload cd 32).toNat
          (calldataload cd 64).toNat (secp256k1.publicKey h) ≠ 0 :=
  verifyWords_yields_iff (calldataload cd 0) (calldataload cd 32) (calldataload cd 64)
    (calldataload cd 96) (calldataload cd 128)

/-! ## A call that never ends -/

/-- The public key `-G`, with a hash and a signature of ones. -/
def infinityCall : Calldata where
  bytes :=
    [(1 : Word), 1, 1,
      55066263022277343669578718895168534326250603453777594175500187360389116729240,
      83121579216557378445487899878180864668798711284981320763518679672151497189239].flatMap
      wordBytes
  length_lt := by decide +kernel

theorem infinityCall_words :
    calldataload infinityCall 0 = 1 ∧ calldataload infinityCall 32 = 1 ∧
      calldataload infinityCall 64 = 1 ∧
      calldataload infinityCall 96 =
        55066263022277343669578718895168534326250603453777594175500187360389116729240 ∧
      calldataload infinityCall 128 =
        83121579216557378445487899878180864668798711284981320763518679672151497189239 := by
  decide

theorem infinityCall_valid :
    secp256k1.ValidInput (calldataload infinityCall 32) (calldataload infinityCall 64)
      (calldataload infinityCall 96) (calldataload infinityCall 128) := by
  decide

theorem infinityCall_combination :
    secp256k1.combination (calldataload infinityCall 0).toNat
      (calldataload infinityCall 32).toNat (calldataload infinityCall 64).toNat
      (secp256k1.publicKey infinityCall_valid) = 0 := by
  have hkey : secp256k1.publicKey infinityCall_valid = -secp256k1.generator := by
    have hG : Coords secp256k1.generator _ _ := coords_point generator_onCurve
    refine ((SigningCurve.coords_publicKey infinityCall_valid).congr ?_ ?_).point_unique
      hG.neg
    · decide
    · decide
  have hone : (1 : Word).toNat = 1 := rfl
  have hmod : 1 % n = 1 := by decide
  rw [hkey]
  obtain ⟨hhash, hr, hs, -, -⟩ := infinityCall_words
  rw [hhash, hr, hs, hone, SigningCurve.combination_one, hmod, one_nsmul, one_nsmul]
  exact add_neg_cancel _

theorem secp256k1Verify_not_decides_infinity :
    ¬Yields (fun fuel => fallback fuel infinityCall)
      (secp256k1.verdict (calldataload infinityCall 0) (calldataload infinityCall 32)
        (calldataload infinityCall 64) (calldataload infinityCall 96)
        (calldataload infinityCall 128)) :=
  fun hrun => (verifyWords_yields_iff _ _ _ _ _).mp hrun infinityCall_valid
    infinityCall_combination

end EraPrecompiles.Secp256k1VERIFY
