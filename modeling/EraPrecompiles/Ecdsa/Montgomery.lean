import EraPrecompiles.Arith.BinaryEuclid

/-!
# Montgomery arithmetic for moduli without a spare bit

The signature precompiles compute modulo two primes of 256 bits, so sums and
reductions can wrap.  Their functions take the modulus `n` and its constants as
arguments.  Both precompiles have the same functions, with different bodies of
`REDC`; here this body is a parameter, of which `Reduces` is assumed.

`Constants n N N' R2` collects what the constants of a modulus have to satisfy.
Under it every function commutes with `enc`.
-/

namespace EraPrecompiles.Ecdsa

/-! ## The program -/

/-- `1 << 255` -/
def mask : Word :=
  57896044618658097711785492504343953926634992332820282019728792003956564819968

/-- The `switch and(b, 1)` of the inversion loops, which puts the carry back. -/
def halve (modulus b : Word) : Word :=
  let modulusHasSpareBits := iszero (and modulus mask)
  if and b 1 = 0 then
    shr 1 b
  else
    let (newB, carry) := overflowingAdd b modulus
    let b := shr 1 newB
    if and (iszero modulusHasSpareBits) carry ≠ 0 then or b mask else b

def binaryExtendedEuclideanAlgorithm (fuel : ℕ) (base modulus r2 : Word) : Option Word :=
  binaryEuclid (halve modulus) modulus r2 fuel base

def montgomeryAdd (augend addend n : Word) : Word :=
  addmod augend addend n

def montgomerySub (minuend subtrahend n : Word) : Word :=
  montgomeryAdd minuend (sub n subtrahend) n

def montgomeryModularInverse (fuel : ℕ) (a n r2 : Word) : Option Word :=
  binaryExtendedEuclideanAlgorithm fuel a n r2

section Program

variable (REDC : Word → Word → Word → Word → Word)

def intoMontgomeryForm (a n nPrime r2 : Word) : Word :=
  let hi := mulHigh a r2
  let lo := mul a r2
  REDC lo hi n nPrime

def outOfMontgomeryForm (m n nPrime : Word) : Word :=
  let hi := 0
  let lo := m
  REDC lo hi n nPrime

def montgomeryMul (multiplicand multiplier n nPrime : Word) : Word :=
  let hi := mulHigh multiplicand multiplier
  let lo := mul multiplicand multiplier
  REDC lo hi n nPrime

end Program

/-! ## What is assumed of the constants and of the reduction -/

/-- The constants of the modulus `n`. -/
structure Constants (n : ℕ) (N N' R2 : Word) : Prop where
  toNat_modulus : N.toNat = n
  inverse : add (mul N N') 1 = 0
  square : R2 = toWord (radix n * radix n)

/-- `REDC` takes the number with the halves `lo` and `hi` to the representative of
`T * 2^(-256)`. -/
def Reduces (REDC : Word → Word → Word → Word → Word) : Prop :=
  ∀ {n : ℕ} [WordModulus n] {N N' lo hi : Word} {T : ℕ}, N.toNat = n →
    add (mul N N') 1 = 0 → lo.toNat + 2 ^ 256 * hi.toNat = T → T < n * 2 ^ 256 →
      REDC lo hi N N' = toWord ((T : ZMod n) * (radix n)⁻¹)

/-- It is enough to reduce the upper sum once. -/
theorem reduces_of_toNat {REDC : Word → Word → Word → Word → Word}
    (h : ∀ {lo hi N N' : Word} {t : ℕ}, add (mul N N') 1 = 0 →
      hi.toNat + (mulHigh (mul lo N') N).toNat + (if lo ≠ 0 then 1 else 0) = t →
        t < 2 * N.toNat → (REDC lo hi N N').toNat = if t < N.toNat then t else t - N.toNat) :
    Reduces REDC := by
  intro n _ N N' lo hi T hN hinv hT hlt
  have hsum := redc_sum lo hi N N' hinv
  rw [hN, hT] at hsum
  have hm := word_lt (mul lo N')
  have ht := redc_lt hm hsum hlt
  have hS := @h lo hi N N' _ hinv rfl (by rw [hN]; exact ht)
  rw [hN] at hS
  exact redc_toWord hm hsum hlt hS

section Operations

variable {n : ℕ} [WordModulus n] {N N' R2 : Word}

theorem modulus_ne_zero (hN : N.toNat = n) : N ≠ 0 := by
  have hn := WordModulus.one_lt (n := n)
  rw [ne_eq, ← toNat_eq_zero]
  omega

/-! ## Addition -/

theorem montgomeryAdd_eq (hN : N.toNat = n) (a b : Word) :
    montgomeryAdd a b N = toWord ((a.toNat : ZMod n) + (b.toNat : ZMod n)) := by
  have hsum := toNat_addmod a b (modulus_ne_zero hN)
  rw [hN] at hsum
  have hpos : 0 < n := Nat.pos_of_ne_zero (NeZero.ne n)
  have hlt : (addmod a b N).toNat < n := by
    rw [hsum]
    exact Nat.mod_lt _ hpos
  rw [montgomeryAdd, ← toWord_cast hlt, hsum, ZMod.natCast_mod, Nat.cast_add]

theorem montgomeryAdd_enc (hN : N.toNat = n) (x y : ZMod n) :
    montgomeryAdd (enc x) (enc y) N = enc (x + y) := by
  rw [montgomeryAdd_eq hN, cast_enc, cast_enc, enc, add_mul]

theorem montgomerySub_enc (hN : N.toNat = n) (x y : ZMod n) :
    montgomerySub (enc x) (enc y) N = enc (x - y) := by
  have hy := (toNat_enc_lt y).le
  have hsub : (sub N (enc y)).toNat = n - (enc y).toNat := by
    rw [toNat_sub_of_le (by rw [hN]; exact hy), hN]
  rw [montgomerySub, montgomeryAdd_eq hN, hsub, Nat.cast_sub hy, ZMod.natCast_self,
    cast_enc, cast_enc, enc, zero_sub, sub_mul, sub_eq_add_neg]

/-! ## Multiplication -/

section Reduction

variable {REDC : Word → Word → Word → Word → Word}

/-- A reduction of a product of two words, one of them a residue. -/
theorem REDC_mul (hred : Reduces REDC) (hN : N.toNat = n) (hinv : add (mul N N') 1 = 0)
    {a b : Word} (hb : b.toNat < n) :
    REDC (mul a b) (mulHigh a b) N N' =
      toWord ((a.toNat : ZMod n) * (b.toNat : ZMod n) * (radix n)⁻¹) := by
  have hprod := mulHigh_mul a b
  have ha := word_lt a
  have hT : (mul a b).toNat + 2 ^ 256 * (mulHigh a b).toNat = a.toNat * b.toNat := by
    omega
  have hlt : a.toNat * b.toNat < n * 2 ^ 256 := by
    rw [Nat.mul_comm n]
    exact Nat.mul_lt_mul'' ha hb
  rw [hred hN hinv hT hlt, Nat.cast_mul]

theorem intoMontgomeryForm_eq (hred : Reduces REDC) (hc : Constants n N N' R2)
    (a : Word) : intoMontgomeryForm REDC a N N' R2 = enc (a.toNat : ZMod n) := by
  have hR : R2.toNat < n := by
    rw [hc.square]
    exact toNat_toWord_lt _
  rw [intoMontgomeryForm, REDC_mul hred hc.toNat_modulus hc.inverse hR, hc.square,
    cast_toWord, enc, mul_assoc, mul_assoc, radix_mul_inv, mul_one]

theorem outOfMontgomeryForm_enc (hred : Reduces REDC) (hc : Constants n N N' R2)
    (x : ZMod n) : outOfMontgomeryForm REDC (enc x) N N' = toWord x := by
  have hlt : (enc x).toNat < n * 2 ^ 256 :=
    (toNat_enc_lt x).trans_le (Nat.le_mul_of_pos_right n (by positivity))
  have hT : (enc x).toNat + 2 ^ 256 * (0 : Word).toNat = (enc x).toNat := by
    rw [toNat_eq_zero.mpr rfl, Nat.mul_zero, Nat.add_zero]
  rw [outOfMontgomeryForm, hred hc.toNat_modulus hc.inverse hT hlt, cast_enc, mul_assoc,
    radix_mul_inv, mul_one]

theorem montgomeryMul_enc (hred : Reduces REDC) (hc : Constants n N N' R2)
    (x y : ZMod n) : montgomeryMul REDC (enc x) (enc y) N N' = enc (x * y) := by
  rw [montgomeryMul, REDC_mul hred hc.toNat_modulus hc.inverse (toNat_enc_lt y),
    cast_enc, cast_enc, enc]
  congr 1
  calc
    x * radix n * (y * radix n) * (radix n)⁻¹ =
        x * y * radix n * (radix n * (radix n)⁻¹) := by ring
    _ = x * y * radix n := by rw [radix_mul_inv, mul_one]

/-- What the functions do with the representatives modulo `n`. -/
structure Arithmetic (REDC : Word → Word → Word → Word → Word) (n : ℕ) [WordModulus n]
    (N N' R2 : Word) : Prop where
  mul : ∀ x y : ZMod n, montgomeryMul REDC (enc x) (enc y) N N' = enc (x * y)
  add : ∀ x y : ZMod n, montgomeryAdd (enc x) (enc y) N = enc (x + y)
  sub : ∀ x y : ZMod n, montgomerySub (enc x) (enc y) N = enc (x - y)
  into : ∀ a : Word, intoMontgomeryForm REDC a N N' R2 = enc (a.toNat : ZMod n)
  outOf : ∀ x : ZMod n, outOfMontgomeryForm REDC (enc x) N N' = toWord x

theorem Constants.arithmetic (hc : Constants n N N' R2) (hred : Reduces REDC) :
    Arithmetic REDC n N N' R2 where
  mul := montgomeryMul_enc hred hc
  add := montgomeryAdd_enc hc.toNat_modulus
  sub := montgomerySub_enc hc.toNat_modulus
  into := intoMontgomeryForm_eq hred hc
  outOf := outOfMontgomeryForm_enc hred hc

end Reduction

/-! ## Inversion -/

theorem mask_eq : mask.toNat = 2 ^ 255 := by
  decide

/-- A modulus that makes a sum of residues wrap has no spare bit. -/
theorem and_mask_ne_zero {w : Word} (hw : 2 ^ 255 ≤ w.toNat) : and w mask ≠ 0 := by
  have hlt := word_lt w
  have hbit : w.toNat.testBit 255 = true := by
    rw [Nat.testBit_eq_decide_div_mod_eq]
    exact decide_eq_true (by omega)
  intro h
  rw [← toNat_eq_zero, toNat_and, mask_eq] at h
  have hand := Nat.testBit_and w.toNat (2 ^ 255) 255
  rw [h, hbit, Nat.testBit_two_pow_self, Nat.zero_testBit] at hand
  exact Bool.false_ne_true hand

theorem toNat_or_mask {w : Word} (hw : w.toNat < 2 ^ 255) :
    (or w mask).toNat = w.toNat + 2 ^ 255 := by
  have h := Nat.two_pow_add_eq_or_of_lt hw 1
  rw [Nat.mul_one] at h
  rw [toNat_or, mask_eq, Nat.or_comm, ← h, Nat.add_comm]

omit [WordModulus n] in
/-- Halving an odd word halves its sum with the modulus, carry included. -/
theorem toNat_halve_odd (hN : N.toNat = n) {b : Word} (hb : b.toNat < n)
    (hodd : ¬and b 1 = 0) : (halve N b).toNat = (b.toNat + n) / 2 := by
  have hsum := toNat_add b N
  have hlt := word_lt N
  rw [hN] at hsum hlt
  simp only [halve, if_neg hodd, overflowingAdd_fst, overflowingAdd_snd, iszero,
    and_boolWord, boolWord_eq_zero, boolWord_ne_zero, hN]
  by_cases hcarry : 2 ^ 256 ≤ b.toNat + n
  · have hmask : and N mask ≠ 0 := and_mask_ne_zero (by omega)
    have hhalf : (shr 1 (add b N)).toNat = (b.toNat + n - 2 ^ 256) / 2 := by
      rw [toNat_shr_one, hsum]
      omega
    rw [if_pos ⟨hmask, hcarry⟩, toNat_or_mask (by omega), hhalf]
    omega
  · rw [if_neg fun h => hcarry h.2, toNat_shr_one, hsum, Nat.mod_eq_of_lt (by omega)]

theorem halves_halve (hN : N.toNat = n) : Halves n (halve N) := by
  intro b hb
  by_cases heven : b.toNat % 2 = 0
  · have htest : and b 1 = 0 := and_one_eq_zero.mpr heven
    rw [halve, if_pos htest, toNat_shr_one]
    have hhalf : b.toNat / 2 * 2 = b.toNat := by omega
    refine ⟨by omega, ?_⟩
    exact_mod_cast congrArg (Nat.cast (R := ZMod n)) hhalf
  · have hodd : n % 2 = 1 := WordModulus.odd
    rw [toNat_halve_odd hN hb (mt and_one_eq_zero.mp heven)]
    have hhalf : (b.toNat + n) / 2 * 2 = b.toNat + n := by omega
    refine ⟨by omega, ?_⟩
    have hcast := congrArg (Nat.cast (R := ZMod n)) hhalf
    rw [Nat.cast_mul, Nat.cast_add, ZMod.natCast_self, add_zero] at hcast
    exact hcast

theorem montgomeryModularInverse_enc [Fact n.Prime] (hc : Constants n N N' R2)
    {x : ZMod n} (hx : x ≠ 0) :
    Yields (fun fuel => montgomeryModularInverse fuel (enc x) N R2) (enc x⁻¹) :=
  binaryEuclid_enc (halves_halve hc.toNat_modulus) hc.toNat_modulus hc.square
    (inv_mul_cancel₀ hx)

/-- Inverting zero, the loop never ends. -/
theorem montgomeryModularInverse_zero_diverges (hc : Constants n N N' R2) :
    Diverges (fun fuel => montgomeryModularInverse fuel (enc (0 : ZMod n)) N R2) := by
  rw [enc_zero]
  exact binaryEuclid_zero_diverges (halve N) R2 hc.toNat_modulus

end Operations

end EraPrecompiles.Ecdsa
