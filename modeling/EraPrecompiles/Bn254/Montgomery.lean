import EraPrecompiles.Arith.BinaryEuclid
import EraPrecompiles.Arith.Primes

/-!
# Montgomery arithmetic modulo the prime of BN254

The functions every BN254 precompile starts with.  The prime has 254 bits, so
neither the upper half of a reduction nor the sum of two residues wraps.

Each function is given by what it does to Montgomery forms: `montgomeryMul`
commutes with `enc`, and so on.  The inversion loop ends on every nonzero
residue, and does not end on zero.
-/

namespace EraPrecompiles.Bn254

def P : Word :=
  21888242871839275222246405745257275088696311157297823662689037894645226208583

/-- The residue of `2^512`. -/
def R2_MOD_P : Word :=
  3096616502983703923843567936837374451735540968419076528771170197431451843209

/-- `N' * P = -1` modulo `2^256`. -/
def N_PRIME : Word :=
  111032442853175714102588374283752698368366046808579839647964533820976443843465

def MONTGOMERY_ONE : Word :=
  6350874878119819312338956282401532409788428879151445726012394534686998597021

def MONTGOMERY_THREE : Word :=
  19052624634359457937016868847204597229365286637454337178037183604060995791063

/-- The `switch and(current, 1)` of the inversion loops. -/
def halve (b : Word) : Word :=
  if and b 1 = 0 then shr 1 b else shr 1 (add b P)

def binaryExtendedEuclideanAlgorithm (fuel : ℕ) (base : Word) : Option Word :=
  binaryEuclid halve P R2_MOD_P fuel base

def REDC (lowestHalfOfT higherHalfOfT : Word) : Word :=
  let m := mul lowestHalfOfT N_PRIME
  let hi := add higherHalfOfT (mulHigh m P)
  let overflowed := (overflowingAdd lowestHalfOfT (mul m P)).2
  let hi := if overflowed ≠ 0 then add hi 1 else hi
  if iszero (lt hi P) ≠ 0 then sub hi P else hi

def intoMontgomeryForm (a : Word) : Word :=
  let hi := mulHigh a R2_MOD_P
  let lo := mul a R2_MOD_P
  REDC lo hi

def outOfMontgomeryForm (m : Word) : Word :=
  let hi := 0
  let lo := m
  REDC lo hi

def montgomeryAdd (augend addend : Word) : Word :=
  let ret := add augend addend
  if iszero (lt ret P) ≠ 0 then sub ret P else ret

def montgomerySub (minuend subtrahend : Word) : Word :=
  montgomeryAdd minuend (sub P subtrahend)

def montgomeryMul (multiplicand multiplier : Word) : Word :=
  let hi := mulHigh multiplicand multiplier
  let lo := mul multiplicand multiplier
  REDC lo hi

def montgomeryModularInverse (fuel : ℕ) (a : Word) : Option Word :=
  binaryExtendedEuclideanAlgorithm fuel a

/-! ## Constants -/

theorem toNat_P : P.toNat = p := by
  decide

theorem P_ne_zero : P ≠ 0 := by
  decide

theorem p_lt : p < 2 ^ 254 := by
  decide

theorem R2_MOD_P_eq : R2_MOD_P = toWord (radix p * radix p) := by
  rw [radix, ← Nat.cast_mul, toWord, ZMod.val_natCast]
  decide

theorem N_PRIME_spec : add (mul P N_PRIME) 1 = 0 := by
  decide

theorem MONTGOMERY_ONE_eq : MONTGOMERY_ONE = enc (1 : ZMod p) := by
  rw [← Nat.cast_one, enc_natCast]
  decide

theorem MONTGOMERY_THREE_eq : MONTGOMERY_THREE = enc (3 : ZMod p) := by
  rw [enc_ofNat]
  decide

/-! ## Reduction -/

/-- Reduction of the number `T` with the halves `lo` and `hi`. -/
theorem REDC_eq {lo hi : Word} {T : ℕ} (hT : lo.toNat + 2 ^ 256 * hi.toNat = T)
    (hlt : T < p * 2 ^ 256) :
    REDC lo hi = toWord ((T : ZMod p) * (radix p)⁻¹) := by
  have hsum := redc_sum lo hi P N_PRIME N_PRIME_spec
  rw [toNat_P, hT] at hsum
  have hm := word_lt (mul lo N_PRIME)
  have hlt := redc_lt hm hsum hlt
  have hp := p_lt
  refine redc_toWord hm hsum ‹_› ?_
  have hcarry := redc_carry lo P N_PRIME N_PRIME_spec
  have hhi : (if (overflowingAdd lo (mul (mul lo N_PRIME) P)).2 ≠ 0 then
      add (add hi (mulHigh (mul lo N_PRIME) P)) 1
      else add hi (mulHigh (mul lo N_PRIME) P)).toNat =
      hi.toNat + (mulHigh (mul lo N_PRIME) P).toNat + if lo ≠ 0 then 1 else 0 := by
    rw [hcarry]
    by_cases h0 : lo = 0
    · rw [if_neg (not_not_intro h0)] at hlt ⊢
      rw [if_neg (not_not_intro ((boolWord_eq_zero _).mpr (not_not_intro h0))),
        toNat_add_of_lt (by omega), Nat.add_zero]
    · rw [if_pos h0] at hlt ⊢
      rw [if_pos ((boolWord_ne_zero _).mpr h0), toNat_add, toNat_add_of_lt (by omega)]
      exact Nat.mod_eq_of_lt (by
        show _ + 1 < _
        omega)
  rw [← hhi]
  exact toNat_reduceOnce toNat_P _

/-- A reduction of a product of two words, one of them a residue. -/
theorem REDC_mul {a b : Word} (hb : b.toNat < p) :
    REDC (mul a b) (mulHigh a b) =
      toWord ((a.toNat : ZMod p) * (b.toNat : ZMod p) * (radix p)⁻¹) := by
  have hprod := mulHigh_mul a b
  have ha := word_lt a
  have hT : (mul a b).toNat + 2 ^ 256 * (mulHigh a b).toNat = a.toNat * b.toNat := by
    omega
  have hlt : a.toNat * b.toNat < p * 2 ^ 256 := by
    rw [Nat.mul_comm p]
    exact Nat.mul_lt_mul'' ha hb
  rw [REDC_eq hT hlt, Nat.cast_mul]

/-! ## The operations on Montgomery forms -/

theorem toNat_add_enc_lt (x y : ZMod p) : (enc x).toNat + (enc y).toNat < 2 * p := by
  have hx := toNat_enc_lt x
  have hy := toNat_enc_lt y
  omega

@[simp] theorem intoMontgomeryForm_eq (a : Word) :
    intoMontgomeryForm a = enc (a.toNat : ZMod p) := by
  have hR : R2_MOD_P.toNat < p := by decide
  rw [intoMontgomeryForm, REDC_mul hR, R2_MOD_P_eq, cast_toWord, enc, mul_assoc, mul_assoc,
    radix_mul_inv, mul_one]

@[simp] theorem outOfMontgomeryForm_enc (x : ZMod p) :
    outOfMontgomeryForm (enc x) = toWord x := by
  have hx := toNat_enc_lt x
  have hp : 0 < p := by decide
  show REDC (enc x) 0 = _
  have hlt : (enc x).toNat < p * 2 ^ 256 :=
    hx.trans_le (Nat.le_mul_of_pos_right p (by positivity))
  have hT : (enc x).toNat + 2 ^ 256 * (0 : Word).toNat = (enc x).toNat := by
    rw [toNat_eq_zero.mpr rfl, Nat.mul_zero, Nat.add_zero]
  show REDC (enc x) 0 = toWord x
  rw [REDC_eq hT hlt, cast_enc, mul_assoc, radix_mul_inv, mul_one]

theorem toNat_montgomeryAdd (a b : Word) :
    (montgomeryAdd a b).toNat =
      if (add a b).toNat < p then (add a b).toNat else (add a b).toNat - p :=
  toNat_reduceOnce toNat_P (add a b)

@[simp] theorem montgomeryAdd_enc (x y : ZMod p) :
    montgomeryAdd (enc x) (enc y) = enc (x + y) := by
  have hlt := toNat_add_enc_lt x y
  have hp := p_lt
  have hsum : (add (enc x) (enc y)).toNat = (enc x).toNat + (enc y).toNat :=
    toNat_add_of_lt (by omega)
  have hred := toNat_montgomeryAdd (enc x) (enc y)
  have hval : (montgomeryAdd (enc x) (enc y)).toNat < p ∧
      ((montgomeryAdd (enc x) (enc y)).toNat : ZMod p) = x * radix p + y * radix p := by
    rw [hred, hsum]
    by_cases h : (enc x).toNat + (enc y).toNat < p
    · rw [if_pos h]
      exact ⟨h, by rw [Nat.cast_add, cast_enc, cast_enc]⟩
    · rw [if_neg h]
      refine ⟨by omega, ?_⟩
      rw [Nat.cast_sub (by omega), Nat.cast_add, cast_enc, cast_enc, ZMod.natCast_self,
        sub_zero]
  rw [← toWord_cast hval.1, hval.2, enc, add_mul]

@[simp] theorem montgomerySub_enc (x y : ZMod p) :
    montgomerySub (enc x) (enc y) = enc (x - y) := by
  have hy := toNat_enc_lt y
  have hsub : (sub P (enc y)).toNat = p - (enc y).toNat := by
    rw [toNat_sub_of_le (by rw [toNat_P]; omega), toNat_P]
  by_cases h0 : y = 0
  · have hP : sub P (enc y) = P := by
      refine word_ext ?_
      rw [hsub, toNat_P, h0, enc_zero]
      rfl
    have hx := toNat_enc_lt x
    have hp := p_lt
    have hsum : (add (enc x) P).toNat = (enc x).toNat + p := by
      rw [toNat_add_of_lt (by rw [toNat_P]; omega), toNat_P]
    rw [montgomerySub, hP, h0, sub_zero]
    refine word_ext ?_
    rw [toNat_montgomeryAdd, hsum, if_neg (by omega), Nat.add_sub_cancel]
  · have hpos : (enc y).toNat ≠ 0 := by
      rw [ne_eq, toNat_eq_zero, enc_eq_zero]
      exact h0
    have hneg : sub P (enc y) = enc (-y) := by
      have hlt : (sub P (enc y)).toNat < p := by omega
      rw [← toWord_cast hlt, hsub, Nat.cast_sub hy.le, ZMod.natCast_self, cast_enc,
        zero_sub, enc, neg_mul]
    rw [montgomerySub, hneg, montgomeryAdd_enc, sub_eq_add_neg]

@[simp] theorem montgomeryMul_enc (x y : ZMod p) :
    montgomeryMul (enc x) (enc y) = enc (x * y) := by
  rw [montgomeryMul, REDC_mul (toNat_enc_lt y), cast_enc, cast_enc, enc]
  congr 1
  calc
    x * radix p * (y * radix p) * (radix p)⁻¹ =
        x * y * radix p * (radix p * (radix p)⁻¹) := by ring
    _ = x * y * radix p := by rw [radix_mul_inv, mul_one]

/-! ## The Montgomery forms as a copy of the field -/

/-- `w` is the reduced word that stands for `x`. -/
def MontgomeryForm (w : Word) (x : ZMod p) : Prop :=
  w.toNat < P.toNat ∧ (w.toNat : ZMod p) = x * radix p

theorem montgomeryForm_iff {w : Word} {x : ZMod p} :
    MontgomeryForm w x ↔ w = enc x := by
  rw [MontgomeryForm, toNat_P]
  constructor
  · rintro ⟨hlt, hcast⟩
    rw [← toWord_cast hlt, hcast, enc]
  · rintro rfl
    exact ⟨toNat_enc_lt x, cast_enc x⟩

theorem existsUnique_montgomeryForm {m : Word} (hm : m.toNat < P.toNat) :
    ∃! x : ZMod p, MontgomeryForm m x := by
  rw [toNat_P] at hm
  obtain ⟨x, rfl⟩ := exists_enc hm
  refine ⟨x, montgomeryForm_iff.mpr rfl, fun y hy => ?_⟩
  exact (enc_injective (montgomeryForm_iff.mp hy)).symm

theorem outOf_intoMontgomeryForm {a : Word} (ha : a.toNat < P.toNat) :
    outOfMontgomeryForm (intoMontgomeryForm a) = a := by
  rw [toNat_P] at ha
  rw [intoMontgomeryForm_eq, outOfMontgomeryForm_enc, toWord_cast ha]

/-- The sum of the upper words leaves room for the carry. -/
theorem REDC_upper_lt {lo hi : Word}
    (hT : lo.toNat + 2 ^ 256 * hi.toNat < P.toNat * 2 ^ 256) :
    hi.toNat + (mulHigh (mul lo N_PRIME) P).toNat + 1 < 2 ^ 256 := by
  have hsum := redc_sum lo hi P N_PRIME N_PRIME_spec
  have hlt := redc_lt (word_lt (mul lo N_PRIME)) hsum hT
  have hp := p_lt
  rw [toNat_P] at hlt
  omega

/-- The reduced words with `montgomeryAdd`, `montgomerySub` and `montgomeryMul` are the field,
and no sum of a reduction is lost: neither of the two additions to the upper word wraps, and
the flag of the addition of the lower words is its carry. -/
theorem montgomery_layer_isomorphism :
    (∀ a : Word, MontgomeryForm (intoMontgomeryForm a) (a.toNat : ZMod p)) ∧
    (∀ a : Word, a.toNat < P.toNat → outOfMontgomeryForm (intoMontgomeryForm a) = a) ∧
    (∀ m : Word, m.toNat < P.toNat → ∃! x : ZMod p, MontgomeryForm m x) ∧
    (∀ (m : Word) (x : ZMod p), MontgomeryForm m x →
      (outOfMontgomeryForm m).toNat = x.val ∧ montgomerySub m 0 = m) ∧
    (∀ (m₁ m₂ : Word) (x y : ZMod p), MontgomeryForm m₁ x → MontgomeryForm m₂ y →
      MontgomeryForm (montgomeryMul m₁ m₂) (x * y) ∧
      MontgomeryForm (montgomeryAdd m₁ m₂) (x + y) ∧
      MontgomeryForm (montgomerySub m₁ m₂) (x - y) ∧
      (m₁ = m₂ ↔ x = y)) ∧
    MontgomeryForm 0 0 ∧ MontgomeryForm MONTGOMERY_ONE 1 ∧
    (∀ lo hi : Word, lo.toNat + 2 ^ 256 * hi.toNat < P.toNat * 2 ^ 256 →
      hi.toNat + (mulHigh (mul lo N_PRIME) P).toNat < 2 ^ 256 ∧
      (add hi (mulHigh (mul lo N_PRIME) P)).toNat + 1 < 2 ^ 256 ∧
      ((overflowingAdd lo (mul (mul lo N_PRIME) P)).2 ≠ 0 ↔
        2 ^ 256 ≤ lo.toNat + (mul (mul lo N_PRIME) P).toNat)) := by
  refine ⟨fun a => ?_, fun a => outOf_intoMontgomeryForm, fun m => existsUnique_montgomeryForm,
    fun m x hm => ?_, fun m₁ m₂ x y h₁ h₂ => ?_, ?_, ?_, fun lo hi hT => ?_⟩
  · rw [montgomeryForm_iff, intoMontgomeryForm_eq]
  · rw [montgomeryForm_iff] at hm
    subst hm
    have hsub := montgomerySub_enc x 0
    rw [sub_zero, enc_zero] at hsub
    exact ⟨by rw [outOfMontgomeryForm_enc, toNat_toWord], hsub⟩
  · rw [montgomeryForm_iff] at h₁ h₂
    subst h₁ h₂
    refine ⟨?_, ?_, ?_, enc_inj⟩
    · rw [montgomeryForm_iff, montgomeryMul_enc]
    · rw [montgomeryForm_iff, montgomeryAdd_enc]
    · rw [montgomeryForm_iff, montgomerySub_enc]
  · rw [montgomeryForm_iff, enc_zero]
  · rw [montgomeryForm_iff, MONTGOMERY_ONE_eq]
  · have hlt := REDC_upper_lt hT
    have hadd : (add hi (mulHigh (mul lo N_PRIME) P)).toNat =
        hi.toNat + (mulHigh (mul lo N_PRIME) P).toNat := toNat_add_of_lt (by omega)
    refine ⟨by omega, by omega, ?_⟩
    rw [overflowingAdd_snd, boolWord_ne_zero]

theorem montgomery_layer_isomorphism_seven :
    outOfMontgomeryForm (intoMontgomeryForm 7) = 7 ∧
    montgomerySub (enc (7 : ZMod p)) 0 = enc (7 : ZMod p) ∧
    MontgomeryForm (montgomeryMul (enc (7 : ZMod p)) (enc (2 : ZMod p))) (7 * 2) ∧
    (add 3 (mulHigh (mul 5 N_PRIME) P)).toNat + 1 < 2 ^ 256 := by
  obtain ⟨-, hout, -, hzero, hops, -, -, hsum⟩ := montgomery_layer_isomorphism
  have h7 : MontgomeryForm (enc (7 : ZMod p)) 7 := montgomeryForm_iff.mpr rfl
  have h2 : MontgomeryForm (enc (2 : ZMod p)) 2 := montgomeryForm_iff.mpr rfl
  exact ⟨hout 7 (by decide), (hzero _ _ h7).2, (hops _ _ _ _ h7 h2).1,
    (hsum 5 3 (by decide)).2.1⟩

/-! ## Inversion -/

theorem halves_halve : Halves p halve := by
  intro b hb
  have hp := p_lt
  by_cases heven : b.toNat % 2 = 0
  · have htest : and b 1 = 0 := and_one_eq_zero.mpr heven
    rw [halve, if_pos htest, toNat_shr_one]
    have hhalf : b.toNat / 2 * 2 = b.toNat := by omega
    refine ⟨by omega, ?_⟩
    exact_mod_cast congrArg (Nat.cast (R := ZMod p)) hhalf
  · have hodd : p % 2 = 1 := WordModulus.odd
    have htest : ¬and b 1 = 0 := mt and_one_eq_zero.mp heven
    have hsum : (add b P).toNat = b.toNat + p := by
      rw [toNat_add_of_lt (by rw [toNat_P]; omega), toNat_P]
    rw [halve, if_neg htest, toNat_shr_one, hsum]
    have hhalf : (b.toNat + p) / 2 * 2 = b.toNat + p := by omega
    refine ⟨by omega, ?_⟩
    have hcast := congrArg (Nat.cast (R := ZMod p)) hhalf
    rw [Nat.cast_mul, Nat.cast_add, ZMod.natCast_self, add_zero] at hcast
    exact hcast

theorem montgomeryModularInverse_enc {x : ZMod p} (hx : x ≠ 0) :
    Yields (fun fuel => montgomeryModularInverse fuel (enc x)) (enc x⁻¹) :=
  binaryEuclid_enc halves_halve toNat_P R2_MOD_P_eq (inv_mul_cancel₀ hx)

/-- Inverting zero, the loop never ends. -/
theorem montgomeryModularInverse_zero_diverges :
    Diverges (fun fuel => montgomeryModularInverse fuel (enc (0 : ZMod p))) := by
  rw [enc_zero]
  exact binaryEuclid_zero_diverges halve R2_MOD_P toNat_P

end EraPrecompiles.Bn254
