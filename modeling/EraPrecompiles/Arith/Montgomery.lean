import EraPrecompiles.Yul.Word
import Mathlib.Data.BitVec
import Mathlib.Data.ZMod.Units

/-!
# Residues as words, and Montgomery reduction

Let `n` be an odd modulus below `2^256`.  A residue `x` modulo `n` has two
encodings as a word:

* `toWord x`, the canonical representative;
* `enc x`, the Montgomery form, that is `toWord (x * 2^256)`.

Both are injective, and their values are exactly the words below `n`.  So every
fact about words in Montgomery form can be stated about `enc x` for residues
`x`, and an operation on Montgomery forms is correct when it commutes with
`enc`.

Montgomery reduction takes a number `T < n * 2^256`, given by its two halves,
to the representative of `T * 2^(-256)`.  The implementations differ in how
they treat the carries; what they share is `redc_sum` and `redc_toWord`.
-/

namespace EraPrecompiles

/-- The moduli Montgomery reduction is used with. -/
class WordModulus (n : ℕ) : Prop where
  odd : n % 2 = 1
  one_lt : 1 < n
  lt : n < 2 ^ 256

namespace WordModulus

variable (n : ℕ) [WordModulus n]

instance (priority := 100) neZero : NeZero n :=
  ⟨by have := one_lt (n := n); omega⟩

instance (priority := 100) fact_one_lt : Fact (1 < n) :=
  ⟨one_lt⟩

theorem coprime_radix : Nat.Coprime (2 ^ 256) n := by
  refine Nat.Coprime.pow_left 256 ?_
  rw [Nat.coprime_two_left, Nat.odd_iff]
  exact odd

end WordModulus

/-- `2^256` as a residue. -/
def radix (n : ℕ) : ZMod n :=
  ((2 ^ 256 : ℕ) : ZMod n)

section Encoding

variable {n : ℕ} [WordModulus n]

/-- The canonical representative of a residue. -/
def toWord (x : ZMod n) : Word :=
  BitVec.ofNat 256 x.val

/-- The Montgomery form of a residue. -/
def enc (x : ZMod n) : Word :=
  toWord (x * radix n)

theorem radix_mul_inv : radix n * (radix n)⁻¹ = 1 :=
  ZMod.coe_mul_inv_eq_one _ (WordModulus.coprime_radix n)

theorem two_mul_cancel {x y : ZMod n} (h : x * 2 = y * 2) : x = y := by
  have hcop : Nat.Coprime 2 n := by
    rw [Nat.coprime_two_left, Nat.odd_iff]
    exact WordModulus.odd
  have hinv : (2 : ZMod n) * (2 : ZMod n)⁻¹ = 1 := by
    exact_mod_cast ZMod.coe_mul_inv_eq_one 2 hcop
  calc
    x = x * 2 * (2 : ZMod n)⁻¹ := by rw [mul_assoc, hinv, mul_one]
    _ = y * 2 * (2 : ZMod n)⁻¹ := by rw [h]
    _ = y := by rw [mul_assoc, hinv, mul_one]

theorem toNat_toWord (x : ZMod n) : (toWord x).toNat = x.val :=
  toNat_ofNat_of_lt ((ZMod.val_lt x).trans WordModulus.lt)

theorem toNat_toWord_lt (x : ZMod n) : (toWord x).toNat < n := by
  rw [toNat_toWord]
  exact ZMod.val_lt x

@[simp] theorem cast_toWord (x : ZMod n) :
    ((toWord x).toNat : ZMod n) = x := by
  rw [toNat_toWord, ZMod.natCast_val, ZMod.cast_id', id]

omit [WordModulus n] in
theorem toWord_natCast {k : ℕ} (hk : k < n) :
    toWord (k : ZMod n) = BitVec.ofNat 256 k := by
  rw [toWord, ZMod.val_natCast_of_lt hk]

omit [WordModulus n] in
/-- A word below the modulus is the representative of its residue. -/
theorem toWord_cast {w : Word} (hw : w.toNat < n) :
    toWord (w.toNat : ZMod n) = w := by
  rw [toWord_natCast hw]
  exact word_ext (toNat_ofNat_of_lt (word_lt w))

theorem toWord_injective : Function.Injective (toWord (n := n)) := by
  intro x y h
  rw [← cast_toWord x, h, cast_toWord]

@[simp] theorem toWord_inj {x y : ZMod n} : toWord x = toWord y ↔ x = y :=
  toWord_injective.eq_iff

theorem toNat_enc_lt (x : ZMod n) : (enc x).toNat < n :=
  toNat_toWord_lt _

@[simp] theorem cast_enc (x : ZMod n) :
    ((enc x).toNat : ZMod n) = x * radix n :=
  cast_toWord _

theorem enc_injective : Function.Injective (enc (n := n)) := by
  intro x y h
  have hmul : x * radix n = y * radix n := toWord_injective h
  calc
    x = x * radix n * (radix n)⁻¹ := by rw [mul_assoc, radix_mul_inv, mul_one]
    _ = y * radix n * (radix n)⁻¹ := by rw [hmul]
    _ = y := by rw [mul_assoc, radix_mul_inv, mul_one]

@[simp] theorem enc_inj {x y : ZMod n} : enc x = enc y ↔ x = y :=
  enc_injective.eq_iff

omit [WordModulus n] in
@[simp] theorem toWord_zero : toWord (0 : ZMod n) = 0 := by
  rw [toWord, ZMod.val_zero]
  rfl

omit [WordModulus n] in
@[simp] theorem enc_zero : enc (0 : ZMod n) = 0 := by
  rw [enc, zero_mul, toWord_zero]

@[simp] theorem enc_eq_zero {x : ZMod n} : enc x = 0 ↔ x = 0 := by
  rw [← enc_zero (n := n), enc_inj]

/-- Every word below the modulus is a Montgomery form. -/
theorem exists_enc {w : Word} (hw : w.toNat < n) :
    ∃ x : ZMod n, w = enc x := by
  refine ⟨w.toNat * (radix n)⁻¹, ?_⟩
  rw [enc, mul_assoc, mul_comm _ (radix n), radix_mul_inv, mul_one,
    toWord_cast hw]

omit [WordModulus n] in
/-- The word of a precomputed constant. -/
theorem enc_natCast (k : ℕ) :
    enc (k : ZMod n) = BitVec.ofNat 256 (k * 2 ^ 256 % n) := by
  rw [enc, radix, ← Nat.cast_mul, toWord, ZMod.val_natCast]

omit [WordModulus n] in
theorem enc_ofNat (k : ℕ) [k.AtLeastTwo] :
    enc (OfNat.ofNat k : ZMod n) = BitVec.ofNat 256 (k * 2 ^ 256 % n) :=
  enc_natCast k

theorem eq_enc (x y : ZMod n) : eq (enc x) (enc y) = boolWord (x = y) :=
  boolWord_congr enc_inj

end Encoding

/-! ## Montgomery reduction -/

section Reduction

variable (lo hi n n' : Word)

/-- The multiplier `m` cancels the lower word. -/
theorem redc_low (hn : add (mul n n') 1 = 0) :
    add lo (mul (mul lo n') n) = 0 := by
  have h : lo + lo * n' * n = lo * (n * n' + 1) := by ring
  show lo + lo * n' * n = 0
  have hn' : n * n' + 1 = 0 := hn
  rw [h, hn', mul_zero]

/-- So the addition of the lower words has a carry unless `lo` is zero. -/
theorem redc_carry (hn : add (mul n n') 1 = 0) :
    (overflowingAdd lo (mul (mul lo n') n)).2 = boolWord (lo ≠ 0) := by
  rw [overflowingAdd_snd]
  refine boolWord_congr ?_
  have hlow := congrArg BitVec.toNat (redc_low lo n n' hn)
  rw [toNat_add] at hlow
  have hlow' : (lo.toNat + (mul (mul lo n') n).toNat) % 2 ^ 256 = 0 := hlow
  have h₁ := word_lt lo
  have h₂ := word_lt (mul (mul lo n') n)
  rw [ne_eq, ← toNat_eq_zero]
  constructor
  · intro h h0
    omega
  · intro h
    omega

/-- Without a lower word there is nothing to cancel. -/
theorem mulHigh_of_low_zero {lo : Word} (h0 : lo = 0) (n n' : Word) :
    (mulHigh (mul lo n') n).toNat = 0 := by
  have hmul : mul lo n' = 0 := by
    rw [h0]
    exact BitVec.zero_mul
  rw [hmul, toNat_mulHigh, toNat_eq_zero.mpr rfl, Nat.zero_mul, Nat.zero_div]

/-- The sum of the upper words and the carry is `(T + m * n) / 2^256`. -/
theorem redc_sum (hn : add (mul n n') 1 = 0) :
    2 ^ 256 * (hi.toNat + (mulHigh (mul lo n') n).toNat +
        (if lo ≠ 0 then 1 else 0)) =
      lo.toNat + 2 ^ 256 * hi.toNat + (mul lo n').toNat * n.toNat := by
  have hlow := congrArg BitVec.toNat (redc_low lo n n' hn)
  rw [toNat_add] at hlow
  have hlow' : (lo.toNat + (mul (mul lo n') n).toNat) % 2 ^ 256 = 0 := hlow
  have hprod := mulHigh_mul (mul lo n') n
  have h₁ := word_lt lo
  have h₂ := word_lt (mul (mul lo n') n)
  by_cases h0 : lo = 0
  · rw [if_neg (not_not_intro h0)]
    have : lo.toNat = 0 := toNat_eq_zero.mpr h0
    omega
  · rw [if_pos h0]
    have : lo.toNat ≠ 0 := fun h => h0 (toNat_eq_zero.mp h)
    omega

end Reduction

/-- The sum before the final subtraction is below `2 * n`. -/
theorem redc_lt {n t m T : ℕ} (hm : m < 2 ^ 256)
    (ht : 2 ^ 256 * t = T + m * n) (hT : T < n * 2 ^ 256) : t < 2 * n := by
  have hn : 0 < n := by
    by_contra h
    have : n = 0 := by omega
    subst this
    omega
  have hmn : m * n < 2 ^ 256 * n := Nat.mul_lt_mul_of_pos_right hm hn
  nlinarith

/-- The final subtraction, for a sum that has not wrapped. -/
theorem toNat_reduceOnce {n : ℕ} {N : Word} (hN : N.toNat = n) (t : Word) :
    (if iszero (lt t N) ≠ 0 then sub t N else t).toNat =
      if t.toNat < n then t.toNat else t.toNat - n := by
  have htest : iszero (lt t N) ≠ 0 ↔ ¬t.toNat < n := by
    rw [lt, iszero_boolWord, boolWord_ne_zero, hN]
  by_cases h : t.toNat < n
  · rw [if_neg (mt htest.mp (not_not_intro h)), if_pos h]
  · rw [if_pos (htest.mpr h), if_neg h, toNat_sub_of_le (by omega), hN]

/-- The final subtraction, for a sum that may have wrapped. -/
theorem toNat_sub_of_wrap {n t : ℕ} {w N : Word} (hN : N.toNat = n)
    (hw : w.toNat = t % 2 ^ 256) (ht : t < 2 * n) (hle : n ≤ t) :
    (sub w N).toNat = t - n := by
  have hlt := word_lt N
  have hsub := toNat_sub w N
  omega

/-- The result of a reduction, as a congruence. -/
theorem redc_modEq {n t m T S : ℕ} (ht : 2 ^ 256 * t = T + m * n) (hlt : t < 2 * n)
    (hS : S = if t < n then t else t - n) : S < n ∧ S * 2 ^ 256 ≡ T [MOD n] := by
  have hmod : t * 2 ^ 256 ≡ T [MOD n] := by
    rw [Nat.mul_comm, ht]
    exact Nat.add_mul_modulus_modEq_iff.mpr rfl
  by_cases h : t < n
  · rw [hS, if_pos h]
    exact ⟨h, hmod⟩
  · rw [hS, if_neg h]
    have hback : t - n + n = t := by omega
    refine ⟨by omega, Nat.ModEq.trans ?_ hmod⟩
    have hsub : t - n ≡ t [MOD n] := by
      conv_rhs => rw [← hback]
      exact (Nat.add_modulus_modEq_iff.mpr rfl).symm
    exact hsub.mul_right _

/-- After the final subtraction the result is the representative of
`T * 2^(-256)`. -/
theorem redc_toWord {n t m T : ℕ} [WordModulus n] {S : Word}
    (hm : m < 2 ^ 256) (ht : 2 ^ 256 * t = T + m * n)
    (hT : T < n * 2 ^ 256)
    (hS : S.toNat = if t < n then t else t - n) :
    S = toWord ((T : ZMod n) * (radix n)⁻¹) := by
  have hlt := redc_lt hm ht hT
  have hSn : S.toNat < n := by
    rw [hS]
    split <;> omega
  have hcast : (S.toNat : ZMod n) = (t : ZMod n) := by
    rw [hS]
    split
    · rfl
    · next h =>
        rw [Nat.cast_sub (by omega), ZMod.natCast_self, sub_zero]
  have hT' : radix n * (t : ZMod n) = (T : ZMod n) := by
    have h := congrArg (Nat.cast (R := ZMod n)) ht
    rw [Nat.cast_mul, Nat.cast_add, Nat.cast_mul, ZMod.natCast_self, mul_zero,
      add_zero] at h
    exact h
  rw [← toWord_cast hSn, hcast, ← hT', mul_comm (radix n), mul_assoc,
    radix_mul_inv, mul_one]

end EraPrecompiles
