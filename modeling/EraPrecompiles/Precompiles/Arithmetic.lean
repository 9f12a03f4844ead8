import EraPrecompiles.Bn254.Montgomery
import EraPrecompiles.Precompiles.P256VERIFY
import EraPrecompiles.Precompiles.Secp256k1VERIFY

/-!
# The arithmetic that the precompiles share

Two results about all precompiles with field arithmetic, for any modulus that the functions
can be called with.

* `binaryExtendedEuclideanAlgorithm_inverts`: the inversion loops end on every base prime to
  the modulus, and return the inverse in Montgomery form.  The version of the signature
  precompiles takes the modulus as an argument; the version of the BN254 precompiles has it
  built in.
* `REDC_exact`: the two reductions of the signature precompiles, which correct an overflow
  at different places, return the same word.
-/

namespace EraPrecompiles

/-! ## Inversion -/

/-- What the inversion returns: `r2` divided by the base, which is a Montgomery form if `r2`
is the residue of `2^512`. -/
structure MontgomeryInverse (n : ℕ) (r2 base inv : Word) : Prop where
  lt : inv.toNat < n
  mul : inv.toNat * base.toNat ≡ r2.toNat [MOD n]
  decode : r2.toNat = 2 ^ 512 % n → ∀ x : ZMod n, (base.toNat : ZMod n) = x * radix n →
    x * x⁻¹ = 1 ∧ (inv.toNat : ZMod n) = x⁻¹ * radix n

section Inversion

variable {n : ℕ} [WordModulus n]

omit [WordModulus n] in
/-- The word `2^512 mod n` is the square of the radix. -/
theorem natCast_square {r2 : Word} (hr2 : r2.toNat = 2 ^ 512 % n) :
    (r2.toNat : ZMod n) = radix n * radix n := by
  have hpow : (2 : ℕ) ^ 512 = 2 ^ 256 * 2 ^ 256 := by
    rw [← pow_add]
  rw [hr2, ZMod.natCast_mod, hpow, Nat.cast_mul, radix]

theorem binaryEuclid_inverts {halve : Word → Word} {modulus : Word} (hh : Halves n halve)
    (hm : modulus.toNat = n) {r2 base : Word} (hr2 : r2.toNat < n) (hbase : base ≠ 0)
    (hcop : Nat.Coprime base.toNat n) :
    ∃ inv, Yields (fun fuel => binaryEuclid halve modulus r2 fuel base) inv ∧
      MontgomeryInverse n r2 base inv := by
  obtain ⟨inv, hy, hlt, hmul⟩ := binaryEuclid_yields hh hm hr2 hbase hcop
  refine ⟨inv, hy, hlt, ?_, fun hsquare x hx => ?_⟩
  · rw [← ZMod.natCast_eq_natCast_iff, Nat.cast_mul]
    exact hmul
  · have hbaseUnit : IsUnit (x * radix n) := by
      rw [← hx, ZMod.isUnit_iff_coprime]
      exact hcop
    have hunit : x * x⁻¹ = 1 := ZMod.mul_inv_of_unit x (isUnit_of_mul_isUnit_left hbaseUnit)
    refine ⟨hunit, hbaseUnit.mul_right_cancel ?_⟩
    rw [← hx, hmul, natCast_square hsquare, hx]
    calc
      radix n * radix n = x * x⁻¹ * (radix n * radix n) := by rw [hunit, one_mul]
      _ = x⁻¹ * radix n * (x * radix n) := by ring

end Inversion

/-- Both versions of the inversion, for all their arguments. -/
theorem binaryExtendedEuclideanAlgorithm_inverts :
    (∀ modulus r2 base : Word, modulus.toNat % 2 = 1 → 1 < modulus.toNat →
      r2.toNat < modulus.toNat → base ≠ 0 → base.toNat < modulus.toNat →
      Nat.Coprime base.toNat modulus.toNat →
      ∃ inv, Yields (fun fuel =>
          Ecdsa.binaryExtendedEuclideanAlgorithm fuel base modulus r2) inv ∧
        MontgomeryInverse modulus.toNat r2 base inv) ∧
    (∀ base : Word, base ≠ 0 → base.toNat < Bn254.P.toNat →
      ∃ inv, Yields (fun fuel => Bn254.binaryExtendedEuclideanAlgorithm fuel base) inv ∧
        MontgomeryInverse Bn254.P.toNat Bn254.R2_MOD_P base inv) ∧
    Bn254.R2_MOD_P.toNat = 2 ^ 512 % Bn254.P.toNat := by
  refine ⟨fun modulus r2 base hodd hone hr2 hbase _ hcop => ?_, fun base hbase hlt => ?_, ?_⟩
  · have : WordModulus modulus.toNat := ⟨hodd, hone, word_lt modulus⟩
    exact binaryEuclid_inverts (Ecdsa.halves_halve rfl) rfl hr2 hbase hcop
  · have hR : Bn254.R2_MOD_P.toNat < Bn254.p := by decide
    have hpos : base.toNat ≠ 0 := mt toNat_eq_zero.mp hbase
    rw [Bn254.toNat_P] at hlt ⊢
    have hcop : Nat.Coprime base.toNat Bn254.p :=
      (Nat.coprime_of_lt_prime hpos hlt Bn254.prime_p.out).symm
    exact binaryEuclid_inverts Bn254.halves_halve Bn254.toNat_P hR hbase hcop
  · decide +kernel

/-- A modulus with all bits set, and the base two. -/
theorem binaryExtendedEuclideanAlgorithm_inverts_two :
    ∃ inv, Yields (fun fuel =>
        Ecdsa.binaryExtendedEuclideanAlgorithm fuel 2 (sub 0 1) 1) inv ∧
      MontgomeryInverse (sub 0 1).toNat 1 2 inv :=
  binaryExtendedEuclideanAlgorithm_inverts.1 (sub 0 1) 1 2 (by decide) (by decide)
    (by decide) (by decide) (by decide) (by decide)

/-! ## Reduction -/

/-- The two reductions of the signature precompiles are exact, and so return the same
word. -/
theorem REDC_exact {TLo THi n nPrime : Word} (hinv : add (mul n nPrime) 1 = 0)
    (hT : TLo.toNat + 2 ^ 256 * THi.toNat < n.toNat * 2 ^ 256) :
    ((P256VERIFY.REDC TLo THi n nPrime).toNat < n.toNat ∧
      (P256VERIFY.REDC TLo THi n nPrime).toNat * 2 ^ 256 ≡
        TLo.toNat + 2 ^ 256 * THi.toNat [MOD n.toNat]) ∧
    ((Secp256k1VERIFY.REDC TLo THi n nPrime).toNat < n.toNat ∧
      (Secp256k1VERIFY.REDC TLo THi n nPrime).toNat * 2 ^ 256 ≡
        TLo.toNat + 2 ^ 256 * THi.toNat [MOD n.toNat]) ∧
    P256VERIFY.REDC TLo THi n nPrime = Secp256k1VERIFY.REDC TLo THi n nPrime ∧
    Secp256k1VERIFY.redcCorrections TLo THi n nPrime ≤ 1 ∧
    ((Secp256k1VERIFY.redcUpper TLo THi n nPrime).2 ≠ 0 →
      (Secp256k1VERIFY.redcUpper TLo THi n nPrime).1.toNat + (sub 0 n).toNat < 2 ^ 256) := by
  have hsum := redc_sum TLo THi n nPrime hinv
  have hlt := redc_lt (word_lt (mul TLo nPrime)) hsum hT
  have hp := P256VERIFY.toNat_REDC hinv rfl hlt
  have hs := Secp256k1VERIFY.toNat_REDC hinv rfl hlt
  have hcorr := Secp256k1VERIFY.redc_corrections_le hinv rfl hlt
  refine ⟨redc_modEq hsum hlt hp, redc_modEq hsum hlt hs, ?_, hcorr⟩
  exact word_ext (hp.trans hs.symm)

/-- With the largest modulus and the largest number below it. -/
theorem REDC_exact_large :
    P256VERIFY.REDC (sub 0 1) (sub 0 2) (sub 0 1) 1 =
      Secp256k1VERIFY.REDC (sub 0 1) (sub 0 2) (sub 0 1) 1 :=
  (@REDC_exact (sub 0 1) (sub 0 2) (sub 0 1) 1 (by decide) (by decide)).2.2.1

end EraPrecompiles
