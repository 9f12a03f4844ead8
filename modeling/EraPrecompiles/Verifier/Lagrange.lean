import EraPrecompiles.Arith.Pratt
import EraPrecompiles.Arith.RootsOfUnity
import EraPrecompiles.Plonk.Verification
import EraPrecompiles.Verifier.Powers

/-!
# Lagrange polynomials of the domain

The domain consists of the powers of `OMEGA`, a primitive root of unity of order `DOMAIN_SIZE`.
The verifier evaluates the Lagrange polynomials of the domain at points outside of it.
-/

namespace EraPrecompiles.Verifier

open Bn254

/-! ## The program -/

/-- The value of the Lagrange polynomial of number `polyNum`. -/
def evaluateLagrangePolyOutOfDomain (fuel : ℕ) (polyNum at_ : Word) : Contract Word := do
  let omegaPower ← (if polyNum ≠ 0 then modexp fuel OMEGA polyNum else pure 1)
  let res := addmod (← modexp fuel at_ DOMAIN_SIZE) (sub R_MOD 1) R_MOD
  if iszero res ≠ 0 then
    revertWithMessage 28 "invalid vanishing polynomial"
  let res := mulmod res omegaPower R_MOD
  let denominator := addmod at_ (sub R_MOD omegaPower) R_MOD
  let denominator := mulmod denominator DOMAIN_SIZE R_MOD
  let denominator ← modexp fuel denominator (sub R_MOD 2)
  return mulmod res denominator R_MOD

/-! ## The domain -/

/-- The number of elements of the domain. -/
def domainSize : ℕ :=
  2 ^ 24

theorem toNat_DOMAIN_SIZE : DOMAIN_SIZE.toNat = domainSize := by
  decide

theorem DOMAIN_SIZE_ne_zero : DOMAIN_SIZE ≠ 0 := by
  decide

theorem residue_DOMAIN_SIZE : residue DOMAIN_SIZE = domainSize := by
  rw [residue, toNat_DOMAIN_SIZE]

/-- The generator of the domain. -/
def omega : ZMod r :=
  residue OMEGA

theorem omega_primitive : IsPrimitiveRoot omega domainSize := by
  have hhalf : powMod r OMEGA.toNat (2 ^ 23) ≠ 1 := by decide +kernel
  have hfull : powMod r OMEGA.toNat (2 ^ (23 + 1)) = 1 := by decide +kernel
  have horder : orderOf omega = 2 ^ (23 + 1) := by
    have hr : 1 < r := prime_r.out.one_lt
    exact orderOf_eq_prime_pow (mt (pow_eq_one_iff_powMod hr).mp hhalf)
      ((pow_eq_one_iff_powMod hr).mpr hfull)
  have h := IsPrimitiveRoot.orderOf omega
  rwa [horder] at h

/-- The domain of the verifier, and its factors for the cosets. -/
def setting : Plonk.Setting (ZMod r) where
  n := domainSize
  omega := omega
  k0 := residue NON_RESIDUES_0
  k1 := residue NON_RESIDUES_1
  k2 := residue NON_RESIDUES_2

theorem iszero_ne_zero {w : Word} : iszero w ≠ 0 ↔ w = 0 :=
  boolWord_ne_zero _

/-! ## Evaluation -/

/-- The power of the generator, which is one for the first polynomial. -/
theorem omegaPower_spec (mem : Memory) (polyNum : Word) :
    Reaches (fun fuel => if polyNum ≠ 0 then modexp fuel OMEGA polyNum else pure 1) mem
      fun w mem' => IsScalar w (omega ^ polyNum.toNat) ∧ Keeps Lasting mem mem' := by
  by_cases h : polyNum = 0
  · subst h
    simp only [ne_eq, not_true, if_false]
    have hzero : (0 : Word).toNat = 0 := rfl
    rw [hzero, pow_zero]
    exact Reaches.pure ⟨IsScalar.one, Keeps.refl Lasting mem⟩
  · simp only [if_pos h]
    exact modexp_spec mem rfl h

/-- The power to `r - 2` is the inverse. -/
theorem pow_sub_two (a : ZMod r) : a ^ (sub R_MOD 2).toNat = a⁻¹ := by
  have hexp : (sub R_MOD 2).toNat = r - 2 := by decide
  have hr : 2 < r := by decide
  rw [hexp]
  by_cases ha : a = 0
  · rw [ha, inv_zero, zero_pow (by omega)]
  · refine eq_inv_of_mul_eq_one_left ?_
    have hsucc : r - 2 + 1 = r - 1 := by omega
    rw [← pow_succ, hsucc]
    exact ZMod.pow_card_sub_one_eq_one ha

/-- The value of the polynomial that vanishes on the domain. -/
theorem vanishing_spec (mem : Memory) {at_ : Word} {x : ZMod r} (hx : residue at_ = x) :
    Reaches (fun fuel => modexp fuel at_ DOMAIN_SIZE) mem fun w mem' =>
      IsScalar (addmod w (sub R_MOD 1) R_MOD) (x ^ domainSize - 1) ∧ Keeps Lasting mem mem' := by
  refine (modexp_spec mem hx DOMAIN_SIZE_ne_zero).mono fun w mem' h => ⟨?_, h.2⟩
  rw [← toNat_DOMAIN_SIZE]
  exact h.1.sub IsScalar.one

section Evaluation

variable {polyNum at_ : Word} {x : ZMod r} (mem : Memory)

/-- At a point of the domain the vanishing polynomial is zero. -/
theorem evaluateLagrangePolyOutOfDomain_reverts (polyNum : Word) (hx : residue at_ = x)
    (hin : x ^ domainSize = 1) :
    Ends (fun fuel => evaluateLagrangePolyOutOfDomain fuel polyNum at_) mem
      (.error ⟨errorData 28 "invalid vanishing polynomial"⟩) := by
  refine (omegaPower_spec mem polyNum).bind_ends fun w mem₁ _ => ?_
  refine (vanishing_spec mem₁ hx).bind_ends fun y mem₂ hy => ?_
  have htest : iszero (addmod y (sub R_MOD 1) R_MOD) ≠ 0 := by
    rw [iszero_ne_zero, hy.1.eq_zero_iff, hin, sub_self]
  simp only [if_pos htest]
  exact Ends.bind_error (revertWithMessage_ends _ _ _) _

/-- Outside of the domain the call returns the value of the Lagrange polynomial. -/
theorem evaluateLagrangePolyOutOfDomain_spec (hpoly : polyNum.toNat < domainSize)
    (hx : residue at_ = x) (hout : x ^ domainSize ≠ 1) :
    Reaches (fun fuel => evaluateLagrangePolyOutOfDomain fuel polyNum at_) mem fun w mem' =>
      IsScalar w ((setting.lagrange polyNum.toNat).eval x) ∧ Keeps Lasting mem mem' := by
  refine (omegaPower_spec mem polyNum).bind fun w mem₁ ⟨hw, hkeeps₁⟩ => ?_
  refine (vanishing_spec mem₁ hx).bind fun y mem₂ ⟨hy, hkeeps₂⟩ => ?_
  have htest : ¬iszero (addmod y (sub R_MOD 1) R_MOD) ≠ 0 := by
    rw [iszero_ne_zero, hy.eq_zero_iff, sub_eq_zero]
    exact hout
  have hdenominator : residue (mulmod (addmod at_ (sub R_MOD w) R_MOD) DOMAIN_SIZE R_MOD) =
      (x - omega ^ polyNum.toNat) * domainSize := by
    rw [residue_mulmod, residue_addmod, hw.residue_neg, hx, residue_DOMAIN_SIZE, sub_eq_add_neg]
  simp only [if_neg htest]
  refine (modexp_spec mem₂ hdenominator (show sub R_MOD 2 ≠ 0 by decide)).bind
    fun d mem₃ ⟨hd, hkeeps₃⟩ => ?_
  refine Reaches.pure ⟨((hy.mul hw).mul hd).congr ?_, (hkeeps₁.trans hkeeps₂).trans hkeeps₃⟩
  rw [pow_sub_two]
  exact (eval_basis_powers omega_primitive hpoly hout).symm

theorem IsScalar.eq_ofNat {w : Word} {x : ZMod r} (h : IsScalar w x) :
    w = BitVec.ofNat 256 x.val := by
  have hval : x.val = w.toNat := by
    rw [← h.residue_eq, residue, ZMod.val_natCast, Nat.mod_eq_of_lt h.lt]
  rw [hval, BitVec.ofNat_toNat, BitVec.setWidth_eq]

open Classical in
/-- At the points of the domain the call reverts, and elsewhere it returns the reduced value. -/
theorem evaluateLagrangePolyOutOfDomain_exact (hpoly : polyNum.toNat < domainSize) (at_ : Word) :
    Answers (fun fuel => evaluateLagrangePolyOutOfDomain fuel polyNum at_) mem
      (if ∃ i < domainSize, residue at_ = omega ^ i then
        .error ⟨errorData 28 "invalid vanishing polynomial"⟩
      else
        .ok (BitVec.ofNat 256 ((setting.lagrange polyNum.toNat).eval (residue at_)).val)) := by
  have hpos : NeZero domainSize := ⟨by decide⟩
  by_cases hin : residue at_ ^ domainSize = 1
  · obtain ⟨i, hi, h⟩ := omega_primitive.eq_pow_of_pow_eq_one hin
    rw [if_pos ⟨i, hi, h.symm⟩]
    exact ⟨mem, evaluateLagrangePolyOutOfDomain_reverts mem polyNum rfl hin⟩
  · have hdomain : ¬∃ i < domainSize, residue at_ = omega ^ i := by
      rintro ⟨i, -, h⟩
      rw [h, ← pow_mul, Nat.mul_comm, pow_mul, omega_primitive.pow_eq_one, one_pow] at hin
      exact hin rfl
    rw [if_neg hdomain]
    obtain ⟨w, mem', hends, hw, -⟩ := evaluateLagrangePolyOutOfDomain_spec mem hpoly rfl hin
    refine ⟨mem', hends.of_eq ?_⟩
    rw [← hw.eq_ofNat]
    rfl

open Classical in
theorem evaluateLagrangePolyOutOfDomain_exact_two :
    Answers (fun fuel => evaluateLagrangePolyOutOfDomain fuel 0 2) (fun _ => 0)
      (if ∃ i < domainSize, residue 2 = omega ^ i then
        .error ⟨errorData 28 "invalid vanishing polynomial"⟩
      else
        .ok (BitVec.ofNat 256 ((setting.lagrange (0 : Word).toNat).eval (residue 2)).val)) :=
  evaluateLagrangePolyOutOfDomain_exact (fun _ => 0) (by decide) 2

end Evaluation

end EraPrecompiles.Verifier
