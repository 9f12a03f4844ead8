import EraPrecompiles.ModExp.Shortcuts

/-!
# Operands of one word

With three operands of 32 bytes the call takes a path of its own: early returns for
special values, and square-and-multiply on words.  The early returns test the base for
zero before the exponent, so `0^0` gives zero where the general path gives one.

`oneLimbImplementation_yields` says what the path returns for all words, and
`oneLimb_agrees_iff` that this is the power, and what the early returns of the general
path return, for all words but these.
-/

namespace EraPrecompiles.ModExp

/-! ## The loop -/

/-- The invariant of square-and-multiply: what is left of the exponent, applied to the
base, is missing from the product. -/
structure PowInv (modulus total : ℕ) (s : Word × Word × Word) : Prop where
  lt : s.1.toNat < modulus
  total : s.1.toNat * s.2.1.toNat ^ s.2.2.toNat % modulus = total

/-- One round of the loop. -/
def powStep (modulus : Word) (s : Word × Word × Word) : Word × Word × Word :=
  let (pow, base, exponent) := s
  (if eq (mod exponent 2) 1 ≠ 0 then mulmod pow base modulus else pow,
    mulmod base base modulus, shr 1 exponent)

theorem mul_mod_mul_mod_pow (a b c e n : ℕ) : a * (b * c % n) ^ e % n = a * (b * c) ^ e % n := by
  rw [Nat.mul_mod, Nat.pow_mod, Nat.mod_mod, ← Nat.pow_mod, ← Nat.mul_mod]

theorem powStep_spec {modulus : Word} {total : ℕ} {s : Word × Word × Word}
    (hs : PowInv modulus.toNat total s) (hmod : modulus ≠ 0) :
    PowInv modulus.toNat total (powStep modulus s) := by
  obtain ⟨pow, base, exponent⟩ := s
  have hpos : 0 < modulus.toNat := Nat.pos_of_ne_zero (mt toNat_eq_zero.mp hmod)
  have hlt := hs.lt
  have htotal := hs.total
  dsimp only at hlt htotal
  have htest : eq (mod exponent 2) 1 ≠ 0 ↔ exponent.toNat % 2 = 1 := by
    have hbit := toNat_mod exponent (b := 2) (by decide)
    have htwo : (2 : Word).toNat = 2 := rfl
    rw [htwo] at hbit
    rw [eq, boolWord_ne_zero, ← toNat_eq_one, hbit]
  have hbase := toNat_mulmod base base hmod
  have hpow := toNat_mulmod pow base hmod
  have hhalf := toNat_shr_one exponent
  by_cases hodd : exponent.toNat % 2 = 1
  · have hexp : exponent.toNat = exponent.toNat / 2 + exponent.toNat / 2 + 1 := by omega
    rw [hexp, pow_succ, pow_add, ← mul_pow] at htotal
    refine ⟨?_, ?_⟩
    · rw [powStep, if_pos (htest.mpr hodd)]
      dsimp only
      rw [hpow]
      exact Nat.mod_lt _ hpos
    · rw [powStep, if_pos (htest.mpr hodd)]
      dsimp only
      rw [hbase, hpow, hhalf, mul_mod_mul_mod_pow, Nat.mod_mul_mod, ← htotal]
      congr 1
      ring
  · have hexp : exponent.toNat = exponent.toNat / 2 + exponent.toNat / 2 := by omega
    rw [hexp, pow_add, ← mul_pow] at htotal
    refine ⟨?_, ?_⟩
    · rw [powStep, if_neg (mt htest.mp hodd)]
      exact hlt
    · rw [powStep, if_neg (mt htest.mp hodd)]
      dsimp only
      rw [hbase, hhalf, mul_mod_mul_mod_pow, htotal]

theorem powLoop_yields {modulus : Word} {total : ℕ} {s : Word × Word × Word}
    (hs : PowInv modulus.toNat total s) (hmod : modulus ≠ 0) :
    ∃ pow : Word, Yields (fun fuel => iterate
        (fun (s : Word × Word × Word) =>
          if gt s.2.2 0 ≠ 0 then some (.next (powStep modulus s)) else some (.done s.1))
        fuel s) pow ∧ pow.toNat = total := by
  refine iterate_yields _ (fun s => PowInv modulus.toNat total s)
    (fun (r : Word) => r.toNat = total) (fun s => s.2.2.toNat) ?_ s hs
  rintro ⟨pow, base, exponent⟩ hs
  dsimp only
  have hzero : (0 : Word).toNat = 0 := rfl
  by_cases hexp : exponent.toNat = 0
  · left
    have htest : ¬gt exponent 0 ≠ 0 := by
      rw [gt_ne_zero]
      omega
    refine ⟨pow, Yields.of_eq fun _ => if_neg htest, ?_⟩
    have htotal := hs.total
    dsimp only at htotal
    rw [hexp, pow_zero, Nat.mul_one, Nat.mod_eq_of_lt hs.lt] at htotal
    exact htotal
  · right
    have htest : gt exponent 0 ≠ 0 := by
      rw [gt_ne_zero]
      omega
    refine ⟨_, Yields.of_eq fun _ => if_pos htest, powStep_spec hs hmod, ?_⟩
    show (shr 1 exponent).toNat < exponent.toNat
    rw [toNat_shr_one]
    omega

/-! ## The path -/

theorem returnMem_word (w : Word) :
    returnMem (mstore Memory.zero 0 w) 0 32 = result 32 w.toNat := by
  have h32 : (32 : Word).toNat = 32 := rfl
  have hzero : (0 : Word).toNat = 0 := rfl
  rw [returnMem_eq, result, h32, ← beNat_wordByte w]
  rw [beNat_congr fun i hi => mstore_of_mem hi]

/-- What the path returns: the base zero gives zero even for the exponent zero. -/
theorem oneLimbImplementation_yields (cd : Calldata) :
    Yields (fun fuel => oneLimbImplementation fuel cd)
      (result 32
        (if calldataload cd 96 = 0 then 0
        else eip198 (calldataload cd 96).toNat (calldataload cd 128).toNat
          (calldataload cd 160).toNat)) := by
  generalize hb : calldataload cd 96 = base
  generalize he : calldataload cd 128 = exponent
  generalize hm : calldataload cd 160 = modulus
  have htwo : (2 : Word).toNat = 2 := rfl
  have hone : (1 : Word).toNat = 1 := rfl
  have hzero : (0 : Word).toNat = 0 := rfl
  have hfirst : or (lt modulus 2) (iszero base) ≠ 0 ↔ modulus.toNat < 2 ∨ base = 0 := by
    rw [lt, iszero, or_boolWord, boolWord_ne_zero, htwo]
  have hsecond : or (eq base 1) (iszero exponent) ≠ 0 ↔ base = 1 ∨ exponent = 0 := by
    rw [eq, iszero, or_boolWord, boolWord_ne_zero]
  simp only [oneLimbImplementation, hb, he, hm, hfirst, hsecond, returnMem_word]
  by_cases hbase : base = 0
  · simp only [if_pos hbase, if_pos (Or.inr hbase : modulus.toNat < 2 ∨ base = 0)]
    exact Yields.const _
  rw [if_neg hbase]
  by_cases hmod : modulus.toNat < 2
  · rw [eip198_of_modulus_le_one (by omega)]
    simp only [if_pos (Or.inl hmod : modulus.toNat < 2 ∨ base = 0)]
    exact Yields.const _
  have htest : ¬(modulus.toNat < 2 ∨ base = 0) := fun h => h.elim hmod hbase
  by_cases hspecial : base = 1 ∨ exponent = 0
  · have hpow : base.toNat ^ exponent.toNat = 1 := by
      rcases hspecial with h | h
      · rw [h, hone, one_pow]
      · rw [h, hzero, pow_zero]
    rw [eip198_eq_one (by omega) hpow]
    simp only [if_neg htest, if_pos hspecial]
    exact Yields.const _
  have hmod0 : modulus ≠ 0 := by
    rw [ne_eq, ← toNat_eq_zero]
    omega
  have hinit : PowInv modulus.toNat (base.toNat ^ exponent.toNat % modulus.toNat)
      (1, mod base modulus, exponent) := by
    refine ⟨?_, ?_⟩
    · show (1 : Word).toNat < _
      omega
    · dsimp only
      rw [toNat_mod _ hmod0, hone, Nat.one_mul, ← Nat.pow_mod]
  obtain ⟨pow, hpow, hval⟩ := powLoop_yields hinit hmod0
  rw [eip198, if_neg (by omega), ← hval]
  simp only [if_neg htest, if_neg hspecial]
  exact hpow.bind (Yields.const _)

/-- The path returns the power, and what the general path would return early. -/
def OneLimbAgrees (cd : Calldata) : Prop :=
  Yields (fun fuel => oneLimbImplementation fuel cd)
      (result 32 (eip198 (calldataload cd 96).toNat (calldataload cd 128).toNat
        (calldataload cd 160).toNat)) ∧
    ∀ h, Yields (fun fuel => shortcuts fuel cd 32 32 32) (some h) →
      Yields (fun fuel => oneLimbImplementation fuel cd) h

theorem result_inj {len : Word} {v w : ℕ} (hv : v < 256 ^ len.toNat)
    (hw : w < 256 ^ len.toNat) (h : result len v = result len w) : v = w :=
  beBytes_injOn hv hw (Halt.returned.inj h)

/-- What the general path returns early is the power. -/
theorem shortcuts_oneLimb {cd : Calldata} {h : Halt}
    (hy : Yields (fun fuel => shortcuts fuel cd 32 32 32) (some h)) :
    h = result 32 (eip198 (calldataload cd 96).toNat (calldataload cd 128).toNat
      (calldataload cd 160).toNat) := by
  have h32 : (32 : Word).toNat = 32 := rfl
  have h96 : (96 : Word).toNat = 96 := rfl
  have h128 : (128 : Word).toNat = 128 := rfl
  have h160 : (160 : Word).toNat = 160 := rfl
  have hshort := shortcuts_yields cd 32 32 32 (by decide)
  dsimp only at hshort
  have heq := hshort.unique hy
  rw [toNat_calldataload_eq, toNat_calldataload_eq, toNat_calldataload_eq, h96, h128, h160]
  rw [h32] at heq
  split at heq
  · exact (Option.some.inj heq).symm
  · exact absurd heq (by simp)

/-- For operands of 32 bytes, the two paths and the power agree on all words but one
case: the base and the exponent zero, with a modulus above one. -/
theorem oneLimb_agrees_iff (cd : Calldata) :
    OneLimbAgrees cd ↔
      ¬(calldataload cd 96 = 0 ∧ calldataload cd 128 = 0 ∧
        1 < (calldataload cd 160).toNat) := by
  have hrun := oneLimbImplementation_yields cd
  constructor
  · rintro ⟨hagree, -⟩ ⟨hbase, hexp, hmod⟩
    have heq := hrun.unique hagree
    have hzero : (0 : Word).toNat = 0 := rfl
    have hone : eip198 0 0 (calldataload cd 160).toNat = 1 :=
      eip198_eq_one (by omega) (pow_zero 0)
    rw [if_pos hbase, hbase, hexp, hzero, hone] at heq
    have h32 : (32 : Word).toNat = 32 := rfl
    exact absurd (result_inj (by positivity) (by rw [h32]; norm_num) heq) (by norm_num)
  · intro hcase
    have hpower : Yields (fun fuel => oneLimbImplementation fuel cd)
        (result 32 (eip198 (calldataload cd 96).toNat (calldataload cd 128).toNat
          (calldataload cd 160).toNat)) := by
      by_cases hbase : calldataload cd 96 = 0
      · have hvalue : eip198 (calldataload cd 96).toNat (calldataload cd 128).toNat
            (calldataload cd 160).toNat = 0 := by
          by_cases hmod : (calldataload cd 160).toNat ≤ 1
          · exact eip198_of_modulus_le_one hmod
          · have hexp : (calldataload cd 128).toNat ≠ 0 := by
              intro h
              exact hcase ⟨hbase, toNat_eq_zero.mp h, by omega⟩
            rw [eip198, if_neg (by omega), hbase, toNat_eq_zero.mpr rfl, zero_pow hexp,
              Nat.zero_mod]
        rw [if_pos hbase] at hrun
        rw [hvalue]
        exact hrun
      · rw [if_neg hbase] at hrun
        exact hrun
    refine ⟨hpower, fun h hy => ?_⟩
    rw [shortcuts_oneLimb hy]
    exact hpower

/-- The zeroth power of zero modulo two. -/
def zeroPowerCall : Calldata where
  bytes := [(32 : Word), 32, 32, 0, 0, 2].flatMap wordBytes
  length_lt := by decide +kernel

theorem zeroPowerCall_words :
    calldataload zeroPowerCall 0 = 32 ∧ calldataload zeroPowerCall 32 = 32 ∧
      calldataload zeroPowerCall 64 = 32 ∧ calldataload zeroPowerCall 96 = 0 ∧
      calldataload zeroPowerCall 128 = 0 ∧ calldataload zeroPowerCall 160 = 2 := by
  decide

/-- The path returns zero. -/
theorem zeroPowerCall_yields :
    Yields (fun fuel => oneLimbImplementation fuel zeroPowerCall) (result 32 0) := by
  have hrun := oneLimbImplementation_yields zeroPowerCall
  rw [if_pos zeroPowerCall_words.2.2.2.1] at hrun
  exact hrun

theorem oneLimb_not_agrees_zeroPower : ¬OneLimbAgrees zeroPowerCall := by
  rintro ⟨hagree, -⟩
  have heq := zeroPowerCall_yields.unique hagree
  obtain ⟨-, -, -, hbase, hexp, hmod⟩ := zeroPowerCall_words
  rw [hbase, hexp, hmod] at heq
  exact absurd (result_inj (by decide) (by decide) heq) (by decide)

end EraPrecompiles.ModExp
