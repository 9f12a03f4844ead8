import EraPrecompiles.ModExp.Program

/-!
# The operands in calldata, and the early returns

The three numbers are read from calldata as big-endian byte strings.  `eip198` is the
number that is asked for, and `result` the answer of a call with this number.

The tests for zero and one read the operands in words, with the last partial word
treated apart.  With them `shortcuts_yields` says what the four early returns of the
general path do: they are taken exactly if the modulus or the base is at most one or
the exponent is zero, and then they return what is asked for.
-/

namespace EraPrecompiles.ModExp

/-- The number in a slice of calldata. -/
def callValue (cd : Calldata) (start len : ℕ) : ℕ :=
  beNat (fun i => cd.get (start + i)) len

/-- The power, and zero for the modulus zero. -/
def eip198 (base exponent modulus : ℕ) : ℕ :=
  if modulus = 0 then 0 else base ^ exponent % modulus

/-- The big-endian encoding of a number, as the answer of a call. -/
def result (len : Word) (v : ℕ) : Halt :=
  .returned (beBytes len.toNat v)

/-! ## Slices of calldata -/

theorem callValue_lt (cd : Calldata) (start len : ℕ) : callValue cd start len < 256 ^ len :=
  beNat_lt _ len

theorem callValue_add (cd : Calldata) (start m n : ℕ) :
    callValue cd start (m + n) =
      callValue cd start m * 256 ^ n + callValue cd (start + m) n := by
  rw [callValue, beNat_add, callValue, callValue]
  simp only [Nat.add_assoc]

theorem toNat_calldataload_eq (cd : Calldata) (p : Word) :
    (calldataload cd p).toNat = callValue cd p.toNat 32 :=
  toNat_calldataload cd p

/-- The upper bytes of a word of calldata. -/
theorem callValue_div (cd : Calldata) (start : ℕ) {l : ℕ} (hl : l ≤ 32) :
    callValue cd start 32 / 256 ^ (32 - l) = callValue cd start l := by
  have hsplit : l + (32 - l) = 32 := by omega
  have h := callValue_add cd start l (32 - l)
  rw [hsplit] at h
  rw [h, Nat.add_comm, Nat.add_mul_div_right _ _ (by positivity),
    Nat.div_eq_of_lt (callValue_lt cd _ _), Nat.zero_add]

/-! ## The test for zero -/

theorem pow_256 (l : ℕ) : 256 ^ l = 2 ^ (8 * l) := by
  rw [pow_mul]
  norm_num

/-- The word of the last bytes, with its mask. -/
theorem lastWord_eq_zero (cd : Calldata) (p : Word) {l : Word} (hl : l.toNat < 32)
    (hpos : l ≠ 0) :
    and (shr (sub LIMB_SIZE_IN_BITS (shl 3 l)) (calldataload cd p))
        (sub (shl (shl 3 l) 1) 1) = 0 ↔ callValue cd p.toNat l.toNat = 0 := by
  have hl0 : l.toNat ≠ 0 := mt toNat_eq_zero.mp hpos
  have h3 : (3 : Word).toNat = 3 := rfl
  have h256 : LIMB_SIZE_IN_BITS.toNat = 256 := rfl
  have hone : (1 : Word).toNat = 1 := rfl
  have hbits : (shl 3 l).toNat = 8 * l.toNat := by
    rw [toNat_shl l (by decide), h3]
    omega
  have hshift : (sub LIMB_SIZE_IN_BITS (shl 3 l)).toNat = 8 * (32 - l.toNat) := by
    rw [toNat_sub_of_le (by omega), h256, hbits]
    omega
  have hword : (shr (sub LIMB_SIZE_IN_BITS (shl 3 l)) (calldataload cd p)).toNat =
      callValue cd p.toNat l.toNat := by
    rw [toNat_shr _ (by omega), hshift, ← pow_256, toNat_calldataload_eq,
      callValue_div cd _ hl.le]
  have hpow : 2 ^ (8 * l.toNat) < 2 ^ 256 := Nat.pow_lt_pow_right (by omega) (by omega)
  have hmask : (sub (shl (shl 3 l) 1) 1).toNat = 2 ^ (8 * l.toNat) - 1 := by
    have hbit : (shl (shl 3 l) 1).toNat = 2 ^ (8 * l.toNat) := by
      rw [toNat_shl 1 (by omega), hbits, hone, Nat.one_mul, Nat.mod_eq_of_lt hpow]
    have hpos : 0 < 2 ^ (8 * l.toNat) := by positivity
    rw [toNat_sub_of_le (by omega), hbit, hone]
  have hlt : callValue cd p.toNat l.toNat < 2 ^ (8 * l.toNat) := by
    rw [← pow_256]
    exact callValue_lt cd _ _
  rw [← toNat_eq_zero, toNat_and, hword, hmask, Nat.and_two_pow_sub_one_eq_mod,
    Nat.mod_eq_of_lt hlt]

theorem callDataBufferIsZero_yields (cd : Calldata) (start len : Word)
    (hsum : start.toNat + len.toNat < 2 ^ 256) :
    Yields (fun fuel => callDataBufferIsZero fuel cd start len)
      (boolWord (callValue cd start.toNat len.toNat = 0)) := by
  have h32 : (32 : Word).toNat = 32 := rfl
  have hlast : (mod len 32).toNat = len.toNat % 32 := by
    rw [toNat_mod _ (by decide), h32]
  have hend : (add start len).toNat = start.toNat + len.toNat := toNat_add_of_lt hsum
  have hfull : (sub (add start len) (mod len 32)).toNat =
      start.toNat + 32 * (len.toNat / 32) := by
    rw [toNat_sub_of_le (by omega), hend, hlast]
    omega
  have hvalue : callValue cd start.toNat len.toNat =
      callValue cd start.toNat (32 * (len.toNat / 32)) * 256 ^ (len.toNat % 32) +
        callValue cd (start.toNat + 32 * (len.toNat / 32)) (len.toNat % 32) := by
    rw [← callValue_add, Nat.div_add_mod]
  have hrule := iterate_yields
    (fun _ (ptr : Word) =>
      if lt ptr (sub (add start len) (mod len 32)) ≠ 0 then
        if calldataload cd ptr ≠ 0 then some (Flow.done 0) else some (.next (add ptr 32))
      else
        some (.done (1 : Word)))
    (fun ptr => ∃ i, i ≤ len.toNat / 32 ∧ ptr.toNat = start.toNat + 32 * i ∧
      callValue cd start.toNat (32 * i) = 0)
    (fun res => res = boolWord (callValue cd start.toNat (32 * (len.toNat / 32)) = 0))
    (fun ptr => start.toNat + 32 * (len.toNat / 32) - ptr.toNat) ?_ start
    ⟨0, Nat.zero_le _, rfl, rfl⟩
  · obtain ⟨res, hres, hresEq⟩ := hrule
    refine hres.bind ?_
    rw [hresEq]
    by_cases hl : mod len 32 = 0
    · have hzero : len.toNat % 32 = 0 := by
        rw [← hlast, hl]
        rfl
      rw [hzero, pow_zero, Nat.mul_one] at hvalue
      simp only [ne_eq, hl, not_true_eq_false, if_false]
      rw [hvalue]
      exact Yields.const _
    · have hword := lastWord_eq_zero cd (sub (add start len) (mod len 32))
        (l := mod len 32) (by omega) hl
      rw [hfull, hlast] at hword
      have hpos : 0 < 256 ^ (len.toNat % 32) := by positivity
      simp only [ne_eq, hl, not_false_eq_true, if_true, hword]
      refine Yields.of_eq fun _ => congrArg some ?_
      rw [hvalue]
      generalize callValue cd start.toNat (32 * (len.toNat / 32)) = upper
      generalize callValue cd (start.toNat + 32 * (len.toNat / 32)) (len.toNat % 32) = lower
      by_cases hlower : lower = 0
      · rw [if_neg (not_not_intro hlower), hlower]
        refine boolWord_congr ?_
        rw [Nat.add_zero, Nat.mul_eq_zero, or_iff_left hpos.ne']
      · rw [if_pos hlower, eq_comm, boolWord_eq_zero]
        omega
  · rintro ptr ⟨i, hi, hptr, hfront⟩
    by_cases hlt : i < len.toNat / 32
    · have htest : lt ptr (sub (add start len) (mod len 32)) ≠ 0 := by
        rw [lt_ne_zero, hfull, hptr]
        omega
      have hnext : callValue cd start.toNat (32 * (i + 1)) =
          (calldataload cd ptr).toNat := by
        rw [Nat.mul_succ, callValue_add, hfront, Nat.zero_mul, Nat.zero_add,
          toNat_calldataload_eq, hptr]
      by_cases hword : calldataload cd ptr = 0
      · right
        have hadd : (add ptr 32).toNat = start.toNat + 32 * (i + 1) := by
          rw [toNat_add_of_lt (by omega), hptr, h32]
          ring
        refine ⟨add ptr 32, Yields.of_eq fun _ => ?_, ⟨i + 1, hlt, hadd, ?_⟩, by omega⟩
        · rw [if_pos htest, if_neg (not_not_intro hword)]
        · rw [hnext, hword]
          rfl
      · left
        refine ⟨0, Yields.of_eq fun _ => ?_, ?_⟩
        · rw [if_pos htest, if_pos hword]
        · rw [eq_comm, boolWord_eq_zero]
          intro hzero
          obtain ⟨k, hk⟩ : ∃ k, 32 * (len.toNat / 32) = 32 * (i + 1) + k :=
            ⟨32 * (len.toNat / 32) - 32 * (i + 1), by omega⟩
          rw [hk, callValue_add, hnext, Nat.add_eq_zero_iff, Nat.mul_eq_zero] at hzero
          rcases hzero.1 with h | h
          · exact hword (toNat_eq_zero.mp h)
          · exact absurd h (by positivity)
    · left
      have hieq : i = len.toNat / 32 := by omega
      have htest : ¬lt ptr (sub (add start len) (mod len 32)) ≠ 0 := by
        rw [lt_ne_zero, hfull, hptr]
        omega
      refine ⟨1, Yields.of_eq fun _ => if_neg htest, ?_⟩
      rw [eq_comm, boolWord_eq_one, ← hieq]
      exact hfront

/-! ## The test for one -/

theorem toNat_byte_zero (a : Word) : (byte 0 a).toNat = a.toNat / 256 ^ 31 := by
  have ha := word_lt a
  have hzero : (0 : Word).toNat = 0 := rfl
  have hmask : (0xff : Word).toNat = 2 ^ 8 - 1 := rfl
  have hdiv : a.toNat / 2 ^ 248 < 2 ^ 8 := by omega
  have hpow : 256 ^ 31 = 2 ^ 248 := by norm_num
  rw [byte, if_pos (by decide), BitVec.toNat_and, BitVec.toNat_ushiftRight,
    Nat.shiftRight_eq_div_pow, hzero, hmask, Nat.and_two_pow_sub_one_eq_mod, hpow,
    Nat.mod_eq_of_lt hdiv]

theorem callDataBufferIsOne_yields (cd : Calldata) (start len : Word)
    (hsum : start.toNat + len.toNat < 2 ^ 256) :
    Yields (fun fuel => callDataBufferIsOne fuel cd start len)
      (boolWord (callValue cd start.toNat len.toNat = 1)) := by
  by_cases hlen : len = 0
  · have hzero : boolWord (callValue cd start.toNat len.toNat = 1) = 0 := by
      rw [boolWord_eq_zero, hlen]
      exact Nat.zero_ne_one
    rw [hzero]
    simp only [callDataBufferIsOne, hlen, ne_eq, not_true_eq_false, if_false]
    exact Yields.const _
  · have hpos : len.toNat ≠ 0 := mt toNat_eq_zero.mp hlen
    have hone : (1 : Word).toNat = 1 := rfl
    have hsub : (sub len 1).toNat = len.toNat - 1 := toNat_sub_one (by omega)
    have hend : (add start len).toNat = start.toNat + len.toNat := toNat_add_of_lt hsum
    have hlast : (sub (add start len) 1).toNat = start.toNat + (len.toNat - 1) := by
      rw [toNat_sub_of_le (by omega), hend]
      omega
    have hbyte : (byte 0 (calldataload cd (sub (add start len) 1))).toNat =
        callValue cd (start.toNat + (len.toNat - 1)) 1 := by
      rw [toNat_byte_zero, toNat_calldataload_eq, hlast, callValue_div cd _ (l := 1)]
      omega
    have hvalue : callValue cd start.toNat len.toNat =
        callValue cd start.toNat (len.toNat - 1) * 256 +
          callValue cd (start.toNat + (len.toNat - 1)) 1 := by
      have h := callValue_add cd start.toNat (len.toNat - 1) 1
      rw [Nat.sub_add_cancel (Nat.pos_of_ne_zero hpos), pow_one] at h
      exact h
    have hlt := callValue_lt cd (start.toNat + (len.toNat - 1)) 1
    simp only [callDataBufferIsOne, ne_eq, hlen, not_false_eq_true, if_true]
    refine (callDataBufferIsZero_yields cd start (sub len 1) (by omega)).bind ?_
    refine Yields.of_eq fun _ => congrArg some ?_
    rw [eq, and_boolWord]
    refine boolWord_congr ?_
    rw [hvalue, hsub, ← toNat_eq_one, hbyte]
    omega

theorem callValue_eq_zero {cd : Calldata} {start len : ℕ} :
    callValue cd start len = 0 ↔ ∀ i < len, cd.get (start + i) = 0 :=
  beNat_eq_zero

/-- The two tests see exactly the bytes of the slice, whatever follows it. -/
theorem callDataBuffer_tests_exact (cd : Calldata) (start len : Word)
    (hsum : start.toNat + len.toNat < 2 ^ 256) :
    (∃ res, Yields (fun fuel => callDataBufferIsZero fuel cd start len) res ∧
      (res ≠ 0 ↔ ∀ i < len.toNat, cd.get (start.toNat + i) = 0)) ∧
    (∃ res, Yields (fun fuel => callDataBufferIsOne fuel cd start len) res ∧
      (res ≠ 0 ↔ beNat (fun i => cd.get (start.toNat + i)) len.toNat = 1) ∧
      (len = 0 → res = 0)) := by
  constructor
  · refine ⟨_, callDataBufferIsZero_yields cd start len hsum, ?_⟩
    rw [boolWord_ne_zero]
    exact callValue_eq_zero
  · refine ⟨_, callDataBufferIsOne_yields cd start len hsum, boolWord_ne_zero _, ?_⟩
    rintro rfl
    rw [boolWord_eq_zero]
    exact Nat.zero_ne_one

/-- The one is followed by another byte. -/
def sliceCall : Calldata :=
  ⟨[7, 0, 1, 9], by decide⟩

theorem callDataBuffer_tests_exact_slice :
    ∃ res, Yields (fun fuel => callDataBufferIsOne fuel sliceCall 1 2) res ∧ res ≠ 0 := by
  obtain ⟨-, res, hres, hone, -⟩ := callDataBuffer_tests_exact sliceCall 1 2 (by decide)
  exact ⟨res, hres, hone.mpr (by decide)⟩

/-! ## The early returns -/

/-- Filling with zeros does not change a memory of zeros. -/
theorem fulfillWithZeroes_yields (modLen : Word) (hlen : modLen.toNat + 32 ≤ 2 ^ 256) :
    Yields (fun fuel => fulfillWithZeroes fuel Memory.zero modLen) Memory.zero := by
  obtain ⟨mem, hmem, rfl⟩ := iterate_yields
    (fun _ (s : Memory × Word) =>
      if lt s.2 modLen ≠ 0 then
        some (Flow.next (mstore s.1 s.2 0, add s.2 32))
      else
        some (.done s.1))
    (fun s => s.1 = Memory.zero) (fun mem => mem = Memory.zero)
    (fun s => modLen.toNat - s.2.toNat)
    (by
      rintro ⟨mem, ptr⟩ rfl
      have h32 : (32 : Word).toNat = 32 := rfl
      dsimp only
      by_cases hlt : ptr.toNat < modLen.toNat
      · right
        have htest : lt ptr modLen ≠ 0 := lt_ne_zero.mpr hlt
        have hadd : (add ptr 32).toNat = ptr.toNat + 32 := toNat_add_of_lt (by omega)
        refine ⟨(mstore Memory.zero ptr 0, add ptr 32), Yields.of_eq fun _ => if_pos htest,
          mstore_zero ptr, ?_⟩
        dsimp only
        omega
      · left
        have htest : ¬lt ptr modLen ≠ 0 := mt lt_ne_zero.mp hlt
        exact ⟨_, Yields.of_eq fun _ => if_neg htest, rfl⟩)
    (Memory.zero, 0) rfl
  exact hmem

theorem returnMem_zero (len : Word) : returnMem Memory.zero 0 len = result len 0 := by
  rw [returnMem_eq, result]
  congr 2
  exact beNat_zero _

theorem returnMem_one {len : Word} (hlen : len ≠ 0) :
    returnMem (mstore8 Memory.zero (sub len 1) 1) 0 len = result len 1 := by
  have hpos : len.toNat ≠ 0 := mt toNat_eq_zero.mp hlen
  have hone : (1 : Word).toNat = 1 := rfl
  have hsub : (sub len 1).toNat = len.toNat - 1 := toNat_sub_one (by omega)
  have hzero : (0 : Word).toNat = 0 := rfl
  rw [returnMem_eq, result, hzero]
  congr 2
  obtain ⟨n, hn⟩ : ∃ n, len.toNat = n + 1 := ⟨len.toNat - 1, by omega⟩
  rw [hn, beNat]
  have hfront : beNat (fun i => mstore8 Memory.zero (sub len 1) 1 (0 + i)) n = 0 := by
    refine beNat_eq_zero.mpr fun i hi => ?_
    rw [mstore8, if_neg (by omega)]
    rfl
  rw [hfront, mstore8, if_pos (by omega), hone]
  rfl

theorem eip198_of_modulus_le_one {base exponent modulus : ℕ} (h : modulus ≤ 1) :
    eip198 base exponent modulus = 0 := by
  rw [eip198]
  split
  · rfl
  · have hone : modulus = 1 := by omega
    rw [hone, Nat.mod_one]

theorem eip198_eq_one {base exponent modulus : ℕ} (hmod : ¬modulus ≤ 1)
    (h : base ^ exponent = 1) : eip198 base exponent modulus = 1 := by
  rw [eip198, if_neg (by omega), h, Nat.mod_eq_of_lt (by omega)]

/-- The early returns are taken for a modulus or a base of at most one and for the
exponent zero, and they are right. -/
theorem shortcuts_yields (cd : Calldata) (baseLen expLen modLen : Word)
    (hsum : 96 + baseLen.toNat + expLen.toNat + modLen.toNat < 2 ^ 256) :
    let base := callValue cd 96 baseLen.toNat
    let exponent := callValue cd (96 + baseLen.toNat) expLen.toNat
    let modulus := callValue cd (96 + baseLen.toNat + expLen.toNat) modLen.toNat
    Yields (fun fuel => shortcuts fuel cd baseLen expLen modLen)
      (if modulus ≤ 1 ∨ base ≤ 1 ∨ exponent = 0 then
        some (result modLen (eip198 base exponent modulus))
      else
        none) := by
  intro base exponent modulus
  have h96 : (96 : Word).toNat = 96 := rfl
  have hexp : (add 96 baseLen).toNat = 96 + baseLen.toNat := toNat_add_of_lt (by omega)
  have hmod : (add (add 96 baseLen) expLen).toNat = 96 + baseLen.toNat + expLen.toNat := by
    rw [toNat_add_of_lt (by omega), hexp]
  have hmodZero := callDataBufferIsZero_yields cd (add (add 96 baseLen) expLen) modLen
    (by omega)
  have hmodOne := callDataBufferIsOne_yields cd (add (add 96 baseLen) expLen) modLen
    (by omega)
  have hbaseOne := callDataBufferIsOne_yields cd 96 baseLen (by omega)
  have hbaseZero := callDataBufferIsZero_yields cd 96 baseLen (by omega)
  have hexpZero := callDataBufferIsZero_yields cd (add 96 baseLen) expLen (by omega)
  rw [hmod] at hmodZero hmodOne
  rw [hexp] at hexpZero
  rw [h96] at hbaseOne hbaseZero
  have hfill := fulfillWithZeroes_yields modLen (by omega)
  have hlen : ¬modulus ≤ 1 → modLen ≠ 0 := by
    rintro h rfl
    exact h (Nat.zero_le 1)
  refine hmodZero.bind (hmodOne.bind ?_)
  rw [or_boolWord]
  simp only [boolWord_ne_zero]
  change Yields (fun fuel => if modulus = 0 ∨ modulus = 1 then _ else _) _
  by_cases hm : modulus ≤ 1
  · rw [if_pos (Or.inl hm), eip198_of_modulus_le_one hm, ← returnMem_zero]
    simp only [if_pos (show modulus = 0 ∨ modulus = 1 by omega)]
    exact hfill.bind (Yields.const _)
  simp only [if_neg (show ¬(modulus = 0 ∨ modulus = 1) by omega)]
  refine hbaseOne.bind ?_
  simp only [boolWord_ne_zero]
  change Yields (fun fuel => if base = 1 then _ else _) _
  by_cases hb1 : base = 1
  · have hpow : base ^ exponent = 1 := by rw [hb1, one_pow]
    rw [if_pos (by omega), eip198_eq_one hm hpow, ← returnMem_one (hlen hm)]
    simp only [if_pos hb1]
    exact hfill.bind (Yields.const _)
  simp only [if_neg hb1]
  refine hexpZero.bind ?_
  simp only [boolWord_ne_zero]
  change Yields (fun fuel => if exponent = 0 then _ else _) _
  by_cases he : exponent = 0
  · have hpow : base ^ exponent = 1 := by rw [he, pow_zero]
    rw [if_pos (by omega), eip198_eq_one hm hpow, ← returnMem_one (hlen hm)]
    simp only [if_pos he]
    exact hfill.bind (Yields.const _)
  simp only [if_neg he]
  refine hbaseZero.bind ?_
  simp only [boolWord_ne_zero]
  change Yields (fun fuel => if base = 0 then _ else _) _
  by_cases hb0 : base = 0
  · have hzero : eip198 base exponent modulus = 0 := by
      rw [eip198, if_neg (by omega), hb0, zero_pow he, Nat.zero_mod]
    rw [if_pos (by omega), hzero, ← returnMem_zero]
    simp only [if_pos hb0]
    exact hfill.bind (Yields.const _)
  · rw [if_neg (by omega)]
    simp only [if_neg hb0]
    exact Yields.const _

end EraPrecompiles.ModExp
