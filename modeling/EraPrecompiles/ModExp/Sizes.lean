import Mathlib.Data.Nat.Size
import EraPrecompiles.ModExp.Buffers

/-!
# Counting limbs and bits

`bigIntLimbsWithoutZeros` counts the limbs that are not zero, wherever they stand, and
`bigUIntBitSize` counts the bits up to the highest one.  Both counts are those of the
number in memory.
-/

namespace EraPrecompiles.ModExp

/-! ## Limbs that are not zero -/

/-- How many of the lowest `n` limbs of a number are not zero. -/
def nonzeroLimbs : ℕ → ℕ → ℕ
  | 0, _ => 0
  | n + 1, x => nonzeroLimbs n (x / 2 ^ 256) + if x % 2 ^ 256 = 0 then 0 else 1

theorem nonzeroLimbs_le (n x : ℕ) : nonzeroLimbs n x ≤ n := by
  induction n generalizing x with
  | zero =>
      exact le_rfl
  | succ n ih =>
      have h := ih (x / 2 ^ 256)
      rw [nonzeroLimbs]
      split
      · omega
      · omega

/-- One more limb of a number in memory. -/
theorem nonzeroLimbs_numAt_succ (mem : Memory) (a n : ℕ) :
    nonzeroLimbs (n + 1) (numAt mem a (n + 1)) =
      nonzeroLimbs n (numAt mem a n) +
        if wordAt mem (a + 32 * n) = 0 then 0 else 1 := by
  have hlt := word_lt (wordAt mem (a + 32 * n))
  have hdiv : (numAt mem a n * 2 ^ 256 + (wordAt mem (a + 32 * n)).toNat) / 2 ^ 256 =
      numAt mem a n := by omega
  have hmod : (numAt mem a n * 2 ^ 256 + (wordAt mem (a + 32 * n)).toNat) % 2 ^ 256 =
      (wordAt mem (a + 32 * n)).toNat := by omega
  rw [nonzeroLimbs, numAt_succ, hdiv, hmod]
  congr 1
  exact if_congr toNat_eq_zero rfl rfl

theorem bigIntLimbsWithoutZeros_within (mem : Memory) (ptr totalLimbs : Word)
    (hptr : ptr.toNat + 32 * totalLimbs.toNat < 2 ^ 256) {K : ℕ} (hK : totalLimbs.toNat < K) :
    Within K (fun fuel => bigIntLimbsWithoutZeros fuel mem ptr totalLimbs)
      (BitVec.ofNat 256
        (nonzeroLimbs totalLimbs.toNat (numAt mem ptr.toNat totalLimbs.toNat))) := by
  have hrule := while_within
    (fun s : Word × Word => lt s.1 totalLimbs ≠ 0)
    (fun s => (add s.1 1, if mload mem (add ptr (shl 5 s.1)) ≠ 0 then add s.2 1 else s.2))
    Prod.snd
    (fun k s => s.1.toNat = k ∧
      s.2 = BitVec.ofNat 256 (nonzeroLimbs k (numAt mem ptr.toNat k)))
    totalLimbs.toNat K hK ?_ ?_ (0, 0) ⟨rfl, rfl⟩
  · obtain ⟨⟨i, limbs⟩, ⟨-, hlimbs⟩, hrun⟩ := hrule
    rw [← hlimbs]
    exact hrun
  · rintro k s hk ⟨hi, -⟩
    rw [lt_ne_zero, hi]
  · rintro k ⟨i, limbs⟩ hk ⟨hi, hlimbs⟩
    dsimp only at hi hlimbs
    have htotal := word_lt totalLimbs
    have hlimb : mload mem (add ptr (shl 5 i)) = wordAt mem (ptr.toNat + 32 * k) := by
      rw [← hi]
      exact mload_eq_wordAt mem (toNat_limbPtr (by omega))
    refine ⟨?_, ?_⟩
    · dsimp only
      rw [toNat_add_one (by omega), hi]
    · dsimp only
      rw [hlimb, hlimbs, nonzeroLimbs_numAt_succ]
      by_cases hzero : wordAt mem (ptr.toNat + 32 * k) = 0
      · rw [if_neg (not_not_intro hzero), if_pos hzero, Nat.add_zero]
      · rw [if_pos hzero, if_neg hzero, BitVec.ofNat_add]
        rfl

/-! ## Bits -/

theorem UIntBitSize_within (number : Word) {K : ℕ} (hK : number.toNat.size < K) :
    Within K (fun fuel => UIntBitSize fuel number) (BitVec.ofNat 256 number.toNat.size) := by
  have hrule := while_within
    (fun s : Word × Word => lt 0 s.1 ≠ 0)
    (fun s => (shr 1 s.1, add s.2 1)) Prod.snd
    (fun k s => s.1.toNat = number.toNat / 2 ^ k ∧ s.2 = BitVec.ofNat 256 k)
    number.toNat.size K hK ?_ ?_ (number, 0) ⟨by rw [pow_zero, Nat.div_one], rfl⟩
  · obtain ⟨⟨shifted, size⟩, ⟨-, hsize⟩, hrun⟩ := hrule
    rw [← hsize]
    exact hrun
  · rintro k s - ⟨hshifted, -⟩
    -- a bit of the number is left exactly below its size
    rw [lt_ne_zero, word_zero, hshifted, Nat.lt_size, Nat.div_pos_iff]
    exact and_iff_right (by positivity)
  · rintro k ⟨shifted, size⟩ - ⟨hshifted, hsize⟩
    dsimp only at hshifted hsize
    refine ⟨?_, ?_⟩
    · dsimp only
      rw [toNat_shr_one, hshifted, Nat.div_div_eq_div_mul, pow_succ]
    · dsimp only
      rw [hsize, BitVec.ofNat_add]
      rfl

/-- The bits of a number are those of its highest limb and of all limbs below. -/
theorem size_mul_pow_add {limb rest d : ℕ} (hlimb : limb ≠ 0) (hrest : rest < 2 ^ (256 * d)) :
    (limb * 2 ^ (256 * d) + rest).size = limb.size + 256 * d := by
  refine le_antisymm ?_ ?_
  · have hlt : limb + 1 ≤ 2 ^ limb.size := Nat.lt_size_self limb
    have hmul : (limb + 1) * 2 ^ (256 * d) ≤ 2 ^ limb.size * 2 ^ (256 * d) :=
      Nat.mul_le_mul_right _ hlt
    rw [Nat.size_le, pow_add]
    rw [Nat.add_mul, Nat.one_mul] at hmul
    omega
  · have hpos : 0 < limb.size := Nat.size_pos.mpr (Nat.pos_of_ne_zero hlimb)
    have hle : 2 ^ (limb.size - 1) ≤ limb := Nat.lt_size.mp (by omega)
    have hmul : 2 ^ (limb.size - 1) * 2 ^ (256 * d) ≤ limb * 2 ^ (256 * d) :=
      Nat.mul_le_mul_right _ hle
    have hlt : limb.size - 1 + 256 * d < (limb * 2 ^ (256 * d) + rest).size := by
      rw [Nat.lt_size, pow_add]
      omega
    omega

/-- The limbs before the last one that was read are zero. -/
structure BitSizeInv (mem : Memory) (basePtr nLimbs : Word) (s : BitSizeState) : Prop where
  le : s.i.toNat ≤ nLimbs.toNat
  bitSize : s.bitSize = BitVec.ofNat 256 (256 * (nLimbs.toNat - s.i.toNat))
  offset : s.offset.toNat = 32 * s.i.toNat
  number : numAt mem basePtr.toNat s.i.toNat = s.limb.toNat

theorem bigUIntBitSize_yields (mem : Memory) (basePtr nLimbs : Word)
    (hptr : basePtr.toNat + 32 * nLimbs.toNat < 2 ^ 256) :
    Yields (fun fuel => bigUIntBitSize fuel mem basePtr nLimbs)
      (BitVec.ofNat 256 (numAt mem basePtr.toNat nLimbs.toNat).size) := by
  have hinit : BitSizeInv mem basePtr nLimbs ⟨0, shl 8 nLimbs, 0, 0⟩ := by
    refine ⟨Nat.zero_le _, word_ext ?_, rfl, rfl⟩
    have h8 : (8 : Word).toNat = 8 := rfl
    rw [toNat_shl nLimbs (by decide), h8, toNat_ofNat, word_zero, Nat.sub_zero]
    congr 1
    omega
  obtain ⟨s, hrun, hI, hstop⟩ := iterate_yields
    (fun _ (s : BitSizeState) =>
      if and (lt s.i nLimbs) (iszero s.limb) ≠ 0 then
        some (Flow.next
          { i := add s.i 1
            bitSize := sub s.bitSize 256
            limb := mload mem (add basePtr s.offset)
            offset := add s.offset LIMB_SIZE_IN_BYTES })
      else
        some (.done s))
    (BitSizeInv mem basePtr nLimbs)
    (fun s => BitSizeInv mem basePtr nLimbs s ∧ (s.i.toNat = nLimbs.toNat ∨ s.limb ≠ 0))
    (fun s => nLimbs.toNat - s.i.toNat)
    (by
      intro s hI
      have hle := hI.le
      have htest : and (lt s.i nLimbs) (iszero s.limb) ≠ 0 ↔
          s.i.toNat < nLimbs.toNat ∧ s.limb = 0 := by
        rw [lt, iszero, and_boolWord, boolWord_ne_zero]
      by_cases hgo : s.i.toNat < nLimbs.toNat ∧ s.limb = 0
      · right
        obtain ⟨hlt, hlimb⟩ := hgo
        have hindex : (add s.i 1).toNat = s.i.toNat + 1 := by
          have hlimbs := word_lt nLimbs
          rw [toNat_add_one (by omega)]
        have hoffset : (add s.offset LIMB_SIZE_IN_BYTES).toNat = 32 * (s.i.toNat + 1) := by
          have hbefore := hI.offset
          rw [toNat_add_limbSize (by omega)]
          omega
        have hread : mload mem (add basePtr s.offset) =
            wordAt mem (basePtr.toNat + 32 * s.i.toNat) := by
          refine mload_eq_wordAt mem ?_
          have hbefore := hI.offset
          rw [toNat_add_of_lt (by omega), hbefore]
        refine ⟨_, Yields.of_eq fun _ => if_pos (htest.mpr ⟨hlt, hlimb⟩), ⟨?_, ?_, ?_, ?_⟩, ?_⟩
        · show (add s.i 1).toNat ≤ _
          omega
        · show sub s.bitSize 256 = BitVec.ofNat 256 (256 * (_ - (add s.i 1).toNat))
          have hsplit : 256 * (nLimbs.toNat - s.i.toNat) =
              256 * (nLimbs.toNat - (s.i.toNat + 1)) + 256 := by omega
          rw [hI.bitSize, hindex, hsplit, BitVec.ofNat_add, sub]
          exact BitVec.add_sub_cancel _ _
        · show (add s.offset LIMB_SIZE_IN_BYTES).toNat = 32 * (add s.i 1).toNat
          rw [hindex, hoffset]
        · show numAt mem basePtr.toNat (add s.i 1).toNat =
            (mload mem (add basePtr s.offset)).toNat
          rw [hindex, numAt_succ, hI.number, hlimb, hread, word_zero, Nat.zero_mul, Nat.zero_add]
        · show nLimbs.toNat - (add s.i 1).toNat < nLimbs.toNat - s.i.toNat
          omega
      · left
        refine ⟨s, Yields.of_eq fun _ => if_neg (mt htest.mp hgo), hI, ?_⟩
        by_cases hlimb : s.limb = 0
        · left
          have hlt : ¬s.i.toNat < nLimbs.toNat := fun h => hgo ⟨h, hlimb⟩
          omega
        · exact Or.inr hlimb)
    ⟨0, shl 8 nLimbs, 0, 0⟩ hinit
  have hsize := UIntBitSize_within s.limb (Nat.lt_succ_self _)
  refine hrun.bind (hsize.yields.bind ?_)
  refine Yields.of_eq fun _ => congrArg some ?_
  have hle := hI.le
  have hvalue : (numAt mem basePtr.toNat nLimbs.toNat).size =
      256 * (nLimbs.toNat - s.i.toNat) + s.limb.toNat.size := by
    by_cases hlimb : s.limb = 0
    · have hend : s.i.toNat = nLimbs.toNat := hstop.resolve_right (not_not_intro hlimb)
      rw [← hend, hI.number, hlimb, word_zero, Nat.sub_self, Nat.mul_zero, Nat.zero_add]
    · obtain ⟨d, hd⟩ : ∃ d, nLimbs.toNat = s.i.toNat + d :=
        ⟨nLimbs.toNat - s.i.toNat, by omega⟩
      have hd' : nLimbs.toNat - s.i.toNat = d := by omega
      rw [hd', hd, numAt_add, hI.number,
        size_mul_pow_add (mt toNat_eq_zero.mp hlimb) (numAt_lt mem _ d), Nat.add_comm]
  rw [hvalue, hI.bitSize, BitVec.ofNat_add, add]

end EraPrecompiles.ModExp
