import EraPrecompiles.ModExp.Buffers

/-!
# Multiplication of numbers of any length

Schoolbook multiplication: a row of the product is added in place, limb by limb, with a
carry, and the last carry becomes the limb above the row.

A limb step is an equation between numbers (`mulStep_eq`), in which nothing wraps.  A row
adds the product of one limb and a number to a window of the product
(`mulRow_within`), and the rows make up the product (`bigUIntMul_within`).
-/

namespace EraPrecompiles.ModExp

/-! ## One limb -/

/-- What a round of the inner loop stores, and its carry. -/
def mulStep (word1 word2 carry retWordBefore : Word) : Word × Word :=
  let product := overflowingAdd (mul word1 word2) carry
  let retWordAfter := overflowingAdd retWordBefore product.1
  (retWordAfter.1, add (add (mulHigh word1 word2) product.2) retWordAfter.2)

/-- The two additions that make the carry do not wrap. -/
def CarryFits (word1 word2 carry retWordBefore : Word) : Prop :=
  let product := overflowingAdd (mul word1 word2) carry
  let retWordAfter := overflowingAdd retWordBefore product.1
  (mulHigh word1 word2).toNat + product.2.toNat < 2 ^ 256 ∧
    (add (mulHigh word1 word2) product.2).toNat + retWordAfter.2.toNat < 2 ^ 256

/-- The sum and the carry of `overflowingAdd` make up the sum of the operands. -/
theorem overflowingAdd_eq (a b : Word) :
    (overflowingAdd a b).1.toNat + 2 ^ 256 * (overflowingAdd a b).2.toNat =
      a.toNat + b.toNat := by
  have ha := word_lt a
  have hb := word_lt b
  rw [overflowingAdd_snd, overflowingAdd_fst, toNat_boolWord, toNat_add]
  split
  · omega
  · omega

/-- The product of two words leaves room for two more words. -/
theorem mul_add_add_lt (word1 word2 carry retWordBefore : Word) :
    word1.toNat * word2.toNat + carry.toNat + retWordBefore.toNat < 2 ^ 256 * 2 ^ 256 := by
  have h₁ : word1.toNat ≤ 2 ^ 256 - 1 := Nat.le_pred_of_lt (word_lt word1)
  have h₂ : word2.toNat ≤ 2 ^ 256 - 1 := Nat.le_pred_of_lt (word_lt word2)
  have hmul := Nat.mul_le_mul h₁ h₂
  have hcarry := word_lt carry
  have hbefore := word_lt retWordBefore
  omega

theorem carryFits (word1 word2 carry retWordBefore : Word) :
    CarryFits word1 word2 carry retWordBefore := by
  have hlt := mul_add_add_lt word1 word2 carry retWordBefore
  have hmul := mulHigh_mul word1 word2
  have hfirst := overflowingAdd_eq (mul word1 word2) carry
  have hsecond := overflowingAdd_eq retWordBefore (overflowingAdd (mul word1 word2) carry).1
  have hone : (mulHigh word1 word2).toNat +
      (overflowingAdd (mul word1 word2) carry).2.toNat < 2 ^ 256 := by
    omega
  have hadd := toNat_add_of_lt hone
  refine ⟨hone, ?_⟩
  rw [hadd]
  omega

/-- A round as an equation between numbers. -/
theorem mulStep_eq (word1 word2 carry retWordBefore : Word) :
    (mulStep word1 word2 carry retWordBefore).1.toNat +
        2 ^ 256 * (mulStep word1 word2 carry retWordBefore).2.toNat =
      word1.toNat * word2.toNat + carry.toNat + retWordBefore.toNat := by
  obtain ⟨hone, htwo⟩ := carryFits word1 word2 carry retWordBefore
  have hmul := mulHigh_mul word1 word2
  have hfirst := overflowingAdd_eq (mul word1 word2) carry
  have hsecond := overflowingAdd_eq retWordBefore (overflowingAdd (mul word1 word2) carry).1
  have hcarry : (mulStep word1 word2 carry retWordBefore).2.toNat =
      (mulHigh word1 word2).toNat + (overflowingAdd (mul word1 word2) carry).2.toNat +
        (overflowingAdd retWordBefore (overflowingAdd (mul word1 word2) carry).1).2.toNat := by
    rw [mulStep, toNat_add_of_lt htwo, toNat_add_of_lt hone]
  have hword : (mulStep word1 word2 carry retWordBefore).1 =
      (overflowingAdd retWordBefore (overflowingAdd (mul word1 word2) carry).1).1 := rfl
  rw [hcarry, hword]
  omega

/-! ## One row -/

section Row

variable {mem : Memory} {multiplicandPtr multiplierPtr nLimbs productPtr : Word}

/-- The row is added to the lowest `k` limbs of its window. -/
structure RowInv (mem : Memory) (multiplierPtr nLimbs productPtr i : Word) (word1 : Word)
    (k : ℕ) (s : Memory × Word × Word) : Prop where
  left : s.2.1.toNat + k = nLimbs.toNat
  sum : numAt s.1 (productPtr.toNat + 32 * (i.toNat + s.2.1.toNat)) k +
      s.2.2.toNat * 2 ^ (256 * k) =
    numAt mem (productPtr.toNat + 32 * (i.toNat + s.2.1.toNat)) k +
      word1.toNat * numAt mem (multiplierPtr.toNat + 32 * s.2.1.toNat) k
  frame : Frame (region (productPtr.toNat + 32 * (i.toNat + s.2.1.toNat)) k) mem s.1

/-- One round of the inner loop. -/
def rowStep (multiplicandPtr multiplierPtr productPtr i : Word) (s : Memory × Word × Word) :
    Memory × Word × Word :=
  let (mem, j, carry) := s
  let retIndex := add productPtr (shl 5 (sub (add i j) 1))
  let r := mulStep (mload mem (add multiplicandPtr (shl 5 (sub i 1))))
    (mload mem (add multiplierPtr (shl 5 (sub j 1)))) carry (mload mem retIndex)
  (mstore mem retIndex r.1, sub j 1, r.2)

theorem rowStep_spec
    (hm : multiplicandPtr.toNat + 32 * nLimbs.toNat < 2 ^ 256)
    (hr : multiplierPtr.toNat + 32 * nLimbs.toNat < 2 ^ 256)
    (hp : productPtr.toNat + 32 * (2 * nLimbs.toNat) < 2 ^ 256)
    (hdm : Disjoint (region multiplicandPtr.toNat nLimbs.toNat)
      (region productPtr.toNat (2 * nLimbs.toNat)))
    (hdr : Disjoint (region multiplierPtr.toNat nLimbs.toNat)
      (region productPtr.toNat (2 * nLimbs.toNat)))
    {i : Word} (hi0 : 0 < i.toNat) (hi : i.toNat ≤ nLimbs.toNat) {k : ℕ}
    {s : Memory × Word × Word} (hk : k < nLimbs.toNat)
    (hI : RowInv mem multiplierPtr nLimbs productPtr i
      (wordAt mem (multiplicandPtr.toNat + 32 * (i.toNat - 1))) k s) :
    RowInv mem multiplierPtr nLimbs productPtr i
      (wordAt mem (multiplicandPtr.toNat + 32 * (i.toNat - 1))) (k + 1)
      (rowStep multiplicandPtr multiplierPtr productPtr i s) := by
  obtain ⟨mem', j, carry⟩ := s
  obtain ⟨hleft, hsum, hframe⟩ := hI
  dsimp only at hleft hsum hframe
  have hi1 : (sub i 1).toNat = i.toNat - 1 := toNat_sub_one (by omega)
  have hj1 : (sub j 1).toNat = j.toNat - 1 := toNat_sub_one (by omega)
  have hadd : (add i j).toNat = i.toNat + j.toNat := toNat_add_of_lt (by omega)
  have hij : (sub (add i j) 1).toNat = i.toNat + (j.toNat - 1) := by
    rw [toNat_sub_one (by omega), hadd]
    omega
  have hmPtr : (add multiplicandPtr (shl 5 (sub i 1))).toNat =
      multiplicandPtr.toNat + 32 * (i.toNat - 1) := by
    rw [← hi1]
    exact toNat_limbPtr (by omega)
  have hrPtr : (add multiplierPtr (shl 5 (sub j 1))).toNat =
      multiplierPtr.toNat + 32 * (j.toNat - 1) := by
    rw [← hj1]
    exact toNat_limbPtr (by omega)
  have hpPtr : (add productPtr (shl 5 (sub (add i j) 1))).toNat =
      productPtr.toNat + 32 * (i.toNat + (j.toNat - 1)) := by
    rw [← hij]
    exact toNat_limbPtr (by omega)
  -- the operands and the limb of the window are still those of `mem`
  have hword1 : mload mem' (add multiplicandPtr (shl 5 (sub i 1))) =
      wordAt mem (multiplicandPtr.toNat + 32 * (i.toNat - 1)) := by
    rw [mload_eq_wordAt mem' hmPtr, hframe.wordAt_eq]
    exact hdm.mono (region_subset (by omega) (by omega)) (region_subset (by omega) (by omega))
  have hword2 : mload mem' (add multiplierPtr (shl 5 (sub j 1))) =
      wordAt mem (multiplierPtr.toNat + 32 * (j.toNat - 1)) := by
    rw [mload_eq_wordAt mem' hrPtr, hframe.wordAt_eq]
    exact hdr.mono (region_subset (by omega) (by omega)) (region_subset (by omega) (by omega))
  have hbefore : mload mem' (add productPtr (shl 5 (sub (add i j) 1))) =
      wordAt mem (productPtr.toNat + 32 * (i.toNat + (j.toNat - 1))) := by
    rw [mload_eq_wordAt mem' hpPtr, hframe.wordAt_eq]
    exact disjoint_region (by omega)
  have hstep := mulStep_eq (wordAt mem (multiplicandPtr.toNat + 32 * (i.toNat - 1)))
    (wordAt mem (multiplierPtr.toNat + 32 * (j.toNat - 1))) carry
    (wordAt mem (productPtr.toNat + 32 * (i.toNat + (j.toNat - 1))))
  have hwindow : productPtr.toNat + 32 * (i.toNat + j.toNat) =
      productPtr.toNat + 32 * (i.toNat + (j.toNat - 1)) + 32 := by omega
  have hmultiplier : multiplierPtr.toNat + 32 * j.toNat =
      multiplierPtr.toNat + 32 * (j.toNat - 1) + 32 := by omega
  rw [hwindow, hmultiplier] at hsum
  rw [hwindow] at hframe
  have hround : rowStep multiplicandPtr multiplierPtr productPtr i (mem', j, carry) =
      (mstore mem' (add productPtr (shl 5 (sub (add i j) 1)))
        (mulStep (wordAt mem (multiplicandPtr.toNat + 32 * (i.toNat - 1)))
          (wordAt mem (multiplierPtr.toNat + 32 * (j.toNat - 1))) carry
          (wordAt mem (productPtr.toNat + 32 * (i.toNat + (j.toNat - 1))))).1,
        sub j 1,
        (mulStep (wordAt mem (multiplicandPtr.toNat + 32 * (i.toNat - 1)))
          (wordAt mem (multiplierPtr.toNat + 32 * (j.toNat - 1))) carry
          (wordAt mem (productPtr.toNat + 32 * (i.toNat + (j.toNat - 1))))).2) := by
    rw [rowStep, hword1, hword2, hbefore]
  generalize mulStep (wordAt mem (multiplicandPtr.toNat + 32 * (i.toNat - 1)))
    (wordAt mem (multiplierPtr.toNat + 32 * (j.toNat - 1))) carry
    (wordAt mem (productPtr.toNat + 32 * (i.toNat + (j.toNat - 1)))) = r at hstep hround
  rw [hround]
  refine ⟨?_, ?_, ?_⟩
  · show (sub j 1).toNat + (k + 1) = _
    omega
  · show numAt (mstore mem' _ r.1) (_ + 32 * (_ + (sub j 1).toNat)) (k + 1) +
      r.2.toNat * _ = numAt mem (_ + 32 * (_ + (sub j 1).toNat)) (k + 1) +
      _ * numAt mem (_ + 32 * (sub j 1).toNat) (k + 1)
    rw [hj1, numAt_mstore_left mem' hpPtr, numAt_succ_left mem, numAt_succ_left mem,
      Nat.mul_succ, pow_add]
    calc r.1.toNat * 2 ^ (256 * k) +
          numAt mem' (productPtr.toNat + 32 * (i.toNat + (j.toNat - 1)) + 32) k +
          r.2.toNat * (2 ^ (256 * k) * 2 ^ 256)
        = (r.1.toNat + 2 ^ 256 * r.2.toNat) * 2 ^ (256 * k) +
            numAt mem' (productPtr.toNat + 32 * (i.toNat + (j.toNat - 1)) + 32) k := by
          ring
      _ = ((wordAt mem (multiplicandPtr.toNat + 32 * (i.toNat - 1))).toNat *
              (wordAt mem (multiplierPtr.toNat + 32 * (j.toNat - 1))).toNat +
            (wordAt mem (productPtr.toNat + 32 * (i.toNat + (j.toNat - 1)))).toNat) *
              2 ^ (256 * k) +
            (numAt mem' (productPtr.toNat + 32 * (i.toNat + (j.toNat - 1)) + 32) k +
              carry.toNat * 2 ^ (256 * k)) := by
          rw [hstep]
          ring
      _ = _ := by
          rw [hsum]
          ring
  · show Frame (region (_ + 32 * (_ + (sub j 1).toNat)) (k + 1)) mem _
    rw [hj1]
    refine (hframe.mono ?_).trans ((frame_mstore mem' hpPtr r.1).mono ?_)
    · exact region_subset (by omega) (by omega)
    · exact region_subset le_rfl (by omega)

variable (mem multiplicandPtr multiplierPtr nLimbs productPtr)

/-- A row adds the product of a limb and the multiplier to its window; the carry is the
limb above. -/
theorem mulRow_within (i : Word)
    (hm : multiplicandPtr.toNat + 32 * nLimbs.toNat < 2 ^ 256)
    (hr : multiplierPtr.toNat + 32 * nLimbs.toNat < 2 ^ 256)
    (hp : productPtr.toNat + 32 * (2 * nLimbs.toNat) < 2 ^ 256)
    (hdm : Disjoint (region multiplicandPtr.toNat nLimbs.toNat)
      (region productPtr.toNat (2 * nLimbs.toNat)))
    (hdr : Disjoint (region multiplierPtr.toNat nLimbs.toNat)
      (region productPtr.toNat (2 * nLimbs.toNat)))
    (hi0 : 0 < i.toNat) (hi : i.toNat ≤ nLimbs.toNat) {K : ℕ}
    (hK : nLimbs.toNat < K) :
    ∃ (mem' : Memory) (carry : Word),
      Within K (fun fuel => mulRow fuel mem multiplicandPtr multiplierPtr nLimbs productPtr i)
        (mem', carry) ∧
      numAt mem' (productPtr.toNat + 32 * i.toNat) nLimbs.toNat +
          carry.toNat * 2 ^ (256 * nLimbs.toNat) =
        numAt mem (productPtr.toNat + 32 * i.toNat) nLimbs.toNat +
          (wordAt mem (multiplicandPtr.toNat + 32 * (i.toNat - 1))).toNat *
            numAt mem multiplierPtr.toNat nLimbs.toNat ∧
      Frame (region (productPtr.toNat + 32 * i.toNat) nLimbs.toNat) mem mem' := by
  have hrule := while_within
    (fun s : Memory × Word × Word => gt s.2.1 0 ≠ 0)
    (rowStep multiplicandPtr multiplierPtr productPtr i) (fun s => (s.1, s.2.2))
    (RowInv mem multiplierPtr nLimbs productPtr i
      (wordAt mem (multiplicandPtr.toNat + 32 * (i.toNat - 1))))
    nLimbs.toNat K hK ?_ ?_ (mem, nLimbs, 0) ?_
  · obtain ⟨⟨mem', j, carry⟩, hI, hrun⟩ := hrule
    have hleft := hI.left
    dsimp only at hleft
    have hj : j = 0 := toNat_eq_zero.mp (by omega)
    subst hj
    exact ⟨mem', carry, hrun, hI.sum, hI.frame⟩
  · intro k s hk hI
    have hleft := hI.left
    rw [gt_ne_zero, word_zero]
    omega
  · intro k s hk hI
    exact rowStep_spec hm hr hp hdm hdr hi0 hi hk hI
  · refine ⟨rfl, ?_, Frame.refl _ _⟩
    show 0 + (0 : Word).toNat * _ = 0 + _ * 0
    rw [word_zero, Nat.zero_mul, Nat.mul_zero]

/-! ## The product -/

/-- The lowest `k` limbs of the multiplicand have been multiplied. -/
structure MulInv (mem : Memory) (multiplicandPtr multiplierPtr nLimbs productPtr : Word)
    (k : ℕ) (s : Memory × Word) : Prop where
  left : s.2.toNat + k = nLimbs.toNat
  product : numAt s.1 (productPtr.toNat + 32 * s.2.toNat) (nLimbs.toNat + k) =
    numAt mem (multiplicandPtr.toNat + 32 * s.2.toNat) k *
      numAt mem multiplierPtr.toNat nLimbs.toNat
  frame : Frame (region productPtr.toNat (2 * nLimbs.toNat)) mem s.1

variable {mem multiplicandPtr multiplierPtr nLimbs productPtr}

/-- One round of the outer loop. -/
theorem mulRound_spec
    (hm : multiplicandPtr.toNat + 32 * nLimbs.toNat < 2 ^ 256)
    (hr : multiplierPtr.toNat + 32 * nLimbs.toNat < 2 ^ 256)
    (hp : productPtr.toNat + 32 * (2 * nLimbs.toNat) < 2 ^ 256)
    (hdm : Disjoint (region multiplicandPtr.toNat nLimbs.toNat)
      (region productPtr.toNat (2 * nLimbs.toNat)))
    (hdr : Disjoint (region multiplierPtr.toNat nLimbs.toNat)
      (region productPtr.toNat (2 * nLimbs.toNat)))
    {K : ℕ} (hK : nLimbs.toNat < K) {k : ℕ} {mem' : Memory} {i : Word}
    (hk : k < nLimbs.toNat)
    (hI : MulInv mem multiplicandPtr multiplierPtr nLimbs productPtr k (mem', i)) :
    ∃ (row : Memory) (carry : Word),
      Within K (fun fuel => mulRow fuel mem' multiplicandPtr multiplierPtr nLimbs productPtr i)
        (row, carry) ∧
      MulInv mem multiplicandPtr multiplierPtr nLimbs productPtr (k + 1)
        (mstore row (add productPtr (shl 5 (sub i 1))) carry, sub i 1) := by
  obtain ⟨hleft, hproduct, hframe⟩ := hI
  dsimp only at hleft hproduct hframe
  obtain ⟨row, carry, hrun, hsum, hrowFrame⟩ := mulRow_within mem' multiplicandPtr
    multiplierPtr nLimbs productPtr i hm hr hp hdm hdr (by omega) (by omega) hK
  refine ⟨row, carry, hrun, ?_⟩
  have hi1 : (sub i 1).toNat = i.toNat - 1 := toNat_sub_one (by omega)
  have hptr : (add productPtr (shl 5 (sub i 1))).toNat =
      productPtr.toNat + 32 * (i.toNat - 1) := by
    rw [← hi1]
    exact toNat_limbPtr (by omega)
  have hnext : productPtr.toNat + 32 * i.toNat =
      productPtr.toNat + 32 * (i.toNat - 1) + 32 := by omega
  have hnextLimb : multiplicandPtr.toNat + 32 * i.toNat =
      multiplicandPtr.toNat + 32 * (i.toNat - 1) + 32 := by omega
  have hword : wordAt mem' (multiplicandPtr.toNat + 32 * (i.toNat - 1)) =
      wordAt mem (multiplicandPtr.toNat + 32 * (i.toNat - 1)) :=
    hframe.wordAt_eq (hdm.mono_left (region_subset (by omega) (by omega)))
  rw [hword, hframe.numAt_eq hdr] at hsum
  -- the rows below are behind the window
  have hlow : numAt row (productPtr.toNat + 32 * i.toNat + 32 * nLimbs.toNat) k =
      numAt mem' (productPtr.toNat + 32 * i.toNat + 32 * nLimbs.toNat) k :=
    hrowFrame.numAt_eq (disjoint_region (Or.inr le_rfl))
  rw [numAt_add] at hproduct
  refine ⟨?_, ?_, ?_⟩
  · show (sub i 1).toNat + (k + 1) = _
    omega
  · show numAt (mstore row _ carry) (_ + 32 * (sub i 1).toNat) (_ + k + 1) =
      numAt mem (_ + 32 * (sub i 1).toNat) (k + 1) * _
    rw [hi1, numAt_mstore_left row hptr, numAt_succ_left mem, ← hnext, ← hnextLimb, numAt_add,
      hlow, Nat.mul_add, pow_add]
    calc carry.toNat * (2 ^ (256 * nLimbs.toNat) * 2 ^ (256 * k)) +
          (numAt row (productPtr.toNat + 32 * i.toNat) nLimbs.toNat * 2 ^ (256 * k) +
            numAt mem' (productPtr.toNat + 32 * i.toNat + 32 * nLimbs.toNat) k)
        = (numAt row (productPtr.toNat + 32 * i.toNat) nLimbs.toNat +
            carry.toNat * 2 ^ (256 * nLimbs.toNat)) * 2 ^ (256 * k) +
            numAt mem' (productPtr.toNat + 32 * i.toNat + 32 * nLimbs.toNat) k := by
          ring
      _ = numAt mem' (productPtr.toNat + 32 * i.toNat) nLimbs.toNat * 2 ^ (256 * k) +
            numAt mem' (productPtr.toNat + 32 * i.toNat + 32 * nLimbs.toNat) k +
            (wordAt mem (multiplicandPtr.toNat + 32 * (i.toNat - 1))).toNat *
              numAt mem multiplierPtr.toNat nLimbs.toNat * 2 ^ (256 * k) := by
          rw [hsum]
          ring
      _ = _ := by
          rw [hproduct]
          ring
  · refine hframe.trans ((hrowFrame.mono ?_).trans ((frame_mstore row hptr carry).mono ?_))
    · exact region_subset (by omega) (by omega)
    · exact region_subset (by omega) (by omega)

variable (mem multiplicandPtr multiplierPtr nLimbs productPtr)

/-- What the multiplication stores, and where. -/
theorem bigUIntMul_within
    (hm : multiplicandPtr.toNat + 32 * nLimbs.toNat < 2 ^ 256)
    (hr : multiplierPtr.toNat + 32 * nLimbs.toNat < 2 ^ 256)
    (hp : productPtr.toNat + 32 * (2 * nLimbs.toNat) < 2 ^ 256)
    (hdm : Disjoint (region multiplicandPtr.toNat nLimbs.toNat)
      (region productPtr.toNat (2 * nLimbs.toNat)))
    (hdr : Disjoint (region multiplierPtr.toNat nLimbs.toNat)
      (region productPtr.toNat (2 * nLimbs.toNat)))
    {K : ℕ} (hK : 2 * nLimbs.toNat < K) :
    ∃ mem', Within K (fun fuel => bigUIntMul fuel mem multiplicandPtr multiplierPtr nLimbs
        productPtr) mem' ∧
      numAt mem' productPtr.toNat (2 * nLimbs.toNat) =
        numAt mem multiplicandPtr.toNat nLimbs.toNat *
          numAt mem multiplierPtr.toNat nLimbs.toNat ∧
      Frame (region productPtr.toNat (2 * nLimbs.toNat)) mem mem' := by
  have hdouble : (shl 1 nLimbs).toNat = 2 * nLimbs.toNat := by
    rw [toNat_shl nLimbs (by decide), word_one]
    omega
  obtain ⟨zero, hzeroRun, hzero, hzeroFrame⟩ := zeroWithLimbSizeAt_within mem
    (shl 1 nLimbs) productPtr (by omega) (show _ < K by omega)
  rw [hdouble] at hzero hzeroFrame
  have hrule := count_within
    (fun fuel (s : Memory × Word) =>
      if gt s.2 0 ≠ 0 then
        mulRow fuel s.1 multiplicandPtr multiplierPtr nLimbs productPtr s.2 >>= fun row =>
          some (Flow.next (mstore row.1 (add productPtr (shl 5 (sub s.2 1))) row.2, sub s.2 1))
      else
        some (.done s.1))
    (MulInv mem multiplicandPtr multiplierPtr nLimbs productPtr)
    (fun r => MulInv mem multiplicandPtr multiplierPtr nLimbs productPtr nLimbs.toNat (r, 0))
    nLimbs.toNat K (by omega) ?_ ?_ (zero, nLimbs) ?_
  · obtain ⟨mem', hrun, hI⟩ := hrule
    refine ⟨mem', hzeroRun.bind hrun, ?_, hI.frame⟩
    rw [Nat.two_mul]
    exact hI.product
  · rintro k ⟨mem', i⟩ hk hI
    have htest : gt i 0 ≠ 0 := by
      have hleft := hI.left
      dsimp only at hleft
      rw [gt_ne_zero, word_zero]
      omega
    obtain ⟨row, carry, hrun, hI'⟩ := mulRound_spec hm hr hp hdm hdr (K := K) (by omega) hk hI
    refine ⟨_, ?_, hI'⟩
    simp only [if_pos htest]
    exact hrun.bind (Within.const K _)
  · rintro ⟨mem', i⟩ hI
    have hleft := hI.left
    dsimp only at hleft
    have hi : i = 0 := toNat_eq_zero.mp (by omega)
    subst hi
    exact ⟨mem', Within.of_eq fun _ => rfl, hI⟩
  · refine ⟨rfl, ?_, hzeroFrame⟩
    show numAt zero (productPtr.toNat + 32 * nLimbs.toNat) nLimbs.toNat = 0 * _
    rw [Nat.zero_mul, ← numAt_mod zero productPtr.toNat nLimbs.toNat nLimbs.toNat,
      ← Nat.two_mul, hzero, Nat.zero_mod]

/-- The product is exact, nothing else changes, and no addition to a carry wraps. -/
theorem bigUIntMul_exact
    (hm : multiplicandPtr.toNat + 32 * nLimbs.toNat < 2 ^ 256)
    (hr : multiplierPtr.toNat + 32 * nLimbs.toNat < 2 ^ 256)
    (hp : productPtr.toNat + 32 * (2 * nLimbs.toNat) < 2 ^ 256)
    (hdm : Disjoint (region multiplicandPtr.toNat nLimbs.toNat)
      (region productPtr.toNat (2 * nLimbs.toNat)))
    (hdr : Disjoint (region multiplierPtr.toNat nLimbs.toNat)
      (region productPtr.toNat (2 * nLimbs.toNat))) :
    (∃ mem', Yields (fun fuel => bigUIntMul fuel mem multiplicandPtr multiplierPtr nLimbs
          productPtr) mem' ∧
        numAt mem' productPtr.toNat (2 * nLimbs.toNat) =
          numAt mem multiplicandPtr.toNat nLimbs.toNat *
            numAt mem multiplierPtr.toNat nLimbs.toNat ∧
        Frame (region productPtr.toNat (2 * nLimbs.toNat)) mem mem' ∧
        numAt mem' multiplicandPtr.toNat nLimbs.toNat =
          numAt mem multiplicandPtr.toNat nLimbs.toNat ∧
        numAt mem' multiplierPtr.toNat nLimbs.toNat =
          numAt mem multiplierPtr.toNat nLimbs.toNat) ∧
      ∀ word1 word2 carry retWordBefore : Word,
        CarryFits word1 word2 carry retWordBefore := by
  obtain ⟨mem', hrun, hproduct, hframe⟩ :=
    bigUIntMul_within mem multiplicandPtr multiplierPtr nLimbs productPtr hm hr hp hdm hdr
      (Nat.lt_succ_self _)
  exact ⟨⟨mem', hrun.yields, hproduct, hframe, hframe.numAt_eq hdm, hframe.numAt_eq hdr⟩,
    carryFits⟩

/-- The square of a number of two limbs. -/
theorem bigUIntMul_exact_square :
    ∃ mem', Yields (fun fuel => bigUIntMul fuel (storeWords Memory.zero 0 [3, 7]) 0 0 2 64)
        mem' ∧
      numAt mem' 64 4 = (3 * 2 ^ 256 + 7) * (3 * 2 ^ 256 + 7) := by
  obtain ⟨⟨mem', hrun, hproduct, -⟩, -⟩ := bigUIntMul_exact
    (storeWords Memory.zero 0 [3, 7]) 0 0 2 64 (by decide) (by decide) (by decide)
    (disjoint_region (by decide)) (disjoint_region (by decide))
  have hvalue : numAt (storeWords Memory.zero 0 [3, 7]) 0 2 = 3 * 2 ^ 256 + 7 := by
    decide
  refine ⟨mem', hrun, hproduct.trans ?_⟩
  exact congrArg₂ (· * ·) hvalue hvalue

end Row

end EraPrecompiles.ModExp
