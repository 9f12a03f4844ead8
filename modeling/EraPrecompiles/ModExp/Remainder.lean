import EraPrecompiles.Arith.ShiftSubtract
import EraPrecompiles.ModExp.Shift
import EraPrecompiles.ModExp.Sizes
import EraPrecompiles.ModExp.Subtraction

/-!
# The remainder of numbers of any length

`bigUIntRem` shifts the divisor up by `256 * realLimbs - modulusBitSize` bits, and then
subtracts and shifts down.  `realLimbs` is the number of limbs of the dividend that are
not zero, so the shifted divisor is aligned to the dividend only if no limb below the
highest one is zero, and the shift count is negative if there are too few of them.

`bigUIntRem_within` says what the function computes for all shift counts within the
buffers.  With it `bigUIntRem_exact` says when that is the remainder.
-/

namespace EraPrecompiles.ModExp

/-! ## One shift to the right -/

theorem shr_or_carry (limb carry : Word) {b : ℕ}
    (hcarry : carry.toNat = 2 ^ 255 * b) :
    (or (shr 1 limb) carry).toNat = limb.toNat / 2 + 2 ^ 255 * b := by
  have hlt := word_lt limb
  have hhalf : limb.toNat / 2 < 2 ^ 255 := by omega
  rw [toNat_or, toNat_shr_one, hcarry, Nat.or_comm, Nat.add_comm,
    Nat.two_pow_add_eq_or_of_lt hhalf]

theorem bigUIntOneShiftRight_within (mem : Memory) (numberPtr nLimbs : Word)
    (hptr : numberPtr.toNat + 32 * nLimbs.toNat < 2 ^ 256) {K : ℕ} (hK : nLimbs.toNat < K) :
    ∃ mem', Within K (fun fuel => bigUIntOneShiftRight fuel mem numberPtr nLimbs) mem' ∧
      numAt mem' numberPtr.toNat nLimbs.toNat =
        numAt mem numberPtr.toNat nLimbs.toNat / 2 ∧
      Frame (region numberPtr.toNat nLimbs.toNat) mem mem' := by
  have hend := toNat_limbPtr hptr
  have hrule := while_within
    (fun s : Memory × Word × Word => lt s.2.1 (add numberPtr (shl 5 nLimbs)) ≠ 0)
    (fun s => (mstore s.1 s.2.1 (or (shr 1 (mload s.1 s.2.1)) s.2.2), add s.2.1 32,
      shl 255 (and (mload s.1 s.2.1) 1))) Prod.fst
    (fun k s => s.2.1.toNat = numberPtr.toNat + 32 * k ∧
      s.2.2.toNat = 2 ^ 255 * (numAt mem numberPtr.toNat k % 2) ∧
      numAt s.1 numberPtr.toNat k = numAt mem numberPtr.toNat k / 2 ∧
      Frame (region numberPtr.toNat k) mem s.1)
    nLimbs.toNat K hK ?_ ?_ (mem, numberPtr, 0)
    ⟨rfl, rfl, (Nat.zero_div 2).symm, Frame.refl _ _⟩
  · obtain ⟨⟨mem', p, carryBit⟩, ⟨-, -, hvalue, hframe⟩, hrun⟩ := hrule
    exact ⟨mem', hrun, hvalue, hframe⟩
  · rintro k s hk ⟨hp, -⟩
    rw [lt_ne_zero, hend, hp]
    omega
  · rintro k ⟨mem', p, carryBit⟩ hk ⟨hp, hcarry, hvalue, hframe⟩
    dsimp only at hp hcarry hvalue hframe
    have hread : mload mem' p = wordAt mem (numberPtr.toNat + 32 * k) := by
      rw [mload_eq_wordAt mem' hp, hframe.wordAt_eq (disjoint_region (Or.inr le_rfl))]
    have hlimb := shr_or_carry (wordAt mem (numberPtr.toNat + 32 * k)) carryBit hcarry
    have hlt := word_lt (wordAt mem (numberPtr.toNat + 32 * k))
    refine ⟨?_, ?_, ?_, frame_mstore_succ hframe hp _⟩
    · have h32 : (32 : Word).toNat = 32 := rfl
      dsimp only
      rw [toNat_add_of_lt (by omega), h32]
      omega
    · show (shl 255 (and (mload mem' p) 1)).toNat = _
      have h255 : (255 : Word).toNat = 255 := rfl
      rw [hread, toNat_shl _ (by decide), h255, toNat_and_one, numAt_succ]
      omega
    · show numAt (mstore mem' p (or (shr 1 (mload mem' p)) carryBit)) _ (k + 1) = _
      rw [numAt_mstore_succ mem' hp, hread, hlimb, hvalue, numAt_succ]
      omega

/-! ## The loop -/

/-- The buffers of the remainder. -/
structure RemBuffers (dividendPtr divisorPtr tmpPtr1 tmpPtr2 nLimbs remPtr : Word) : Prop where
  fits : ∀ p, p ∈ [dividendPtr, divisorPtr, tmpPtr1, tmpPtr2, remPtr] →
    p.toNat + 32 * nLimbs.toNat < 2 ^ 256
  disjoint : [dividendPtr, divisorPtr, tmpPtr1, tmpPtr2, remPtr].Pairwise fun p q =>
    Disjoint (region p.toNat nLimbs.toNat) (region q.toNat nLimbs.toNat)

section Loop

variable (mem : Memory) (tmpPtr1 tmpPtr2 nLimbs remPtr : Word)

/-- Subtract, and keep the difference unless there is a borrow. -/
theorem remRound_within
    (h₁ : tmpPtr1.toNat + 32 * nLimbs.toNat < 2 ^ 256)
    (h₂ : tmpPtr2.toNat + 32 * nLimbs.toNat < 2 ^ 256)
    (hr : remPtr.toNat + 32 * nLimbs.toNat < 2 ^ 256)
    (h₁₂ : Disjoint (region tmpPtr1.toNat nLimbs.toNat) (region tmpPtr2.toNat nLimbs.toNat))
    (h₂r : Disjoint (region tmpPtr2.toNat nLimbs.toNat) (region remPtr.toNat nLimbs.toNat))
    {K : ℕ} (hK : nLimbs.toNat < K) :
    ∃ mem', Within K
        (fun fuel => do
          let (mem, borrow) ← bigUIntSubWithBorrow fuel mem remPtr tmpPtr1 nLimbs tmpPtr2
          if iszero borrow ≠ 0 then copyBigUint fuel mem nLimbs tmpPtr2 remPtr else some mem)
        mem' ∧
      numAt mem' remPtr.toNat nLimbs.toNat =
        remStep (2 ^ 256) nLimbs.toNat (numAt mem remPtr.toNat nLimbs.toNat)
          (numAt mem tmpPtr1.toNat nLimbs.toNat) ∧
      Frame (region tmpPtr2.toNat nLimbs.toNat ∪ region remPtr.toNat nLimbs.toNat) mem mem' := by
  obtain ⟨mem₁, borrow, hsub, hdifference, hborrow, hframe⟩ :=
    bigUIntSubWithBorrow_within mem remPtr tmpPtr1 nLimbs tmpPtr2 hr h₁ h₂ h₂r.symm h₁₂ hK
  have htest : iszero borrow ≠ 0 ↔
      chainBorrow (2 ^ 256) (numAt mem remPtr.toNat nLimbs.toNat)
        (numAt mem tmpPtr1.toNat nLimbs.toNat) nLimbs.toNat = 0 := by
    rw [iszero, boolWord_ne_zero, ← toNat_eq_zero, hborrow]
  rw [remStep]
  by_cases hzero : chainBorrow (2 ^ 256) (numAt mem remPtr.toNat nLimbs.toNat)
      (numAt mem tmpPtr1.toNat nLimbs.toNat) nLimbs.toNat = 0
  · obtain ⟨mem₂, hcopy, hvalue, hframe'⟩ :=
      copyBigUint_within mem₁ nLimbs tmpPtr2 remPtr h₂ hr h₂r hK
    refine ⟨mem₂, hsub.bind ?_, ?_, hframe.union hframe'⟩
    · simp only [if_pos (htest.mpr hzero)]
      exact hcopy
    · rw [if_pos hzero, hvalue, hdifference]
  · refine ⟨mem₁, hsub.bind ?_, ?_, hframe.mono Set.subset_union_left⟩
    · simp only [if_neg (mt htest.mp hzero)]
      exact Within.const K _
    · rw [if_neg hzero, hframe.numAt_eq h₂r.symm]

/-- The remaining rounds leave `total`. -/
structure RemInv (bd total : ℕ) (k : ℕ) (s : Memory × Word) : Prop where
  left : s.2.toNat + k = bd
  chain : remChain (2 ^ 256) nLimbs.toNat s.2.toNat (numAt s.1 remPtr.toNat nLimbs.toNat)
    (numAt s.1 tmpPtr1.toNat nLimbs.toNat) = total
  frame : Frame (region tmpPtr1.toNat nLimbs.toNat ∪ (region tmpPtr2.toNat nLimbs.toNat ∪
    region remPtr.toNat nLimbs.toNat)) mem s.1

/-- The loop is the chain of shifts and subtractions. -/
theorem remLoop_within (bd : Word)
    (h₁ : tmpPtr1.toNat + 32 * nLimbs.toNat < 2 ^ 256)
    (h₂ : tmpPtr2.toNat + 32 * nLimbs.toNat < 2 ^ 256)
    (hr : remPtr.toNat + 32 * nLimbs.toNat < 2 ^ 256)
    (h₁₂ : Disjoint (region tmpPtr1.toNat nLimbs.toNat) (region tmpPtr2.toNat nLimbs.toNat))
    (h₁r : Disjoint (region tmpPtr1.toNat nLimbs.toNat) (region remPtr.toNat nLimbs.toNat))
    (h₂r : Disjoint (region tmpPtr2.toNat nLimbs.toNat) (region remPtr.toNat nLimbs.toNat))
    {K : ℕ} (hK : nLimbs.toNat < K) (hbd : bd.toNat < K) :
    ∃ mem', Within K (fun fuel => remLoop fuel tmpPtr1 tmpPtr2 nLimbs remPtr mem bd) mem' ∧
      numAt mem' remPtr.toNat nLimbs.toNat =
        remChain (2 ^ 256) nLimbs.toNat bd.toNat (numAt mem remPtr.toNat nLimbs.toNat)
          (numAt mem tmpPtr1.toNat nLimbs.toNat) ∧
      Frame (region tmpPtr1.toNat nLimbs.toNat ∪ (region tmpPtr2.toNat nLimbs.toNat ∪
        region remPtr.toNat nLimbs.toNat)) mem mem' := by
  have hdisj : Disjoint (region tmpPtr1.toNat nLimbs.toNat)
      (region tmpPtr2.toNat nLimbs.toNat ∪ region remPtr.toNat nLimbs.toNat) :=
    Set.disjoint_union_right.mpr ⟨h₁₂, h₁r⟩
  have hrule := count_within
    (fun fuel (s : Memory × Word) => do
      let (mem, borrow) ← bigUIntSubWithBorrow fuel s.1 remPtr tmpPtr1 nLimbs tmpPtr2
      let mem ← if iszero borrow ≠ 0 then copyBigUint fuel mem nLimbs tmpPtr2 remPtr
        else some mem
      if iszero s.2 ≠ 0 then
        some (Flow.done mem)
      else
        let bd := sub s.2 1
        let mem ← bigUIntOneShiftRight fuel mem tmpPtr1 nLimbs
        some (.next (mem, bd)))
    (RemInv mem tmpPtr1 tmpPtr2 nLimbs remPtr bd.toNat
      (remChain (2 ^ 256) nLimbs.toNat bd.toNat (numAt mem remPtr.toNat nLimbs.toNat)
        (numAt mem tmpPtr1.toNat nLimbs.toNat)))
    (fun mem' =>
      numAt mem' remPtr.toNat nLimbs.toNat =
        remChain (2 ^ 256) nLimbs.toNat bd.toNat (numAt mem remPtr.toNat nLimbs.toNat)
          (numAt mem tmpPtr1.toNat nLimbs.toNat) ∧
      Frame (region tmpPtr1.toNat nLimbs.toNat ∪ (region tmpPtr2.toNat nLimbs.toNat ∪
        region remPtr.toNat nLimbs.toNat)) mem mem')
    bd.toNat K hbd ?_ ?_ (mem, bd) ⟨rfl, rfl, Frame.refl _ _⟩
  · exact hrule
  · rintro k ⟨mem', bd'⟩ hk ⟨hleft, hchain, hframe⟩
    dsimp only at hleft hchain hframe
    obtain ⟨mem₁, hround, hrem, hframe₁⟩ :=
      remRound_within mem' tmpPtr1 tmpPtr2 nLimbs remPtr h₁ h₂ hr h₁₂ h₂r hK
    obtain ⟨mem₂, hshift, hhalf, hframe₂⟩ :=
      bigUIntOneShiftRight_within mem₁ tmpPtr1 nLimbs h₁ hK
    have htest : ¬iszero bd' ≠ 0 := by
      rw [iszero, boolWord_ne_zero, ← toNat_eq_zero]
      omega
    have hpred : (sub bd' 1).toNat = bd'.toNat - 1 :=
      toNat_sub_one (by omega)
    obtain ⟨b, hb⟩ : ∃ b, bd'.toNat = b + 1 := ⟨bd'.toNat - 1, by omega⟩
    refine ⟨(mem₂, sub bd' 1), ?_, ?_, ?_, ?_⟩
    · refine (hround.bind (g := fun fuel mem => if iszero bd' ≠ 0 then some (Flow.done mem)
        else bigUIntOneShiftRight fuel mem tmpPtr1 nLimbs >>= fun mem =>
          some (Flow.next (mem, sub bd' 1))) ?_).congr fun fuel => ?_
      · simp only [if_neg htest]
        exact hshift.bind (Within.const K _)
      · simp only [bind_assoc, ite_bind_eq]
    · show (sub bd' 1).toNat + (k + 1) = _
      omega
    · show remChain _ _ (sub bd' 1).toNat (numAt mem₂ _ _) (numAt mem₂ _ _) = _
      have hb' : (sub bd' 1).toNat = b := by omega
      rw [← hchain, hb, hb', remChain, hframe₂.numAt_eq h₁r.symm, hrem, hhalf,
        hframe₁.numAt_eq hdisj]
    · refine hframe.trans ((hframe₁.mono Set.subset_union_right).trans
        (hframe₂.mono Set.subset_union_left))
  · rintro ⟨mem', bd'⟩ ⟨hleft, hchain, hframe⟩
    dsimp only at hleft hchain hframe
    have hzero : bd' = 0 := toNat_eq_zero.mp (by omega)
    subst hzero
    obtain ⟨mem₁, hround, hrem, hframe₁⟩ :=
      remRound_within mem' tmpPtr1 tmpPtr2 nLimbs remPtr h₁ h₂ hr h₁₂ h₂r hK
    refine ⟨mem₁, ?_, hrem.trans hchain, hframe.trans (hframe₁.mono Set.subset_union_right)⟩
    refine (hround.bind (g := fun fuel mem => if iszero 0 ≠ 0 then some (Flow.done mem)
      else bigUIntOneShiftRight fuel mem tmpPtr1 nLimbs >>= fun mem =>
        some (Flow.next (mem, sub 0 1))) ?_).congr fun fuel => ?_
    · exact Within.of_eq fun _ => rfl
    · simp only [bind_assoc, ite_bind_eq]

end Loop

/-! ## The whole function -/

/-- The buffers are cleared and the dividend is copied. -/
def remStart (mem : Memory) (dividendPtr tmpPtr1 tmpPtr2 nLimbs remPtr : Word) : Memory :=
  fun b =>
    if b ∈ region remPtr.toNat nLimbs.toNat then
      mem (dividendPtr.toNat + (b - remPtr.toNat))
    else if b ∈ region tmpPtr1.toNat nLimbs.toNat ∨ b ∈ region tmpPtr2.toNat nLimbs.toNat then
      0
    else
      mem b

section Rem

variable {mem : Memory} {dividendPtr divisorPtr tmpPtr1 tmpPtr2 nLimbs remPtr : Word}

theorem frame_remStart :
    Frame (region tmpPtr1.toNat nLimbs.toNat ∪ (region tmpPtr2.toNat nLimbs.toNat ∪
      region remPtr.toNat nLimbs.toNat)) mem
      (remStart mem dividendPtr tmpPtr1 tmpPtr2 nLimbs remPtr) := by
  intro b hb
  rw [Set.mem_union, Set.mem_union, not_or, not_or] at hb
  rw [remStart, if_neg hb.2.2, if_neg (not_or.mpr ⟨hb.1, hb.2.1⟩)]

/-- The calls before the shift. -/
theorem remStart_within (hb : RemBuffers dividendPtr divisorPtr tmpPtr1 tmpPtr2 nLimbs remPtr)
    {K : ℕ} (hK : nLimbs.toNat < K) :
    ∃ mem₁ mem₂,
      Within K (fun fuel => zeroWithLimbSizeAt fuel mem nLimbs tmpPtr1) mem₁ ∧
      Within K (fun fuel => zeroWithLimbSizeAt fuel mem₁ nLimbs tmpPtr2) mem₂ ∧
      Within K (fun fuel => copyBigUint fuel mem₂ nLimbs dividendPtr remPtr)
        (remStart mem dividendPtr tmpPtr1 tmpPtr2 nLimbs remPtr) := by
  obtain ⟨hfits, hdisjoint⟩ := hb
  simp only [List.mem_cons, List.not_mem_nil, or_false, forall_eq_or_imp, forall_eq] at hfits
  simp only [List.pairwise_cons, List.mem_cons, List.not_mem_nil, or_false, forall_eq_or_imp,
    forall_eq, IsEmpty.forall_iff, implies_true, List.Pairwise.nil, and_true] at hdisjoint
  obtain ⟨hdFits, -, h₁Fits, h₂Fits, hrFits⟩ := hfits
  obtain ⟨⟨-, hd₁, hd₂, hdr⟩, -, -, -⟩ := hdisjoint
  obtain ⟨mem₁, hrun₁, hzero₁, hframe₁⟩ := zeroWithLimbSizeAt_within mem nLimbs tmpPtr1 h₁Fits hK
  obtain ⟨mem₂, hrun₂, hzero₂, hframe₂⟩ := zeroWithLimbSizeAt_within mem₁ nLimbs tmpPtr2 h₂Fits hK
  obtain ⟨mem₃, hrun₃, hcopy, hframe₃⟩ :=
    copyBigUint_within mem₂ nLimbs dividendPtr remPtr hdFits hrFits hdr hK
  have heq : mem₃ = remStart mem dividendPtr tmpPtr1 tmpPtr2 nLimbs remPtr := by
    funext b
    rw [remStart]
    by_cases hr : b ∈ region remPtr.toNat nLimbs.toNat
    · rw [if_pos hr]
      obtain ⟨i, rfl⟩ := Nat.exists_eq_add_of_le hr.1
      have hi : i < 32 * nLimbs.toNat := by
        have := hr.2
        omega
      have hin : dividendPtr.toNat + i ∈ region dividendPtr.toNat nLimbs.toNat :=
        ⟨by omega, by omega⟩
      rw [Nat.add_sub_cancel_left, byte_eq_of_numAt_eq hcopy hi,
        hframe₂ _ (Set.disjoint_left.mp hd₂ hin), hframe₁ _ (Set.disjoint_left.mp hd₁ hin)]
    · rw [if_neg hr, hframe₃ b hr]
      by_cases h₂ : b ∈ region tmpPtr2.toNat nLimbs.toNat
      · rw [if_pos (Or.inr h₂)]
        exact numAt_eq_zero.mp hzero₂ b h₂
      · rw [hframe₂ b h₂]
        by_cases h₁ : b ∈ region tmpPtr1.toNat nLimbs.toNat
        · rw [if_pos (Or.inl h₁)]
          exact numAt_eq_zero.mp hzero₁ b h₁
        · rw [hframe₁ b h₁, if_neg (not_or.mpr ⟨h₁, h₂⟩)]
  rw [heq] at hrun₃
  exact ⟨mem₁, mem₂, hrun₁, hrun₂, hrun₃⟩

/-- The numbers in the buffers before the shift. -/
theorem numAt_remStart (hb : RemBuffers dividendPtr divisorPtr tmpPtr1 tmpPtr2 nLimbs remPtr) :
    numAt (remStart mem dividendPtr tmpPtr1 tmpPtr2 nLimbs remPtr) remPtr.toNat nLimbs.toNat =
        numAt mem dividendPtr.toNat nLimbs.toNat ∧
      numAt (remStart mem dividendPtr tmpPtr1 tmpPtr2 nLimbs remPtr) divisorPtr.toNat
        nLimbs.toNat = numAt mem divisorPtr.toNat nLimbs.toNat ∧
      numAt (remStart mem dividendPtr tmpPtr1 tmpPtr2 nLimbs remPtr) tmpPtr1.toNat
        nLimbs.toNat = 0 := by
  have hdisjoint := hb.disjoint
  simp only [List.pairwise_cons, List.mem_cons, List.not_mem_nil, or_false, forall_eq_or_imp,
    forall_eq, IsEmpty.forall_iff, implies_true, List.Pairwise.nil, and_true] at hdisjoint
  obtain ⟨-, ⟨hs₁, hs₂, hsr⟩, ⟨-, h₁r⟩, -⟩ := hdisjoint
  refine ⟨?_, ?_, ?_⟩
  · refine beNat_congr fun i hi => ?_
    rw [remStart, if_pos ⟨by omega, by omega⟩, Nat.add_sub_cancel_left]
  · exact frame_remStart.numAt_eq (Set.disjoint_union_right.mpr
      ⟨hs₁, Set.disjoint_union_right.mpr ⟨hs₂, hsr⟩⟩)
  · rw [numAt_eq_zero]
    intro b hb
    rw [remStart, if_neg (Set.disjoint_left.mp h₁r hb), if_pos (Or.inl hb)]

/-- The word behind the first scratch buffer, which the shift writes, before the shift. -/
def behindTmp (mem : Memory) (dividendPtr tmpPtr1 tmpPtr2 nLimbs remPtr : Word) : Word :=
  wordAt (remStart mem dividendPtr tmpPtr1 tmpPtr2 nLimbs remPtr)
    (tmpPtr1.toNat + 32 * nLimbs.toNat)

variable (mem dividendPtr divisorPtr tmpPtr1 tmpPtr2 nLimbs remPtr)

/-- What the function computes, for every shift count within the buffers: the chain, from
the dividend on unless the shift has changed it. -/
theorem bigUIntRem_within
    (hb : RemBuffers dividendPtr divisorPtr tmpPtr1 tmpPtr2 nLimbs remPtr)
    (realLimbs modulusBitSize bd : Word) (hbd : bd = sub (shl 8 realLimbs) modulusBitSize)
    (hlt : bd.toNat < 256 * nLimbs.toNat) {K : ℕ} (hK : nLimbs.toNat < K)
    (hKbd : bd.toNat < K) :
    ∃ (mem' : Memory) (r : ℕ),
      Within K (fun fuel => bigUIntRem fuel mem dividendPtr divisorPtr tmpPtr1 tmpPtr2 nLimbs
        realLimbs modulusBitSize remPtr) mem' ∧
      numAt mem' remPtr.toNat nLimbs.toNat =
        remChain (2 ^ 256) nLimbs.toNat bd.toNat r
          (numAt mem divisorPtr.toNat nLimbs.toNat * 2 ^ bd.toNat % 2 ^ (256 * nLimbs.toNat) +
            overReadBits (remStart mem dividendPtr tmpPtr1 tmpPtr2 nLimbs remPtr) bd divisorPtr
              nLimbs tmpPtr1 * 2 ^ (256 * (bd.toNat / 256))) ∧
      ((bd.toNat % 256 = 0 ∨ behindTmp mem dividendPtr tmpPtr1 tmpPtr2 nLimbs remPtr = 0 ∨
          Disjoint (region (tmpPtr1.toNat + 32 * nLimbs.toNat) 1)
            (region remPtr.toNat nLimbs.toNat)) →
        r = numAt mem dividendPtr.toNat nLimbs.toNat) ∧
      Frame (region tmpPtr1.toNat (nLimbs.toNat + 1) ∪ (region tmpPtr2.toNat nLimbs.toNat ∪
        region remPtr.toNat nLimbs.toNat)) mem mem' ∧
      ((bd.toNat % 256 = 0 ∨ behindTmp mem dividendPtr tmpPtr1 tmpPtr2 nLimbs remPtr = 0) →
        Frame (region tmpPtr1.toNat nLimbs.toNat ∪ (region tmpPtr2.toNat nLimbs.toNat ∪
          region remPtr.toNat nLimbs.toNat)) mem mem') := by
  obtain ⟨mem₁, mem₂, hzero₁, hzero₂, hcopy⟩ := @remStart_within mem _ _ _ _ _ _ hb _ hK
  obtain ⟨hrem, hdivisor, htmp⟩ := @numAt_remStart mem _ _ _ _ _ _ hb
  obtain ⟨hfits, hdisjoint⟩ := hb
  simp only [List.mem_cons, List.not_mem_nil, or_false, forall_eq_or_imp, forall_eq] at hfits
  simp only [List.pairwise_cons, List.mem_cons, List.not_mem_nil, or_false, forall_eq_or_imp,
    forall_eq, IsEmpty.forall_iff, implies_true, List.Pairwise.nil, and_true] at hdisjoint
  obtain ⟨hdFits, hsFits, h₁Fits, h₂Fits, hrFits⟩ := hfits
  obtain ⟨-, ⟨hs₁, -, -⟩, ⟨h₁₂, h₁r⟩, h₂r⟩ := hdisjoint
  obtain ⟨mem₃, hshift, hshifted, hbehind, hframe₃⟩ := bigUIntShl_within
    (remStart mem dividendPtr tmpPtr1 tmpPtr2 nLimbs remPtr) bd divisorPtr nLimbs tmpPtr1
    hsFits h₁Fits hs₁ hlt htmp hK
  obtain ⟨mem', hloop, hvalue, hframe⟩ := remLoop_within mem₃ tmpPtr1 tmpPtr2 nLimbs remPtr bd
    h₁Fits h₂Fits hrFits h₁₂ h₁r h₂r hK hKbd
  have hstart : Frame (region tmpPtr1.toNat nLimbs.toNat ∪ (region tmpPtr2.toNat nLimbs.toNat ∪
      region remPtr.toNat nLimbs.toNat)) mem
      (remStart mem dividendPtr tmpPtr1 tmpPtr2 nLimbs remPtr) := frame_remStart
  -- a shift that leaves the word behind the buffer as it is
  have hquiet : bd.toNat % 256 = 0 ∨
      behindTmp mem dividendPtr tmpPtr1 tmpPtr2 nLimbs remPtr = 0 →
      Frame (region tmpPtr1.toNat nLimbs.toNat)
        (remStart mem dividendPtr tmpPtr1 tmpPtr2 nLimbs remPtr) mem₃ := by
    intro h
    refine hframe₃.of_succ ?_
    rw [hbehind, overWrite_eq_self_iff]
    exact h
  refine ⟨mem', numAt mem₃ remPtr.toNat nLimbs.toNat, ?_, ?_, ?_, ?_, ?_⟩
  · refine hzero₁.bind (hzero₂.bind (hcopy.bind ?_))
    simp only [← hbd]
    exact hshift.bind hloop
  · rw [hvalue, hshifted, hdivisor]
  · intro h
    rw [← hrem]
    rcases h with h | h | h
    · exact (hquiet (Or.inl h)).numAt_eq h₁r.symm
    · exact (hquiet (Or.inr h)).numAt_eq h₁r.symm
    · refine numAt_congr fun b hb => hframe₃ b fun hin => ?_
      by_cases hlow : b ∈ region tmpPtr1.toNat nLimbs.toNat
      · exact Set.disjoint_left.mp h₁r hlow hb
      · refine Set.disjoint_left.mp h ?_ hb
        rw [mem_region] at hin hlow ⊢
        omega
  · have hmore : region tmpPtr1.toNat nLimbs.toNat ⊆ region tmpPtr1.toNat (nLimbs.toNat + 1) :=
      region_subset le_rfl (by omega)
    refine (hstart.mono (Set.union_subset_union_left _ hmore)).trans
      ((hframe₃.mono Set.subset_union_left).trans
        (hframe.mono (Set.union_subset_union_left _ hmore)))
  · intro h
    exact hstart.trans (((hquiet h).mono Set.subset_union_left).trans hframe)

/-! ## When the result is the remainder -/

/-- The number of bits by which the divisor is shifted up. -/
def shiftCount (n dividend divisor : ℕ) : ℕ :=
  256 * nonzeroLimbs n dividend - divisor.size

/-- The shift count is not negative, the shifted divisor reaches the dividend, and no lost
borrow does harm. -/
structure ReductionSafe (n dividend divisor : ℕ) : Prop where
  count : divisor.size ≤ 256 * nonzeroLimbs n dividend
  word : shiftCount n dividend divisor < 2 ^ 256
  bound : dividend < divisor * 2 ^ (shiftCount n dividend divisor + 1)
  harmless : ∀ j, j < shiftCount n dividend divisor + 1 →
    LossHarmless (2 ^ 256) (dividend % (divisor * 2 ^ (j + 1))) (divisor * 2 ^ j) n

theorem toNat_shiftCount {k m : ℕ} (hm : m ≤ 256 * k) (hlt : 256 * k - m < 2 ^ 256) :
    (sub (shl 8 (BitVec.ofNat 256 k)) (BitVec.ofNat 256 m)).toNat = 256 * k - m := by
  have h8 : (8 : Word).toNat = 8 := rfl
  have hshl : shl 8 (BitVec.ofNat 256 k) = BitVec.ofNat 256 (256 * k - m + m) := by
    refine word_ext ?_
    have hpow : (2 : ℕ) ^ 8 = 256 := rfl
    rw [toNat_shl _ (by decide), h8, toNat_ofNat, toNat_ofNat, Nat.mod_mul_mod,
      Nat.sub_add_cancel hm, Nat.mul_comm, hpow]
  have hsub : sub (shl 8 (BitVec.ofNat 256 k)) (BitVec.ofNat 256 m) =
      BitVec.ofNat 256 (256 * k - m) := by
    rw [hshl, BitVec.ofNat_add]
    exact BitVec.add_sub_cancel _ _
  rw [hsub, toNat_ofNat_of_lt hlt]

/-- The shift count stays within the buffers. -/
theorem shiftCount_lt {n divisor : ℕ} (dividend : ℕ) (hdivisor : 0 < divisor) (hn : 0 < n) :
    shiftCount n dividend divisor < 256 * n := by
  have hsize : 0 < divisor.size := Nat.size_pos.mpr hdivisor
  have hle := nonzeroLimbs_le n dividend
  rw [shiftCount]
  omega

/-- The shifted divisor fits into the buffer. -/
theorem mul_pow_shiftCount_lt {n dividend divisor : ℕ}
    (h : divisor.size ≤ 256 * nonzeroLimbs n dividend) :
    divisor * 2 ^ shiftCount n dividend divisor < 2 ^ (256 * n) := by
  have hle := nonzeroLimbs_le n dividend
  have hsize : divisor < 2 ^ divisor.size := Nat.lt_size_self divisor
  have hmul : divisor * 2 ^ shiftCount n dividend divisor <
      2 ^ divisor.size * 2 ^ shiftCount n dividend divisor :=
    Nat.mul_lt_mul_of_pos_right hsize (by positivity)
  refine hmul.trans_le ?_
  rw [← pow_add]
  refine Nat.pow_le_pow_right (by norm_num) ?_
  rw [shiftCount]
  omega

/-- The chain of a safe reduction leaves the remainder. -/
theorem ReductionSafe.remChain_eq {n dividend divisor : ℕ} (h : ReductionSafe n dividend divisor)
    (hpos : 0 < divisor) (hdividend : dividend < 2 ^ (256 * n)) :
    remChain (2 ^ 256) n (shiftCount n dividend divisor) dividend
      (divisor * 2 ^ shiftCount n dividend divisor) = dividend % divisor := by
  have hlt := mul_pow_shiftCount_lt h.count
  rw [pow_mul] at hlt hdividend
  exact EraPrecompiles.remChain_eq (by norm_num) hpos _ _ hdividend hlt h.bound fun j hj =>
    h.harmless j (by omega)

/-- The call as the exponentiation makes it. -/
def remCall (fuel : ℕ) (mem : Memory)
    (dividendPtr divisorPtr tmpPtr1 tmpPtr2 nLimbs remPtr : Word) : Option Memory := do
  let modulusBitSize ← bigUIntBitSize fuel mem divisorPtr nLimbs
  let limbsToRem ← bigIntLimbsWithoutZeros fuel mem dividendPtr nLimbs
  bigUIntRem fuel mem dividendPtr divisorPtr tmpPtr1 tmpPtr2 nLimbs limbsToRem modulusBitSize
    remPtr

/-- The remainder is stored, and dividend and divisor are what they were. -/
def RemExact : Prop :=
  let dividend := numAt mem dividendPtr.toNat nLimbs.toNat
  let divisor := numAt mem divisorPtr.toNat nLimbs.toNat
  ∃ mem', Yields (fun fuel => remCall fuel mem dividendPtr divisorPtr tmpPtr1 tmpPtr2 nLimbs
      remPtr) mem' ∧
    numAt mem' remPtr.toNat nLimbs.toNat = dividend % divisor ∧
    numAt mem' dividendPtr.toNat nLimbs.toNat = dividend ∧
    numAt mem' divisorPtr.toNat nLimbs.toNat = divisor

/-- A safe reduction, with a shift that neither takes in foreign bits nor writes into one
of the numbers. -/
structure RemSafe : Prop where
  reduction : ReductionSafe nLimbs.toNat (numAt mem dividendPtr.toNat nLimbs.toNat)
    (numAt mem divisorPtr.toNat nLimbs.toNat)
  shift : shiftCount nLimbs.toNat (numAt mem dividendPtr.toNat nLimbs.toNat)
      (numAt mem divisorPtr.toNat nLimbs.toNat) % 256 = 0 ∨
    overReadBits (remStart mem dividendPtr tmpPtr1 tmpPtr2 nLimbs remPtr)
        (BitVec.ofNat 256 (shiftCount nLimbs.toNat
          (numAt mem dividendPtr.toNat nLimbs.toNat)
          (numAt mem divisorPtr.toNat nLimbs.toNat))) divisorPtr nLimbs tmpPtr1 = 0 ∧
      (behindTmp mem dividendPtr tmpPtr1 tmpPtr2 nLimbs remPtr = 0 ∨
        Disjoint (region (tmpPtr1.toNat + 32 * nLimbs.toNat) 1)
          (region dividendPtr.toNat nLimbs.toNat ∪ (region divisorPtr.toNat nLimbs.toNat ∪
            region remPtr.toNat nLimbs.toNat)))

/-- The call with the counts as numbers. -/
theorem remCall_yields (mem' : Memory)
    (hdFits : dividendPtr.toNat + 32 * nLimbs.toNat < 2 ^ 256)
    (hsFits : divisorPtr.toNat + 32 * nLimbs.toNat < 2 ^ 256)
    (h : Yields (fun fuel => bigUIntRem fuel mem dividendPtr divisorPtr tmpPtr1 tmpPtr2 nLimbs
      (BitVec.ofNat 256
        (nonzeroLimbs nLimbs.toNat (numAt mem dividendPtr.toNat nLimbs.toNat)))
      (BitVec.ofNat 256 (numAt mem divisorPtr.toNat nLimbs.toNat).size) remPtr) mem') :
    Yields (fun fuel => remCall fuel mem dividendPtr divisorPtr tmpPtr1 tmpPtr2 nLimbs
      remPtr) mem' := by
  have hlimbs := bigIntLimbsWithoutZeros_within mem dividendPtr nLimbs hdFits
    (Nat.lt_succ_self _)
  exact (bigUIntBitSize_yields mem divisorPtr nLimbs hsFits).bind (hlimbs.yields.bind h)

/-- A safe call stores the remainder. -/
theorem bigUIntRem_exact
    (hb : RemBuffers dividendPtr divisorPtr tmpPtr1 tmpPtr2 nLimbs remPtr)
    (hpos : 0 < numAt mem divisorPtr.toNat nLimbs.toNat)
    (h : RemSafe mem dividendPtr divisorPtr tmpPtr1 tmpPtr2 nLimbs remPtr) :
    RemExact mem dividendPtr divisorPtr tmpPtr1 tmpPtr2 nLimbs remPtr := by
  obtain ⟨hsafe, hshift⟩ := h
  have hn : 0 < nLimbs.toNat := by
    by_contra hzero
    have hnone : nLimbs.toNat = 0 := by omega
    rw [hnone, numAt_none] at hpos
    omega
  have hbd := toNat_shiftCount hsafe.count hsafe.word
  obtain ⟨bd, hbdDef⟩ : ∃ bd, bd = sub
      (shl 8 (BitVec.ofNat 256
        (nonzeroLimbs nLimbs.toNat (numAt mem dividendPtr.toNat nLimbs.toNat))))
      (BitVec.ofNat 256 (numAt mem divisorPtr.toNat nLimbs.toNat).size) := ⟨_, rfl⟩
  rw [← hbdDef] at hbd
  have hbd' : bd.toNat = shiftCount nLimbs.toNat (numAt mem dividendPtr.toNat nLimbs.toNat)
      (numAt mem divisorPtr.toNat nLimbs.toNat) := hbd
  have hcount := shiftCount_lt (numAt mem dividendPtr.toNat nLimbs.toNat) hpos hn
  obtain ⟨mem', r, hrun, hvalue, hr, hframe, hquiet⟩ := bigUIntRem_within mem dividendPtr
    divisorPtr tmpPtr1 tmpPtr2 nLimbs remPtr hb _ _ bd hbdDef (by omega)
    (show nLimbs.toNat < 256 * nLimbs.toNat by omega) (by omega)
  obtain ⟨hfits, hdisjoint⟩ := hb
  simp only [List.mem_cons, List.not_mem_nil, or_false, forall_eq_or_imp, forall_eq] at hfits
  simp only [List.pairwise_cons, List.mem_cons, List.not_mem_nil, or_false, forall_eq_or_imp,
    forall_eq, IsEmpty.forall_iff, implies_true, List.Pairwise.nil, and_true] at hdisjoint
  obtain ⟨hdFits, hsFits, -, -, -⟩ := hfits
  obtain ⟨⟨-, hd₁, hd₂, hdr⟩, ⟨hs₁, hs₂, hsr⟩, ⟨-, h₁r⟩, -⟩ := hdisjoint
  have hword : BitVec.ofNat 256 (shiftCount nLimbs.toNat
      (numAt mem dividendPtr.toNat nLimbs.toNat)
      (numAt mem divisorPtr.toNat nLimbs.toNat)) = bd := by
    refine word_ext ?_
    rw [toNat_ofNat_of_lt hsafe.word, hbd']
  rw [hword, ← hbd'] at hshift
  have hbits : overReadBits (remStart mem dividendPtr tmpPtr1 tmpPtr2 nLimbs remPtr) bd
      divisorPtr nLimbs tmpPtr1 = 0 := by
    rcases hshift with hzero | ⟨hbits, -⟩
    · exact overReadBits_eq_zero _ _ _ _ _ hzero
    · exact hbits
  have hdividend : r = numAt mem dividendPtr.toNat nLimbs.toNat := by
    refine hr ?_
    rcases hshift with hzero | ⟨-, hzero | hdisj⟩
    · exact Or.inl hzero
    · exact Or.inr (Or.inl hzero)
    · rw [Set.disjoint_union_right, Set.disjoint_union_right] at hdisj
      exact Or.inr (Or.inr hdisj.2.2)
  -- a number that the call keeps, wherever the word behind the buffer lies
  have hkept : ∀ p : Word,
      Disjoint (region p.toNat nLimbs.toNat) (region tmpPtr1.toNat nLimbs.toNat) →
      Disjoint (region p.toNat nLimbs.toNat) (region tmpPtr2.toNat nLimbs.toNat) →
      Disjoint (region p.toNat nLimbs.toNat) (region remPtr.toNat nLimbs.toNat) →
      region p.toNat nLimbs.toNat ⊆ region dividendPtr.toNat nLimbs.toNat ∪
        (region divisorPtr.toNat nLimbs.toNat ∪ region remPtr.toNat nLimbs.toNat) →
      numAt mem' p.toNat nLimbs.toNat = numAt mem p.toNat nLimbs.toNat := by
    intro p hp₁ hp₂ hpr hsub
    have hrest := Set.disjoint_union_right.mpr ⟨hp₂, hpr⟩
    rcases hshift with hzero | ⟨-, hzero | hdisj⟩
    · exact (hquiet (Or.inl hzero)).numAt_eq (Set.disjoint_union_right.mpr ⟨hp₁, hrest⟩)
    · exact (hquiet (Or.inr hzero)).numAt_eq (Set.disjoint_union_right.mpr ⟨hp₁, hrest⟩)
    · refine hframe.numAt_eq (Set.disjoint_union_right.mpr ⟨?_, hrest⟩)
      rw [Set.disjoint_left]
      intro b hbp hin
      by_cases hlow : b ∈ region tmpPtr1.toNat nLimbs.toNat
      · exact Set.disjoint_left.mp hp₁ hbp hlow
      · refine Set.disjoint_left.mp hdisj ?_ (hsub hbp)
        rw [mem_region] at hin hlow ⊢
        omega
  refine ⟨mem', ?_, ?_, ?_, ?_⟩
  · exact remCall_yields mem dividendPtr divisorPtr tmpPtr1 tmpPtr2 nLimbs remPtr mem' hdFits
      hsFits hrun.yields
  · rw [hvalue, hbits, hdividend, Nat.zero_mul, Nat.add_zero, hbd',
      Nat.mod_eq_of_lt (mul_pow_shiftCount_lt hsafe.count),
      hsafe.remChain_eq hpos (numAt_lt mem _ _)]
  · exact hkept dividendPtr hd₁ hd₂ hdr Set.subset_union_left
  · exact hkept divisorPtr hs₁ hs₂ hsr
      (Set.subset_union_left.trans Set.subset_union_right)

end Rem

/-- Dividend, divisor, two scratch buffers and the remainder of `n` limbs, from `0` on. -/
theorem remBuffers_ofNat {a b c d e n : ℕ} (hb : b = a + 32 * n) (hc : c = b + 32 * n)
    (hd : d = c + 32 * n) (he : e = d + 32 * n) (hlt : e + 32 * n < 2 ^ 256) :
    RemBuffers (BitVec.ofNat 256 a) (BitVec.ofNat 256 b) (BitVec.ofNat 256 c)
      (BitVec.ofNat 256 d) (BitVec.ofNat 256 n) (BitVec.ofNat 256 e) := by
  have ha' := toNat_ofNat_of_lt (n := a) (by omega)
  have hb' := toNat_ofNat_of_lt (n := b) (by omega)
  have hc' := toNat_ofNat_of_lt (n := c) (by omega)
  have hd' := toNat_ofNat_of_lt (n := d) (by omega)
  have he' := toNat_ofNat_of_lt (n := e) (by omega)
  have hn' := toNat_ofNat_of_lt (n := n) (by omega)
  refine ⟨?_, ?_⟩
  · simp only [List.mem_cons, List.not_mem_nil, or_false, forall_eq_or_imp, forall_eq]
    omega
  · simp only [List.pairwise_cons, List.mem_cons, List.not_mem_nil, or_false, forall_eq_or_imp,
      forall_eq, IsEmpty.forall_iff, implies_true, List.Pairwise.nil, and_true]
    refine ⟨⟨?_, ?_, ?_, ?_⟩, ⟨?_, ?_, ?_⟩, ⟨?_, ?_⟩, ?_⟩ <;> exact disjoint_region (by omega)

/-- The dividend `2^258`, with a zero limb, and the divisor `2^255`. -/
def zeroLimbMemory : Memory :=
  storeWords Memory.zero 0 [4, 0, 0, BitVec.twoPow 256 255]

/-- The divisor is not shifted, and subtracted once. -/
theorem bigUIntRem_not_exact : ¬RemExact zeroLimbMemory 0 64 128 192 2 256 := by
  have hb : RemBuffers 0 64 128 192 2 256 :=
    remBuffers_ofNat (a := 0) (n := 2) rfl rfl rfl rfl (by norm_num)
  obtain ⟨mem', r, hrun, hvalue, hr, -⟩ := bigUIntRem_within zeroLimbMemory 0 64 128 192 2 256
    hb 1 256 0 (by decide) (by decide) (Nat.lt_succ_self _) (by decide)
  have hcall := remCall_yields zeroLimbMemory 0 64 128 192 2 256 mem' (by decide)
    (by decide) (by
      have hk : BitVec.ofNat 256 (nonzeroLimbs 2 (numAt zeroLimbMemory 0 2)) = 1 := by
        decide +kernel
      have hm : BitVec.ofNat 256 (numAt zeroLimbMemory 64 2).size = 256 := by
        decide +kernel
      exact (congrArg₂ (fun k m => Yields (fun fuel => bigUIntRem fuel zeroLimbMemory 0 64 128
        192 2 k m 256) mem') hk hm).mpr hrun.yields)
  rintro ⟨mem'', hrun', hvalue', -⟩
  rw [← hcall.unique hrun', hvalue, hr (Or.inl rfl)] at hvalue'
  exact absurd hvalue' (by decide +kernel)

/-- A divisor of one full limb. -/
theorem bigUIntRem_exact_one :
    RemExact (storeWords Memory.zero 0 [BitVec.allOnes 256, BitVec.twoPow 256 255]) 0 32 64 96 1
      128 := by
  refine bigUIntRem_exact _ _ _ _ _ _ _
    (remBuffers_ofNat (a := 0) (n := 1) rfl rfl rfl rfl (by norm_num)) (by decide)
    ⟨⟨by decide +kernel, by decide +kernel, by decide +kernel, by decide +kernel⟩,
      Or.inl (by decide +kernel)⟩

end EraPrecompiles.ModExp
