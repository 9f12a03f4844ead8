import EraPrecompiles.ModExp.Program
import EraPrecompiles.Yul.Limbs

/-!
# Subtraction of numbers of any length

`bigUIntSubWithBorrow` adds the incoming borrow to the limb of the subtrahend before it
compares.  The sum wraps for the limb `2^256 - 1`: then the borrow is lost.

`bigUIntSubWithBorrow_within` says that the function is the chain of `chainSub` and
`chainBorrow`, on all memories.  With it `bigUIntSubWithBorrow_exact_iff` says for which
operands it is subtraction.
-/

namespace EraPrecompiles.ModExp

theorem overflowingSubWithBorrow_fst (x y c : Word) :
    (overflowingSubWithBorrow x y c).1.toNat =
      (x.toNat + (2 ^ 256 - (y.toNat + c.toNat) % 2 ^ 256)) % 2 ^ 256 := by
  show (sub x (add y c)).toNat = _
  rw [toNat_sub, toNat_add, Nat.add_comm]

theorem overflowingSubWithBorrow_snd (x y c : Word) :
    (overflowingSubWithBorrow x y c).2.toNat =
      if x.toNat < (y.toNat + c.toNat) % 2 ^ 256 then 1 else 0 := by
  show (gt (sub x (add y c)) x).toNat = _
  have hx := word_lt x
  have hmod : (y.toNat + c.toNat) % 2 ^ 256 < 2 ^ 256 := Nat.mod_lt _ (by norm_num)
  rw [gt, toNat_boolWord, toNat_sub, toNat_add]
  refine if_congr ?_ rfl rfl
  omega

/-- One round of the loop. -/
def subStep (minuendPtr subtrahendPtr differencePtr : Word) (s : Memory × Word × Word) :
    Memory × Word × Word :=
  let (mem, i, borrow) := s
  let limbOffset := shl 5 (sub i 1)
  let r := overflowingSubWithBorrow (getLimbValueAtOffset mem minuendPtr limbOffset)
    (getLimbValueAtOffset mem subtrahendPtr limbOffset) borrow
  (storeLimbValueAtOffset mem differencePtr limbOffset r.1, sub i 1, r.2)

/-- The numbers are the same in `mem`, and the lowest `k` limbs are done. -/
structure SubInv (mem : Memory) (minuendPtr subtrahendPtr nLimbs differencePtr : Word)
    (k : ℕ) (s : Memory × Word × Word) : Prop where
  left : s.2.1.toNat + k = nLimbs.toNat
  frame : Frame (region (differencePtr.toNat + 32 * s.2.1.toNat) k) mem s.1
  difference : numAt s.1 (differencePtr.toNat + 32 * s.2.1.toNat) k =
    chainSub (2 ^ 256) (numAt mem minuendPtr.toNat nLimbs.toNat)
      (numAt mem subtrahendPtr.toNat nLimbs.toNat) k
  borrow : s.2.2.toNat =
    chainBorrow (2 ^ 256) (numAt mem minuendPtr.toNat nLimbs.toNat)
      (numAt mem subtrahendPtr.toNat nLimbs.toNat) k

section Run

variable {mem : Memory} {minuendPtr subtrahendPtr nLimbs differencePtr : Word}

theorem subStep_spec (hm : minuendPtr.toNat + 32 * nLimbs.toNat < 2 ^ 256)
    (hs : subtrahendPtr.toNat + 32 * nLimbs.toNat < 2 ^ 256)
    (hd : differencePtr.toNat + 32 * nLimbs.toNat < 2 ^ 256)
    (hdm : Disjoint (region minuendPtr.toNat nLimbs.toNat)
      (region differencePtr.toNat nLimbs.toNat))
    (hds : Disjoint (region subtrahendPtr.toNat nLimbs.toNat)
      (region differencePtr.toNat nLimbs.toNat))
    {k : ℕ} {s : Memory × Word × Word} (hk : k < nLimbs.toNat)
    (hI : SubInv mem minuendPtr subtrahendPtr nLimbs differencePtr k s) :
    SubInv mem minuendPtr subtrahendPtr nLimbs differencePtr (k + 1)
      (subStep minuendPtr subtrahendPtr differencePtr s) := by
  obtain ⟨mem', i, borrow⟩ := s
  obtain ⟨hleft, hframe, hdifference, hborrow⟩ := hI
  dsimp only at hleft hframe hdifference hborrow
  have hi : (sub i 1).toNat = nLimbs.toNat - 1 - k := by
    rw [toNat_sub_one (by omega)]
    omega
  have hmPtr : (add (shl 5 (sub i 1)) minuendPtr).toNat =
      minuendPtr.toNat + 32 * (nLimbs.toNat - 1 - k) := by
    rw [add, BitVec.add_comm, ← hi]
    exact toNat_limbPtr (by omega)
  have hsPtr : (add (shl 5 (sub i 1)) subtrahendPtr).toNat =
      subtrahendPtr.toNat + 32 * (nLimbs.toNat - 1 - k) := by
    rw [add, BitVec.add_comm, ← hi]
    exact toNat_limbPtr (by omega)
  have hdPtr : (add differencePtr (shl 5 (sub i 1))).toNat =
      differencePtr.toNat + 32 * (sub i 1).toNat := toNat_limbPtr (by omega)
  -- the operands are read from memory as it was
  have hread : ∀ {p : ℕ}, Disjoint (region p nLimbs.toNat)
      (region differencePtr.toNat nLimbs.toNat) →
      (wordAt mem' (p + 32 * (nLimbs.toNat - 1 - k))).toNat =
        limb (2 ^ 256) (numAt mem p nLimbs.toNat) k := by
    intro p hp
    rw [← toNat_wordAt_limb mem p hk, hframe.wordAt_eq]
    exact hp.mono (region_subset (by omega) (by omega)) (region_subset (by omega) (by omega))
  have hx : (getLimbValueAtOffset mem' minuendPtr (shl 5 (sub i 1))).toNat =
      limb (2 ^ 256) (numAt mem minuendPtr.toNat nLimbs.toNat) k := by
    rw [getLimbValueAtOffset, mload_eq_wordAt mem' hmPtr, hread hdm]
  have hy : (getLimbValueAtOffset mem' subtrahendPtr (shl 5 (sub i 1))).toNat =
      limb (2 ^ 256) (numAt mem subtrahendPtr.toNat nLimbs.toNat) k := by
    rw [getLimbValueAtOffset, mload_eq_wordAt mem' hsPtr, hread hds]
  have hnext : differencePtr.toNat + 32 * i.toNat =
      differencePtr.toNat + 32 * (sub i 1).toNat + 32 := by omega
  rw [hnext] at hframe hdifference
  refine ⟨?_, ?_, ?_, ?_⟩
  · show (sub i 1).toNat + (k + 1) = _
    omega
  · have hall : region (differencePtr.toNat + 32 * (sub i 1).toNat + 32) k ⊆
        region (differencePtr.toNat + 32 * (sub i 1).toNat) (k + 1) :=
      region_subset (by omega) (by omega)
    refine (hframe.mono hall).trans ((frame_mstore mem' hdPtr _).mono ?_)
    exact region_subset le_rfl (by omega)
  · have hstore := numAt_mstore_left mem' (n := k) hdPtr
      (overflowingSubWithBorrow
        (getLimbValueAtOffset mem' minuendPtr (shl 5 (sub i 1)))
        (getLimbValueAtOffset mem' subtrahendPtr (shl 5 (sub i 1))) borrow).1
    refine hstore.trans ?_
    rw [hdifference, overflowingSubWithBorrow_fst, hx, hy, hborrow, chainSub, chainLimb,
      pow_mul]
    ring
  · show (overflowingSubWithBorrow _ _ _).2.toNat = _
    rw [overflowingSubWithBorrow_snd, hx, hy, hborrow, chainBorrow]

variable (mem minuendPtr subtrahendPtr nLimbs differencePtr)

theorem bigUIntSubWithBorrow_within
    (hm : minuendPtr.toNat + 32 * nLimbs.toNat < 2 ^ 256)
    (hs : subtrahendPtr.toNat + 32 * nLimbs.toNat < 2 ^ 256)
    (hd : differencePtr.toNat + 32 * nLimbs.toNat < 2 ^ 256)
    (hdm : Disjoint (region minuendPtr.toNat nLimbs.toNat)
      (region differencePtr.toNat nLimbs.toNat))
    (hds : Disjoint (region subtrahendPtr.toNat nLimbs.toNat)
      (region differencePtr.toNat nLimbs.toNat))
    {K : ℕ} (hK : nLimbs.toNat < K) :
    ∃ (mem' : Memory) (borrow : Word),
      Within K (fun fuel => bigUIntSubWithBorrow fuel mem minuendPtr subtrahendPtr nLimbs
        differencePtr) (mem', borrow) ∧
      numAt mem' differencePtr.toNat nLimbs.toNat =
        chainSub (2 ^ 256) (numAt mem minuendPtr.toNat nLimbs.toNat)
          (numAt mem subtrahendPtr.toNat nLimbs.toNat) nLimbs.toNat ∧
      borrow.toNat =
        chainBorrow (2 ^ 256) (numAt mem minuendPtr.toNat nLimbs.toNat)
          (numAt mem subtrahendPtr.toNat nLimbs.toNat) nLimbs.toNat ∧
      Frame (region differencePtr.toNat nLimbs.toNat) mem mem' := by
  have hzero : (0 : Word).toNat = 0 := rfl
  have hrule := while_within
    (fun s : Memory × Word × Word => gt s.2.1 0 ≠ 0)
    (subStep minuendPtr subtrahendPtr differencePtr) (fun s => (s.1, s.2.2))
    (SubInv mem minuendPtr subtrahendPtr nLimbs differencePtr)
    nLimbs.toNat K hK ?_ ?_ (mem, nLimbs, 0) ⟨rfl, Frame.refl _ _, rfl, rfl⟩
  · obtain ⟨⟨mem', i, borrow⟩, hI, hrun⟩ := hrule
    have hleft := hI.left
    dsimp only at hleft
    have hi : i = 0 := toNat_eq_zero.mp (by omega)
    subst hi
    exact ⟨mem', borrow, hrun, hI.difference, hI.borrow, hI.frame⟩
  · intro k s hk hI
    have hleft := hI.left
    rw [gt_ne_zero]
    omega
  · intro k s hk hI
    exact subStep_spec hm hs hd hdm hds hk hI

/-- The difference modulo `2 ^ (256 * nLimbs)` is stored, and the borrow says which
operand is greater. -/
def SubExact (mem : Memory) (minuendPtr subtrahendPtr nLimbs differencePtr : Word) : Prop :=
  let a := numAt mem minuendPtr.toNat nLimbs.toNat
  let b := numAt mem subtrahendPtr.toNat nLimbs.toNat
  ∃ (mem' : Memory) (borrow : Word),
    Yields (fun fuel => bigUIntSubWithBorrow fuel mem minuendPtr subtrahendPtr nLimbs
      differencePtr) (mem', borrow) ∧
    numAt mem' differencePtr.toNat nLimbs.toNat =
      (a + (2 ^ (256 * nLimbs.toNat) - b)) % 2 ^ (256 * nLimbs.toNat) ∧
    borrow = if a < b then 1 else 0

theorem subExact_iff_chainExact
    (hm : minuendPtr.toNat + 32 * nLimbs.toNat < 2 ^ 256)
    (hs : subtrahendPtr.toNat + 32 * nLimbs.toNat < 2 ^ 256)
    (hd : differencePtr.toNat + 32 * nLimbs.toNat < 2 ^ 256)
    (hdm : Disjoint (region minuendPtr.toNat nLimbs.toNat)
      (region differencePtr.toNat nLimbs.toNat))
    (hds : Disjoint (region subtrahendPtr.toNat nLimbs.toNat)
      (region differencePtr.toNat nLimbs.toNat)) :
    SubExact mem minuendPtr subtrahendPtr nLimbs differencePtr ↔
      ChainExact (2 ^ 256) (numAt mem minuendPtr.toNat nLimbs.toNat)
        (numAt mem subtrahendPtr.toNat nLimbs.toNat) nLimbs.toNat := by
  obtain ⟨mem', borrow, hrun, hdifference, hborrow, -⟩ :=
    bigUIntSubWithBorrow_within mem minuendPtr subtrahendPtr nLimbs differencePtr hm hs hd hdm
      hds (Nat.lt_succ_self _)
  have ha := numAt_lt mem minuendPtr.toNat nLimbs.toNat
  have hb := numAt_lt mem subtrahendPtr.toNat nLimbs.toNat
  rw [ChainExact, dueBorrow, ← pow_mul, Nat.mod_eq_of_lt ha, Nat.mod_eq_of_lt hb,
    ← hdifference, ← hborrow]
  have hword : borrow.toNat = (if numAt mem minuendPtr.toNat nLimbs.toNat <
      numAt mem subtrahendPtr.toNat nLimbs.toNat then 1 else 0) ↔
      borrow = if numAt mem minuendPtr.toNat nLimbs.toNat <
        numAt mem subtrahendPtr.toNat nLimbs.toNat then 1 else 0 := by
    split
    · exact toNat_eq_one
    · exact toNat_eq_zero
  rw [hword]
  constructor
  · rintro ⟨mem'', borrow', hrun', hdifference', hborrow'⟩
    have heq := hrun.yields.unique hrun'
    rw [Prod.mk.injEq] at heq
    obtain ⟨rfl, rfl⟩ := heq
    exact ⟨hdifference', hborrow'⟩
  · rintro ⟨hdifference', hborrow'⟩
    exact ⟨mem', borrow, hrun.yields, hdifference', hborrow'⟩

/-- Subtraction is exact if and only if no limb `2^256 - 1` of the subtrahend receives a
borrow from the limbs below it. -/
theorem bigUIntSubWithBorrow_exact_iff
    (hm : minuendPtr.toNat + 32 * nLimbs.toNat < 2 ^ 256)
    (hs : subtrahendPtr.toNat + 32 * nLimbs.toNat < 2 ^ 256)
    (hd : differencePtr.toNat + 32 * nLimbs.toNat < 2 ^ 256)
    (hdm : Disjoint (region minuendPtr.toNat nLimbs.toNat)
      (region differencePtr.toNat nLimbs.toNat))
    (hds : Disjoint (region subtrahendPtr.toNat nLimbs.toNat)
      (region differencePtr.toNat nLimbs.toNat)) :
    SubExact mem minuendPtr subtrahendPtr nLimbs differencePtr ↔
      ∀ i, i < nLimbs.toNat →
        ¬BorrowLost (2 ^ 256) (numAt mem minuendPtr.toNat nLimbs.toNat)
          (numAt mem subtrahendPtr.toNat nLimbs.toNat) i := by
  rw [subExact_iff_chainExact mem _ _ _ _ hm hs hd hdm hds]
  exact chain_exact_iff _ _ (by norm_num) _

end Run

/-- `5 * 2^256` and `(2^256 - 1) * 2^256 + 1`, at `0` and `64`. -/
def lostBorrowMemory : Memory :=
  storeWords Memory.zero 0 [5, 0, BitVec.allOnes 256, 1]

/-- A smaller minuend, and the borrow zero is returned. -/
theorem bigUIntSubWithBorrow_not_exact : ¬SubExact lostBorrowMemory 0 64 2 128 := by
  rw [subExact_iff_chainExact _ _ _ _ _ (by decide) (by decide) (by decide)
    (disjoint_region (by decide)) (disjoint_region (by decide))]
  decide +kernel

/-- Here no limb of the subtrahend is `2^256 - 1`. -/
theorem bigUIntSubWithBorrow_exact_swapped : SubExact lostBorrowMemory 64 0 2 128 :=
  (bigUIntSubWithBorrow_exact_iff _ _ _ _ _ (by decide) (by decide) (by decide)
    (disjoint_region (by decide)) (disjoint_region (by decide))).mpr (by decide +kernel)

end EraPrecompiles.ModExp
