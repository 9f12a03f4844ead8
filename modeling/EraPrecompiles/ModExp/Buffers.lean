import EraPrecompiles.ModExp.Program
import EraPrecompiles.Yul.Limbs

/-!
# The loops over the limbs of a number

Filling with zeros, copying and moving limbs, and counting the limbs that are not zero.
Each of the loops goes from the highest limb on and stores one limb in every round, so
that after `k` rounds `k` limbs of the region have changed.

The lemmas ask that the end of a region is an address, and say how much fuel is needed.
-/

namespace EraPrecompiles.ModExp

theorem toNat_limbSize : LIMB_SIZE_IN_BYTES.toNat = 32 :=
  rfl

theorem toNat_add_limbSize {q : Word} (h : q.toNat + 32 < 2 ^ 256) :
    (add q LIMB_SIZE_IN_BYTES).toNat = q.toNat + 32 :=
  toNat_add_of_lt h

theorem word_zero : (0 : Word).toNat = 0 :=
  rfl

theorem word_one : (1 : Word).toNat = 1 :=
  rfl

/-- One more limb is stored. -/
theorem frame_mstore_succ {mem mem' : Memory} {a k : ℕ} {p : Word}
    (h : Frame (region a k) mem mem') (hp : p.toNat = a + 32 * k) (v : Word) :
    Frame (region a (k + 1)) mem (mstore mem' p v) := by
  refine (h.mono (region_subset le_rfl (by omega))).trans ?_
  exact (frame_mstore mem' hp v).mono (region_subset (by omega) (by omega))

/-! ## Zeros -/

theorem zeroWithLimbSizeAt_within (mem : Memory) (nLimbs toAddress : Word)
    (hto : toAddress.toNat + 32 * nLimbs.toNat < 2 ^ 256) {K : ℕ} (hK : nLimbs.toNat < K) :
    ∃ mem', Within K (fun fuel => zeroWithLimbSizeAt fuel mem nLimbs toAddress) mem' ∧
      numAt mem' toAddress.toNat nLimbs.toNat = 0 ∧
      Frame (region toAddress.toNat nLimbs.toNat) mem mem' := by
  have hend := toNat_limbPtr hto
  have hrule := while_within
    (fun s : Memory × Word => lt s.2 (add toAddress (shl 5 nLimbs)) ≠ 0)
    (fun s => (mstore s.1 s.2 0, add s.2 LIMB_SIZE_IN_BYTES)) Prod.fst
    (fun k s => s.2.toNat = toAddress.toNat + 32 * k ∧ numAt s.1 toAddress.toNat k = 0 ∧
      Frame (region toAddress.toNat k) mem s.1)
    nLimbs.toNat K hK ?_ ?_ (mem, toAddress) ⟨rfl, rfl, Frame.refl _ _⟩
  · obtain ⟨⟨mem', ptr⟩, ⟨-, hnum, hframe⟩, hrun⟩ := hrule
    exact ⟨mem', hrun, hnum, hframe⟩
  · rintro k s hk ⟨hptr, -, -⟩
    rw [lt_ne_zero, hend]
    omega
  · rintro k ⟨mem', ptr⟩ hk ⟨hptr, hnum, hframe⟩
    dsimp only at hptr hnum hframe
    refine ⟨?_, ?_, frame_mstore_succ hframe hptr 0⟩
    · dsimp only
      rw [toNat_add_limbSize (by omega), hptr]
      omega
    · rw [numAt_mstore_succ mem' hptr, hnum]
      rfl

/-- The pointer may leave the addresses behind the last word. -/
theorem fillZeros_within (mem : Memory) (limbsToShiftOut : Word) (a : ℕ)
    (ha : a + 32 * limbsToShiftOut.toNat < 2 ^ 256 + 32) {K : ℕ}
    (hK : limbsToShiftOut.toNat < K) :
    ∃ mem', Within K (fun fuel => fillZeros fuel mem limbsToShiftOut (BitVec.ofNat 256 a))
        mem' ∧
      numAt mem' a limbsToShiftOut.toNat = 0 ∧
      Frame (region a limbsToShiftOut.toNat) mem mem' := by
  have hrule := while_within
    (fun s : Memory × Word × Word => lt s.2.1 limbsToShiftOut ≠ 0)
    (fun s => (mstore s.1 s.2.2 0, add s.2.1 1, add s.2.2 LIMB_SIZE_IN_BYTES)) Prod.fst
    (fun k s => s.2.1.toNat = k ∧ s.2.2 = BitVec.ofNat 256 (a + 32 * k) ∧
      numAt s.1 a k = 0 ∧ Frame (region a k) mem s.1)
    limbsToShiftOut.toNat K hK ?_ ?_ (mem, 0, BitVec.ofNat 256 a)
    ⟨rfl, rfl, rfl, Frame.refl _ _⟩
  · obtain ⟨⟨mem', i, ptr⟩, ⟨-, -, hnum, hframe⟩, hrun⟩ := hrule
    exact ⟨mem', hrun, hnum, hframe⟩
  · rintro k s hk ⟨hi, -⟩
    rw [lt_ne_zero, hi]
  · rintro k ⟨mem', i, ptr⟩ hk ⟨hi, hptr, hnum, hframe⟩
    dsimp only at hi hptr hnum hframe
    have hlimbs := word_lt limbsToShiftOut
    have hptrNat : ptr.toNat = a + 32 * k := by
      rw [hptr]
      exact toNat_ofNat_of_lt (by omega)
    refine ⟨?_, ?_, ?_, frame_mstore_succ hframe hptrNat 0⟩
    · dsimp only
      rw [toNat_add_one (by omega), hi]
    · dsimp only
      rw [hptr, add, LIMB_SIZE_IN_BYTES, Nat.mul_succ, ← Nat.add_assoc,
        BitVec.ofNat_add (a + 32 * k) 32]
      rfl
    · rw [numAt_mstore_succ mem' hptrNat, hnum]
      rfl

/-! ## Copies -/

theorem copyBigUint_within (mem : Memory) (nLimbs fromAddress toAddress : Word)
    (hfrom : fromAddress.toNat + 32 * nLimbs.toNat < 2 ^ 256)
    (hto : toAddress.toNat + 32 * nLimbs.toNat < 2 ^ 256)
    (hd : Disjoint (region fromAddress.toNat nLimbs.toNat)
      (region toAddress.toNat nLimbs.toNat)) {K : ℕ} (hK : nLimbs.toNat < K) :
    ∃ mem', Within K (fun fuel => copyBigUint fuel mem nLimbs fromAddress toAddress) mem' ∧
      numAt mem' toAddress.toNat nLimbs.toNat = numAt mem fromAddress.toNat nLimbs.toNat ∧
      Frame (region toAddress.toNat nLimbs.toNat) mem mem' := by
  have htotal : (shl 5 nLimbs).toNat = 32 * nLimbs.toNat := toNat_shl_five (by omega)
  have hrule := while_within
    (fun s : Memory × Word => lt s.2 (shl 5 nLimbs) ≠ 0)
    (fun s => (mstore s.1 (add s.2 toAddress) (mload s.1 (add s.2 fromAddress)),
      add s.2 LIMB_SIZE_IN_BYTES)) Prod.fst
    (fun k s => s.2.toNat = 32 * k ∧
      numAt s.1 toAddress.toNat k = numAt mem fromAddress.toNat k ∧
      Frame (region toAddress.toNat k) mem s.1)
    nLimbs.toNat K hK ?_ ?_ (mem, 0) ⟨rfl, rfl, Frame.refl _ _⟩
  · obtain ⟨⟨mem', i⟩, ⟨-, hnum, hframe⟩, hrun⟩ := hrule
    exact ⟨mem', hrun, hnum, hframe⟩
  · rintro k s hk ⟨hi, -⟩
    rw [lt_ne_zero, htotal, hi]
    omega
  · rintro k ⟨mem', i⟩ hk ⟨hi, hnum, hframe⟩
    dsimp only at hi hnum hframe
    have hfromPtr : (add i fromAddress).toNat = fromAddress.toNat + 32 * k := by
      rw [toNat_add_of_lt (by omega), hi, Nat.add_comm]
    have htoPtr : (add i toAddress).toNat = toAddress.toNat + 32 * k := by
      rw [toNat_add_of_lt (by omega), hi, Nat.add_comm]
    have hread : mload mem' (add i fromAddress) =
        wordAt mem (fromAddress.toNat + 32 * k) := by
      rw [mload_eq_wordAt mem' hfromPtr, hframe.wordAt_eq]
      exact hd.mono (region_subset (by omega) (by omega)) (region_subset (by omega) (by omega))
    refine ⟨?_, ?_, frame_mstore_succ hframe htoPtr _⟩
    · dsimp only
      rw [toNat_add_limbSize (by omega), hi]
      omega
    · rw [numAt_mstore_succ mem' htoPtr, hnum, hread, numAt_succ]

/-! ## Moves -/

/-- The loops of the shift, with what holds of the memory after `k` rounds. -/
theorem moveLimbs_within (shifted : Word → Word → Word) (nLimbs : Word) (s : MoveState)
    (r : ℕ) (hr : s.i.toNat + r = nLimbs.toNat)
    (hc : s.currentLimbPtr.toNat + 32 * r < 2 ^ 256)
    (hs : s.currentShiftedLimbPtr.toNat + 32 * r < 2 ^ 256)
    {K : ℕ} (hK : r < K) (P : ℕ → Memory → Prop) (h0 : P 0 s.mem)
    (hstep : ∀ k mem' p, k < r → p.toNat = s.currentShiftedLimbPtr.toNat + 32 * k →
      Frame (region s.currentShiftedLimbPtr.toNat k) s.mem mem' → P k mem' →
      P (k + 1) (mstore mem' p
        (shifted (wordAt mem' (s.currentLimbPtr.toNat + 32 * (k + 1)))
          (wordAt mem' (s.currentLimbPtr.toNat + 32 * k))))) :
    ∃ s', Within K (fun fuel => moveLimbs shifted nLimbs fuel s) s' ∧
      s'.currentShiftedLimbPtr.toNat = s.currentShiftedLimbPtr.toNat + 32 * r ∧
      P r s'.mem ∧ Frame (region s.currentShiftedLimbPtr.toNat r) s.mem s'.mem := by
  have hrule := while_within
    (fun s : MoveState => lt s.i nLimbs ≠ 0)
    (fun s =>
      { mem := mstore s.mem s.currentShiftedLimbPtr
          (shifted (mload s.mem (add s.currentLimbPtr LIMB_SIZE_IN_BYTES))
            (mload s.mem s.currentLimbPtr))
        i := add s.i 1
        currentLimbPtr := add s.currentLimbPtr LIMB_SIZE_IN_BYTES
        currentShiftedLimbPtr := add s.currentShiftedLimbPtr LIMB_SIZE_IN_BYTES }) id
    (fun k (s' : MoveState) => s'.i.toNat = s.i.toNat + k ∧
      s'.currentLimbPtr.toNat = s.currentLimbPtr.toNat + 32 * k ∧
      s'.currentShiftedLimbPtr.toNat = s.currentShiftedLimbPtr.toNat + 32 * k ∧
      P k s'.mem ∧ Frame (region s.currentShiftedLimbPtr.toNat k) s.mem s'.mem)
    r K hK ?_ ?_ s ⟨rfl, rfl, rfl, h0, Frame.refl _ _⟩
  · obtain ⟨s', ⟨-, -, hshifted, hP, hframe⟩, hrun⟩ := hrule
    exact ⟨s', hrun, hshifted, hP, hframe⟩
  · rintro k s' hk ⟨hi, -⟩
    rw [lt_ne_zero, hi]
    omega
  · rintro k s' hk ⟨hi, hcur, hshifted, hP, hframe⟩
    have hlimbs := word_lt nLimbs
    have hnext : (add s'.currentLimbPtr LIMB_SIZE_IN_BYTES).toNat =
        s.currentLimbPtr.toNat + 32 * (k + 1) := by
      rw [toNat_add_limbSize (by omega), hcur]
      omega
    have hindex : (add s'.i 1).toNat = s.i.toNat + (k + 1) := by
      rw [toNat_add_one (by omega), hi]
      omega
    have hstored : (add s'.currentShiftedLimbPtr LIMB_SIZE_IN_BYTES).toNat =
        s.currentShiftedLimbPtr.toNat + 32 * (k + 1) := by
      rw [toNat_add_limbSize (by omega), hshifted]
      omega
    refine ⟨hindex, hnext, hstored, ?_, frame_mstore_succ hframe hshifted _⟩
    have hround := hstep k s'.mem s'.currentShiftedLimbPtr hk hshifted hframe hP
    rw [← mload_eq_wordAt s'.mem hnext, ← mload_eq_wordAt s'.mem hcur] at hround
    exact hround

/-- Limbs moved as they are. -/
theorem moveLimbs_copy_within (nLimbs : Word) (s : MoveState)
    (r : ℕ) (hr : s.i.toNat + r = nLimbs.toNat)
    (hc : s.currentLimbPtr.toNat + 32 * r < 2 ^ 256)
    (hs : s.currentShiftedLimbPtr.toNat + 32 * r < 2 ^ 256)
    (hd : Disjoint (region s.currentLimbPtr.toNat r)
      (region s.currentShiftedLimbPtr.toNat r)) {K : ℕ} (hK : r < K) :
    ∃ s', Within K (fun fuel => moveLimbs (fun _ limb => limb) nLimbs fuel s) s' ∧
      s'.currentShiftedLimbPtr.toNat = s.currentShiftedLimbPtr.toNat + 32 * r ∧
      numAt s'.mem s.currentShiftedLimbPtr.toNat r = numAt s.mem s.currentLimbPtr.toNat r ∧
      Frame (region s.currentShiftedLimbPtr.toNat r) s.mem s'.mem := by
  refine moveLimbs_within _ nLimbs s r hr hc hs hK
    (fun k mem' => numAt mem' s.currentShiftedLimbPtr.toNat k =
      numAt s.mem s.currentLimbPtr.toNat k) rfl ?_
  intro k mem' p hk hp hframe hnum
  rw [numAt_mstore_succ mem' hp, hnum, numAt_succ, hframe.wordAt_eq]
  exact hd.mono (region_subset (by omega) (by omega)) (region_subset (by omega) (by omega))

end EraPrecompiles.ModExp
