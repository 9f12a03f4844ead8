import EraPrecompiles.ModExp.Multiplication

/-!
# Addition of numbers of any length

`bigUIntAdd` lowers the pointers to the current limbs by the offset of the limb from the
end, and the next round lowers the lowered pointers: after `k` rounds the pointers have
moved by `1 + 2 + ... + k` limbs and not by `k`.  The pointer to the limb of the result is
computed from the end in every round.

The function has the read access to memory as an argument.  With `checkedLoad` the program
stops at a word outside of the operands.  `bigUIntAdd_exact_iff` says that the function is
addition, and reads the operands only, for numbers of at most one limb.
-/

namespace EraPrecompiles.ModExp

/-! ## The program -/

/-- The variables of the loop. -/
structure AddState where
  mem : Memory
  i : Word
  augendCurrentLimbPtr : Word
  addendCurrentLimbPtr : Word
  carry : Word

/-- One round of the loop, with the read access to memory as an argument. -/
def addRound (load : Memory → Word → Option Word) (nLimbs sumPtr totalLength : Word)
    (s : AddState) : Option (Flow AddState (Memory × Word)) :=
  if or (eq s.i nLimbs) (lt s.i nLimbs) ≠ 0 then do
    let currentLimbOffset := shl 5 s.i
    let augendCurrentLimbPtr := sub s.augendCurrentLimbPtr currentLimbOffset
    let addendCurrentLimbPtr := sub s.addendCurrentLimbPtr currentLimbOffset
    let addendLimb ← load s.mem addendCurrentLimbPtr
    let augendLimb ← load s.mem augendCurrentLimbPtr
    let (sum, overflow) := overflowingAdd augendLimb addendLimb
    let (sumWithPreviousCarry, carrySumOverflow) := overflowingAdd sum s.carry
    let sum := sumWithPreviousCarry
    let carry := or overflow carrySumOverflow
    let limbResultPtr := sub (add sumPtr totalLength) currentLimbOffset
    return .next ⟨mstore s.mem limbResultPtr sum, add s.i 1, augendCurrentLimbPtr,
      addendCurrentLimbPtr, carry⟩
  else
    some (.done (s.mem, s.carry))

/-- `bigUIntAdd`, with the read access to memory as an argument. -/
def bigUIntAddWith (load : Memory → Word → Option Word) (fuel : ℕ) (mem : Memory)
    (augendPtr addendPtr nLimbs sumPtr : Word) : Option (Memory × Word) :=
  let totalLength := shl 5 nLimbs
  iterate (addRound load nLimbs sumPtr totalLength) fuel
    ⟨mem, 1, add augendPtr totalLength, add addendPtr totalLength, 0⟩

def bigUIntAdd (fuel : ℕ) (mem : Memory) (augendPtr addendPtr nLimbs sumPtr : Word) :
    Option (Memory × Word) :=
  bigUIntAddWith (fun mem p => some (mload mem p)) fuel mem augendPtr addendPtr nLimbs sumPtr

open Classical in
/-- A read access that refuses the words outside of `S`. -/
noncomputable def checkedLoad (S : Set ℕ) (mem : Memory) (p : Word) : Option Word :=
  if region p.toNat 1 ⊆ S then some (mload mem p) else none

/-! ## One limb -/

/-- What a round stores, and its carry. -/
def addStep (augendLimb addendLimb carry : Word) : Word × Word :=
  let sum := overflowingAdd augendLimb addendLimb
  let sumWithPreviousCarry := overflowingAdd sum.1 carry
  (sumWithPreviousCarry.1, or sum.2 sumWithPreviousCarry.2)

/-- A round as an equation between numbers: only one of the two additions can wrap. -/
theorem addStep_eq (augendLimb addendLimb : Word) {carry : Word} (hc : carry.toNat ≤ 1) :
    (addStep augendLimb addendLimb carry).1.toNat +
        2 ^ 256 * (addStep augendLimb addendLimb carry).2.toNat =
      augendLimb.toNat + addendLimb.toNat + carry.toNat := by
  have ha := word_lt augendLimb
  have hb := word_lt addendLimb
  have hfirst := overflowingAdd_eq augendLimb addendLimb
  have hsecond := overflowingAdd_eq (overflowingAdd augendLimb addendLimb).1 carry
  have hcarry : (addStep augendLimb addendLimb carry).2.toNat =
      (overflowingAdd augendLimb addendLimb).2.toNat +
        (overflowingAdd (overflowingAdd augendLimb addendLimb).1 carry).2.toNat := by
    show (or _ _).toNat = _
    rw [overflowingAdd_snd, toNat_boolWord] at hfirst hsecond ⊢
    rw [overflowingAdd_snd, or_boolWord, toNat_boolWord, toNat_boolWord]
    split_ifs at hfirst hsecond ⊢ <;> omega
  have hword : (addStep augendLimb addendLimb carry).1 =
      (overflowingAdd (overflowingAdd augendLimb addendLimb).1 carry).1 := rfl
  rw [hcarry, hword]
  omega

/-! ## One round -/

section Round

variable {load : Memory → Word → Option Word} {nLimbs sumPtr totalLength : Word} {s : AddState}

theorem addTest {i : Word} : or (eq i nLimbs) (lt i nLimbs) ≠ 0 ↔ i.toNat ≤ nLimbs.toNat := by
  rw [eq, lt, or_boolWord, boolWord_ne_zero, ← BitVec.toNat_inj, Nat.le_iff_lt_or_eq, or_comm]

theorem addRound_done (h : nLimbs.toNat < s.i.toNat) :
    addRound load nLimbs sumPtr totalLength s = some (.done (s.mem, s.carry)) :=
  if_neg (addTest.not.mpr (Nat.not_le.mpr h))

theorem addRound_eq (h : s.i.toNat ≤ nLimbs.toNat) :
    addRound load nLimbs sumPtr totalLength s =
      (load s.mem (sub s.addendCurrentLimbPtr (shl 5 s.i)) >>= fun y =>
        load s.mem (sub s.augendCurrentLimbPtr (shl 5 s.i)) >>= fun x =>
          some (.next
            { mem := mstore s.mem (sub (add sumPtr totalLength) (shl 5 s.i))
                (addStep x y s.carry).1
              i := add s.i 1
              augendCurrentLimbPtr := sub s.augendCurrentLimbPtr (shl 5 s.i)
              addendCurrentLimbPtr := sub s.addendCurrentLimbPtr (shl 5 s.i)
              carry := (addStep x y s.carry).2 })) :=
  if_pos (addTest.mpr h)

end Round

/-! ## Numbers of one limb -/

section Run

variable {mem : Memory} {augendPtr addendPtr nLimbs sumPtr : Word}

theorem bigUIntAddWith_zero (load : Memory → Word → Option Word) :
    Within 1 (fun fuel => bigUIntAddWith load fuel mem augendPtr addendPtr 0 sumPtr)
      (mem, 0) := by
  intro m hm
  obtain ⟨k, rfl⟩ : ∃ k, m = k + 1 := ⟨m - 1, by omega⟩
  have hlt : (0 : Word).toNat < (1 : Word).toNat := by decide
  exact iterate_succ_done (addRound_done hlt) k

theorem bigUIntAddWith_one {load : Memory → Word → Option Word} {x y : Word}
    (hx : load mem augendPtr = some x) (hy : load mem addendPtr = some y) :
    Within 2 (fun fuel => bigUIntAddWith load fuel mem augendPtr addendPtr 1 sumPtr)
      (mstore mem sumPtr (addStep x y 0).1, (addStep x y 0).2) := by
  intro m hm
  obtain ⟨k, rfl⟩ : ∃ k, m = k + 1 + 1 := ⟨m - 2, by omega⟩
  have hptr : ∀ q : Word, sub (add q (shl 5 1)) (shl 5 1) = q :=
    fun q => BitVec.add_sub_cancel q _
  have hround : addRound load 1 sumPtr (shl 5 1)
      ⟨mem, 1, add augendPtr (shl 5 1), add addendPtr (shl 5 1), 0⟩ =
        some (.next ⟨mstore mem sumPtr (addStep x y 0).1, add 1 1, augendPtr, addendPtr,
          (addStep x y 0).2⟩) := by
    refine (addRound_eq le_rfl).trans ?_
    rw [hptr, hptr, hptr, hx, hy]
    rfl
  have hlt : (1 : Word).toNat < (add (1 : Word) 1).toNat := by decide
  refine (iterate_succ_next hround (k + 1)).trans ?_
  exact iterate_succ_done (addRound_done hlt) k

/-! ## Numbers of more limbs -/

/-- What holds before round `k + 1`: the pointers have moved by `t` limbs, and `t` is the
sum of the first `k` numbers. -/
structure LoweredPtrs (augendPtr addendPtr nLimbs : Word) (k t : ℕ) (s : AddState) :
    Prop where
  index : s.i.toNat = k + 1
  moved : 2 * t = k * (k + 1)
  inside : t ≤ nLimbs.toNat
  augend : s.augendCurrentLimbPtr.toNat + 32 * t = augendPtr.toNat + 32 * nLimbs.toNat
  addend : s.addendCurrentLimbPtr.toNat + 32 * t = addendPtr.toNat + 32 * nLimbs.toNat

/-- The pointers leave the operands before the limbs are counted. -/
theorem LoweredPtrs.lt {k t : ℕ} {s : AddState}
    (h : LoweredPtrs augendPtr addendPtr nLimbs k t s) (hn : 2 ≤ nLimbs.toNat) :
    k < nLimbs.toNat := by
  have hmoved := h.moved
  have hinside := h.inside
  by_contra hk
  have hmul : k * 3 ≤ k * (k + 1) := Nat.mul_le_mul_left k (by omega)
  omega

/-- Below both operands there are no two words of the operands: the sum lies between them
when the addresses wrap. -/
theorem not_mem_operands {a b c n d : ℕ} (ha : a + 32 * n < 2 ^ 256)
    (hb : b + 32 * n < 2 ^ 256) (hc : c + 32 * n < 2 ^ 256)
    (hac : Disjoint (region a n) (region c n)) (hbc : Disjoint (region b n) (region c n))
    (hd : 1 ≤ d) (hdn : d ≤ n)
    (hp : (a + (2 ^ 256 - 32 * d)) % 2 ^ 256 ∈ region a n ∪ region b n)
    (hq : (b + (2 ^ 256 - 32 * d)) % 2 ^ 256 ∈ region a n ∪ region b n) : False := by
  rw [disjoint_region_iff (by omega) (by omega)] at hac hbc
  rw [Set.mem_union, mem_region, mem_region] at hp hq
  have hwrap : ∀ x, x < 2 ^ 256 →
      x < 32 * d ∧ (x + (2 ^ 256 - 32 * d)) % 2 ^ 256 = x + (2 ^ 256 - 32 * d) ∨
        32 * d ≤ x ∧ (x + (2 ^ 256 - 32 * d)) % 2 ^ 256 = x - 32 * d := by
    intro x hx
    omega
  rcases hwrap a (by omega) with ⟨hlt, heq⟩ | ⟨hle, heq⟩
  · rw [heq] at hp
    rcases hwrap b (by omega) with ⟨hlt', heq'⟩ | ⟨hle', heq'⟩
    · rw [heq'] at hq
      omega
    · rw [heq'] at hq
      omega
  · rw [heq] at hp
    rcases hwrap b (by omega) with ⟨hlt', heq'⟩ | ⟨hle', heq'⟩
    · rw [heq'] at hq
      omega
    · rw [heq'] at hq
      omega

theorem checkedLoad_cases (S : Set ℕ) (mem : Memory) (q : Word) :
    checkedLoad S mem q = none ∨ q.toNat ∈ S ∧ checkedLoad S mem q = some (mload mem q) := by
  rw [checkedLoad]
  split
  · next hS => exact Or.inr ⟨hS ⟨le_rfl, by omega⟩, rfl⟩
  · exact Or.inl rfl

/-- For two limbs and more the loop reads a word outside of the operands. -/
theorem bigUIntAddWith_checkedLoad_diverges (hn : 2 ≤ nLimbs.toNat)
    (ha : augendPtr.toNat + 32 * nLimbs.toNat < 2 ^ 256)
    (hb : addendPtr.toNat + 32 * nLimbs.toNat < 2 ^ 256)
    (hs : sumPtr.toNat + 32 * nLimbs.toNat < 2 ^ 256)
    (has : Disjoint (region augendPtr.toNat nLimbs.toNat)
      (region sumPtr.toNat nLimbs.toNat))
    (hbs : Disjoint (region addendPtr.toNat nLimbs.toNat)
      (region sumPtr.toNat nLimbs.toNat)) :
    Diverges (fun fuel => bigUIntAddWith
      (checkedLoad (region augendPtr.toNat nLimbs.toNat ∪ region addendPtr.toNat nLimbs.toNat))
      fuel mem augendPtr addendPtr nLimbs sumPtr) := by
  refine iterate_diverges (fun _ => addRound _ nLimbs sumPtr (shl 5 nLimbs))
    (fun s => ∃ k t, LoweredPtrs augendPtr addendPtr nLimbs k t s) ?_ ?_
  · rintro - s ⟨k, t, hI⟩
    have hk := hI.lt hn
    have hmoved := hI.moved
    have hinside := hI.inside
    have haugend := hI.augend
    have haddend := hI.addend
    have hoffset : (shl 5 s.i).toNat = 32 * (k + 1) := by
      rw [toNat_shl_five (by rw [hI.index]; omega), hI.index]
    rw [addRound_eq (by rw [hI.index]; omega)]
    rcases checkedLoad_cases (region augendPtr.toNat nLimbs.toNat ∪
      region addendPtr.toNat nLimbs.toNat) s.mem (sub s.addendCurrentLimbPtr (shl 5 s.i))
      with hnone | ⟨hq, hload⟩
    · left
      rw [hnone]
      rfl
    rcases checkedLoad_cases (region augendPtr.toNat nLimbs.toNat ∪
      region addendPtr.toNat nLimbs.toNat) s.mem (sub s.augendCurrentLimbPtr (shl 5 s.i))
      with hnone | ⟨hp, hload'⟩
    · left
      rw [hload, hnone]
      rfl
    right
    rw [hload, hload']
    refine ⟨_, rfl, k + 1, t + (k + 1), ?_⟩
    -- otherwise this round has read below both operands
    have hle : t + (k + 1) ≤ nLimbs.toNat := by
      by_contra hlt
      rw [toNat_sub, hoffset] at hp hq
      refine @not_mem_operands _ _ _ _ (t + (k + 1) - nLimbs.toNat) ha hb hs has hbs
        (by omega) (by omega) ?_ ?_
      · convert hp using 1
        omega
      · convert hq using 1
        omega
    refine ⟨?_, ?_, hle, ?_, ?_⟩
    · show (add s.i 1).toNat = _
      rw [toNat_add_of_lt (by rw [word_one, hI.index]; omega), word_one, hI.index]
    · rw [Nat.mul_add, hmoved]
      ring
    · show (sub _ _).toNat + _ = _
      rw [toNat_sub_of_le (by omega), hoffset]
      omega
    · show (sub _ _).toNat + _ = _
      rw [toNat_sub_of_le (by omega), hoffset]
      omega
  · exact ⟨0, 0, rfl, rfl, Nat.zero_le _, toNat_limbPtr ha, toNat_limbPtr hb⟩

variable (mem augendPtr addendPtr nLimbs sumPtr)

/-- The sum modulo `2 ^ (256 * nLimbs)` is stored, the carry is returned, and a run that may
read the operands only is the same. -/
def AddExact : Prop :=
  let a := numAt mem augendPtr.toNat nLimbs.toNat
  let b := numAt mem addendPtr.toNat nLimbs.toNat
  ∃ (mem' : Memory) (overflowed : Word),
    Yields (fun fuel => bigUIntAdd fuel mem augendPtr addendPtr nLimbs sumPtr)
      (mem', overflowed) ∧
    numAt mem' sumPtr.toNat nLimbs.toNat = (a + b) % 2 ^ (256 * nLimbs.toNat) ∧
    overflowed = (if 2 ^ (256 * nLimbs.toNat) ≤ a + b then 1 else 0) ∧
    Yields (fun fuel => bigUIntAddWith
      (checkedLoad (region augendPtr.toNat nLimbs.toNat ∪ region addendPtr.toNat nLimbs.toNat))
      fuel mem augendPtr addendPtr nLimbs sumPtr) (mem', overflowed)

theorem addExact_zero : AddExact mem augendPtr addendPtr 0 sumPtr :=
  ⟨mem, 0, (bigUIntAddWith_zero _).yields, rfl, rfl, (bigUIntAddWith_zero _).yields⟩

theorem addExact_one : AddExact mem augendPtr addendPtr 1 sumPtr := by
  have hload : ∀ {S : Set ℕ} {q : Word}, region q.toNat 1 ⊆ S →
      checkedLoad S mem q = some (mload mem q) := fun hq => if_pos hq
  have hstep := @addStep_eq (mload mem augendPtr) (mload mem addendPtr) 0 (Nat.zero_le 1)
  have ha := word_lt (mload mem augendPtr)
  have hb := word_lt (mload mem addendPtr)
  have hsum := word_lt (addStep (mload mem augendPtr) (mload mem addendPtr) 0).1
  rw [word_zero, Nat.add_zero] at hstep
  rw [AddExact, word_one, Nat.mul_one, ← toNat_wordAt_eq_numAt, ← toNat_wordAt_eq_numAt,
    ← mload_eq_wordAt mem rfl, ← mload_eq_wordAt mem rfl]
  refine ⟨_, _, (bigUIntAddWith_one rfl rfl).yields, ?_, ?_,
    (bigUIntAddWith_one (hload Set.subset_union_left) (hload Set.subset_union_right)).yields⟩
  · rw [← toNat_wordAt_eq_numAt, wordAt_mstore_self mem rfl]
    omega
  · refine word_ext ?_
    split
    · rw [word_one]
      omega
    · rw [word_zero]
      omega

/-- Addition is exact if and only if the numbers have at most one limb. -/
theorem bigUIntAdd_exact_iff
    (ha : augendPtr.toNat + 32 * nLimbs.toNat < 2 ^ 256)
    (hb : addendPtr.toNat + 32 * nLimbs.toNat < 2 ^ 256)
    (hs : sumPtr.toNat + 32 * nLimbs.toNat < 2 ^ 256)
    (has : Disjoint (region augendPtr.toNat nLimbs.toNat)
      (region sumPtr.toNat nLimbs.toNat))
    (hbs : Disjoint (region addendPtr.toNat nLimbs.toNat)
      (region sumPtr.toNat nLimbs.toNat)) :
    AddExact mem augendPtr addendPtr nLimbs sumPtr ↔ nLimbs.toNat ≤ 1 := by
  constructor
  · rintro ⟨mem', overflowed, -, -, -, hchecked⟩
    by_contra hn
    exact hchecked.not_diverges
      (bigUIntAddWith_checkedLoad_diverges (Nat.lt_of_not_le hn) ha hb hs has hbs)
  · intro hn
    rcases Nat.le_one_iff_eq_zero_or_eq_one.mp hn with h0 | h1
    · rw [toNat_eq_zero.mp h0]
      exact addExact_zero mem augendPtr addendPtr sumPtr
    · rw [toNat_eq_one.mp h1]
      exact addExact_one mem augendPtr addendPtr sumPtr

end Run

/-- `2^256 + 2` and `3 * 2^256 + 4`, at `32` and `128`. -/
def loweredTwiceMemory : Memory :=
  storeWords Memory.zero 32 [1, 2, 0, 3, 4]

/-- What the two rounds leave: the second one adds the words at `0` and `96`. -/
def loweredTwiceResult : Memory :=
  mstore (mstore loweredTwiceMemory 224 6) 192 0

theorem bigUIntAdd_loweredTwice :
    Yields (fun fuel => bigUIntAdd fuel loweredTwiceMemory 32 128 2 192)
      (loweredTwiceResult, 0) := by
  have hfirst : addRound (fun mem q => some (mload mem q)) 2 192 64
      ⟨loweredTwiceMemory, 1, 96, 192, 0⟩ =
        some (.next ⟨mstore loweredTwiceMemory 224 6, 2, 64, 160, 0⟩) := by
    have hx : mload loweredTwiceMemory 64 = 2 := by decide +kernel
    have hy : mload loweredTwiceMemory 160 = 4 := by decide +kernel
    have hstep : addStep 2 4 0 = (6, 0) := by decide
    refine (addRound_eq (by decide : (1 : Word).toNat ≤ _)).trans ?_
    show some (Flow.next (AddState.mk (mstore _ 224
      (addStep (mload _ 64) (mload _ 160) 0).1) 2 64 160
      (addStep (mload _ 64) (mload _ 160) 0).2)) = _
    rw [hx, hy, hstep]
  have hsecond : addRound (fun mem q => some (mload mem q)) 2 192 64
      ⟨mstore loweredTwiceMemory 224 6, 2, 64, 160, 0⟩ =
        some (.next ⟨loweredTwiceResult, 3, 0, 96, 0⟩) := by
    have hx : mload (mstore loweredTwiceMemory 224 6) 0 = 0 := by decide +kernel
    have hy : mload (mstore loweredTwiceMemory 224 6) 96 = 0 := by decide +kernel
    have hstep : addStep 0 0 0 = (0, 0) := by decide
    refine (addRound_eq (by decide : (2 : Word).toNat ≤ _)).trans ?_
    show some (Flow.next (AddState.mk (mstore _ 192
      (addStep (mload _ 0) (mload _ 96) 0).1) 3 0 96
      (addStep (mload _ 0) (mload _ 96) 0).2)) = _
    rw [hx, hy, hstep]
    rfl
  have hlt : (2 : Word).toNat < (3 : Word).toNat := by decide
  refine ⟨3, fun m hm => ?_⟩
  obtain ⟨k, rfl⟩ : ∃ k, m = k + 1 + 1 + 1 := ⟨m - 3, by omega⟩
  refine (iterate_succ_next hfirst _).trans ((iterate_succ_next hsecond _).trans ?_)
  exact iterate_succ_done (addRound_done hlt) k

/-- The stored number is `6`: the upper limbs of the operands are not read. -/
theorem bigUIntAdd_not_exact :
    Yields (fun fuel => bigUIntAdd fuel loweredTwiceMemory 32 128 2 192)
        (loweredTwiceResult, 0) ∧
      numAt loweredTwiceResult 192 2 = 6 ∧
      numAt loweredTwiceMemory 32 2 + numAt loweredTwiceMemory 128 2 = 4 * 2 ^ 256 + 6 ∧
      ¬AddExact loweredTwiceMemory 32 128 2 192 := by
  have hresult : numAt loweredTwiceResult 192 2 = 6 := by decide +kernel
  have hsum : numAt loweredTwiceMemory 32 2 + numAt loweredTwiceMemory 128 2 =
      4 * 2 ^ 256 + 6 := by decide +kernel
  refine ⟨bigUIntAdd_loweredTwice, hresult, hsum, ?_⟩
  rintro ⟨mem', overflowed, hrun, hnum, -, -⟩
  have heq := bigUIntAdd_loweredTwice.unique hrun
  rw [Prod.mk.injEq] at heq
  obtain ⟨rfl, rfl⟩ := heq
  have h2 : (2 : Word).toNat = 2 := rfl
  have h32 : (32 : Word).toNat = 32 := rfl
  have h128 : (128 : Word).toNat = 128 := rfl
  have h192 : (192 : Word).toNat = 192 := rfl
  have hpow : (2 : ℕ) ^ (256 * 2) = 2 ^ 256 * 2 ^ 256 := by
    rw [pow_mul, sq]
  rw [h2, h32, h128, h192, hresult, hsum, hpow] at hnum
  norm_num at hnum

theorem bigUIntAdd_exact_small : AddExact loweredTwiceMemory 32 128 1 192 :=
  (bigUIntAdd_exact_iff _ _ _ _ _ (by decide) (by decide) (by decide)
    (disjoint_region (by decide)) (disjoint_region (by decide))).mpr le_rfl

end EraPrecompiles.ModExp
