import EraPrecompiles.ModExp.Buffers
import EraPrecompiles.ModExp.OneLimb

/-!
# From calldata to the buffers

The three operands are packed one behind the other into limbs, the first limb of each
with the bytes that do not fill a limb.  They are then copied to the lower end of
buffers of the same size, twice the limbs of the longest operand.

`decodeOperands` is the part of the general path before the exponentiation.
`decodeOperands_yields` says what it hands over (`Decoded`), for all lengths.
-/

namespace EraPrecompiles.ModExp

/-- Memory, limb count and buffers, as the exponentiation is called with them. -/
structure Operands where
  mem : Memory
  nLimbs : Word
  basePtr : Word
  exponentPtr : Word
  modulusPtr : Word
  resultPtr : Word
  scratchBuf1Ptr : Word
  scratchBuf2Ptr : Word
  scratchBuf3Ptr : Word

/-- The general path up to the call of `bigUIntModularExponentiation`. -/
def decodeOperands (fuel : ℕ) (cd : Calldata) (baseLen expLen modLen : Word) :
    Option Operands := do
  let basePtr := 96
  let expPtr := add basePtr baseLen
  let modPtr := add expPtr expLen
  let limbsBaseLen := (bigIntLimbs baseLen).1
  let limbsExpLen := (bigIntLimbs expLen).1
  let limbsModLen := (bigIntLimbs modLen).1
  let ptrBaseLimbs := 0
  let mem ← parseCalldata fuel cd Memory.zero basePtr baseLen ptrBaseLimbs
  let ptrExpLimbs := shl 5 limbsBaseLen
  let mem ← parseCalldata fuel cd mem expPtr expLen ptrExpLimbs
  let ptrModLimbs := add ptrExpLimbs (shl 5 limbsExpLen)
  let mem ← parseCalldata fuel cd mem modPtr modLen ptrModLimbs
  let maxLimbNumber := limbsBaseLen
  let maxLimbNumber := if lt maxLimbNumber limbsExpLen ≠ 0 then limbsExpLen else maxLimbNumber
  let maxLimbNumber := if lt maxLimbNumber limbsModLen ≠ 0 then limbsModLen else maxLimbNumber
  let maxLimbNumber := add maxLimbNumber maxLimbNumber
  let memForMaxLimbNumber := shl 5 maxLimbNumber
  let baseStartPtr := add ptrModLimbs (shl 5 limbsModLen)
  let exponentStartPtr := add baseStartPtr memForMaxLimbNumber
  let moduloStartPtr := add exponentStartPtr memForMaxLimbNumber
  let mem ← bigUIntPadWithZeros fuel mem ptrBaseLimbs limbsBaseLen maxLimbNumber
    baseStartPtr
  let mem ← bigUIntPadWithZeros fuel mem ptrExpLimbs limbsExpLen maxLimbNumber
    exponentStartPtr
  let mem ← bigUIntPadWithZeros fuel mem ptrModLimbs limbsModLen maxLimbNumber
    moduloStartPtr
  let scratchBufferPtr1 := add moduloStartPtr memForMaxLimbNumber
  let scratchBufferPtr2 := add scratchBufferPtr1 memForMaxLimbNumber
  let scratchBufferPtr3 := add scratchBufferPtr2 memForMaxLimbNumber
  let resultPtr := add scratchBufferPtr3 memForMaxLimbNumber
  return ⟨mem, maxLimbNumber, baseStartPtr, exponentStartPtr, moduloStartPtr, resultPtr,
    scratchBufferPtr1, scratchBufferPtr2, scratchBufferPtr3⟩

/-- The general path decodes the operands, exponentiates and returns the end of the
result. -/
theorem multiLimb_eq (fuel : ℕ) (cd : Calldata) (baseLen expLen modLen : Word) :
    multiLimb fuel cd baseLen expLen modLen =
      decodeOperands fuel cd baseLen expLen modLen >>= fun d =>
        bigUIntModularExponentiation fuel d.mem d.nLimbs d.basePtr d.exponentPtr d.modulusPtr
          d.resultPtr d.scratchBuf1Ptr d.scratchBuf2Ptr d.scratchBuf3Ptr >>= fun mem =>
        return returnMem mem (sub (add d.resultPtr (shl 5 d.nLimbs)) modLen) modLen := by
  simp only [multiLimb, decodeOperands, bind_assoc, pure_bind]

/-! ## Parsing -/

theorem toNat_bigIntLimbs (length : Word) :
    (bigIntLimbs length).1.toNat = (length.toNat + 31) / 32 := by
  have hlt := word_lt length
  have hdiv : (div length LIMB_SIZE_IN_BYTES).toNat = length.toNat / 32 := by
    rw [toNat_div, toNat_limbSize]
  have hmod : (mod length LIMB_SIZE_IN_BYTES).toNat = length.toNat % 32 := by
    rw [toNat_mod _ (by decide), toNat_limbSize]
  rw [bigIntLimbs]
  dsimp only
  by_cases h : mod length LIMB_SIZE_IN_BYTES = 0
  · have hzero := toNat_eq_zero.mpr h
    rw [if_neg (not_not_intro h)]
    omega
  · have hpos := mt toNat_eq_zero.mp h
    rw [if_pos h, toNat_add_one (by omega)]
    omega

/-- The lowest bytes of a word. -/
theorem toNat_misalignedLimb (w : Word) {l : ℕ} (hl : l ≤ 32) (hpos : 0 < l) {bits : Word}
    (hbits : bits.toNat = 8 * (32 - l)) :
    (shr bits (shl bits w)).toNat = w.toNat % 256 ^ l := by
  have hlt : bits.toNat < 256 := by omega
  have hsplit : (2 : ℕ) ^ 256 = 2 ^ (8 * l) * 2 ^ (8 * (32 - l)) := by
    rw [← pow_add]
    congr 1
    omega
  rw [toNat_shr _ hlt, toNat_shl w hlt, hbits, hsplit, Nat.mul_mod_mul_right,
    Nat.mul_div_cancel _ (by positivity), ← pow_256]

/-- The limb with the bytes that do not fill a limb. -/
theorem toNat_firstLimb (cd : Calldata) {ptr len : Word} (hptr : 32 ≤ ptr.toNat)
    (hmis : len.toNat % 32 ≠ 0) :
    (shr (shl 3 (sub LIMB_SIZE_IN_BYTES (mod len LIMB_SIZE_IN_BYTES)))
      (shl (shl 3 (sub LIMB_SIZE_IN_BYTES (mod len LIMB_SIZE_IN_BYTES)))
        (calldataload cd
          (sub ptr (sub LIMB_SIZE_IN_BYTES (mod len LIMB_SIZE_IN_BYTES)))))).toNat =
      callValue cd ptr.toNat (len.toNat % 32) := by
  have hmod : (mod len LIMB_SIZE_IN_BYTES).toNat = len.toNat % 32 := by
    rw [toNat_mod _ (by decide), toNat_limbSize]
  have hextra : (sub LIMB_SIZE_IN_BYTES (mod len LIMB_SIZE_IN_BYTES)).toNat =
      32 - len.toNat % 32 := by
    rw [toNat_sub_of_le (by rw [toNat_limbSize]; omega), toNat_limbSize, hmod]
  have h3 : (3 : Word).toNat = 3 := rfl
  have hbits : (shl 3 (sub LIMB_SIZE_IN_BYTES (mod len LIMB_SIZE_IN_BYTES))).toNat =
      8 * (32 - len.toNat % 32) := by
    rw [toNat_shl _ (by decide), hextra, h3]
    omega
  have hword : (sub ptr (sub LIMB_SIZE_IN_BYTES (mod len LIMB_SIZE_IN_BYTES))).toNat =
      ptr.toNat - (32 - len.toNat % 32) := by
    rw [toNat_sub_of_le (by omega), hextra]
  have hsplit := callValue_add cd (ptr.toNat - (32 - len.toNat % 32)) (32 - len.toNat % 32)
    (len.toNat % 32)
  have hlen : 32 - len.toNat % 32 + len.toNat % 32 = 32 := by omega
  have hstart : ptr.toNat - (32 - len.toNat % 32) + (32 - len.toNat % 32) = ptr.toNat := by
    omega
  rw [hlen, hstart] at hsplit
  rw [toNat_misalignedLimb _ (l := len.toNat % 32) (by omega) (by omega) hbits,
    toNat_calldataload_eq, hword, hsplit, Nat.mul_add_mod_self_right,
    Nat.mod_eq_of_lt (callValue_lt cd _ _)]

/-- A round reads a full limb, unless it is the first one of a misaligned slice. -/
theorem readBytes_succ {len k : ℕ} (hk : k < (len + 31) / 32)
    (hskip : ¬(k = 0 ∧ len % 32 ≠ 0)) :
    len - 32 * ((len + 31) / 32 - (k + 1)) = len - 32 * ((len + 31) / 32 - k) + 32 := by
  omega

/-- `k` limbs have been read, which leaves full limbs only. -/
structure ParseInv (cd : Calldata) (mem : Memory) (ptr len res : ℕ) (k : ℕ)
    (s : ParseState) : Prop where
  index : s.currentLimbNumber.toNat = k
  calldataPtr : s.currentLimbCalldataPtr.toNat = ptr + (len - 32 * ((len + 31) / 32 - k))
  memoryPtr : s.currentLimbMemoryPtr.toNat = res + 32 * k
  value : numAt s.mem res k = callValue cd ptr (len - 32 * ((len + 31) / 32 - k))
  first : k = 0 → len % 32 ≠ 0 → (wordAt s.mem res).toNat = callValue cd ptr (len % 32)
  frame : Frame (region res ((len + 31) / 32)) mem s.mem

/-- One round of the loop. -/
def parseStep (cd : Calldata) (misalignment : Word) (s : ParseState) : ParseState :=
  if and (iszero s.currentLimbNumber) (gt misalignment 0) ≠ 0 then
    { mem := s.mem
      currentLimbNumber := add s.currentLimbNumber 1
      currentLimbCalldataPtr := add s.currentLimbCalldataPtr
        (sub LIMB_SIZE_IN_BYTES (sub LIMB_SIZE_IN_BYTES misalignment))
      currentLimbMemoryPtr := add s.currentLimbMemoryPtr LIMB_SIZE_IN_BYTES }
  else
    { mem := mstore s.mem s.currentLimbMemoryPtr (calldataload cd s.currentLimbCalldataPtr)
      currentLimbNumber := add s.currentLimbNumber 1
      currentLimbCalldataPtr := add s.currentLimbCalldataPtr LIMB_SIZE_IN_BYTES
      currentLimbMemoryPtr := add s.currentLimbMemoryPtr LIMB_SIZE_IN_BYTES }

section Parse

variable {cd : Calldata} {mem : Memory} {ptr len res : Word}

theorem parseStep_spec (hptr : ptr.toNat + len.toNat < 2 ^ 256)
    (hres : res.toNat + 32 * ((len.toNat + 31) / 32) < 2 ^ 256) {k : ℕ} {s : ParseState}
    (hk : k < (len.toNat + 31) / 32)
    (hI : ParseInv cd mem ptr.toNat len.toNat res.toNat k s) :
    ParseInv cd mem ptr.toNat len.toNat res.toNat (k + 1)
      (parseStep cd (mod len LIMB_SIZE_IN_BYTES) s) := by
  obtain ⟨hindex, hcalldata, hmemory, hvalue, hfirst, hframe⟩ := hI
  have hlen := word_lt len
  have hmod : (mod len LIMB_SIZE_IN_BYTES).toNat = len.toNat % 32 := by
    rw [toNat_mod _ (by decide), toNat_limbSize]
  have hnext : (add s.currentLimbNumber 1).toNat = k + 1 := by
    rw [toNat_add_one (by omega), hindex]
  have hmemory' : (add s.currentLimbMemoryPtr LIMB_SIZE_IN_BYTES).toNat =
      res.toNat + 32 * (k + 1) := by
    rw [toNat_add_limbSize (by omega)]
    omega
  have htest : and (iszero s.currentLimbNumber) (gt (mod len LIMB_SIZE_IN_BYTES) 0) ≠ 0 ↔
      k = 0 ∧ len.toNat % 32 ≠ 0 := by
    rw [iszero, gt, and_boolWord, boolWord_ne_zero, ← toNat_eq_zero, hindex, hmod, word_zero,
      Nat.pos_iff_ne_zero]
  rw [parseStep]
  by_cases hskip : k = 0 ∧ len.toNat % 32 ≠ 0
  · obtain ⟨rfl, hmis⟩ := hskip
    have hbytes : (sub LIMB_SIZE_IN_BYTES
        (sub LIMB_SIZE_IN_BYTES (mod len LIMB_SIZE_IN_BYTES))).toNat = len.toNat % 32 := by
      have hextra : (sub LIMB_SIZE_IN_BYTES (mod len LIMB_SIZE_IN_BYTES)).toNat =
          32 - len.toNat % 32 := by
        rw [toNat_sub_of_le (by rw [toNat_limbSize]; omega), toNat_limbSize, hmod]
      rw [toNat_sub_of_le (by rw [hextra, toNat_limbSize]; omega), hextra, toNat_limbSize]
      omega
    have hone : len.toNat - 32 * ((len.toNat + 31) / 32 - (0 + 1)) = len.toNat % 32 := by
      omega
    rw [if_pos (htest.mpr ⟨rfl, hmis⟩)]
    refine ⟨hnext, ?_, hmemory', ?_, fun h => absurd h (by omega), hframe⟩
    · rw [hone]
      show (add s.currentLimbCalldataPtr _).toNat = _
      rw [toNat_add_of_lt (by omega), hbytes, hcalldata]
      omega
    · rw [hone, Nat.zero_add, ← toNat_wordAt_eq_numAt]
      exact hfirst rfl hmis
  · have hfull := readBytes_succ hk hskip
    rw [if_neg (mt htest.mp hskip)]
    refine ⟨hnext, ?_, hmemory', ?_, fun h => absurd h (by omega), ?_⟩
    · rw [hfull]
      show (add s.currentLimbCalldataPtr LIMB_SIZE_IN_BYTES).toNat = _
      rw [toNat_add_limbSize (by omega), hcalldata]
      omega
    · rw [hfull, callValue_add]
      show numAt (mstore s.mem _ _) _ (k + 1) = _
      rw [numAt_mstore_succ s.mem hmemory, hvalue, toNat_calldataload_eq, hcalldata]
      norm_num
    · exact hframe.trans ((frame_mstore s.mem hmemory _).mono
        (region_subset (by omega) (by omega)))

variable (cd mem ptr len res)

theorem parseCalldata_within (hbefore : 32 ≤ ptr.toNat)
    (hptr : ptr.toNat + len.toNat < 2 ^ 256)
    (hres : res.toNat + 32 * ((len.toNat + 31) / 32) < 2 ^ 256) {K : ℕ}
    (hK : (len.toNat + 31) / 32 < K) :
    ∃ mem', Within K (fun fuel => parseCalldata fuel cd mem ptr len res) mem' ∧
      numAt mem' res.toNat ((len.toNat + 31) / 32) = callValue cd ptr.toNat len.toNat ∧
      Frame (region res.toNat ((len.toNat + 31) / 32)) mem mem' := by
  have hlen := word_lt len
  have hmod : (mod len LIMB_SIZE_IN_BYTES).toNat = len.toNat % 32 := by
    rw [toNat_mod _ (by decide), toNat_limbSize]
  have hlimbs := toNat_bigIntLimbs len
  have hlimbsDef : (bigIntLimbs len).1 =
      if mod len LIMB_SIZE_IN_BYTES ≠ 0 then add (div len LIMB_SIZE_IN_BYTES) 1
      else div len LIMB_SIZE_IN_BYTES := rfl
  -- the loop, from a memory with the first limb
  have hloop : ∀ start : Memory,
      ParseInv cd mem ptr.toNat len.toNat res.toNat 0 ⟨start, 0, ptr, res⟩ →
      ∃ mem', Within K (fun fuel => iterate
          (fun (s : ParseState) =>
            if lt s.currentLimbNumber (bigIntLimbs len).1 ≠ 0 then
              some (Flow.next (parseStep cd (mod len LIMB_SIZE_IN_BYTES) s))
            else
              some (.done s.mem)) fuel ⟨start, 0, ptr, res⟩) mem' ∧
        numAt mem' res.toNat ((len.toNat + 31) / 32) = callValue cd ptr.toNat len.toNat ∧
        Frame (region res.toNat ((len.toNat + 31) / 32)) mem mem' := by
    intro start hstart
    have hrule := while_within
      (fun s : ParseState => lt s.currentLimbNumber (bigIntLimbs len).1 ≠ 0)
      (parseStep cd (mod len LIMB_SIZE_IN_BYTES)) ParseState.mem
      (ParseInv cd mem ptr.toNat len.toNat res.toNat)
      ((len.toNat + 31) / 32) K hK ?_ ?_ _ hstart
    · obtain ⟨s, hI, hrun⟩ := hrule
      have hvalue := hI.value
      rw [Nat.sub_self, Nat.mul_zero, Nat.sub_zero] at hvalue
      exact ⟨s.mem, hrun, hvalue, hI.frame⟩
    · intro k s hk hI
      rw [lt_ne_zero, hlimbs, hI.index]
    · intro k s hk hI
      exact parseStep_spec hptr hres hk hI
  have hempty : len.toNat - 32 * ((len.toNat + 31) / 32 - 0) = 0 := by omega
  by_cases hmis : mod len LIMB_SIZE_IN_BYTES = 0
  · have hzero : len.toNat % 32 = 0 := by rw [← hmod, hmis, word_zero]
    obtain ⟨mem', hrun, hpost⟩ := hloop mem
      ⟨rfl, by rw [hempty, Nat.add_zero], rfl, by rw [hempty]; rfl,
        fun _ h => absurd hzero h, Frame.refl _ _⟩
    refine ⟨mem', hrun.congr fun fuel => ?_, hpost⟩
    rw [hlimbsDef, if_neg (not_not_intro hmis), parseCalldata]
    simp only [if_neg (not_not_intro hmis), parseStep]
    congr 1
    funext s
    split
    · split <;> rfl
    · rfl
  · have hne : len.toNat % 32 ≠ 0 := by
      rw [← hmod]
      exact mt toNat_eq_zero.mp hmis
    have hlimb := toNat_firstLimb cd hbefore hne
    generalize hword : shr (shl 3 (sub LIMB_SIZE_IN_BYTES (mod len LIMB_SIZE_IN_BYTES)))
      (shl (shl 3 (sub LIMB_SIZE_IN_BYTES (mod len LIMB_SIZE_IN_BYTES)))
        (calldataload cd
          (sub ptr (sub LIMB_SIZE_IN_BYTES (mod len LIMB_SIZE_IN_BYTES))))) = w at hlimb
    have hwordAt : wordAt (mstore mem res w) res.toNat = w := wordAt_mstore_self mem rfl w
    obtain ⟨mem', hrun, hpost⟩ := hloop (mstore mem res w)
      ⟨rfl, by rw [hempty, Nat.add_zero], rfl, by rw [hempty]; rfl,
        fun _ _ => by rw [hwordAt, hlimb],
        (frame_mstore mem rfl w).mono (region_subset le_rfl (by omega))⟩
    refine ⟨mem', hrun.congr fun fuel => ?_, hpost⟩
    rw [hlimbsDef, if_pos hmis, parseCalldata]
    simp only [if_pos hmis, parseStep, hword]
    congr 1
    funext s
    split
    · split <;> rfl
    · rfl

end Parse

/-! ## Padding -/

section Pad

variable {mem : Memory} {ptr currentLimbNumber newLimbNumber resultPtr : Word}

variable (mem ptr currentLimbNumber newLimbNumber resultPtr)

/-- The limbs are copied from the lowest one on. -/
theorem bigUIntPadWithZeros_within (hle : currentLimbNumber.toNat ≤ newLimbNumber.toNat)
    (hptr : ptr.toNat + 32 * currentLimbNumber.toNat < 2 ^ 256)
    (hres : resultPtr.toNat + 32 * newLimbNumber.toNat < 2 ^ 256)
    (hd : ptr.toNat + 32 * currentLimbNumber.toNat ≤ resultPtr.toNat) {K : ℕ}
    (hK : currentLimbNumber.toNat < K) :
    ∃ mem', Within K (fun fuel => bigUIntPadWithZeros fuel mem ptr currentLimbNumber
        newLimbNumber resultPtr) mem' ∧
      numAt mem' (resultPtr.toNat + 32 * (newLimbNumber.toNat - currentLimbNumber.toNat))
        currentLimbNumber.toNat = numAt mem ptr.toNat currentLimbNumber.toNat ∧
      Frame (region (resultPtr.toNat +
        32 * (newLimbNumber.toNat - currentLimbNumber.toNat)) currentLimbNumber.toNat)
        mem mem' := by
  have hrule := while_within
    (fun s : Memory × Word => lt s.2 currentLimbNumber ≠ 0)
    (fun s =>
      (mstore s.1 (add resultPtr (shl 5 (sub (sub newLimbNumber 1) s.2)))
        (mload s.1 (add ptr (shl 5 (sub (sub currentLimbNumber 1) s.2)))),
      add s.2 1)) Prod.fst
    (fun k s => s.2.toNat = k ∧
      numAt s.1 (resultPtr.toNat + 32 * (newLimbNumber.toNat - k)) k =
        numAt mem (ptr.toNat + 32 * (currentLimbNumber.toNat - k)) k ∧
      Frame (region (resultPtr.toNat + 32 * (newLimbNumber.toNat - k)) k) mem s.1)
    currentLimbNumber.toNat K hK ?_ ?_ (mem, 0) ⟨rfl, rfl, Frame.refl _ _⟩
  · obtain ⟨⟨mem', i⟩, ⟨-, hvalue, hframe⟩, hrun⟩ := hrule
    rw [Nat.sub_self, Nat.mul_zero, Nat.add_zero] at hvalue
    exact ⟨mem', hrun, hvalue, hframe⟩
  · rintro k s hk ⟨hi, -⟩
    rw [lt_ne_zero, hi]
  · rintro k ⟨mem', i⟩ hk ⟨hi, hvalue, hframe⟩
    dsimp only at hi hvalue hframe
    have hlimbs := word_lt currentLimbNumber
    have hindex : ∀ n : Word, k < n.toNat →
        (sub (sub n 1) i).toNat = n.toNat - (k + 1) := by
      intro n hn
      have hone : (sub n 1).toNat = n.toNat - 1 := toNat_sub_one (by omega)
      rw [toNat_sub_of_le (by omega), hone, hi]
      omega
    have hto : (add resultPtr (shl 5 (sub (sub newLimbNumber 1) i))).toNat =
        resultPtr.toNat + 32 * (newLimbNumber.toNat - (k + 1)) := by
      rw [← hindex newLimbNumber (by omega)]
      exact toNat_limbPtr (by rw [hindex newLimbNumber (by omega)]; omega)
    have hfrom : (add ptr (shl 5 (sub (sub currentLimbNumber 1) i))).toNat =
        ptr.toNat + 32 * (currentLimbNumber.toNat - (k + 1)) := by
      rw [← hindex currentLimbNumber hk]
      exact toNat_limbPtr (by rw [hindex currentLimbNumber hk]; omega)
    have hread : mload mem' (add ptr (shl 5 (sub (sub currentLimbNumber 1) i))) =
        wordAt mem (ptr.toNat + 32 * (currentLimbNumber.toNat - (k + 1))) := by
      rw [mload_eq_wordAt mem' hfrom, hframe.wordAt_eq]
      exact disjoint_region (by omega)
    have hnew : resultPtr.toNat + 32 * (newLimbNumber.toNat - k) =
        resultPtr.toNat + 32 * (newLimbNumber.toNat - (k + 1)) + 32 := by omega
    have hold : ptr.toNat + 32 * (currentLimbNumber.toNat - k) =
        ptr.toNat + 32 * (currentLimbNumber.toNat - (k + 1)) + 32 := by omega
    rw [hnew, hold] at hvalue
    rw [hnew] at hframe
    refine ⟨?_, ?_, ?_⟩
    · dsimp only
      rw [toNat_add_one (by omega), hi]
    · show numAt (mstore mem' _ _) _ (k + 1) = _
      rw [numAt_mstore_left mem' hto, hread, hvalue, numAt_succ_left mem]
    · refine (hframe.mono ?_).trans ((frame_mstore mem' hto _).mono ?_)
      · exact region_subset (by omega) (by omega)
      · exact region_subset le_rfl (by omega)

/-- Into a buffer of zeros. -/
theorem bigUIntPadWithZeros_zero_within (hle : currentLimbNumber.toNat ≤ newLimbNumber.toNat)
    (hptr : ptr.toNat + 32 * currentLimbNumber.toNat < 2 ^ 256)
    (hres : resultPtr.toNat + 32 * newLimbNumber.toNat < 2 ^ 256)
    (hd : ptr.toNat + 32 * currentLimbNumber.toNat ≤ resultPtr.toNat)
    (hzero : numAt mem resultPtr.toNat newLimbNumber.toNat = 0) {K : ℕ}
    (hK : currentLimbNumber.toNat < K) :
    ∃ mem', Within K (fun fuel => bigUIntPadWithZeros fuel mem ptr currentLimbNumber
        newLimbNumber resultPtr) mem' ∧
      numAt mem' resultPtr.toNat newLimbNumber.toNat =
        numAt mem ptr.toNat currentLimbNumber.toNat ∧
      Frame (region resultPtr.toNat newLimbNumber.toNat) mem mem' := by
  obtain ⟨mem', hrun, hvalue, hframe⟩ :=
    bigUIntPadWithZeros_within mem ptr currentLimbNumber newLimbNumber resultPtr hle hptr hres hd hK
  refine ⟨mem', hrun, ?_, hframe.mono (region_subset (by omega) (by omega))⟩
  have hsplit : newLimbNumber.toNat =
      newLimbNumber.toNat - currentLimbNumber.toNat + currentLimbNumber.toNat := by omega
  have hupper : numAt mem' resultPtr.toNat
      (newLimbNumber.toNat - currentLimbNumber.toNat) = 0 := by
    rw [hframe.numAt_eq (disjoint_region (Or.inl le_rfl)), numAt_eq_zero]
    intro b hb
    exact numAt_eq_zero.mp hzero b (region_subset le_rfl (by omega) hb)
  rw [hsplit, numAt_add, hupper, Nat.zero_mul, Nat.zero_add, hvalue]

end Pad

/-! ## The operands -/

/-- The limbs of the longest operand. -/
def maxLimbs (baseLen expLen modLen : Word) : ℕ :=
  max (max (bigIntLimbs baseLen).1.toNat (bigIntLimbs expLen).1.toNat)
    (bigIntLimbs modLen).1.toNat

/-- The first address behind the packed operands. -/
def packedEnd (baseLen expLen modLen : Word) : ℕ :=
  32 * ((bigIntLimbs baseLen).1.toNat + (bigIntLimbs expLen).1.toNat +
    (bigIntLimbs modLen).1.toNat)

/-- The end of the last buffer is an address. -/
def LayoutFits (baseLen expLen modLen : Word) : Prop :=
  packedEnd baseLen expLen modLen + 32 * (7 * (2 * maxLimbs baseLen expLen modLen)) < 2 ^ 256

instance (baseLen expLen modLen : Word) : Decidable (LayoutFits baseLen expLen modLen) :=
  inferInstanceAs (Decidable (_ < _))

namespace Operands

/-- The buffers as they lie in memory. -/
def buffers (d : Operands) : List Word :=
  [d.basePtr, d.exponentPtr, d.modulusPtr, d.scratchBuf1Ptr, d.scratchBuf2Ptr,
    d.scratchBuf3Ptr, d.resultPtr]

/-- The number in a buffer. -/
def value (d : Operands) (p : Word) : ℕ :=
  numAt d.mem p.toNat d.nLimbs.toNat

/-- The number in the upper half of a buffer. -/
def upperHalf (d : Operands) (p : Word) : ℕ :=
  numAt d.mem p.toNat (d.nLimbs.toNat / 2)

end Operands

/-- The buffers one behind the other, with the numbers of calldata in the first three. -/
structure Decoded (cd : Calldata) (baseLen expLen modLen : Word) (d : Operands) : Prop where
  nLimbs : d.nLimbs.toNat = 2 * maxLimbs baseLen expLen modLen
  layout : d.buffers.map BitVec.toNat =
    (List.range 7).map fun j => packedEnd baseLen expLen modLen + 32 * (j * d.nLimbs.toNat)
  disjoint : d.buffers.Pairwise fun p q =>
    Disjoint (region p.toNat d.nLimbs.toNat) (region q.toNat d.nLimbs.toNat)
  base : d.value d.basePtr = callValue cd 96 baseLen.toNat
  exponent : d.value d.exponentPtr = callValue cd (96 + baseLen.toNat) expLen.toNat
  modulus : d.value d.modulusPtr =
    callValue cd (96 + baseLen.toNat + expLen.toNat) modLen.toNat
  upper : d.upperHalf d.basePtr = 0 ∧ d.upperHalf d.exponentPtr = 0 ∧
    d.upperHalf d.modulusPtr = 0
  zero : d.value d.scratchBuf1Ptr = 0 ∧ d.value d.scratchBuf2Ptr = 0 ∧
    d.value d.scratchBuf3Ptr = 0 ∧ d.value d.resultPtr = 0

/-- A number that fits into the lower half of its buffer. -/
theorem numAt_upperHalf (mem : Memory) (a n : ℕ) (h : numAt mem a (2 * n) < 2 ^ (256 * n)) :
    numAt mem a (2 * n / 2) = 0 := by
  rw [Nat.mul_div_cancel_left n (by norm_num), ← numAt_div mem a n n, ← Nat.two_mul]
  exact Nat.div_eq_of_lt h

theorem callValue_lt_of_limbs (cd : Calldata) (start : ℕ) (len : Word) {n : ℕ}
    (hn : (bigIntLimbs len).1.toNat ≤ n) : callValue cd start len.toNat < 2 ^ (256 * n) := by
  rw [toNat_bigIntLimbs] at hn
  refine (callValue_lt cd start len.toNat).trans_le ?_
  rw [pow_256]
  exact Nat.pow_le_pow_right (by norm_num) (by omega)

/-- The choice of the greater limb count. -/
theorem toNat_ite_lt (a b : Word) :
    (if lt a b ≠ 0 then b else a).toNat = max a.toNat b.toNat := by
  by_cases h : a.toNat < b.toNat
  · have htest : lt a b ≠ 0 := lt_ne_zero.mpr h
    rw [if_pos htest, max_eq_right h.le]
  · have htest : ¬lt a b ≠ 0 := mt lt_ne_zero.mp h
    rw [if_neg htest, max_eq_left (by omega)]

/-- The operands packed one behind the other, and zeros behind them. -/
structure Packed (cd : Calldata) (baseLen expLen modLen : Word) (mem : Memory) : Prop where
  base : numAt mem 0 (bigIntLimbs baseLen).1.toNat = callValue cd 96 baseLen.toNat
  exponent : numAt mem (32 * (bigIntLimbs baseLen).1.toNat) (bigIntLimbs expLen).1.toNat =
    callValue cd (96 + baseLen.toNat) expLen.toNat
  modulus : numAt mem
      (32 * (bigIntLimbs baseLen).1.toNat + 32 * (bigIntLimbs expLen).1.toNat)
      (bigIntLimbs modLen).1.toNat =
    callValue cd (96 + baseLen.toNat + expLen.toNat) modLen.toNat
  zero : ∀ b, packedEnd baseLen expLen modLen ≤ b → mem b = 0

/-- The three calls of `parseCalldata`. -/
theorem parse_within (cd : Calldata) {baseLen expLen modLen : Word}
    (hfits : LayoutFits baseLen expLen modLen) {K : ℕ}
    (hK : maxLimbs baseLen expLen modLen < K) :
    ∃ mem₁ mem₂ mem₃,
      Within K (fun fuel => parseCalldata fuel cd Memory.zero 96 baseLen 0) mem₁ ∧
      Within K (fun fuel => parseCalldata fuel cd mem₁ (add 96 baseLen) expLen
        (shl 5 (bigIntLimbs baseLen).1)) mem₂ ∧
      Within K (fun fuel => parseCalldata fuel cd mem₂ (add (add 96 baseLen) expLen) modLen
        (add (shl 5 (bigIntLimbs baseLen).1) (shl 5 (bigIntLimbs expLen).1))) mem₃ ∧
      Packed cd baseLen expLen modLen mem₃ := by
  rw [LayoutFits, packedEnd] at hfits
  rw [maxLimbs] at hK hfits
  have h96 : (96 : Word).toNat = 96 := rfl
  have hb := toNat_bigIntLimbs baseLen
  have he := toNat_bigIntLimbs expLen
  have hm := toNat_bigIntLimbs modLen
  have hexp : (add 96 baseLen).toNat = 96 + baseLen.toNat := toNat_add_of_lt (by omega)
  have hmod : (add (add 96 baseLen) expLen).toNat = 96 + baseLen.toNat + expLen.toNat := by
    rw [toNat_add_of_lt (by omega), hexp]
  have hexpLimbs : (shl 5 (bigIntLimbs baseLen).1).toNat =
      32 * (bigIntLimbs baseLen).1.toNat := toNat_shl_five (by omega)
  have hmodLimbs : (add (shl 5 (bigIntLimbs baseLen).1) (shl 5 (bigIntLimbs expLen).1)).toNat =
      32 * (bigIntLimbs baseLen).1.toNat + 32 * (bigIntLimbs expLen).1.toNat := by
    rw [toNat_limbPtr (by omega), hexpLimbs]
  obtain ⟨mem₁, hrun₁, hvalue₁, hframe₁⟩ := parseCalldata_within cd
    Memory.zero 96 baseLen 0 (by omega) (by omega)
    (by rw [word_zero]; omega) (show _ < K by omega)
  obtain ⟨mem₂, hrun₂, hvalue₂, hframe₂⟩ := parseCalldata_within cd
    mem₁ (add 96 baseLen) expLen (shl 5 (bigIntLimbs baseLen).1) (by omega) (by omega)
    (by omega) (show _ < K by omega)
  obtain ⟨mem₃, hrun₃, hvalue₃, hframe₃⟩ := parseCalldata_within cd
    mem₂ (add (add 96 baseLen) expLen) modLen
    (add (shl 5 (bigIntLimbs baseLen).1) (shl 5 (bigIntLimbs expLen).1)) (by omega)
    (by omega) (by omega) (show _ < K by omega)
  rw [← hb, h96, word_zero] at hvalue₁
  rw [← hb, word_zero] at hframe₁
  rw [← he, hexpLimbs, hexp] at hvalue₂
  rw [← he, hexpLimbs] at hframe₂
  rw [← hm, hmodLimbs, hmod] at hvalue₃
  rw [← hm, hmodLimbs] at hframe₃
  refine ⟨mem₁, mem₂, mem₃, hrun₁, hrun₂, hrun₃, ⟨?_, ?_, hvalue₃, ?_⟩⟩
  · rw [hframe₃.numAt_eq (disjoint_region (by omega)),
      hframe₂.numAt_eq (disjoint_region (by omega)), hvalue₁]
  · rw [hframe₃.numAt_eq (disjoint_region (by omega)), hvalue₂]
  · intro b hb'
    rw [packedEnd] at hb'
    rw [hframe₃ b (by rw [mem_region]; omega), hframe₂ b (by rw [mem_region]; omega),
      hframe₁ b (by rw [mem_region]; omega)]
    rfl

/-- The buffers behind the packed operands, and where they lie. -/
theorem numAt_zero_of_packed {cd : Calldata} {baseLen expLen modLen : Word} {mem : Memory}
    (h : Packed cd baseLen expLen modLen mem) {a : ℕ}
    (ha : packedEnd baseLen expLen modLen ≤ a) (n : ℕ) : numAt mem a n = 0 := by
  rw [numAt_eq_zero]
  intro b hb
  rw [mem_region] at hb
  exact h.zero b (by omega)

/-- The three calls of `bigUIntPadWithZeros`. -/
theorem pad_within {cd : Calldata} {baseLen expLen modLen : Word}
    (hfits : LayoutFits baseLen expLen modLen) {mem : Memory}
    (hpacked : Packed cd baseLen expLen modLen mem) {nLimbs : Word}
    (hn : nLimbs.toNat = 2 * maxLimbs baseLen expLen modLen) {p q r : Word}
    (hp : p.toNat = packedEnd baseLen expLen modLen)
    (hq : q.toNat = packedEnd baseLen expLen modLen + 32 * nLimbs.toNat)
    (hr : r.toNat = packedEnd baseLen expLen modLen + 32 * (2 * nLimbs.toNat)) {K : ℕ}
    (hK : maxLimbs baseLen expLen modLen < K) :
    ∃ mem₁ mem₂ mem₃,
      Within K (fun fuel => bigUIntPadWithZeros fuel mem 0 (bigIntLimbs baseLen).1 nLimbs p)
        mem₁ ∧
      Within K (fun fuel => bigUIntPadWithZeros fuel mem₁ (shl 5 (bigIntLimbs baseLen).1)
        (bigIntLimbs expLen).1 nLimbs q) mem₂ ∧
      Within K (fun fuel => bigUIntPadWithZeros fuel mem₂
        (add (shl 5 (bigIntLimbs baseLen).1) (shl 5 (bigIntLimbs expLen).1))
        (bigIntLimbs modLen).1 nLimbs r) mem₃ ∧
      numAt mem₃ p.toNat nLimbs.toNat = callValue cd 96 baseLen.toNat ∧
      numAt mem₃ q.toNat nLimbs.toNat = callValue cd (96 + baseLen.toNat) expLen.toNat ∧
      numAt mem₃ r.toNat nLimbs.toNat =
        callValue cd (96 + baseLen.toNat + expLen.toNat) modLen.toNat ∧
      ∀ b, packedEnd baseLen expLen modLen + 32 * (3 * nLimbs.toNat) ≤ b → mem₃ b = 0 := by
  obtain ⟨hbase, hexponent, hmodulus, hzero⟩ := hpacked
  rw [LayoutFits] at hfits
  have hend : packedEnd baseLen expLen modLen =
      32 * ((bigIntLimbs baseLen).1.toNat + (bigIntLimbs expLen).1.toNat +
        (bigIntLimbs modLen).1.toNat) := rfl
  have hmax : maxLimbs baseLen expLen modLen =
      max (max (bigIntLimbs baseLen).1.toNat (bigIntLimbs expLen).1.toNat)
        (bigIntLimbs modLen).1.toNat := rfl
  have hexpLimbs : (shl 5 (bigIntLimbs baseLen).1).toNat =
      32 * (bigIntLimbs baseLen).1.toNat := toNat_shl_five (by omega)
  have hmodLimbs : (add (shl 5 (bigIntLimbs baseLen).1) (shl 5 (bigIntLimbs expLen).1)).toNat =
      32 * (bigIntLimbs baseLen).1.toNat + 32 * (bigIntLimbs expLen).1.toNat := by
    rw [toNat_limbPtr (by omega), hexpLimbs]
  -- a buffer of zeros, not reached by the frames before it
  have hclear : ∀ {a : ℕ}, packedEnd baseLen expLen modLen ≤ a →
      numAt mem a nLimbs.toNat = 0 := fun ha =>
    numAt_zero_of_packed ⟨hbase, hexponent, hmodulus, hzero⟩ ha _
  obtain ⟨mem₁, hrun₁, hvalue₁, hframe₁⟩ := bigUIntPadWithZeros_zero_within mem
    0 (bigIntLimbs baseLen).1 nLimbs p (by omega) (by rw [word_zero]; omega) (by omega)
    (by rw [word_zero]; omega) (hclear (by omega)) (show _ < K by omega)
  obtain ⟨mem₂, hrun₂, hvalue₂, hframe₂⟩ := bigUIntPadWithZeros_zero_within mem₁
    (shl 5 (bigIntLimbs baseLen).1) (bigIntLimbs expLen).1 nLimbs q (by omega) (by omega)
    (by omega) (by omega)
    (by rw [hframe₁.numAt_eq (disjoint_region (by omega)), hclear (by omega)])
    (show _ < K by omega)
  obtain ⟨mem₃, hrun₃, hvalue₃, hframe₃⟩ := bigUIntPadWithZeros_zero_within mem₂
    (add (shl 5 (bigIntLimbs baseLen).1) (shl 5 (bigIntLimbs expLen).1))
    (bigIntLimbs modLen).1 nLimbs r (by omega) (by omega) (by omega) (by omega)
    (by rw [hframe₂.numAt_eq (disjoint_region (by omega)),
      hframe₁.numAt_eq (disjoint_region (by omega)), hclear (by omega)])
    (show _ < K by omega)
  refine ⟨mem₁, mem₂, mem₃, hrun₁, hrun₂, hrun₃, ?_, ?_, ?_, ?_⟩
  · rw [hframe₃.numAt_eq (disjoint_region (by omega)),
      hframe₂.numAt_eq (disjoint_region (by omega)), hvalue₁, word_zero, hbase]
  · rw [hframe₃.numAt_eq (disjoint_region (by omega)), hvalue₂, hexpLimbs,
      hframe₁.numAt_eq (disjoint_region (by omega)), hexponent]
  · rw [hvalue₃, hmodLimbs, hframe₂.numAt_eq (disjoint_region (by omega)),
      hframe₁.numAt_eq (disjoint_region (by omega)), hmodulus]
  · intro b hb
    rw [hframe₃ b (by rw [mem_region]; omega), hframe₂ b (by rw [mem_region]; omega),
      hframe₁ b (by rw [mem_region]; omega), hzero b (by omega)]

/-- The decoding ends within rounds for the limbs of the longest operand, and the
exponentiation is called with the numbers of calldata in disjoint buffers. -/
theorem decodeOperands_within (cd : Calldata) {baseLen expLen modLen : Word}
    (hfits : LayoutFits baseLen expLen modLen) {K : ℕ}
    (hK : maxLimbs baseLen expLen modLen < K) :
    ∃ d, Within K (fun fuel => decodeOperands fuel cd baseLen expLen modLen) d ∧
      Decoded cd baseLen expLen modLen d := by
  obtain ⟨mem₁, mem₂, mem₃, hparse₁, hparse₂, hparse₃, hpacked⟩ := parse_within cd hfits hK
  have hfits' := hfits
  rw [LayoutFits] at hfits'
  have hend : packedEnd baseLen expLen modLen =
      32 * ((bigIntLimbs baseLen).1.toNat + (bigIntLimbs expLen).1.toNat +
        (bigIntLimbs modLen).1.toNat) := rfl
  have hmax : maxLimbs baseLen expLen modLen =
      max (max (bigIntLimbs baseLen).1.toNat (bigIntLimbs expLen).1.toNat)
        (bigIntLimbs modLen).1.toNat := rfl
  -- the limb count of the buffers
  obtain ⟨longest, hlongest⟩ : ∃ w : Word, w =
      if lt (if lt (bigIntLimbs baseLen).1 (bigIntLimbs expLen).1 ≠ 0 then
        (bigIntLimbs expLen).1 else (bigIntLimbs baseLen).1) (bigIntLimbs modLen).1 ≠ 0 then
        (bigIntLimbs modLen).1
      else (if lt (bigIntLimbs baseLen).1 (bigIntLimbs expLen).1 ≠ 0 then
        (bigIntLimbs expLen).1 else (bigIntLimbs baseLen).1) := ⟨_, rfl⟩
  have hlongestNat : longest.toNat = maxLimbs baseLen expLen modLen := by
    rw [hlongest, toNat_ite_lt, toNat_ite_lt, maxLimbs]
  have hn : (add longest longest).toNat = 2 * maxLimbs baseLen expLen modLen := by
    rw [toNat_add_of_lt (by omega), hlongestNat]
    omega
  generalize hN : add longest longest = nLimbs at hn
  have hsize : (shl 5 nLimbs).toNat = 32 * nLimbs.toNat := toNat_shl_five (by omega)
  -- the buffers one behind the other
  have hbuffer : ∀ {p : Word} {j : ℕ}, j < 6 →
      p.toNat = packedEnd baseLen expLen modLen + 32 * (j * nLimbs.toNat) →
      (add p (shl 5 nLimbs)).toNat =
        packedEnd baseLen expLen modLen + 32 * ((j + 1) * nLimbs.toNat) := by
    intro p j hj hp
    have hmul : j * nLimbs.toNat ≤ 5 * nLimbs.toNat := Nat.mul_le_mul_right _ (by omega)
    have hsucc : (j + 1) * nLimbs.toNat = j * nLimbs.toNat + nLimbs.toNat :=
      Nat.succ_mul j _
    rw [toNat_limbPtr (by omega), hp]
    omega
  have hexpLimbs : (shl 5 (bigIntLimbs baseLen).1).toNat =
      32 * (bigIntLimbs baseLen).1.toNat := toNat_shl_five (by omega)
  have hmodLimbs : (add (shl 5 (bigIntLimbs baseLen).1) (shl 5 (bigIntLimbs expLen).1)).toNat =
      32 * (bigIntLimbs baseLen).1.toNat + 32 * (bigIntLimbs expLen).1.toNat := by
    rw [toNat_limbPtr (by omega), hexpLimbs]
  have hp₀ : (add (add (shl 5 (bigIntLimbs baseLen).1) (shl 5 (bigIntLimbs expLen).1))
      (shl 5 (bigIntLimbs modLen).1)).toNat =
      packedEnd baseLen expLen modLen + 32 * (0 * nLimbs.toNat) := by
    rw [toNat_limbPtr (by omega), hmodLimbs]
    omega
  generalize hbasePtr : add (add (shl 5 (bigIntLimbs baseLen).1) (shl 5 (bigIntLimbs expLen).1))
    (shl 5 (bigIntLimbs modLen).1) = p₀ at hp₀
  have hp₁ := hbuffer (by omega) hp₀
  have hp₂ := hbuffer (by omega) hp₁
  have hp₃ := hbuffer (by omega) hp₂
  have hp₄ := hbuffer (by omega) hp₃
  have hp₅ := hbuffer (by omega) hp₄
  have hp₆ := hbuffer (by omega) hp₅
  obtain ⟨mem₄, mem₅, mem₆, hpad₁, hpad₂, hpad₃, hbase, hexponent, hmodulus, hzero⟩ :=
    pad_within hfits hpacked hn (p := p₀) (q := add p₀ (shl 5 nLimbs))
      (r := add (add p₀ (shl 5 nLimbs)) (shl 5 nLimbs)) (by omega) (by omega) (by omega) hK
  refine ⟨⟨mem₆, nLimbs, p₀, add p₀ (shl 5 nLimbs),
    add (add p₀ (shl 5 nLimbs)) (shl 5 nLimbs),
    add (add (add (add (add (add p₀ (shl 5 nLimbs)) (shl 5 nLimbs)) (shl 5 nLimbs))
      (shl 5 nLimbs)) (shl 5 nLimbs)) (shl 5 nLimbs),
    add (add (add p₀ (shl 5 nLimbs)) (shl 5 nLimbs)) (shl 5 nLimbs),
    add (add (add (add p₀ (shl 5 nLimbs)) (shl 5 nLimbs)) (shl 5 nLimbs)) (shl 5 nLimbs),
    add (add (add (add (add p₀ (shl 5 nLimbs)) (shl 5 nLimbs)) (shl 5 nLimbs))
      (shl 5 nLimbs)) (shl 5 nLimbs)⟩, ?_, ?_⟩
  · refine hparse₁.bind (hparse₂.bind (hparse₃.bind ?_))
    simp only [← hlongest, hN, hbasePtr]
    exact hpad₁.bind (hpad₂.bind (hpad₃.bind (Within.const K _)))
  · have hhalf : ∀ {p : Word} {start : ℕ} {len : Word},
        numAt mem₆ p.toNat nLimbs.toNat = callValue cd start len.toNat →
        (bigIntLimbs len).1.toNat ≤ maxLimbs baseLen expLen modLen →
        numAt mem₆ p.toNat (nLimbs.toNat / 2) = 0 := by
      intro p start len hp hlen
      rw [hn] at hp ⊢
      refine numAt_upperHalf mem₆ _ _ ?_
      rw [hp]
      exact callValue_lt_of_limbs cd start len hlen
    have hclear : ∀ {p : Word} {j : ℕ}, 3 ≤ j →
        p.toNat = packedEnd baseLen expLen modLen + 32 * (j * nLimbs.toNat) →
        numAt mem₆ p.toNat nLimbs.toNat = 0 := by
      intro p j hj hp
      have hmul : 3 * nLimbs.toNat ≤ j * nLimbs.toNat := Nat.mul_le_mul_right _ hj
      rw [numAt_eq_zero]
      intro b hb
      rw [mem_region] at hb
      exact hzero b (by omega)
    -- the pointers as numbers, from which the buffers are disjoint
    have hlayout : [p₀, add p₀ (shl 5 nLimbs), add (add p₀ (shl 5 nLimbs)) (shl 5 nLimbs),
        add (add (add p₀ (shl 5 nLimbs)) (shl 5 nLimbs)) (shl 5 nLimbs),
        add (add (add (add p₀ (shl 5 nLimbs)) (shl 5 nLimbs)) (shl 5 nLimbs)) (shl 5 nLimbs),
        add (add (add (add (add p₀ (shl 5 nLimbs)) (shl 5 nLimbs)) (shl 5 nLimbs))
          (shl 5 nLimbs)) (shl 5 nLimbs),
        add (add (add (add (add (add p₀ (shl 5 nLimbs)) (shl 5 nLimbs)) (shl 5 nLimbs))
          (shl 5 nLimbs)) (shl 5 nLimbs)) (shl 5 nLimbs)].map BitVec.toNat =
        (List.range 7).map fun j =>
          packedEnd baseLen expLen modLen + 32 * (j * nLimbs.toNat) := by
      simp only [List.map_cons, List.map_nil, hp₀, hp₁, hp₂, hp₃, hp₄, hp₅, hp₆]
      rfl
    have hdisjoint := pairwise_disjoint_region (packedEnd baseLen expLen modLen) nLimbs.toNat
      (List.nodup_range (n := 7))
    rw [← hlayout, List.pairwise_map] at hdisjoint
    refine ⟨hn, hlayout, hdisjoint, hbase, hexponent, hmodulus, ⟨?_, ?_, ?_⟩,
      ⟨?_, ?_, ?_, ?_⟩⟩
    · exact hhalf hbase (by omega)
    · exact hhalf hexponent (by omega)
    · exact hhalf hmodulus (by omega)
    · exact hclear (by omega) hp₃
    · exact hclear (by omega) hp₄
    · exact hclear (by omega) hp₅
    · exact hclear (by omega) hp₆

/-- The operands reach the exponentiation of the general path as they stand in calldata,
for all lengths. -/
theorem decodeOperands_yields (cd : Calldata) (baseLen expLen modLen : Word)
    (hfits : LayoutFits baseLen expLen modLen) :
    ∃ d, Yields (fun fuel => decodeOperands fuel cd baseLen expLen modLen) d ∧
      Decoded cd baseLen expLen modLen d ∧
      ∀ fuel, multiLimb fuel cd baseLen expLen modLen =
        decodeOperands fuel cd baseLen expLen modLen >>= fun d =>
          bigUIntModularExponentiation fuel d.mem d.nLimbs d.basePtr d.exponentPtr
            d.modulusPtr d.resultPtr d.scratchBuf1Ptr d.scratchBuf2Ptr d.scratchBuf3Ptr >>=
          fun mem =>
            return returnMem mem (sub (add d.resultPtr (shl 5 d.nLimbs)) modLen) modLen := by
  obtain ⟨d, hrun, hd⟩ := decodeOperands_within cd hfits (Nat.lt_succ_self _)
  exact ⟨d, hrun.yields, hd, fun fuel => multiLimb_eq fuel cd baseLen expLen modLen⟩

/-- Operands of 1, 33 and 0 bytes. -/
theorem decodeOperands_yields_misaligned :
    ∃ d, Yields (fun fuel => decodeOperands fuel zeroPowerCall 1 33 0) d ∧
      Decoded zeroPowerCall 1 33 0 d := by
  obtain ⟨d, hrun, hd, -⟩ := decodeOperands_yields zeroPowerCall 1 33 0 (by decide)
  exact ⟨d, hrun, hd⟩

end EraPrecompiles.ModExp
