import EraPrecompiles.ModExp.Decoding
import EraPrecompiles.ModExp.Multiplication
import EraPrecompiles.ModExp.Remainder

/-!
# The exponentiation of numbers of any length

Square-and-multiply from the lowest bit of the exponent on.  The seven buffers lie one
behind the other (`Ready`), and the base and a scratch buffer change places after the
first reduction.

Every product is reduced by `bigUIntRem`.  A reduction is bounded (`CallBounded`) if the
shift count does not wrap and every loop ends within `256 * nLimbs` rounds, and that is
so if and only if the dividend has enough limbs that are not zero
(`callBounded_iff`).
-/

namespace EraPrecompiles.ModExp

/-! ## Small functions -/

/-- The address of the lowest limb. -/
theorem toNat_lowestPtr {nLimbs basePtr : Word} (hn : 0 < nLimbs.toNat)
    (hptr : basePtr.toNat + 32 * nLimbs.toNat < 2 ^ 256) :
    (add basePtr (shl 5 (sub nLimbs 1))).toNat = basePtr.toNat + 32 * (nLimbs.toNat - 1) := by
  rw [← toNat_sub_one hn]
  exact toNat_limbPtr (by rw [toNat_sub_one hn]; omega)

theorem bigUIntIsGreaterThanOne_yields (mem : Memory) (nLimbs basePtr : Word)
    (hn : 0 < nLimbs.toNat) (hptr : basePtr.toNat + 32 * nLimbs.toNat < 2 ^ 256) :
    Yields (fun fuel => bigUIntIsGreaterThanOne fuel mem nLimbs basePtr)
      (boolWord (1 < numAt mem basePtr.toNat nLimbs.toNat)) := by
  have hlast := toNat_lowestPtr hn hptr
  obtain ⟨ret, hrun, rfl⟩ := iterate_yields
    (fun _ (s : Word × Word) =>
      if and (lt basePtr s.1) (eq s.2 0) ≠ 0 then
        some (Flow.next (sub s.1 LIMB_SIZE_IN_BYTES,
          lt 0 (mload mem (sub s.1 LIMB_SIZE_IN_BYTES))))
      else
        some (.done s.2))
    (fun s => ∃ k, k < nLimbs.toNat ∧ s.1.toNat = basePtr.toNat + 32 * k ∧
      s.2 = boolWord (1 < numAt mem (basePtr.toNat + 32 * k) (nLimbs.toNat - k)))
    (fun ret => ret = boolWord (1 < numAt mem basePtr.toNat nLimbs.toNat))
    (fun s => s.1.toNat)
    (by
      rintro ⟨p, ret⟩ ⟨k, hk, hp, hret⟩
      dsimp only at hp hret ⊢
      subst hret
      have htest : and (lt basePtr p)
          (eq (boolWord (1 < numAt mem (basePtr.toNat + 32 * k) (nLimbs.toNat - k))) 0) ≠ 0 ↔
          0 < k ∧ ¬1 < numAt mem (basePtr.toNat + 32 * k) (nLimbs.toNat - k) := by
        rw [lt, eq, and_boolWord, boolWord_ne_zero, boolWord_eq_zero]
        refine and_congr_left fun _ => ?_
        omega
      by_cases hgo : 0 < k ∧ ¬1 < numAt mem (basePtr.toNat + 32 * k) (nLimbs.toNat - k)
      · right
        obtain ⟨hk0, hle⟩ := hgo
        have hsub : (sub p LIMB_SIZE_IN_BYTES).toNat = basePtr.toNat + 32 * (k - 1) := by
          rw [toNat_sub_of_le (by rw [toNat_limbSize]; omega), toNat_limbSize]
          omega
        refine ⟨_, Yields.of_eq fun _ => if_pos (htest.mpr ⟨hk0, hle⟩),
          ⟨k - 1, by omega, hsub, ?_⟩, ?_⟩
        · have hcount : nLimbs.toNat - (k - 1) = nLimbs.toNat - k + 1 := by omega
          have hnext : basePtr.toNat + 32 * (k - 1) + 32 = basePtr.toNat + 32 * k := by omega
          refine boolWord_congr ?_
          rw [hcount, numAt_succ_left, hnext, mload_eq_wordAt mem hsub, word_zero]
          have hpow : 2 ^ 1 ≤ 2 ^ (256 * (nLimbs.toNat - k)) :=
            Nat.pow_le_pow_right (by norm_num) (by omega)
          constructor
          · intro hpos
            have hmul := Nat.le_mul_of_pos_left (2 ^ (256 * (nLimbs.toNat - k))) hpos
            omega
          · intro hgt
            by_contra hzero
            have hword : (wordAt mem (basePtr.toNat + 32 * (k - 1))).toNat = 0 := by omega
            rw [hword, Nat.zero_mul, Nat.zero_add] at hgt
            exact hle hgt
        · dsimp only
          omega
      · left
        refine ⟨_, Yields.of_eq fun _ => if_neg (mt htest.mp hgo), boolWord_congr ?_⟩
        rcases Nat.eq_zero_or_pos k with rfl | hpos
        · rw [Nat.mul_zero, Nat.add_zero, Nat.sub_zero]
        · have hgt : 1 < numAt mem (basePtr.toNat + 32 * k) (nLimbs.toNat - k) := by
            by_contra hle
            exact hgo ⟨hpos, hle⟩
          have hsplit : nLimbs.toNat = k + (nLimbs.toNat - k) := by omega
          refine iff_of_true hgt ?_
          rw [hsplit, numAt_add]
          omega)
    (add basePtr (shl 5 (sub nLimbs 1)),
      gt (mload mem (add basePtr (shl 5 (sub nLimbs 1)))) 1)
    ⟨nLimbs.toNat - 1, by omega, hlast, by
      have hone : nLimbs.toNat - (nLimbs.toNat - 1) = 1 := by omega
      dsimp only
      rw [hone, ← toNat_wordAt_eq_numAt, mload_eq_wordAt mem hlast]
      rfl⟩
  exact hrun

/-- The lowest limb of a number. -/
theorem mload_lowest (mem : Memory) (nLimbs basePtr : Word) (hn : 0 < nLimbs.toNat)
    (hptr : basePtr.toNat + 32 * nLimbs.toNat < 2 ^ 256) :
    (mload mem (add basePtr (shl 5 (sub nLimbs 1)))).toNat =
      numAt mem basePtr.toNat nLimbs.toNat % 2 ^ 256 := by
  obtain ⟨n, hn'⟩ : ∃ n, nLimbs.toNat = n + 1 := ⟨nLimbs.toNat - 1, by omega⟩
  rw [mload_eq_wordAt mem (toNat_lowestPtr hn hptr), hn', numAt_succ, Nat.add_sub_cancel,
    Nat.mul_add_mod_self_right, Nat.mod_eq_of_lt (word_lt _)]

theorem bigUIntModTwo_ne_zero (mem : Memory) (nLimbs basePtr : Word) (hn : 0 < nLimbs.toNat)
    (hptr : basePtr.toNat + 32 * nLimbs.toNat < 2 ^ 256) :
    bigUIntModTwo mem nLimbs basePtr ≠ 0 ↔ numAt mem basePtr.toNat nLimbs.toNat % 2 = 1 := by
  have hlimb := mload_lowest mem nLimbs basePtr hn hptr
  have hmod : ∀ x : ℕ, x % 2 ^ 256 % 2 = x % 2 := fun x =>
    Nat.mod_mod_of_dvd x (by norm_num)
  rw [bigUIntModTwo, ne_eq, and_one_eq_zero, hlimb, hmod]
  omega

/-- A zero becomes a one. -/
theorem bigUIntInPlaceOrWith1_zero (mem : Memory) (basePtr nLimbs : Word)
    (hn : 0 < nLimbs.toNat) (hptr : basePtr.toNat + 32 * nLimbs.toNat < 2 ^ 256)
    (hzero : numAt mem basePtr.toNat nLimbs.toNat = 0) :
    numAt (bigUIntInPlaceOrWith1 mem basePtr nLimbs) basePtr.toNat nLimbs.toNat = 1 ∧
      Frame (region basePtr.toNat nLimbs.toNat) mem
        (bigUIntInPlaceOrWith1 mem basePtr nLimbs) := by
  have hlast := toNat_lowestPtr hn hptr
  have hlimb := mload_lowest mem nLimbs basePtr hn hptr
  obtain ⟨n, hn'⟩ : ∃ n, nLimbs.toNat = n + 1 := ⟨nLimbs.toNat - 1, by omega⟩
  rw [hzero, Nat.zero_mod, toNat_eq_zero] at hlimb
  rw [hn', Nat.add_sub_cancel] at hlast
  have hone : or (mload mem (add basePtr (shl 5 (sub nLimbs 1)))) 1 = 1 := by
    rw [hlimb]
    rfl
  have hupper : numAt mem basePtr.toNat n = 0 := by
    rw [numAt_eq_zero]
    intro b hb
    exact numAt_eq_zero.mp hzero b (region_subset le_rfl (by omega) hb)
  rw [bigUIntInPlaceOrWith1, hone, hn']
  refine ⟨?_, ?_⟩
  · rw [numAt_mstore_succ mem hlast, hupper, word_one, Nat.zero_mul]
  · exact (frame_mstore mem hlast 1).mono (region_subset (by omega) (by omega))

/-- The lower half of a buffer. -/
theorem toNat_bigUIntLowerHalfPtr (nLimbs basePtr : Word) {h : ℕ}
    (hn : nLimbs.toNat = 2 * h) (hptr : basePtr.toNat + 32 * nLimbs.toNat < 2 ^ 256) :
    (bigUIntLowerHalfPtr nLimbs basePtr).toNat = basePtr.toNat + 32 * h ∧
      (shr 1 nLimbs).toNat = h := by
  have h4 : (4 : Word).toNat = 4 := rfl
  have hshl : (shl 4 nLimbs).toNat = 32 * h := by
    rw [toNat_shl nLimbs (by decide), h4, hn]
    omega
  refine ⟨?_, ?_⟩
  · rw [bigUIntLowerHalfPtr, toNat_add_of_lt (by omega), hshl]
  · rw [toNat_shr_one, hn]
    omega

/-! ## Reductions -/

/-- The dividend has as many nonzero limbs as the divisor has limbs. -/
def EnoughLimbs (n dividend divisor : ℕ) : Prop :=
  (divisor.size + 255) / 256 ≤ nonzeroLimbs n dividend ∧
    shiftCount n dividend divisor < 2 ^ 256

instance (n dividend divisor : ℕ) : Decidable (EnoughLimbs n dividend divisor) :=
  inferInstanceAs (Decidable (_ ∧ _))

/-- The shift count of the call does not wrap, and none of its loops takes more than
`256 * nLimbs` rounds. -/
def CallBounded (mem : Memory)
    (dividendPtr divisorPtr tmpPtr1 tmpPtr2 nLimbs remPtr : Word) : Prop :=
  ∃ (modulusBitSize limbsToRem : Word) (mem' : Memory),
    Yields (fun fuel => bigUIntBitSize fuel mem divisorPtr nLimbs) modulusBitSize ∧
    Yields (fun fuel => bigIntLimbsWithoutZeros fuel mem dividendPtr nLimbs) limbsToRem ∧
    modulusBitSize.toNat ≤ 256 * limbsToRem.toNat ∧
    (sub (shl 8 limbsToRem) modulusBitSize).toNat =
      256 * limbsToRem.toNat - modulusBitSize.toNat ∧
    Within (256 * nLimbs.toNat) (fun fuel => bigUIntRem fuel mem dividendPtr divisorPtr tmpPtr1
      tmpPtr2 nLimbs limbsToRem modulusBitSize remPtr) mem'

section Calls

variable (mem : Memory) (dividendPtr divisorPtr tmpPtr1 tmpPtr2 nLimbs remPtr : Word)

/-- A call with enough limbs, whatever the numbers are. -/
theorem bigUIntRem_enough
    (hb : RemBuffers dividendPtr divisorPtr tmpPtr1 tmpPtr2 nLimbs remPtr)
    (hpos : 0 < numAt mem divisorPtr.toNat nLimbs.toNat)
    (henough : EnoughLimbs nLimbs.toNat (numAt mem dividendPtr.toNat nLimbs.toNat)
      (numAt mem divisorPtr.toNat nLimbs.toNat)) :
    ∃ (mem' : Memory) (r : ℕ),
      Within (256 * nLimbs.toNat) (fun fuel => bigUIntRem fuel mem dividendPtr divisorPtr
        tmpPtr1 tmpPtr2 nLimbs
        (BitVec.ofNat 256
          (nonzeroLimbs nLimbs.toNat (numAt mem dividendPtr.toNat nLimbs.toNat)))
        (BitVec.ofNat 256 (numAt mem divisorPtr.toNat nLimbs.toNat).size) remPtr) mem' ∧
      numAt mem' remPtr.toNat nLimbs.toNat =
        remChain (2 ^ 256) nLimbs.toNat
          (shiftCount nLimbs.toNat (numAt mem dividendPtr.toNat nLimbs.toNat)
            (numAt mem divisorPtr.toNat nLimbs.toNat)) r
          (numAt mem divisorPtr.toNat nLimbs.toNat *
              2 ^ shiftCount nLimbs.toNat (numAt mem dividendPtr.toNat nLimbs.toNat)
                (numAt mem divisorPtr.toNat nLimbs.toNat) +
            overReadBits (remStart mem dividendPtr tmpPtr1 tmpPtr2 nLimbs remPtr)
                (BitVec.ofNat 256 (shiftCount nLimbs.toNat
                  (numAt mem dividendPtr.toNat nLimbs.toNat)
                  (numAt mem divisorPtr.toNat nLimbs.toNat))) divisorPtr nLimbs tmpPtr1 *
              2 ^ (256 * (shiftCount nLimbs.toNat (numAt mem dividendPtr.toNat nLimbs.toNat)
                (numAt mem divisorPtr.toNat nLimbs.toNat) / 256))) ∧
      ((behindTmp mem dividendPtr tmpPtr1 tmpPtr2 nLimbs remPtr = 0 ∨
          Disjoint (region (tmpPtr1.toNat + 32 * nLimbs.toNat) 1)
            (region remPtr.toNat nLimbs.toNat)) →
        r = numAt mem dividendPtr.toNat nLimbs.toNat) ∧
      Frame (region tmpPtr1.toNat (nLimbs.toNat + 1) ∪ (region tmpPtr2.toNat nLimbs.toNat ∪
        region remPtr.toNat nLimbs.toNat)) mem mem' ∧
      (behindTmp mem dividendPtr tmpPtr1 tmpPtr2 nLimbs remPtr = 0 →
        Frame (region tmpPtr1.toNat nLimbs.toNat ∪ (region tmpPtr2.toNat nLimbs.toNat ∪
          region remPtr.toNat nLimbs.toNat)) mem mem') := by
  obtain ⟨hlimbs, hword⟩ := henough
  have hcount : (numAt mem divisorPtr.toNat nLimbs.toNat).size ≤
      256 * nonzeroLimbs nLimbs.toNat (numAt mem dividendPtr.toNat nLimbs.toNat) := by omega
  have hn : 0 < nLimbs.toNat := by
    by_contra hzero
    have hnone : nLimbs.toNat = 0 := by omega
    rw [hnone, numAt_none] at hpos
    omega
  have hbd := toNat_shiftCount hcount hword
  obtain ⟨bd, hbdDef⟩ : ∃ bd, bd = sub
      (shl 8 (BitVec.ofNat 256
        (nonzeroLimbs nLimbs.toNat (numAt mem dividendPtr.toNat nLimbs.toNat))))
      (BitVec.ofNat 256 (numAt mem divisorPtr.toNat nLimbs.toNat).size) := ⟨_, rfl⟩
  rw [← hbdDef] at hbd
  have hbd' : bd.toNat = shiftCount nLimbs.toNat (numAt mem dividendPtr.toNat nLimbs.toNat)
      (numAt mem divisorPtr.toNat nLimbs.toNat) := hbd
  have hlt := shiftCount_lt (numAt mem dividendPtr.toNat nLimbs.toNat) hpos hn
  have hfit := mul_pow_shiftCount_lt hcount
  obtain ⟨mem', r, hrun, hvalue, hr, hframe, hquiet⟩ := bigUIntRem_within mem dividendPtr
    divisorPtr tmpPtr1 tmpPtr2 nLimbs remPtr hb _ _ bd hbdDef (by omega)
    (show nLimbs.toNat < 256 * nLimbs.toNat by omega) (by omega)
  have hofNat : BitVec.ofNat 256 (shiftCount nLimbs.toNat
      (numAt mem dividendPtr.toNat nLimbs.toNat)
      (numAt mem divisorPtr.toNat nLimbs.toNat)) = bd := by
    refine word_ext ?_
    rw [toNat_ofNat_of_lt hword, hbd']
  refine ⟨mem', r, hrun, ?_, fun h => hr (Or.inr h), hframe, fun h => hquiet (Or.inr h)⟩
  rw [hvalue, hofNat, hbd', Nat.mod_eq_of_lt hfit]

/-- A call is bounded if and only if the dividend has enough limbs. -/
theorem callBounded_iff
    (hb : RemBuffers dividendPtr divisorPtr tmpPtr1 tmpPtr2 nLimbs remPtr)
    (hpos : 0 < numAt mem divisorPtr.toNat nLimbs.toNat)
    (hsize : (numAt mem divisorPtr.toNat nLimbs.toNat).size < 2 ^ 256) :
    CallBounded mem dividendPtr divisorPtr tmpPtr1 tmpPtr2 nLimbs remPtr ↔
      EnoughLimbs nLimbs.toNat (numAt mem dividendPtr.toNat nLimbs.toNat)
        (numAt mem divisorPtr.toNat nLimbs.toNat) := by
  have hfits := hb.fits
  simp only [List.mem_cons, List.not_mem_nil, or_false, forall_eq_or_imp, forall_eq] at hfits
  have hbits := bigUIntBitSize_yields mem divisorPtr nLimbs hfits.2.1
  have hlimbs := (bigIntLimbsWithoutZeros_within mem dividendPtr nLimbs hfits.1
    (Nat.lt_succ_self _)).yields
  have hk := nonzeroLimbs_le nLimbs.toNat (numAt mem dividendPtr.toNat nLimbs.toNat)
  have hn := word_lt nLimbs
  have hkWord := toNat_ofNat_of_lt
    (n := nonzeroLimbs nLimbs.toNat (numAt mem dividendPtr.toNat nLimbs.toNat)) (by omega)
  have hmWord := toNat_ofNat_of_lt hsize
  constructor
  · rintro ⟨size, limbs, mem', hsize', hlimbs', hle, hsub, -⟩
    rw [hsize'.unique hbits, hlimbs'.unique hlimbs, hkWord, hmWord] at hle hsub
    refine ⟨by omega, ?_⟩
    rw [shiftCount, ← hsub]
    exact word_lt _
  · intro henough
    obtain ⟨mem', r, hrun, -⟩ := bigUIntRem_enough mem dividendPtr divisorPtr tmpPtr1 tmpPtr2
      nLimbs remPtr hb hpos henough
    obtain ⟨hcount, hword⟩ := henough
    refine ⟨_, _, mem', hbits, hlimbs, ?_, ?_, hrun⟩
    · rw [hkWord, hmWord]
      omega
    · rw [hkWord, hmWord]
      exact toNat_shiftCount (by omega) hword

end Calls

/-! ## The buffers of the exponentiation -/

/-- The buffers one behind the other, with numbers in the lower halves. -/
structure Ready (d : Operands) (o h : ℕ) : Prop where
  half_pos : 0 < h
  nLimbs : d.nLimbs.toNat = 2 * h
  basePtr : d.basePtr.toNat = o
  exponentPtr : d.exponentPtr.toNat = o + 32 * (2 * h)
  modulusPtr : d.modulusPtr.toNat = o + 32 * (4 * h)
  scratchBuf1Ptr : d.scratchBuf1Ptr.toNat = o + 32 * (6 * h)
  scratchBuf2Ptr : d.scratchBuf2Ptr.toNat = o + 32 * (8 * h)
  scratchBuf3Ptr : d.scratchBuf3Ptr.toNat = o + 32 * (10 * h)
  resultPtr : d.resultPtr.toNat = o + 32 * (12 * h)
  fits : o + 32 * (14 * h) < 2 ^ 256
  exponent_lt : d.value d.exponentPtr < 2 ^ (256 * h)
  modulus_lt : d.value d.modulusPtr < 2 ^ (256 * h)
  base_lt : d.value d.basePtr < 2 ^ (256 * h)
  result_zero : d.value d.resultPtr = 0

/-- The decoded operands are ready if there is a limb at all. -/
theorem Decoded.ready {cd : Calldata} {baseLen expLen modLen : Word} {d : Operands}
    (hd : Decoded cd baseLen expLen modLen d) (hfits : LayoutFits baseLen expLen modLen)
    (hpos : 0 < maxLimbs baseLen expLen modLen) :
    Ready d (packedEnd baseLen expLen modLen) (maxLimbs baseLen expLen modLen) := by
  obtain ⟨hn, hlayout, -, hbase, hexponent, hmodulus, -, -, -, -, hresult⟩ := hd
  rw [hn] at hlayout
  simp only [Operands.buffers, List.map_cons, List.map_nil] at hlayout
  have hrange : (List.range 7).map (fun j => packedEnd baseLen expLen modLen +
      32 * (j * (2 * maxLimbs baseLen expLen modLen))) =
      [packedEnd baseLen expLen modLen + 32 * (0 * (2 * maxLimbs baseLen expLen modLen)),
        packedEnd baseLen expLen modLen + 32 * (1 * (2 * maxLimbs baseLen expLen modLen)),
        packedEnd baseLen expLen modLen + 32 * (2 * (2 * maxLimbs baseLen expLen modLen)),
        packedEnd baseLen expLen modLen + 32 * (3 * (2 * maxLimbs baseLen expLen modLen)),
        packedEnd baseLen expLen modLen + 32 * (4 * (2 * maxLimbs baseLen expLen modLen)),
        packedEnd baseLen expLen modLen + 32 * (5 * (2 * maxLimbs baseLen expLen modLen)),
        packedEnd baseLen expLen modLen + 32 * (6 * (2 * maxLimbs baseLen expLen modLen))] :=
    rfl
  rw [hrange] at hlayout
  simp only [List.cons.injEq, and_true] at hlayout
  obtain ⟨h₀, h₁, h₂, h₃, h₄, h₅, h₆⟩ := hlayout
  rw [LayoutFits] at hfits
  have hle : (bigIntLimbs baseLen).1.toNat ≤ maxLimbs baseLen expLen modLen ∧
      (bigIntLimbs expLen).1.toNat ≤ maxLimbs baseLen expLen modLen ∧
      (bigIntLimbs modLen).1.toNat ≤ maxLimbs baseLen expLen modLen :=
    ⟨le_max_of_le_left (le_max_left _ _), le_max_of_le_left (le_max_right _ _),
      le_max_right _ _⟩
  refine ⟨hpos, hn, by omega, by omega, by omega, by omega, by omega, by omega, by omega,
    by omega, ?_, ?_, ?_, hresult⟩
  · rw [hexponent]
    exact callValue_lt_of_limbs cd _ expLen hle.2.1
  · rw [hmodulus]
    exact callValue_lt_of_limbs cd _ modLen hle.2.2
  · rw [hbase]
    exact callValue_lt_of_limbs cd _ baseLen hle.1

/-- Five of the seven buffers that lie one behind the other are those of a remainder. -/
theorem remBuffers_of_slots
    {dividendPtr divisorPtr tmpPtr1 tmpPtr2 nLimbs remPtr : Word} {o : ℕ} {l : List ℕ}
    (hfits : o + 32 * (7 * nLimbs.toNat) < 2 ^ 256)
    (hslots : [dividendPtr, divisorPtr, tmpPtr1, tmpPtr2, remPtr].map BitVec.toNat =
      l.map fun j => o + 32 * (j * nLimbs.toNat))
    (hlt : ∀ j ∈ l, j < 7) (hnodup : l.Nodup) :
    RemBuffers dividendPtr divisorPtr tmpPtr1 tmpPtr2 nLimbs remPtr := by
  refine ⟨fun p hp => ?_, ?_⟩
  · have hmem := List.mem_map_of_mem (f := BitVec.toNat) hp
    rw [hslots] at hmem
    obtain ⟨j, hj, hpj⟩ := List.mem_map.mp hmem
    have hle : j * nLimbs.toNat ≤ 6 * nLimbs.toNat :=
      Nat.mul_le_mul_right _ (Nat.le_of_lt_succ (hlt j hj))
    rw [← hpj]
    omega
  · have hpairs := pairwise_disjoint_region o nLimbs.toNat hnodup
    rw [← hslots, List.pairwise_map] at hpairs
    exact hpairs

namespace Ready

variable {d : Operands} {o h : ℕ}

theorem fits_slots (L : Ready d o h) : o + 32 * (7 * d.nLimbs.toNat) < 2 ^ 256 := by
  have hfits := L.fits
  rw [L.nLimbs]
  omega

/-- The buffers of the first reduction. -/
theorem firstBuffers (L : Ready d o h) :
    RemBuffers d.basePtr d.modulusPtr d.scratchBuf1Ptr d.scratchBuf2Ptr d.nLimbs
      d.scratchBuf3Ptr := by
  refine remBuffers_of_slots L.fits_slots (l := [0, 2, 3, 4, 5]) ?_ (by decide) (by decide)
  obtain ⟨-, hn, h₀, h₁, h₂, h₃, h₄, h₅, h₆, -, -, -, -, -⟩ := L
  simp only [List.map_cons, List.map_nil, List.cons.injEq, and_true]
  omega

/-- The buffers of the reduction of the result. -/
theorem resultBuffers (L : Ready d o h) :
    RemBuffers d.scratchBuf1Ptr d.modulusPtr d.basePtr d.scratchBuf2Ptr d.nLimbs
      d.resultPtr := by
  refine remBuffers_of_slots L.fits_slots (l := [3, 2, 0, 4, 6]) ?_ (by decide) (by decide)
  obtain ⟨-, hn, h₀, h₁, h₂, h₃, h₄, h₅, h₆, -, -, -, -, -⟩ := L
  simp only [List.map_cons, List.map_nil, List.cons.injEq, and_true]
  omega

/-- The buffers of the reduction of the square. -/
theorem squareBuffers (L : Ready d o h) :
    RemBuffers d.scratchBuf2Ptr d.modulusPtr d.scratchBuf1Ptr d.basePtr d.nLimbs
      d.scratchBuf3Ptr := by
  refine remBuffers_of_slots L.fits_slots (l := [4, 2, 3, 0, 5]) ?_ (by decide) (by decide)
  obtain ⟨-, hn, h₀, h₁, h₂, h₃, h₄, h₅, h₆, -, -, -, -, -⟩ := L
  simp only [List.map_cons, List.map_nil, List.cons.injEq, and_true]
  omega

end Ready

/-! ## Products and their reductions -/

/-- What a reduction leaves, with the bits that the shift takes in. -/
def remResult (mem : Memory)
    (dividendPtr divisorPtr tmpPtr1 tmpPtr2 nLimbs remPtr : Word) : ℕ :=
  let dividend := numAt mem dividendPtr.toNat nLimbs.toNat
  let divisor := numAt mem divisorPtr.toNat nLimbs.toNat
  let bd := shiftCount nLimbs.toNat dividend divisor
  remChain (2 ^ 256) nLimbs.toNat bd dividend
    (divisor * 2 ^ bd +
      overReadBits (remStart mem dividendPtr tmpPtr1 tmpPtr2 nLimbs remPtr)
          (BitVec.ofNat 256 bd) divisorPtr nLimbs tmpPtr1 *
        2 ^ (256 * (bd / 256)))

/-- A product of lower halves and its reduction. -/
def multiplyReduce (fuel : ℕ) (mem : Memory) (xPtr yPtr nLimbs productPtr modulusPtr tmpPtr1
    tmpPtr2 modulusBitSize remPtr : Word) : Option Memory := do
  let mem ← bigUIntMul fuel mem xPtr yPtr (shr 1 nLimbs) productPtr
  let limbsToRem ← bigIntLimbsWithoutZeros fuel mem productPtr nLimbs
  bigUIntRem fuel mem productPtr modulusPtr tmpPtr1 tmpPtr2 nLimbs limbsToRem modulusBitSize
    remPtr

section Products

variable (mem : Memory) (xPtr yPtr nLimbs productPtr modulusPtr tmpPtr1 tmpPtr2 remPtr : Word)

theorem multiplyReduce_yields {h : ℕ} (hn : nLimbs.toNat = 2 * h)
    (hb : RemBuffers productPtr modulusPtr tmpPtr1 tmpPtr2 nLimbs remPtr)
    (hx : xPtr.toNat + 32 * h < 2 ^ 256) (hy : yPtr.toNat + 32 * h < 2 ^ 256)
    (hdx : Disjoint (region xPtr.toNat h) (region productPtr.toNat (2 * h)))
    (hdy : Disjoint (region yPtr.toNat h) (region productPtr.toNat (2 * h)))
    (hpos : 0 < numAt mem modulusPtr.toNat (2 * h))
    (henough : EnoughLimbs (2 * h) (numAt mem xPtr.toNat h * numAt mem yPtr.toNat h)
      (numAt mem modulusPtr.toNat (2 * h)))
    (hquiet : ∀ product : Memory, Frame (region productPtr.toNat (2 * h)) mem product →
      behindTmp product productPtr tmpPtr1 tmpPtr2 nLimbs remPtr = 0 ∨
        Disjoint (region (tmpPtr1.toNat + 32 * nLimbs.toNat) 1)
          (region remPtr.toNat nLimbs.toNat)) :
    ∃ product mem' : Memory,
      Yields (fun fuel => bigUIntMul fuel mem xPtr yPtr (shr 1 nLimbs) productPtr) product ∧
      numAt product productPtr.toNat (2 * h) =
        numAt mem xPtr.toNat h * numAt mem yPtr.toNat h ∧
      Frame (region productPtr.toNat (2 * h)) mem product ∧
      numAt product modulusPtr.toNat (2 * h) = numAt mem modulusPtr.toNat (2 * h) ∧
      Within (256 * nLimbs.toNat) (fun fuel => bigUIntRem fuel product productPtr modulusPtr
        tmpPtr1 tmpPtr2 nLimbs
        (BitVec.ofNat 256 (nonzeroLimbs (2 * h)
          (numAt mem xPtr.toNat h * numAt mem yPtr.toNat h)))
        (BitVec.ofNat 256 (numAt mem modulusPtr.toNat (2 * h)).size) remPtr) mem' ∧
      Yields (fun fuel => multiplyReduce fuel mem xPtr yPtr nLimbs productPtr modulusPtr tmpPtr1
        tmpPtr2 (BitVec.ofNat 256 (numAt mem modulusPtr.toNat (2 * h)).size) remPtr) mem' ∧
      numAt mem' remPtr.toNat (2 * h) =
        remResult product productPtr modulusPtr tmpPtr1 tmpPtr2 nLimbs remPtr ∧
      Frame (region tmpPtr1.toNat (2 * h + 1) ∪ (region tmpPtr2.toNat (2 * h) ∪
        region remPtr.toNat (2 * h))) product mem' ∧
      (behindTmp product productPtr tmpPtr1 tmpPtr2 nLimbs remPtr = 0 →
        Frame (region tmpPtr1.toNat (2 * h) ∪ (region tmpPtr2.toNat (2 * h) ∪
          region remPtr.toNat (2 * h))) product mem') := by
  have hfits := hb.fits
  simp only [List.mem_cons, List.not_mem_nil, or_false, forall_eq_or_imp, forall_eq] at hfits
  have hdisjoint := hb.disjoint
  simp only [List.pairwise_cons, List.mem_cons, List.not_mem_nil, or_false, forall_eq_or_imp,
    forall_eq, IsEmpty.forall_iff, implies_true, List.Pairwise.nil, and_true, hn] at hdisjoint
  have hhalf : (shr 1 nLimbs).toNat = h := by
    rw [toNat_shr_one, hn]
    omega
  obtain ⟨product, hmul, hproduct, hframe⟩ := bigUIntMul_within mem xPtr yPtr (shr 1 nLimbs)
    productPtr (by omega) (by omega) (by omega) (by rw [hhalf]; exact hdx)
    (by rw [hhalf]; exact hdy) (Nat.lt_succ_self _)
  rw [hhalf] at hproduct hframe
  have hmodulus : numAt product modulusPtr.toNat (2 * h) = numAt mem modulusPtr.toNat (2 * h) :=
    hframe.numAt_eq hdisjoint.1.1.symm
  have hlimbs := bigIntLimbsWithoutZeros_within product productPtr nLimbs hfits.1
    (Nat.lt_succ_self _)
  obtain ⟨mem', r, hrun, hvalue, hr, hframe', hquiet'⟩ := bigUIntRem_enough product productPtr
    modulusPtr tmpPtr1 tmpPtr2 nLimbs remPtr hb (by rw [hn, hmodulus]; exact hpos)
    (by rw [hn, hproduct, hmodulus]; exact henough)
  have hdividend := hr (hquiet product hframe)
  subst hdividend
  rw [hn] at hframe' hquiet' hlimbs
  rw [hn, hproduct] at hrun
  rw [hproduct] at hlimbs
  rw [hmodulus] at hrun
  refine ⟨product, mem', hmul.yields, hproduct, hframe, hmodulus, ?_, ?_, ?_, hframe', hquiet'⟩
  · rw [hn]
    exact hrun
  · exact hmul.yields.bind (hlimbs.yields.bind hrun.yields)
  · rw [hn] at hvalue
    rw [hvalue, remResult, hn]

end Products

end EraPrecompiles.ModExp
