import EraPrecompiles.Arith.Bits
import EraPrecompiles.ModExp.PowerLoop

/-!
# Exponentiations that are right

A reduction of a run stores the remainder if it is safe in itself (`ReductionSafe`) and if
the shift of the modulus takes in no foreign bits.  The word behind the modulus is the
first word of a scratch buffer: a product less than the square of the modulus, or the
highest limb of the shifted modulus itself.  The second does harm only in the square of a
base, with all limbs of the square used (`ShiftQuiet`).

`PowerSafe` puts these conditions on the numbers `base ^ 2 ^ i % modulus` and
`base ^ (exponent % 2 ^ i) % modulus`.  Under them these are the numbers in the buffers
before round `i` (`PowerRun.values`), so that the result is the power.

That the shift counts of a run do not wrap asks for less: enough limbs in the dividends made
of these numbers (`DividendsMeet`).  Only the reductions whose remainders are used again have
to be right (`RemaindersRight`).
-/

namespace EraPrecompiles.ModExp

/-! ## The bits that the shift takes in -/

theorem nonzeroLimbs_le_of_lt (n x : ℕ) (hx : x < 2 ^ (256 * n)) :
    nonzeroLimbs (n + 1) x ≤ n := by
  induction n generalizing x with
  | zero =>
    have hzero : x = 0 := by
      rw [Nat.mul_zero, pow_zero] at hx
      omega
    subst hzero
    decide
  | succ n ih =>
    have hdiv : x / 2 ^ 256 < 2 ^ (256 * n) := by
      rw [Nat.mul_succ, pow_add] at hx
      exact Nat.div_lt_of_lt_mul (by rw [Nat.mul_comm]; exact hx)
    have hle := ih (x / 2 ^ 256) hdiv
    rw [nonzeroLimbs]
    split
    · omega
    · omega

/-- The shifted divisor has a highest limb that no lower limb is computed from. -/
def ShiftQuiet (n dividend divisor : ℕ) : Prop :=
  nonzeroLimbs n dividend < n ∨ divisor.size % 256 = 0 ∨ divisor.size ≤ 256

instance (n dividend divisor : ℕ) : Decidable (ShiftQuiet n dividend divisor) :=
  inferInstanceAs (Decidable (_ ∨ _))

/-- The product of two numbers below the divisor leaves the highest bits of its buffer
free. -/
theorem product_top_eq_zero {h dividend divisor : ℕ} (hh : 0 < h)
    (hdivisor : divisor < 2 ^ (256 * h)) (hdividend : dividend < divisor * divisor)
    (hcount : divisor.size ≤ 256 * nonzeroLimbs (2 * h) dividend) :
    dividend / 2 ^ (256 * (2 * h - 1)) /
      2 ^ (256 - shiftCount (2 * h) dividend divisor % 256) = 0 := by
  have hsize : divisor.size ≤ 256 * h := Nat.size_le.mpr hdivisor
  have hlt : divisor < 2 ^ divisor.size := Nat.lt_size_self divisor
  have hsquare : dividend < 2 ^ (divisor.size + divisor.size) := by
    rw [pow_add]
    exact hdividend.trans (Nat.mul_lt_mul'' hlt hlt)
  -- the size and the shift within a limb add up to whole limbs
  have hround : divisor.size + shiftCount (2 * h) dividend divisor % 256 ≤ 256 * h := by
    rw [shiftCount]
    omega
  rw [Nat.div_div_eq_div_mul, ← pow_add]
  refine Nat.div_eq_of_lt (hsquare.trans_le (Nat.pow_le_pow_right (by norm_num) ?_))
  omega

section Reduction

variable {mem : Memory} {dividendPtr divisorPtr tmpPtr1 tmpPtr2 nLimbs remPtr : Word}
  {n dividend divisor : ℕ}

/-- A safe reduction without foreign bits leaves the remainder. -/
theorem remResult_eq (hn : nLimbs.toNat = n) (hdividend : numAt mem dividendPtr.toNat n = dividend)
    (hdivisor : numAt mem divisorPtr.toNat n = divisor) (hpos : 0 < divisor)
    (hsafe : ReductionSafe n dividend divisor)
    (hbits : overReadBits (remStart mem dividendPtr tmpPtr1 tmpPtr2 nLimbs remPtr)
      (BitVec.ofNat 256 (shiftCount n dividend divisor)) divisorPtr nLimbs tmpPtr1 = 0) :
    remResult mem dividendPtr divisorPtr tmpPtr1 tmpPtr2 nLimbs remPtr = dividend % divisor := by
  have hlt : dividend < 2 ^ (256 * n) := by
    rw [← hdividend]
    exact numAt_lt mem _ n
  rw [remResult, hn, hdividend, hdivisor, hbits, Nat.zero_mul, Nat.add_zero]
  exact hsafe.remChain_eq hpos hlt

/-- The word behind the divisor is the highest word of the dividend. -/
theorem overReadBits_dividend {h : ℕ} (hn : nLimbs.toNat = 2 * h) (hh : 0 < h)
    (hb : RemBuffers dividendPtr divisorPtr tmpPtr1 tmpPtr2 nLimbs remPtr)
    (hbehind : divisorPtr.toNat + 32 * nLimbs.toNat = dividendPtr.toNat)
    (hdividend : numAt mem dividendPtr.toNat (2 * h) = dividend)
    (hdivisor : divisor < 2 ^ (256 * h)) (hlt : dividend < divisor * divisor)
    (hsafe : ReductionSafe (2 * h) dividend divisor) :
    overReadBits (remStart mem dividendPtr tmpPtr1 tmpPtr2 nLimbs remPtr)
      (BitVec.ofNat 256 (shiftCount (2 * h) dividend divisor)) divisorPtr nLimbs tmpPtr1 = 0 := by
  have hdisjoint := hb.disjoint
  simp only [List.pairwise_cons, List.mem_cons, List.not_mem_nil, or_false, forall_eq_or_imp,
    forall_eq, IsEmpty.forall_iff, implies_true, List.Pairwise.nil, and_true, hn] at hdisjoint
  obtain ⟨⟨-, hd₁, hd₂, hdr⟩, -, -, -⟩ := hdisjoint
  have hfits := hb.fits
  simp only [List.mem_cons, List.not_mem_nil, or_false, forall_eq_or_imp, forall_eq] at hfits
  have hfirst : region dividendPtr.toNat 1 ⊆ region dividendPtr.toNat (2 * h) :=
    region_subset le_rfl (by omega)
  have hframe : Frame (region tmpPtr1.toNat (2 * h) ∪ (region tmpPtr2.toNat (2 * h) ∪
      region remPtr.toNat (2 * h))) mem
      (remStart mem dividendPtr tmpPtr1 tmpPtr2 nLimbs remPtr) := by
    rw [← hn]
    exact frame_remStart
  have hstart : wordAt (remStart mem dividendPtr tmpPtr1 tmpPtr2 nLimbs remPtr)
      dividendPtr.toNat = wordAt mem dividendPtr.toNat :=
    hframe.wordAt_eq (Set.disjoint_of_subset_left hfirst (Set.disjoint_union_right.mpr
      ⟨hd₁, Set.disjoint_union_right.mpr ⟨hd₂, hdr⟩⟩))
  have hread : overRead (remStart mem dividendPtr tmpPtr1 tmpPtr2 nLimbs remPtr)
      (BitVec.ofNat 256 (shiftCount (2 * h) dividend divisor)) divisorPtr nLimbs tmpPtr1 =
      wordAt mem dividendPtr.toNat := by
    rw [overRead, mload_eq_wordAt _ (toNat_limbPtr hfits.2.1), hbehind, ← hstart]
    split
    · have hmore : region tmpPtr1.toNat 1 ⊆ region tmpPtr1.toNat (2 * h) :=
        region_subset le_rfl (by omega)
      exact (frame_mstore _ rfl _).wordAt_eq
        (Set.disjoint_of_subset_left hfirst (Set.disjoint_of_subset_right hmore hd₁))
    · rfl
  have htop : (wordAt mem dividendPtr.toNat).toNat = dividend / 2 ^ (256 * (2 * h - 1)) := by
    have hsplit : 2 * h = 1 + (2 * h - 1) := by omega
    have hdiv := numAt_div mem dividendPtr.toNat 1 (2 * h - 1)
    rw [← hsplit, hdividend] at hdiv
    rw [toNat_wordAt_eq_numAt, hdiv]
  rw [overReadBits, hread, htop, toNat_ofNat_of_lt hsafe.word]
  exact product_top_eq_zero hh hdivisor hlt hsafe.count

/-- The word behind the divisor is the first word of the cleared buffer, into which the
shifted divisor goes. -/
theorem overReadBits_cleared (hn : nLimbs.toNat = n) (hpos : 0 < n)
    (hb : RemBuffers dividendPtr divisorPtr tmpPtr1 tmpPtr2 nLimbs remPtr)
    (hbehind : divisorPtr.toNat + 32 * nLimbs.toNat = tmpPtr1.toNat)
    (hdivisor : numAt mem divisorPtr.toNat n = divisor)
    (hsafe : ReductionSafe n dividend divisor) (hquiet : ShiftQuiet n dividend divisor) :
    overReadBits (remStart mem dividendPtr tmpPtr1 tmpPtr2 nLimbs remPtr)
      (BitVec.ofNat 256 (shiftCount n dividend divisor)) divisorPtr nLimbs tmpPtr1 = 0 := by
  have hbd := toNat_ofNat_of_lt hsafe.word
  by_cases hlimbs : shiftCount n dividend divisor % 256 = 0
  · exact overReadBits_eq_zero _ _ _ _ _ (by rw [hbd]; exact hlimbs)
  obtain ⟨-, hsame, hcleared⟩ := @numAt_remStart mem _ _ _ _ _ _ hb
  have hfits := hb.fits
  simp only [List.mem_cons, List.not_mem_nil, or_false, forall_eq_or_imp, forall_eq] at hfits
  rw [hn] at hsame hcleared
  have hcount := hsafe.count
  have hle := nonzeroLimbs_le n dividend
  have hzero : wordAt (remStart mem dividendPtr tmpPtr1 tmpPtr2 nLimbs remPtr)
      tmpPtr1.toNat = 0 := by
    have hsplit : n = 1 + (n - 1) := by omega
    rw [hsplit, numAt_add, Nat.add_eq_zero_iff, Nat.mul_eq_zero, ← toNat_wordAt_eq_numAt]
      at hcleared
    rcases hcleared.1 with hword | hpow
    · exact toNat_eq_zero.mp hword
    · exact absurd hpow (by positivity)
  have hread : overRead (remStart mem dividendPtr tmpPtr1 tmpPtr2 nLimbs remPtr)
      (BitVec.ofNat 256 (shiftCount n dividend divisor)) divisorPtr nLimbs tmpPtr1 = 0 := by
    rw [overRead, mload_eq_wordAt _ (toNat_limbPtr hfits.2.1), hbehind, hbd, hn]
    by_cases htwo : 2 ≤ n - shiftCount n dividend divisor / 256
    · rw [if_pos htwo, wordAt_mstore_self _ rfl, shiftedTop, hn, hbd, hsame, hdivisor,
        Nat.mod_eq_of_lt (mul_pow_shiftCount_lt hcount)]
      -- the shifted divisor has fewer limbs than the buffer
      have hfewer : nonzeroLimbs n dividend < n := by
        rcases hquiet with hfewer | hwhole | hone
        · exact hfewer
        · rw [shiftCount] at hlimbs
          omega
        · rw [shiftCount] at htwo
          omega
      have hlt : divisor * 2 ^ shiftCount n dividend divisor < 2 ^ (256 * (n - 1)) := by
        have hsize : divisor < 2 ^ divisor.size := Nat.lt_size_self divisor
        have hmul : divisor * 2 ^ shiftCount n dividend divisor <
            2 ^ divisor.size * 2 ^ shiftCount n dividend divisor :=
          Nat.mul_lt_mul_of_pos_right hsize (by positivity)
        refine hmul.trans_le ?_
        rw [← pow_add, shiftCount]
        exact Nat.pow_le_pow_right (by norm_num) (by omega)
      rw [Nat.div_eq_of_lt hlt]
      rfl
    · rw [if_neg htwo, hzero]
  rw [overReadBits, hread]
  exact Nat.zero_div _

end Reduction

/-! ## The numbers of a run -/

/-- The base before round `i`. -/
def basePower (B M i : ℕ) : ℕ :=
  B ^ 2 ^ i % M

/-- The result before round `i`. -/
def resultPower (B E M i : ℕ) : ℕ :=
  B ^ (E % 2 ^ i) % M

/-- The reductions of a run are safe.  What the last square leaves is not used, so it only
has to come to its end. -/
structure PowerSafe (n B E M : ℕ) : Prop where
  first : ReductionSafe n B M
  result : ∀ i, i < E.size → E.testBit i = true →
    ReductionSafe n (resultPower B E M i * basePower B M i) M
  enough : ∀ i, i < E.size → EnoughLimbs n (basePower B M i * basePower B M i) M
  square : ∀ i, i + 1 < E.size →
    ReductionSafe n (basePower B M i * basePower B M i) M ∧
      ShiftQuiet n (basePower B M i * basePower B M i) M

theorem ReductionSafe.enough {n dividend divisor : ℕ} (h : ReductionSafe n dividend divisor) :
    EnoughLimbs n dividend divisor := by
  have hcount := h.count
  exact ⟨by omega, h.word⟩

/-- The products of round `i` have enough limbs. -/
structure RoundMeets (n B E M i : ℕ) : Prop where
  result : E.testBit i = true → EnoughLimbs n (resultPower B E M i * basePower B M i) M
  square : EnoughLimbs n (basePower B M i * basePower B M i) M

/-- The base and the products of all rounds have enough limbs. -/
structure DividendsMeet (n B E M : ℕ) : Prop where
  first : EnoughLimbs n B M
  round : ∀ i, i < E.size → RoundMeets n B E M i

/-- A reduction with enough limbs is safe, if a later dividend is made of its remainder. -/
structure RemaindersRight (n B E M : ℕ) : Prop where
  first : 0 < E.size → EnoughLimbs n B M → ReductionSafe n B M
  result : ∀ i, i + 1 < E.size → E.testBit i = true →
    EnoughLimbs n (resultPower B E M i * basePower B M i) M →
    ReductionSafe n (resultPower B E M i * basePower B M i) M
  square : ∀ i, i + 1 < E.size →
    EnoughLimbs n (basePower B M i * basePower B M i) M →
    ReductionSafe n (basePower B M i * basePower B M i) M ∧
      ShiftQuiet n (basePower B M i * basePower B M i) M

theorem PowerSafe.round {n B E M i : ℕ} (h : PowerSafe n B E M) (hi : i < E.size) :
    RoundMeets n B E M i :=
  ⟨fun hset => (h.result i hi hset).enough, h.enough i hi⟩

theorem basePower_succ (B M i : ℕ) :
    basePower B M i * basePower B M i % M = basePower B M (i + 1) := by
  rw [basePower, basePower, ← Nat.mul_mod, ← pow_add, pow_succ, Nat.mul_two]

theorem resultPower_succ_of_testBit {B E M i : ℕ} (hbit : E.testBit i = true) :
    resultPower B E M i * basePower B M i % M = resultPower B E M (i + 1) := by
  rw [resultPower, basePower, ← Nat.mul_mod, ← pow_add, resultPower, mod_two_pow_succ,
    if_pos hbit, Nat.add_comm]

theorem resultPower_succ_of_not_testBit {B E M i : ℕ} (hbit : ¬E.testBit i = true) :
    resultPower B E M (i + 1) = resultPower B E M i := by
  rw [resultPower, mod_two_pow_succ, if_neg hbit, Nat.zero_add, resultPower]

/-- The numbers in the buffers before round `i`. -/
structure RunValues (d : Operands) (h B E M i : ℕ) (mem : Memory) : Prop where
  modulus : numAt mem d.modulusPtr.toNat (2 * h) = M
  exponent : numAt mem d.exponentPtr.toNat (2 * h) = E / 2 ^ i
  base : i < E.size → numAt mem d.scratchBuf3Ptr.toNat (2 * h) = basePower B M i
  result : numAt mem d.resultPtr.toNat (2 * h) = resultPower B E M i

section Values

variable {d : Operands} {o h B E M i : ℕ} {mem : Memory}

theorem RunValues.inv (hv : RunValues d h B E M i mem) (hE : E < 2 ^ (256 * h)) :
    PowerInv d h M mem := by
  refine ⟨hv.modulus, ?_⟩
  rw [hv.exponent]
  exact (Nat.div_le_self E _).trans_lt hE

/-- The factors of a round. -/
theorem RunValues.lower_eq (L : Ready d o h) (hM : 0 < M) (hMlt : M < 2 ^ (256 * h))
    (hi : i < E.size) (hv : RunValues d h B E M i mem) :
    d.lower mem d.scratchBuf3Ptr = basePower B M i ∧
      d.lower mem d.resultPtr = resultPower B E M i := by
  have hhalf : d.nLimbs.toNat / 2 = h := by
    rw [L.nLimbs]
    omega
  have hbase := hv.base hi
  have hresult := hv.result
  have hbaseLt : basePower B M i < M := Nat.mod_lt _ hM
  have hresultLt : resultPower B E M i < M := Nat.mod_lt _ hM
  refine ⟨?_, ?_⟩
  · rw [Operands.lower, hhalf, numAt_lower (by omega), hbase]
  · rw [Operands.lower, hhalf, numAt_lower (by omega), hresult]

/-- The bit of the exponent that decides about the first part of a round. -/
theorem RunValues.testBit_iff (hv : RunValues d h B E M i mem) :
    E.testBit i = true ↔ numAt mem d.exponentPtr.toNat (2 * h) % 2 = 1 := by
  rw [hv.exponent, Nat.testBit_eq_decide_div_mod_eq, decide_eq_true_iff]

/-- The products in the memory before a round are those of the numbers. -/
theorem RunValues.stepMeets_iff (L : Ready d o h) (hM : 0 < M) (hMlt : M < 2 ^ (256 * h))
    (hi : i < E.size) (hv : RunValues d h B E M i mem) :
    StepMeets d mem ↔ RoundMeets (2 * h) B E M i := by
  obtain ⟨hbase, hresult⟩ := hv.lower_eq L hM hMlt hi
  have hbit := hv.testBit_iff
  constructor
  · rintro ⟨hproduct, hsquare⟩
    rw [L.nLimbs, hv.modulus, hbase, hresult] at hproduct
    rw [L.nLimbs, hv.modulus, hbase] at hsquare
    exact ⟨fun hset => hproduct (hbit.mp hset), hsquare⟩
  · rintro ⟨hproduct, hsquare⟩
    refine ⟨?_, ?_⟩
    · rw [L.nLimbs, hv.modulus, hbase, hresult]
      exact fun hodd => hproduct (hbit.mpr hodd)
    · rw [L.nLimbs, hv.modulus, hbase]
      exact hsquare

/-- The result after the first part of a round. -/
theorem RunValues.resultPart (L : Ready d o h) (hM : 0 < M) (hMlt : M < 2 ^ (256 * h))
    (hE : E < 2 ^ (256 * h)) (hi : i < E.size)
    (hsafe : E.testBit i = true →
      ReductionSafe (2 * h) (resultPower B E M i * basePower B M i) M)
    (hv : RunValues d h B E M i mem) {mem₁ : Memory}
    (hrun : Yields (fun fuel => resultPart d (BitVec.ofNat 256 M.size) fuel mem) mem₁) :
    numAt mem₁ d.resultPtr.toNat (2 * h) = resultPower B E M (i + 1) := by
  obtain ⟨hbase, hresult⟩ := hv.lower_eq L hM hMlt hi
  have hbit := hv.testBit_iff
  have hmeets : numAt mem d.exponentPtr.toNat (2 * h) % 2 = 1 →
      EnoughLimbs (2 * h) (d.lower mem d.resultPtr * d.lower mem d.scratchBuf3Ptr) M := by
    intro hodd
    rw [hbase, hresult]
    exact (hsafe (hbit.mpr hodd)).enough
  obtain ⟨mem₁', hrun', -, heven, hodd⟩ := resultPart_yields L hM (hv.inv hE) hmeets
  have hsame := hrun.unique hrun'
  subst hsame
  by_cases hset : E.testBit i = true
  · obtain ⟨product, hproduct, hframe, hvalue⟩ := hodd (hbit.mp hset)
    rw [hbase, hresult] at hproduct
    have hb := L.resultBuffers
    obtain ⟨hh, hn, h₀, h₁, h₂, h₃, h₄, h₅, h₆, hfits, -, -, -, -⟩ := L
    have hmodulus : numAt product d.modulusPtr.toNat (2 * h) = M := by
      rw [hframe.numAt_eq (disjoint_region (by omega)), hv.modulus]
    have hsafeStep := hsafe hset
    have hlt : resultPower B E M i * basePower B M i < M * M :=
      Nat.mul_lt_mul'' (Nat.mod_lt _ hM) (Nat.mod_lt _ hM)
    rw [hvalue, remResult_eq hn hproduct hmodulus hM hsafeStep
      (overReadBits_dividend hn hh hb (by omega) hproduct hMlt hlt hsafeStep),
      resultPower_succ_of_testBit hset]
  · rw [heven (mt hbit.mpr hset), hv.result, resultPower_succ_of_not_testBit hset]

/-- One round with right remainders.  The square of the last round is not used. -/
theorem RunValues.step (L : Ready d o h) (hM : 0 < M) (hMlt : M < 2 ^ (256 * h))
    (hE : E < 2 ^ (256 * h)) (hi : i < E.size)
    (hsafe : E.testBit i = true →
      ReductionSafe (2 * h) (resultPower B E M i * basePower B M i) M)
    (henough : EnoughLimbs (2 * h) (basePower B M i * basePower B M i) M)
    (hsquare : i + 1 < E.size →
      ReductionSafe (2 * h) (basePower B M i * basePower B M i) M ∧
        ShiftQuiet (2 * h) (basePower B M i * basePower B M i) M)
    (hv : RunValues d h B E M i mem) {mem' : Memory}
    (hrun : Yields (fun fuel => powerStep d (BitVec.ofNat 256 M.size) fuel mem) mem') :
    RunValues d h B E M (i + 1) mem' := by
  obtain ⟨mem₁, mem₂, product, mem₃, hrun₁, -, -, hexponent, hframe₂, hmodulus₂, -, hproduct,
    hframe₃, hrun₃, hvalue, hframe', hinv⟩ :=
    powerStep_yields L hM (hv.inv hE)
      ((hv.stepMeets_iff L hM hMlt hi).mpr ⟨fun hset => (hsafe hset).enough, henough⟩)
  have hsame := hrun.unique hrun₃
  subst hsame
  have hresult := hv.resultPart L hM hMlt hE hi hsafe hrun₁
  obtain ⟨hbase, -⟩ := hv.lower_eq L hM hMlt hi
  rw [hbase] at hproduct
  have hb := L.squareBuffers
  have hready := L
  obtain ⟨hh, hn, h₀, h₁, h₂, h₃, h₄, h₅, h₆, hfits, -, -, -, -⟩ := L
  refine ⟨hinv.modulus, ?_, fun hnext => ?_, ?_⟩
  · rw [hframe'.numAt_eq (hready.disjoint_squareRegion (by omega)), hexponent, hv.exponent,
      Nat.div_div_eq_div_mul, pow_succ]
  · have hmodulus : numAt product d.modulusPtr.toNat (2 * h) = M := by
      rw [hframe₃.numAt_eq (disjoint_region (by omega)), hmodulus₂]
    obtain ⟨hsafeStep, hquiet⟩ := hsquare hnext
    rw [hvalue, remResult_eq hn hproduct hmodulus hM hsafeStep
      (overReadBits_cleared hn (by omega) hb (by omega) hmodulus hsafeStep hquiet),
      basePower_succ]
  · rw [hframe'.numAt_eq (hready.disjoint_squareRegion (by omega)),
      hframe₂.numAt_eq (disjoint_region (by omega)), hresult]

end Values

section Run

variable {d : Operands} {o h : ℕ}

/-- The numbers after the first reduction. -/
theorem Ready.firstValues (L : Ready d o h) (hM : 1 < d.value d.modulusPtr)
    (henough : EnoughLimbs (2 * h) (d.value d.basePtr) (d.value d.modulusPtr))
    (hsafe : 0 < d.rounds →
      ReductionSafe (2 * h) (d.value d.basePtr) (d.value d.modulusPtr)) {mem : Memory}
    (hrun : Yields (fun fuel => remCall fuel d.start d.basePtr d.modulusPtr d.scratchBuf1Ptr
      d.scratchBuf2Ptr d.nLimbs d.scratchBuf3Ptr) mem) :
    RunValues d h (d.value d.basePtr) (d.value d.exponentPtr) (d.value d.modulusPtr) 0 mem := by
  obtain ⟨mem', hrem, hvalue, hframe, hinv⟩ := firstCall_yields L (by omega) henough
  have hsame := hrun.unique (firstRemCall_yields L hrem)
  subst hsame
  obtain ⟨hresult, hbase, hexponent, hmodulus⟩ := L.start_spec
  have hb := L.firstBuffers
  have hready := L
  obtain ⟨hh, hn, h₀, h₁, h₂, h₃, h₄, h₅, h₆, hfits, -, -, hbaseLt, -⟩ := L
  have hfewer : nonzeroLimbs (2 * h) (d.value d.basePtr) < 2 * h := by
    obtain ⟨k, hk⟩ : ∃ k, 2 * h = k + 1 := ⟨2 * h - 1, by omega⟩
    have hle := nonzeroLimbs_le_of_lt k (d.value d.basePtr)
      (hbaseLt.trans_le (Nat.pow_le_pow_right (by norm_num) (by omega)))
    rw [hk]
    omega
  refine ⟨hinv.modulus, ?_, fun hrounds => ?_, ?_⟩
  · rw [hframe.numAt_eq (hready.disjoint_firstRegion (by omega)), hexponent, pow_zero, Nat.div_one]
  · have hsafeFirst := hsafe hrounds
    rw [hvalue, remResult_eq hn hbase hmodulus (by omega) hsafeFirst
      (overReadBits_cleared hn (by omega) hb (by omega) hmodulus hsafeFirst (Or.inl hfewer)),
      basePower, pow_zero, pow_one]
  · rw [hframe.numAt_eq (hready.disjoint_firstRegion (by omega)), hresult, resultPower,
      pow_zero, Nat.mod_one, pow_zero, Nat.mod_eq_of_lt hM]

section Safe

variable (L : Ready d o h) (hM : 1 < d.value d.modulusPtr)
  (hsafe : PowerSafe (2 * h) (d.value d.basePtr) (d.value d.exponentPtr)
    (d.value d.modulusPtr))

include L hM hsafe

/-- The numbers before every round of a safe run. -/
theorem PowerRun.values {i : ℕ} {mem : Memory} (hrun : PowerRun d i mem) :
    RunValues d h (d.value d.basePtr) (d.value d.exponentPtr) (d.value d.modulusPtr) i mem := by
  induction hrun with
  | start hcall =>
    exact L.firstValues hM hsafe.first.enough (fun _ => hsafe.first) hcall
  | step hprefix hi hstep ih =>
    exact ih.step L (by omega) L.modulus_lt L.exponent_lt hi (hsafe.result _ hi)
      (hsafe.enough _ hi) (hsafe.square _) hstep

/-- A safe exponentiation stores the power. -/
theorem modularExponentiation_exact :
    ∃ mem' : Memory,
      Yields (fun fuel => bigUIntModularExponentiation fuel d.mem d.nLimbs d.basePtr
        d.exponentPtr d.modulusPtr d.resultPtr d.scratchBuf1Ptr d.scratchBuf2Ptr
        d.scratchBuf3Ptr) mem' ∧
      numAt mem' d.resultPtr.toNat (2 * h) =
        d.value d.basePtr ^ d.value d.exponentPtr % d.value d.modulusPtr := by
  obtain ⟨mem₀, hrem, -, -, -⟩ := firstCall_yields L (by omega) hsafe.first.enough
  have hmeets : RunMeets d := by
    refine ⟨?_, fun i mem hrun hi => ?_⟩
    · rw [L.nLimbs]
      exact hsafe.first.enough
    · exact ((hrun.values L hM hsafe).stepMeets_iff L (by omega) L.modulus_lt hi).mpr
        (hsafe.round hi)
  obtain ⟨mem', hloop, hend⟩ := powerLoop_ends L (by omega) hmeets
    (.start (firstRemCall_yields L hrem))
  refine ⟨mem', modularExponentiation_yields L hM hrem hloop, ?_⟩
  rw [(hend.values L hM hsafe).result, resultPower, Operands.rounds,
    Nat.mod_eq_of_lt (Nat.lt_size_self _)]

end Safe

/-! ## When a run is bounded -/

section Right

variable (L : Ready d o h) (hM : 1 < d.value d.modulusPtr)
  (hright : RemaindersRight (2 * h) (d.value d.basePtr) (d.value d.exponentPtr)
    (d.value d.modulusPtr))

include L hM hright

/-- The numbers before a round, if the dividends of all rounds before have enough limbs. -/
theorem PowerRun.values_of_roundMeets
    (hfirst : EnoughLimbs (2 * h) (d.value d.basePtr) (d.value d.modulusPtr))
    (hround : ∀ (i : ℕ) (mem : Memory), PowerRun d i mem → i < d.rounds →
      RunValues d h (d.value d.basePtr) (d.value d.exponentPtr) (d.value d.modulusPtr) i mem →
      RoundMeets (2 * h) (d.value d.basePtr) (d.value d.exponentPtr) (d.value d.modulusPtr) i)
    {i : ℕ} {mem : Memory} (hrun : PowerRun d i mem) (hi : i < d.rounds) :
    RunValues d h (d.value d.basePtr) (d.value d.exponentPtr) (d.value d.modulusPtr) i mem := by
  induction hrun with
  | start hcall =>
    exact L.firstValues hM hfirst (fun hrounds => hright.first hrounds hfirst) hcall
  | step hprefix hlt hstep ih =>
    have hvalues := ih hlt
    have hmeets := hround _ _ hprefix hlt hvalues
    exact hvalues.step L (by omega) L.modulus_lt L.exponent_lt hlt
      (fun hset => hright.result _ hi hset (hmeets.result hset)) hmeets.square
      (fun hnext => hright.square _ hnext hmeets.square) hstep

/-- The dividends in the memories of a run are the base and the products of the powers. -/
theorem runMeets_iff :
    RunMeets d ↔ DividendsMeet (2 * h) (d.value d.basePtr) (d.value d.exponentPtr)
      (d.value d.modulusPtr) := by
  have hn := L.nLimbs
  constructor
  · intro hmeets
    have hfirst := hmeets.first
    rw [hn] at hfirst
    have hround : ∀ (i : ℕ) (mem : Memory), PowerRun d i mem → i < d.rounds →
        RunValues d h (d.value d.basePtr) (d.value d.exponentPtr) (d.value d.modulusPtr) i mem →
        RoundMeets (2 * h) (d.value d.basePtr) (d.value d.exponentPtr)
          (d.value d.modulusPtr) i :=
      fun i mem hrun hi hvalues =>
        (hvalues.stepMeets_iff L (by omega) L.modulus_lt hi).mp (hmeets.rounds i mem hrun hi)
    obtain ⟨mem₀, hrem, -, -, -⟩ := firstCall_yields L (by omega) hfirst
    obtain ⟨_, -, hend⟩ := powerLoop_ends L (by omega) hmeets
      (.start (firstRemCall_yields L hrem))
    refine ⟨hfirst, fun i hi => ?_⟩
    obtain ⟨mem, hrun⟩ := hend.exists_le (Nat.le_of_lt hi)
    exact hround i mem hrun hi (hrun.values_of_roundMeets L hM hright hfirst hround hi)
  · intro hmeets
    refine ⟨?_, fun i mem hrun hi => ?_⟩
    · rw [hn]
      exact hmeets.first
    · have hvalues := hrun.values_of_roundMeets L hM hright hmeets.first
        (fun j _ _ hj _ => hmeets.round j hj) hi
      exact (hvalues.stepMeets_iff L (by omega) L.modulus_lt hi).mpr (hmeets.round i hi)

end Right

/-- A run is bounded if its dividends have enough limbs and the remainders that it uses again
are right.  With right remainders it is bounded only then. -/
theorem powerRun_bounded_exact (L : Ready d o h) (hM : 1 < d.value d.modulusPtr) :
    (DividendsMeet (2 * h) (d.value d.basePtr) (d.value d.exponentPtr)
        (d.value d.modulusPtr) ∧
      RemaindersRight (2 * h) (d.value d.basePtr) (d.value d.exponentPtr)
        (d.value d.modulusPtr) →
      RunBounded d) ∧
    (RemaindersRight (2 * h) (d.value d.basePtr) (d.value d.exponentPtr)
        (d.value d.modulusPtr) →
      RunBounded d →
      DividendsMeet (2 * h) (d.value d.basePtr) (d.value d.exponentPtr)
        (d.value d.modulusPtr)) := by
  have hbounded := runBounded_iff_runMeets L hM
  refine ⟨fun ⟨hmeets, hright⟩ => ?_, fun hright hrun => ?_⟩
  · exact hbounded.mpr ((runMeets_iff L hM hright).mpr hmeets)
  · exact (runMeets_iff L hM hright).mp (hbounded.mp hrun)

end Run

/-- Operands of one byte each. -/
def smallCall : Calldata where
  bytes := [(1 : Word), 1, 1].flatMap wordBytes ++ [3, 2, 5]
  length_lt := by decide

instance (n dividend divisor : ℕ) : Decidable (ReductionSafe n dividend divisor) :=
  decidable_of_iff
    (divisor.size ≤ 256 * nonzeroLimbs n dividend ∧ shiftCount n dividend divisor < 2 ^ 256 ∧
      dividend < divisor * 2 ^ (shiftCount n dividend divisor + 1) ∧
      ∀ j, j < shiftCount n dividend divisor + 1 →
        LossHarmless (2 ^ 256) (dividend % (divisor * 2 ^ (j + 1))) (divisor * 2 ^ j) n)
    ⟨fun ⟨hcount, hword, hbound, hharmless⟩ => ⟨hcount, hword, hbound, hharmless⟩,
      fun ⟨hcount, hword, hbound, hharmless⟩ => ⟨hcount, hword, hbound, hharmless⟩⟩

/-- The square of three modulo five. -/
theorem powerRun_bounded_small :
    ∃ d, Yields (fun fuel => decodeOperands fuel smallCall 1 1 1) d ∧ RunBounded d := by
  have hfits : LayoutFits 1 1 1 := by decide
  obtain ⟨d, hrun, hd⟩ := decodeOperands_within smallCall hfits (Nat.lt_succ_self _)
  have hlimbs : maxLimbs 1 1 1 = 1 := by decide
  have L := hd.ready hfits (by decide)
  rw [hlimbs] at L
  have hbase : d.value d.basePtr = 3 := by
    rw [hd.base]
    decide
  have hexponent : d.value d.exponentPtr = 2 := by
    rw [hd.exponent]
    decide
  have hmodulus : d.value d.modulusPtr = 5 := by
    rw [hd.modulus]
    decide
  have hsize : Nat.size 2 = 2 := by decide
  refine ⟨d, hrun.yields, (powerRun_bounded_exact L ?_).1 ⟨?_, ?_⟩⟩
  · rw [hmodulus]
    decide
  · rw [hbase, hexponent, hmodulus]
    refine ⟨by decide +kernel, fun i hi => ?_⟩
    rw [hsize] at hi
    refine ⟨?_, ?_⟩
    · interval_cases i <;> decide +kernel
    · interval_cases i <;> decide +kernel
  · rw [hbase, hexponent, hmodulus]
    refine ⟨fun _ _ => by decide +kernel, fun i hi hset => ?_, fun i hi _ => ?_⟩
    · rw [hsize] at hi
      have hzero : i = 0 := by omega
      subst hzero
      exact absurd hset (by decide)
    · rw [hsize] at hi
      have hzero : i = 0 := by omega
      subst hzero
      decide +kernel

end EraPrecompiles.ModExp
