import EraPrecompiles.ModExp.Exponentiation

/-!
# The loop over the bits of the exponent

One round of `powerLoop` is `powerStep`: the product of the result and the base, if the
exponent is odd, and the square of the base, each reduced by `bigUIntRem`.  The exponent
is halved between the two.

`powerRun_bounded_iff` is about the runs: every reduction of a run is bounded if and only
if the first dividend and the products have enough limbs.
-/

namespace EraPrecompiles.ModExp

/-! ## One round -/

/-- `result := (result * base) mod modulus`, if the exponent is odd.  The base is in the
buffer `scratchBuf3Ptr`, since the buffers have changed places. -/
def resultPart (d : Operands) (modulusBitSize : Word) (fuel : ℕ) (mem : Memory) :
    Option Memory :=
  if bigUIntModTwo mem d.nLimbs d.exponentPtr ≠ 0 then
    multiplyReduce fuel mem (bigUIntLowerHalfPtr d.nLimbs d.resultPtr)
      (bigUIntLowerHalfPtr d.nLimbs d.scratchBuf3Ptr) d.nLimbs d.scratchBuf1Ptr d.modulusPtr
      d.basePtr d.scratchBuf2Ptr modulusBitSize d.resultPtr
  else
    some mem

/-- `base := (base * base) mod modulus` -/
def squarePart (d : Operands) (modulusBitSize : Word) (fuel : ℕ) (mem : Memory) :
    Option Memory :=
  multiplyReduce fuel mem (bigUIntLowerHalfPtr d.nLimbs d.scratchBuf3Ptr)
    (bigUIntLowerHalfPtr d.nLimbs d.scratchBuf3Ptr) d.nLimbs d.scratchBuf2Ptr d.modulusPtr
    d.scratchBuf1Ptr d.basePtr modulusBitSize d.scratchBuf3Ptr

/-- One round of `powerLoop`. -/
def powerStep (d : Operands) (modulusBitSize : Word) (fuel : ℕ) (mem : Memory) :
    Option Memory := do
  let mem ← resultPart d modulusBitSize fuel mem
  let mem ← bigUIntOneShiftRight fuel mem d.exponentPtr d.nLimbs
  squarePart d modulusBitSize fuel mem

theorem powerLoop_eq (d : Operands) (modulusBitSize exponentBitSize : Word) (fuel : ℕ)
    (mem : Memory) :
    powerLoop fuel d.nLimbs d.scratchBuf3Ptr d.exponentPtr d.modulusPtr d.resultPtr
        d.scratchBuf1Ptr d.scratchBuf2Ptr d.basePtr modulusBitSize exponentBitSize mem =
      iterate
        (fun (s : Memory × Word) =>
          if lt s.2 exponentBitSize ≠ 0 then
            powerStep d modulusBitSize fuel s.1 >>= fun mem =>
              some (Flow.next (mem, add s.2 1))
          else
            some (.done s.1))
        fuel (mem, 0) := by
  rw [powerLoop]
  refine congrArg (fun body => iterate body fuel (mem, 0)) (funext fun s => ?_)
  by_cases htest : lt s.2 exponentBitSize ≠ 0
  · by_cases hodd : bigUIntModTwo s.1 d.nLimbs d.exponentPtr ≠ 0
    · simp only [if_pos htest, powerStep, resultPart, if_pos hodd, squarePart,
        multiplyReduce, bind_assoc]
    · simp only [if_pos htest, powerStep, resultPart, if_neg hodd, squarePart,
        multiplyReduce, bind_assoc]
  · simp only [if_neg htest]

/-- The number in the lower half of a buffer. -/
def Operands.lower (d : Operands) (mem : Memory) (ptr : Word) : ℕ :=
  numAt mem (ptr.toNat + 32 * (d.nLimbs.toNat / 2)) (d.nLimbs.toNat / 2)

/-- The products of a round have enough limbs. -/
structure StepMeets (d : Operands) (mem : Memory) : Prop where
  result : numAt mem d.exponentPtr.toNat d.nLimbs.toNat % 2 = 1 →
    EnoughLimbs d.nLimbs.toNat (d.lower mem d.resultPtr * d.lower mem d.scratchBuf3Ptr)
      (numAt mem d.modulusPtr.toNat d.nLimbs.toNat)
  square : EnoughLimbs d.nLimbs.toNat
    (d.lower mem d.scratchBuf3Ptr * d.lower mem d.scratchBuf3Ptr)
    (numAt mem d.modulusPtr.toNat d.nLimbs.toNat)

/-- The reductions of a round are bounded. -/
structure StepBounded (d : Operands) (modulusBitSize : Word) (mem : Memory) : Prop where
  result : bigUIntModTwo mem d.nLimbs d.exponentPtr ≠ 0 →
    ∃ product : Memory,
      Yields (fun fuel => bigUIntMul fuel mem (bigUIntLowerHalfPtr d.nLimbs d.resultPtr)
        (bigUIntLowerHalfPtr d.nLimbs d.scratchBuf3Ptr) (shr 1 d.nLimbs) d.scratchBuf1Ptr)
        product ∧
      CallBounded product d.scratchBuf1Ptr d.modulusPtr d.basePtr d.scratchBuf2Ptr d.nLimbs
        d.resultPtr
  square : ∃ mem₁ mem₂ product : Memory,
    Yields (fun fuel => resultPart d modulusBitSize fuel mem) mem₁ ∧
    Yields (fun fuel => bigUIntOneShiftRight fuel mem₁ d.exponentPtr d.nLimbs) mem₂ ∧
    Yields (fun fuel => bigUIntMul fuel mem₂ (bigUIntLowerHalfPtr d.nLimbs d.scratchBuf3Ptr)
      (bigUIntLowerHalfPtr d.nLimbs d.scratchBuf3Ptr) (shr 1 d.nLimbs) d.scratchBuf2Ptr)
      product ∧
    CallBounded product d.scratchBuf2Ptr d.modulusPtr d.scratchBuf1Ptr d.basePtr d.nLimbs
      d.scratchBuf3Ptr

/-! ## What a round leaves -/

section Halves

variable {mem : Memory} {a h : ℕ}

/-- The highest word of a number in the lower half of its buffer. -/
theorem wordAt_eq_zero_of_lt (hh : 0 < h) (hlt : numAt mem a (2 * h) < 2 ^ (256 * h)) :
    wordAt mem a = 0 := by
  obtain ⟨n, hn⟩ : ∃ n, 2 * h = n + 1 := ⟨2 * h - 1, by omega⟩
  rw [hn, numAt_succ_left] at hlt
  have hpow : 2 ^ (256 * h) ≤ 2 ^ (256 * n) := Nat.pow_le_pow_right (by norm_num) (by omega)
  refine toNat_eq_zero.mp (Nat.eq_zero_of_not_pos fun hpos => ?_)
  have hmul := Nat.le_mul_of_pos_left (2 ^ (256 * n)) hpos
  omega

/-- A number in the lower half of its buffer. -/
theorem numAt_lower (hlt : numAt mem a (2 * h) < 2 ^ (256 * h)) :
    numAt mem (a + 32 * h) h = numAt mem a (2 * h) := by
  have hsplit := numAt_add mem a h h
  rw [← two_mul] at hsplit
  have hupper : numAt mem a h = 0 := by
    refine Nat.eq_zero_of_not_pos fun hpos => ?_
    have hmul := Nat.le_mul_of_pos_left (2 ^ (256 * h)) hpos
    omega
  rw [hsplit, hupper, Nat.zero_mul, Nat.zero_add]

end Halves

/-- The modulus stays, and the exponent stays in the lower half. -/
structure PowerInv (d : Operands) (h M : ℕ) (mem : Memory) : Prop where
  modulus : numAt mem d.modulusPtr.toNat (2 * h) = M
  exponent_lt : numAt mem d.exponentPtr.toNat (2 * h) < 2 ^ (256 * h)

section Step

variable {d : Operands} {o h M : ℕ} {mem : Memory}

/-- The product of the result and the base is reduced, and only scratch buffers and the
result change. -/
theorem resultCall_yields (L : Ready d o h) (hM : 0 < M) (hinv : PowerInv d h M mem)
    (henough : EnoughLimbs (2 * h)
      (d.lower mem d.resultPtr * d.lower mem d.scratchBuf3Ptr) M) :
    ∃ product mem' : Memory,
      Yields (fun fuel => multiplyReduce fuel mem (bigUIntLowerHalfPtr d.nLimbs d.resultPtr)
        (bigUIntLowerHalfPtr d.nLimbs d.scratchBuf3Ptr) d.nLimbs d.scratchBuf1Ptr
        d.modulusPtr d.basePtr d.scratchBuf2Ptr (BitVec.ofNat 256 M.size) d.resultPtr) mem' ∧
      numAt product d.scratchBuf1Ptr.toNat (2 * h) =
        d.lower mem d.resultPtr * d.lower mem d.scratchBuf3Ptr ∧
      Frame (region d.scratchBuf1Ptr.toNat (2 * h)) mem product ∧
      numAt mem' d.resultPtr.toNat (2 * h) =
        remResult product d.scratchBuf1Ptr d.modulusPtr d.basePtr d.scratchBuf2Ptr d.nLimbs
          d.resultPtr ∧
      Frame (region d.basePtr.toNat (2 * h) ∪ (region d.scratchBuf2Ptr.toNat (2 * h) ∪
        region d.resultPtr.toNat (2 * h))) product mem' := by
  have hb := L.resultBuffers
  obtain ⟨hh, hn, h₀, h₁, h₂, h₃, h₄, h₅, h₆, hfits, -, -, -, -⟩ := L
  obtain ⟨hmodulus, hexponent⟩ := hinv
  have hhalf : d.nLimbs.toNat / 2 = h := by omega
  have hresult := (toNat_bigUIntLowerHalfPtr d.nLimbs d.resultPtr hn (by omega)).1
  have hbase := (toNat_bigUIntLowerHalfPtr d.nLimbs d.scratchBuf3Ptr hn (by omega)).1
  rw [Operands.lower, Operands.lower, hhalf, ← hresult, ← hbase] at henough ⊢
  have hquiet : Disjoint (region (d.basePtr.toNat + 32 * d.nLimbs.toNat) 1)
      (region d.resultPtr.toNat d.nLimbs.toNat) := disjoint_region (by omega)
  obtain ⟨product, mem', -, hproduct, hframe, -, -, hrun, hvalue, -, hframe'⟩ :=
    multiplyReduce_yields mem (bigUIntLowerHalfPtr d.nLimbs d.resultPtr)
      (bigUIntLowerHalfPtr d.nLimbs d.scratchBuf3Ptr) d.nLimbs d.scratchBuf1Ptr d.modulusPtr
      d.basePtr d.scratchBuf2Ptr d.resultPtr hn hb (by omega) (by omega)
      (disjoint_region (by omega)) (disjoint_region (by omega)) (by rw [hmodulus]; exact hM)
      (by rw [hmodulus]; exact henough) fun _ _ => Or.inr hquiet
  rw [hmodulus] at hrun
  refine ⟨product, mem', hrun, hproduct, hframe, hvalue, hframe' ?_⟩
  -- the word behind the first scratch buffer is the highest word of the exponent
  have hbehind : d.basePtr.toNat + 32 * d.nLimbs.toNat = d.exponentPtr.toNat := by omega
  have hstart : Disjoint (region d.exponentPtr.toNat 1)
      (region d.basePtr.toNat d.nLimbs.toNat ∪ (region d.scratchBuf2Ptr.toNat d.nLimbs.toNat ∪
        region d.resultPtr.toNat d.nLimbs.toNat)) :=
    Set.disjoint_union_right.mpr ⟨disjoint_region (by omega),
      Set.disjoint_union_right.mpr ⟨disjoint_region (by omega), disjoint_region (by omega)⟩⟩
  rw [behindTmp, hbehind, frame_remStart.wordAt_eq hstart,
    hframe.wordAt_eq (disjoint_region (by omega)), wordAt_eq_zero_of_lt hh hexponent]

/-- The square of the base is reduced, and only scratch buffers and the base change. -/
theorem squarePart_yields (L : Ready d o h) (hM : 0 < M)
    (hmodulus : numAt mem d.modulusPtr.toNat (2 * h) = M)
    (henough : EnoughLimbs (2 * h)
      (d.lower mem d.scratchBuf3Ptr * d.lower mem d.scratchBuf3Ptr) M) :
    ∃ product mem' : Memory,
      Yields (fun fuel => squarePart d (BitVec.ofNat 256 M.size) fuel mem) mem' ∧
      numAt product d.scratchBuf2Ptr.toNat (2 * h) =
        d.lower mem d.scratchBuf3Ptr * d.lower mem d.scratchBuf3Ptr ∧
      Frame (region d.scratchBuf2Ptr.toNat (2 * h)) mem product ∧
      numAt mem' d.scratchBuf3Ptr.toNat (2 * h) =
        remResult product d.scratchBuf2Ptr d.modulusPtr d.scratchBuf1Ptr d.basePtr d.nLimbs
          d.scratchBuf3Ptr ∧
      Frame (region d.scratchBuf1Ptr.toNat (2 * h + 1) ∪ (region d.basePtr.toNat (2 * h) ∪
        region d.scratchBuf3Ptr.toNat (2 * h))) product mem' := by
  have hb := L.squareBuffers
  obtain ⟨hh, hn, h₀, h₁, h₂, h₃, h₄, h₅, h₆, hfits, -, -, -, -⟩ := L
  have hhalf : d.nLimbs.toNat / 2 = h := by omega
  have hbase := (toNat_bigUIntLowerHalfPtr d.nLimbs d.scratchBuf3Ptr hn (by omega)).1
  rw [Operands.lower, hhalf, ← hbase] at henough ⊢
  have hquiet : Disjoint (region (d.scratchBuf1Ptr.toNat + 32 * d.nLimbs.toNat) 1)
      (region d.scratchBuf3Ptr.toNat d.nLimbs.toNat) := disjoint_region (by omega)
  obtain ⟨product, mem', -, hproduct, hframe, -, -, hrun, hvalue, hframe', -⟩ :=
    multiplyReduce_yields mem (bigUIntLowerHalfPtr d.nLimbs d.scratchBuf3Ptr)
      (bigUIntLowerHalfPtr d.nLimbs d.scratchBuf3Ptr) d.nLimbs d.scratchBuf2Ptr d.modulusPtr
      d.scratchBuf1Ptr d.basePtr d.scratchBuf3Ptr hn hb (by omega) (by omega)
      (disjoint_region (by omega)) (disjoint_region (by omega)) (by rw [hmodulus]; exact hM)
      (by rw [hmodulus]; exact henough) fun _ _ => Or.inr hquiet
  rw [hmodulus] at hrun
  exact ⟨product, mem', hrun, hproduct, hframe, hvalue, hframe'⟩

/-- What the first part of a round may change. -/
def Operands.resultRegion (d : Operands) (h : ℕ) : Set ℕ :=
  region d.scratchBuf1Ptr.toNat (2 * h) ∪ (region d.basePtr.toNat (2 * h) ∪
    (region d.scratchBuf2Ptr.toNat (2 * h) ∪ region d.resultPtr.toNat (2 * h)))

/-- The exponent, the modulus and the base of the run lie between the buffers of the first
part. -/
theorem Ready.disjoint_resultRegion (L : Ready d o h) {a n : ℕ}
    (ha : d.basePtr.toNat + 32 * (2 * h) ≤ a ∧ a + 32 * n ≤ d.scratchBuf1Ptr.toNat ∨
      d.scratchBuf2Ptr.toNat + 32 * (2 * h) ≤ a ∧ a + 32 * n ≤ d.resultPtr.toNat) :
    Disjoint (region a n) (d.resultRegion h) := by
  obtain ⟨hh, -, h₀, -, -, h₃, h₄, -, h₆, -, -, -, -, -⟩ := L
  exact Set.disjoint_union_right.mpr ⟨disjoint_region (by omega),
    Set.disjoint_union_right.mpr ⟨disjoint_region (by omega),
      Set.disjoint_union_right.mpr ⟨disjoint_region (by omega), disjoint_region (by omega)⟩⟩⟩

/-- The first part of a round. -/
theorem resultPart_yields (L : Ready d o h) (hM : 0 < M) (hinv : PowerInv d h M mem)
    (henough : numAt mem d.exponentPtr.toNat (2 * h) % 2 = 1 → EnoughLimbs (2 * h)
      (d.lower mem d.resultPtr * d.lower mem d.scratchBuf3Ptr) M) :
    ∃ mem' : Memory,
      Yields (fun fuel => resultPart d (BitVec.ofNat 256 M.size) fuel mem) mem' ∧
      Frame (d.resultRegion h) mem mem' ∧
      (numAt mem d.exponentPtr.toNat (2 * h) % 2 ≠ 1 → mem' = mem) ∧
      (numAt mem d.exponentPtr.toNat (2 * h) % 2 = 1 → ∃ product : Memory,
        numAt product d.scratchBuf1Ptr.toNat (2 * h) =
          d.lower mem d.resultPtr * d.lower mem d.scratchBuf3Ptr ∧
        Frame (region d.scratchBuf1Ptr.toNat (2 * h)) mem product ∧
        numAt mem' d.resultPtr.toNat (2 * h) =
          remResult product d.scratchBuf1Ptr d.modulusPtr d.basePtr d.scratchBuf2Ptr d.nLimbs
            d.resultPtr) := by
  have hodd : bigUIntModTwo mem d.nLimbs d.exponentPtr ≠ 0 ↔
      numAt mem d.exponentPtr.toNat (2 * h) % 2 = 1 := by
    obtain ⟨hh, hn, h₀, h₁, h₂, h₃, h₄, h₅, h₆, hfits, -, -, -, -⟩ := L
    rw [bigUIntModTwo_ne_zero mem d.nLimbs d.exponentPtr (by omega) (by omega), hn]
  by_cases hbit : numAt mem d.exponentPtr.toNat (2 * h) % 2 = 1
  · obtain ⟨product, mem', hrun, hproduct, hframe, hvalue, hframe'⟩ :=
      resultCall_yields L hM hinv (henough hbit)
    refine ⟨mem', ?_, ?_, fun hnot => absurd hbit hnot,
      fun _ => ⟨product, hproduct, hframe, hvalue⟩⟩
    · simp only [resultPart, if_pos (hodd.mpr hbit)]
      exact hrun
    · exact hframe.union hframe'
  · refine ⟨mem, ?_, Frame.refl _ _, fun _ => rfl, fun h => absurd h hbit⟩
    simp only [resultPart, if_neg (mt hodd.mp hbit)]
    exact Yields.of_eq fun _ => rfl

/-- The first part of a round and the shift of the exponent leave the modulus and the
base. -/
theorem Ready.kept (L : Ready d o h) {mem₁ mem₂ : Memory}
    (hframe₁ : Frame (d.resultRegion h) mem mem₁)
    (hframe₂ : Frame (region d.exponentPtr.toNat (2 * h)) mem₁ mem₂) :
    numAt mem₁ d.exponentPtr.toNat (2 * h) = numAt mem d.exponentPtr.toNat (2 * h) ∧
      numAt mem₂ d.modulusPtr.toNat (2 * h) = numAt mem d.modulusPtr.toNat (2 * h) ∧
      d.lower mem₂ d.scratchBuf3Ptr = d.lower mem d.scratchBuf3Ptr := by
  have hready := L
  obtain ⟨hh, hn, h₀, h₁, h₂, h₃, h₄, h₅, h₆, hfits, -, -, -, -⟩ := L
  have hhalf : d.nLimbs.toNat / 2 = h := by omega
  refine ⟨?_, ?_, ?_⟩
  · exact hframe₁.numAt_eq (hready.disjoint_resultRegion (by omega))
  · rw [hframe₂.numAt_eq (disjoint_region (by omega)),
      hframe₁.numAt_eq (hready.disjoint_resultRegion (by omega))]
  · rw [Operands.lower, Operands.lower, hframe₂.numAt_eq (disjoint_region (by omega)),
      hframe₁.numAt_eq (hready.disjoint_resultRegion (by omega))]

/-- What the second part of a round may change. -/
def Operands.squareRegion (d : Operands) (h : ℕ) : Set ℕ :=
  region d.scratchBuf2Ptr.toNat (2 * h) ∪ (region d.scratchBuf1Ptr.toNat (2 * h + 1) ∪
    (region d.basePtr.toNat (2 * h) ∪ region d.scratchBuf3Ptr.toNat (2 * h)))

/-- The exponent and the modulus lie between the buffers of the second part, the result behind
them. -/
theorem Ready.disjoint_squareRegion (L : Ready d o h) {a n : ℕ}
    (ha : d.basePtr.toNat + 32 * (2 * h) ≤ a ∧ a + 32 * n ≤ d.scratchBuf1Ptr.toNat ∨
      d.scratchBuf3Ptr.toNat + 32 * (2 * h) ≤ a) :
    Disjoint (region a n) (d.squareRegion h) := by
  obtain ⟨hh, -, h₀, -, -, h₃, h₄, h₅, -, -, -, -, -, -⟩ := L
  exact Set.disjoint_union_right.mpr ⟨disjoint_region (by omega),
    Set.disjoint_union_right.mpr ⟨disjoint_region (by omega),
      Set.disjoint_union_right.mpr ⟨disjoint_region (by omega), disjoint_region (by omega)⟩⟩⟩

/-- A whole round, if the products have enough limbs. -/
theorem powerStep_yields (L : Ready d o h) (hM : 0 < M) (hinv : PowerInv d h M mem)
    (hmeets : StepMeets d mem) :
    ∃ mem₁ mem₂ product mem' : Memory,
      Yields (fun fuel => resultPart d (BitVec.ofNat 256 M.size) fuel mem) mem₁ ∧
      Frame (d.resultRegion h) mem mem₁ ∧
      Yields (fun fuel => bigUIntOneShiftRight fuel mem₁ d.exponentPtr d.nLimbs) mem₂ ∧
      numAt mem₂ d.exponentPtr.toNat (2 * h) =
        numAt mem d.exponentPtr.toNat (2 * h) / 2 ∧
      Frame (region d.exponentPtr.toNat (2 * h)) mem₁ mem₂ ∧
      numAt mem₂ d.modulusPtr.toNat (2 * h) = M ∧
      d.lower mem₂ d.scratchBuf3Ptr = d.lower mem d.scratchBuf3Ptr ∧
      numAt product d.scratchBuf2Ptr.toNat (2 * h) =
        d.lower mem d.scratchBuf3Ptr * d.lower mem d.scratchBuf3Ptr ∧
      Frame (region d.scratchBuf2Ptr.toNat (2 * h)) mem₂ product ∧
      Yields (fun fuel => powerStep d (BitVec.ofNat 256 M.size) fuel mem) mem' ∧
      numAt mem' d.scratchBuf3Ptr.toNat (2 * h) =
        remResult product d.scratchBuf2Ptr d.modulusPtr d.scratchBuf1Ptr d.basePtr d.nLimbs
          d.scratchBuf3Ptr ∧
      Frame (d.squareRegion h) mem₂ mem' ∧
      PowerInv d h M mem' := by
  obtain ⟨hresult, hsquare⟩ := hmeets
  rw [L.nLimbs, hinv.modulus] at hresult hsquare
  obtain ⟨mem₁, hrun₁, hframe₁, -, -⟩ := resultPart_yields L hM hinv hresult
  have hready := L
  obtain ⟨hh, hn, h₀, h₁, h₂, h₃, h₄, h₅, h₆, hfits, -, -, -, -⟩ := L
  obtain ⟨mem₂, hrun₂, hexponent₂, hframe₂⟩ := bigUIntOneShiftRight_within mem₁ d.exponentPtr
    d.nLimbs (by omega) (Nat.lt_succ_self _)
  rw [hn] at hexponent₂ hframe₂
  obtain ⟨hexponent₁, hmodulus₂, hbase₂⟩ := hready.kept hframe₁ hframe₂
  rw [hinv.modulus] at hmodulus₂
  obtain ⟨product, mem', hrun₃, hproduct, hframe₃, hvalue, hframe₄⟩ :=
    squarePart_yields hready hM hmodulus₂ (by rw [hbase₂]; exact hsquare)
  have hframe' : Frame (d.squareRegion h) mem₂ mem' := hframe₃.union hframe₄
  refine ⟨mem₁, mem₂, product, mem', hrun₁, hframe₁, hrun₂.yields, ?_, hframe₂, hmodulus₂,
    hbase₂, ?_, hframe₃, ?_, hvalue, hframe', ?_, ?_⟩
  · rw [hexponent₂, hexponent₁]
  · rw [hproduct, hbase₂]
  · exact hrun₁.bind (hrun₂.yields.bind hrun₃)
  · rw [hframe'.numAt_eq (hready.disjoint_squareRegion (by omega)), hmodulus₂]
  · rw [hframe'.numAt_eq (hready.disjoint_squareRegion (by omega)), hexponent₂, hexponent₁]
    exact (Nat.div_le_self _ 2).trans_lt hinv.exponent_lt

end Step

/-! ## Bounded rounds -/

/-- The reduction of a product is bounded if and only if the product has enough limbs. -/
theorem productBounded_iff (mem : Memory) (xPtr yPtr nLimbs productPtr modulusPtr tmpPtr1
    tmpPtr2 remPtr : Word) {h M : ℕ} (hn : nLimbs.toNat = 2 * h)
    (hb : RemBuffers productPtr modulusPtr tmpPtr1 tmpPtr2 nLimbs remPtr)
    (hx : xPtr.toNat + 32 * h < 2 ^ 256) (hy : yPtr.toNat + 32 * h < 2 ^ 256)
    (hdx : Disjoint (region xPtr.toNat h) (region productPtr.toNat (2 * h)))
    (hdy : Disjoint (region yPtr.toNat h) (region productPtr.toNat (2 * h)))
    (hM : numAt mem modulusPtr.toNat (2 * h) = M) (hpos : 0 < M)
    (hsize : M.size < 2 ^ 256) :
    (∃ product : Memory,
      Yields (fun fuel => bigUIntMul fuel mem xPtr yPtr (shr 1 nLimbs) productPtr) product ∧
      CallBounded product productPtr modulusPtr tmpPtr1 tmpPtr2 nLimbs remPtr) ↔
    EnoughLimbs (2 * h) (numAt mem xPtr.toNat h * numAt mem yPtr.toNat h) M := by
  have hfits := hb.fits
  simp only [List.mem_cons, List.not_mem_nil, or_false, forall_eq_or_imp, forall_eq] at hfits
  have hdisjoint := hb.disjoint
  simp only [List.pairwise_cons, List.mem_cons, List.not_mem_nil, or_false, forall_eq_or_imp,
    forall_eq, IsEmpty.forall_iff, implies_true, List.Pairwise.nil, and_true, hn] at hdisjoint
  have hhalf : (shr 1 nLimbs).toNat = h := by
    rw [toNat_shr_one, hn]
    omega
  obtain ⟨product, hmul, hproduct, hframe⟩ := bigUIntMul_within mem xPtr yPtr (shr 1 nLimbs)
    productPtr (by omega) (by omega) (by omega) (by rw [hhalf]; exact hdx)
    (by rw [hhalf]; exact hdy) (Nat.lt_succ_self _)
  rw [hhalf] at hproduct hframe
  have hmodulus : numAt product modulusPtr.toNat (2 * h) = M := by
    rw [hframe.numAt_eq hdisjoint.1.1.symm, hM]
  have hiff := callBounded_iff product productPtr modulusPtr tmpPtr1 tmpPtr2 nLimbs remPtr hb
    (by rw [hn, hmodulus]; exact hpos) (by rw [hn, hmodulus]; exact hsize)
  rw [hn, hproduct, hmodulus] at hiff
  rw [← hiff]
  constructor
  · rintro ⟨product', hmul', hcall⟩
    rw [hmul.yields.unique hmul']
    exact hcall
  · intro hcall
    exact ⟨product, hmul.yields, hcall⟩

section Bounded

variable {d : Operands} {o h M : ℕ} {mem : Memory}

theorem Ready.size_lt (L : Ready d o h) : (d.value d.modulusPtr).size < 2 ^ 256 := by
  obtain ⟨hh, hn, h₀, h₁, h₂, h₃, h₄, h₅, h₆, hfits, -, hmodulus, -, -⟩ := L
  have hsize := Nat.size_le.mpr hmodulus
  omega

/-- A round is bounded if and only if its products have enough limbs. -/
theorem stepBounded_iff (L : Ready d o h) (hM : 0 < M) (hsize : M.size < 2 ^ 256)
    (hinv : PowerInv d h M mem) :
    StepBounded d (BitVec.ofNat 256 M.size) mem ↔ StepMeets d mem := by
  have hready := L
  have hbResult := L.resultBuffers
  have hbSquare := L.squareBuffers
  obtain ⟨hh, hn, h₀, h₁, h₂, h₃, h₄, h₅, h₆, hfits, -, -, -, -⟩ := L
  have hhalf : d.nLimbs.toNat / 2 = h := by omega
  have hresultPtr := (toNat_bigUIntLowerHalfPtr d.nLimbs d.resultPtr hn (by omega)).1
  have hbasePtr := (toNat_bigUIntLowerHalfPtr d.nLimbs d.scratchBuf3Ptr hn (by omega)).1
  have hodd : bigUIntModTwo mem d.nLimbs d.exponentPtr ≠ 0 ↔
      numAt mem d.exponentPtr.toNat (2 * h) % 2 = 1 := by
    rw [bigUIntModTwo_ne_zero mem d.nLimbs d.exponentPtr (by omega) (by omega), hn]
  have hresult := productBounded_iff mem (bigUIntLowerHalfPtr d.nLimbs d.resultPtr)
    (bigUIntLowerHalfPtr d.nLimbs d.scratchBuf3Ptr) d.nLimbs d.scratchBuf1Ptr d.modulusPtr
    d.basePtr d.scratchBuf2Ptr d.resultPtr hn hbResult (by omega) (by omega)
    (disjoint_region (by omega)) (disjoint_region (by omega)) hinv.modulus hM hsize
  have hsquare : ∀ mem₂ : Memory, numAt mem₂ d.modulusPtr.toNat (2 * h) = M →
      ((∃ product : Memory,
        Yields (fun fuel => bigUIntMul fuel mem₂ (bigUIntLowerHalfPtr d.nLimbs d.scratchBuf3Ptr)
          (bigUIntLowerHalfPtr d.nLimbs d.scratchBuf3Ptr) (shr 1 d.nLimbs) d.scratchBuf2Ptr)
          product ∧
        CallBounded product d.scratchBuf2Ptr d.modulusPtr d.scratchBuf1Ptr d.basePtr d.nLimbs
          d.scratchBuf3Ptr) ↔
      EnoughLimbs (2 * h) (d.lower mem₂ d.scratchBuf3Ptr * d.lower mem₂ d.scratchBuf3Ptr) M) := by
    intro mem₂ hmodulus
    have hiff := productBounded_iff mem₂ (bigUIntLowerHalfPtr d.nLimbs d.scratchBuf3Ptr)
      (bigUIntLowerHalfPtr d.nLimbs d.scratchBuf3Ptr) d.nLimbs d.scratchBuf2Ptr d.modulusPtr
      d.scratchBuf1Ptr d.basePtr d.scratchBuf3Ptr hn hbSquare (by omega) (by omega)
      (disjoint_region (by omega)) (disjoint_region (by omega)) hmodulus hM hsize
    rw [hiff, hbasePtr, Operands.lower, hhalf]
  rw [hresultPtr, hbasePtr] at hresult
  constructor
  · rintro ⟨hboundedResult, mem₁, mem₂, product, hrun₁, hrun₂, hmul, hcall⟩
    have henough : numAt mem d.exponentPtr.toNat (2 * h) % 2 = 1 →
        EnoughLimbs (2 * h) (d.lower mem d.resultPtr * d.lower mem d.scratchBuf3Ptr) M := by
      intro hbit
      rw [Operands.lower, Operands.lower, hhalf]
      exact hresult.mp (hboundedResult (hodd.mpr hbit))
    refine ⟨?_, ?_⟩
    · rw [hn, hinv.modulus]
      exact henough
    · rw [hn, hinv.modulus]
      obtain ⟨mem₁', hrun₁', hframe₁, -, -⟩ := resultPart_yields hready hM hinv henough
      have hmem₁ := hrun₁.unique hrun₁'
      subst hmem₁
      obtain ⟨mem₂', hrun₂', -, hframe₂⟩ := bigUIntOneShiftRight_within mem₁ d.exponentPtr
        d.nLimbs (by omega) (Nat.lt_succ_self _)
      have hmem₂ := hrun₂.unique hrun₂'.yields
      subst hmem₂
      rw [hn] at hframe₂
      obtain ⟨-, hmodulus₂, hbase₂⟩ := hready.kept hframe₁ hframe₂
      rw [hinv.modulus] at hmodulus₂
      rw [← hbase₂]
      exact (hsquare mem₂ hmodulus₂).mp ⟨product, hmul, hcall⟩
  · intro hmeets
    obtain ⟨mem₁, mem₂, -, -, hrun₁, -, hrun₂, -, -, hmodulus₂, hbase₂, -⟩ :=
      powerStep_yields hready hM hinv hmeets
    obtain ⟨hmeetsResult, hmeetsSquare⟩ := hmeets
    rw [hn, hinv.modulus] at hmeetsResult hmeetsSquare
    rw [← hbase₂] at hmeetsSquare
    obtain ⟨product, hmul, hcall⟩ := (hsquare mem₂ hmodulus₂).mpr hmeetsSquare
    refine ⟨fun hbit => ?_, mem₁, mem₂, product, hrun₁, hrun₂, hmul, hcall⟩
    refine hresult.mpr ?_
    have henough := hmeetsResult (hodd.mp hbit)
    rw [Operands.lower, Operands.lower, hhalf] at henough
    exact henough

end Bounded

/-! ## Runs -/

/-- The memory before the first reduction: the result is one. -/
def Operands.start (d : Operands) : Memory :=
  bigUIntInPlaceOrWith1 d.mem d.resultPtr d.nLimbs

/-- The number of rounds. -/
def Operands.rounds (d : Operands) : ℕ :=
  (d.value d.exponentPtr).size

/-- The word that `bigUIntModularExponentiation` has for the size of the modulus. -/
def Operands.modulusBitSize (d : Operands) : Word :=
  BitVec.ofNat 256 (d.value d.modulusPtr).size

/-- The memories before the rounds. -/
inductive PowerRun (d : Operands) : ℕ → Memory → Prop
  | start {mem : Memory} :
      Yields (fun fuel => remCall fuel d.start d.basePtr d.modulusPtr d.scratchBuf1Ptr
        d.scratchBuf2Ptr d.nLimbs d.scratchBuf3Ptr) mem →
      PowerRun d 0 mem
  | step {i : ℕ} {mem mem' : Memory} :
      PowerRun d i mem →
      i < d.rounds →
      Yields (fun fuel => powerStep d d.modulusBitSize fuel mem) mem' →
      PowerRun d (i + 1) mem'

/-- The first dividend and, in every round, the products have enough limbs. -/
structure RunMeets (d : Operands) : Prop where
  first : EnoughLimbs d.nLimbs.toNat (d.value d.basePtr) (d.value d.modulusPtr)
  rounds : ∀ (i : ℕ) (mem : Memory), PowerRun d i mem → i < d.rounds → StepMeets d mem

/-- The first reduction and those of every round are bounded, and the exponentiation comes
to its end. -/
structure RunBounded (d : Operands) : Prop where
  first : CallBounded d.start d.basePtr d.modulusPtr d.scratchBuf1Ptr d.scratchBuf2Ptr
    d.nLimbs d.scratchBuf3Ptr
  rounds : ∀ (i : ℕ) (mem : Memory), PowerRun d i mem → i < d.rounds →
    StepBounded d d.modulusBitSize mem
  ends : ∃ mem' : Memory,
    Yields (fun fuel => bigUIntModularExponentiation fuel d.mem d.nLimbs d.basePtr
      d.exponentPtr d.modulusPtr d.resultPtr d.scratchBuf1Ptr d.scratchBuf2Ptr
      d.scratchBuf3Ptr) mem'

section Runs

variable {d : Operands} {o h : ℕ}

/-- The numbers before the first reduction. -/
theorem Ready.start_spec (L : Ready d o h) :
    numAt d.start d.resultPtr.toNat (2 * h) = 1 ∧
      numAt d.start d.basePtr.toNat (2 * h) = d.value d.basePtr ∧
      numAt d.start d.exponentPtr.toNat (2 * h) = d.value d.exponentPtr ∧
      numAt d.start d.modulusPtr.toNat (2 * h) = d.value d.modulusPtr := by
  obtain ⟨hh, hn, h₀, h₁, h₂, h₃, h₄, h₅, h₆, hfits, -, -, -, hzero⟩ := L
  obtain ⟨hone, hframe⟩ := bigUIntInPlaceOrWith1_zero d.mem d.resultPtr d.nLimbs (by omega)
    (by omega) hzero
  rw [hn] at hone hframe
  refine ⟨hone, ?_, ?_, ?_⟩
  · rw [Operands.start, hframe.numAt_eq (disjoint_region (by omega)), Operands.value, hn]
  · rw [Operands.start, hframe.numAt_eq (disjoint_region (by omega)), Operands.value, hn]
  · rw [Operands.start, hframe.numAt_eq (disjoint_region (by omega)), Operands.value, hn]

/-- A run has passed through all rounds before the last. -/
theorem PowerRun.exists_le {i j : ℕ} {mem : Memory} (hrun : PowerRun d j mem) (hle : i ≤ j) :
    ∃ mem' : Memory, PowerRun d i mem' := by
  induction hrun with
  | start hcall =>
    have hzero : i = 0 := by omega
    subst hzero
    exact ⟨_, .start hcall⟩
  | @step k m m' hprefix hk hstep ih =>
    rcases Nat.lt_or_ge k i with hlast | hbefore
    · have heq : i = k + 1 := by omega
      subst heq
      exact ⟨_, hprefix.step hk hstep⟩
    · exact ih hbefore

/-- What the first part of the exponentiation may change. -/
def Operands.firstRegion (d : Operands) (h : ℕ) : Set ℕ :=
  region d.scratchBuf1Ptr.toNat (2 * h + 1) ∪ (region d.scratchBuf2Ptr.toNat (2 * h) ∪
    region d.scratchBuf3Ptr.toNat (2 * h))

/-- The operands lie before these buffers, the result behind them. -/
theorem Ready.disjoint_firstRegion (L : Ready d o h) {a n : ℕ}
    (ha : a + 32 * n ≤ d.scratchBuf1Ptr.toNat ∨
      d.scratchBuf3Ptr.toNat + 32 * (2 * h) ≤ a) :
    Disjoint (region a n) (d.firstRegion h) := by
  obtain ⟨hh, -, -, -, -, h₃, h₄, h₅, -, -, -, -, -, -⟩ := L
  exact Set.disjoint_union_right.mpr ⟨disjoint_region (by omega),
    Set.disjoint_union_right.mpr ⟨disjoint_region (by omega), disjoint_region (by omega)⟩⟩

/-- The first reduction. -/
theorem firstCall_yields (L : Ready d o h) (hM : 0 < d.value d.modulusPtr)
    (henough : EnoughLimbs (2 * h) (d.value d.basePtr) (d.value d.modulusPtr)) :
    ∃ mem' : Memory,
      Yields (fun fuel => bigUIntRem fuel d.start d.basePtr d.modulusPtr d.scratchBuf1Ptr
        d.scratchBuf2Ptr d.nLimbs
        (BitVec.ofNat 256 (nonzeroLimbs (2 * h) (d.value d.basePtr)))
        d.modulusBitSize d.scratchBuf3Ptr) mem' ∧
      numAt mem' d.scratchBuf3Ptr.toNat (2 * h) =
        remResult d.start d.basePtr d.modulusPtr d.scratchBuf1Ptr d.scratchBuf2Ptr d.nLimbs
          d.scratchBuf3Ptr ∧
      Frame (d.firstRegion h) d.start mem' ∧
      PowerInv d h (d.value d.modulusPtr) mem' := by
  have hb := L.firstBuffers
  obtain ⟨-, hbase, hexponent, hmodulus⟩ := L.start_spec
  have hready := L
  obtain ⟨hh, hn, h₀, h₁, h₂, h₃, h₄, h₅, h₆, hfits, hexponentLt, -, -, -⟩ := L
  obtain ⟨mem', r, hrun, hvalue, hr, hframe, -⟩ := bigUIntRem_enough d.start d.basePtr
    d.modulusPtr d.scratchBuf1Ptr d.scratchBuf2Ptr d.nLimbs d.scratchBuf3Ptr hb
    (by rw [hn, hmodulus]; exact hM) (by rw [hn, hbase, hmodulus]; exact henough)
  have hdividend := hr (Or.inr (disjoint_region (by omega)))
  subst hdividend
  rw [hn] at hframe
  rw [hn, hbase, hmodulus] at hrun
  refine ⟨mem', hrun.yields, ?_, hframe, ?_, ?_⟩
  · rw [hn] at hvalue
    rw [hvalue, remResult, hn]
  · rw [hframe.numAt_eq (hready.disjoint_firstRegion (by omega)), hmodulus]
  · rw [hframe.numAt_eq (hready.disjoint_firstRegion (by omega)), hexponent]
    exact hexponentLt

/-- The call with the sizes that it computes. -/
theorem firstRemCall_yields (L : Ready d o h) {mem' : Memory}
    (hrun : Yields (fun fuel => bigUIntRem fuel d.start d.basePtr d.modulusPtr d.scratchBuf1Ptr
      d.scratchBuf2Ptr d.nLimbs
      (BitVec.ofNat 256 (nonzeroLimbs (2 * h) (d.value d.basePtr)))
      d.modulusBitSize d.scratchBuf3Ptr) mem') :
    Yields (fun fuel => remCall fuel d.start d.basePtr d.modulusPtr d.scratchBuf1Ptr
      d.scratchBuf2Ptr d.nLimbs d.scratchBuf3Ptr) mem' := by
  obtain ⟨-, hbase, -, hmodulus⟩ := L.start_spec
  obtain ⟨hh, hn, h₀, h₁, h₂, h₃, h₄, h₅, h₆, hfits, -, -, -, -⟩ := L
  refine remCall_yields d.start d.basePtr d.modulusPtr d.scratchBuf1Ptr d.scratchBuf2Ptr
    d.nLimbs d.scratchBuf3Ptr mem' (by omega) (by omega) ?_
  rw [hn, hbase, hmodulus]
  exact hrun

/-- The modulus stays in every run whose rounds have enough limbs. -/
theorem PowerRun.inv (L : Ready d o h) (hM : 0 < d.value d.modulusPtr)
    (henough : EnoughLimbs (2 * h) (d.value d.basePtr) (d.value d.modulusPtr))
    (hmeets : ∀ (i : ℕ) (mem : Memory), PowerRun d i mem → i < d.rounds →
      PowerInv d h (d.value d.modulusPtr) mem → StepMeets d mem)
    {i : ℕ} {mem : Memory} (hrun : PowerRun d i mem) :
    PowerInv d h (d.value d.modulusPtr) mem := by
  induction hrun with
  | start hcall =>
    obtain ⟨mem', hrem, -, -, hinv⟩ := firstCall_yields L hM henough
    rw [hcall.unique (firstRemCall_yields L hrem)]
    exact hinv
  | step hprefix hi hstep ih =>
    obtain ⟨-, -, -, mem', -, -, -, -, -, -, -, -, -, hrun', -, -, hinv⟩ :=
      powerStep_yields L hM ih (hmeets _ _ hprefix hi ih)
    rw [hstep.unique hrun']
    exact hinv

/-- The exponentiation is the first reduction and the rounds. -/
theorem modularExponentiation_yields (L : Ready d o h) (hM : 1 < d.value d.modulusPtr)
    {mem₀ mem' : Memory}
    (hfirst : Yields (fun fuel => bigUIntRem fuel d.start d.basePtr d.modulusPtr
      d.scratchBuf1Ptr d.scratchBuf2Ptr d.nLimbs
      (BitVec.ofNat 256 (nonzeroLimbs (2 * h) (d.value d.basePtr)))
      d.modulusBitSize d.scratchBuf3Ptr) mem₀)
    (hloop : Yields (fun fuel => powerLoop fuel d.nLimbs d.scratchBuf3Ptr d.exponentPtr
      d.modulusPtr d.resultPtr d.scratchBuf1Ptr d.scratchBuf2Ptr d.basePtr d.modulusBitSize
      (BitVec.ofNat 256 d.rounds) mem₀) mem') :
    Yields (fun fuel => bigUIntModularExponentiation fuel d.mem d.nLimbs d.basePtr
      d.exponentPtr d.modulusPtr d.resultPtr d.scratchBuf1Ptr d.scratchBuf2Ptr
      d.scratchBuf3Ptr) mem' := by
  obtain ⟨-, hbase, hexponent, hmodulus⟩ := L.start_spec
  obtain ⟨hh, hn, h₀, h₁, h₂, h₃, h₄, h₅, h₆, hfits, -, -, -, -⟩ := L
  have hgreater := bigUIntIsGreaterThanOne_yields d.mem d.nLimbs d.modulusPtr (by omega)
    (by omega)
  have htest : boolWord (1 < numAt d.mem d.modulusPtr.toNat d.nLimbs.toNat) ≠ 0 := by
    rw [boolWord_ne_zero]
    exact hM
  have hmodulusSize := bigUIntBitSize_yields d.start d.modulusPtr d.nLimbs (by omega)
  have hexponentSize := bigUIntBitSize_yields d.start d.exponentPtr d.nLimbs (by omega)
  have hlimbs := (bigIntLimbsWithoutZeros_within d.start d.basePtr d.nLimbs (by omega)
    (Nat.lt_succ_self _)).yields
  rw [hn, hmodulus] at hmodulusSize
  rw [hn, hexponent] at hexponentSize
  rw [hn, hbase] at hlimbs
  refine hgreater.bind ?_
  simp only [if_pos htest]
  exact hmodulusSize.bind (hexponentSize.bind (hlimbs.bind (hfirst.bind hloop)))

theorem Ready.rounds_lt (L : Ready d o h) : d.rounds < 2 ^ 256 := by
  obtain ⟨hh, hn, h₀, h₁, h₂, h₃, h₄, h₅, h₆, hfits, hexponent, -, -, -⟩ := L
  have hsize := Nat.size_le.mpr hexponent
  rw [Operands.rounds]
  omega

/-- The rounds come to their end if the products have enough limbs. -/
theorem powerLoop_ends (L : Ready d o h) (hM : 0 < d.value d.modulusPtr)
    (hmeets : RunMeets d) {mem₀ : Memory} (hstart : PowerRun d 0 mem₀) :
    ∃ mem' : Memory, Yields (fun fuel => powerLoop fuel d.nLimbs d.scratchBuf3Ptr d.exponentPtr
      d.modulusPtr d.resultPtr d.scratchBuf1Ptr d.scratchBuf2Ptr d.basePtr d.modulusBitSize
      (BitVec.ofNat 256 d.rounds) mem₀) mem' ∧ PowerRun d d.rounds mem' := by
  have hlt := L.rounds_lt
  have hbound : (BitVec.ofNat 256 d.rounds).toNat = d.rounds := toNat_ofNat_of_lt hlt
  obtain ⟨hfirst, hrounds⟩ := hmeets
  rw [L.nLimbs] at hfirst
  obtain ⟨mem', hrun, hend⟩ := iterate_yields
    (fun fuel (s : Memory × Word) =>
      if lt s.2 (BitVec.ofNat 256 d.rounds) ≠ 0 then
        powerStep d d.modulusBitSize fuel s.1 >>= fun mem => some (Flow.next (mem, add s.2 1))
      else
        some (.done s.1))
    (fun s => PowerRun d s.2.toNat s.1 ∧ s.2.toNat ≤ d.rounds)
    (fun mem' => PowerRun d d.rounds mem')
    (fun s => d.rounds - s.2.toNat)
    (by
      rintro ⟨mem, i⟩ ⟨ hprefix, hle⟩
      dsimp only at hprefix hle ⊢
      have htest : lt i (BitVec.ofNat 256 d.rounds) ≠ 0 ↔ i.toNat < d.rounds := by
        rw [lt_ne_zero, hbound]
      by_cases hi : i.toNat < d.rounds
      · right
        have hinv := hprefix.inv L hM hfirst fun j m hj hlt' _ => hrounds j m hj hlt'
        obtain ⟨-, -, -, mem', -, -, -, -, -, -, -, -, -, hstep, -, -, -⟩ :=
          powerStep_yields L hM hinv (hrounds _ _ hprefix hi)
        have hone : (add i 1).toNat = i.toNat + 1 := toNat_add_one (by omega)
        refine ⟨(mem', add i 1), ?_, ⟨?_, ?_⟩, ?_⟩
        · simp only [if_pos (htest.mpr hi)]
          exact hstep.bind (Yields.of_eq fun _ => rfl)
        · dsimp only
          rw [hone]
          exact hprefix.step hi hstep
        · dsimp only
          omega
        · dsimp only
          omega
      · left
        refine ⟨mem, ?_, ?_⟩
        · simp only [if_neg (mt htest.mp hi)]
          exact Yields.of_eq fun _ => rfl
        · have heq : i.toNat = d.rounds := by omega
          rw [← heq]
          exact hprefix)
    (mem₀, 0) ⟨hstart, Nat.zero_le _⟩
  refine ⟨mem', ?_, hend⟩
  simp only [powerLoop_eq]
  exact hrun

/-- Every reduction of a run is bounded, and the run comes to its end, if and only if the
dividends in its memories have enough limbs. -/
theorem runBounded_iff_runMeets (L : Ready d o h) (hM : 1 < d.value d.modulusPtr) :
    RunBounded d ↔ RunMeets d := by
  have hpos : 0 < d.value d.modulusPtr := by omega
  have hsize := L.size_lt
  obtain ⟨-, hbase, -, hmodulus⟩ := L.start_spec
  have hfirst := callBounded_iff d.start d.basePtr d.modulusPtr d.scratchBuf1Ptr
    d.scratchBuf2Ptr d.nLimbs d.scratchBuf3Ptr L.firstBuffers
    (by rw [L.nLimbs, hmodulus]; exact hpos) (by rw [L.nLimbs, hmodulus]; exact hsize)
  rw [L.nLimbs, hbase, hmodulus, ← L.nLimbs] at hfirst
  constructor
  · rintro ⟨hboundedFirst, hbounded, -⟩
    have henough := hfirst.mp hboundedFirst
    refine ⟨henough, fun i mem hrun hi => ?_⟩
    rw [L.nLimbs] at henough
    have hinv := hrun.inv L hpos henough fun j m hj hlt hinv =>
      (stepBounded_iff L hpos hsize hinv).mp (hbounded j m hj hlt)
    exact (stepBounded_iff L hpos hsize hinv).mp (hbounded i mem hrun hi)
  · intro hmeets
    have henough := hmeets.first
    rw [L.nLimbs] at henough
    refine ⟨hfirst.mpr hmeets.first, fun i mem hrun hi => ?_, ?_⟩
    · have hinv := hrun.inv L hpos henough fun j m hj hlt _ => hmeets.rounds j m hj hlt
      exact (stepBounded_iff L hpos hsize hinv).mpr (hmeets.rounds i mem hrun hi)
    · obtain ⟨mem₀, hrem, -, -, -⟩ := firstCall_yields L hpos henough
      obtain ⟨mem', hloop, -⟩ := powerLoop_ends L hpos hmeets
        (.start (firstRemCall_yields L hrem))
      exact ⟨mem', modularExponentiation_yields L hM hrem hloop⟩

end Runs

/-- Base 2, exponent 1 and modulus `2^256 + 1`. -/
def shortBaseCall : Calldata where
  bytes := [(1 : Word), 1, 33].flatMap wordBytes ++ [2, 1, 1] ++ wordBytes 1
  length_lt := by decide +kernel

/-- The base has one limb and the modulus two. -/
theorem powerRun_not_bounded :
    ∃ d, Yields (fun fuel => decodeOperands fuel shortBaseCall 1 1 33) d ∧
      1 < d.value d.modulusPtr ∧ ¬RunBounded d := by
  have hfits : LayoutFits 1 1 33 := by decide
  obtain ⟨d, hrun, hd⟩ := decodeOperands_within shortBaseCall hfits (Nat.lt_succ_self _)
  have L := hd.ready hfits (by decide)
  have hbaseValue : d.value d.basePtr = 2 := by
    rw [hd.base]
    decide
  have hmodulusValue : d.value d.modulusPtr = 2 ^ 256 + 1 := by
    rw [hd.modulus]
    decide
  have hn : d.nLimbs.toNat = 4 := by
    rw [L.nLimbs]
    decide
  obtain ⟨-, hbase, -, hmodulus⟩ := L.start_spec
  rw [← L.nLimbs] at hbase hmodulus
  have hfirst := callBounded_iff d.start d.basePtr d.modulusPtr d.scratchBuf1Ptr
    d.scratchBuf2Ptr d.nLimbs d.scratchBuf3Ptr L.firstBuffers
    (by rw [hmodulus, hmodulusValue]; norm_num) (by rw [hmodulus]; exact L.size_lt)
  rw [hbase, hmodulus, hbaseValue, hmodulusValue, hn] at hfirst
  refine ⟨d, hrun.yields, ?_, fun hbounded => ?_⟩
  · rw [hmodulusValue]
    norm_num
  · exact absurd (hfirst.mp hbounded.first) (by decide +kernel)

end EraPrecompiles.ModExp
