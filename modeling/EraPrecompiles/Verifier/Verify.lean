import EraPrecompiles.Precompiles.PairingInputs
import EraPrecompiles.Verifier.Aggregation
import EraPrecompiles.Verifier.Key
import EraPrecompiles.Verifier.LoadProof
import EraPrecompiles.Verifier.Transcript

/-!
# The verifier

The last step is one call of EcPairing with two pairs.  All steps together accept a proof if its
words are valid, the equation between the values holds, and the pairings have the product one.
Two subtractions of points revert where the subtrahend is the point at infinity.
-/

namespace EraPrecompiles.Verifier

open Bn254 ShortWeierstrass

/-! ## The program -/

/-- The recursive part of the proof, if needed. -/
def addRecursivePart (fuel : ℕ) (u : Word) : Contract Unit := do
  if (← load VK_RECURSIVE_FLAG_SLOT) ≠ 0 then
    let uu := mulmod u u R_MOD
    pointMulAndAddIntoDest fuel PROOF_RECURSIVE_PART_P1_X_SLOT uu
      PAIRING_PAIR_WITH_GENERATOR_X_SLOT
    pointMulAndAddIntoDest fuel PROOF_RECURSIVE_PART_P2_X_SLOT uu PAIRING_PAIR_WITH_X_X_SLOT

/-- The call with both pairs. -/
def checkPairing (fuel : ℕ) : Contract Unit := do
  store 0x000 (← load PAIRING_PAIR_WITH_GENERATOR_X_SLOT)
  store 0x020 (← load PAIRING_PAIR_WITH_GENERATOR_Y_SLOT)
  store 0x040 G2_ELEMENTS_0_X1
  store 0x060 G2_ELEMENTS_0_X2
  store 0x080 G2_ELEMENTS_0_Y1
  store 0x0a0 G2_ELEMENTS_0_Y2
  store 0x0c0 (← load PAIRING_PAIR_WITH_X_X_SLOT)
  store 0x0e0 (← load PAIRING_PAIR_WITH_X_Y_SLOT)
  store 0x100 G2_ELEMENTS_1_X1
  store 0x120 G2_ELEMENTS_1_X2
  store 0x140 G2_ELEMENTS_1_Y1
  store 0x160 G2_ELEMENTS_1_Y2
  let success ← staticcall fuel 8 0 0x180 0x00 0x20
  if iszero success ≠ 0 then
    revertWithMessage 32 "finalPairing: precompile failure"
  if iszero (← load 0) ≠ 0 then
    revertWithMessage 29 "finalPairing: pairing failure"

/-- The two points of the final equation. -/
def preparePairs (fuel : ℕ) : Contract Unit := do
  let u ← load STATE_U_SLOT
  let z ← load STATE_Z_SLOT
  let zOmega := mulmod (← load STATE_Z_SLOT) OMEGA R_MOD
  -- [F] - [E]
  pointSubAssign fuel PAIRING_PAIR_WITH_GENERATOR_X_SLOT PAIRING_BUFFER_POINT_X_SLOT
  -- +z * [W] + u * z * omega * [W']
  pointMulAndAddIntoDest fuel PROOF_OPENING_PROOF_AT_Z_X_SLOT z PAIRING_PAIR_WITH_GENERATOR_X_SLOT
  pointMulAndAddIntoDest fuel PROOF_OPENING_PROOF_AT_Z_OMEGA_X_SLOT (mulmod zOmega u R_MOD)
    PAIRING_PAIR_WITH_GENERATOR_X_SLOT
  -- [W] + u * [W']
  store PAIRING_PAIR_WITH_X_X_SLOT (← load PROOF_OPENING_PROOF_AT_Z_X_SLOT)
  store PAIRING_PAIR_WITH_X_Y_SLOT (← load PROOF_OPENING_PROOF_AT_Z_Y_SLOT)
  pointMulAndAddIntoDest fuel PROOF_OPENING_PROOF_AT_Z_OMEGA_X_SLOT u PAIRING_PAIR_WITH_X_X_SLOT
  pointNegate PAIRING_PAIR_WITH_X_X_SLOT
  addRecursivePart fuel u

/-- Checks the final pairing. -/
def finalPairing (fuel : ℕ) : Contract Unit := do
  preparePairs fuel
  checkPairing fuel

/-- Verifies a proof; the result is what the call returns. -/
def verify (fuel : ℕ) (keccak256 : List Byte → Word) (cd : Calldata) :
    Contract (List Byte) := do
  loadVerificationKey
  -- Step 1: Load the proof and check the correctness of its parts
  loadProof cd
  -- Step 2: Recompute all the challenges with the transcript
  initializeTranscript fuel keccak256
  -- Step 3: Check the quotient equality
  verifyQuotientEvaluation fuel
  -- Step 4: Compute queries [D0] and v * [D1]
  prepareQueries fuel
  -- Step 5: Compute [E] and [F]
  prepareAggregatedCommitment fuel
  -- Step 6: Check the final pairing with aggregated recursive proof
  finalPairing fuel
  store 0 1
  return memBytes (← get) 0 32

/-! ## The pairing -/

/-- The coordinates of `[x]_2`, the imaginary parts first. -/
def setupX : Fp2 :=
  fp2OfWords (G2_ELEMENTS_1_X2, G2_ELEMENTS_1_X1)

def setupY : Fp2 :=
  fp2OfWords (G2_ELEMENTS_1_Y2, G2_ELEMENTS_1_Y1)

theorem setup_ok : g2.OnCurve setupX setupY ∧ orderCheck setupX setupY r = true := by
  decide +kernel

/-- `[x]_2` -/
def setupPoint : g2.Point :=
  g2.point setupX setupY setup_ok.1

theorem nsmul_setupPoint : r • setupPoint = 0 :=
  nsmul_eq_zero_of_orderCheck rfl (coords_point setup_ok.1) (by decide) setup_ok.2

theorem decodeTwist_setup : decodeTwist (G2_ELEMENTS_1_X2, G2_ELEMENTS_1_X1)
    (G2_ELEMENTS_1_Y2, G2_ELEMENTS_1_Y1) = some setupPoint := by
  obtain ⟨Q, hdecode, hQ⟩ := decodeTwist_of_onCurve
    (x := (G2_ELEMENTS_1_X2, G2_ELEMENTS_1_X1)) (y := (G2_ELEMENTS_1_Y2, G2_ELEMENTS_1_Y1))
    (by decide) (by decide) setup_ok.1
  rw [hdecode, hQ.point_unique (coords_point setup_ok.1)]
  rfl

/-- `[1]_2` is the generator. -/
theorem decodeTwist_first : decodeTwist (G2_ELEMENTS_0_X2, G2_ELEMENTS_0_X1)
    (G2_ELEMENTS_0_Y2, G2_ELEMENTS_0_Y1) = some twistGenerator := by
  have hX : (G2_ELEMENTS_0_X2, G2_ELEMENTS_0_X1) = fp2Words twistGeneratorX := by decide
  have hY : (G2_ELEMENTS_0_Y2, G2_ELEMENTS_0_Y1) = fp2Words twistGeneratorY := by decide
  rw [hX, hY]
  exact EcPairing.decodeTwist_generator

section Pairing

variable {mem : Memory} {A B : g1.Point}

theorem precompile_ecPairing (fuel : ℕ) (cd : Calldata) :
    precompile fuel 8 cd = EcPairing.fallback fuel cd := by
  rw [precompile, if_neg (by decide), if_neg (by decide), if_neg (by decide), if_pos (by decide)]

/-- The words of the call. -/
def pairWords (x1 y1 x2 y2 : Word) : List Word :=
  [x1, y1, G2_ELEMENTS_0_X1, G2_ELEMENTS_0_X2, G2_ELEMENTS_0_Y1, G2_ELEMENTS_0_Y2, x2, y2,
    G2_ELEMENTS_1_X1, G2_ELEMENTS_1_X2, G2_ELEMENTS_1_Y1, G2_ELEMENTS_1_Y2]

theorem carries_pairWords (mem : Memory) (x1 y1 x2 y2 : Word) :
    Carries (memCalldata (storeWords mem 0 (pairWords x1 y1 x2 y2)) 0 0x180)
      (pairWords x1 y1 x2 y2) := by
  refine carries_memCalldata le_rfl (by decide) fun i w hw => ?_
  have hi : i < 12 := (List.getElem?_eq_some_iff.mp hw).1
  have h0 : (0 : Word).toNat = 0 := rfl
  exact mload_storeWords mem (show 0 + 32 * 12 < 2 ^ 256 by decide) hw
    (by rw [h0, toNat_ofNat_of_lt (by omega)])

/-- The calldata of the call are the two pairs. -/
theorem encodes_pairWords (mem : Memory) {x1 y1 x2 y2 : Word} (hA : decodePoint x1 y1 = some A)
    (hB : decodePoint x2 y2 = some B) :
    EcPairing.Encodes (memCalldata (storeWords mem 0 (pairWords x1 y1 x2 y2)) 0 0x180)
      [(A, twistGenerator), (B, setupPoint)] := by
  have hcarries := carries_pairWords mem x1 y1 x2 y2
  refine ⟨length_memBytes _ _ _, fun k q hq => ?_⟩
  generalize memCalldata (storeWords mem 0 (pairWords x1 y1 x2 y2)) 0 0x180 = cd at hcarries ⊢
  match k, hq with
  | 0, rfl =>
      have hx : (EcPairing.chunk cd 0).g1_x = x1 := hcarries 0 _ rfl
      have hy : (EcPairing.chunk cd 0).g1_y = y1 := hcarries 1 _ rfl
      have hX : (EcPairing.chunk cd 0).g2_x = (G2_ELEMENTS_0_X2, G2_ELEMENTS_0_X1) :=
        Prod.ext (hcarries 3 _ rfl) (hcarries 2 _ rfl)
      have hY : (EcPairing.chunk cd 0).g2_y = (G2_ELEMENTS_0_Y2, G2_ELEMENTS_0_Y1) :=
        Prod.ext (hcarries 5 _ rfl) (hcarries 4 _ rfl)
      refine ⟨?_, ?_, nsmul_twistGenerator⟩
      · rw [hx, hy]
        exact hA
      · rw [hX, hY]
        exact decodeTwist_first
  | 1, rfl =>
      have hx : (EcPairing.chunk cd 1).g1_x = x2 := hcarries 6 _ rfl
      have hy : (EcPairing.chunk cd 1).g1_y = y2 := hcarries 7 _ rfl
      have hX : (EcPairing.chunk cd 1).g2_x = (G2_ELEMENTS_1_X2, G2_ELEMENTS_1_X1) :=
        Prod.ext (hcarries 9 _ rfl) (hcarries 8 _ rfl)
      have hY : (EcPairing.chunk cd 1).g2_y = (G2_ELEMENTS_1_Y2, G2_ELEMENTS_1_Y1) :=
        Prod.ext (hcarries 11 _ rfl) (hcarries 10 _ rfl)
      refine ⟨?_, ?_, nsmul_setupPoint⟩
      · rw [hx, hy]
        exact hB
      · rw [hX, hY]
        exact decodeTwist_setup

/-- The word that the call returned. -/
theorem mload_returned (mem : Memory) (w : Word) :
    mload (writeBytes mem 0 ((wordBytes w).take (0x20 : Word).toNat)) 0 = w := by
  have hbytes : wordBytes w = [w].flatMap wordBytes := by
    rw [List.flatMap_singleton]
  have hlen : ([w].flatMap wordBytes).length ≤ (0x20 : Word).toNat := by
    rw [length_flatMap_wordBytes, List.length_singleton]
    decide
  rw [hbytes, List.take_of_length_le hlen]
  exact mload_writeBytes mem (i := 0) rfl rfl

open Classical in
theorem checkPairing_spec (hA : PointAt mem PAIRING_PAIR_WITH_GENERATOR_X_SLOT A)
    (hB : PointAt mem PAIRING_PAIR_WITH_X_X_SLOT B) :
    ∃ mem', Ends (fun fuel => checkPairing fuel) mem
      (if EcPairing.pairingProduct [(A, twistGenerator), (B, setupPoint)] = 1 then .ok ((), mem')
        else .error ⟨errorData 29 "finalPairing: pairing failure"⟩) := by
  have hnextA : add PAIRING_PAIR_WITH_GENERATOR_X_SLOT 0x20 =
      PAIRING_PAIR_WITH_GENERATOR_Y_SLOT := by decide
  have hnextB : add PAIRING_PAIR_WITH_X_X_SLOT 0x20 = PAIRING_PAIR_WITH_X_Y_SLOT := by decide
  rw [PointAt, hnextA] at hA
  rw [PointAt, hnextB] at hB
  have hyields := (EcPairing.fallback_encodes (encodes_pairWords mem hA hB)).congr
    fun fuel => precompile_ecPairing fuel _
  have hcall : Ends (fun fuel => staticcall fuel 8 0 0x180 0x00 0x20) (storeWords mem 0 _) _ :=
    Ends.callContract_returned hyields
  generalize hanswer : (if EcPairing.pairingProduct [(A, twistGenerator), (B, setupPoint)] = 1
    then (1 : Word) else 0) = answer at hcall
  have hload := mload_returned (storeWords mem 0 (pairWords
    (mload mem PAIRING_PAIR_WITH_GENERATOR_X_SLOT) (mload mem PAIRING_PAIR_WITH_GENERATOR_Y_SLOT)
    (mload mem PAIRING_PAIR_WITH_X_X_SLOT) (mload mem PAIRING_PAIR_WITH_X_Y_SLOT))) answer
  generalize writeBytes _ 0 ((wordBytes answer).take (0x20 : Word).toNat) = mem' at hcall hload
  refine ⟨mem', ?_⟩
  simp (disch := decide) only [checkPairing, Ends.load_bind, Ends.store_bind,
    mload_mstore_scratch]
  refine Ends.bind hcall ?_
  have hone : ¬iszero (1 : Word) ≠ 0 := by decide
  have hzero : iszero (0 : Word) ≠ 0 := by decide
  simp only [if_neg hone, Ends.load_bind, hload]
  by_cases hproduct : EcPairing.pairingProduct [(A, twistGenerator), (B, setupPoint)] = 1
  · rw [if_pos hproduct] at hanswer
    subst hanswer
    simp only [if_neg hone, if_pos hproduct]
    exact Ends.pure () mem'
  · rw [if_neg hproduct] at hanswer
    subst hanswer
    simp only [if_pos hzero, if_neg hproduct]
    exact revertWithMessage_ends _ _ _

end Pairing

/-! ## The final equation -/

/-- `e(z * [W] + u * z * omega * [W'] + [F] - [E], [1]_2) * e(-([W] + u * [W']), [x]_2) = 1` -/
def PairingHolds (π : Plonk.Proof (ZMod r) g1.Point) (ch : Plonk.Challenges (ZMod r))
    (vk : Plonk.VerificationKey g1.Point) : Prop :=
  EcPairing.pairingProduct [(Plonk.pairWithGenerator setting π ch vk generator, twistGenerator),
    (-Plonk.pairWithX π ch, setupPoint)] = 1

section Equation

variable {mem : Memory} {vk : Plonk.VerificationKey g1.Point}
  {π : Plonk.Proof (ZMod r) g1.Point} {ch : Plonk.Challenges (ZMod r)}

/-- The key has no recursive part. -/
theorem addRecursivePart_spec (hflag : mload mem VK_RECURSIVE_FLAG_SLOT = 0) (u : Word) :
    Reaches (fun fuel => addRecursivePart fuel u) mem fun _ mem' => mem' = mem := by
  unfold addRecursivePart
  rw [Reaches.load_bind]
  simp only [hflag, ne_eq, not_true, if_false]
  exact Reaches.pure rfl

theorem isScalar_OMEGA : IsScalar OMEGA omega :=
  ⟨rfl, by decide⟩

theorem preparePairs_spec (h : InputsAt mem vk π ch)
    (hF : PointAt mem PAIRING_PAIR_WITH_GENERATOR_X_SLOT (Plonk.commitmentF setting π ch vk))
    (hE : PointAt mem PAIRING_BUFFER_POINT_X_SLOT (Plonk.commitmentE π ch generator))
    (hflag : mload mem VK_RECURSIVE_FLAG_SLOT = 0)
    (hfinite : Plonk.commitmentE π ch generator ≠ 0) :
    Reaches (fun fuel => preparePairs fuel) mem fun _ mem' =>
      PointAt mem' PAIRING_PAIR_WITH_GENERATOR_X_SLOT
          (Plonk.pairWithGenerator setting π ch vk generator) ∧
        PointAt mem' PAIRING_PAIR_WITH_X_X_SLOT (-Plonk.pairWithX π ch) := by
  have hz := h.challenges.z
  have hu := h.challenges.u
  unfold preparePairs
  rw [Reaches.load_bind, Reaches.load_bind, Reaches.load_bind]
  refine (pointSubAssign_spec (by decide) (by decide) hF hE hfinite).bind
    fun _ mem₁ ⟨hpoint, hkeeps⟩ => ?_
  have hsum : SumAt mem mem₁ PAIRING_PAIR_WITH_GENERATOR_X_SLOT _ := ⟨hpoint, hkeeps⟩
  refine hsum.mulAdd_bind h.proof.w (by decide) hz fun mem₂ hsum => ?_
  refine hsum.mulAdd_bind h.proof.w' (by decide) ((hz.mul isScalar_OMEGA).mul hu)
    fun mem₃ hsum => ?_
  have hw := hsum.read h.proof.w (by decide)
  have hw' := hsum.read h.proof.w' (by decide)
  refine SumAt.copy_bind hw (by decide) (by decide) (by decide) fun mem₄ hcopy => ?_
  refine hcopy.mulAdd_bind hw' (by decide) hu fun mem₅ hcopy => ?_
  refine (pointNegate_spec (by decide) hcopy.point).bind fun _ mem₆ ⟨hneg, hkeeps₆⟩ => ?_
  have hcopied := hcopy.keeps.trans hkeeps₆
  have hflag₆ : mload mem₆ VK_RECURSIVE_FLAG_SLOT = 0 := by
    rw [hcopied.mload fun a h1 h2 => ?_, hsum.mload_eq (by decide) (by decide), hflag]
    have hlow : 0x200 ≤ VK_RECURSIVE_FLAG_SLOT.toNat := by decide
    have hhigh : VK_RECURSIVE_FLAG_SLOT.toNat + 32 ≤ PAIRING_PAIR_WITH_X_X_SLOT.toNat := by decide
    exact ⟨by omega, by omega⟩
  refine (addRecursivePart_spec hflag₆ _).mono fun _ mem' hmem' => ?_
  subst hmem'
  have hgenerator := hsum.point.keepApart hcopied (by decide)
  constructor
  · convert hgenerator using 1
    have homega : setting.omega = omega := rfl
    rw [Plonk.pairWithGenerator, homega]
    module
  · rw [Plonk.pairWithX, add_comm]
    exact hneg

open Classical in
theorem finalPairing_spec (h : InputsAt mem vk π ch)
    (hF : PointAt mem PAIRING_PAIR_WITH_GENERATOR_X_SLOT (Plonk.commitmentF setting π ch vk))
    (hE : PointAt mem PAIRING_BUFFER_POINT_X_SLOT (Plonk.commitmentE π ch generator))
    (hflag : mload mem VK_RECURSIVE_FLAG_SLOT = 0)
    (hfinite : Plonk.commitmentE π ch generator ≠ 0) :
    ∃ mem', Ends (fun fuel => finalPairing fuel) mem
      (if PairingHolds π ch vk then .ok ((), mem')
        else .error ⟨errorData 29 "finalPairing: pairing failure"⟩) := by
  obtain ⟨_, mem₁, hends, hfirst, hsecond⟩ := preparePairs_spec h hF hE hflag hfinite
  obtain ⟨mem', hcheck⟩ := checkPairing_spec hfirst hsecond
  refine ⟨mem', Ends.bind hends ?_⟩
  by_cases hpairing : EcPairing.pairingProduct [(Plonk.pairWithGenerator setting π ch vk generator,
      twistGenerator), (-Plonk.pairWithX π ch, setupPoint)] = 1
  · rw [if_pos hpairing] at hcheck
    rw [if_pos (show PairingHolds π ch vk from hpairing)]
    exact hcheck
  · rw [if_neg hpairing] at hcheck
    rw [if_neg (show ¬PairingHolds π ch vk from hpairing)]
    exact hcheck

/-- With `[E]` at infinity the first subtraction reverts. -/
theorem finalPairing_reverts
    (hE : PointAt mem PAIRING_BUFFER_POINT_X_SLOT (Plonk.commitmentE π ch generator))
    (hinfinite : Plonk.commitmentE π ch generator = 0) :
    Ends (fun fuel => finalPairing fuel) mem
      (.error ⟨errorData 28 "pointSubAssign: ecAdd failed"⟩) := by
  rw [hinfinite] at hE
  have hfirst : Ends (fun fuel => preparePairs fuel) mem
      (.error ⟨errorData 28 "pointSubAssign: ecAdd failed"⟩) := by
    unfold preparePairs
    rw [Ends.load_bind, Ends.load_bind, Ends.load_bind]
    exact Ends.bind_error (pointSubAssign_infinity (by decide) (by decide) hE) _
  exact Ends.bind_error hfirst _

end Equation

/-! ## The whole run -/

/-- The challenges that are drawn for the calldata. -/
def challengesFor (keccak256 : List Byte → Word) (cd : Calldata) : Plonk.Challenges (ZMod r) :=
  challengesOf keccak256 fun i => (loadedWords cd).getD i 0

open Classical in
/-- What the contract answers. -/
noncomputable def verdict (keccak256 : List Byte → Word) (cd : Calldata) :
    Except Reverted (List Byte) :=
  if ¬ValidProof cd then
    .error ⟨errorData 27 "loadProof: Proof is invalid"⟩
  else if (challengesFor keccak256 cd).z ^ domainSize = 1 then
    .error ⟨errorData 28 "invalid vanishing polynomial"⟩
  else if ¬Plonk.QuotientHolds setting (proofOf cd) (challengesFor keccak256 cd) then
    .error ⟨errorData 27 "invalid quotient evaluation"⟩
  else if (challengesFor keccak256 cd).v *
        Plonk.sigma3Coeff (proofOf cd) (challengesFor keccak256 cd) = 0 ∨
      Plonk.aggregatedValue (proofOf cd) (challengesFor keccak256 cd) = 0 then
    .error ⟨errorData 28 "pointSubAssign: ecAdd failed"⟩
  else if PairingHolds (proofOf cd) (challengesFor keccak256 cd) verificationKey then
    .ok (wordBytes 1)
  else
    .error ⟨errorData 29 "finalPairing: pairing failure"⟩

section Run

variable {keccak256 : List Byte → Word} {cd : Calldata} {mem : Memory}

theorem wordsAt_loaded (mem : Memory) {i : ℕ} (hi : i < 45) :
    wordsAt (loadedMemory cd mem 45) i = (loadedWords cd).getD i 0 := by
  have hlt : i < (loadedWords cd).length := by rwa [length_loadedWords]
  rw [wordsAt, List.getD_eq_getElem _ _ hlt]
  exact mload_loadedMemory mem (List.getElem?_eq_getElem hlt) (toNat_ofNat_of_lt (by omega))

/-- The challenges depend on the 45 words only. -/
theorem challengesOf_congr {w w' : ℕ → Word} (h : ∀ i < 45, w i = w' i) :
    challengesOf keccak256 w = challengesOf keccak256 w' := by
  have h1 : round1 keccak256 w = round1 keccak256 w' := by
    simp (disch := decide) only [round1, h]
  have h2 : round2 keccak256 w = round2 keccak256 w' := by
    simp (disch := decide) only [round2, h1, h]
  have h3 : round3 keccak256 w = round3 keccak256 w' := by
    simp (disch := decide) only [round3, h2, h]
  have h4 : round4 keccak256 w = round4 keccak256 w' := by
    simp (disch := decide) only [round4, h3, h]
  have h5 : round5 keccak256 w = round5 keccak256 w' := by
    simp (disch := decide) only [round5, h4, h]
  have h6 : round6 keccak256 w = round6 keccak256 w' := by
    simp (disch := decide) only [round6, h5, h]
  have h7 : round7 keccak256 w = round7 keccak256 w' := by
    simp (disch := decide) only [round7, h6, h]
  simp only [challengesOf, h1, h2, h3, h4, h5, h6, h7]

theorem generator_ne_zero : generator ≠ 0 :=
  (coords_point generator_onCurve).ne_zero

/-- The word that the contract returns. -/
theorem returnTrue_ends (mem : Memory) :
    Ends (fun _ => do return memBytes (← get) 0 32) (mstore mem 0 1)
      (.ok (wordBytes 1, mstore mem 0 1)) := by
  have hbytes : memBytes (mstore mem 0 1) 0 32 = wordBytes 1 := by
    refine (map_range_word _ 0).trans ?_
    rw [mload_mstore_self]
  rw [← hbytes]
  exact Yields.const _

/-- The steps after the challenges were drawn. -/
theorem verify_drawn (hvalid : ValidProof cd) (hkey : KeyAt mem verificationKey)
    (hflag : mload mem VK_RECURSIVE_FLAG_SLOT = 0) (hπ : ProofAt mem (proofOf cd))
    (hch : ChallengesAt mem (challengesFor keccak256 cd)) :
    Answers (fun fuel => do
      verifyQuotientEvaluation fuel
      prepareQueries fuel
      prepareAggregatedCommitment fuel
      finalPairing fuel
      store 0 1
      return memBytes (← get) 0 32) mem (verdict keccak256 cd) := by
  rw [verdict, if_neg (not_not_intro hvalid)]
  by_cases hin : (challengesFor keccak256 cd).z ^ domainSize = 1
  · rw [if_pos hin]
    exact Answers.error (verifyQuotientEvaluation_reverts hch hin) _
  rw [if_neg hin]
  by_cases hholds : Plonk.QuotientHolds setting (proofOf cd) (challengesFor keccak256 cd)
  swap
  · rw [if_pos hholds]
    exact Answers.error (verifyQuotientEvaluation_invalid hπ hch hin hholds) _
  rw [if_neg (not_not_intro hholds)]
  refine Answers.bind (verifyQuotientEvaluation_spec hπ hch hin hholds)
    fun _ mem₁ ⟨hch₁, hderived, hkeeps₁⟩ => ?_
  have hinputs : InputsAt mem₁ verificationKey (proofOf cd) (challengesFor keccak256 cd) :=
    { key := hkey.keep (keeps_region_of_outside hkeeps₁ le_rfl (Or.inl (by decide)))
      proof := hπ.keep (keeps_region_of_outside hkeeps₁ (by decide) (Or.inl (by decide)))
      challenges := hch₁
      derived := hderived }
  have hflag₁ : mload mem₁ VK_RECURSIVE_FLAG_SLOT = 0 := by
    rw [mload_of_outside hkeeps₁ (by decide) (by decide), hflag]
  -- `[sigma_3]` is finite, and so is its multiple unless the coefficient is zero.
  by_cases hsigma : (challengesFor keccak256 cd).v *
      Plonk.sigma3Coeff (proofOf cd) (challengesFor keccak256 cd) = 0
  · rw [if_pos (Or.inl hsigma)]
    refine Answers.error (prepareQueries_reverts hinputs ?_) _
    rw [hsigma, zero_smul]
  refine Answers.bind (prepareQueries_spec hinputs (smul_ne_zero hsigma sigma3_ne_zero))
    fun _ mem₂ ⟨hinputs₂, hqueries, hkeeps₂⟩ => ?_
  refine Answers.bind (prepareAggregatedCommitment_spec hinputs₂ hqueries)
    fun _ mem₃ ⟨hF, hE, hkeeps₃⟩ => ?_
  by_cases hvalue : Plonk.aggregatedValue (proofOf cd) (challengesFor keccak256 cd) = 0
  · rw [if_pos (Or.inr hvalue)]
    refine Answers.error (finalPairing_reverts hE ?_) _
    rw [Plonk.commitmentE, hvalue, zero_smul]
  rw [if_neg (not_or.mpr ⟨hsigma, hvalue⟩)]
  have hflag₃ : mload mem₃ VK_RECURSIVE_FLAG_SLOT = 0 := by
    rw [(hkeeps₂.trans hkeeps₃).mload fun a h1 h2 => ?_, hflag₁]
    have hlow : VK_RECURSIVE_FLAG_SLOT.toNat = 0x700 := by decide
    exact ⟨by omega, by omega⟩
  obtain ⟨mem', hends⟩ := finalPairing_spec (hinputs₂.keep hkeeps₃) hF hE hflag₃
    (smul_ne_zero hvalue generator_ne_zero)
  by_cases hpairing : PairingHolds (proofOf cd) (challengesFor keccak256 cd) verificationKey
  · rw [if_pos hpairing] at hends ⊢
    refine ⟨mstore mem' 0 1, hends.bind ?_⟩
    rw [Ends.store_bind]
    exact returnTrue_ends mem'
  · rw [if_neg hpairing] at hends ⊢
    exact Answers.error hends _

/-- The contract answers every calldata, for every hash function. -/
theorem verify_run (keccak256 : List Byte → Word) (cd : Calldata)
    (hzero : ∀ a, Region 0xd40 0xd84 a → mem a = 0) :
    Answers (fun fuel => verify fuel keccak256 cd) mem (verdict keccak256 cd) := by
  refine Answers.bind (loadVerificationKey_spec mem) fun _ mem₁ ⟨hkey, hflag, hkeeps₁⟩ => ?_
  have hload := loadProof_run cd hflag
  by_cases hvalid : ValidProof cd
  · rw [if_pos hvalid] at hload
    have hloaded : Reaches (fun _ => loadProof cd) mem₁ fun _ mem' =>
        mem' = loadedMemory cd mem₁ 45 := ⟨_, _, hload, rfl⟩
    refine Answers.bind hloaded fun _ mem₂ hmem₂ => ?_
    have hkeeps₂ : Keeps (Outside 0x720 0xd40) mem₁ mem₂ := by
      rw [hmem₂]
      exact keeps_loadedMemory cd mem₁ 45
    have hzero₂ : ∀ a, Region 0xd40 0xd84 a → mem₂ a = 0 := by
      intro a ha
      have hlow := ha.1
      rw [hkeeps₂ a ⟨by omega, by omega⟩, hkeeps₁ a ⟨by omega, by omega⟩]
      exact hzero a ha
    have hwords : challengesOf keccak256 (wordsAt mem₂) = challengesFor keccak256 cd := by
      rw [hmem₂]
      exact challengesOf_congr fun i hi => wordsAt_loaded mem₁ hi
    have hπ₂ : ProofAt mem₂ (proofOf cd) := by
      rw [hmem₂]
      exact proofAt_loaded mem₁ hvalid
    refine Answers.bind (initializeTranscript_spec hzero₂) fun _ mem₃ ⟨hch, hkeeps₃⟩ => ?_
    rw [hwords] at hch
    have hkeyKept := (keeps_region_of_outside hkeeps₂ (show 0x200 ≤ 0x200 from le_rfl)
      (Or.inl (show 0x720 ≤ 0x720 from le_rfl))).trans
        (keeps_region_of_outside hkeeps₃ le_rfl (Or.inl (by decide)))
    have hflag₃ : mload mem₃ VK_RECURSIVE_FLAG_SLOT = 0 := by
      rw [mload_of_outside hkeeps₃ (by decide) (by decide),
        mload_of_outside hkeeps₂ (by decide) (by decide), hflag]
    exact verify_drawn hvalid (hkey.keep hkeyKept) hflag₃
      (hπ₂.keep (keeps_region_of_outside hkeeps₃ (by decide) (Or.inl (by decide)))) hch
  · rw [if_neg hvalid] at hload
    rw [verdict, if_pos hvalid]
    exact Answers.error hload _

/-- When the contract accepts.  The contract subtracts the multiples of two points, which must not
be infinite. -/
structure Accepts (keccak256 : List Byte → Word) (cd : Calldata) : Prop where
  valid : ValidProof cd
  outside : (challengesFor keccak256 cd).z ^ domainSize ≠ 1
  quotient : Plonk.QuotientHolds setting (proofOf cd) (challengesFor keccak256 cd)
  sigma3 : (challengesFor keccak256 cd).v *
    Plonk.sigma3Coeff (proofOf cd) (challengesFor keccak256 cd) ≠ 0
  value : Plonk.aggregatedValue (proofOf cd) (challengesFor keccak256 cd) ≠ 0
  pairing : PairingHolds (proofOf cd) (challengesFor keccak256 cd) verificationKey

theorem verdict_eq_ok_iff (keccak256 : List Byte → Word) (cd : Calldata) :
    verdict keccak256 cd = .ok (wordBytes 1) ↔ Accepts keccak256 cd := by
  by_cases hvalid : ValidProof cd
  swap
  · rw [verdict, if_pos hvalid]
    exact iff_of_false nofun fun h => hvalid h.valid
  rw [verdict, if_neg (not_not_intro hvalid)]
  by_cases hin : (challengesFor keccak256 cd).z ^ domainSize = 1
  · rw [if_pos hin]
    exact iff_of_false nofun fun h => h.outside hin
  rw [if_neg hin]
  by_cases hholds : Plonk.QuotientHolds setting (proofOf cd) (challengesFor keccak256 cd)
  swap
  · rw [if_pos hholds]
    exact iff_of_false nofun fun h => hholds h.quotient
  rw [if_neg (not_not_intro hholds)]
  by_cases hinfinite : (challengesFor keccak256 cd).v *
        Plonk.sigma3Coeff (proofOf cd) (challengesFor keccak256 cd) = 0 ∨
      Plonk.aggregatedValue (proofOf cd) (challengesFor keccak256 cd) = 0
  · rw [if_pos hinfinite]
    exact iff_of_false nofun fun h => hinfinite.elim h.sigma3 h.value
  rw [if_neg hinfinite]
  obtain ⟨hsigma, hvalue⟩ := not_or.mp hinfinite
  by_cases hpairing : PairingHolds (proofOf cd) (challengesFor keccak256 cd) verificationKey
  · rw [if_pos hpairing]
    exact iff_of_true rfl ⟨hvalid, hin, hholds, hsigma, hvalue, hpairing⟩
  · rw [if_neg hpairing]
    exact iff_of_false nofun fun h => hpairing h.pairing

/-- Every call of the verifier ends: it returns true exactly if the proof is accepted, and reverts
otherwise. -/
theorem verify_exact (keccak256 : List Byte → Word) (cd : Calldata)
    (hzero : ∀ a, Region 0xd40 0xd84 a → mem a = 0) :
    Answers (fun fuel => verify fuel keccak256 cd) mem (verdict keccak256 cd) ∧
      (verdict keccak256 cd = .ok (wordBytes 1) ↔ Accepts keccak256 cd) :=
  ⟨verify_run keccak256 cd hzero, verdict_eq_ok_iff keccak256 cd⟩

/-- A hash function whose only value is zero draws the challenges zero. -/
theorem residue_challenge_zero (t : Transcript) (number : ℕ) :
    residue (t.challenge (fun _ => 0) number) = 0 := by
  have hzero : and (0 : Word) FR_MASK = 0 := by decide
  rw [Transcript.challenge, hzero, residue]
  exact Nat.cast_zero

/-- With these challenges the openings that are zero satisfy the equation, and the multiple of
`[sigma_3]` is infinite. -/
theorem verdict_sampleInput (w : Word) :
    verdict (fun _ => 0) (sampleInput w) =
      .error ⟨errorData 28 "pointSubAssign: ecAdd failed"⟩ := by
  have hz : (challengesFor (fun _ => 0) (sampleInput w)).z = 0 := residue_challenge_zero _ 6
  have hv : (challengesFor (fun _ => 0) (sampleInput w)).v = 0 := residue_challenge_zero _ 7
  have halpha : (challengesFor (fun _ => 0) (sampleInput w)).alpha = 0 :=
    residue_challenge_zero _ 5
  have hword : ∀ k, 22 < k → k < 40 → residue (proofWord (sampleInput w) k) = 0 := by
    intro k hk hlt
    rw [proofWord_sampleInput w (by omega), sampleWord, if_neg (by omega), if_pos (by omega),
      residue]
    exact Nat.cast_zero
  have hinput : (proofOf (sampleInput w)).publicInput = 0 := by
    show residue (publicInput (sampleInput w)) = 0
    rw [publicInput_sampleInput, residue]
    exact Nat.cast_zero
  have hquotient : (proofOf (sampleInput w)).quotientZ = 0 := hword 38 (by decide) (by decide)
  have hlinearisation : (proofOf (sampleInput w)).linearisationZ = 0 :=
    hword 39 (by decide) (by decide)
  have houtside : (challengesFor (fun _ => 0) (sampleInput w)).z ^ domainSize ≠ 1 := by
    rw [hz, zero_pow (by decide)]
    exact zero_ne_one
  have hholds : Plonk.QuotientHolds setting (proofOf (sampleInput w))
      (challengesFor (fun _ => 0) (sampleInput w)) := by
    rw [Plonk.QuotientHolds, Plonk.linearisationConstant, Plonk.permutationConstant,
      Plonk.lookupConstant, halpha, hinput, hquotient, hlinearisation]
    simp
  rw [verdict, if_neg (not_not_intro (validProof_sampleInput w)), if_neg houtside,
    if_neg (not_not_intro hholds), if_pos (Or.inl (by rw [hv, zero_mul]))]

/-- The steps up to the equation pass, and a subtraction reverts. -/
theorem verify_exact_sample :
    Answers (fun fuel => verify fuel (fun _ => 0) (sampleInput 5)) (fun _ => 0)
        (.error ⟨errorData 28 "pointSubAssign: ecAdd failed"⟩) ∧
      ¬Accepts (fun _ => 0) (sampleInput 5) := by
  have hexact := @verify_exact (fun _ => 0) (fun _ => 0) (sampleInput 5) fun _ _ => rfl
  rw [verdict_sampleInput] at hexact
  exact ⟨hexact.1, fun haccepts => nomatch hexact.2.mpr haccepts⟩

end Run

/-! ## What the answer depends on -/

section Malleability

variable {cd cd' : Calldata}

theorem coordinate_congr (hwords : loadedWords cd = loadedWords cd') {k : ℕ}
    (hk : k < 22 ∨ 40 ≤ k ∧ k < 44) : coordinate cd k = coordinate cd' k := by
  have h := loadedWords_coordinate cd hk
  rw [hwords, loadedWords_coordinate cd' hk] at h
  exact (Option.some.inj h).symm

theorem residue_proofWord_congr (hwords : loadedWords cd = loadedWords cd') {k : ℕ}
    (hk : 22 ≤ k ∧ k < 40) : residue (proofWord cd k) = residue (proofWord cd' k) := by
  have h := loadedWords_opening cd hk.1 hk.2
  rw [hwords, loadedWords_opening cd' hk.1 hk.2] at h
  rw [← (isScalar_opening cd k).residue_eq, ← (isScalar_opening cd' k).residue_eq,
    Option.some.inj h]

theorem proofOf_congr (hwords : loadedWords cd = loadedWords cd') : proofOf cd = proofOf cd' := by
  have hinput : publicInput cd = publicInput cd' := (List.cons.inj hwords).1
  have hcoordinate : ∀ k, (k < 22 ∨ 40 ≤ k ∧ k < 44) → coordinate cd k = coordinate cd' k :=
    fun _ => coordinate_congr hwords
  have hopening : ∀ k, (22 ≤ k ∧ k < 40) → residue (proofWord cd k) = residue (proofWord cd' k) :=
    fun _ => residue_proofWord_congr hwords
  simp (disch := decide) only [proofOf, pointOf, hinput, hcoordinate, hopening]

/-- The length of the array whose offset stands at the place. -/
def arrayLength (cd : Calldata) (place : Word) : Word :=
  calldataload cd (add (calldataload cd place) 0x04)

theorem ValidProof.congr (h : ValidProof cd) (hwords : loadedWords cd = loadedWords cd')
    (hlengths : ∀ place ∈ [0x04, 0x24, 0x44], arrayLength cd place = arrayLength cd' place) :
    ValidProof cd' where
  publicInputLength := (hlengths 0x04 (by decide)).symm.trans h.publicInputLength
  proofLength := (hlengths 0x24 (by decide)).symm.trans h.proofLength
  recursiveLength := (hlengths 0x44 (by decide)).symm.trans h.recursiveLength
  points k hk := by
    have hrange : ∀ k ∈ pointIndices, k + 1 < 22 ∨ 40 ≤ k ∧ k + 1 < 44 := by decide
    have hk' := hrange k hk
    rw [ValidPoint, ← coordinate_congr hwords (by omega), ← coordinate_congr hwords (by omega)]
    exact h.points k hk

/-- The words that the contract stores decide the answer, and other words of the same residues
are as good. -/
theorem verify_malleable (hwords : loadedWords cd = loadedWords cd')
    (hlengths : ∀ place ∈ [0x04, 0x24, 0x44], arrayLength cd place = arrayLength cd' place)
    (keccak256 : List Byte → Word) {mem : Memory}
    (hzero : ∀ a, Region 0xd40 0xd84 a → mem a = 0) :
    ∃ answer, Answers (fun fuel => verify fuel keccak256 cd) mem answer ∧
      Answers (fun fuel => verify fuel keccak256 cd') mem answer := by
  have hvalid : ValidProof cd ↔ ValidProof cd' :=
    ⟨fun h => h.congr hwords hlengths,
      fun h => h.congr hwords.symm fun place hplace => (hlengths place hplace).symm⟩
  have hchallenges : challengesFor keccak256 cd = challengesFor keccak256 cd' := by
    rw [challengesFor, challengesFor, hwords]
  have hverdict : verdict keccak256 cd = verdict keccak256 cd' := by
    rw [verdict, verdict, proofOf_congr hwords, hchallenges]
    exact if_congr (not_congr hvalid) rfl rfl
  refine ⟨_, verify_run keccak256 cd hzero, ?_⟩
  rw [hverdict]
  exact verify_run keccak256 cd' hzero

/-- An opening and the opening with the order added to it. -/
theorem verify_malleable_opening :
    proofWord (sampleInput 5) 22 ≠ proofWord (sampleInput (add 5 R_MOD)) 22 ∧
    ∃ answer, Answers (fun fuel => verify fuel (fun _ => 0) (sampleInput 5)) (fun _ => 0) answer ∧
      Answers (fun fuel => verify fuel (fun _ => 0) (sampleInput (add 5 R_MOD))) (fun _ => 0)
        answer := by
  have h := validProof_sampleInput 5
  have h' := validProof_sampleInput (add 5 R_MOD)
  refine ⟨?_, verify_malleable (loadedWords_sampleInput (by decide)) (fun place hplace => ?_)
    (fun _ => 0) fun _ _ => rfl⟩
  · rw [proofWord_sampleInput _ (by decide), proofWord_sampleInput _ (by decide)]
    decide
  · simp only [List.mem_cons, List.not_mem_nil, or_false] at hplace
    rcases hplace with rfl | rfl | rfl
    · exact h.publicInputLength.trans h'.publicInputLength.symm
    · exact h.proofLength.trans h'.proofLength.symm
    · exact h.recursiveLength.trans h'.recursiveLength.symm

end Malleability

end EraPrecompiles.Verifier
