import EraPrecompiles.Verifier.Queries

/-!
# The aggregated commitment

The verifier combines all commitments to `[F]` and all values to `[E]`.  The powers of `v` are
computed one after another.  The points that occur at `z` and at `z * omega` are multiplied once,
with the sum of their two coefficients.
-/

namespace EraPrecompiles.Verifier

open Bn254 ShortWeierstrass

/-! ## The program -/

/-- The function `updateAggregationChallenge` of the block for `z`. -/
def updateAggregationChallengeAtZ (fuel : ℕ)
    (queriesCommitmentPoint valueAtZ curAggregationChallenge curAggregatedOpeningAtZ : Word) :
    Contract (Word × Word) := do
  let newAggregationChallenge := mulmod curAggregationChallenge (← load STATE_V_SLOT) R_MOD
  pointMulAndAddIntoDest fuel queriesCommitmentPoint newAggregationChallenge
    AGGREGATED_AT_Z_X_SLOT
  let newAggregatedOpeningAtZ := addmod curAggregatedOpeningAtZ
    (mulmod newAggregationChallenge (← load valueAtZ) R_MOD) R_MOD
  return (newAggregationChallenge, newAggregatedOpeningAtZ)

/-- The function `updateAggregationChallenge` of the block for `z * omega`. -/
def updateAggregationChallengeAtZOmega (fuel : ℕ)
    (queriesCommitmentPoint valueAtZ_Omega previousCoeff curAggregationChallenge
      curAggregatedOpeningAtZ_Omega : Word) :
    Contract (Word × Word) := do
  let newAggregationChallenge := mulmod curAggregationChallenge (← load STATE_V_SLOT) R_MOD
  let finalCoeff :=
    addmod previousCoeff (mulmod newAggregationChallenge (← load STATE_U_SLOT) R_MOD) R_MOD
  pointMulAndAddIntoDest fuel queriesCommitmentPoint finalCoeff AGGREGATED_AT_Z_OMEGA_X_SLOT
  let newAggregatedOpeningAtZ_Omega := addmod curAggregatedOpeningAtZ_Omega
    (mulmod newAggregationChallenge (← load valueAtZ_Omega) R_MOD) R_MOD
  return (newAggregationChallenge, newAggregatedOpeningAtZ_Omega)

/-- The parts without the factor `u`; the result is the challenge and the coefficients that are
left for `[d]` and for `[t]`. -/
def aggregateAtZ (fuel : ℕ) : Contract (Word × Word × Word) := do
  let aggregationChallenge := 1
  store AGGREGATED_AT_Z_X_SLOT (← load QUERIES_AT_Z_0_X_SLOT)
  store AGGREGATED_AT_Z_Y_SLOT (← load QUERIES_AT_Z_0_Y_SLOT)
  let aggregatedOpeningAtZ ← load PROOF_QUOTIENT_POLY_OPENING_AT_Z_SLOT
  pointAddIntoDest fuel AGGREGATED_AT_Z_X_SLOT QUERIES_AT_Z_1_X_SLOT AGGREGATED_AT_Z_X_SLOT
  let aggregationChallenge := mulmod aggregationChallenge (← load STATE_V_SLOT) R_MOD
  let aggregatedOpeningAtZ := addmod aggregatedOpeningAtZ
    (mulmod aggregationChallenge (← load PROOF_LINEARISATION_POLY_OPENING_AT_Z_SLOT) R_MOD) R_MOD
  let (aggregationChallenge, aggregatedOpeningAtZ) ← updateAggregationChallengeAtZ fuel
    PROOF_STATE_POLYS_0_X_SLOT PROOF_STATE_POLYS_0_OPENING_AT_Z_SLOT aggregationChallenge
    aggregatedOpeningAtZ
  let (aggregationChallenge, aggregatedOpeningAtZ) ← updateAggregationChallengeAtZ fuel
    PROOF_STATE_POLYS_1_X_SLOT PROOF_STATE_POLYS_1_OPENING_AT_Z_SLOT aggregationChallenge
    aggregatedOpeningAtZ
  let (aggregationChallenge, aggregatedOpeningAtZ) ← updateAggregationChallengeAtZ fuel
    PROOF_STATE_POLYS_2_X_SLOT PROOF_STATE_POLYS_2_OPENING_AT_Z_SLOT aggregationChallenge
    aggregatedOpeningAtZ
  let aggregationChallenge := mulmod aggregationChallenge (← load STATE_V_SLOT) R_MOD
  let firstDCoeff := aggregationChallenge
  let aggregatedOpeningAtZ := addmod aggregatedOpeningAtZ
    (mulmod aggregationChallenge (← load PROOF_STATE_POLYS_3_OPENING_AT_Z_SLOT) R_MOD) R_MOD
  let (aggregationChallenge, aggregatedOpeningAtZ) ← updateAggregationChallengeAtZ fuel
    VK_GATE_SELECTORS_0_X_SLOT PROOF_GATE_SELECTORS_0_OPENING_AT_Z_SLOT aggregationChallenge
    aggregatedOpeningAtZ
  let (aggregationChallenge, aggregatedOpeningAtZ) ← updateAggregationChallengeAtZ fuel
    VK_PERMUTATION_0_X_SLOT PROOF_COPY_PERMUTATION_POLYS_0_OPENING_AT_Z_SLOT
    aggregationChallenge aggregatedOpeningAtZ
  let (aggregationChallenge, aggregatedOpeningAtZ) ← updateAggregationChallengeAtZ fuel
    VK_PERMUTATION_1_X_SLOT PROOF_COPY_PERMUTATION_POLYS_1_OPENING_AT_Z_SLOT
    aggregationChallenge aggregatedOpeningAtZ
  let (aggregationChallenge, aggregatedOpeningAtZ) ← updateAggregationChallengeAtZ fuel
    VK_PERMUTATION_2_X_SLOT PROOF_COPY_PERMUTATION_POLYS_2_OPENING_AT_Z_SLOT
    aggregationChallenge aggregatedOpeningAtZ
  let aggregationChallenge := mulmod aggregationChallenge (← load STATE_V_SLOT) R_MOD
  let firstTCoeff := aggregationChallenge
  let aggregatedOpeningAtZ := addmod aggregatedOpeningAtZ
    (mulmod aggregationChallenge (← load PROOF_LOOKUP_T_POLY_OPENING_AT_Z_SLOT) R_MOD) R_MOD
  let (aggregationChallenge, aggregatedOpeningAtZ) ← updateAggregationChallengeAtZ fuel
    VK_LOOKUP_SELECTOR_X_SLOT PROOF_LOOKUP_SELECTOR_POLY_OPENING_AT_Z_SLOT
    aggregationChallenge aggregatedOpeningAtZ
  let (aggregationChallenge, aggregatedOpeningAtZ) ← updateAggregationChallengeAtZ fuel
    VK_LOOKUP_TABLE_TYPE_X_SLOT PROOF_LOOKUP_TABLE_TYPE_POLY_OPENING_AT_Z_SLOT
    aggregationChallenge aggregatedOpeningAtZ
  store AGGREGATED_OPENING_AT_Z_SLOT aggregatedOpeningAtZ
  return (aggregationChallenge, firstDCoeff, firstTCoeff)

/-- The parts with the factor `u`. -/
def aggregateAtZOmega (fuel : ℕ) (aggregationChallenge firstDCoeff firstTCoeff : Word) :
    Contract Unit := do
  let aggregationChallenge := mulmod aggregationChallenge (← load STATE_V_SLOT) R_MOD
  let copyPermutationCoeff := addmod
    (← load COPY_PERMUTATION_FIRST_AGGREGATED_COMMITMENT_COEFF)
    (mulmod aggregationChallenge (← load STATE_U_SLOT) R_MOD) R_MOD
  pointMulIntoDest fuel PROOF_COPY_PERMUTATION_GRAND_PRODUCT_X_SLOT copyPermutationCoeff
    AGGREGATED_AT_Z_OMEGA_X_SLOT
  let aggregatedOpeningAtZOmega := mulmod
    (← load PROOF_COPY_PERMUTATION_GRAND_PRODUCT_OPENING_AT_Z_OMEGA_SLOT) aggregationChallenge
    R_MOD
  let (aggregationChallenge, aggregatedOpeningAtZOmega) ←
    updateAggregationChallengeAtZOmega fuel PROOF_STATE_POLYS_3_X_SLOT
      PROOF_STATE_POLYS_3_OPENING_AT_Z_OMEGA_SLOT firstDCoeff aggregationChallenge
      aggregatedOpeningAtZOmega
  let (aggregationChallenge, aggregatedOpeningAtZOmega) ←
    updateAggregationChallengeAtZOmega fuel PROOF_LOOKUP_S_POLY_X_SLOT
      PROOF_LOOKUP_S_POLY_OPENING_AT_Z_OMEGA_SLOT
      (← load LOOKUP_S_FIRST_AGGREGATED_COMMITMENT_COEFF) aggregationChallenge
      aggregatedOpeningAtZOmega
  let (aggregationChallenge, aggregatedOpeningAtZOmega) ←
    updateAggregationChallengeAtZOmega fuel PROOF_LOOKUP_GRAND_PRODUCT_X_SLOT
      PROOF_LOOKUP_GRAND_PRODUCT_OPENING_AT_Z_OMEGA_SLOT
      (← load LOOKUP_GRAND_PRODUCT_FIRST_AGGREGATED_COMMITMENT_COEFF) aggregationChallenge
      aggregatedOpeningAtZOmega
  let (_, aggregatedOpeningAtZOmega) ←
    updateAggregationChallengeAtZOmega fuel QUERIES_T_POLY_AGGREGATED_X_SLOT
      PROOF_LOOKUP_T_POLY_OPENING_AT_Z_OMEGA_SLOT firstTCoeff aggregationChallenge
      aggregatedOpeningAtZOmega
  store AGGREGATED_OPENING_AT_Z_OMEGA_SLOT aggregatedOpeningAtZOmega

def prepareAggregatedCommitment (fuel : ℕ) : Contract Unit := do
  let (aggregationChallenge, firstDCoeff, firstTCoeff) ← aggregateAtZ fuel
  aggregateAtZOmega fuel aggregationChallenge firstDCoeff firstTCoeff
  let u ← load STATE_U_SLOT
  pointAddIntoDest fuel AGGREGATED_AT_Z_X_SLOT AGGREGATED_AT_Z_OMEGA_X_SLOT
    PAIRING_PAIR_WITH_GENERATOR_X_SLOT
  let aggregatedValue := addmod
    (mulmod (← load AGGREGATED_OPENING_AT_Z_OMEGA_SLOT) u R_MOD)
    (← load AGGREGATED_OPENING_AT_Z_SLOT) R_MOD
  store PAIRING_BUFFER_POINT_X_SLOT 1
  store PAIRING_BUFFER_POINT_Y_SLOT 2
  pointMulIntoDest fuel PAIRING_BUFFER_POINT_X_SLOT aggregatedValue PAIRING_BUFFER_POINT_X_SLOT

/-! ## One step -/

section Aggregation

variable {mem₀ mem : Memory} {vk : Plonk.VerificationKey g1.Point}
  {π : Plonk.Proof (ZMod r) g1.Point} {ch : Plonk.Challenges (ZMod r)} {S A : g1.Point}
  {c o point value previous : Word} {x y b : ZMod r} {k : ℕ} {α : Type}
  {g : ℕ → Word × Word → Contract α} {Q : α → Memory → Prop}

theorem updateAggregationChallengeAtZ_bind (hsum : SumAt mem₀ mem AGGREGATED_AT_Z_X_SLOT S)
    (hch : ChallengesAt mem₀ ch) (hc : IsScalar c (ch.v ^ k)) (ho : IsScalar o y)
    (hA : PointAt mem₀ point A) (hclear : Clear AGGREGATED_AT_Z_X_SLOT point)
    (hx : ScalarAt mem₀ value x) (hvalue : Inside 0x200 0x1180 value 32)
    (hg : ∀ c' o' mem', SumAt mem₀ mem' AGGREGATED_AT_Z_X_SLOT (ch.v ^ (k + 1) • A + S) →
      IsScalar c' (ch.v ^ (k + 1)) → IsScalar o' (y + ch.v ^ (k + 1) * x) →
        Reaches (fun fuel => g fuel (c', o')) mem' Q) :
    Reaches (fun fuel => updateAggregationChallengeAtZ fuel point value c o >>= g fuel) mem Q := by
  have hagg : AGGREGATED_AT_Z_X_SLOT.toNat = 0x1180 := by decide
  have hc' := (hc.mul hch.v).congr (pow_succ _ _).symm
  simp only [updateAggregationChallengeAtZ, bind_assoc, Reaches.load_bind, pure_bind]
  rw [hsum.mload_eq (by decide) (by decide)]
  refine hsum.mulAdd_bind hA hclear hc' fun mem' hsum' => ?_
  rw [Reaches.load_bind, hsum'.mload_eq hvalue.1 (Or.inl (by rw [hagg]; exact hvalue.2))]
  exact hg _ _ mem' hsum' hc' (ho.add (hc'.mul hx))

theorem updateAggregationChallengeAtZOmega_bind
    (hsum : SumAt mem₀ mem AGGREGATED_AT_Z_OMEGA_X_SLOT S) (hch : ChallengesAt mem₀ ch)
    (hprevious : IsScalar previous b) (hc : IsScalar c (ch.v ^ k)) (ho : IsScalar o y)
    (hA : PointAt mem₀ point A) (hclear : Clear AGGREGATED_AT_Z_OMEGA_X_SLOT point)
    (hx : ScalarAt mem₀ value x) (hvalue : Inside 0x200 0x1180 value 32)
    (hg : ∀ c' o' mem',
      SumAt mem₀ mem' AGGREGATED_AT_Z_OMEGA_X_SLOT ((b + ch.v ^ (k + 1) * ch.u) • A + S) →
      IsScalar c' (ch.v ^ (k + 1)) → IsScalar o' (y + ch.v ^ (k + 1) * x) →
        Reaches (fun fuel => g fuel (c', o')) mem' Q) :
    Reaches (fun fuel => updateAggregationChallengeAtZOmega fuel point value previous c o >>=
      g fuel) mem Q := by
  have hagg : AGGREGATED_AT_Z_OMEGA_X_SLOT.toNat = 0x11c0 := by decide
  have hend := hvalue.2
  have hc' := (hc.mul hch.v).congr (pow_succ _ _).symm
  simp only [updateAggregationChallengeAtZOmega, bind_assoc, Reaches.load_bind, pure_bind]
  rw [hsum.mload_eq (by decide) (by decide), hsum.mload_eq (by decide) (by decide)]
  refine hsum.mulAdd_bind hA hclear (hprevious.add (hc'.mul hch.u)) fun mem' hsum' => ?_
  rw [Reaches.load_bind, hsum'.mload_eq hvalue.1 (Or.inl (by omega))]
  exact hg _ _ mem' hsum' hc' (ho.add (hc'.mul hx))

/-! ## The sums -/

/-- The commitments whose coefficients have no factor `u`. -/
noncomputable def commitmentsAtZ (π : Plonk.Proof (ZMod r) g1.Point)
    (ch : Plonk.Challenges (ZMod r)) (vk : Plonk.VerificationKey g1.Point) : g1.Point :=
  Plonk.d0 setting π ch + ch.v • linearisedGates π ch vk + ch.v ^ 2 • π.a + ch.v ^ 3 • π.b +
    ch.v ^ 4 • π.c + ch.v ^ 6 • vk.mainGateSelector + ch.v ^ 7 • vk.sigma0 +
    ch.v ^ 8 • vk.sigma1 + ch.v ^ 9 • vk.sigma2 + ch.v ^ 11 • vk.lookupSelector +
    ch.v ^ 12 • vk.tableType

/-- The values at `z`. -/
def valuesAtZ (π : Plonk.Proof (ZMod r) g1.Point) (ch : Plonk.Challenges (ZMod r)) : ZMod r :=
  π.quotientZ + ch.v * π.linearisationZ + ch.v ^ 2 * π.aZ + ch.v ^ 3 * π.bZ + ch.v ^ 4 * π.cZ +
    ch.v ^ 5 * π.dZ + ch.v ^ 6 * π.mainGateSelectorZ + ch.v ^ 7 * π.sigma0Z +
    ch.v ^ 8 * π.sigma1Z + ch.v ^ 9 * π.sigma2Z + ch.v ^ 10 * π.tableZ +
    ch.v ^ 11 * π.lookupSelectorZ + ch.v ^ 12 * π.tableTypeZ

theorem aggregateAtZ_spec (h : InputsAt mem vk π ch) (hqueries : QueriesAt mem vk π ch) :
    Reaches (fun fuel => aggregateAtZ fuel) mem fun w mem' =>
      (IsScalar w.1 (ch.v ^ 12) ∧ IsScalar w.2.1 (ch.v ^ 5) ∧ IsScalar w.2.2 (ch.v ^ 10)) ∧
        PointAt mem' AGGREGATED_AT_Z_X_SLOT (commitmentsAtZ π ch vk) ∧
        ScalarAt mem' AGGREGATED_OPENING_AT_Z_SLOT (valuesAtZ π ch) ∧
        Keeps (Outside 0x1180 0x1220) mem mem' := by
  have hch := h.challenges
  have hv1 := (IsScalar.one.mul hch.v).congr (show _ = ch.v ^ 1 by ring)
  have ho := h.proof.quotientZ.add (hv1.mul h.proof.linearisationZ)
  unfold aggregateAtZ
  refine SumAt.copy_bind hqueries.d0 (by decide) (by decide) (by decide) fun mem₁ hsum => ?_
  rw [Reaches.load_bind, hsum.mload_eq (by decide) (by decide)]
  refine hsum.addInto_bind hqueries.gates (by decide) fun mem₂ hsum => ?_
  rw [Reaches.load_bind, Reaches.load_bind, hsum.mload_eq (by decide) (by decide),
    hsum.mload_eq (by decide) (by decide)]
  refine updateAggregationChallengeAtZ_bind hsum hch hv1 ho h.proof.a (by decide) h.proof.aZ
    (by decide) fun c o mem₃ hsum hc ho => ?_
  refine updateAggregationChallengeAtZ_bind hsum hch hc ho h.proof.b (by decide) h.proof.bZ
    (by decide) fun c o mem₄ hsum hc ho => ?_
  refine updateAggregationChallengeAtZ_bind hsum hch hc ho h.proof.c (by decide) h.proof.cZ
    (by decide) fun c o mem₅ hsum hc ho => ?_
  rw [Reaches.load_bind, Reaches.load_bind, hsum.mload_eq (by decide) (by decide),
    hsum.mload_eq (by decide) (by decide)]
  have hv5 := (hc.mul hch.v).congr (pow_succ _ _).symm
  have ho := ho.add (hv5.mul h.proof.dZ)
  refine updateAggregationChallengeAtZ_bind hsum hch hv5 ho h.key.mainGateSelector (by decide)
    h.proof.mainGateSelectorZ (by decide) fun c o mem₆ hsum hc ho => ?_
  refine updateAggregationChallengeAtZ_bind hsum hch hc ho h.key.sigma0 (by decide)
    h.proof.sigma0Z (by decide) fun c o mem₇ hsum hc ho => ?_
  refine updateAggregationChallengeAtZ_bind hsum hch hc ho h.key.sigma1 (by decide)
    h.proof.sigma1Z (by decide) fun c o mem₈ hsum hc ho => ?_
  refine updateAggregationChallengeAtZ_bind hsum hch hc ho h.key.sigma2 (by decide)
    h.proof.sigma2Z (by decide) fun c o mem₉ hsum hc ho => ?_
  rw [Reaches.load_bind, Reaches.load_bind, hsum.mload_eq (by decide) (by decide),
    hsum.mload_eq (by decide) (by decide)]
  have hv10 := (hc.mul hch.v).congr (pow_succ _ _).symm
  have ho := ho.add (hv10.mul h.proof.tableZ)
  refine updateAggregationChallengeAtZ_bind hsum hch hv10 ho h.key.lookupSelector (by decide)
    h.proof.lookupSelectorZ (by decide) fun c o mem₁₀ hsum hc ho => ?_
  refine updateAggregationChallengeAtZ_bind hsum hch hc ho h.key.tableType (by decide)
    h.proof.tableTypeZ (by decide) fun c o mem₁₁ hsum hc ho => ?_
  have hvalues := ho.congr (show _ = valuesAtZ π ch by rw [valuesAtZ]; ring)
  refine storeScalar_bind hvalues fun mem' hvaluesAt hkeeps => ?_
  refine Reaches.pure ⟨⟨hc, hv5, hv10⟩, ?_, hvaluesAt, ?_⟩
  · convert hsum.point.keepElsewhere hkeeps (by decide) (by decide) using 1
    rw [commitmentsAtZ]
    module
  · exact (keeps_outside_of_apart hsum.keeps (by decide)).trans
      (keeps_outside_of_elsewhere hkeeps (by decide))

/-- The commitments whose coefficients have a part with the factor `u`. -/
noncomputable def commitmentsAtZOmega (π : Plonk.Proof (ZMod r) g1.Point)
    (ch : Plonk.Challenges (ZMod r)) (vk : Plonk.VerificationKey g1.Point) : g1.Point :=
  (ch.v * Plonk.zPermCoeff setting π ch + ch.v ^ 13 * ch.u) • π.zPerm +
    (ch.v ^ 5 + ch.v ^ 14 * ch.u) • π.d +
    (ch.v * Plonk.sCoeff setting π ch + ch.v ^ 15 * ch.u) • π.s +
    (ch.v * Plonk.zLookupCoeff setting π ch + ch.v ^ 16 * ch.u) • π.zLookup +
    (ch.v ^ 10 + ch.v ^ 17 * ch.u) • Plonk.table ch vk

/-- The values at `z * omega`. -/
def valuesAtZOmega (π : Plonk.Proof (ZMod r) g1.Point) (ch : Plonk.Challenges (ZMod r)) :
    ZMod r :=
  ch.v ^ 13 * π.zPermZOmega + ch.v ^ 14 * π.dZOmega + ch.v ^ 15 * π.sZOmega +
    ch.v ^ 16 * π.zLookupZOmega + ch.v ^ 17 * π.tableZOmega

theorem aggregateAtZOmega_spec {firstD firstT : Word} (h : InputsAt mem vk π ch)
    (hqueries : QueriesAt mem vk π ch) (hc : IsScalar c (ch.v ^ 12))
    (hfirstD : IsScalar firstD (ch.v ^ 5)) (hfirstT : IsScalar firstT (ch.v ^ 10)) :
    Reaches (fun fuel => aggregateAtZOmega fuel c firstD firstT) mem fun _ mem' =>
      PointAt mem' AGGREGATED_AT_Z_OMEGA_X_SLOT (commitmentsAtZOmega π ch vk) ∧
        ScalarAt mem' AGGREGATED_OPENING_AT_Z_OMEGA_SLOT (valuesAtZOmega π ch) ∧
        Keeps (Region 0x200 0x11c0) mem mem' ∧ Keeps (Region 0x1200 0x1220) mem mem' := by
  have hch := h.challenges
  have hv13 := (hc.mul hch.v).congr (pow_succ _ _).symm
  unfold aggregateAtZOmega
  rw [Reaches.load_bind, Reaches.load_bind, Reaches.load_bind]
  refine SumAt.mul_bind h.proof.zPerm (by decide) (hqueries.zPermCoeff.add (hv13.mul hch.u))
    fun mem₁ hsum => ?_
  rw [Reaches.load_bind, hsum.mload_eq (by decide) (by decide)]
  have ho := h.proof.zPermZOmega.mul hv13
  refine updateAggregationChallengeAtZOmega_bind hsum hch hfirstD hv13 ho h.proof.d (by decide)
    h.proof.dZOmega (by decide) fun c o mem₂ hsum hc ho => ?_
  rw [Reaches.load_bind, hsum.mload_eq (by decide) (by decide)]
  refine updateAggregationChallengeAtZOmega_bind hsum hch hqueries.sCoeff hc ho h.proof.s
    (by decide) h.proof.sZOmega (by decide) fun c o mem₃ hsum hc ho => ?_
  rw [Reaches.load_bind, hsum.mload_eq (by decide) (by decide)]
  refine updateAggregationChallengeAtZOmega_bind hsum hch hqueries.zLookupCoeff hc ho
    h.proof.zLookup (by decide) h.proof.zLookupZOmega (by decide) fun c o mem₄ hsum hc ho => ?_
  refine updateAggregationChallengeAtZOmega_bind hsum hch hfirstT hc ho hqueries.table
    (by decide) h.proof.tableZOmega (by decide) fun c o mem₅ hsum hc ho => ?_
  have hvalues := ho.congr (show _ = valuesAtZOmega π ch by rw [valuesAtZOmega]; ring)
  obtain ⟨mem', hmem', hvaluesAt, hkeeps⟩ :=
    exists_stored mem₅ AGGREGATED_OPENING_AT_Z_OMEGA_SLOT hvalues
  refine Reaches.store ?_
  rw [hmem']
  have hapart : Keeps (Outside 0x11c0 0x1200) mem mem₅ :=
    keeps_outside_of_apart hsum.keeps (by decide)
  have helsewhere : Keeps (Outside 0x1220 0x1240) mem₅ mem' :=
    keeps_outside_of_elsewhere hkeeps (by decide)
  refine ⟨?_, hvaluesAt, ?_, ?_⟩
  · convert hsum.point.keepElsewhere hkeeps (by decide) (by decide) using 1
    rw [commitmentsAtZOmega]
    module
  · exact (keeps_region_of_outside hapart le_rfl (Or.inl le_rfl)).trans
      (keeps_region_of_outside helsewhere le_rfl (Or.inl (by decide)))
  · exact (keeps_region_of_outside hapart (by decide) (Or.inr le_rfl)).trans
      (keeps_region_of_outside helsewhere (by decide) (Or.inl le_rfl))

/-! ## Both parts -/

/-- The generator that the contract writes. -/
def generator : g1.Point :=
  g1.point 1 (2 : ℕ) generator_onCurve

/-- The two sums are `[F]`. -/
theorem commitmentF_eq (π : Plonk.Proof (ZMod r) g1.Point) (ch : Plonk.Challenges (ZMod r))
    (vk : Plonk.VerificationKey g1.Point) :
    commitmentsAtZ π ch vk + commitmentsAtZOmega π ch vk = Plonk.commitmentF setting π ch vk := by
  rw [commitmentsAtZ, commitmentsAtZOmega, Plonk.commitmentF, Plonk.d1, linearisedGates]
  module

/-- The values of both parts are the value of `[E]`. -/
theorem aggregatedValue_eq (π : Plonk.Proof (ZMod r) g1.Point) (ch : Plonk.Challenges (ZMod r)) :
    valuesAtZOmega π ch * ch.u + valuesAtZ π ch = Plonk.aggregatedValue π ch := by
  rw [valuesAtZOmega, valuesAtZ, Plonk.aggregatedValue]
  ring

/-- The words of the generator are stored. -/
theorem pointAt_generator (mem : Memory) :
    PointAt (mstore (mstore mem PAIRING_BUFFER_POINT_X_SLOT 1) PAIRING_BUFFER_POINT_Y_SLOT 2)
      PAIRING_BUFFER_POINT_X_SLOT generator := by
  have hnext : add PAIRING_BUFFER_POINT_X_SLOT 0x20 = PAIRING_BUFFER_POINT_Y_SLOT := by decide
  rw [PointAt, hnext, mload_mstore_self, mload_mstore_of_disjoint _ _ (by decide),
    mload_mstore_self]
  exact decodePoint_generator

theorem prepareAggregatedCommitment_spec (h : InputsAt mem vk π ch)
    (hqueries : QueriesAt mem vk π ch) :
    Reaches (fun fuel => prepareAggregatedCommitment fuel) mem fun _ mem' =>
      PointAt mem' PAIRING_PAIR_WITH_GENERATOR_X_SLOT (Plonk.commitmentF setting π ch vk) ∧
        PointAt mem' PAIRING_BUFFER_POINT_X_SLOT (Plonk.commitmentE π ch generator) ∧
        Keeps (Region 0x200 0x1080) mem mem' := by
  refine (aggregateAtZ_spec h hqueries).bind
    fun ⟨c, firstD, firstT⟩ mem₁ ⟨⟨hc, hfirstD, hfirstT⟩, hsumZ, hvaluesZ, hkeeps₁⟩ => ?_
  have hqueries₁ : QueriesAt mem₁ vk π ch :=
    hqueries.keep (keeps_region_of_outside hkeeps₁ (by decide) (Or.inl le_rfl))
      (keeps_region_of_outside hkeeps₁ (by decide) (Or.inr (by decide)))
  have hinputs₁ := keeps_region_of_outside hkeeps₁ (show 0x200 ≤ 0x200 from le_rfl)
    (Or.inl (show 0x1080 ≤ 0x1180 by decide))
  refine (aggregateAtZOmega_spec (h.keep hinputs₁) hqueries₁ hc hfirstD hfirstT).bind
    fun _ mem₂ ⟨hsumOmega, hvaluesOmega, hbelow₂, hopening₂⟩ => ?_
  have hinputs₂ := hinputs₁.trans (keeps_region_mono hbelow₂ le_rfl (by decide))
  have hu := (h.keep hinputs₂).challenges.u
  have hsumZ₂ := hsumZ.keepRegion hbelow₂ (by decide) (by decide)
  have hvaluesZ₂ := hvaluesZ.keep hopening₂ (by decide)
  have hdest : Slot PAIRING_PAIR_WITH_GENERATOR_X_SLOT := by decide
  rw [Reaches.load_bind]
  refine (pointAddIntoDest_spec (by decide) (by decide) hdest hsumZ₂ hsumOmega).bind
    fun _ mem₃ ⟨hF, hkeeps₃⟩ => ?_
  have hvaluesZ₃ := hvaluesZ₂.keepApart hkeeps₃ (by decide) (by decide)
  have hvaluesOmega₃ := hvaluesOmega.keepApart hkeeps₃ (by decide) (by decide)
  have hvalue := ((hvaluesOmega₃.mul hu).add hvaluesZ₃).congr (aggregatedValue_eq π ch)
  rw [Reaches.load_bind, Reaches.load_bind, Reaches.store_bind, Reaches.store_bind]
  have hbuffer : Slot PAIRING_BUFFER_POINT_X_SLOT := by decide
  have hstored : Keeps (Outside 0x1240 0x1280) mem₃ (mstore (mstore mem₃
      PAIRING_BUFFER_POINT_X_SLOT 1) PAIRING_BUFFER_POINT_Y_SLOT 2) :=
    keeps_outside_mstore (keeps_outside_mstore (Keeps.refl _ mem₃) (by decide)) (by decide)
  refine (pointMulIntoDest_spec hbuffer hbuffer (pointAt_generator mem₃) _).mono
    fun _ mem' ⟨hE, hkeeps'⟩ => ?_
  rw [hvalue.smul] at hE
  have hlast := hstored.trans (keeps_outside_of_apart hkeeps' (by decide))
  refine ⟨?_, hE, ?_⟩
  · rw [← commitmentF_eq]
    exact hF.keepRegion (keeps_region_of_outside hlast (by decide) (Or.inr le_rfl)) (by decide)
      (show 0x12c0 < 2 ^ 256 by decide)
  · have hthird : Keeps (Outside 0x1280 0x12c0) mem₂ mem₃ :=
      keeps_outside_of_apart hkeeps₃ (by decide)
    exact (hinputs₂.trans (keeps_region_of_outside hthird le_rfl (Or.inl (by decide)))).trans
      (keeps_region_of_outside hlast le_rfl (Or.inl (by decide)))

end Aggregation

end EraPrecompiles.Verifier
