import EraPrecompiles.Verifier.Quotient

/-!
# The queries

The verifier prepares the first two parts of the combined commitment: `[D0]`, from the parts of the
quotient, and `v * [D1]`, from the linearisation.  The multiples of `[z_perm]`, `[z_lookup]` and
`[s]` in `[D1]` are not added here; their coefficients are stored, and are joined later with others
of the same points.
-/

namespace EraPrecompiles.Verifier

open Bn254 ShortWeierstrass

/-! ## The program -/

def mainGateLinearisationContributionWithV (fuel : ℕ)
    (dest stateOpening0AtZ stateOpening1AtZ stateOpening2AtZ stateOpening3AtZ : Word) :
    Contract Unit := do
  pointMulIntoDest fuel VK_GATE_SETUP_0_X_SLOT stateOpening0AtZ dest
  pointMulAndAddIntoDest fuel VK_GATE_SETUP_1_X_SLOT stateOpening1AtZ dest
  pointMulAndAddIntoDest fuel VK_GATE_SETUP_2_X_SLOT stateOpening2AtZ dest
  pointMulAndAddIntoDest fuel VK_GATE_SETUP_3_X_SLOT stateOpening3AtZ dest
  pointMulAndAddIntoDest fuel VK_GATE_SETUP_4_X_SLOT
    (mulmod stateOpening0AtZ stateOpening1AtZ R_MOD) dest
  pointMulAndAddIntoDest fuel VK_GATE_SETUP_5_X_SLOT
    (mulmod stateOpening0AtZ stateOpening2AtZ R_MOD) dest
  pointAddAssign fuel dest VK_GATE_SETUP_6_X_SLOT
  pointMulAndAddIntoDest fuel VK_GATE_SETUP_7_X_SLOT
    (← load PROOF_STATE_POLYS_3_OPENING_AT_Z_OMEGA_SLOT) dest
  let coeff :=
    mulmod (← load PROOF_GATE_SELECTORS_0_OPENING_AT_Z_SLOT) (← load STATE_V_SLOT) R_MOD
  pointMulIntoDest fuel dest coeff dest

def addAssignRescueCustomGateLinearisationContributionWithV (fuel : ℕ)
    (dest stateOpening0AtZ stateOpening1AtZ stateOpening2AtZ stateOpening3AtZ : Word) :
    Contract Unit := do
  let accumulator := mulmod stateOpening0AtZ stateOpening0AtZ R_MOD
  let accumulator := addmod accumulator (sub R_MOD stateOpening1AtZ) R_MOD
  let accumulator := mulmod accumulator (← load STATE_ALPHA_SLOT) R_MOD
  let intermediateValue := mulmod stateOpening1AtZ stateOpening1AtZ R_MOD
  let intermediateValue := addmod intermediateValue (sub R_MOD stateOpening2AtZ) R_MOD
  let intermediateValue := mulmod intermediateValue (← load STATE_POWER_OF_ALPHA_2_SLOT) R_MOD
  let accumulator := addmod accumulator intermediateValue R_MOD
  let intermediateValue := mulmod stateOpening2AtZ stateOpening0AtZ R_MOD
  let intermediateValue := addmod intermediateValue (sub R_MOD stateOpening3AtZ) R_MOD
  let intermediateValue := mulmod intermediateValue (← load STATE_POWER_OF_ALPHA_3_SLOT) R_MOD
  let accumulator := addmod accumulator intermediateValue R_MOD
  let accumulator := mulmod accumulator (← load STATE_V_SLOT) R_MOD
  pointMulAndAddIntoDest fuel VK_GATE_SELECTORS_1_X_SLOT accumulator dest

def addAssignPermutationLinearisationContributionWithV (fuel : ℕ)
    (dest stateOpening0AtZ stateOpening1AtZ stateOpening2AtZ stateOpening3AtZ : Word) :
    Contract Unit := do
  let factor ← load STATE_POWER_OF_ALPHA_4_SLOT
  let zMulBeta := mulmod (← load STATE_Z_SLOT) (← load STATE_BETA_SLOT) R_MOD
  let gamma ← load STATE_GAMMA_SLOT
  let intermediateValue := addmod (addmod zMulBeta gamma R_MOD) stateOpening0AtZ R_MOD
  let factor := mulmod factor intermediateValue R_MOD
  let intermediateValue :=
    addmod (addmod (mulmod zMulBeta NON_RESIDUES_0 R_MOD) gamma R_MOD) stateOpening1AtZ R_MOD
  let factor := mulmod factor intermediateValue R_MOD
  let intermediateValue :=
    addmod (addmod (mulmod zMulBeta NON_RESIDUES_1 R_MOD) gamma R_MOD) stateOpening2AtZ R_MOD
  let factor := mulmod factor intermediateValue R_MOD
  let intermediateValue :=
    addmod (addmod (mulmod zMulBeta NON_RESIDUES_2 R_MOD) gamma R_MOD) stateOpening3AtZ R_MOD
  let factor := mulmod factor intermediateValue R_MOD
  let l0AtZ ← load STATE_L_0_AT_Z_SLOT
  let factor :=
    addmod factor (mulmod l0AtZ (← load STATE_POWER_OF_ALPHA_5_SLOT) R_MOD) R_MOD
  let factor := mulmod factor (← load STATE_V_SLOT) R_MOD
  store COPY_PERMUTATION_FIRST_AGGREGATED_COMMITMENT_COEFF factor
  let factor := mulmod (← load STATE_POWER_OF_ALPHA_4_SLOT) (← load STATE_BETA_SLOT) R_MOD
  let factor :=
    mulmod factor (← load PROOF_COPY_PERMUTATION_GRAND_PRODUCT_OPENING_AT_Z_OMEGA_SLOT) R_MOD
  let beta ← load STATE_BETA_SLOT
  let gamma ← load STATE_GAMMA_SLOT
  let intermediateValue :=
    addmod (addmod (mulmod (← load PROOF_COPY_PERMUTATION_POLYS_0_OPENING_AT_Z_SLOT) beta R_MOD)
      gamma R_MOD) stateOpening0AtZ R_MOD
  let factor := mulmod factor intermediateValue R_MOD
  let intermediateValue :=
    addmod (addmod (mulmod (← load PROOF_COPY_PERMUTATION_POLYS_1_OPENING_AT_Z_SLOT) beta R_MOD)
      gamma R_MOD) stateOpening1AtZ R_MOD
  let factor := mulmod factor intermediateValue R_MOD
  let intermediateValue :=
    addmod (addmod (mulmod (← load PROOF_COPY_PERMUTATION_POLYS_2_OPENING_AT_Z_SLOT) beta R_MOD)
      gamma R_MOD) stateOpening2AtZ R_MOD
  let factor := mulmod factor intermediateValue R_MOD
  let factor := mulmod factor (← load STATE_V_SLOT) R_MOD
  pointMulIntoDest fuel VK_PERMUTATION_3_X_SLOT factor QUERIES_BUFFER_POINT_SLOT
  pointSubAssign fuel dest QUERIES_BUFFER_POINT_SLOT

/-- The point at `dest` is passed to this function, but the function does not use it. -/
def addAssignLookupLinearisationContributionWithV
    (_dest stateOpening0AtZ stateOpening1AtZ stateOpening2AtZ : Word) : Contract Unit := do
  let factor ← load PROOF_LOOKUP_GRAND_PRODUCT_OPENING_AT_Z_OMEGA_SLOT
  let factor := mulmod factor (← load STATE_POWER_OF_ALPHA_6_SLOT) R_MOD
  let factor := mulmod factor (← load STATE_Z_MINUS_LAST_OMEGA_SLOT) R_MOD
  let factor := mulmod factor (← load STATE_V_SLOT) R_MOD
  store LOOKUP_S_FIRST_AGGREGATED_COMMITMENT_COEFF factor
  let factor ← load PROOF_LOOKUP_T_POLY_OPENING_AT_Z_OMEGA_SLOT
  let factor := mulmod factor (← load STATE_BETA_LOOKUP_SLOT) R_MOD
  let factor := addmod factor (← load PROOF_LOOKUP_T_POLY_OPENING_AT_Z_SLOT) R_MOD
  let factor := addmod factor (← load STATE_BETA_GAMMA_PLUS_GAMMA_SLOT) R_MOD
  let eta ← load STATE_ETA_SLOT
  let currentEta := eta
  let fReconstructed :=
    addmod stateOpening0AtZ (mulmod currentEta stateOpening1AtZ R_MOD) R_MOD
  let currentEta := mulmod currentEta eta R_MOD
  let fReconstructed :=
    addmod fReconstructed (mulmod currentEta stateOpening2AtZ R_MOD) R_MOD
  let currentEta := mulmod currentEta eta R_MOD
  let fReconstructed := addmod fReconstructed
    (mulmod (← load PROOF_LOOKUP_TABLE_TYPE_POLY_OPENING_AT_Z_SLOT) currentEta R_MOD) R_MOD
  let fReconstructed :=
    mulmod fReconstructed (← load PROOF_LOOKUP_SELECTOR_POLY_OPENING_AT_Z_SLOT) R_MOD
  let fReconstructed := addmod fReconstructed (← load STATE_GAMMA_LOOKUP_SLOT) R_MOD
  let factor := mulmod factor fReconstructed R_MOD
  let factor := mulmod factor (← load STATE_BETA_PLUS_ONE_SLOT) R_MOD
  let factor := sub R_MOD factor
  let factor := mulmod factor (← load STATE_POWER_OF_ALPHA_6_SLOT) R_MOD
  let factor := mulmod factor (← load STATE_Z_MINUS_LAST_OMEGA_SLOT) R_MOD
  let factor := addmod factor
    (mulmod (← load STATE_L_0_AT_Z_SLOT) (← load STATE_POWER_OF_ALPHA_7_SLOT) R_MOD) R_MOD
  let factor := addmod factor
    (mulmod (← load STATE_L_N_MINUS_ONE_AT_Z_SLOT) (← load STATE_POWER_OF_ALPHA_8_SLOT) R_MOD)
    R_MOD
  let factor := mulmod factor (← load STATE_V_SLOT) R_MOD
  store LOOKUP_GRAND_PRODUCT_FIRST_AGGREGATED_COMMITMENT_COEFF factor

/-- The block for `[D0]`. -/
def prepareD0 (fuel : ℕ) : Contract Unit := do
  let zInDomainSize ← load STATE_Z_IN_DOMAIN_SIZE
  let currentZ := zInDomainSize
  store QUERIES_AT_Z_0_X_SLOT (← load PROOF_QUOTIENT_POLY_PARTS_0_X_SLOT)
  store QUERIES_AT_Z_0_Y_SLOT (← load PROOF_QUOTIENT_POLY_PARTS_0_Y_SLOT)
  pointMulAndAddIntoDest fuel PROOF_QUOTIENT_POLY_PARTS_1_X_SLOT currentZ QUERIES_AT_Z_0_X_SLOT
  let currentZ := mulmod currentZ zInDomainSize R_MOD
  pointMulAndAddIntoDest fuel PROOF_QUOTIENT_POLY_PARTS_2_X_SLOT currentZ QUERIES_AT_Z_0_X_SLOT
  let currentZ := mulmod currentZ zInDomainSize R_MOD
  pointMulAndAddIntoDest fuel PROOF_QUOTIENT_POLY_PARTS_3_X_SLOT currentZ QUERIES_AT_Z_0_X_SLOT

/-- The block for `v * [D1]`. -/
def prepareD1 (fuel : ℕ) : Contract Unit := do
  let stateOpening0AtZ ← load PROOF_STATE_POLYS_0_OPENING_AT_Z_SLOT
  let stateOpening1AtZ ← load PROOF_STATE_POLYS_1_OPENING_AT_Z_SLOT
  let stateOpening2AtZ ← load PROOF_STATE_POLYS_2_OPENING_AT_Z_SLOT
  let stateOpening3AtZ ← load PROOF_STATE_POLYS_3_OPENING_AT_Z_SLOT
  mainGateLinearisationContributionWithV fuel QUERIES_AT_Z_1_X_SLOT stateOpening0AtZ
    stateOpening1AtZ stateOpening2AtZ stateOpening3AtZ
  addAssignRescueCustomGateLinearisationContributionWithV fuel QUERIES_AT_Z_1_X_SLOT
    stateOpening0AtZ stateOpening1AtZ stateOpening2AtZ stateOpening3AtZ
  addAssignPermutationLinearisationContributionWithV fuel QUERIES_AT_Z_1_X_SLOT stateOpening0AtZ
    stateOpening1AtZ stateOpening2AtZ stateOpening3AtZ
  addAssignLookupLinearisationContributionWithV QUERIES_AT_Z_1_X_SLOT stateOpening0AtZ
    stateOpening1AtZ stateOpening2AtZ

/-- The block for `[t]`. -/
def prepareTable (fuel : ℕ) : Contract Unit := do
  store QUERIES_T_POLY_AGGREGATED_X_SLOT (← load VK_LOOKUP_TABLE_0_X_SLOT)
  store QUERIES_T_POLY_AGGREGATED_Y_SLOT (← load VK_LOOKUP_TABLE_0_Y_SLOT)
  let eta ← load STATE_ETA_SLOT
  let currentEta := eta
  pointMulAndAddIntoDest fuel VK_LOOKUP_TABLE_1_X_SLOT currentEta QUERIES_T_POLY_AGGREGATED_X_SLOT
  let currentEta := mulmod currentEta eta R_MOD
  pointMulAndAddIntoDest fuel VK_LOOKUP_TABLE_2_X_SLOT currentEta QUERIES_T_POLY_AGGREGATED_X_SLOT
  let currentEta := mulmod currentEta eta R_MOD
  pointMulAndAddIntoDest fuel VK_LOOKUP_TABLE_3_X_SLOT currentEta QUERIES_T_POLY_AGGREGATED_X_SLOT

def prepareQueries (fuel : ℕ) : Contract Unit := do
  prepareD0 fuel
  prepareD1 fuel
  prepareTable fuel

/-! ## What the queries are computed from -/

/-- The data below the queries. -/
structure InputsAt (mem : Memory) (vk : Plonk.VerificationKey g1.Point)
    (π : Plonk.Proof (ZMod r) g1.Point) (ch : Plonk.Challenges (ZMod r)) : Prop where
  key : KeyAt mem vk
  proof : ProofAt mem π
  challenges : ChallengesAt mem ch
  derived : DerivedAt mem ch

section Queries

variable {mem mem' : Memory} {vk : Plonk.VerificationKey g1.Point}
  {π : Plonk.Proof (ZMod r) g1.Point} {ch : Plonk.Challenges (ZMod r)}

theorem LookupAt.keep (h : LookupAt mem ch) (hkeeps : Keeps (Region 0xf60 0x1020) mem mem') :
    LookupAt mem' ch where
  betaPlusOne := h.betaPlusOne.keep hkeeps (by decide)
  betaGamma := h.betaGamma.keep hkeeps (by decide)
  zMinusLastOmega := h.zMinusLastOmega.keep hkeeps (by decide)

theorem keeps_region_mono {lo hi lo' hi' : ℕ} (h : Keeps (Region lo hi) mem mem') (hlo : lo ≤ lo')
    (hhi : hi' ≤ hi) : Keeps (Region lo' hi') mem mem' :=
  h.mono fun _ ha => ⟨hlo.trans ha.1, ha.2.trans_le hhi⟩

theorem DerivedAt.keep (h : DerivedAt mem ch) (hkeeps : Keeps (Region 0xdc0 0x1080) mem mem') :
    DerivedAt mem' ch where
  powers := h.powers.keep (keeps_region_mono hkeeps (by decide) (by decide))
  lookup := h.lookup.keep (keeps_region_mono hkeeps (by decide) (by decide))
  lagrange := h.lagrange.keep (keeps_region_mono hkeeps (by decide) (by decide))

theorem InputsAt.keep (h : InputsAt mem vk π ch) (hkeeps : Keeps (Region 0x200 0x1080) mem mem') :
    InputsAt mem' vk π ch where
  key := h.key.keep (keeps_region_mono hkeeps (by decide) (by decide))
  proof := h.proof.keep (keeps_region_mono hkeeps (by decide) (by decide))
  challenges := h.challenges.keep (keeps_region_mono hkeeps (by decide) (by decide))
  derived := h.derived.keep (keeps_region_mono hkeeps (by decide) (by decide))

/-- The inputs are below all places where something is written from now on. -/
theorem InputsAt.keepOutside {hi : ℕ} (h : InputsAt mem vk π ch)
    (hkeeps : Keeps (Outside 0x1080 hi) mem mem') : InputsAt mem' vk π ch :=
  h.keep (keeps_region_of_outside hkeeps le_rfl (Or.inl le_rfl))

/-! ## The parts -/

theorem prepareD0_spec (h : InputsAt mem vk π ch) :
    Reaches (fun fuel => prepareD0 fuel) mem fun _ mem' =>
      SumAt mem mem' QUERIES_AT_Z_0_X_SLOT (Plonk.d0 setting π ch) := by
  have hz := h.challenges.zInDomainSize
  have hz2 := hz.mul hz
  have hz3 := hz2.mul hz
  unfold prepareD0
  rw [Reaches.load_bind]
  refine SumAt.copy_bind h.proof.t0 (by decide) (by decide) (by decide) fun mem₁ hsum => ?_
  refine hsum.mulAdd_bind h.proof.t1 (by decide) hz fun mem₂ hsum => ?_
  refine hsum.mulAdd_bind h.proof.t2 (by decide) hz2 fun mem₃ hsum => ?_
  refine (hsum.mulAdd h.proof.t3 (by decide) hz3).mono fun _ mem' hsum => ?_
  have hvalue : Plonk.d0 setting π ch =
      (ch.z ^ domainSize * ch.z ^ domainSize * ch.z ^ domainSize) • π.t3 +
        ((ch.z ^ domainSize * ch.z ^ domainSize) • π.t2 +
          (ch.z ^ domainSize • π.t1 + π.t0)) := by
    have hn : setting.n = domainSize := rfl
    rw [Plonk.d0, hn, mul_comm 2, mul_comm 3, pow_mul, pow_mul]
    module
  rwa [hvalue]

theorem prepareTable_spec (h : InputsAt mem vk π ch) :
    Reaches (fun fuel => prepareTable fuel) mem fun _ mem' =>
      SumAt mem mem' QUERIES_T_POLY_AGGREGATED_X_SLOT (Plonk.table ch vk) := by
  unfold prepareTable
  refine SumAt.copy_bind h.key.col0 (by decide) (by decide) (by decide) fun mem₁ hsum => ?_
  rw [Reaches.load_bind, hsum.mload_eq (by decide) (by decide)]
  have heta := h.challenges.eta
  have heta2 := heta.mul heta
  have heta3 := heta2.mul heta
  refine hsum.mulAdd_bind h.key.col1 (by decide) heta fun mem₂ hsum => ?_
  refine hsum.mulAdd_bind h.key.col2 (by decide) heta2 fun mem₃ hsum => ?_
  refine (hsum.mulAdd h.key.col3 (by decide) heta3).mono fun _ mem' hsum => ?_
  have hvalue : Plonk.table ch vk = (ch.eta * ch.eta * ch.eta) • vk.col3 +
      ((ch.eta * ch.eta) • vk.col2 + (ch.eta • vk.col1 + vk.col0)) := by
    rw [Plonk.table]
    module
  rwa [hvalue]

/-! ## The linearisation -/

variable {o0 o1 o2 o3 : Word}

theorem mainGateLinearisationContributionWithV_spec (h : InputsAt mem vk π ch)
    (ha : IsScalar o0 π.aZ) (hb : IsScalar o1 π.bZ) (hc : IsScalar o2 π.cZ)
    (hd : IsScalar o3 π.dZ) :
    Reaches (fun fuel => mainGateLinearisationContributionWithV fuel QUERIES_AT_Z_1_X_SLOT
      o0 o1 o2 o3) mem fun _ mem' =>
        SumAt mem mem' QUERIES_AT_Z_1_X_SLOT (ch.v • Plonk.mainGate π vk) := by
  unfold mainGateLinearisationContributionWithV
  refine SumAt.mul_bind h.key.qA (by decide) ha fun mem₁ hsum => ?_
  refine hsum.mulAdd_bind h.key.qB (by decide) hb fun mem₂ hsum => ?_
  refine hsum.mulAdd_bind h.key.qC (by decide) hc fun mem₃ hsum => ?_
  refine hsum.mulAdd_bind h.key.qD (by decide) hd fun mem₄ hsum => ?_
  refine hsum.mulAdd_bind h.key.qAB (by decide) (ha.mul hb) fun mem₅ hsum => ?_
  refine hsum.mulAdd_bind h.key.qAC (by decide) (ha.mul hc) fun mem₆ hsum => ?_
  refine hsum.add_bind h.key.qConst (by decide) fun mem₇ hsum => ?_
  rw [Reaches.load_bind, hsum.mload_eq (by decide) (by decide)]
  refine hsum.mulAdd_bind h.key.qDNext (by decide) h.proof.dZOmega fun mem₈ hsum => ?_
  rw [Reaches.load_bind, Reaches.load_bind, hsum.mload_eq (by decide) (by decide),
    hsum.mload_eq (by decide) (by decide)]
  have hcoeff := h.proof.mainGateSelectorZ.mul h.challenges.v
  refine (hsum.scale (by decide) hcoeff).mono fun _ mem' hsum => ?_
  convert hsum using 1
  rw [Plonk.mainGate]
  module

theorem addAssignRescueCustomGateLinearisationContributionWithV_spec {mem₀ : Memory}
    {S : g1.Point} (h : InputsAt mem₀ vk π ch) (hsum : SumAt mem₀ mem QUERIES_AT_Z_1_X_SLOT S)
    (ha : IsScalar o0 π.aZ) (hb : IsScalar o1 π.bZ) (hc : IsScalar o2 π.cZ)
    (hd : IsScalar o3 π.dZ) :
    Reaches (fun fuel => addAssignRescueCustomGateLinearisationContributionWithV fuel
      QUERIES_AT_Z_1_X_SLOT o0 o1 o2 o3) mem fun _ mem' =>
        SumAt mem₀ mem' QUERIES_AT_Z_1_X_SLOT (S + ch.v • Plonk.customGate π ch vk) := by
  have hpowers := h.derived.powers
  have hfactor := ((((ha.mul ha).sub hb).mul h.challenges.alpha).add
    (((hb.mul hb).sub hc).mul hpowers.power2)).add (((hc.mul ha).sub hd).mul hpowers.power3)
  simp only [addAssignRescueCustomGateLinearisationContributionWithV, Reaches.load_bind]
  simp (disch := decide) only [hsum.mload_eq]
  refine (hsum.mulAdd h.key.customGateSelector (by decide) (hfactor.mul h.challenges.v)).mono
    fun _ mem' hsum => ?_
  convert hsum using 1
  rw [Plonk.customGate]
  module

/-- The inputs and `[D0]` stand at these addresses. -/
def Settled (a : ℕ) : Prop :=
  Region 0x200 0x1080 a ∨ Region 0x10c0 0x1100 a

theorem InputsAt.keepSettled (h : InputsAt mem vk π ch) (hkeeps : Keeps Settled mem mem') :
    InputsAt mem' vk π ch :=
  h.keep (hkeeps.mono fun _ ha => Or.inl ha)

theorem keeps_settled_of_apart {slot : Word} (h : Keeps (Apart slot) mem mem')
    (hslot : Inside 0x1080 0x10c0 slot 64 ∨ 0x1100 ≤ slot.toNat) : Keeps Settled mem mem' := by
  refine h.mono fun a ha => ?_
  simp only [Settled, Region, Inside, Apart] at ha hslot ⊢
  omega

theorem keeps_settled_of_elsewhere {slot : Word} (h : Keeps (Elsewhere slot) mem mem')
    (hslot : 0x1100 ≤ slot.toNat) : Keeps Settled mem mem' := by
  refine h.mono fun a ha => ?_
  simp only [Settled, Region, Elsewhere] at ha ⊢
  omega

theorem isScalar_NON_RESIDUES_0 : IsScalar NON_RESIDUES_0 setting.k0 :=
  ⟨rfl, by decide⟩

theorem isScalar_NON_RESIDUES_1 : IsScalar NON_RESIDUES_1 setting.k1 :=
  ⟨rfl, by decide⟩

theorem isScalar_NON_RESIDUES_2 : IsScalar NON_RESIDUES_2 setting.k2 :=
  ⟨rfl, by decide⟩

/-- The coefficient of `[z_perm]` is stored, and the multiple of `[sigma_3]` is left for the
difference. -/
theorem addAssignPermutationLinearisationContributionWithV_ends {S : g1.Point}
    (h : InputsAt mem vk π ch) (hS : PointAt mem QUERIES_AT_Z_1_X_SLOT S)
    (ha : IsScalar o0 π.aZ) (hb : IsScalar o1 π.bZ) (hc : IsScalar o2 π.cZ)
    (hd : IsScalar o3 π.dZ) :
    ∃ mem', PointAt mem' QUERIES_AT_Z_1_X_SLOT S ∧
      PointAt mem' QUERIES_BUFFER_POINT_SLOT ((ch.v * Plonk.sigma3Coeff π ch) • vk.sigma3) ∧
      ScalarAt mem' COPY_PERMUTATION_FIRST_AGGREGATED_COMMITMENT_COEFF
        (ch.v * Plonk.zPermCoeff setting π ch) ∧
      Keeps Settled mem mem' ∧
      ∀ result, Ends (fun fuel => pointSubAssign fuel QUERIES_AT_Z_1_X_SLOT
        QUERIES_BUFFER_POINT_SLOT) mem' result →
          Ends (fun fuel => addAssignPermutationLinearisationContributionWithV fuel
            QUERIES_AT_Z_1_X_SLOT o0 o1 o2 o3) mem result := by
  have hzb := h.challenges.z.mul h.challenges.beta
  have hgamma := h.challenges.gamma
  have hfirst := ((((((h.derived.powers.power4.mul ((hzb.add hgamma).add ha)).mul
    (((hzb.mul isScalar_NON_RESIDUES_0).add hgamma).add hb)).mul
      (((hzb.mul isScalar_NON_RESIDUES_1).add hgamma).add hc)).mul
        (((hzb.mul isScalar_NON_RESIDUES_2).add hgamma).add hd)).add
          (h.derived.lagrange.l0.mul h.derived.powers.power5)).mul h.challenges.v).congr
            (show _ = ch.v * Plonk.zPermCoeff setting π ch by rw [Plonk.zPermCoeff]; ring)
  obtain ⟨mem₁, hmem₁, hcoeff, hkeeps₁⟩ :=
    exists_stored mem COPY_PERMUTATION_FIRST_AGGREGATED_COMMITMENT_COEFF hfirst
  have h₁ := h.keepSettled (keeps_settled_of_elsewhere hkeeps₁ (by decide))
  have hsecond := ((((((h₁.derived.powers.power4.mul h₁.challenges.beta).mul
    h₁.proof.zPermZOmega).mul (((h₁.proof.sigma0Z.mul h₁.challenges.beta).add
      h₁.challenges.gamma).add ha)).mul (((h₁.proof.sigma1Z.mul h₁.challenges.beta).add
        h₁.challenges.gamma).add hb)).mul (((h₁.proof.sigma2Z.mul h₁.challenges.beta).add
          h₁.challenges.gamma).add hc)).mul h₁.challenges.v).congr
            (show _ = ch.v * Plonk.sigma3Coeff π ch by rw [Plonk.sigma3Coeff]; ring)
  have hbuffer : Slot QUERIES_BUFFER_POINT_SLOT := by decide
  obtain ⟨_, mem', hends, hpoint, hkeeps₂⟩ :=
    pointMulIntoDest_spec (by decide) hbuffer h₁.key.sigma3 _
  rw [hsecond.smul] at hpoint
  refine ⟨mem', ?_, hpoint, ?_, ?_, fun result hsub => ?_⟩
  · exact (hS.keepElsewhere hkeeps₁ (by decide) (by decide)).keepApart hkeeps₂ (by decide)
  · exact hcoeff.keepApart hkeeps₂ (by decide) (by decide)
  · exact (keeps_settled_of_elsewhere hkeeps₁ (by decide)).trans
      (keeps_settled_of_apart hkeeps₂ (by decide))
  · simp only [addAssignPermutationLinearisationContributionWithV, Ends.load_bind,
      Ends.store_bind]
    rw [hmem₁]
    exact hends.bind hsub

theorem addAssignPermutationLinearisationContributionWithV_spec {S : g1.Point}
    (h : InputsAt mem vk π ch) (hS : PointAt mem QUERIES_AT_Z_1_X_SLOT S)
    (ha : IsScalar o0 π.aZ) (hb : IsScalar o1 π.bZ) (hc : IsScalar o2 π.cZ)
    (hd : IsScalar o3 π.dZ) (hfinite : (ch.v * Plonk.sigma3Coeff π ch) • vk.sigma3 ≠ 0) :
    Reaches (fun fuel => addAssignPermutationLinearisationContributionWithV fuel
      QUERIES_AT_Z_1_X_SLOT o0 o1 o2 o3) mem fun _ mem' =>
        PointAt mem' QUERIES_AT_Z_1_X_SLOT (S - (ch.v * Plonk.sigma3Coeff π ch) • vk.sigma3) ∧
        ScalarAt mem' COPY_PERMUTATION_FIRST_AGGREGATED_COMMITMENT_COEFF
          (ch.v * Plonk.zPermCoeff setting π ch) ∧
        Keeps Settled mem mem' := by
  obtain ⟨mem₁, hS₁, hbuffer, hcoeff, hkeeps₁, hends⟩ :=
    addAssignPermutationLinearisationContributionWithV_ends h hS ha hb hc hd
  obtain ⟨_, mem₂, hsub, hpoint, hkeeps₂⟩ :=
    pointSubAssign_spec (by decide) (by decide) hS₁ hbuffer hfinite
  exact ⟨_, mem₂, hends _ hsub, hpoint, hcoeff.keepApart hkeeps₂ (by decide) (by decide),
    hkeeps₁.trans (keeps_settled_of_apart hkeeps₂ (by decide))⟩

theorem addAssignPermutationLinearisationContributionWithV_reverts {S : g1.Point}
    (h : InputsAt mem vk π ch) (hS : PointAt mem QUERIES_AT_Z_1_X_SLOT S)
    (ha : IsScalar o0 π.aZ) (hb : IsScalar o1 π.bZ) (hc : IsScalar o2 π.cZ)
    (hd : IsScalar o3 π.dZ) (hinfinite : (ch.v * Plonk.sigma3Coeff π ch) • vk.sigma3 = 0) :
    Ends (fun fuel => addAssignPermutationLinearisationContributionWithV fuel
      QUERIES_AT_Z_1_X_SLOT o0 o1 o2 o3) mem
        (.error ⟨errorData 28 "pointSubAssign: ecAdd failed"⟩) := by
  obtain ⟨mem₁, -, hbuffer, -, -, hends⟩ :=
    addAssignPermutationLinearisationContributionWithV_ends h hS ha hb hc hd
  rw [hinfinite] at hbuffer
  exact hends _ (pointSubAssign_infinity (by decide) (by decide) hbuffer)

theorem addAssignLookupLinearisationContributionWithV_spec (h : InputsAt mem vk π ch)
    (ha : IsScalar o0 π.aZ) (hb : IsScalar o1 π.bZ) (hc : IsScalar o2 π.cZ) :
    Reaches (fun _ => addAssignLookupLinearisationContributionWithV QUERIES_AT_Z_1_X_SLOT
      o0 o1 o2) mem fun _ mem' =>
        ScalarAt mem' LOOKUP_GRAND_PRODUCT_FIRST_AGGREGATED_COMMITMENT_COEFF
          (ch.v * Plonk.zLookupCoeff setting π ch) ∧
        ScalarAt mem' LOOKUP_S_FIRST_AGGREGATED_COMMITMENT_COEFF
          (ch.v * Plonk.sCoeff setting π ch) ∧
        Keeps (Outside 0x1360 0x13a0) mem mem' := by
  have hs := (((h.proof.zLookupZOmega.mul h.derived.powers.power6).mul
    h.derived.lookup.zMinusLastOmega).mul h.challenges.v).congr
      (show _ = ch.v * Plonk.sCoeff setting π ch by rw [Plonk.sCoeff]; ring)
  obtain ⟨mem₁, hmem₁, hsAt, hkeeps₁⟩ :=
    exists_stored mem LOOKUP_S_FIRST_AGGREGATED_COMMITMENT_COEFF hs
  have h₁ := h.keepSettled (keeps_settled_of_elsewhere hkeeps₁ (by decide))
  have heta := h₁.challenges.eta
  have hf := (((((ha.add (heta.mul hb)).add ((heta.mul heta).mul hc)).add
    (h₁.proof.tableTypeZ.mul ((heta.mul heta).mul heta))).mul h₁.proof.lookupSelectorZ).add
      h₁.challenges.gammaLookup)
  have htable := ((h₁.proof.tableZOmega.mul h₁.challenges.betaLookup).add h₁.proof.tableZ).add
    h₁.derived.lookup.betaGamma
  have hz := ((((((((htable.mul hf).mul h₁.derived.lookup.betaPlusOne).neg_mul
    h₁.derived.powers.power6).mul h₁.derived.lookup.zMinusLastOmega).add
      (h₁.derived.lagrange.l0.mul h₁.derived.powers.power7)).add
        (h₁.derived.lagrange.lLast.mul h₁.derived.powers.power8)).mul h₁.challenges.v)).congr
          (show _ = ch.v * Plonk.zLookupCoeff setting π ch by
            rw [Plonk.zLookupCoeff, Plonk.lookupQueryZ, Plonk.betaGamma]; ring)
  obtain ⟨mem₂, hmem₂, hzAt, hkeeps₂⟩ :=
    exists_stored mem₁ LOOKUP_GRAND_PRODUCT_FIRST_AGGREGATED_COMMITMENT_COEFF hz
  simp only [addAssignLookupLinearisationContributionWithV, Reaches.load_bind, Reaches.store_bind]
  rw [hmem₁]
  refine Reaches.store ?_
  rw [hmem₂]
  exact ⟨hzAt, hsAt.keepElsewhere hkeeps₂ (by decide),
    (keeps_outside_of_elsewhere hkeeps₁ (by decide)).trans
      (keeps_outside_of_elsewhere hkeeps₂ (by decide))⟩

/-! ## All queries -/

/-- The part of `[D1]` that is added here, without the factor `v`. -/
noncomputable def linearisedGates (π : Plonk.Proof (ZMod r) g1.Point)
    (ch : Plonk.Challenges (ZMod r)) (vk : Plonk.VerificationKey g1.Point) : g1.Point :=
  Plonk.mainGate π vk + Plonk.customGate π ch vk - Plonk.sigma3Coeff π ch • vk.sigma3

/-- The queries are stored. -/
structure QueriesAt (mem : Memory) (vk : Plonk.VerificationKey g1.Point)
    (π : Plonk.Proof (ZMod r) g1.Point) (ch : Plonk.Challenges (ZMod r)) : Prop where
  d0 : PointAt mem QUERIES_AT_Z_0_X_SLOT (Plonk.d0 setting π ch)
  gates : PointAt mem QUERIES_AT_Z_1_X_SLOT (ch.v • linearisedGates π ch vk)
  table : PointAt mem QUERIES_T_POLY_AGGREGATED_X_SLOT (Plonk.table ch vk)
  zPermCoeff : ScalarAt mem COPY_PERMUTATION_FIRST_AGGREGATED_COMMITMENT_COEFF
    (ch.v * Plonk.zPermCoeff setting π ch)
  zLookupCoeff : ScalarAt mem LOOKUP_GRAND_PRODUCT_FIRST_AGGREGATED_COMMITMENT_COEFF
    (ch.v * Plonk.zLookupCoeff setting π ch)
  sCoeff : ScalarAt mem LOOKUP_S_FIRST_AGGREGATED_COMMITMENT_COEFF
    (ch.v * Plonk.sCoeff setting π ch)

theorem QueriesAt.keep (h : QueriesAt mem vk π ch)
    (hqueries : Keeps (Region 0x10c0 0x1180) mem mem')
    (hcoeffs : Keeps (Region 0x1340 0x13a0) mem mem') : QueriesAt mem' vk π ch where
  d0 := h.d0.keepRegion hqueries (by decide) (by decide)
  gates := h.gates.keepRegion hqueries (by decide) (by decide)
  table := h.table.keepRegion hqueries (by decide) (by decide)
  zPermCoeff := h.zPermCoeff.keep hcoeffs (by decide)
  zLookupCoeff := h.zLookupCoeff.keep hcoeffs (by decide)
  sCoeff := h.sCoeff.keep hcoeffs (by decide)

/-- The difference can be computed if the multiple of `[sigma_3]` is finite. -/
theorem prepareD1_spec (h : InputsAt mem vk π ch)
    (hfinite : (ch.v * Plonk.sigma3Coeff π ch) • vk.sigma3 ≠ 0) :
    Reaches (fun fuel => prepareD1 fuel) mem fun _ mem' =>
      PointAt mem' QUERIES_AT_Z_1_X_SLOT (ch.v • linearisedGates π ch vk) ∧
        ScalarAt mem' COPY_PERMUTATION_FIRST_AGGREGATED_COMMITMENT_COEFF
          (ch.v * Plonk.zPermCoeff setting π ch) ∧
        ScalarAt mem' LOOKUP_GRAND_PRODUCT_FIRST_AGGREGATED_COMMITMENT_COEFF
          (ch.v * Plonk.zLookupCoeff setting π ch) ∧
        ScalarAt mem' LOOKUP_S_FIRST_AGGREGATED_COMMITMENT_COEFF
          (ch.v * Plonk.sCoeff setting π ch) ∧
        Keeps Settled mem mem' := by
  have ha := h.proof.aZ
  have hb := h.proof.bZ
  have hc := h.proof.cZ
  have hd := h.proof.dZ
  unfold prepareD1
  rw [Reaches.load_bind, Reaches.load_bind, Reaches.load_bind, Reaches.load_bind]
  refine (mainGateLinearisationContributionWithV_spec h ha hb hc hd).bind fun _ mem₁ hsum => ?_
  refine (addAssignRescueCustomGateLinearisationContributionWithV_spec h hsum ha hb hc hd).bind
    fun _ mem₂ hsum => ?_
  have hsettled := keeps_settled_of_apart hsum.keeps (by decide)
  refine (addAssignPermutationLinearisationContributionWithV_spec (h.keepSettled hsettled)
    hsum.point ha hb hc hd hfinite).bind fun _ mem₃ ⟨hpoint, hcoeff, hkeeps₃⟩ => ?_
  have hsettled₃ := hsettled.trans hkeeps₃
  refine (addAssignLookupLinearisationContributionWithV_spec (h.keepSettled hsettled₃) ha hb
    hc).mono fun _ mem' ⟨hz, hs, hkeeps⟩ => ?_
  have hbelow : Keeps (Region 0x200 0x1360) mem₃ mem' :=
    keeps_region_of_outside hkeeps le_rfl (Or.inl le_rfl)
  refine ⟨?_, hcoeff.keep hbelow (by decide), hz, hs, hsettled₃.trans (hbelow.mono fun a ha => ?_)⟩
  · convert hpoint.keepRegion hbelow (by decide) (by decide) using 1
    rw [linearisedGates]
    module
  · simp only [Settled, Region] at ha ⊢
    omega

theorem prepareD1_reverts (h : InputsAt mem vk π ch)
    (hinfinite : (ch.v * Plonk.sigma3Coeff π ch) • vk.sigma3 = 0) :
    Ends (fun fuel => prepareD1 fuel) mem
      (.error ⟨errorData 28 "pointSubAssign: ecAdd failed"⟩) := by
  have ha := h.proof.aZ
  have hb := h.proof.bZ
  have hc := h.proof.cZ
  have hd := h.proof.dZ
  unfold prepareD1
  rw [Ends.load_bind, Ends.load_bind, Ends.load_bind, Ends.load_bind]
  refine (mainGateLinearisationContributionWithV_spec h ha hb hc hd).bind_ends
    fun _ mem₁ hsum => ?_
  refine (addAssignRescueCustomGateLinearisationContributionWithV_spec h hsum ha hb hc
    hd).bind_ends fun _ mem₂ hsum => ?_
  have hsettled := keeps_settled_of_apart hsum.keeps (by decide)
  exact Ends.bind_error (addAssignPermutationLinearisationContributionWithV_reverts
    (h.keepSettled hsettled) hsum.point ha hb hc hd hinfinite) _

theorem prepareQueries_spec (h : InputsAt mem vk π ch)
    (hfinite : (ch.v * Plonk.sigma3Coeff π ch) • vk.sigma3 ≠ 0) :
    Reaches (fun fuel => prepareQueries fuel) mem fun _ mem' =>
      InputsAt mem' vk π ch ∧ QueriesAt mem' vk π ch ∧ Keeps (Region 0x200 0x1080) mem mem' := by
  refine (prepareD0_spec h).bind fun _ mem₁ hd0 => ?_
  have houtside₁ := keeps_outside_of_apart hd0.keeps (show Inside 0x1080 0x1180 _ 64 by decide)
  have h₁ : InputsAt mem₁ vk π ch := h.keepOutside houtside₁
  refine (prepareD1_spec h₁ hfinite).bind fun _ mem₂ ⟨hgates, hzPerm, hzLookup, hs, hkeeps₂⟩ => ?_
  have h₂ := h₁.keepSettled hkeeps₂
  have hd0₂ : PointAt mem₂ QUERIES_AT_Z_0_X_SLOT (Plonk.d0 setting π ch) :=
    hd0.point.keepRegion (hkeeps₂.mono fun _ ha => Or.inr ha) (by decide) (by decide)
  refine (prepareTable_spec h₂).mono fun _ mem' htable => ?_
  have houtside := keeps_outside_of_apart htable.keeps (show Inside 0x1080 0x1180 _ 64 by decide)
  refine ⟨h₂.keepOutside houtside, ?_, ?_⟩
  · exact
      { d0 := htable.read hd0₂ (by decide)
        gates := htable.read hgates (by decide)
        table := htable.point
        zPermCoeff := hzPerm.keepApart htable.keeps (by decide) (by decide)
        zLookupCoeff := hzLookup.keepApart htable.keeps (by decide) (by decide)
        sCoeff := hs.keepApart htable.keeps (by decide) (by decide) }
  · have hsettled : Keeps (Region 0x200 0x1080) mem₁ mem₂ := hkeeps₂.mono fun _ ha => Or.inl ha
    exact ((keeps_region_of_outside houtside₁ le_rfl (Or.inl le_rfl)).trans hsettled).trans
      (keeps_region_of_outside houtside le_rfl (Or.inl le_rfl))

theorem prepareQueries_reverts (h : InputsAt mem vk π ch)
    (hinfinite : (ch.v * Plonk.sigma3Coeff π ch) • vk.sigma3 = 0) :
    Ends (fun fuel => prepareQueries fuel) mem
      (.error ⟨errorData 28 "pointSubAssign: ecAdd failed"⟩) := by
  refine (prepareD0_spec h).bind_ends fun _ mem₁ hd0 => ?_
  have h₁ : InputsAt mem₁ vk π ch :=
    h.keepOutside (keeps_outside_of_apart hd0.keeps (show Inside 0x1080 0x1180 _ 64 by decide))
  exact Ends.bind_error (prepareD1_reverts h₁ hinfinite) _

end Queries

end EraPrecompiles.Verifier
