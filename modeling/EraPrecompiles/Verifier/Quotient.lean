import EraPrecompiles.Verifier.State

/-!
# The equation at the challenge

The verifier checks the equation between the values of the polynomials at the challenge `z`.  On
the way it stores powers of `alpha`, values of Lagrange polynomials and constants of the lookup
argument, from which the queries are prepared later.
-/

namespace EraPrecompiles.Verifier

open Bn254

/-! ## The program -/

/-- The powers of `alpha`. -/
def storePowersOfAlpha : Contract Unit := do
  let alpha ← load STATE_ALPHA_SLOT
  let currentAlpha := mulmod alpha alpha R_MOD
  store STATE_POWER_OF_ALPHA_2_SLOT currentAlpha
  let currentAlpha := mulmod currentAlpha alpha R_MOD
  store STATE_POWER_OF_ALPHA_3_SLOT currentAlpha
  let currentAlpha := mulmod currentAlpha alpha R_MOD
  store STATE_POWER_OF_ALPHA_4_SLOT currentAlpha
  let currentAlpha := mulmod currentAlpha alpha R_MOD
  store STATE_POWER_OF_ALPHA_5_SLOT currentAlpha
  let currentAlpha := mulmod currentAlpha alpha R_MOD
  store STATE_POWER_OF_ALPHA_6_SLOT currentAlpha
  let currentAlpha := mulmod currentAlpha alpha R_MOD
  store STATE_POWER_OF_ALPHA_7_SLOT currentAlpha
  let currentAlpha := mulmod currentAlpha alpha R_MOD
  store STATE_POWER_OF_ALPHA_8_SLOT currentAlpha

def permutationQuotientContribution : Contract Word := do
  let res := mulmod (← load STATE_POWER_OF_ALPHA_4_SLOT)
    (← load PROOF_COPY_PERMUTATION_GRAND_PRODUCT_OPENING_AT_Z_OMEGA_SLOT) R_MOD
  let gamma ← load STATE_GAMMA_SLOT
  let beta ← load STATE_BETA_SLOT
  let factorMultiplier :=
    mulmod (← load PROOF_COPY_PERMUTATION_POLYS_0_OPENING_AT_Z_SLOT) beta R_MOD
  let factorMultiplier := addmod factorMultiplier gamma R_MOD
  let factorMultiplier :=
    addmod factorMultiplier (← load PROOF_STATE_POLYS_0_OPENING_AT_Z_SLOT) R_MOD
  let res := mulmod res factorMultiplier R_MOD
  let factorMultiplier :=
    mulmod (← load PROOF_COPY_PERMUTATION_POLYS_1_OPENING_AT_Z_SLOT) beta R_MOD
  let factorMultiplier := addmod factorMultiplier gamma R_MOD
  let factorMultiplier :=
    addmod factorMultiplier (← load PROOF_STATE_POLYS_1_OPENING_AT_Z_SLOT) R_MOD
  let res := mulmod res factorMultiplier R_MOD
  let factorMultiplier :=
    mulmod (← load PROOF_COPY_PERMUTATION_POLYS_2_OPENING_AT_Z_SLOT) beta R_MOD
  let factorMultiplier := addmod factorMultiplier gamma R_MOD
  let factorMultiplier :=
    addmod factorMultiplier (← load PROOF_STATE_POLYS_2_OPENING_AT_Z_SLOT) R_MOD
  let res := mulmod res factorMultiplier R_MOD
  let res :=
    mulmod res (addmod (← load PROOF_STATE_POLYS_3_OPENING_AT_Z_SLOT) gamma R_MOD) R_MOD
  let res := sub R_MOD res
  let l0AtZ ← load STATE_L_0_AT_Z_SLOT
  let l0AtZ := mulmod l0AtZ (← load STATE_POWER_OF_ALPHA_5_SLOT) R_MOD
  return addmod res (sub R_MOD l0AtZ) R_MOD

def lookupQuotientContribution (fuel : ℕ) : Contract Word := do
  let betaLookup ← load STATE_BETA_LOOKUP_SLOT
  let gammaLookup ← load STATE_GAMMA_LOOKUP_SLOT
  let betaPlusOne := addmod betaLookup 1 R_MOD
  let betaGamma := mulmod betaPlusOne gammaLookup R_MOD
  store STATE_BETA_PLUS_ONE_SLOT betaPlusOne
  store STATE_BETA_GAMMA_PLUS_GAMMA_SLOT betaGamma
  let res := mulmod (← load PROOF_LOOKUP_S_POLY_OPENING_AT_Z_OMEGA_SLOT) betaLookup R_MOD
  let res := addmod res betaGamma R_MOD
  let res :=
    mulmod res (← load PROOF_LOOKUP_GRAND_PRODUCT_OPENING_AT_Z_OMEGA_SLOT) R_MOD
  let res := mulmod res (← load STATE_POWER_OF_ALPHA_6_SLOT) R_MOD
  let lastOmega ← modexp fuel OMEGA (sub DOMAIN_SIZE 1)
  let zMinusLastOmega := addmod (← load STATE_Z_SLOT) (sub R_MOD lastOmega) R_MOD
  store STATE_Z_MINUS_LAST_OMEGA_SLOT zMinusLastOmega
  let res := mulmod res zMinusLastOmega R_MOD
  let intermediateValue :=
    mulmod (← load STATE_L_0_AT_Z_SLOT) (← load STATE_POWER_OF_ALPHA_7_SLOT) R_MOD
  let res := addmod res (sub R_MOD intermediateValue) R_MOD
  let lnMinusOneAtZ ← load STATE_L_N_MINUS_ONE_AT_Z_SLOT
  let betaGammaPowered ← modexp fuel betaGamma (sub DOMAIN_SIZE 1)
  let alphaPower8 ← load STATE_POWER_OF_ALPHA_8_SLOT
  let subtrahend := mulmod (mulmod lnMinusOneAtZ betaGammaPowered R_MOD) alphaPower8 R_MOD
  return addmod res (sub R_MOD subtrahend) R_MOD

/-- The two sides of the equation. -/
def quotientSides (fuel : ℕ) : Contract (Word × Word) := do
  storePowersOfAlpha
  let stateZ ← load STATE_Z_SLOT
  store STATE_L_0_AT_Z_SLOT (← evaluateLagrangePolyOutOfDomain fuel 0 stateZ)
  store STATE_L_N_MINUS_ONE_AT_Z_SLOT
    (← evaluateLagrangePolyOutOfDomain fuel (sub DOMAIN_SIZE 1) stateZ)
  let stateT := mulmod (← load STATE_L_0_AT_Z_SLOT) (← load PROOF_PUBLIC_INPUT) R_MOD
  let result := mulmod stateT (← load PROOF_GATE_SELECTORS_0_OPENING_AT_Z_SLOT) R_MOD
  let result := addmod result (← permutationQuotientContribution) R_MOD
  let result := addmod result (← lookupQuotientContribution fuel) R_MOD
  let result := addmod (← load PROOF_LINEARISATION_POLY_OPENING_AT_Z_SLOT) result R_MOD
  let vanishing := addmod (← load STATE_Z_IN_DOMAIN_SIZE) (sub R_MOD 1) R_MOD
  let lhs := mulmod (← load PROOF_QUOTIENT_POLY_OPENING_AT_Z_SLOT) vanishing R_MOD
  return (lhs, result)

def verifyQuotientEvaluation (fuel : ℕ) : Contract Unit := do
  let (lhs, result) ← quotientSides fuel
  if iszero (eq lhs result) ≠ 0 then
    revertWithMessage 27 "invalid quotient evaluation"

/-! ## Derived values -/

/-- The powers of `alpha` are stored. -/
structure PowersAt (mem : Memory) (alpha : ZMod r) : Prop where
  power2 : ScalarAt mem STATE_POWER_OF_ALPHA_2_SLOT (alpha ^ 2)
  power3 : ScalarAt mem STATE_POWER_OF_ALPHA_3_SLOT (alpha ^ 3)
  power4 : ScalarAt mem STATE_POWER_OF_ALPHA_4_SLOT (alpha ^ 4)
  power5 : ScalarAt mem STATE_POWER_OF_ALPHA_5_SLOT (alpha ^ 5)
  power6 : ScalarAt mem STATE_POWER_OF_ALPHA_6_SLOT (alpha ^ 6)
  power7 : ScalarAt mem STATE_POWER_OF_ALPHA_7_SLOT (alpha ^ 7)
  power8 : ScalarAt mem STATE_POWER_OF_ALPHA_8_SLOT (alpha ^ 8)

theorem PowersAt.keep {mem mem' : Memory} {alpha : ZMod r} (h : PowersAt mem alpha)
    (hkeeps : Keeps (Region 0xe20 0xf00) mem mem') : PowersAt mem' alpha where
  power2 := h.power2.keep hkeeps (by decide)
  power3 := h.power3.keep hkeeps (by decide)
  power4 := h.power4.keep hkeeps (by decide)
  power5 := h.power5.keep hkeeps (by decide)
  power6 := h.power6.keep hkeeps (by decide)
  power7 := h.power7.keep hkeeps (by decide)
  power8 := h.power8.keep hkeeps (by decide)

/-- The constants of the lookup argument are stored. -/
structure LookupAt (mem : Memory) (ch : Plonk.Challenges (ZMod r)) : Prop where
  betaPlusOne : ScalarAt mem STATE_BETA_PLUS_ONE_SLOT (ch.betaLookup + 1)
  betaGamma : ScalarAt mem STATE_BETA_GAMMA_PLUS_GAMMA_SLOT (Plonk.betaGamma ch)
  zMinusLastOmega : ScalarAt mem STATE_Z_MINUS_LAST_OMEGA_SLOT (Plonk.zMinusLastOmega setting ch)

/-- The values of the Lagrange polynomials are stored. -/
structure LagrangeAt (mem : Memory) (ch : Plonk.Challenges (ZMod r)) : Prop where
  l0 : ScalarAt mem STATE_L_0_AT_Z_SLOT (Plonk.l0 setting ch)
  lLast : ScalarAt mem STATE_L_N_MINUS_ONE_AT_Z_SLOT (Plonk.lLast setting ch)

theorem LagrangeAt.keep {mem mem' : Memory} {ch : Plonk.Challenges (ZMod r)}
    (h : LagrangeAt mem ch) (hkeeps : Keeps (Region 0x1020 0x1060) mem mem') :
    LagrangeAt mem' ch where
  l0 := h.l0.keep hkeeps (by decide)
  lLast := h.lLast.keep hkeeps (by decide)

/-- All derived values are stored. -/
structure DerivedAt (mem : Memory) (ch : Plonk.Challenges (ZMod r)) : Prop where
  powers : PowersAt mem ch.alpha
  lookup : LookupAt mem ch
  lagrange : LagrangeAt mem ch

/-- The addresses of the challenges; the derived values stand between them. -/
def Drawn (a : ℕ) : Prop :=
  Region 0xdc0 0xe20 a ∨ Region 0xf00 0xf60 a ∨ Region 0xfa0 0x1000 a ∨ Region 0x1060 0x1080 a

theorem ChallengesAt.keepDrawn {mem mem' : Memory} {ch : Plonk.Challenges (ZMod r)}
    (h : ChallengesAt mem ch) (hkeeps : Keeps Drawn mem mem') : ChallengesAt mem' ch := by
  have hfirst : Keeps (Region 0xdc0 0xe20) mem mem' :=
    hkeeps.mono fun _ ha => Or.inl ha
  have hsecond : Keeps (Region 0xf00 0xf60) mem mem' :=
    hkeeps.mono fun _ ha => Or.inr (Or.inl ha)
  have hthird : Keeps (Region 0xfa0 0x1000) mem mem' :=
    hkeeps.mono fun _ ha => Or.inr (Or.inr (Or.inl ha))
  have hlast : Keeps (Region 0x1060 0x1080) mem mem' :=
    hkeeps.mono fun _ ha => Or.inr (Or.inr (Or.inr ha))
  exact
    { eta := h.eta.keep hsecond (by decide)
      beta := h.beta.keep hfirst (by decide)
      gamma := h.gamma.keep hfirst (by decide)
      betaLookup := h.betaLookup.keep hsecond (by decide)
      gammaLookup := h.gammaLookup.keep hsecond (by decide)
      alpha := h.alpha.keep hfirst (by decide)
      z := h.z.keep hthird (by decide)
      v := h.v.keep hthird (by decide)
      u := h.u.keep hthird (by decide)
      zInDomainSize := h.zInDomainSize.keep hlast (by decide) }

/-- The bytes of the place are between the challenges. -/
def Between (slot : Word) : Prop :=
  Inside 0xe20 0xf00 slot 32 ∨ Inside 0xf60 0xfa0 slot 32 ∨ Inside 0x1000 0x1060 slot 32

instance (slot : Word) : Decidable (Between slot) :=
  inferInstanceAs (Decidable (_ ∨ _ ∨ _))

theorem keeps_drawn_of_elsewhere {mem mem' : Memory} {slot : Word}
    (h : Keeps (Elsewhere slot) mem mem') (hslot : Between slot) : Keeps Drawn mem mem' := by
  refine h.mono fun a ha => ?_
  simp only [Drawn, Region, Between, Inside, Elsewhere] at ha hslot ⊢
  omega

theorem keeps_drawn_of_lasting {mem mem' : Memory} (h : Keeps Lasting mem mem') :
    Keeps Drawn mem mem' := by
  refine h.mono fun a ha => ?_
  simp only [Drawn, Region] at ha
  rw [Lasting]
  omega

theorem keeps_drawn_of_powers {mem mem' : Memory} (h : Keeps (Outside 0xe20 0xf00) mem mem') :
    Keeps Drawn mem mem' := by
  refine h.mono fun a ha => ?_
  simp only [Drawn, Region] at ha
  rw [Outside]
  omega

/-! ## Powers of `alpha` -/

theorem storePowersOfAlpha_spec {mem : Memory} {alpha : ZMod r}
    (h : ScalarAt mem STATE_ALPHA_SLOT alpha) :
    Reaches (fun _ => storePowersOfAlpha) mem fun _ mem' =>
      PowersAt mem' alpha ∧ Keeps (Outside 0xe20 0xf00) mem mem' := by
  have h2 := h.mul h
  have h3 := h2.mul h
  have h4 := h3.mul h
  have h5 := h4.mul h
  have h6 := h5.mul h
  have h7 := h6.mul h
  have h8 := h7.mul h
  simp only [storePowersOfAlpha, Reaches.load_bind, Reaches.store_bind]
  refine Reaches.store ⟨?_, ?_⟩
  · constructor
    all_goals
      rw [ScalarAt]
      simp (disch := decide) only [mload_mstore_of_disjoint, mload_mstore_self]
    · exact h2.congr (by ring)
    · exact h3.congr (by ring)
    · exact h4.congr (by ring)
    · exact h5.congr (by ring)
    · exact h6.congr (by ring)
    · exact h7.congr (by ring)
    · exact h8.congr (by ring)
  · iterate 7 refine keeps_outside_mstore ?_ (by decide)
    exact Keeps.refl _ mem

/-! ## Contributions -/

/-- What the contributions are computed from. -/
structure TermsAt (mem : Memory) (π : Plonk.Proof (ZMod r) g1.Point)
    (ch : Plonk.Challenges (ZMod r)) : Prop where
  proof : ProofAt mem π
  challenges : ChallengesAt mem ch
  powers : PowersAt mem ch.alpha
  lagrange : LagrangeAt mem ch

section Contributions

variable {mem mem' : Memory} {π : Plonk.Proof (ZMod r) g1.Point} {ch : Plonk.Challenges (ZMod r)}

/-- The terms are kept by what the lookup argument stores. -/
theorem TermsAt.keep (h : TermsAt mem π ch) (hdrawn : Keeps Drawn mem mem')
    (hout : Keeps (Outside 0xf60 0x1020) mem mem') : TermsAt mem' π ch where
  proof := h.proof.keep (keeps_region_of_outside hout (by decide) (Or.inl (by decide)))
  challenges := h.challenges.keepDrawn hdrawn
  powers := h.powers.keep (keeps_region_of_outside hout (by decide) (Or.inl (by decide)))
  lagrange := h.lagrange.keep (keeps_region_of_outside hout (by decide) (Or.inr le_rfl))

theorem permutationQuotientContribution_spec (h : TermsAt mem π ch) :
    Reaches (fun _ => permutationQuotientContribution) mem fun w mem' =>
      IsScalar w (Plonk.permutationConstant setting π ch) ∧ mem' = mem := by
  have h0 := ((h.proof.sigma0Z.mul h.challenges.beta).add h.challenges.gamma).add h.proof.aZ
  have h1 := ((h.proof.sigma1Z.mul h.challenges.beta).add h.challenges.gamma).add h.proof.bZ
  have h2 := ((h.proof.sigma2Z.mul h.challenges.beta).add h.challenges.gamma).add h.proof.cZ
  have h3 := h.proof.dZ.add h.challenges.gamma
  have hres := ((((h.powers.power4.mul h.proof.zPermZOmega).mul h0).mul h1).mul h2).mul h3
  simp only [permutationQuotientContribution, Reaches.load_bind]
  refine Reaches.pure ⟨(hres.neg_sub (h.lagrange.l0.mul h.powers.power5)).congr ?_, rfl⟩
  rw [Plonk.permutationConstant]
  ring

theorem residue_OMEGA : residue OMEGA = setting.omega :=
  rfl

theorem toNat_pred_DOMAIN_SIZE : (sub DOMAIN_SIZE 1).toNat = setting.n - 1 := by
  have hn : setting.n = domainSize := rfl
  rw [hn]
  decide

theorem pred_DOMAIN_SIZE_ne_zero : sub DOMAIN_SIZE 1 ≠ 0 := by
  decide

theorem lookupQuotientContribution_spec (h : TermsAt mem π ch) :
    Reaches (fun fuel => lookupQuotientContribution fuel) mem fun w mem' =>
      IsScalar w (Plonk.lookupConstant setting π ch) ∧ LookupAt mem' ch ∧
        Keeps Drawn mem mem' ∧ Keeps (Outside 0xf60 0x1020) mem mem' := by
  have hplus := h.challenges.betaLookup.add IsScalar.one
  have hgamma := hplus.mul h.challenges.gammaLookup
  have hres := (((h.proof.sZOmega.mul h.challenges.betaLookup).add hgamma).mul
    h.proof.zLookupZOmega).mul h.powers.power6
  unfold lookupQuotientContribution
  rw [Reaches.load_bind, Reaches.load_bind]
  refine storeScalar_bind hplus fun mem₁ hplusAt hkeeps₁ => ?_
  refine storeScalar_bind hgamma fun mem₂ hgammaAt hkeeps₂ => ?_
  have hout : Keeps (Outside 0xf60 0x1020) mem mem₂ :=
    (keeps_outside_of_elsewhere hkeeps₁ (by decide)).trans
      (keeps_outside_of_elsewhere hkeeps₂ (by decide))
  have hdrawn : Keeps Drawn mem mem₂ :=
    (keeps_drawn_of_elsewhere hkeeps₁ (by decide)).trans
      (keeps_drawn_of_elsewhere hkeeps₂ (by decide))
  have h₂ := h.keep hdrawn hout
  have hres₂ := (((h₂.proof.sZOmega.mul h.challenges.betaLookup).add hgamma).mul
    h₂.proof.zLookupZOmega).mul h₂.powers.power6
  rw [Reaches.load_bind, Reaches.load_bind, Reaches.load_bind]
  refine (modexp_spec mem₂ residue_OMEGA pred_DOMAIN_SIZE_ne_zero).bind
    fun lastOmega mem₃ ⟨hlast, hkeeps₃⟩ => ?_
  rw [toNat_pred_DOMAIN_SIZE] at hlast
  have h₃ := h₂.keep (keeps_drawn_of_lasting hkeeps₃) (keeps_outside_of_lasting hkeeps₃ _ _)
  rw [Reaches.load_bind]
  have hz : IsScalar _ (Plonk.zMinusLastOmega setting ch) :=
    (h₃.challenges.z.sub hlast).congr (by rw [Plonk.zMinusLastOmega])
  refine storeScalar_bind hz fun mem₄ hzAt hkeeps₄ => ?_
  have h₄ := h₃.keep (keeps_drawn_of_elsewhere hkeeps₄ (by decide))
    (keeps_outside_of_elsewhere hkeeps₄ (by decide))
  rw [Reaches.load_bind, Reaches.load_bind, Reaches.load_bind]
  refine (modexp_spec mem₄ hgamma.residue_eq pred_DOMAIN_SIZE_ne_zero).bind
    fun power mem₅ ⟨hpower, hkeeps₅⟩ => ?_
  have h₅ := h₄.keep (keeps_drawn_of_lasting hkeeps₅) (keeps_outside_of_lasting hkeeps₅ _ _)
  rw [Reaches.load_bind]
  rw [toNat_pred_DOMAIN_SIZE] at hpower
  refine Reaches.pure ⟨?_, ?_, ?_, ?_⟩
  · refine (((hres₂.mul hz).sub
      (h₄.lagrange.l0.mul h₄.powers.power7)).sub
        ((h₄.lagrange.lLast.mul hpower).mul h₅.powers.power8)).congr ?_
    rw [Plonk.lookupConstant, Plonk.betaGamma]
    ring
  · exact
      { betaPlusOne := (((hplusAt.keepElsewhere hkeeps₂ (by decide)).keepLasting hkeeps₃
          (by decide)).keepElsewhere hkeeps₄ (by decide)).keepLasting hkeeps₅ (by decide)
        betaGamma := ((hgammaAt.keepLasting hkeeps₃ (by decide)).keepElsewhere hkeeps₄
          (by decide)).keepLasting hkeeps₅ (by decide)
        zMinusLastOmega := hzAt.keepLasting hkeeps₅ (by decide) }
  · exact ((hdrawn.trans (keeps_drawn_of_lasting hkeeps₃)).trans
      (keeps_drawn_of_elsewhere hkeeps₄ (by decide))).trans (keeps_drawn_of_lasting hkeeps₅)
  · exact ((hout.trans (keeps_outside_of_lasting hkeeps₃ _ _)).trans
      (keeps_outside_of_elsewhere hkeeps₄ (by decide))).trans
        (keeps_outside_of_lasting hkeeps₅ _ _)

end Contributions

/-! ## The equation -/

section Equation

variable {mem : Memory} {π : Plonk.Proof (ZMod r) g1.Point} {ch : Plonk.Challenges (ZMod r)}

/-- The values of the two Lagrange polynomials, outside of the domain. -/
theorem lagrange_l0 (mem : Memory) {z : Word} (hz : residue z = ch.z)
    (hout : ch.z ^ domainSize ≠ 1) :
    Reaches (fun fuel => evaluateLagrangePolyOutOfDomain fuel 0 z) mem fun w mem' =>
      IsScalar w (Plonk.l0 setting ch) ∧ Keeps Lasting mem mem' :=
  evaluateLagrangePolyOutOfDomain_spec mem (by decide) hz hout

theorem lagrange_lLast (mem : Memory) {z : Word} (hz : residue z = ch.z)
    (hout : ch.z ^ domainSize ≠ 1) :
    Reaches (fun fuel => evaluateLagrangePolyOutOfDomain fuel (sub DOMAIN_SIZE 1) z) mem
      fun w mem' => IsScalar w (Plonk.lLast setting ch) ∧ Keeps Lasting mem mem' := by
  have h := evaluateLagrangePolyOutOfDomain_spec mem (show (sub DOMAIN_SIZE 1).toNat < domainSize
    by decide) hz hout
  rwa [toNat_pred_DOMAIN_SIZE] at h

theorem quotientSides_reverts (hch : ChallengesAt mem ch) (hin : ch.z ^ domainSize = 1) :
    Ends (fun fuel => quotientSides fuel) mem
      (.error ⟨errorData 28 "invalid vanishing polynomial"⟩) := by
  unfold quotientSides
  refine (storePowersOfAlpha_spec hch.alpha).bind_ends fun _ mem₁ ⟨_, hkeeps₁⟩ => ?_
  have hz := (hch.keepDrawn (keeps_drawn_of_powers hkeeps₁)).z
  rw [Ends.load_bind]
  exact Ends.bind_error (evaluateLagrangePolyOutOfDomain_reverts mem₁ 0 hz.residue_eq hin) _

theorem quotientSides_spec (hπ : ProofAt mem π) (hch : ChallengesAt mem ch)
    (hout : ch.z ^ domainSize ≠ 1) :
    Reaches (fun fuel => quotientSides fuel) mem fun w mem' =>
      (IsScalar w.1 (π.quotientZ * (ch.z ^ setting.n - 1)) ∧
        IsScalar w.2 (π.linearisationZ + Plonk.linearisationConstant setting π ch)) ∧
      ChallengesAt mem' ch ∧ DerivedAt mem' ch ∧ Keeps (Outside 0xdc0 0x1080) mem mem' := by
  unfold quotientSides
  refine (storePowersOfAlpha_spec hch.alpha).bind fun _ mem₁ ⟨hpowers, hkeeps₁⟩ => ?_
  have hch₁ := hch.keepDrawn (keeps_drawn_of_powers hkeeps₁)
  rw [Reaches.load_bind]
  refine (lagrange_l0 mem₁ hch₁.z.residue_eq hout).bind fun l0 mem₂ ⟨hl0, hkeeps₂⟩ => ?_
  refine storeScalar_bind hl0 fun mem₃ hl0At hkeeps₃ => ?_
  refine (lagrange_lLast mem₃ hch₁.z.residue_eq hout).bind fun lLast mem₄ ⟨hlLast, hkeeps₄⟩ => ?_
  refine storeScalar_bind hlLast fun mem₅ hlLastAt hkeeps₅ => ?_
  have hcalls : Keeps (Outside 0x1020 0x1060) mem₁ mem₅ :=
    (((keeps_outside_of_lasting hkeeps₂ _ _).trans
      (keeps_outside_of_elsewhere hkeeps₃ (by decide))).trans
        (keeps_outside_of_lasting hkeeps₄ _ _)).trans
          (keeps_outside_of_elsewhere hkeeps₅ (by decide))
  have hdrawn : Keeps Drawn mem₁ mem₅ :=
    (((keeps_drawn_of_lasting hkeeps₂).trans (keeps_drawn_of_elsewhere hkeeps₃ (by decide))).trans
      (keeps_drawn_of_lasting hkeeps₄)).trans (keeps_drawn_of_elsewhere hkeeps₅ (by decide))
  have houtside : Keeps (Outside 0xdc0 0x1080) mem mem₅ :=
    (keeps_outside_mono hkeeps₁ (by decide) (by decide)).trans
      (keeps_outside_mono hcalls (by decide) (by decide))
  have h₅ : TermsAt mem₅ π ch :=
    { proof := hπ.keep (keeps_region_of_outside houtside (by decide) (Or.inl (by decide)))
      challenges := hch₁.keepDrawn hdrawn
      powers := hpowers.keep (keeps_region_of_outside hcalls (by decide) (Or.inl (by decide)))
      lagrange :=
        { l0 := (hl0At.keepLasting hkeeps₄ (by decide)).keepElsewhere hkeeps₅ (by decide)
          lLast := hlLastAt } }
  rw [Reaches.load_bind, Reaches.load_bind, Reaches.load_bind]
  refine (permutationQuotientContribution_spec h₅).bind fun perm mem₅' ⟨hperm, hmem₅⟩ => ?_
  subst hmem₅
  refine (lookupQuotientContribution_spec h₅).bind
    fun lookup mem₆ ⟨hlookup, hlookupAt, hdrawn₆, hkeeps₆⟩ => ?_
  have h₆ := h₅.keep hdrawn₆ hkeeps₆
  rw [Reaches.load_bind, Reaches.load_bind, Reaches.load_bind]
  refine Reaches.pure ⟨⟨?_, ?_⟩, h₆.challenges, ⟨h₆.powers, hlookupAt, h₆.lagrange⟩,
    houtside.trans (keeps_outside_mono hkeeps₆ (by decide) (by decide))⟩
  · have hn : setting.n = domainSize := rfl
    rw [hn]
    exact h₆.proof.quotientZ.mul (h₆.challenges.zInDomainSize.sub IsScalar.one)
  · refine (h₆.proof.linearisationZ.add (((((h₅.lagrange.l0.mul h₅.proof.publicInput).mul
      h₅.proof.mainGateSelectorZ).add hperm).add hlookup))).congr ?_
    rw [Plonk.linearisationConstant]

theorem iszero_eq_ne_zero {a b : Word} : iszero (eq a b) ≠ 0 ↔ a ≠ b := by
  rw [iszero_ne_zero, eq, ← not_iff_not, ← ne_eq, boolWord_ne_zero, not_not]

/-- The equation holds, and the derived values are stored. -/
theorem verifyQuotientEvaluation_spec (hπ : ProofAt mem π) (hch : ChallengesAt mem ch)
    (hout : ch.z ^ domainSize ≠ 1) (hholds : Plonk.QuotientHolds setting π ch) :
    Reaches (fun fuel => verifyQuotientEvaluation fuel) mem fun _ mem' =>
      ChallengesAt mem' ch ∧ DerivedAt mem' ch ∧ Keeps (Outside 0xdc0 0x1080) mem mem' := by
  refine (quotientSides_spec hπ hch hout).bind fun w mem' ⟨⟨hlhs, hresult⟩, hpost⟩ => ?_
  have heq : w.1 = w.2 := (hlhs.eq_iff hresult).mpr hholds
  have htest : ¬iszero (eq w.1 w.2) ≠ 0 := by
    rw [iszero_eq_ne_zero]
    exact not_not_intro heq
  simp only [if_neg htest]
  exact Reaches.pure hpost

/-- The equation does not hold. -/
theorem verifyQuotientEvaluation_invalid (hπ : ProofAt mem π) (hch : ChallengesAt mem ch)
    (hout : ch.z ^ domainSize ≠ 1) (hfails : ¬Plonk.QuotientHolds setting π ch) :
    Ends (fun fuel => verifyQuotientEvaluation fuel) mem
      (.error ⟨errorData 27 "invalid quotient evaluation"⟩) := by
  refine (quotientSides_spec hπ hch hout).bind_ends fun w mem' ⟨⟨hlhs, hresult⟩, _⟩ => ?_
  have hne : w.1 ≠ w.2 := mt (hlhs.eq_iff hresult).mp hfails
  have htest : iszero (eq w.1 w.2) ≠ 0 := iszero_eq_ne_zero.mpr hne
  simp only [if_pos htest]
  exact revertWithMessage_ends _ _ _

/-- At a point of the domain nothing is compared. -/
theorem verifyQuotientEvaluation_reverts (hch : ChallengesAt mem ch)
    (hin : ch.z ^ domainSize = 1) :
    Ends (fun fuel => verifyQuotientEvaluation fuel) mem
      (.error ⟨errorData 28 "invalid vanishing polynomial"⟩) :=
  Ends.bind_error (quotientSides_reverts hch hin) _

end Equation

end EraPrecompiles.Verifier
