import EraPrecompiles.Verifier.Lagrange

/-!
# The state of the verifier

The verifier keeps the verification key, the proof and the challenges in its memory.  A point
stands there as its encoding, and a scalar as a word below the modulus.
-/

namespace EraPrecompiles.Verifier

open Bn254 ShortWeierstrass

/-! ## Places -/

/-- The word at the place is the scalar. -/
def ScalarAt (mem : Memory) (slot : Word) (x : ZMod r) : Prop :=
  IsScalar (mload mem slot) x

/-- The bytes of the place are between the two addresses. -/
def Inside (lo hi : ℕ) (slot : Word) (size : ℕ) : Prop :=
  lo ≤ slot.toNat ∧ slot.toNat + size ≤ hi

instance (lo hi : ℕ) (slot : Word) (size : ℕ) : Decidable (Inside lo hi slot size) :=
  inferInstanceAs (Decidable (_ ∧ _))

/-- The memories agree between the two addresses. -/
def Region (lo hi a : ℕ) : Prop :=
  lo ≤ a ∧ a < hi

/-- The addresses from `0x200` on that are not between the two. -/
def Outside (lo hi a : ℕ) : Prop :=
  0x200 ≤ a ∧ (a < lo ∨ hi ≤ a)

section Places

variable {mem mem' : Memory} {slot : Word} {x : ZMod r} {A : g1.Point} {lo hi lo' hi' : ℕ}

theorem ScalarAt.keep (h : ScalarAt mem slot x) (hkeeps : Keeps (Region lo hi) mem mem')
    (hslot : Inside lo hi slot 32) : ScalarAt mem' slot x := by
  have hlo := hslot.1
  have hhi := hslot.2
  rw [ScalarAt, hkeeps.mload fun a h1 h2 => ⟨by omega, by omega⟩]
  exact h

theorem PointAt.keepRegion (h : PointAt mem slot A) (hkeeps : Keeps (Region lo hi) mem mem')
    (hslot : Inside lo hi slot 64) (hend : hi < 2 ^ 256) : PointAt mem' slot A := by
  have hlo := hslot.1
  have hhi := hslot.2
  exact h.keep hkeeps (fun a h1 h2 => ⟨by omega, by omega⟩) (by omega)

/-- A store of a scalar. -/
theorem scalarAt_mstore {w : Word} (mem : Memory) (slot : Word) (h : IsScalar w x) :
    ScalarAt (mstore mem slot w) slot x := by
  rwa [ScalarAt, mload_mstore_self]

theorem keeps_region_of_outside (h : Keeps (Outside lo hi) mem mem') (hlo' : 0x200 ≤ lo')
    (hdisjoint : hi' ≤ lo ∨ hi ≤ lo') : Keeps (Region lo' hi') mem mem' :=
  h.mono fun a ha => ⟨hlo'.trans ha.1, by have := ha.1; have := ha.2; omega⟩

theorem keeps_outside_of_lasting (h : Keeps Lasting mem mem') (lo hi : ℕ) :
    Keeps (Outside lo hi) mem mem' :=
  h.mono fun _ ha => ha.1

theorem keeps_outside_of_apart (h : Keeps (Apart slot) mem mem') (hslot : Inside lo hi slot 64) :
    Keeps (Outside lo hi) mem mem' :=
  h.mono fun a ha => ⟨ha.1, by have := ha.2; have := hslot.1; have := hslot.2; omega⟩

theorem keeps_outside_mono (h : Keeps (Outside lo' hi') mem mem') (hlo : lo ≤ lo')
    (hhi : hi' ≤ hi) : Keeps (Outside lo hi) mem mem' :=
  h.mono fun a ha => ⟨ha.1, by have := ha.2; omega⟩

theorem mload_of_outside (h : Keeps (Outside lo hi) mem mem') (hlast : 0x200 ≤ slot.toNat)
    (hslot : slot.toNat + 32 ≤ lo ∨ hi ≤ slot.toNat) : mload mem' slot = mload mem slot :=
  h.mload fun a h1 h2 => ⟨by omega, by omega⟩

theorem keeps_outside_mstore {v : Word} (h : Keeps (Outside lo hi) mem mem')
    (hslot : Inside lo hi slot 32) : Keeps (Outside lo hi) mem (mstore mem' slot v) :=
  h.mstore v fun a ha => by have := ha.2; have := hslot.1; have := hslot.2; omega

/-- The addresses that are not of the word at the place. -/
def Elsewhere (slot : Word) (a : ℕ) : Prop :=
  a < slot.toNat ∨ slot.toNat + 32 ≤ a

theorem keeps_outside_of_elsewhere (h : Keeps (Elsewhere slot) mem mem')
    (hslot : Inside lo hi slot 32) : Keeps (Outside lo hi) mem mem' :=
  h.mono fun a ha => by
    have hlo := hslot.1
    have hhi := hslot.2
    have ha' := ha.2
    rw [Elsewhere]
    omega

theorem ScalarAt.keepElsewhere {slot' : Word} (h : ScalarAt mem slot x)
    (hkeeps : Keeps (Elsewhere slot') mem mem')
    (hdisjoint : slot.toNat + 32 ≤ slot'.toNat ∨ slot'.toNat + 32 ≤ slot.toNat) :
    ScalarAt mem' slot x := by
  rw [ScalarAt, hkeeps.mload fun a h1 h2 => by rw [Elsewhere]; omega]
  exact h

theorem ScalarAt.keepLasting (h : ScalarAt mem slot x) (hkeeps : Keeps Lasting mem mem')
    (hslot : 0x200 ≤ slot.toNat) : ScalarAt mem' slot x := by
  rw [ScalarAt, hkeeps.mload fun a h1 h2 => hslot.trans h1]
  exact h

theorem ScalarAt.keepApart {dest : Word} (h : ScalarAt mem slot x)
    (hkeeps : Keeps (Apart dest) mem mem') (hlow : 0x200 ≤ slot.toNat)
    (hdisjoint : slot.toNat + 32 ≤ dest.toNat ∨ dest.toNat + 64 ≤ slot.toNat) :
    ScalarAt mem' slot x := by
  rw [ScalarAt, hkeeps.mload fun a h1 h2 => ⟨by omega, by omega⟩]
  exact h

theorem PointAt.keepElsewhere {slot' : Word} (h : PointAt mem slot A)
    (hkeeps : Keeps (Elsewhere slot') mem mem') (hslot : Slot slot)
    (hdisjoint : slot.toNat + 64 ≤ slot'.toNat ∨ slot'.toNat + 32 ≤ slot.toNat) :
    PointAt mem' slot A :=
  h.keep hkeeps (fun a h1 h2 => by rw [Elsewhere]; omega) hslot.2

/-- A scalar is stored, and all else is kept. -/
theorem exists_stored {w : Word} (mem : Memory) (slot : Word) (h : IsScalar w x) :
    ∃ mem', mstore mem slot w = mem' ∧ ScalarAt mem' slot x ∧ Keeps (Elsewhere slot) mem mem' :=
  ⟨_, rfl, scalarAt_mstore mem slot h, (Keeps.refl _ mem).mstore w fun _ ha => ha⟩

theorem storeScalar_bind {α : Type} {v : Word} {g : ℕ → Unit → Contract α}
    {Q : α → Memory → Prop} (h : IsScalar v x)
    (hg : ∀ mem', ScalarAt mem' slot x → Keeps (Elsewhere slot) mem mem' →
      Reaches (fun fuel => g fuel ()) mem' Q) :
    Reaches (fun fuel => store slot v >>= g fuel) mem Q := by
  obtain ⟨mem', hmem', hstored, hkeeps⟩ := exists_stored mem slot h
  rw [Reaches.store_bind, hmem']
  exact hg mem' hstored hkeeps

end Places

/-! ## The verification key -/

structure KeyAt (mem : Memory) (vk : Plonk.VerificationKey g1.Point) : Prop where
  qA : PointAt mem VK_GATE_SETUP_0_X_SLOT vk.qA
  qB : PointAt mem VK_GATE_SETUP_1_X_SLOT vk.qB
  qC : PointAt mem VK_GATE_SETUP_2_X_SLOT vk.qC
  qD : PointAt mem VK_GATE_SETUP_3_X_SLOT vk.qD
  qAB : PointAt mem VK_GATE_SETUP_4_X_SLOT vk.qAB
  qAC : PointAt mem VK_GATE_SETUP_5_X_SLOT vk.qAC
  qConst : PointAt mem VK_GATE_SETUP_6_X_SLOT vk.qConst
  qDNext : PointAt mem VK_GATE_SETUP_7_X_SLOT vk.qDNext
  mainGateSelector : PointAt mem VK_GATE_SELECTORS_0_X_SLOT vk.mainGateSelector
  customGateSelector : PointAt mem VK_GATE_SELECTORS_1_X_SLOT vk.customGateSelector
  sigma0 : PointAt mem VK_PERMUTATION_0_X_SLOT vk.sigma0
  sigma1 : PointAt mem VK_PERMUTATION_1_X_SLOT vk.sigma1
  sigma2 : PointAt mem VK_PERMUTATION_2_X_SLOT vk.sigma2
  sigma3 : PointAt mem VK_PERMUTATION_3_X_SLOT vk.sigma3
  lookupSelector : PointAt mem VK_LOOKUP_SELECTOR_X_SLOT vk.lookupSelector
  col0 : PointAt mem VK_LOOKUP_TABLE_0_X_SLOT vk.col0
  col1 : PointAt mem VK_LOOKUP_TABLE_1_X_SLOT vk.col1
  col2 : PointAt mem VK_LOOKUP_TABLE_2_X_SLOT vk.col2
  col3 : PointAt mem VK_LOOKUP_TABLE_3_X_SLOT vk.col3
  tableType : PointAt mem VK_LOOKUP_TABLE_TYPE_X_SLOT vk.tableType

theorem KeyAt.keep {mem mem' : Memory} {vk : Plonk.VerificationKey g1.Point} (h : KeyAt mem vk)
    (hkeeps : Keeps (Region 0x200 0x720) mem mem') : KeyAt mem' vk where
  qA := h.qA.keepRegion hkeeps (by decide) (by decide)
  qB := h.qB.keepRegion hkeeps (by decide) (by decide)
  qC := h.qC.keepRegion hkeeps (by decide) (by decide)
  qD := h.qD.keepRegion hkeeps (by decide) (by decide)
  qAB := h.qAB.keepRegion hkeeps (by decide) (by decide)
  qAC := h.qAC.keepRegion hkeeps (by decide) (by decide)
  qConst := h.qConst.keepRegion hkeeps (by decide) (by decide)
  qDNext := h.qDNext.keepRegion hkeeps (by decide) (by decide)
  mainGateSelector := h.mainGateSelector.keepRegion hkeeps (by decide) (by decide)
  customGateSelector := h.customGateSelector.keepRegion hkeeps (by decide) (by decide)
  sigma0 := h.sigma0.keepRegion hkeeps (by decide) (by decide)
  sigma1 := h.sigma1.keepRegion hkeeps (by decide) (by decide)
  sigma2 := h.sigma2.keepRegion hkeeps (by decide) (by decide)
  sigma3 := h.sigma3.keepRegion hkeeps (by decide) (by decide)
  lookupSelector := h.lookupSelector.keepRegion hkeeps (by decide) (by decide)
  col0 := h.col0.keepRegion hkeeps (by decide) (by decide)
  col1 := h.col1.keepRegion hkeeps (by decide) (by decide)
  col2 := h.col2.keepRegion hkeeps (by decide) (by decide)
  col3 := h.col3.keepRegion hkeeps (by decide) (by decide)
  tableType := h.tableType.keepRegion hkeeps (by decide) (by decide)

/-! ## The proof -/

structure ProofAt (mem : Memory) (π : Plonk.Proof (ZMod r) g1.Point) : Prop where
  publicInput : ScalarAt mem PROOF_PUBLIC_INPUT π.publicInput
  a : PointAt mem PROOF_STATE_POLYS_0_X_SLOT π.a
  b : PointAt mem PROOF_STATE_POLYS_1_X_SLOT π.b
  c : PointAt mem PROOF_STATE_POLYS_2_X_SLOT π.c
  d : PointAt mem PROOF_STATE_POLYS_3_X_SLOT π.d
  zPerm : PointAt mem PROOF_COPY_PERMUTATION_GRAND_PRODUCT_X_SLOT π.zPerm
  s : PointAt mem PROOF_LOOKUP_S_POLY_X_SLOT π.s
  zLookup : PointAt mem PROOF_LOOKUP_GRAND_PRODUCT_X_SLOT π.zLookup
  t0 : PointAt mem PROOF_QUOTIENT_POLY_PARTS_0_X_SLOT π.t0
  t1 : PointAt mem PROOF_QUOTIENT_POLY_PARTS_1_X_SLOT π.t1
  t2 : PointAt mem PROOF_QUOTIENT_POLY_PARTS_2_X_SLOT π.t2
  t3 : PointAt mem PROOF_QUOTIENT_POLY_PARTS_3_X_SLOT π.t3
  aZ : ScalarAt mem PROOF_STATE_POLYS_0_OPENING_AT_Z_SLOT π.aZ
  bZ : ScalarAt mem PROOF_STATE_POLYS_1_OPENING_AT_Z_SLOT π.bZ
  cZ : ScalarAt mem PROOF_STATE_POLYS_2_OPENING_AT_Z_SLOT π.cZ
  dZ : ScalarAt mem PROOF_STATE_POLYS_3_OPENING_AT_Z_SLOT π.dZ
  dZOmega : ScalarAt mem PROOF_STATE_POLYS_3_OPENING_AT_Z_OMEGA_SLOT π.dZOmega
  mainGateSelectorZ : ScalarAt mem PROOF_GATE_SELECTORS_0_OPENING_AT_Z_SLOT π.mainGateSelectorZ
  sigma0Z : ScalarAt mem PROOF_COPY_PERMUTATION_POLYS_0_OPENING_AT_Z_SLOT π.sigma0Z
  sigma1Z : ScalarAt mem PROOF_COPY_PERMUTATION_POLYS_1_OPENING_AT_Z_SLOT π.sigma1Z
  sigma2Z : ScalarAt mem PROOF_COPY_PERMUTATION_POLYS_2_OPENING_AT_Z_SLOT π.sigma2Z
  zPermZOmega :
    ScalarAt mem PROOF_COPY_PERMUTATION_GRAND_PRODUCT_OPENING_AT_Z_OMEGA_SLOT π.zPermZOmega
  sZOmega : ScalarAt mem PROOF_LOOKUP_S_POLY_OPENING_AT_Z_OMEGA_SLOT π.sZOmega
  zLookupZOmega : ScalarAt mem PROOF_LOOKUP_GRAND_PRODUCT_OPENING_AT_Z_OMEGA_SLOT π.zLookupZOmega
  tableZ : ScalarAt mem PROOF_LOOKUP_T_POLY_OPENING_AT_Z_SLOT π.tableZ
  tableZOmega : ScalarAt mem PROOF_LOOKUP_T_POLY_OPENING_AT_Z_OMEGA_SLOT π.tableZOmega
  lookupSelectorZ : ScalarAt mem PROOF_LOOKUP_SELECTOR_POLY_OPENING_AT_Z_SLOT π.lookupSelectorZ
  tableTypeZ : ScalarAt mem PROOF_LOOKUP_TABLE_TYPE_POLY_OPENING_AT_Z_SLOT π.tableTypeZ
  quotientZ : ScalarAt mem PROOF_QUOTIENT_POLY_OPENING_AT_Z_SLOT π.quotientZ
  linearisationZ : ScalarAt mem PROOF_LINEARISATION_POLY_OPENING_AT_Z_SLOT π.linearisationZ
  w : PointAt mem PROOF_OPENING_PROOF_AT_Z_X_SLOT π.w
  w' : PointAt mem PROOF_OPENING_PROOF_AT_Z_OMEGA_X_SLOT π.w'

theorem ProofAt.keep {mem mem' : Memory} {π : Plonk.Proof (ZMod r) g1.Point} (h : ProofAt mem π)
    (hkeeps : Keeps (Region 0x720 0xd40) mem mem') : ProofAt mem' π where
  publicInput := h.publicInput.keep hkeeps (by decide)
  a := h.a.keepRegion hkeeps (by decide) (by decide)
  b := h.b.keepRegion hkeeps (by decide) (by decide)
  c := h.c.keepRegion hkeeps (by decide) (by decide)
  d := h.d.keepRegion hkeeps (by decide) (by decide)
  zPerm := h.zPerm.keepRegion hkeeps (by decide) (by decide)
  s := h.s.keepRegion hkeeps (by decide) (by decide)
  zLookup := h.zLookup.keepRegion hkeeps (by decide) (by decide)
  t0 := h.t0.keepRegion hkeeps (by decide) (by decide)
  t1 := h.t1.keepRegion hkeeps (by decide) (by decide)
  t2 := h.t2.keepRegion hkeeps (by decide) (by decide)
  t3 := h.t3.keepRegion hkeeps (by decide) (by decide)
  aZ := h.aZ.keep hkeeps (by decide)
  bZ := h.bZ.keep hkeeps (by decide)
  cZ := h.cZ.keep hkeeps (by decide)
  dZ := h.dZ.keep hkeeps (by decide)
  dZOmega := h.dZOmega.keep hkeeps (by decide)
  mainGateSelectorZ := h.mainGateSelectorZ.keep hkeeps (by decide)
  sigma0Z := h.sigma0Z.keep hkeeps (by decide)
  sigma1Z := h.sigma1Z.keep hkeeps (by decide)
  sigma2Z := h.sigma2Z.keep hkeeps (by decide)
  zPermZOmega := h.zPermZOmega.keep hkeeps (by decide)
  sZOmega := h.sZOmega.keep hkeeps (by decide)
  zLookupZOmega := h.zLookupZOmega.keep hkeeps (by decide)
  tableZ := h.tableZ.keep hkeeps (by decide)
  tableZOmega := h.tableZOmega.keep hkeeps (by decide)
  lookupSelectorZ := h.lookupSelectorZ.keep hkeeps (by decide)
  tableTypeZ := h.tableTypeZ.keep hkeeps (by decide)
  quotientZ := h.quotientZ.keep hkeeps (by decide)
  linearisationZ := h.linearisationZ.keep hkeeps (by decide)
  w := h.w.keepRegion hkeeps (by decide) (by decide)
  w' := h.w'.keepRegion hkeeps (by decide) (by decide)

/-! ## The challenges -/

/-- The challenges, and the power of `z` that is computed with them. -/
structure ChallengesAt (mem : Memory) (ch : Plonk.Challenges (ZMod r)) : Prop where
  eta : ScalarAt mem STATE_ETA_SLOT ch.eta
  beta : ScalarAt mem STATE_BETA_SLOT ch.beta
  gamma : ScalarAt mem STATE_GAMMA_SLOT ch.gamma
  betaLookup : ScalarAt mem STATE_BETA_LOOKUP_SLOT ch.betaLookup
  gammaLookup : ScalarAt mem STATE_GAMMA_LOOKUP_SLOT ch.gammaLookup
  alpha : ScalarAt mem STATE_ALPHA_SLOT ch.alpha
  z : ScalarAt mem STATE_Z_SLOT ch.z
  v : ScalarAt mem STATE_V_SLOT ch.v
  u : ScalarAt mem STATE_U_SLOT ch.u
  zInDomainSize : ScalarAt mem STATE_Z_IN_DOMAIN_SIZE (ch.z ^ domainSize)

theorem ChallengesAt.keep {mem mem' : Memory} {ch : Plonk.Challenges (ZMod r)}
    (h : ChallengesAt mem ch) (hkeeps : Keeps (Region 0xdc0 0x1080) mem mem') :
    ChallengesAt mem' ch where
  eta := h.eta.keep hkeeps (by decide)
  beta := h.beta.keep hkeeps (by decide)
  gamma := h.gamma.keep hkeeps (by decide)
  betaLookup := h.betaLookup.keep hkeeps (by decide)
  gammaLookup := h.gammaLookup.keep hkeeps (by decide)
  alpha := h.alpha.keep hkeeps (by decide)
  z := h.z.keep hkeeps (by decide)
  v := h.v.keep hkeeps (by decide)
  u := h.u.keep hkeeps (by decide)
  zInDomainSize := h.zInDomainSize.keep hkeeps (by decide)

end EraPrecompiles.Verifier
