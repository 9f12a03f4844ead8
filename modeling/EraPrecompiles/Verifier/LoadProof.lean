import EraPrecompiles.Verifier.State

/-!
# Loading the proof

The contract reads the public input and the 44 words of the proof from the calldata, reduces them,
and tests that the points are on the curve.  It keeps them in its memory in the order in which
they come.
-/

namespace EraPrecompiles.Verifier

open Bn254 ShortWeierstrass

/-! ## The program -/

/-- The block that `loadProof` has for every point. -/
def loadPoint (cd : Calldata) (offset xOffset yOffset xSlot ySlot isValid : Word) :
    Contract Word := do
  let x := mod (calldataload cd (add offset xOffset)) Q_MOD
  let y := mod (calldataload cd (add offset yOffset)) Q_MOD
  let xx := mulmod x x Q_MOD
  let isValid := and (eq (mulmod y y Q_MOD) (addmod (mulmod x xx Q_MOD) 3 Q_MOD)) isValid
  store xSlot x
  store ySlot y
  return isValid

/-- The statement that `loadProof` has for every opening. -/
def loadOpening (cd : Calldata) (offset wordOffset slot : Word) : Contract Unit :=
  store slot (mod (calldataload cd (add offset wordOffset)) R_MOD)

def loadProof (cd : Calldata) : Contract Unit := do
  -- 1. Load public input
  let offset := calldataload cd 0x04
  let publicInputLengthInWords := calldataload cd (add offset 0x04)
  let isValid := eq publicInputLengthInWords 1
  store PROOF_PUBLIC_INPUT (and (calldataload cd (add offset 0x24)) FR_MASK)
  -- 2. Load the proof (except for the recursive part)
  let offset := calldataload cd 0x24
  let proofLengthInWords := calldataload cd (add offset 0x04)
  let isValid := and (eq proofLengthInWords 44) isValid
  let isValid ← loadPoint cd offset 0x024 0x044 PROOF_STATE_POLYS_0_X_SLOT
    PROOF_STATE_POLYS_0_Y_SLOT isValid
  let isValid ← loadPoint cd offset 0x064 0x084 PROOF_STATE_POLYS_1_X_SLOT
    PROOF_STATE_POLYS_1_Y_SLOT isValid
  let isValid ← loadPoint cd offset 0x0a4 0x0c4 PROOF_STATE_POLYS_2_X_SLOT
    PROOF_STATE_POLYS_2_Y_SLOT isValid
  let isValid ← loadPoint cd offset 0x0e4 0x104 PROOF_STATE_POLYS_3_X_SLOT
    PROOF_STATE_POLYS_3_Y_SLOT isValid
  let isValid ← loadPoint cd offset 0x124 0x144 PROOF_COPY_PERMUTATION_GRAND_PRODUCT_X_SLOT
    PROOF_COPY_PERMUTATION_GRAND_PRODUCT_Y_SLOT isValid
  let isValid ← loadPoint cd offset 0x164 0x184 PROOF_LOOKUP_S_POLY_X_SLOT
    PROOF_LOOKUP_S_POLY_Y_SLOT isValid
  let isValid ← loadPoint cd offset 0x1a4 0x1c4 PROOF_LOOKUP_GRAND_PRODUCT_X_SLOT
    PROOF_LOOKUP_GRAND_PRODUCT_Y_SLOT isValid
  let isValid ← loadPoint cd offset 0x1e4 0x204 PROOF_QUOTIENT_POLY_PARTS_0_X_SLOT
    PROOF_QUOTIENT_POLY_PARTS_0_Y_SLOT isValid
  let isValid ← loadPoint cd offset 0x224 0x244 PROOF_QUOTIENT_POLY_PARTS_1_X_SLOT
    PROOF_QUOTIENT_POLY_PARTS_1_Y_SLOT isValid
  let isValid ← loadPoint cd offset 0x264 0x284 PROOF_QUOTIENT_POLY_PARTS_2_X_SLOT
    PROOF_QUOTIENT_POLY_PARTS_2_Y_SLOT isValid
  let isValid ← loadPoint cd offset 0x2a4 0x2c4 PROOF_QUOTIENT_POLY_PARTS_3_X_SLOT
    PROOF_QUOTIENT_POLY_PARTS_3_Y_SLOT isValid
  loadOpening cd offset 0x2e4 PROOF_STATE_POLYS_0_OPENING_AT_Z_SLOT
  loadOpening cd offset 0x304 PROOF_STATE_POLYS_1_OPENING_AT_Z_SLOT
  loadOpening cd offset 0x324 PROOF_STATE_POLYS_2_OPENING_AT_Z_SLOT
  loadOpening cd offset 0x344 PROOF_STATE_POLYS_3_OPENING_AT_Z_SLOT
  loadOpening cd offset 0x364 PROOF_STATE_POLYS_3_OPENING_AT_Z_OMEGA_SLOT
  loadOpening cd offset 0x384 PROOF_GATE_SELECTORS_0_OPENING_AT_Z_SLOT
  loadOpening cd offset 0x3a4 PROOF_COPY_PERMUTATION_POLYS_0_OPENING_AT_Z_SLOT
  loadOpening cd offset 0x3c4 PROOF_COPY_PERMUTATION_POLYS_1_OPENING_AT_Z_SLOT
  loadOpening cd offset 0x3e4 PROOF_COPY_PERMUTATION_POLYS_2_OPENING_AT_Z_SLOT
  loadOpening cd offset 0x404 PROOF_COPY_PERMUTATION_GRAND_PRODUCT_OPENING_AT_Z_OMEGA_SLOT
  loadOpening cd offset 0x424 PROOF_LOOKUP_S_POLY_OPENING_AT_Z_OMEGA_SLOT
  loadOpening cd offset 0x444 PROOF_LOOKUP_GRAND_PRODUCT_OPENING_AT_Z_OMEGA_SLOT
  loadOpening cd offset 0x464 PROOF_LOOKUP_T_POLY_OPENING_AT_Z_SLOT
  loadOpening cd offset 0x484 PROOF_LOOKUP_T_POLY_OPENING_AT_Z_OMEGA_SLOT
  loadOpening cd offset 0x4a4 PROOF_LOOKUP_SELECTOR_POLY_OPENING_AT_Z_SLOT
  loadOpening cd offset 0x4c4 PROOF_LOOKUP_TABLE_TYPE_POLY_OPENING_AT_Z_SLOT
  loadOpening cd offset 0x4e4 PROOF_QUOTIENT_POLY_OPENING_AT_Z_SLOT
  loadOpening cd offset 0x504 PROOF_LINEARISATION_POLY_OPENING_AT_Z_SLOT
  let isValid ← loadPoint cd offset 0x524 0x544 PROOF_OPENING_PROOF_AT_Z_X_SLOT
    PROOF_OPENING_PROOF_AT_Z_Y_SLOT isValid
  let isValid ← loadPoint cd offset 0x564 0x584 PROOF_OPENING_PROOF_AT_Z_OMEGA_X_SLOT
    PROOF_OPENING_PROOF_AT_Z_OMEGA_Y_SLOT isValid
  -- 3. Load the recursive part of the proof
  let offset := calldataload cd 0x44
  let recursiveProofLengthInWords := calldataload cd (add offset 0x04)
  let isValid ← (do
    if (← load VK_RECURSIVE_FLAG_SLOT) = 0 then
      -- recursive part should be empty
      return and (iszero recursiveProofLengthInWords) isValid
    else
      -- recursive part should be consist of 2 points
      let isValid := and (eq recursiveProofLengthInWords 4) isValid
      let isValid ← loadPoint cd offset 0x024 0x044 PROOF_RECURSIVE_PART_P1_X_SLOT
        PROOF_RECURSIVE_PART_P1_Y_SLOT isValid
      loadPoint cd offset 0x064 0x084 PROOF_RECURSIVE_PART_P2_X_SLOT
        PROOF_RECURSIVE_PART_P2_Y_SLOT isValid)
  if iszero isValid ≠ 0 then
    revertWithMessage 27 "loadProof: Proof is invalid"

/-! ## What the calldata says -/

/-- Word `k` of the proof. -/
def proofWord (cd : Calldata) (k : ℕ) : Word :=
  calldataload cd (add (calldataload cd 0x24) (BitVec.ofNat 256 (0x24 + 32 * k)))

/-- The coordinates of a point, reduced. -/
def coordinate (cd : Calldata) (k : ℕ) : Word :=
  mod (proofWord cd k) Q_MOD

/-- The value of an opening, reduced. -/
def opening (cd : Calldata) (k : ℕ) : Word :=
  mod (proofWord cd k) R_MOD

def publicInput (cd : Calldata) : Word :=
  and (calldataload cd (add (calldataload cd 0x04) 0x24)) FR_MASK

/-- The words of the proof at which a point begins. -/
def pointIndices : List ℕ :=
  [42, 40, 20, 18, 16, 14, 12, 10, 8, 6, 4, 2, 0]

/-- The point with the coordinates `k` and `k + 1` is on the curve. -/
def ValidPoint (cd : Calldata) (k : ℕ) : Prop :=
  g1.OnCurve (coordinate cd k).toNat (coordinate cd (k + 1)).toNat

instance (cd : Calldata) (k : ℕ) : Decidable (ValidPoint cd k) :=
  inferInstanceAs (Decidable (g1.OnCurve _ _))

/-- The arrays have the lengths that the contract expects, and its points are on the curve. -/
structure ValidProof (cd : Calldata) : Prop where
  publicInputLength : calldataload cd (add (calldataload cd 0x04) 0x04) = 1
  proofLength : calldataload cd (add (calldataload cd 0x24) 0x04) = 44
  recursiveLength : calldataload cd (add (calldataload cd 0x44) 0x04) = 0
  points : ∀ k ∈ pointIndices, ValidPoint cd k

/-- The point with the coordinates `k` and `k + 1`. -/
def pointOf (cd : Calldata) (k : ℕ) : g1.Point :=
  (decodePoint (coordinate cd k) (coordinate cd (k + 1))).getD 0

/-- The proof in the calldata. -/
def proofOf (cd : Calldata) : Plonk.Proof (ZMod r) g1.Point where
  publicInput := residue (publicInput cd)
  a := pointOf cd 0
  b := pointOf cd 2
  c := pointOf cd 4
  d := pointOf cd 6
  zPerm := pointOf cd 8
  s := pointOf cd 10
  zLookup := pointOf cd 12
  t0 := pointOf cd 14
  t1 := pointOf cd 16
  t2 := pointOf cd 18
  t3 := pointOf cd 20
  aZ := residue (proofWord cd 22)
  bZ := residue (proofWord cd 23)
  cZ := residue (proofWord cd 24)
  dZ := residue (proofWord cd 25)
  dZOmega := residue (proofWord cd 26)
  mainGateSelectorZ := residue (proofWord cd 27)
  sigma0Z := residue (proofWord cd 28)
  sigma1Z := residue (proofWord cd 29)
  sigma2Z := residue (proofWord cd 30)
  zPermZOmega := residue (proofWord cd 31)
  sZOmega := residue (proofWord cd 32)
  zLookupZOmega := residue (proofWord cd 33)
  tableZ := residue (proofWord cd 34)
  tableZOmega := residue (proofWord cd 35)
  lookupSelectorZ := residue (proofWord cd 36)
  tableTypeZ := residue (proofWord cd 37)
  quotientZ := residue (proofWord cd 38)
  linearisationZ := residue (proofWord cd 39)
  w := pointOf cd 40
  w' := pointOf cd 42

/-- The words that the contract stores. -/
def loadedWords (cd : Calldata) : List Word :=
  publicInput cd ::
    ((List.range 22).map (coordinate cd) ++ (List.range 18).map (fun k => opening cd (22 + k)) ++
      (List.range 4).map fun k => coordinate cd (40 + k))

instance (cd : Calldata) : Decidable (ValidProof cd) :=
  decidable_of_iff (calldataload cd (add (calldataload cd 0x04) 0x04) = 1 ∧
      calldataload cd (add (calldataload cd 0x24) 0x04) = 44 ∧
      calldataload cd (add (calldataload cd 0x44) 0x04) = 0 ∧
      ∀ k ∈ pointIndices, ValidPoint cd k)
    ⟨fun h => ⟨h.1, h.2.1, h.2.2.1, h.2.2.2⟩, fun h => ⟨h.1, h.2, h.3, h.4⟩⟩

/-! ## The run -/

/-- The test of a point. -/
theorem pointTest (x y : Word) :
    eq (mulmod y y Q_MOD) (addmod (mulmod x (mulmod x x Q_MOD) Q_MOD) 3 Q_MOD) =
      boolWord (g1.OnCurve (x.toNat : Fp) y.toNat) := by
  have hQ : Q_MOD ≠ 0 := by decide
  have h3 : (3 : Word).toNat = 3 := rfl
  rw [eq]
  refine boolWord_congr ?_
  rw [← BitVec.toNat_inj, toNat_addmod _ _ hQ, toNat_mulmod _ _ hQ, toNat_mulmod _ _ hQ,
    toNat_mulmod _ _ hQ, toNat_Q_MOD, h3, Nat.mod_add_mod, ← ZMod.natCast_eq_natCast_iff', OnCurve]
  have ha : g1.a = 0 := rfl
  have hb : g1.b = 3 := rfl
  rw [ha, hb, zero_mul, add_zero, Nat.cast_add, Nat.cast_mul, Nat.cast_mul, ZMod.natCast_mod,
    Nat.cast_mul, Nat.cast_ofNat, pow_two, pow_three]

theorem loadedWords_coordinate (cd : Calldata) {k : ℕ} (hk : k < 22 ∨ 40 ≤ k ∧ k < 44) :
    (loadedWords cd)[k + 1]? = some (coordinate cd k) := by
  rw [loadedWords, List.getElem?_cons_succ]
  rcases hk with hk | ⟨hk, hlt⟩
  · rw [List.getElem?_append_left (by simp; omega), List.getElem?_append_left (by simpa using hk)]
    simp [hk]
  · rw [List.getElem?_append_right (by simpa using hk)]
    have hsub : k - 40 < 4 := by omega
    have hindex : 40 + (k - 40) = k := by omega
    simp [hsub, hindex]

theorem loadedWords_opening (cd : Calldata) {k : ℕ} (hk : 22 ≤ k) (hlt : k < 40) :
    (loadedWords cd)[k + 1]? = some (opening cd k) := by
  have hsub : k - 22 < 18 := by omega
  have hindex : 22 + (k - 22) = k := by omega
  rw [loadedWords, List.getElem?_cons_succ, List.getElem?_append_left (by simpa using hlt),
    List.getElem?_append_right (by simpa using hk)]
  simp [hsub, hindex]

theorem length_loadedWords (cd : Calldata) : (loadedWords cd).length = 45 := by
  simp [loadedWords]

/-- The memory after the first words were stored. -/
def loadedMemory (cd : Calldata) (mem : Memory) (n : ℕ) : Memory :=
  storeWords mem 0x720 ((loadedWords cd).take n)

section Steps

variable {cd : Calldata} {k n : ℕ}

theorem loadedMemory_succ (mem : Memory) {w slot : Word} (hw : (loadedWords cd)[n]? = some w)
    (hslot : slot = BitVec.ofNat 256 (0x720 + 32 * n)) :
    mstore (loadedMemory cd mem n) slot w = loadedMemory cd mem (n + 1) := by
  have hn : n < (loadedWords cd).length := (List.getElem?_eq_some_iff.mp hw).1
  have hlen : ((loadedWords cd).take n).length = n := by
    rw [List.length_take]
    omega
  rw [loadedMemory, loadedMemory, List.take_add_one, hw, Option.toList_some,
    storeWords_append_singleton, hlen, hslot]

variable {mem : Memory}

theorem loadOpening_spec {wordOffset slot : Word} (hk : 22 ≤ k) (hlt : k < 40)
    (hword : wordOffset = BitVec.ofNat 256 (0x24 + 32 * k))
    (hslot : slot = BitVec.ofNat 256 (0x720 + 32 * (k + 1))) :
    Ends (fun _ => loadOpening cd (calldataload cd 0x24) wordOffset slot)
      (loadedMemory cd mem (k + 1)) (.ok ((), loadedMemory cd mem (k + 2))) := by
  have hstep := loadedMemory_succ mem (loadedWords_opening cd hk hlt) hslot
  rw [← hstep, opening, proofWord, ← hword]
  exact Ends.store_iff.mpr rfl

/-- The block for a point keeps what it has tested in one word. -/
theorem loadPoint_spec {xOffset yOffset xSlot ySlot : Word} {P : Prop} [Decidable P]
    (hk : k + 1 < 22 ∨ 40 ≤ k ∧ k + 1 < 44)
    (hxOffset : xOffset = BitVec.ofNat 256 (0x24 + 32 * k))
    (hyOffset : yOffset = BitVec.ofNat 256 (0x24 + 32 * (k + 1)))
    (hxSlot : xSlot = BitVec.ofNat 256 (0x720 + 32 * (k + 1)))
    (hySlot : ySlot = BitVec.ofNat 256 (0x720 + 32 * (k + 2))) :
    Ends (fun _ => loadPoint cd (calldataload cd 0x24) xOffset yOffset xSlot ySlot (boolWord P))
      (loadedMemory cd mem (k + 1))
      (.ok (boolWord (ValidPoint cd k ∧ P), loadedMemory cd mem (k + 3))) := by
  have hx := loadedMemory_succ mem (loadedWords_coordinate cd (k := k) (by omega)) hxSlot
  have hy := loadedMemory_succ mem (loadedWords_coordinate cd (k := k + 1) (by omega))
    hySlot
  simp only [loadPoint, Ends.store_bind]
  have hxWord : mod (calldataload cd (add (calldataload cd 0x24) xOffset)) Q_MOD =
      coordinate cd k := by
    rw [hxOffset]
    rfl
  have hyWord : mod (calldataload cd (add (calldataload cd 0x24) yOffset)) Q_MOD =
      coordinate cd (k + 1) := by
    rw [hyOffset]
    rfl
  rw [hxWord, hyWord, pointTest, and_boolWord, hx, hy]
  exact Ends.pure _ _

end Steps

theorem keeps_loadedMemory (cd : Calldata) (mem : Memory) (n : ℕ) :
    Keeps (Outside 0x720 0xd40) mem (loadedMemory cd mem n) := by
  have hlen : ((loadedWords cd).take n).length ≤ 45 := by
    rw [List.length_take, length_loadedWords]
    exact min_le_right _ _
  refine (Keeps.refl _ mem).storeWords _ (by omega) fun a ha => ?_
  have ha' := ha.2
  omega

/-- What the words of the tests say together. -/
theorem validProof_iff (cd : Calldata) :
    ValidProof cd ↔ calldataload cd (add (calldataload cd 0x44) 0x04) = 0 ∧
      ValidPoint cd 42 ∧ ValidPoint cd 40 ∧ ValidPoint cd 20 ∧ ValidPoint cd 18 ∧
      ValidPoint cd 16 ∧ ValidPoint cd 14 ∧ ValidPoint cd 12 ∧ ValidPoint cd 10 ∧
      ValidPoint cd 8 ∧ ValidPoint cd 6 ∧ ValidPoint cd 4 ∧ ValidPoint cd 2 ∧ ValidPoint cd 0 ∧
      calldataload cd (add (calldataload cd 0x24) 0x04) = 44 ∧
      calldataload cd (add (calldataload cd 0x04) 0x04) = 1 := by
  constructor
  · intro h
    have hpoint : ∀ {k}, k ∈ pointIndices → ValidPoint cd k := fun hk => h.points _ hk
    exact ⟨h.recursiveLength, hpoint (by decide), hpoint (by decide), hpoint (by decide),
      hpoint (by decide), hpoint (by decide), hpoint (by decide), hpoint (by decide),
      hpoint (by decide), hpoint (by decide), hpoint (by decide), hpoint (by decide),
      hpoint (by decide), hpoint (by decide), h.proofLength, h.publicInputLength⟩
  · rintro ⟨hrecursive, h42, h40, h20, h18, h16, h14, h12, h10, h8, h6, h4, h2, h0, hproof, hinput⟩
    refine ⟨hinput, hproof, hrecursive, ?_⟩
    simp only [pointIndices, List.forall_mem_cons]
    exact ⟨h42, h40, h20, h18, h16, h14, h12, h10, h8, h6, h4, h2, h0, List.forall_mem_nil _⟩

/-- The last test of the run. -/
theorem loadProof_test {P : Prop} [Decidable P] (mem : Memory) :
    Ends (fun _ => if iszero (boolWord P) ≠ 0 then
        revertWithMessage 27 "loadProof: Proof is invalid" else pure ()) mem
      (if P then .ok ((), mem)
        else .error ⟨errorData 27 "loadProof: Proof is invalid"⟩) := by
  by_cases h : P
  · have htest : ¬iszero (boolWord P) ≠ 0 := by
      rw [iszero_boolWord, boolWord_ne_zero]
      exact not_not_intro h
    simp only [if_neg htest, if_pos h]
    exact Ends.pure () mem
  · have htest : iszero (boolWord P) ≠ 0 := by
      rwa [iszero_boolWord, boolWord_ne_zero]
    simp only [if_pos htest, if_neg h]
    exact revertWithMessage_ends _ _ _

theorem loadProof_run (cd : Calldata) {mem : Memory}
    (hflag : mload mem VK_RECURSIVE_FLAG_SLOT = 0) :
    Ends (fun _ => loadProof cd) mem
      (if ValidProof cd then .ok ((), loadedMemory cd mem 45)
        else .error ⟨errorData 27 "loadProof: Proof is invalid"⟩) := by
  simp only [loadProof, Ends.store_bind, eq, and_boolWord]
  have hfirst : mstore mem PROOF_PUBLIC_INPUT
      (and (calldataload cd (add (calldataload cd 0x04) 0x24)) FR_MASK) =
      loadedMemory cd mem 1 := rfl
  rw [hfirst]
  refine Ends.bind (loadPoint_spec (k := 0) (by decide) rfl rfl rfl rfl) ?_
  refine Ends.bind (loadPoint_spec (k := 2) (by decide) rfl rfl rfl rfl) ?_
  refine Ends.bind (loadPoint_spec (k := 4) (by decide) rfl rfl rfl rfl) ?_
  refine Ends.bind (loadPoint_spec (k := 6) (by decide) rfl rfl rfl rfl) ?_
  refine Ends.bind (loadPoint_spec (k := 8) (by decide) rfl rfl rfl rfl) ?_
  refine Ends.bind (loadPoint_spec (k := 10) (by decide) rfl rfl rfl rfl) ?_
  refine Ends.bind (loadPoint_spec (k := 12) (by decide) rfl rfl rfl rfl) ?_
  refine Ends.bind (loadPoint_spec (k := 14) (by decide) rfl rfl rfl rfl) ?_
  refine Ends.bind (loadPoint_spec (k := 16) (by decide) rfl rfl rfl rfl) ?_
  refine Ends.bind (loadPoint_spec (k := 18) (by decide) rfl rfl rfl rfl) ?_
  refine Ends.bind (loadPoint_spec (k := 20) (by decide) rfl rfl rfl rfl) ?_
  refine Ends.bind (loadOpening_spec (k := 22) (by decide) (by decide) rfl rfl) ?_
  refine Ends.bind (loadOpening_spec (k := 23) (by decide) (by decide) rfl rfl) ?_
  refine Ends.bind (loadOpening_spec (k := 24) (by decide) (by decide) rfl rfl) ?_
  refine Ends.bind (loadOpening_spec (k := 25) (by decide) (by decide) rfl rfl) ?_
  refine Ends.bind (loadOpening_spec (k := 26) (by decide) (by decide) rfl rfl) ?_
  refine Ends.bind (loadOpening_spec (k := 27) (by decide) (by decide) rfl rfl) ?_
  refine Ends.bind (loadOpening_spec (k := 28) (by decide) (by decide) rfl rfl) ?_
  refine Ends.bind (loadOpening_spec (k := 29) (by decide) (by decide) rfl rfl) ?_
  refine Ends.bind (loadOpening_spec (k := 30) (by decide) (by decide) rfl rfl) ?_
  refine Ends.bind (loadOpening_spec (k := 31) (by decide) (by decide) rfl rfl) ?_
  refine Ends.bind (loadOpening_spec (k := 32) (by decide) (by decide) rfl rfl) ?_
  refine Ends.bind (loadOpening_spec (k := 33) (by decide) (by decide) rfl rfl) ?_
  refine Ends.bind (loadOpening_spec (k := 34) (by decide) (by decide) rfl rfl) ?_
  refine Ends.bind (loadOpening_spec (k := 35) (by decide) (by decide) rfl rfl) ?_
  refine Ends.bind (loadOpening_spec (k := 36) (by decide) (by decide) rfl rfl) ?_
  refine Ends.bind (loadOpening_spec (k := 37) (by decide) (by decide) rfl rfl) ?_
  refine Ends.bind (loadOpening_spec (k := 38) (by decide) (by decide) rfl rfl) ?_
  refine Ends.bind (loadOpening_spec (k := 39) (by decide) (by decide) rfl rfl) ?_
  refine Ends.bind (loadPoint_spec (k := 40) (by decide) rfl rfl rfl rfl) ?_
  refine Ends.bind (loadPoint_spec (k := 42) (by decide) rfl rfl rfl rfl) ?_
  have hflag' : mload (loadedMemory cd mem 45) VK_RECURSIVE_FLAG_SLOT = 0 := by
    rw [← hflag]
    exact mload_of_outside (keeps_loadedMemory cd mem 45) (by decide) (by decide)
  simp only [bind_assoc, Ends.load_bind, hflag', if_true, pure_bind, iszero, and_boolWord]
  exact (loadProof_test _).of_eq (if_congr (validProof_iff cd).symm rfl rfl)

/-! ## The loaded proof -/

section Loaded

variable {cd : Calldata} {slot : Word} {k : ℕ}

theorem coordinate_lt (cd : Calldata) (k : ℕ) : (coordinate cd k).toNat < p := by
  rw [coordinate, toNat_mod _ (by decide), toNat_Q_MOD]
  exact Nat.mod_lt _ prime_p.out.pos

theorem isScalar_opening (cd : Calldata) (k : ℕ) :
    IsScalar (opening cd k) (residue (proofWord cd k)) where
  residue_eq := by
    rw [residue, opening, toNat_mod _ R_MOD_ne_zero, toNat_R_MOD, ZMod.natCast_mod]
    rfl
  lt := by
    rw [opening, toNat_mod _ R_MOD_ne_zero, toNat_R_MOD]
    exact Nat.mod_lt _ prime_r.out.pos

theorem mload_loadedMemory (mem : Memory) {n : ℕ} {w : Word} (hw : (loadedWords cd)[n]? = some w)
    (hslot : slot.toNat = 0x720 + 32 * n) : mload (loadedMemory cd mem 45) slot = w := by
  have hlen : (loadedWords cd).take 45 = loadedWords cd :=
    List.take_of_length_le (length_loadedWords cd).le
  rw [loadedMemory, hlen]
  exact mload_storeWords mem (by rw [length_loadedWords]; decide) hw hslot

theorem scalarAt_loaded (mem : Memory) (hk : 22 ≤ k) (hlt : k < 40)
    (hslot : slot.toNat = 0x720 + 32 * (k + 1)) :
    ScalarAt (loadedMemory cd mem 45) slot (residue (proofWord cd k)) := by
  rw [ScalarAt, mload_loadedMemory mem (loadedWords_opening cd hk hlt) hslot]
  exact isScalar_opening cd k

theorem pointAt_loaded (mem : Memory) (hvalid : ValidProof cd) (hk : k ∈ pointIndices)
    (hslot : slot.toNat = 0x720 + 32 * (k + 1)) :
    PointAt (loadedMemory cd mem 45) slot (pointOf cd k) := by
  have hrange : ∀ k ∈ pointIndices, k + 1 < 22 ∨ 40 ≤ k ∧ k + 1 < 44 := by decide
  have hk' := hrange k hk
  have h20 : (0x20 : Word).toNat = 32 := rfl
  have hnext : (add slot 0x20).toNat = 0x720 + 32 * (k + 1 + 1) := by
    rw [toNat_add_of_lt (by omega), h20, hslot]
    ring
  obtain ⟨A, hA, -⟩ := decodePoint_of_onCurve (coordinate_lt cd k) (coordinate_lt cd (k + 1))
    (hvalid.points k hk)
  rw [PointAt, mload_loadedMemory mem (loadedWords_coordinate cd (by omega)) hslot,
    mload_loadedMemory mem (loadedWords_coordinate cd (k := k + 1) (by omega)) hnext, pointOf, hA]
  rfl

theorem proofAt_loaded (mem : Memory) (h : ValidProof cd) :
    ProofAt (loadedMemory cd mem 45) (proofOf cd) where
  publicInput := by
    rw [ScalarAt, mload_loadedMemory mem (n := 0) rfl rfl]
    exact isScalar_masked _
  a := pointAt_loaded mem h (by decide) rfl
  b := pointAt_loaded mem h (by decide) rfl
  c := pointAt_loaded mem h (by decide) rfl
  d := pointAt_loaded mem h (by decide) rfl
  zPerm := pointAt_loaded mem h (by decide) rfl
  s := pointAt_loaded mem h (by decide) rfl
  zLookup := pointAt_loaded mem h (by decide) rfl
  t0 := pointAt_loaded mem h (by decide) rfl
  t1 := pointAt_loaded mem h (by decide) rfl
  t2 := pointAt_loaded mem h (by decide) rfl
  t3 := pointAt_loaded mem h (by decide) rfl
  w := pointAt_loaded mem h (by decide) rfl
  w' := pointAt_loaded mem h (by decide) rfl
  aZ := scalarAt_loaded mem (by decide) (by decide) rfl
  bZ := scalarAt_loaded mem (by decide) (by decide) rfl
  cZ := scalarAt_loaded mem (by decide) (by decide) rfl
  dZ := scalarAt_loaded mem (by decide) (by decide) rfl
  dZOmega := scalarAt_loaded mem (by decide) (by decide) rfl
  mainGateSelectorZ := scalarAt_loaded mem (by decide) (by decide) rfl
  sigma0Z := scalarAt_loaded mem (by decide) (by decide) rfl
  sigma1Z := scalarAt_loaded mem (by decide) (by decide) rfl
  sigma2Z := scalarAt_loaded mem (by decide) (by decide) rfl
  zPermZOmega := scalarAt_loaded mem (by decide) (by decide) rfl
  sZOmega := scalarAt_loaded mem (by decide) (by decide) rfl
  zLookupZOmega := scalarAt_loaded mem (by decide) (by decide) rfl
  tableZ := scalarAt_loaded mem (by decide) (by decide) rfl
  tableZOmega := scalarAt_loaded mem (by decide) (by decide) rfl
  lookupSelectorZ := scalarAt_loaded mem (by decide) (by decide) rfl
  tableTypeZ := scalarAt_loaded mem (by decide) (by decide) rfl
  quotientZ := scalarAt_loaded mem (by decide) (by decide) rfl
  linearisationZ := scalarAt_loaded mem (by decide) (by decide) rfl

end Loaded

/-- The contract accepts the words of a valid proof, and then holds the proof in its memory. -/
theorem loadProof_spec (cd : Calldata) {mem : Memory}
    (hflag : mload mem VK_RECURSIVE_FLAG_SLOT = 0) :
    ∃ mem', Ends (fun _ => loadProof cd) mem
        (if ValidProof cd then .ok ((), mem')
          else .error ⟨errorData 27 "loadProof: Proof is invalid"⟩) ∧
      (ValidProof cd → ProofAt mem' (proofOf cd)) ∧ Keeps (Outside 0x720 0xd40) mem mem' :=
  ⟨loadedMemory cd mem 45, loadProof_run cd hflag, proofAt_loaded mem,
    keeps_loadedMemory cd mem 45⟩

/-! ## A call with a valid proof -/

/-- Word `k` of a proof whose points are the generator and whose openings are zero, except for
the first. -/
def sampleWord (w : Word) (k : ℕ) : Word :=
  if k = 22 then w else if 22 ≤ k ∧ k < 40 then 0 else if k % 2 = 0 then 1 else 2

/-- The offsets of the three arrays, and the arrays. -/
def sampleWords (w : Word) : List Word :=
  [0x60, 0xa0, 0x640, 1, 0, 44] ++ ((List.range 44).map (sampleWord w) ++ [0])

def sampleInput (w : Word) : Calldata where
  bytes := [0, 0, 0, 0] ++ ((sampleWords w).flatMap wordBytes ++ [])
  length_lt := by
    rw [List.length_append, List.length_append, length_flatMap_wordBytes]
    simp [sampleWords]

section Sample

variable {w w' : Word} {k : ℕ}

theorem calldataload_sampleInput {i : ℕ} {v place : Word} (hv : (sampleWords w)[i]? = some v)
    (hplace : place.toNat = 4 + 32 * i) : calldataload (sampleInput w) place = v :=
  @calldataload_of_bytes (sampleInput w) [0, 0, 0, 0] [] (sampleWords w) rfl _ _ _ hv hplace

theorem proofWord_sampleInput (w : Word) (hk : k < 44) :
    proofWord (sampleInput w) k = sampleWord w k := by
  have hoffset : calldataload (sampleInput w) 0x24 = 0xa0 :=
    calldataload_sampleInput (i := 1) rfl rfl
  have hword : (sampleWords w)[6 + k]? = some (sampleWord w k) := by
    rw [sampleWords, List.getElem?_append_right (by simp),
      List.getElem?_append_left (by simpa using hk)]
    simp [hk]
  rw [proofWord, hoffset]
  refine calldataload_sampleInput hword ?_
  have ha0 : (0xa0 : Word).toNat = 160 := rfl
  have hplace : (BitVec.ofNat 256 (0x24 + 32 * k)).toNat = 0x24 + 32 * k :=
    toNat_ofNat_of_lt (by omega)
  rw [toNat_add_of_lt (by omega), hplace, ha0]
  omega

theorem coordinate_sampleInput (w : Word) (hk : k < 22 ∨ 40 ≤ k ∧ k < 44) :
    coordinate (sampleInput w) k = if k % 2 = 0 then 1 else 2 := by
  rw [coordinate, proofWord_sampleInput w (by omega), sampleWord, if_neg (by omega),
    if_neg (by omega)]
  split <;> decide

theorem opening_sampleInput (w : Word) (hk : 22 ≤ k) (hlt : k < 40) :
    opening (sampleInput w) k = if k = 22 then mod w R_MOD else 0 := by
  rw [opening, proofWord_sampleInput w (by omega), sampleWord]
  by_cases hfirst : k = 22
  · rw [if_pos hfirst, if_pos hfirst]
  · rw [if_neg hfirst, if_neg hfirst, if_pos ⟨hk, hlt⟩]
    decide

theorem publicInput_sampleInput (w : Word) : publicInput (sampleInput w) = 0 := by
  have hoffset : calldataload (sampleInput w) 0x04 = 0x60 :=
    calldataload_sampleInput (i := 0) rfl rfl
  have hzero : calldataload (sampleInput w) (add 0x60 0x24) = 0 :=
    calldataload_sampleInput (i := 4) rfl rfl
  rw [publicInput, hoffset, hzero]
  decide

theorem validProof_sampleInput (w : Word) : ValidProof (sampleInput w) where
  publicInputLength := by
    have hoffset : calldataload (sampleInput w) 0x04 = 0x60 :=
      calldataload_sampleInput (i := 0) rfl rfl
    rw [hoffset]
    exact calldataload_sampleInput (i := 3) rfl rfl
  proofLength := by
    have hoffset : calldataload (sampleInput w) 0x24 = 0xa0 :=
      calldataload_sampleInput (i := 1) rfl rfl
    rw [hoffset]
    exact calldataload_sampleInput (i := 5) rfl rfl
  recursiveLength := by
    have hoffset : calldataload (sampleInput w) 0x44 = 0x640 :=
      calldataload_sampleInput (i := 2) rfl rfl
    rw [hoffset]
    exact calldataload_sampleInput (i := 50) rfl rfl
  points k hk := by
    have hrange : ∀ k ∈ pointIndices, k % 2 = 0 ∧ (k + 1 < 22 ∨ 40 ≤ k ∧ k + 1 < 44) := by decide
    obtain ⟨heven, hlt⟩ := hrange k hk
    rw [ValidPoint, coordinate_sampleInput w (by omega), coordinate_sampleInput w (by omega),
      if_pos heven, if_neg (by omega)]
    decide

/-- The first opening is read modulo the order. -/
theorem loadedWords_sampleInput (h : mod w R_MOD = mod w' R_MOD) :
    loadedWords (sampleInput w) = loadedWords (sampleInput w') := by
  have hpoints : (List.range 22).map (coordinate (sampleInput w)) =
      (List.range 22).map (coordinate (sampleInput w')) := by
    refine List.map_congr_left fun k hk => ?_
    rw [List.mem_range] at hk
    rw [coordinate_sampleInput w (by omega), coordinate_sampleInput w' (by omega)]
  have hopenings : (List.range 18).map (fun k => opening (sampleInput w) (22 + k)) =
      (List.range 18).map fun k => opening (sampleInput w') (22 + k) := by
    refine List.map_congr_left fun k hk => ?_
    rw [List.mem_range] at hk
    rw [opening_sampleInput w (by omega) (by omega), opening_sampleInput w' (by omega) (by omega),
      h]
  have hlast : (List.range 4).map (fun k => coordinate (sampleInput w) (40 + k)) =
      (List.range 4).map fun k => coordinate (sampleInput w') (40 + k) := by
    refine List.map_congr_left fun k hk => ?_
    rw [List.mem_range] at hk
    rw [coordinate_sampleInput w (by omega), coordinate_sampleInput w' (by omega)]
  rw [loadedWords, loadedWords, publicInput_sampleInput, publicInput_sampleInput, hpoints,
    hopenings, hlast]

end Sample

theorem loadProof_spec_sample :
    ∃ mem', Ends (fun _ => loadProof (sampleInput 5)) (fun _ => 0) (.ok ((), mem')) ∧
      ProofAt mem' (proofOf (sampleInput 5)) ∧ Keeps (Outside 0x720 0xd40) (fun _ => 0) mem' := by
  have hvalid := validProof_sampleInput 5
  have hflag : mload (fun _ => 0) VK_RECURSIVE_FLAG_SLOT = 0 := by decide
  obtain ⟨mem', hends, hproof, hkeeps⟩ := loadProof_spec (sampleInput 5) hflag
  rw [if_pos hvalid] at hends
  exact ⟨mem', hends, hproof hvalid, hkeeps⟩

end EraPrecompiles.Verifier
