import EraPrecompiles.Verifier.State

/-!
# The transcript

The transcript is a state of two words.  A word is absorbed by hashing it with the state twice, and
a challenge is the hash of the state and of the number of the challenge.  The byte before the
state tells the three hashes apart.

The hash function is not part of the contract, and the results hold for every function.
-/

namespace EraPrecompiles.Verifier

open Bn254

/-! ## The program -/

/-- Updates the transcript state with a new challenge value. -/
def updateTranscript (keccak256 : List Byte → Word) (value : Word) : Contract Unit := do
  store8 TRANSCRIPT_DST_BYTE_SLOT 0x00
  store TRANSCRIPT_CHALLENGE_SLOT value
  let newState0 ← hashMem keccak256 TRANSCRIPT_BEGIN_SLOT 0x64
  store8 TRANSCRIPT_DST_BYTE_SLOT 0x01
  let newState1 ← hashMem keccak256 TRANSCRIPT_BEGIN_SLOT 0x64
  store TRANSCRIPT_STATE_1_SLOT newState1
  store TRANSCRIPT_STATE_0_SLOT newState0

/-- Retrieves a transcript challenge. -/
def getTranscriptChallenge (keccak256 : List Byte → Word) (numberOfChallenge : Word) :
    Contract Word := do
  store8 TRANSCRIPT_DST_BYTE_SLOT 0x02
  store TRANSCRIPT_CHALLENGE_SLOT (shl 224 numberOfChallenge)
  let hash ← hashMem keccak256 TRANSCRIPT_BEGIN_SLOT 0x48
  return and hash FR_MASK

/-- Recomputes all challenges. -/
def initializeTranscript (fuel : ℕ) (keccak256 : List Byte → Word) : Contract Unit := do
  -- Round 1
  updateTranscript keccak256 (← load PROOF_PUBLIC_INPUT)
  updateTranscript keccak256 (← load PROOF_STATE_POLYS_0_X_SLOT)
  updateTranscript keccak256 (← load PROOF_STATE_POLYS_0_Y_SLOT)
  updateTranscript keccak256 (← load PROOF_STATE_POLYS_1_X_SLOT)
  updateTranscript keccak256 (← load PROOF_STATE_POLYS_1_Y_SLOT)
  updateTranscript keccak256 (← load PROOF_STATE_POLYS_2_X_SLOT)
  updateTranscript keccak256 (← load PROOF_STATE_POLYS_2_Y_SLOT)
  updateTranscript keccak256 (← load PROOF_STATE_POLYS_3_X_SLOT)
  updateTranscript keccak256 (← load PROOF_STATE_POLYS_3_Y_SLOT)
  store STATE_ETA_SLOT (← getTranscriptChallenge keccak256 0)
  -- Round 1.5
  updateTranscript keccak256 (← load PROOF_LOOKUP_S_POLY_X_SLOT)
  updateTranscript keccak256 (← load PROOF_LOOKUP_S_POLY_Y_SLOT)
  store STATE_BETA_SLOT (← getTranscriptChallenge keccak256 1)
  store STATE_GAMMA_SLOT (← getTranscriptChallenge keccak256 2)
  -- Round 2
  updateTranscript keccak256 (← load PROOF_COPY_PERMUTATION_GRAND_PRODUCT_X_SLOT)
  updateTranscript keccak256 (← load PROOF_COPY_PERMUTATION_GRAND_PRODUCT_Y_SLOT)
  store STATE_BETA_LOOKUP_SLOT (← getTranscriptChallenge keccak256 3)
  store STATE_GAMMA_LOOKUP_SLOT (← getTranscriptChallenge keccak256 4)
  -- Round 2.5
  updateTranscript keccak256 (← load PROOF_LOOKUP_GRAND_PRODUCT_X_SLOT)
  updateTranscript keccak256 (← load PROOF_LOOKUP_GRAND_PRODUCT_Y_SLOT)
  store STATE_ALPHA_SLOT (← getTranscriptChallenge keccak256 5)
  -- Round 3
  updateTranscript keccak256 (← load PROOF_QUOTIENT_POLY_PARTS_0_X_SLOT)
  updateTranscript keccak256 (← load PROOF_QUOTIENT_POLY_PARTS_0_Y_SLOT)
  updateTranscript keccak256 (← load PROOF_QUOTIENT_POLY_PARTS_1_X_SLOT)
  updateTranscript keccak256 (← load PROOF_QUOTIENT_POLY_PARTS_1_Y_SLOT)
  updateTranscript keccak256 (← load PROOF_QUOTIENT_POLY_PARTS_2_X_SLOT)
  updateTranscript keccak256 (← load PROOF_QUOTIENT_POLY_PARTS_2_Y_SLOT)
  updateTranscript keccak256 (← load PROOF_QUOTIENT_POLY_PARTS_3_X_SLOT)
  updateTranscript keccak256 (← load PROOF_QUOTIENT_POLY_PARTS_3_Y_SLOT)
  let z ← getTranscriptChallenge keccak256 6
  store STATE_Z_SLOT z
  store STATE_Z_IN_DOMAIN_SIZE (← modexp fuel z DOMAIN_SIZE)
  -- Round 4
  updateTranscript keccak256 (← load PROOF_QUOTIENT_POLY_OPENING_AT_Z_SLOT)
  updateTranscript keccak256 (← load PROOF_STATE_POLYS_0_OPENING_AT_Z_SLOT)
  updateTranscript keccak256 (← load PROOF_STATE_POLYS_1_OPENING_AT_Z_SLOT)
  updateTranscript keccak256 (← load PROOF_STATE_POLYS_2_OPENING_AT_Z_SLOT)
  updateTranscript keccak256 (← load PROOF_STATE_POLYS_3_OPENING_AT_Z_SLOT)
  updateTranscript keccak256 (← load PROOF_STATE_POLYS_3_OPENING_AT_Z_OMEGA_SLOT)
  updateTranscript keccak256 (← load PROOF_GATE_SELECTORS_0_OPENING_AT_Z_SLOT)
  updateTranscript keccak256 (← load PROOF_COPY_PERMUTATION_POLYS_0_OPENING_AT_Z_SLOT)
  updateTranscript keccak256 (← load PROOF_COPY_PERMUTATION_POLYS_1_OPENING_AT_Z_SLOT)
  updateTranscript keccak256 (← load PROOF_COPY_PERMUTATION_POLYS_2_OPENING_AT_Z_SLOT)
  updateTranscript keccak256 (← load PROOF_COPY_PERMUTATION_GRAND_PRODUCT_OPENING_AT_Z_OMEGA_SLOT)
  updateTranscript keccak256 (← load PROOF_LOOKUP_T_POLY_OPENING_AT_Z_SLOT)
  updateTranscript keccak256 (← load PROOF_LOOKUP_SELECTOR_POLY_OPENING_AT_Z_SLOT)
  updateTranscript keccak256 (← load PROOF_LOOKUP_TABLE_TYPE_POLY_OPENING_AT_Z_SLOT)
  updateTranscript keccak256 (← load PROOF_LOOKUP_S_POLY_OPENING_AT_Z_OMEGA_SLOT)
  updateTranscript keccak256 (← load PROOF_LOOKUP_GRAND_PRODUCT_OPENING_AT_Z_OMEGA_SLOT)
  updateTranscript keccak256 (← load PROOF_LOOKUP_T_POLY_OPENING_AT_Z_OMEGA_SLOT)
  updateTranscript keccak256 (← load PROOF_LINEARISATION_POLY_OPENING_AT_Z_SLOT)
  store STATE_V_SLOT (← getTranscriptChallenge keccak256 7)
  -- Round 5
  updateTranscript keccak256 (← load PROOF_OPENING_PROOF_AT_Z_X_SLOT)
  updateTranscript keccak256 (← load PROOF_OPENING_PROOF_AT_Z_Y_SLOT)
  updateTranscript keccak256 (← load PROOF_OPENING_PROOF_AT_Z_OMEGA_X_SLOT)
  updateTranscript keccak256 (← load PROOF_OPENING_PROOF_AT_Z_OMEGA_Y_SLOT)
  store STATE_U_SLOT (← getTranscriptChallenge keccak256 8)

/-! ## The transcript as a value -/

structure Transcript where
  state0 : Word
  state1 : Word

namespace Transcript

variable (keccak256 : List Byte → Word)

/-- The bytes that are hashed: the byte that tells the hashes apart, the state, and more bytes. -/
def frame (t : Transcript) (dst : Byte) (rest : List Byte) : List Byte :=
  [0, 0, 0, dst] ++ (wordBytes t.state0 ++ (wordBytes t.state1 ++ rest))

def update (t : Transcript) (value : Word) : Transcript where
  state0 := keccak256 (t.frame 0 (wordBytes value))
  state1 := keccak256 (t.frame 1 (wordBytes value))

def absorb (t : Transcript) (values : List Word) : Transcript :=
  values.foldl (update keccak256) t

/-- The challenge of a number, with four bytes for the number. -/
def challenge (t : Transcript) (number : ℕ) : Word :=
  and (keccak256 (t.frame 2 (beBytes 4 number))) FR_MASK

end Transcript

/-! ### The challenges

The words are the public input and the 44 words of the proof, in this order. -/

section Rounds

variable (keccak256 : List Byte → Word) (w : ℕ → Word)

def round1 : Transcript :=
  (⟨0, 0⟩ : Transcript).absorb keccak256 [w 0, w 1, w 2, w 3, w 4, w 5, w 6, w 7, w 8]

/-- Round 1.5, with the commitment `[s]`. -/
def round2 : Transcript :=
  (round1 keccak256 w).absorb keccak256 [w 11, w 12]

/-- Round 2, with the commitment `[z_perm]`. -/
def round3 : Transcript :=
  (round2 keccak256 w).absorb keccak256 [w 9, w 10]

/-- Round 2.5, with the commitment `[z_lookup]`. -/
def round4 : Transcript :=
  (round3 keccak256 w).absorb keccak256 [w 13, w 14]

/-- Round 3, with the parts of the quotient. -/
def round5 : Transcript :=
  (round4 keccak256 w).absorb keccak256 [w 15, w 16, w 17, w 18, w 19, w 20, w 21, w 22]

/-- Round 4, with the openings. -/
def round6 : Transcript :=
  (round5 keccak256 w).absorb keccak256 [w 39, w 23, w 24, w 25, w 26, w 27, w 28, w 29, w 30,
    w 31, w 32, w 35, w 37, w 38, w 33, w 34, w 36, w 40]

/-- Round 5, with the opening proofs. -/
def round7 : Transcript :=
  (round6 keccak256 w).absorb keccak256 [w 41, w 42, w 43, w 44]

def challengesOf : Plonk.Challenges (ZMod r) where
  eta := residue ((round1 keccak256 w).challenge keccak256 0)
  beta := residue ((round2 keccak256 w).challenge keccak256 1)
  gamma := residue ((round2 keccak256 w).challenge keccak256 2)
  betaLookup := residue ((round3 keccak256 w).challenge keccak256 3)
  gammaLookup := residue ((round3 keccak256 w).challenge keccak256 4)
  alpha := residue ((round4 keccak256 w).challenge keccak256 5)
  z := residue ((round5 keccak256 w).challenge keccak256 6)
  v := residue ((round6 keccak256 w).challenge keccak256 7)
  u := residue ((round7 keccak256 w).challenge keccak256 8)

end Rounds

/-! ## The transcript in memory -/

/-- The transcript in the memory of the verifier.  The three bytes in front stay zero. -/
structure TranscriptAt (mem : Memory) (t : Transcript) : Prop where
  zeros : ∀ a, Region 0xd40 0xd43 a → mem a = 0
  state0 : mload mem TRANSCRIPT_STATE_0_SLOT = t.state0
  state1 : mload mem TRANSCRIPT_STATE_1_SLOT = t.state1

section Steps

variable {mem mem' : Memory} {t : Transcript}

theorem map_range_word (mem : Memory) (p : Word) :
    (List.range 32).map (fun i => mem (p.toNat + i)) = wordBytes (mload mem p) := by
  rw [wordBytes_eq, toNat_mload, beBytes_beNat]

/-- The memory before a hash: the transcript, the byte that tells the hashes apart, and a word. -/
structure Framed (mem : Memory) (t : Transcript) (dst : Byte) (value : Word) : Prop
    extends TranscriptAt mem t where
  dst : mem 0xd43 = dst
  value : mload mem TRANSCRIPT_CHALLENGE_SLOT = value

variable {dst : Byte} {value v : Word}

/-- The bytes from the beginning of the transcript on. -/
theorem Framed.memBytes (h : Framed mem t dst value) {len : Word} {n : ℕ} (hn : n ≤ 32)
    (hlen : len.toNat = 4 + (32 + (32 + n))) :
    EraPrecompiles.memBytes mem TRANSCRIPT_BEGIN_SLOT len =
      t.frame dst ((wordBytes value).take n) := by
  have hbegin : TRANSCRIPT_BEGIN_SLOT.toNat = 0xd40 := by decide
  have hslot0 : TRANSCRIPT_STATE_0_SLOT.toNat = 0xd44 := by decide
  have hslot1 : TRANSCRIPT_STATE_1_SLOT.toNat = 0xd64 := by decide
  have hslot : TRANSCRIPT_CHALLENGE_SLOT.toNat = 0xd84 := by decide
  have hword0 := map_range_word mem TRANSCRIPT_STATE_0_SLOT
  have hword1 := map_range_word mem TRANSCRIPT_STATE_1_SLOT
  have hword := map_range_word mem TRANSCRIPT_CHALLENGE_SLOT
  rw [hslot0, h.state0] at hword0
  rw [hslot1, h.state1] at hword1
  rw [hslot, h.value] at hword
  have hfirst : (List.range 4).map (fun i => mem (0xd40 + i)) = [0, 0, 0, dst] := by
    have hrange : List.range 4 = [0, 1, 2, 3] := rfl
    rw [hrange]
    simp only [List.map_cons, List.map_nil]
    rw [h.zeros _ ⟨by decide, by decide⟩, h.zeros _ ⟨by decide, by decide⟩,
      h.zeros _ ⟨by decide, by decide⟩, h.dst]
  rw [EraPrecompiles.memBytes, hbegin, hlen, map_range_add, map_range_add, map_range_add, hfirst,
    Transcript.frame, ← hword0, ← hword1, ← hword, ← List.map_take, List.take_range,
    min_eq_left hn]
  simp only [← Nat.add_assoc]

/-- The addresses that no hash needs for its own data. -/
def Quiet (a : ℕ) : Prop :=
  a < 0xd43 ∨ Region 0xd44 0xd84 a ∨ 0xda4 ≤ a

/-- The addresses of the transcript itself. -/
def Lines (a : ℕ) : Prop :=
  Region 0xd40 0xd43 a ∨ Region 0xd44 0xd84 a

theorem quiet_of_lines {a : ℕ} (h : Lines a) : Quiet a :=
  h.elim (fun h => Or.inl h.2) fun h => Or.inr (Or.inl h)

theorem lines_bounds {a : ℕ} (h : Lines a) : Region 0xd40 0xd84 a := by
  rcases h with ⟨h1, h2⟩ | ⟨h1, h2⟩
  · exact ⟨h1, by omega⟩
  · exact ⟨by omega, h2⟩

theorem TranscriptAt.keep (h : TranscriptAt mem t) (hkeeps : Keeps Lines mem mem') :
    TranscriptAt mem' t where
  zeros a ha := (hkeeps a (Or.inl ha)).trans (h.zeros a ha)
  state0 := by
    have hslot : TRANSCRIPT_STATE_0_SLOT.toNat = 0xd44 := by decide
    rw [hkeeps.mload fun a h1 h2 => Or.inr ⟨by omega, by omega⟩, h.state0]
  state1 := by
    have hslot : TRANSCRIPT_STATE_1_SLOT.toNat = 0xd64 := by decide
    rw [hkeeps.mload fun a h1 h2 => Or.inr ⟨by omega, by omega⟩, h.state1]

/-- Before the first round everything is zero. -/
theorem transcriptAt_zero (hzero : ∀ a, Region 0xd40 0xd84 a → mem a = 0) :
    TranscriptAt mem ⟨0, 0⟩ where
  zeros a ha := hzero a (lines_bounds (Or.inl ha))
  state0 := by
    have hslot : TRANSCRIPT_STATE_0_SLOT.toNat = 0xd44 := by decide
    refine toNat_eq_zero.mp ?_
    rw [toNat_mload, beNat_eq_zero]
    exact fun i hi => hzero _ ⟨by omega, by omega⟩
  state1 := by
    have hslot : TRANSCRIPT_STATE_1_SLOT.toNat = 0xd64 := by decide
    refine toNat_eq_zero.mp ?_
    rw [toNat_mload, beNat_eq_zero]
    exact fun i hi => hzero _ ⟨by omega, by omega⟩

theorem toNat_DST : TRANSCRIPT_DST_BYTE_SLOT.toNat = 0xd43 := by
  decide

theorem toNat_CHALLENGE : TRANSCRIPT_CHALLENGE_SLOT.toNat = 0xd84 := by
  decide

theorem keeps_dst (h : Keeps Quiet mem mem') (v : Word) :
    Keeps Quiet mem (mstore8 mem' TRANSCRIPT_DST_BYTE_SLOT v) := by
  refine h.mstore8 v fun a ha => ?_
  rw [toNat_DST]
  rcases ha with ha | ⟨ha, -⟩ | ha
  all_goals omega

theorem keeps_challenge (h : Keeps Quiet mem mem') (v : Word) :
    Keeps Quiet mem (mstore mem' TRANSCRIPT_CHALLENGE_SLOT v) := by
  refine h.mstore v fun a ha => ?_
  rw [toNat_CHALLENGE]
  rcases ha with ha | ⟨-, ha⟩ | ha
  all_goals omega

theorem mstore8_self (mem : Memory) (p v : Word) :
    mstore8 mem p v p.toNat = BitVec.ofNat 8 v.toNat :=
  if_pos rfl

/-- The first hash of a word. -/
theorem TranscriptAt.framed (h : TranscriptAt mem t) (dst value : Word) :
    Framed (mstore (mstore8 mem TRANSCRIPT_DST_BYTE_SLOT dst) TRANSCRIPT_CHALLENGE_SLOT value) t
      (BitVec.ofNat 8 dst.toNat) value where
  toTranscriptAt := h.keep ((keeps_challenge (keeps_dst (Keeps.refl Quiet mem) dst) value).mono
    fun _ => quiet_of_lines)
  dst := by
    have hself := mstore8_self mem TRANSCRIPT_DST_BYTE_SLOT dst
    rw [toNat_DST] at hself
    rw [mstore_of_not_mem (Or.inl (by rw [toNat_CHALLENGE]; decide)), hself]
  value := mload_mstore_self _ _ _

/-- The second hash of the same word. -/
theorem Framed.again (h : Framed mem t dst value) (dst' : Word) :
    Framed (mstore8 mem TRANSCRIPT_DST_BYTE_SLOT dst') t (BitVec.ofNat 8 dst'.toNat) value where
  toTranscriptAt := h.toTranscriptAt.keep ((keeps_dst (Keeps.refl Quiet mem) dst').mono
    fun _ => quiet_of_lines)
  dst := by
    have hself := mstore8_self mem TRANSCRIPT_DST_BYTE_SLOT dst'
    rwa [toNat_DST] at hself
  value := by
    have hkeeps : Keeps (Region 0xd84 0xda4) mem (mstore8 mem TRANSCRIPT_DST_BYTE_SLOT dst') :=
      (Keeps.refl _ mem).mstore8 dst' fun a ha => by rw [toNat_DST]; have := ha.1; omega
    rw [hkeeps.mload fun a h1 h2 => by rw [toNat_CHALLENGE] at h1 h2; exact ⟨h1, h2⟩, h.value]

/-- The state that follows. -/
theorem transcriptAt_mstore (h : ∀ a, Region 0xd40 0xd43 a → mem a = 0) (s0 s1 : Word) :
    TranscriptAt (mstore (mstore mem TRANSCRIPT_STATE_1_SLOT s1) TRANSCRIPT_STATE_0_SLOT s0)
      ⟨s0, s1⟩ where
  zeros a ha := by
    have hslot0 : TRANSCRIPT_STATE_0_SLOT.toNat = 0xd44 := by decide
    have hslot1 : TRANSCRIPT_STATE_1_SLOT.toNat = 0xd64 := by decide
    have ha' := ha.2
    rw [mstore_of_not_mem (Or.inl (by omega)), mstore_of_not_mem (Or.inl (by omega)), h a ha]
  state0 := mload_mstore_self _ _ _
  state1 := by
    rw [mload_mstore_of_disjoint _ _ (by decide), mload_mstore_self]

theorem keeps_outside_of_quiet (h : Keeps Quiet mem mem') : Keeps (Outside 0xd40 0xdc0) mem mem' :=
  h.mono fun a ha => by
    rcases ha.2 with hlt | hle
    · exact Or.inl (by omega)
    · exact Or.inr (Or.inr (by omega))

end Steps

/-! ## The steps -/

section Specs

variable {keccak256 : List Byte → Word} {mem : Memory} {t : Transcript}

theorem updateTranscript_spec (h : TranscriptAt mem t) (value : Word) :
    Reaches (fun _ => updateTranscript keccak256 value) mem fun _ mem' =>
      TranscriptAt mem' (t.update keccak256 value) ∧ Keeps (Outside 0xd40 0xdc0) mem mem' := by
  have hframed := h.framed 0x00 value
  have hagain := hframed.again 0x01
  have hlen : (0x64 : Word).toNat = 4 + (32 + (32 + 32)) := rfl
  have hfull : (wordBytes value).take 32 = wordBytes value :=
    List.take_of_length_le (by rw [wordBytes, List.length_map, List.length_range])
  have hbytes := hframed.memBytes le_rfl hlen
  have hbytes' := hagain.memBytes le_rfl hlen
  rw [hfull] at hbytes hbytes'
  simp only [updateTranscript, Reaches.store8_bind, Reaches.store_bind, Reaches.hashMem_bind]
  rw [hbytes, hbytes']
  refine Reaches.store ⟨transcriptAt_mstore hagain.zeros _ _, ?_⟩
  refine keeps_outside_mstore (keeps_outside_mstore (keeps_outside_of_quiet (keeps_dst
    (keeps_challenge (keeps_dst (Keeps.refl Quiet mem) _) _) _)) (by decide)) (by decide)

theorem getTranscriptChallenge_spec (h : TranscriptAt mem t) {numberOfChallenge : Word} {n : ℕ}
    (hn : (wordBytes (shl 224 numberOfChallenge)).take 4 = beBytes 4 n) :
    Reaches (fun _ => getTranscriptChallenge keccak256 numberOfChallenge) mem fun w mem' =>
      w = t.challenge keccak256 n ∧ TranscriptAt mem' t ∧ Keeps (Outside 0xd40 0xdc0) mem mem' := by
  have hframed := h.framed 0x02 (shl 224 numberOfChallenge)
  have hlen : (0x48 : Word).toNat = 4 + (32 + (32 + 4)) := rfl
  have hbytes := hframed.memBytes (by decide) hlen
  rw [hn] at hbytes
  simp only [getTranscriptChallenge, Reaches.store8_bind, Reaches.store_bind, Reaches.hashMem_bind]
  rw [hbytes]
  exact Reaches.pure ⟨rfl, hframed.toTranscriptAt,
    keeps_outside_of_quiet (keeps_challenge (keeps_dst (Keeps.refl Quiet mem) _) _)⟩

/-- The words of the public input and the proof. -/
def wordsAt (mem : Memory) (i : ℕ) : Word :=
  mload mem (BitVec.ofNat 256 (0x720 + 32 * i))

/-- The state of a round: the transcript, and the challenges that were stored, which are those of
the memory `M`. -/
structure Round (mem₀ M mem : Memory) (t : Transcript) : Prop where
  transcript : TranscriptAt mem t
  keeps : Keeps (Outside 0xd40 0x1080) mem₀ mem
  stored : Keeps (Region 0xdc0 0x1080) M mem

variable {mem₀ M : Memory} {g : ℕ → Unit → Contract Unit} {Q : Unit → Memory → Prop} {slot : Word}

theorem Round.hash {mem' : Memory} {t' : Transcript} (h : Round mem₀ M mem t)
    (ht : TranscriptAt mem' t') (hkeeps : Keeps (Outside 0xd40 0xdc0) mem mem') :
    Round mem₀ M mem' t' where
  transcript := ht
  keeps := h.keeps.trans (keeps_outside_mono hkeeps le_rfl (by decide))
  stored := h.stored.trans (keeps_region_of_outside hkeeps (by decide) (Or.inr le_rfl))

/-- A word of the state is stored. -/
theorem Round.kept (h : Round mem₀ M mem t) (hslot : Inside 0xdc0 0x1080 slot 32) (v : Word) :
    Round mem₀ (mstore M slot v) (mstore mem slot v) t where
  transcript := by
    refine h.transcript.keep ((Keeps.refl Lines mem).mstore v fun a ha => Or.inl ?_)
    have hlt := (lines_bounds ha).2
    have hlow := hslot.1
    omega
  keeps := keeps_outside_mstore h.keeps ⟨by have := hslot.1; omega, hslot.2⟩
  stored := by
    intro a ha
    by_cases hin : slot.toNat ≤ a ∧ a < slot.toNat + 32
    · rw [mstore, mstore, if_pos hin, if_pos hin]
    · rw [mstore, mstore, if_neg hin, if_neg hin]
      exact h.stored a ha

theorem Round.update_bind (h : Round mem₀ M mem t) (hslot : Inside 0x720 0xd40 slot 32)
    (hg : ∀ mem', Round mem₀ M mem' (t.update keccak256 (mload mem₀ slot)) →
      Reaches (fun fuel => g fuel ()) mem' Q) :
    Reaches (fun fuel => load slot >>= fun value => updateTranscript keccak256 value >>= g fuel)
      mem Q := by
  have hlow := hslot.1
  have hload : mload mem slot = mload mem₀ slot :=
    mload_of_outside h.keeps (by omega) (Or.inl hslot.2)
  rw [Reaches.load_bind, hload]
  exact (updateTranscript_spec h.transcript _).bind fun _ mem' ⟨ht, hkeeps⟩ =>
    hg mem' (h.hash ht hkeeps)

theorem Round.challenge_bind {number : Word} {n : ℕ} (h : Round mem₀ M mem t)
    (hslot : Inside 0xdc0 0x1080 slot 32)
    (hn : (wordBytes (shl 224 number)).take 4 = beBytes 4 n)
    (hg : ∀ mem', Round mem₀ (mstore M slot (t.challenge keccak256 n)) mem' t →
      Reaches (fun fuel => g fuel ()) mem' Q) :
    Reaches (fun fuel => getTranscriptChallenge keccak256 number >>= fun w =>
      store slot w >>= g fuel) mem Q := by
  refine (getTranscriptChallenge_spec h.transcript hn).bind fun w mem' ⟨hw, ht, hkeeps⟩ => ?_
  rw [Reaches.store_bind, hw]
  exact hg _ ((h.hash ht hkeeps).kept hslot _)

/-- The power of `z` is stored with it. -/
theorem Round.power_bind {z : Word} (h : Round mem₀ M mem t)
    (hg : ∀ w mem', IsScalar w (residue z ^ domainSize) →
      Round mem₀ (mstore M STATE_Z_IN_DOMAIN_SIZE w) mem' t →
      Reaches (fun fuel => g fuel ()) mem' Q) :
    Reaches (fun fuel => modexp fuel z DOMAIN_SIZE >>= fun w =>
      store STATE_Z_IN_DOMAIN_SIZE w >>= g fuel) mem Q := by
  refine (modexp_spec mem rfl DOMAIN_SIZE_ne_zero).bind fun w mem' ⟨hw, hkeeps⟩ => ?_
  rw [toNat_DOMAIN_SIZE] at hw
  rw [Reaches.store_bind]
  have hround : Round mem₀ M mem' t :=
    { transcript := h.transcript.keep (hkeeps.mono fun a ha => by
        have hle := (lines_bounds ha).1
        rw [Lasting]
        omega)
      keeps := h.keeps.trans (keeps_outside_of_lasting hkeeps _ _)
      stored := h.stored.trans (hkeeps.mono fun a ha => by
        have hle := ha.1
        rw [Lasting]
        omega) }
  exact hg w _ hw (hround.kept (by decide) w)

set_option maxRecDepth 2048 in
theorem initializeTranscript_spec (hzero : ∀ a, Region 0xd40 0xd84 a → mem₀ a = 0) :
    Reaches (fun fuel => initializeTranscript fuel keccak256) mem₀ fun _ mem' =>
      ChallengesAt mem' (challengesOf keccak256 (wordsAt mem₀)) ∧
        Keeps (Outside 0xd40 0x1080) mem₀ mem' := by
  have h : Round mem₀ mem₀ mem₀ ⟨0, 0⟩ :=
    ⟨transcriptAt_zero hzero, Keeps.refl _ mem₀, Keeps.refl _ mem₀⟩
  unfold initializeTranscript
  iterate 9 refine h.update_bind (by decide) fun mem h => ?_
  have h : Round mem₀ mem₀ mem (round1 keccak256 (wordsAt mem₀)) := h
  refine h.challenge_bind (n := 0) (by decide) (by decide) fun mem h => ?_
  iterate 2 refine h.update_bind (by decide) fun mem h => ?_
  have h : Round mem₀ _ mem (round2 keccak256 (wordsAt mem₀)) := h
  refine h.challenge_bind (n := 1) (by decide) (by decide) fun mem h => ?_
  refine h.challenge_bind (n := 2) (by decide) (by decide) fun mem h => ?_
  iterate 2 refine h.update_bind (by decide) fun mem h => ?_
  have h : Round mem₀ _ mem (round3 keccak256 (wordsAt mem₀)) := h
  refine h.challenge_bind (n := 3) (by decide) (by decide) fun mem h => ?_
  refine h.challenge_bind (n := 4) (by decide) (by decide) fun mem h => ?_
  iterate 2 refine h.update_bind (by decide) fun mem h => ?_
  have h : Round mem₀ _ mem (round4 keccak256 (wordsAt mem₀)) := h
  refine h.challenge_bind (n := 5) (by decide) (by decide) fun mem h => ?_
  iterate 8 refine h.update_bind (by decide) fun mem h => ?_
  have h : Round mem₀ _ mem (round5 keccak256 (wordsAt mem₀)) := h
  refine (getTranscriptChallenge_spec h.transcript (n := 6) (by decide)).bind
    fun z mem' ⟨hz, ht, hkeeps⟩ => ?_
  have h := (h.hash ht hkeeps).kept (show Inside 0xdc0 0x1080 STATE_Z_SLOT 32 by decide) z
  rw [Reaches.store_bind]
  refine h.power_bind fun w mem hw h => ?_
  iterate 18 refine h.update_bind (by decide) fun mem h => ?_
  have h : Round mem₀ _ mem (round6 keccak256 (wordsAt mem₀)) := h
  refine h.challenge_bind (n := 7) (by decide) (by decide) fun mem h => ?_
  iterate 4 refine h.update_bind (by decide) fun mem h => ?_
  have h : Round mem₀ _ mem (round7 keccak256 (wordsAt mem₀)) := h
  refine (getTranscriptChallenge_spec h.transcript (n := 8) (by decide)).bind
    fun u mem' ⟨hu, ht, hkeeps⟩ => ?_
  have h := (h.hash ht hkeeps).kept (show Inside 0xdc0 0x1080 STATE_U_SLOT 32 by decide) u
  refine Reaches.store ⟨?_, h.keeps⟩
  have hscalar : ∀ {slot x}, Inside 0xdc0 0x1080 slot 32 → ScalarAt _ slot x → ScalarAt _ slot x :=
    fun hslot hx => hx.keep h.stored hslot
  -- Every challenge is a masked hash.
  have hdrawn : ∀ {mem slot} {t : Transcript} {n : ℕ},
      mload mem slot = t.challenge keccak256 n →
        ScalarAt mem slot (residue (t.challenge keccak256 n)) := by
    intro mem slot t n hload
    rw [ScalarAt, hload]
    exact isScalar_masked _
  subst hz hu
  constructor
  · refine hscalar (by decide) (hdrawn ?_)
    simp (disch := decide) only [mload_mstore_of_disjoint, mload_mstore_self]
  · refine hscalar (by decide) (hdrawn ?_)
    simp (disch := decide) only [mload_mstore_of_disjoint, mload_mstore_self]
  · refine hscalar (by decide) (hdrawn ?_)
    simp (disch := decide) only [mload_mstore_of_disjoint, mload_mstore_self]
  · refine hscalar (by decide) (hdrawn ?_)
    simp (disch := decide) only [mload_mstore_of_disjoint, mload_mstore_self]
  · refine hscalar (by decide) (hdrawn ?_)
    simp (disch := decide) only [mload_mstore_of_disjoint, mload_mstore_self]
  · refine hscalar (by decide) (hdrawn ?_)
    simp (disch := decide) only [mload_mstore_of_disjoint, mload_mstore_self]
  · refine hscalar (by decide) (hdrawn ?_)
    simp (disch := decide) only [mload_mstore_of_disjoint, mload_mstore_self]
  · refine hscalar (by decide) (hdrawn ?_)
    simp (disch := decide) only [mload_mstore_of_disjoint, mload_mstore_self]
  · refine hscalar (by decide) (hdrawn ?_)
    rw [mload_mstore_self]
  · refine hscalar (by decide) ?_
    rw [ScalarAt]
    simp (disch := decide) only [mload_mstore_of_disjoint, mload_mstore_self]
    exact hw

end Specs

end EraPrecompiles.Verifier
