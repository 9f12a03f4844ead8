import EraPrecompiles.Bn254.G1Order
import EraPrecompiles.Pairing.Negation
import EraPrecompiles.Precompiles.EcPairing
import EraPrecompiles.Yul.Call
import Mathlib.Data.List.Forall2
import Mathlib.Data.List.GetD
import Mathlib.Data.List.Perm.Basic

/-!
# Products of pairings

What the answer of EcPairing depends on.  The order of the pairs is without influence, also on
whether the calldata is accepted (`ecPairing_permutation`).  Pairs with opposite points cancel each
other (`ecPairing_opposites`).  Pairs that are accepted by themselves may be inserted between others
(`ecPairing_insertion`).
-/

namespace EraPrecompiles.EcPairing

open Bn254 Pairing ShortWeierstrass

/-! ## The list of pairs -/

/-- The pairs of the calldata. -/
def chunks (cd : Calldata) : List Chunk :=
  (List.range (cd.bytes.length / 192)).map (chunk cd)

theorem length_chunks (cd : Calldata) : (chunks cd).length = cd.bytes.length / 192 := by
  rw [chunks, List.length_map, List.length_range]

theorem validInput_iff (cd : Calldata) :
    ValidInput cd ↔ 192 ∣ cd.bytes.length ∧ ∀ c ∈ chunks cd, ValidChunk c := by
  refine and_congr_right fun hdvd => ?_
  constructor
  · intro h c hc
    obtain ⟨k, hk, rfl⟩ := List.mem_map.mp hc
    have hlt := List.mem_range.mp hk
    exact h k (by omega)
  · intro h k hk
    refine h _ (List.mem_map.mpr ⟨k, List.mem_range.mpr ?_, rfl⟩)
    omega

theorem encodes_iff (cd : Calldata) (points : List (g1.Point × g2.Point)) :
    Encodes cd points ↔
      192 ∣ cd.bytes.length ∧ List.Forall₂ ChunkEncodes (chunks cd) points := by
  have hlen := length_chunks cd
  rw [List.forall₂_iff_get]
  constructor
  · intro h
    have hlength := h.length
    refine ⟨⟨_, hlength⟩, by omega, fun k hk hk' => ?_⟩
    have hq := h.pair k _ (List.getElem?_eq_getElem hk')
    simpa [chunks] using hq
  · rintro ⟨hdvd, hlength, h⟩
    refine ⟨by omega, fun k q hq => ?_⟩
    obtain ⟨hk, rfl⟩ := List.getElem?_eq_some_iff.mp hq
    have hchunk := h k (by rw [length_chunks]; omega) hk
    simpa [chunks] using hchunk

theorem ChunkEncodes.unique {c : Chunk} {q q' : g1.Point × g2.Point} (h : ChunkEncodes c q)
    (h' : ChunkEncodes c q') : q = q' :=
  Prod.ext (Option.some.inj (h.1.symm.trans h'.1)) (Option.some.inj (h.2.1.symm.trans h'.2.1))

theorem Encodes.unique {cd : Calldata} {points points' : List (g1.Point × g2.Point)}
    (h : Encodes cd points) (h' : Encodes cd points') : points = points' := by
  have hright : Relator.RightUnique ChunkEncodes := fun _ _ _ hq hq' => hq.unique hq'
  exact hright.forall₂ ((encodes_iff cd points).mp h).2 ((encodes_iff cd points').mp h').2

/-! ## Products -/

theorem pairingProduct_append (points points' : List (g1.Point × g2.Point)) :
    pairingProduct (points ++ points') = pairingProduct points * pairingProduct points' := by
  rw [pairingProduct, List.filter_append, List.map_append, List.prod_append]
  rfl

theorem pairingProduct_perm {points points' : List (g1.Point × g2.Point)}
    (h : points.Perm points') : pairingProduct points = pairingProduct points' :=
  ((h.filter _).map _).prod_eq

/-! ## Outcomes -/

open Classical in
theorem fallback_encodes {cd : Calldata} {points : List (g1.Point × g2.Point)}
    (h : Encodes cd points) :
    Yields (fun fuel => fallback fuel cd)
      (.returned (wordBytes (if pairingProduct points = 1 then 1 else 0))) := by
  obtain ⟨halt, hyields, ⟨points', h', rfl⟩ | ⟨hinvalid, -⟩⟩ := fallback_yields cd
  · rwa [h.unique h']
  · exact absurd h.valid hinvalid

theorem fallback_invalid {cd : Calldata} (h : ¬ValidInput cd) :
    Yields (fun fuel => fallback fuel cd) .burned := by
  obtain ⟨halt, hyields, ⟨points, hpoints, -⟩ | ⟨-, rfl⟩⟩ := fallback_yields cd
  · exact absurd hpoints.valid h
  · exact hyields

theorem ValidInput.encodes {cd : Calldata} (h : ValidInput cd) :
    ∃ points, Encodes cd points := by
  obtain ⟨halt, hyields, ⟨points, hpoints, -⟩ | ⟨hinvalid, -⟩⟩ := fallback_yields cd
  · exact ⟨points, hpoints⟩
  · exact absurd h hinvalid

/-- The call returns one for valid calldata with the product one, and for no other. -/
theorem fallback_one {cd : Calldata}
    (h : Yields (fun fuel => fallback fuel cd) (.returned (wordBytes 1))) :
    ∃ points, Encodes cd points ∧ pairingProduct points = 1 := by
  obtain ⟨halt, hyields, ⟨points, hpoints, rfl⟩ | ⟨-, rfl⟩⟩ := fallback_yields cd
  · refine ⟨points, hpoints, ?_⟩
    by_contra hne
    rw [if_neg hne] at hyields
    have hwords := wordBytes_injective (Halt.returned.inj (hyields.unique h))
    exact absurd hwords (by decide)
  · cases hyields.unique h

/-! ## Examples of calldata -/

/-- One pair of two points at infinity. -/
def infinityInput : Calldata where
  bytes := List.replicate 192 0
  length_lt := by decide +kernel

/-- The opposite of the first generator, with the second generator. -/
def oppositeInput : Calldata where
  bytes := [1, 21888242871839275222246405745257275088696311157297823662689037894645226208581,
    (fp2Words twistGeneratorX).2, (fp2Words twistGeneratorX).1,
    (fp2Words twistGeneratorY).2, (fp2Words twistGeneratorY).1].flatMap wordBytes
  length_lt := by decide +kernel

theorem length_infinityInput : infinityInput.bytes.length = 192 :=
  List.length_replicate

theorem length_oppositeInput : oppositeInput.bytes.length = 192 :=
  length_flatMap_wordBytes _

/-- Two pairs, one after the other. -/
def joinPairs (cd₁ cd₂ : Calldata) (h₁ : cd₁.bytes.length = 192)
    (h₂ : cd₂.bytes.length = 192) : Calldata where
  bytes := cd₁.bytes ++ cd₂.bytes
  length_lt := by
    rw [List.length_append, h₁, h₂]
    norm_num

/-- The calldata of one pair. -/
theorem encodes_singleton {cd : Calldata} {P : g1.Point} {Q : g2.Point}
    (hlength : cd.bytes.length = 192) (h : ChunkEncodes (chunk cd 0) (P, Q)) :
    Encodes cd [(P, Q)] := by
  refine ⟨hlength, fun k q hq => ?_⟩
  obtain ⟨hk, rfl⟩ := List.getElem?_eq_some_iff.mp hq
  obtain rfl : k = 0 := by
    rw [List.length_singleton] at hk
    omega
  exact h

/-! ## Joined calldata -/

/-- A pair is read from its 192 bytes only. -/
theorem chunk_congr {cd cd' : Calldata} {k k' : ℕ} (hk : 192 * (k + 1) ≤ cd.bytes.length)
    (hk' : 192 * (k' + 1) ≤ cd'.bytes.length)
    (h : ∀ j < 192, cd.get (192 * k + j) = cd'.get (192 * k' + j)) :
    chunk cd k = chunk cd' k' := by
  have hlt := cd.length_lt
  have hlt' := cd'.length_lt
  have hword : ∀ o, o + 32 ≤ 192 → calldataload cd (BitVec.ofNat 256 (192 * k + o)) =
      calldataload cd' (BitVec.ofNat 256 (192 * k' + o)) := by
    intro o ho
    refine word_ext ?_
    rw [toNat_calldataload, toNat_calldataload, toNat_ofNat_of_lt (by omega),
      toNat_ofNat_of_lt (by omega)]
    refine beNat_congr fun j hj => ?_
    rw [add_assoc, add_assoc]
    exact h (o + j) (by omega)
  have h0 := hword 0 (by omega)
  rw [add_zero, add_zero] at h0
  rw [chunk, chunk, h0, hword 32 (by omega), hword 64 (by omega), hword 96 (by omega),
    hword 128 (by omega), hword 160 (by omega)]

theorem chunks_append {cd cd₁ cd₂ : Calldata} (h : cd.bytes = cd₁.bytes ++ cd₂.bytes)
    (hdvd : 192 ∣ cd₁.bytes.length) : chunks cd = chunks cd₁ ++ chunks cd₂ := by
  obtain ⟨n, hn⟩ := hdvd
  have hlength : cd.bytes.length = 192 * n + cd₂.bytes.length := by
    rw [h, List.length_append, hn]
  have hcount : cd.bytes.length / 192 = n + cd₂.bytes.length / 192 := by
    omega
  have hcount₁ : cd₁.bytes.length / 192 = n := by
    omega
  rw [chunks, chunks, chunks, hcount, hcount₁, List.range_add, List.map_append, List.map_map]
  refine congrArg₂ (· ++ ·) ?_ ?_
  · refine List.map_congr_left fun k hk => ?_
    have hk' := List.mem_range.mp hk
    refine chunk_congr (by omega) (by omega) fun j hj => ?_
    rw [Calldata.get, Calldata.get, h, List.getD_append _ _ _ _ (by omega)]
  · refine List.map_congr_left fun k hk => ?_
    have hk' := List.mem_range.mp hk
    rw [Function.comp_apply]
    refine chunk_congr (by omega) (by omega) fun j hj => ?_
    have hindex : 192 * (n + k) + j - cd₁.bytes.length = 192 * k + j := by
      omega
    rw [Calldata.get, Calldata.get, h, List.getD_append_right _ _ _ _ (by omega), hindex]

theorem Encodes.append {cd cd₁ cd₂ : Calldata} {points₁ points₂ : List (g1.Point × g2.Point)}
    (h : cd.bytes = cd₁.bytes ++ cd₂.bytes) (h₁ : Encodes cd₁ points₁)
    (h₂ : Encodes cd₂ points₂) : Encodes cd (points₁ ++ points₂) := by
  obtain ⟨hdvd₁, hlist₁⟩ := (encodes_iff cd₁ points₁).mp h₁
  obtain ⟨hdvd₂, hlist₂⟩ := (encodes_iff cd₂ points₂).mp h₂
  rw [encodes_iff, chunks_append h hdvd₁, h, List.length_append]
  exact ⟨dvd_add hdvd₁ hdvd₂, List.rel_append hlist₁ hlist₂⟩

theorem validInput_append {cd cd₁ cd₂ : Calldata} (h : cd.bytes = cd₁.bytes ++ cd₂.bytes)
    (hdvd : 192 ∣ cd₁.bytes.length) :
    ValidInput cd ↔ ValidInput cd₁ ∧ ValidInput cd₂ := by
  rw [validInput_iff, validInput_iff, validInput_iff, chunks_append h hdvd, h,
    List.length_append, Nat.dvd_add_right hdvd]
  constructor
  · rintro ⟨h2, hall⟩
    exact ⟨⟨hdvd, fun c hc => hall c (List.mem_append_left _ hc)⟩, h2,
      fun c hc => hall c (List.mem_append_right _ hc)⟩
  · rintro ⟨⟨-, hall⟩, h2, hall'⟩
    exact ⟨h2, fun c hc => (List.mem_append.mp hc).elim (hall c) (hall' c)⟩

/-! ## The order of the pairs -/

/-- Two calls with the same pairs in different orders end in the same way. -/
theorem ecPairing_permutation {cd cd' : Calldata} (hlength : cd.bytes.length = cd'.bytes.length)
    (h : (chunks cd).Perm (chunks cd')) :
    ∃ halt, Yields (fun fuel => fallback fuel cd) halt ∧
      Yields (fun fuel => fallback fuel cd') halt := by
  have hvalid : ValidInput cd ↔ ValidInput cd' := by
    rw [validInput_iff, validInput_iff, hlength]
    exact and_congr_right fun _ => forall_congr' fun c => by rw [h.mem_iff]
  by_cases hcd : ValidInput cd
  · obtain ⟨points', hpoints'⟩ := (hvalid.mp hcd).encodes
    obtain ⟨hdvd, hlist⟩ := (encodes_iff cd' points').mp hpoints'
    obtain ⟨points, hpoints, hperm⟩ := List.perm_comp_forall₂ h hlist
    rw [← hlength] at hdvd
    refine ⟨_, fallback_encodes ((encodes_iff cd points).mpr ⟨hdvd, hpoints⟩), ?_⟩
    rw [pairingProduct_perm hperm]
    exact fallback_encodes hpoints'
  · exact ⟨.burned, fallback_invalid hcd, fallback_invalid (mt hvalid.mpr hcd)⟩

theorem ecPairing_permutation_swap :
    ∃ halt, Yields (fun fuel => fallback fuel (joinPairs generatorInput infinityInput
        generatorInput_words.1 length_infinityInput)) halt ∧
      Yields (fun fuel => fallback fuel (joinPairs infinityInput generatorInput
        length_infinityInput generatorInput_words.1)) halt := by
  refine ecPairing_permutation ?_ ?_
  · rw [joinPairs, joinPairs, List.length_append, List.length_append, Nat.add_comm]
  · have h : chunks (joinPairs generatorInput infinityInput generatorInput_words.1
        length_infinityInput) = chunks generatorInput ++ chunks infinityInput :=
      chunks_append rfl ⟨1, generatorInput_words.1⟩
    have h' : chunks (joinPairs infinityInput generatorInput length_infinityInput
        generatorInput_words.1) = chunks infinityInput ++ chunks generatorInput :=
      chunks_append rfl ⟨1, length_infinityInput⟩
    rw [h, h']
    exact List.perm_append_comm

/-! ## Opposite points -/

/-- One of the two points is replaced by its opposite. -/
def Opposite (q q' : g1.Point × g2.Point) : Prop :=
  q' = (-q.1, q.2) ∨ q' = (q.1, -q.2)

theorem optimalAte_ne_zero {P : g1.Point} {Q : g2.Point} (hP : P ≠ 0) (hQ : Q ≠ 0)
    (hr : r • Q = 0) : optimalAte P Q ≠ 0 := by
  obtain ⟨xP, yP, hxyP⟩ := (eq_zero_or_coords P).resolve_left hP
  obtain ⟨xQ, yQ, hxyQ⟩ := (eq_zero_or_coords Q).resolve_left hQ
  obtain ⟨f, hf, hpow, -⟩ := pair_yields hxyP hxyQ hr
  rw [← hpow]
  exact pow_ne_zero _ hf

theorem Opposite.pairingProduct {q q' : g1.Point × g2.Point} (h : Opposite q q')
    (hr : r • q.2 = 0) :
    EcPairing.pairingProduct [q] * EcPairing.pairingProduct [q'] = 1 := by
  have hnil : EcPairing.pairingProduct [] = 1 := rfl
  have hskip : ∀ s : g1.Point × g2.Point, s.1 = 0 ∨ s.2 = 0 →
      EcPairing.pairingProduct [s] = 1 := fun s hs => by
    rw [← List.nil_append [s], pairingProduct_skip hs, hnil]
  have hmul : ∀ s : g1.Point × g2.Point, s.1 ≠ 0 → s.2 ≠ 0 →
      EcPairing.pairingProduct [s] = optimalAte s.1 s.2 := fun s h1 h2 => by
    rw [← List.nil_append [s], pairingProduct_mul h1 h2, hnil, one_mul]
  obtain ⟨P, Q⟩ := q
  by_cases h0 : P = 0 ∨ Q = 0
  · have h0' : q'.1 = 0 ∨ q'.2 = 0 := by
      rcases h with rfl | rfl
      · exact h0.imp_left neg_eq_zero.mpr
      · exact h0.imp_right neg_eq_zero.mpr
    rw [hskip _ h0, hskip _ h0', mul_one]
  · obtain ⟨hP, hQ⟩ := not_or.mp h0
    have hne := optimalAte_ne_zero hP hQ hr
    rcases h with rfl | rfl
    · rw [hmul _ hP hQ, hmul _ (neg_ne_zero.mpr hP) hQ, mul_comm]
      exact optimalAte_neg_left hne
    · rw [hmul _ hP hQ, hmul _ hP (neg_ne_zero.mpr hQ), mul_comm]
      exact optimalAte_neg_right hne

theorem pairingProduct_opposites {points points' : List (g1.Point × g2.Point)}
    (h : List.Forall₂ Opposite points points') (hr : ∀ q ∈ points, r • q.2 = 0) :
    pairingProduct (points ++ points') = 1 := by
  rw [pairingProduct_append]
  induction h with
  | nil =>
      exact mul_one _
  | @cons q q' points points' hq _ ih =>
      have htail := ih fun s hs => hr s (List.mem_cons_of_mem q hs)
      have hhead := hq.pairingProduct (hr q List.mem_cons_self)
      rw [← List.singleton_append, ← List.singleton_append (l := points'), pairingProduct_append,
        pairingProduct_append, mul_mul_mul_comm, hhead, htail, one_mul]

theorem Encodes.nsmul_eq_zero {cd : Calldata} {points : List (g1.Point × g2.Point)}
    (h : Encodes cd points) : ∀ q ∈ points, r • q.2 = 0 := by
  intro q hq
  obtain ⟨k, hk, rfl⟩ := List.mem_iff_getElem.mp hq
  exact (h.pair k _ (List.getElem?_eq_getElem hk)).2.2

/-- The first generator. -/
def generatorPoint : g1.Point :=
  g1.point 1 (2 : ℕ) generator_onCurve

theorem decodeTwist_generator :
    decodeTwist (fp2Words twistGeneratorX) (fp2Words twistGeneratorY) = some twistGenerator := by
  have hX : fp2OfWords (fp2Words twistGeneratorX) = twistGeneratorX := by decide
  have hY : fp2OfWords (fp2Words twistGeneratorY) = twistGeneratorY := by decide
  have hcurve : g2.OnCurve (fp2OfWords (fp2Words twistGeneratorX))
      (fp2OfWords (fp2Words twistGeneratorY)) := by
    rw [hX, hY]
    exact coords_twistGenerator.onCurve
  obtain ⟨Q, hdecode, hQ⟩ := decodeTwist_of_onCurve (by decide) (by decide) hcurve
  rw [hX, hY] at hQ
  rw [hdecode, hQ.point_unique coords_twistGenerator]

theorem generatorInput_encodes : Encodes generatorInput [(generatorPoint, twistGenerator)] := by
  obtain ⟨hlength, hx1, hy1, hx, hy⟩ := generatorInput_words
  refine encodes_singleton hlength ⟨?_, ?_, nsmul_twistGenerator⟩
  · obtain ⟨A, hdecode, hA⟩ := decodePoint_of_onCurve (x := 1) (y := 2) (by decide) (by decide)
      (by decide)
    rw [hx1, hy1, hdecode, hA.point_unique (B := generatorPoint)
      ((coords_point generator_onCurve).congr (by decide) (by decide))]
  · rw [hx, hy]
    exact decodeTwist_generator

theorem oppositeInput_words :
    (chunk oppositeInput 0).g1_x = 1 ∧
      (chunk oppositeInput 0).g1_y =
        21888242871839275222246405745257275088696311157297823662689037894645226208581 ∧
      (chunk oppositeInput 0).g2_x = fp2Words twistGeneratorX ∧
      (chunk oppositeInput 0).g2_y = fp2Words twistGeneratorY := by
  decide +kernel

theorem oppositeInput_encodes : Encodes oppositeInput [(-generatorPoint, twistGenerator)] := by
  obtain ⟨hx1, hy1, hx, hy⟩ := oppositeInput_words
  refine encodes_singleton length_oppositeInput ⟨?_, ?_, nsmul_twistGenerator⟩
  · obtain ⟨A, hdecode, hA⟩ := decodePoint_of_onCurve (x := 1)
      (y := 21888242871839275222246405745257275088696311157297823662689037894645226208581)
      (by decide) (by decide) (by decide)
    have hneg : Coords (-generatorPoint) (1 : Fp) (-2) := (coords_point generator_onCurve).neg
    rw [hx1, hy1, hdecode, hA.point_unique (hneg.congr (by decide) (by decide))]
  · rw [hx, hy]
    exact decodeTwist_generator

/-- Pairs with the answer one, inserted between other pairs, have no influence on the answer,
and none on whether the calldata is accepted. -/
theorem ecPairing_insertion {cd cd' front back inserted : Calldata}
    (h : cd.bytes = front.bytes ++ back.bytes)
    (h' : cd'.bytes = front.bytes ++ inserted.bytes ++ back.bytes)
    (hfront : 192 ∣ front.bytes.length)
    (hinserted : Yields (fun fuel => fallback fuel inserted) (.returned (wordBytes 1))) :
    ∃ halt, Yields (fun fuel => fallback fuel cd) halt ∧
      Yields (fun fuel => fallback fuel cd') halt := by
  obtain ⟨points, hpoints, hone⟩ := fallback_one hinserted
  have hlt := cd'.length_lt
  rw [h', List.length_append] at hlt
  -- The calldata of the inserted pairs and those before them.
  let joined : Calldata := ⟨front.bytes ++ inserted.bytes, by omega⟩
  have hjoined : joined.bytes = front.bytes ++ inserted.bytes := rfl
  have hdvd : 192 ∣ joined.bytes.length := by
    rw [hjoined, List.length_append]
    exact dvd_add hfront hpoints.valid.1
  have hvalid : ValidInput cd ↔ ValidInput cd' := by
    rw [validInput_append h hfront, validInput_append h' hdvd, validInput_append hjoined hfront,
      and_iff_left hpoints.valid]
  by_cases hcd : ValidInput cd
  · obtain ⟨hvalid₁, hvalid₂⟩ := (validInput_append h hfront).mp hcd
    obtain ⟨points₁, h₁⟩ := hvalid₁.encodes
    obtain ⟨points₂, h₂⟩ := hvalid₂.encodes
    refine ⟨_, fallback_encodes (Encodes.append h h₁ h₂), ?_⟩
    have hproduct : pairingProduct (points₁ ++ points₂) =
        pairingProduct (points₁ ++ points ++ points₂) := by
      rw [pairingProduct_append, pairingProduct_append, pairingProduct_append, hone, mul_one]
    rw [hproduct]
    exact fallback_encodes (Encodes.append h' (Encodes.append hjoined h₁ hpoints) h₂)
  · exact ⟨.burned, fallback_invalid hcd, fallback_invalid (mt hvalid.mpr hcd)⟩

/-- A generator pair and its opposite have the product one. -/
theorem generatorPairs_one :
    Yields (fun fuel => fallback fuel (joinPairs generatorInput oppositeInput
      generatorInput_words.1 length_oppositeInput)) (.returned (wordBytes 1)) := by
  have hyields := fallback_encodes (Encodes.append rfl generatorInput_encodes
    oppositeInput_encodes : Encodes (joinPairs generatorInput oppositeInput
      generatorInput_words.1 length_oppositeInput) _)
  have hone : pairingProduct ([(generatorPoint, twistGenerator)] ++
      [(-generatorPoint, twistGenerator)]) = 1 :=
    pairingProduct_opposites (List.Forall₂.cons (Or.inl rfl) List.Forall₂.nil)
      generatorInput_encodes.nsmul_eq_zero
  rwa [if_pos hone] at hyields

/-- A pair and its opposite between two other pairs. -/
def insertedInput : Calldata where
  bytes := generatorInput.bytes ++ (joinPairs generatorInput oppositeInput generatorInput_words.1
    length_oppositeInput).bytes ++ generatorInput.bytes
  length_lt := by
    rw [List.length_append, List.length_append, joinPairs, List.length_append,
      generatorInput_words.1, length_oppositeInput]
    norm_num

theorem ecPairing_insertion_opposite :
    ∃ halt, Yields (fun fuel => fallback fuel (joinPairs generatorInput generatorInput
        generatorInput_words.1 generatorInput_words.1)) halt ∧
      Yields (fun fuel => fallback fuel insertedInput) halt :=
  @ecPairing_insertion _ insertedInput generatorInput generatorInput _ rfl rfl
    ⟨1, generatorInput_words.1⟩ generatorPairs_one

end EraPrecompiles.EcPairing
