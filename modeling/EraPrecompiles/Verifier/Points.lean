import EraPrecompiles.Verifier.Helpers

/-!
# Points in the memory of the verifier

What the operations on points leave in memory: at the destination the encoding of the result, and
everything else from `0x200` on as it was.
-/

namespace EraPrecompiles.Verifier

open Bn254 ShortWeierstrass

/-! ## The calls -/

theorem precompile_ecAdd (fuel : ℕ) (cd : Calldata) :
    precompile fuel 6 cd = EcAdd.fallback fuel cd := by
  rw [precompile, if_neg (by decide), if_pos (by decide)]

theorem precompile_ecMul (fuel : ℕ) (cd : Calldata) :
    precompile fuel 7 cd = EcMul.fallback fuel cd := by
  rw [precompile, if_neg (by decide), if_neg (by decide), if_pos (by decide)]

section Calls

variable {mem : Memory} {A B : g1.Point} {x1 y1 x2 y2 k : Word}

/-- Three words at the beginning of the memory. -/
theorem carries_three (h0 : mload mem 0 = x1) (h1 : mload mem 0x20 = y1)
    (h2 : mload mem 0x40 = k) : Carries (memCalldata mem 0 0x60) [x1, y1, k] := by
  refine carries_memCalldata le_rfl (by decide) fun i w hw => ?_
  match i, hw with
  | 0, rfl => exact h0
  | 1, rfl => exact h1
  | 2, rfl => exact h2

/-- Four words at the beginning of the memory. -/
theorem carries_four (h0 : mload mem 0 = x1) (h1 : mload mem 0x20 = y1)
    (h2 : mload mem 0x40 = x2) (h3 : mload mem 0x60 = y2) :
    Carries (memCalldata mem 0 0x80) [x1, y1, x2, y2] := by
  refine carries_memCalldata le_rfl (by decide) fun i w hw => ?_
  match i, hw with
  | 0, rfl => exact h0
  | 1, rfl => exact h1
  | 2, rfl => exact h2
  | 3, rfl => exact h3

theorem staticcall_ecMul (hA : decodePoint x1 y1 = some A) (h0 : mload mem 0 = x1)
    (h1 : mload mem 0x20 = y1) (h2 : mload mem 0x40 = k) (out : Word) :
    Ends (fun fuel => staticcall fuel 7 0 0x60 out 0x40) mem
      (.ok (1, writeBytes mem out (encodePoint (residue k • A)))) := by
  have hcarries := carries_three h0 h1 h2
  have hwords : [x1, y1, k] = pointWords A ++ [k] := by
    rw [pointWords_of_decode hA]
    rfl
  rw [hwords] at hcarries
  have hyields := (EcMul.fallback_points hcarries).congr fun fuel => precompile_ecMul fuel _
  have hcall : Ends (fun fuel => staticcall fuel 7 0 0x60 out 0x40) mem _ :=
    Ends.callContract_returned hyields
  rw [List.take_of_length_le (by rw [length_encodePoint]; decide), ← residue_smul] at hcall
  exact hcall

theorem staticcall_ecAdd (hA : decodePoint x1 y1 = some A) (hB : decodePoint x2 y2 = some B)
    (h0 : mload mem 0 = x1) (h1 : mload mem 0x20 = y1) (h2 : mload mem 0x40 = x2)
    (h3 : mload mem 0x60 = y2) (out : Word) :
    Ends (fun fuel => staticcall fuel 6 0 0x80 out 0x40) mem
      (.ok (1, writeBytes mem out (encodePoint (A + B)))) := by
  have hcarries := carries_four h0 h1 h2 h3
  have hwords : [x1, y1, x2, y2] = pointWords A ++ pointWords B := by
    rw [pointWords_of_decode hA, pointWords_of_decode hB]
    rfl
  rw [hwords] at hcarries
  have hyields := (EcAdd.fallback_points hcarries).congr fun fuel => precompile_ecAdd fuel _
  have hcall : Ends (fun fuel => staticcall fuel 6 0 0x80 out 0x40) mem _ :=
    Ends.callContract_returned hyields
  rw [List.take_of_length_le (by rw [length_encodePoint]; decide)] at hcall
  exact hcall

end Calls

/-! ## The operations -/

/-- A place for a point, above the data of the calls. -/
def Slot (slot : Word) : Prop :=
  0x200 ≤ slot.toNat ∧ slot.toNat + 64 < 2 ^ 256

instance (slot : Word) : Decidable (Slot slot) :=
  inferInstanceAs (Decidable (_ ∧ _))

/-- The addresses from `0x200` on that do not belong to the point at the place. -/
def Apart (slot : Word) (a : ℕ) : Prop :=
  0x200 ≤ a ∧ (a < slot.toNat ∨ slot.toNat + 64 ≤ a)

section Operations

variable {mem : Memory} {point p1 p2 dest : Word} {A B : g1.Point}

theorem Slot.toNat_next (h : Slot point) : (add point 0x20).toNat = point.toNat + 32 := by
  have h20 : (0x20 : Word).toNat = 32 := rfl
  rw [toNat_add_of_lt (by rw [h20]; have := h.2; omega), h20]

/-- A word from `0x200` on, after a word below was stored. -/
theorem mload_mstore_scratch (mem : Memory) {q slot : Word} (v : Word) (hq : q.toNat < 0x180)
    (hslot : 0x200 ≤ slot.toNat) : mload (mstore mem q v) slot = mload mem slot :=
  mload_mstore_of_disjoint mem v (Or.inr (by omega))

/-- The addresses from `0x200` on. -/
def Lasting (a : ℕ) : Prop :=
  0x200 ≤ a

theorem keeps_mstore_scratch {mem' : Memory} (h : Keeps Lasting mem mem') {q : Word} (v : Word)
    (hq : q.toNat < 0x180) : Keeps Lasting mem (mstore mem' q v) :=
  h.mstore v fun a ha => Or.inr (by rw [Lasting] at ha; omega)

/-- The words of a call, and the encoded point that it returned. -/
theorem keeps_returned {mem' : Memory} (h : Keeps Lasting mem mem') (dest : Word)
    (C : g1.Point) : Keeps (Apart dest) mem (writeBytes mem' dest (encodePoint C)) :=
  (h.mono fun _ ha => ha.1).writeBytes fun a ha => by
    rw [length_encodePoint]
    exact ha.2

/-- The test of the answer, after a call that returned. -/
theorem ends_success {f : ℕ → Contract Word} {mem' : Memory} (h : Ends f mem (.ok (1, mem')))
    (len : Word) (reason : String) :
    Ends (fun fuel => do
      let success ← f fuel
      if iszero success ≠ 0 then revertWithMessage len reason else pure ()) mem
        (.ok ((), mem')) := by
  refine h.bind ?_
  have hone : ¬iszero (1 : Word) ≠ 0 := by decide
  simp only [if_neg hone]
  exact Ends.pure () mem'

/-- The words of a call of EcMul. -/
def mulWords (mem : Memory) (x y k : Word) : Memory :=
  mstore (mstore (mstore mem 0 x) 0x20 y) 0x40 k

/-- The words of a call of EcAdd. -/
def addWords (mem : Memory) (x1 y1 x2 y2 : Word) : Memory :=
  mstore (mstore (mstore (mstore mem 0 x1) 0x20 y1) 0x40 x2) 0x60 y2

theorem keeps_mulWords (mem : Memory) (x y k : Word) : Keeps Lasting mem (mulWords mem x y k) :=
  keeps_mstore_scratch (keeps_mstore_scratch (keeps_mstore_scratch (Keeps.refl Lasting mem) x
    (by decide)) y (by decide)) k (by decide)

theorem keeps_addWords (mem : Memory) (x1 y1 x2 y2 : Word) :
    Keeps Lasting mem (addWords mem x1 y1 x2 y2) :=
  keeps_mstore_scratch (keeps_mulWords mem x1 y1 x2) y2 (by decide)

theorem staticcall_mulWords {x y : Word} (hA : decodePoint x y = some A) (k out : Word) :
    Ends (fun fuel => staticcall fuel 7 0 0x60 out 0x40) (mulWords mem x y k)
      (.ok (1, writeBytes (mulWords mem x y k) out (encodePoint (residue k • A)))) := by
  refine staticcall_ecMul hA ?_ ?_ ?_ out
  · rw [mulWords, mload_mstore_of_disjoint _ _ (by decide),
      mload_mstore_of_disjoint _ _ (by decide), mload_mstore_self]
  · rw [mulWords, mload_mstore_of_disjoint _ _ (by decide), mload_mstore_self]
  · rw [mulWords, mload_mstore_self]

theorem mload_addWords (mem : Memory) (x1 y1 x2 y2 : Word) :
    mload (addWords mem x1 y1 x2 y2) 0 = x1 ∧ mload (addWords mem x1 y1 x2 y2) 0x20 = y1 ∧
      mload (addWords mem x1 y1 x2 y2) 0x40 = x2 ∧ mload (addWords mem x1 y1 x2 y2) 0x60 = y2 := by
  refine ⟨?_, ?_, ?_, ?_⟩
  · rw [addWords, mload_mstore_of_disjoint _ _ (by decide),
      mload_mstore_of_disjoint _ _ (by decide), mload_mstore_of_disjoint _ _ (by decide),
      mload_mstore_self]
  · rw [addWords, mload_mstore_of_disjoint _ _ (by decide),
      mload_mstore_of_disjoint _ _ (by decide), mload_mstore_self]
  · rw [addWords, mload_mstore_of_disjoint _ _ (by decide), mload_mstore_self]
  · rw [addWords, mload_mstore_self]

theorem staticcall_addWords {x1 y1 x2 y2 : Word} (hA : decodePoint x1 y1 = some A)
    (hB : decodePoint x2 y2 = some B) (out : Word) :
    Ends (fun fuel => staticcall fuel 6 0 0x80 out 0x40) (addWords mem x1 y1 x2 y2)
      (.ok (1, writeBytes (addWords mem x1 y1 x2 y2) out (encodePoint (A + B)))) := by
  obtain ⟨h0, h1, h2, h3⟩ := mload_addWords mem x1 y1 x2 y2
  exact staticcall_ecAdd hA hB h0 h1 h2 h3 out

theorem pointMulIntoDest_spec (hpoint : Slot point) (hdest : Slot dest)
    (hA : PointAt mem point A) (s : Word) :
    Reaches (fun fuel => pointMulIntoDest fuel point s dest) mem fun _ mem' =>
      PointAt mem' dest (residue s • A) ∧ Keeps (Apart dest) mem mem' := by
  have hnext := hpoint.toNat_next
  have hlow := hpoint.1
  simp only [pointMulIntoDest, Reaches.load_bind, Reaches.store_bind]
  rw [mload_mstore_scratch mem _ (by decide) (by omega)]
  exact ⟨(), _, ends_success (staticcall_mulWords hA s dest) _ _,
    pointAt_writeBytes _ _ hdest.2, keeps_returned (keeps_mulWords _ _ _ _) dest _⟩

/-- The words that the sums read, after the words before them were stored. -/
theorem mload_addWords_next (mem : Memory) (h1 : Slot p1) (h2 : Slot p2) (x1 y1 x2 : Word) :
    mload (mstore mem 0 x1) (add p1 0x20) = mload mem (add p1 0x20) ∧
      mload (mstore (mstore mem 0 x1) 0x20 y1) p2 = mload mem p2 ∧
      mload (mstore (mstore (mstore mem 0 x1) 0x20 y1) 0x40 x2) (add p2 0x20) =
        mload mem (add p2 0x20) := by
  have hlow1 := h1.1
  have hlow2 := h2.1
  have hnext1 := h1.toNat_next
  have hnext2 := h2.toNat_next
  refine ⟨?_, ?_, ?_⟩
  · rw [mload_mstore_scratch _ _ (by decide) (by omega)]
  · rw [mload_mstore_scratch _ _ (by decide) (by omega),
      mload_mstore_scratch _ _ (by decide) (by omega)]
  · rw [mload_mstore_scratch _ _ (by decide) (by omega),
      mload_mstore_scratch _ _ (by decide) (by omega),
      mload_mstore_scratch _ _ (by decide) (by omega)]

theorem pointAddIntoDest_spec (h1 : Slot p1) (h2 : Slot p2) (hdest : Slot dest)
    (hA : PointAt mem p1 A) (hB : PointAt mem p2 B) :
    Reaches (fun fuel => pointAddIntoDest fuel p1 p2 dest) mem fun _ mem' =>
      PointAt mem' dest (A + B) ∧ Keeps (Apart dest) mem mem' := by
  obtain ⟨hy1, hx2, hy2⟩ := mload_addWords_next mem h1 h2 (mload mem p1)
    (mload mem (add p1 0x20)) (mload mem p2)
  simp only [pointAddIntoDest, Reaches.load_bind, Reaches.store_bind, hy1, hx2, hy2]
  exact ⟨(), _, ends_success (staticcall_addWords hA hB dest) _ _,
    pointAt_writeBytes _ _ hdest.2, keeps_returned (keeps_addWords _ _ _ _ _) dest _⟩

theorem pointAddAssign_spec (h1 : Slot p1) (h2 : Slot p2) (hA : PointAt mem p1 A)
    (hB : PointAt mem p2 B) :
    Reaches (fun fuel => pointAddAssign fuel p1 p2) mem fun _ mem' =>
      PointAt mem' p1 (A + B) ∧ Keeps (Apart p1) mem mem' := by
  obtain ⟨hy1, hx2, hy2⟩ := mload_addWords_next mem h1 h2 (mload mem p1)
    (mload mem (add p1 0x20)) (mload mem p2)
  simp only [pointAddAssign, Reaches.load_bind, Reaches.store_bind, hy1, hx2, hy2]
  exact ⟨(), _, ends_success (staticcall_addWords hA hB p1) _ _,
    pointAt_writeBytes _ _ h1.2, keeps_returned (keeps_addWords _ _ _ _ _) p1 _⟩

/-- The words of the opposite point. -/
theorem decodePoint_neg {x y : Word} (h : decodePoint x y = some B) (hB : B ≠ 0) :
    decodePoint x (sub Q_MOD y) = some (-B) := by
  rcases decodePoint_eq_some h with ⟨-, rfl⟩ | ⟨-, hlt, hcoords⟩
  · exact absurd rfl hB
  have hpos : 0 < y.toNat := by
    refine Nat.pos_of_ne_zero fun h0 => ?_
    rw [h0, Nat.cast_zero] at hcoords
    exact g1_y_ne_zero _ hcoords.onCurve
  have hsub : (sub Q_MOD y).toNat = p - y.toNat := by
    rw [toNat_sub_of_le (by rw [toNat_Q_MOD]; exact hlt.2.le), toNat_Q_MOD]
  have hcast : ((sub Q_MOD y).toNat : Fp) = -(y.toNat : Fp) := by
    rw [hsub, Nat.cast_sub hlt.2.le, ZMod.natCast_self, zero_sub]
  have hneg := hcoords.neg
  rw [← hcast] at hneg
  obtain ⟨C, hC, hC'⟩ := decodePoint_of_onCurve hlt.1 (by rw [hsub]; omega) hneg.onCurve
  rw [hC, hC'.point_unique hneg]

/-- The difference of points, if the subtrahend is finite. -/
theorem pointSubAssign_spec (h1 : Slot p1) (h2 : Slot p2) (hA : PointAt mem p1 A)
    (hB : PointAt mem p2 B) (hfinite : B ≠ 0) :
    Reaches (fun fuel => pointSubAssign fuel p1 p2) mem fun _ mem' =>
      PointAt mem' p1 (A - B) ∧ Keeps (Apart p1) mem mem' := by
  obtain ⟨hy1, hx2, hy2⟩ := mload_addWords_next mem h1 h2 (mload mem p1)
    (mload mem (add p1 0x20)) (mload mem p2)
  have hneg := decodePoint_neg hB hfinite
  rw [sub_eq_add_neg]
  simp only [pointSubAssign, Reaches.load_bind, Reaches.store_bind, hy1, hx2, hy2]
  exact ⟨(), _, ends_success (staticcall_addWords hA hneg p1) _ _,
    pointAt_writeBytes _ _ h1.2, keeps_returned (keeps_addWords _ _ _ _ _) p1 _⟩

/-- A subtrahend at infinity is passed on with the modulus as a coordinate, which the call does
not accept. -/
theorem pointSubAssign_infinity (h1 : Slot p1) (h2 : Slot p2) (hB : PointAt mem p2 0) :
    Ends (fun fuel => pointSubAssign fuel p1 p2) mem
      (.error ⟨errorData 28 "pointSubAssign: ecAdd failed"⟩) := by
  obtain ⟨hy1, hx2, hy2⟩ := mload_addWords_next mem h1 h2 (mload mem p1)
    (mload mem (add p1 0x20)) (mload mem p2)
  have hwords := hB.words
  rw [pointWords_zero] at hwords
  obtain ⟨hx0, hy0⟩ : 0 = mload mem p2 ∧ 0 = mload mem (add p2 0x20) := by
    simpa using hwords
  simp only [pointSubAssign, Ends.load_bind, Ends.store_bind, hy1, hx2, hy2]
  rw [← hx0, ← hy0]
  have hsub : sub Q_MOD 0 = Q_MOD := by decide
  obtain ⟨m0, m1, m2, m3⟩ := mload_addWords mem (mload mem p1) (mload mem (add p1 0x20)) 0
    (sub Q_MOD 0)
  have hcarries := carries_four m0 m1 m2 m3
  have hburned := EcAdd.fallback_out_of_range (hcarries 0 _ rfl) (hcarries 1 _ rfl)
    (hcarries 2 _ rfl) (hcarries 3 _ rfl) (by rw [hsub]; decide) (by rw [hsub]; decide)
  have hcall : Ends (fun fuel => staticcall fuel 6 0 0x80 p1 0x40)
      (addWords mem (mload mem p1) (mload mem (add p1 0x20)) 0 (sub Q_MOD 0)) (.ok (0, _)) :=
    Ends.callContract_burned (hburned.congr fun fuel => precompile_ecAdd fuel _)
  refine Ends.bind hcall ?_
  have hzero : iszero (0 : Word) ≠ 0 := by decide
  simp only [if_pos hzero]
  exact revertWithMessage_ends _ _ _

/-- The multiple is left at the beginning of the memory, and read from there for the sum. -/
theorem pointMulAndAddIntoDest_spec (hpoint : Slot point) (hdest : Slot dest)
    (hA : PointAt mem point A) (hB : PointAt mem dest B) (s : Word) :
    Reaches (fun fuel => pointMulAndAddIntoDest fuel point s dest) mem fun _ mem' =>
      PointAt mem' dest (residue s • A + B) ∧ Keeps (Apart dest) mem mem' := by
  have hlow := hpoint.1
  have hnext := hpoint.toNat_next
  have hlow' := hdest.1
  have hnext' := hdest.toNat_next
  simp only [pointMulAndAddIntoDest, Reaches.load_bind, Reaches.store_bind]
  rw [mload_mstore_scratch mem _ (by decide) (by omega)]
  have hmul : Ends _ (mulWords mem (mload mem point) (mload mem (add point 0x20)) s) _ :=
    staticcall_mulWords hA s 0
  generalize hC : residue s • A = C at hmul ⊢
  generalize hmem₁ : writeBytes (mulWords mem (mload mem point) (mload mem (add point 0x20)) s) 0
    (encodePoint C) = mem₁ at hmul
  have hkeeps : Keeps Lasting mem mem₁ := by
    rw [← hmem₁]
    refine (keeps_mulWords _ _ _ _).writeBytes fun a ha => Or.inr ?_
    have h0 : (0 : Word).toNat = 0 := rfl
    rw [length_encodePoint, h0]
    rw [Lasting] at ha
    omega
  have hC₁ : PointAt mem₁ 0 C := by
    rw [← hmem₁]
    exact pointAt_writeBytes _ C (by decide)
  have hx : mload mem₁ dest = mload mem dest :=
    hkeeps.mload fun a h _ => by rw [Lasting]; omega
  have hy : mload mem₁ (add dest 0x20) = mload mem (add dest 0x20) :=
    hkeeps.mload fun a h _ => by rw [Lasting]; omega
  generalize hmem₂ : mstore (mstore mem₁ 0x40 (mload mem dest)) 0x60
    (mload mem (add dest 0x20)) = mem₂
  have hkeeps₂ : Keeps Lasting mem mem₂ := by
    rw [← hmem₂]
    exact keeps_mstore_scratch (keeps_mstore_scratch hkeeps _ (by decide)) _ (by decide)
  have hadd : Ends (fun fuel => staticcall fuel 6 0 0x80 dest 0x40) mem₂
      (.ok (1, writeBytes mem₂ dest (encodePoint (C + B)))) := by
    refine staticcall_ecAdd hC₁ hB ?_ ?_ ?_ ?_ dest
    · rw [← hmem₂, mload_mstore_of_disjoint _ _ (by decide),
        mload_mstore_of_disjoint _ _ (by decide)]
    · have hnext₀ : add (0 : Word) 0x20 = 0x20 := by decide
      rw [← hmem₂, mload_mstore_of_disjoint _ _ (by decide),
        mload_mstore_of_disjoint _ _ (by decide), hnext₀]
    · rw [← hmem₂, mload_mstore_of_disjoint _ _ (by decide), mload_mstore_self]
    · rw [← hmem₂, mload_mstore_self]
  refine ⟨(), writeBytes mem₂ dest (encodePoint (C + B)), Ends.bind hmul ?_,
    pointAt_writeBytes _ _ hdest.2, keeps_returned hkeeps₂ dest _⟩
  simp only [Ends.load_bind, Ends.store_bind]
  rw [hx, mload_mstore_scratch mem₁ _ (by decide) (by omega), hy, hmem₂]
  refine Ends.bind hadd ?_
  have hone : ¬iszero (and (1 : Word) 1) ≠ 0 := by decide
  simp only [if_neg hone]
  exact Ends.pure () _

/-- The opposite point, in place. -/
theorem pointNegate_spec (hpoint : Slot point) (hA : PointAt mem point A) :
    Reaches (fun _ => pointNegate point) mem fun _ mem' =>
      PointAt mem' point (-A) ∧ Keeps (Apart point) mem mem' := by
  have hlow := hpoint.1
  have hnext := hpoint.toNat_next
  simp only [pointNegate, Reaches.load_bind]
  by_cases hzero : A = 0
  · subst hzero
    have hwords := hA.words
    rw [pointWords_zero] at hwords
    obtain ⟨hx0, hy0⟩ : 0 = mload mem point ∧ 0 = mload mem (add point 0x20) := by
      simpa using hwords
    simp only [if_pos hy0.symm, Reaches.load_bind, ← hx0, ne_eq, not_true, if_false]
    exact Reaches.pure ⟨by rwa [neg_zero], Keeps.refl _ mem⟩
  · have hy : mload mem (add point 0x20) ≠ 0 := by
      intro hy
      rcases decodePoint_eq_some hA with ⟨-, h⟩ | ⟨-, -, hcoords⟩
      · exact hzero h
      · have h0 : (0 : Word).toNat = 0 := rfl
        rw [hy, h0, Nat.cast_zero] at hcoords
        exact g1_y_ne_zero _ hcoords.onCurve
    simp only [if_neg hy]
    refine Reaches.store ⟨?_, ?_⟩
    · rw [PointAt, mload_mstore_self, mload_mstore_of_disjoint _ _ (Or.inl (by omega))]
      exact decodePoint_neg hA hzero
    · refine (Keeps.refl _ mem).mstore _ fun a ha => ?_
      have h := ha.2
      omega

end Operations

/-! ## Sums -/

/-- A place that can be read while the sum at `dest` is computed. -/
def Clear (dest point : Word) : Prop :=
  Slot point ∧ Slot dest ∧ (point.toNat + 64 ≤ dest.toNat ∨ dest.toNat + 64 ≤ point.toNat)

instance (dest point : Word) : Decidable (Clear dest point) :=
  inferInstanceAs (Decidable (_ ∧ _ ∧ _))

theorem PointAt.keepApart {mem mem' : Memory} {dest point : Word} {A : g1.Point}
    (h : PointAt mem point A) (hkeeps : Keeps (Apart dest) mem mem') (hclear : Clear dest point) :
    PointAt mem' point A := by
  obtain ⟨⟨hlow, hend⟩, -, hdisjoint⟩ := hclear
  exact h.keep hkeeps (fun a h1 h2 => ⟨by omega, by omega⟩) hend

/-- Since the memory `mem₀` only the sum at the place has changed. -/
structure SumAt (mem₀ mem : Memory) (dest : Word) (S : g1.Point) : Prop where
  point : PointAt mem dest S
  keeps : Keeps (Apart dest) mem₀ mem

namespace SumAt

variable {mem₀ mem : Memory} {dest point s : Word} {S A : g1.Point} {x : ZMod r} {α : Type}
  {g : ℕ → Unit → Contract α} {Q : α → Memory → Prop}

theorem read (h : SumAt mem₀ mem dest S) (hA : PointAt mem₀ point A) (hclear : Clear dest point) :
    PointAt mem point A :=
  hA.keepApart h.keeps hclear

theorem mload_eq {slot : Word} (h : SumAt mem₀ mem dest S) (hlow : 0x200 ≤ slot.toNat)
    (hdisjoint : slot.toNat + 32 ≤ dest.toNat ∨ dest.toNat + 64 ≤ slot.toNat) :
    mload mem slot = mload mem₀ slot :=
  h.keeps.mload fun a h1 h2 => ⟨by omega, by omega⟩

/-- The sum begins with a multiple. -/
theorem mul_bind (hA : PointAt mem point A) (hclear : Clear dest point) (hs : IsScalar s x)
    (hg : ∀ mem', SumAt mem mem' dest (x • A) → Reaches (fun fuel => g fuel ()) mem' Q) :
    Reaches (fun fuel => pointMulIntoDest fuel point s dest >>= g fuel) mem Q := by
  refine (pointMulIntoDest_spec hclear.1 hclear.2.1 hA s).bind fun _ mem' ⟨hpoint, hkeeps⟩ => ?_
  rw [hs.smul] at hpoint
  exact hg mem' ⟨hpoint, hkeeps⟩

/-- The sum begins with a point, which is copied. -/
theorem copy_bind {pointY destY : Word} (hA : PointAt mem point A) (hclear : Clear dest point)
    (hpointY : pointY = add point 0x20) (hdestY : destY = add dest 0x20)
    (hg : ∀ mem', SumAt mem mem' dest A → Reaches (fun fuel => g fuel ()) mem' Q) :
    Reaches (fun fuel => load point >>= fun x => store dest x >>= fun _ =>
      load pointY >>= fun y => store destY y >>= g fuel) mem Q := by
  subst hpointY hdestY
  obtain ⟨hpoint, hdest, hdisjoint⟩ := hclear
  have hpnext := hpoint.toNat_next
  have hdnext := hdest.toNat_next
  rw [Reaches.load_bind, Reaches.store_bind, Reaches.load_bind, Reaches.store_bind,
    mload_mstore_of_disjoint _ _ (by omega)]
  refine hg _ ⟨?_, ?_⟩
  · rw [PointAt, mload_mstore_self, mload_mstore_of_disjoint _ _ (Or.inl (by omega)),
      mload_mstore_self]
    exact hA
  · refine ((Keeps.refl _ mem).mstore _ fun a ha => ?_).mstore _ fun a ha => ?_
    · have h := ha.2
      omega
    · have h := ha.2
      omega

/-- One more multiple. -/
theorem mulAdd_bind (h : SumAt mem₀ mem dest S) (hA : PointAt mem₀ point A)
    (hclear : Clear dest point) (hs : IsScalar s x)
    (hg : ∀ mem', SumAt mem₀ mem' dest (x • A + S) → Reaches (fun fuel => g fuel ()) mem' Q) :
    Reaches (fun fuel => pointMulAndAddIntoDest fuel point s dest >>= g fuel) mem Q := by
  refine (pointMulAndAddIntoDest_spec hclear.1 hclear.2.1 (h.read hA hclear) h.point s).bind
    fun _ mem' ⟨hpoint, hkeeps⟩ => ?_
  rw [hs.smul] at hpoint
  exact hg mem' ⟨hpoint, h.keeps.trans hkeeps⟩

/-- One more point. -/
theorem add_bind (h : SumAt mem₀ mem dest S) (hA : PointAt mem₀ point A)
    (hclear : Clear dest point)
    (hg : ∀ mem', SumAt mem₀ mem' dest (S + A) → Reaches (fun fuel => g fuel ()) mem' Q) :
    Reaches (fun fuel => pointAddAssign fuel dest point >>= g fuel) mem Q := by
  refine (pointAddAssign_spec hclear.2.1 hclear.1 h.point (h.read hA hclear)).bind
    fun _ mem' ⟨hpoint, hkeeps⟩ => ?_
  exact hg mem' ⟨hpoint, h.keeps.trans hkeeps⟩

theorem addInto_bind (h : SumAt mem₀ mem dest S) (hA : PointAt mem₀ point A)
    (hclear : Clear dest point)
    (hg : ∀ mem', SumAt mem₀ mem' dest (S + A) → Reaches (fun fuel => g fuel ()) mem' Q) :
    Reaches (fun fuel => pointAddIntoDest fuel dest point dest >>= g fuel) mem Q := by
  refine (pointAddIntoDest_spec hclear.2.1 hclear.1 hclear.2.1 h.point (h.read hA hclear)).bind
    fun _ mem' ⟨hpoint, hkeeps⟩ => ?_
  exact hg mem' ⟨hpoint, h.keeps.trans hkeeps⟩

/-- The sum is multiplied. -/
theorem scale (h : SumAt mem₀ mem dest S) (hdest : Slot dest) (hs : IsScalar s x) :
    Reaches (fun fuel => pointMulIntoDest fuel dest s dest) mem fun _ mem' =>
      SumAt mem₀ mem' dest (x • S) := by
  refine (pointMulIntoDest_spec hdest hdest h.point s).mono fun _ mem' ⟨hpoint, hkeeps⟩ => ?_
  rw [hs.smul] at hpoint
  exact ⟨hpoint, h.keeps.trans hkeeps⟩

/-- The last multiple. -/
theorem mulAdd (h : SumAt mem₀ mem dest S) (hA : PointAt mem₀ point A)
    (hclear : Clear dest point) (hs : IsScalar s x) :
    Reaches (fun fuel => pointMulAndAddIntoDest fuel point s dest) mem fun _ mem' =>
      SumAt mem₀ mem' dest (x • A + S) := by
  refine (pointMulAndAddIntoDest_spec hclear.1 hclear.2.1 (h.read hA hclear) h.point s).mono
    fun _ mem' ⟨hpoint, hkeeps⟩ => ?_
  rw [hs.smul] at hpoint
  exact ⟨hpoint, h.keeps.trans hkeeps⟩

end SumAt

end EraPrecompiles.Verifier
