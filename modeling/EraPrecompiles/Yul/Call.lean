import EraPrecompiles.Yul.Memory
import Mathlib.Data.List.GetD

/-!
# Calls with words

A precompile is called with words, one after the other, and answers with words.  `Carries` says
that calldata begins with given words; the answer of one call, which is the bytes of words,
carries them to the next call.
-/

namespace EraPrecompiles

theorem length_flatMap_wordBytes (ws : List Word) :
    (ws.flatMap wordBytes).length = 32 * ws.length := by
  induction ws with
  | nil =>
      rfl
  | cons w ws ih =>
      rw [List.flatMap_cons, List.length_append, ih, List.length_cons, wordBytes,
        List.length_map, List.length_range]
      ring

/-- Byte `j` of word `i`. -/
theorem getD_flatMap_wordBytes {ws : List Word} {i j : ℕ} {w : Word} (hw : ws[i]? = some w)
    (hj : j < 32) (rest : List Byte) :
    (ws.flatMap wordBytes ++ rest).getD (32 * i + j) 0 = wordByte w j := by
  induction ws generalizing i with
  | nil =>
      cases hw
  | cons v ws ih =>
      have hlength : (wordBytes v).length = 32 := by
        rw [wordBytes, List.length_map, List.length_range]
      rw [List.flatMap_cons, List.append_assoc]
      cases i with
      | zero =>
          obtain rfl : v = w := Option.some.inj hw
          rw [List.getD_append _ _ _ _ (by omega), mul_zero, zero_add, wordBytes]
          simp [hj]
      | succ i =>
          have hindex : 32 * (i + 1) + j - 32 = 32 * i + j := by omega
          rw [List.getD_append_right _ _ _ _ (by omega), hlength, hindex]
          exact ih hw

/-- The calldata begins with the words. -/
def Carries (cd : Calldata) (ws : List Word) : Prop :=
  ∀ i w, ws[i]? = some w → calldataload cd (BitVec.ofNat 256 (32 * i)) = w

/-- The words of a call with five of them. -/
theorem Carries.five {cd : Calldata} {a b c d e : Word} (h : Carries cd [a, b, c, d, e]) :
    calldataload cd 0 = a ∧ calldataload cd 32 = b ∧ calldataload cd 64 = c ∧
      calldataload cd 96 = d ∧ calldataload cd 128 = e :=
  ⟨h 0 a rfl, h 1 b rfl, h 2 c rfl, h 3 d rfl, h 4 e rfl⟩

theorem carries_five (cd : Calldata) :
    Carries cd [calldataload cd 0, calldataload cd 32, calldataload cd 64, calldataload cd 96,
      calldataload cd 128] := by
  rintro (_ | _ | _ | _ | _ | i) w hw
  all_goals cases hw
  all_goals rfl

/-- Word `i` behind other bytes. -/
theorem calldataload_of_bytes {cd : Calldata} {front rest : List Byte} {ws : List Word}
    (h : cd.bytes = front ++ (ws.flatMap wordBytes ++ rest)) {i : ℕ} {w place : Word}
    (hw : ws[i]? = some w) (hplace : place.toNat = front.length + 32 * i) :
    calldataload cd place = w := by
  refine word_ext ?_
  rw [toNat_calldataload, hplace, ← beNat_wordByte w]
  refine beNat_congr fun j hj => ?_
  have hindex : front.length + 32 * i + j - front.length = 32 * i + j := by omega
  rw [Calldata.get, h, List.getD_append_right _ _ _ _ (by omega), hindex,
    getD_flatMap_wordBytes hw hj]

theorem carries_of_bytes {cd : Calldata} {ws : List Word} {rest : List Byte}
    (h : cd.bytes = ws.flatMap wordBytes ++ rest) : Carries cd ws := by
  intro i w hw
  have hlt : i < ws.length := (List.getElem?_eq_some_iff.mp hw).1
  have hlength := cd.length_lt
  rw [h, List.length_append, length_flatMap_wordBytes] at hlength
  refine calldataload_of_bytes ((List.nil_append _).trans h.symm).symm hw ?_
  rw [toNat_ofNat_of_lt (by omega), List.length_nil, Nat.zero_add]

/-- The calldata of the words. -/
def Calldata.ofWords (ws : List Word) (h : 32 * ws.length < 2 ^ 256) : Calldata where
  bytes := ws.flatMap wordBytes
  length_lt := by rwa [length_flatMap_wordBytes]

theorem carries_ofWords (ws : List Word) (h : 32 * ws.length < 2 ^ 256) :
    Carries (Calldata.ofWords ws h) ws :=
  carries_of_bytes (List.append_nil _).symm

end EraPrecompiles
