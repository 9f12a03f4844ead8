import EraPrecompiles.ModExp.Fallback
import EraPrecompiles.Precompiles.EcAddG2
import EraPrecompiles.Precompiles.EcMulG2
import EraPrecompiles.Precompiles.EcPairing
import EraPrecompiles.Precompiles.P256VERIFY
import EraPrecompiles.Precompiles.PointCalls
import EraPrecompiles.Precompiles.Secp256k1VERIFY
import EraPrecompiles.Verifier.Layout
import EraPrecompiles.Yul.Caller

/-!
# Calls of the verifier

The functions of the verifier that call a precompile: powers modulo `r`, and the operations on
points that stand in memory.  Scalars are residues modulo `r`, which is the order of the group of
points, so that points have them as coefficients.
-/

namespace EraPrecompiles.Verifier

open Bn254 ShortWeierstrass

/-! ## The program -/

/-- The contracts at the addresses of the precompiles; calls to other contracts are not part of
the model. -/
def precompile (fuel : ℕ) (address : Word) (cd : Calldata) : Option Halt :=
  if address = 0x05 then
    ModExp.fallback fuel cd
  else if address = 0x06 then
    EcAdd.fallback fuel cd
  else if address = 0x07 then
    EcMul.fallback fuel cd
  else if address = 0x08 then
    EcPairing.fallback fuel cd
  else if address = 0x0A then
    EcAddG2.fallback fuel cd
  else if address = 0x0B then
    EcMulG2.fallback fuel cd
  else if address = 0x19 then
    P256VERIFY.fallback fuel cd
  else if address = 0x20 then
    Secp256k1VERIFY.fallback fuel cd
  else
    none

def staticcall (fuel : ℕ) (address inp insize out outsize : Word) : Contract Word :=
  callContract (precompile fuel address) inp insize out outsize

/-- A string literal as a word: its characters from the most significant byte on. -/
def stringWord (s : String) : Word :=
  BitVec.ofNat 256 (beNat (fun i => BitVec.ofNat 8 ((s.toList.map Char.toNat).getD i 0)) 32)

/-- Reverts with the encoding of `Error(string)`. -/
def revertWithMessage (len : Word) (reason : String) : Contract Unit := do
  store 0x00 0x08c379a000000000000000000000000000000000000000000000000000000000
  store 0x04 0x0000000000000000000000000000000000000000000000000000000000000020
  store 0x24 len
  store 0x44 (stringWord reason)
  revertMem 0x00 0x64

def modexp (fuel : ℕ) (value power : Word) : Contract Word := do
  store 0x00 0x20
  store 0x20 0x20
  store 0x40 0x20
  store 0x60 value
  store 0x80 power
  store 0xa0 R_MOD
  let success ← staticcall fuel 0x5 0 0xc0 0x00 0x20
  if iszero success ≠ 0 then
    revertWithMessage 24 "modexp precompile failed"
  load 0x00

def pointMulIntoDest (fuel : ℕ) (point s dest : Word) : Contract Unit := do
  store 0x00 (← load point)
  store 0x20 (← load (add point 0x20))
  store 0x40 s
  let success ← staticcall fuel 7 0 0x60 dest 0x40
  if iszero success ≠ 0 then
    revertWithMessage 30 "pointMulIntoDest: ecMul failed"

def pointAddIntoDest (fuel : ℕ) (p1 p2 dest : Word) : Contract Unit := do
  store 0x00 (← load p1)
  store 0x20 (← load (add p1 0x20))
  store 0x40 (← load p2)
  store 0x60 (← load (add p2 0x20))
  let success ← staticcall fuel 6 0x00 0x80 dest 0x40
  if iszero success ≠ 0 then
    revertWithMessage 30 "pointAddIntoDest: ecAdd failed"

def pointSubAssign (fuel : ℕ) (p1 p2 : Word) : Contract Unit := do
  store 0x00 (← load p1)
  store 0x20 (← load (add p1 0x20))
  store 0x40 (← load p2)
  store 0x60 (sub Q_MOD (← load (add p2 0x20)))
  let success ← staticcall fuel 6 0x00 0x80 p1 0x40
  if iszero success ≠ 0 then
    revertWithMessage 28 "pointSubAssign: ecAdd failed"

def pointAddAssign (fuel : ℕ) (p1 p2 : Word) : Contract Unit := do
  store 0x00 (← load p1)
  store 0x20 (← load (add p1 0x20))
  store 0x40 (← load p2)
  store 0x60 (← load (add p2 0x20))
  let success ← staticcall fuel 6 0x00 0x80 p1 0x40
  if iszero success ≠ 0 then
    revertWithMessage 28 "pointAddAssign: ecAdd failed"

def pointMulAndAddIntoDest (fuel : ℕ) (point s dest : Word) : Contract Unit := do
  store 0x00 (← load point)
  store 0x20 (← load (add point 0x20))
  store 0x40 s
  let success ← staticcall fuel 7 0 0x60 0 0x40
  store 0x40 (← load dest)
  store 0x60 (← load (add dest 0x20))
  let success := and success (← staticcall fuel 6 0x00 0x80 dest 0x40)
  if iszero success ≠ 0 then
    revertWithMessage 22 "pointMulAndAddIntoDest"

def pointNegate (point : Word) : Contract Unit := do
  let pY ← load (add point 0x20)
  if pY = 0 then
    if (← load point) ≠ 0 then
      revertWithMessage 26 "pointNegate: invalid point"
  else
    store (add point 0x20) (sub Q_MOD pY)

/-! ## Reverts -/

/-- The encoding of `Error(string)` with a string of at most 32 bytes. -/
def errorData (len : Word) (reason : String) : List Byte :=
  [0x08, 0xc3, 0x79, 0xa0] ++ [0x20, len, stringWord reason].flatMap wordBytes

theorem revertWithMessage_ends (len : Word) (reason : String) (mem : Memory) :
    Ends (fun _ => revertWithMessage len reason) mem (.error ⟨errorData len reason⟩) := by
  simp only [revertWithMessage, Ends.store_bind]
  generalize hsel : mstore mem 0
    0x08c379a000000000000000000000000000000000000000000000000000000000 = mem₀
  have hrevert := @Ends.revertMem Unit 0x00 0x64 (storeWords mem₀ 4 [0x20, len, stringWord reason])
  have hdata : memBytes (storeWords mem₀ 4 [0x20, len, stringWord reason]) 0x00 0x64 =
      errorData len reason := by
    have h0 : (0x00 : Word).toNat = 0 := rfl
    have h100 : (0x64 : Word).toNat = 4 + 32 * [(0x20 : Word), len, stringWord reason].length := rfl
    rw [memBytes, h0, h100, map_range_add, errorData]
    refine congrArg₂ (· ++ ·) ?_ ?_
    · have hbyte : ∀ i ∈ List.range 4,
          storeWords mem₀ 4 [0x20, len, stringWord reason] (0 + i) = wordByte
            0x08c379a000000000000000000000000000000000000000000000000000000000 i := by
        intro i hi
        have hi' := List.mem_range.mp hi
        have hbelow : storeWords mem₀ 4 [0x20, len, stringWord reason] (0 + i) = mem₀ (0 + i) :=
          storeWords_below _ (by simp) (by omega)
        rw [hbelow, ← hsel]
        exact mstore_of_mem (by omega)
      rw [List.map_congr_left hbyte]
      decide
    · rw [← map_storeWords [0x20, len, stringWord reason] mem₀ 4 (by simp)]
      refine List.map_congr_left fun i _ => ?_
      rw [Nat.zero_add]
  rw [hdata] at hrevert
  exact hrevert

/-! ## Residues -/

/-- A word as a residue modulo `r`. -/
def residue (w : Word) : ZMod r :=
  w.toNat

theorem R_MOD_ne_zero : R_MOD ≠ 0 := by
  decide

theorem toNat_R_MOD : R_MOD.toNat = r := by
  decide

theorem toNat_Q_MOD : Q_MOD.toNat = p := by
  decide

@[simp] theorem residue_mulmod (a b : Word) :
    residue (mulmod a b R_MOD) = residue a * residue b := by
  rw [residue, toNat_mulmod a b R_MOD_ne_zero, toNat_R_MOD, ZMod.natCast_mod, Nat.cast_mul]
  rfl

@[simp] theorem residue_addmod (a b : Word) :
    residue (addmod a b R_MOD) = residue a + residue b := by
  rw [residue, toNat_addmod a b R_MOD_ne_zero, toNat_R_MOD, ZMod.natCast_mod, Nat.cast_add]
  rfl

/-- The difference to the modulus, for a word that does not exceed it. -/
theorem residue_sub_R_MOD {a : Word} (ha : a.toNat ≤ r) :
    residue (sub R_MOD a) = -residue a := by
  have hle : a.toNat ≤ R_MOD.toNat := by rwa [toNat_R_MOD]
  rw [residue, toNat_sub_of_le hle, toNat_R_MOD, Nat.cast_sub ha, ZMod.natCast_self, zero_sub]
  rfl

theorem mulmod_lt (a b : Word) : (mulmod a b R_MOD).toNat < r := by
  rw [toNat_mulmod a b R_MOD_ne_zero, toNat_R_MOD]
  exact Nat.mod_lt _ prime_r.out.pos

theorem addmod_lt (a b : Word) : (addmod a b R_MOD).toNat < r := by
  rw [toNat_addmod a b R_MOD_ne_zero, toNat_R_MOD]
  exact Nat.mod_lt _ prime_r.out.pos

theorem residue_one : residue 1 = 1 :=
  Nat.cast_one

/-- Points have residues modulo the order of their group as coefficients. -/
noncomputable instance : Module (ZMod r) g1.Point :=
  AddCommGroup.zmodModule (nsmul_eq_zero_of_card card_g1)

theorem residue_smul (w : Word) (A : g1.Point) : residue w • A = w.toNat • A :=
  Nat.cast_smul_eq_nsmul (ZMod r) w.toNat A

/-! ## Reduced residues -/

/-- The word is the residue, reduced. -/
structure IsScalar (w : Word) (x : ZMod r) : Prop where
  residue_eq : residue w = x
  lt : w.toNat < r

namespace IsScalar

variable {a b : Word} {x y : ZMod r}

theorem congr (h : IsScalar a x) (hxy : x = y) : IsScalar a y :=
  hxy ▸ h

theorem mul (ha : IsScalar a x) (hb : IsScalar b y) : IsScalar (mulmod a b R_MOD) (x * y) where
  residue_eq := by
    rw [residue_mulmod, ha.residue_eq, hb.residue_eq]
  lt := mulmod_lt a b

theorem add (ha : IsScalar a x) (hb : IsScalar b y) : IsScalar (addmod a b R_MOD) (x + y) where
  residue_eq := by
    rw [residue_addmod, ha.residue_eq, hb.residue_eq]
  lt := addmod_lt a b

theorem residue_neg (ha : IsScalar a x) : residue (sub R_MOD a) = -x := by
  rw [residue_sub_R_MOD ha.lt.le, ha.residue_eq]

theorem sub (ha : IsScalar a x) (hb : IsScalar b y) :
    IsScalar (addmod a (sub R_MOD b) R_MOD) (x - y) where
  residue_eq := by
    rw [residue_addmod, ha.residue_eq, hb.residue_neg, sub_eq_add_neg]
  lt := addmod_lt _ _

/-- The opposite of zero is the modulus itself, so it is reduced only by what follows. -/
theorem neg_sub (ha : IsScalar a x) (hb : IsScalar b y) :
    IsScalar (addmod (EraPrecompiles.sub R_MOD a) (EraPrecompiles.sub R_MOD b) R_MOD)
      (-x - y) where
  residue_eq := by
    rw [residue_addmod, ha.residue_neg, hb.residue_neg, sub_eq_add_neg]
  lt := addmod_lt _ _

theorem neg_mul (ha : IsScalar a x) (hb : IsScalar b y) :
    IsScalar (mulmod (EraPrecompiles.sub R_MOD a) b R_MOD) (-x * y) where
  residue_eq := by
    rw [residue_mulmod, ha.residue_neg, hb.residue_eq]
  lt := mulmod_lt _ _

theorem one : IsScalar 1 1 where
  residue_eq := residue_one
  lt := by decide

theorem zero : IsScalar 0 0 where
  residue_eq := Nat.cast_zero
  lt := by decide

/-- Two words with the same residue are equal. -/
theorem eq_iff (ha : IsScalar a x) (hb : IsScalar b y) : a = b ↔ x = y := by
  constructor
  · rintro rfl
    exact ha.residue_eq.symm.trans hb.residue_eq
  · rintro rfl
    have h : (a.toNat : ZMod r) = b.toNat := ha.residue_eq.trans hb.residue_eq.symm
    have hmod := (ZMod.natCast_eq_natCast_iff' _ _ _).mp h
    rw [Nat.mod_eq_of_lt ha.lt, Nat.mod_eq_of_lt hb.lt] at hmod
    exact word_ext hmod

theorem eq_zero_iff (ha : IsScalar a x) : a = 0 ↔ x = 0 :=
  ha.eq_iff zero

theorem smul (ha : IsScalar a x) (A : g1.Point) : residue a • A = x • A := by
  rw [ha.residue_eq]

end IsScalar

/-- The mask leaves fewer bits than the modulus has. -/
theorem isScalar_masked (w : Word) : IsScalar (and w FR_MASK) (residue (and w FR_MASK)) where
  residue_eq := rfl
  lt := by
    rw [toNat_and]
    exact lt_of_le_of_lt Nat.and_le_right (by decide)

/-! ## Points in memory -/

/-- The two words at the place are the encoding of the point. -/
def PointAt (mem : Memory) (slot : Word) (A : g1.Point) : Prop :=
  decodePoint (mload mem slot) (mload mem (add slot 0x20)) = some A

section Points

variable {mem mem' : Memory} {slot : Word} {A : g1.Point}

theorem PointAt.words (h : PointAt mem slot A) :
    pointWords A = [mload mem slot, mload mem (add slot 0x20)] :=
  pointWords_of_decode h

/-- A point is kept with its 64 bytes. -/
theorem PointAt.keep {S : ℕ → Prop} (h : PointAt mem slot A) (hS : Keeps S mem mem')
    (hslot : ∀ a, slot.toNat ≤ a → a < slot.toNat + 64 → S a)
    (hend : slot.toNat + 64 < 2 ^ 256) : PointAt mem' slot A := by
  have h20 : (0x20 : Word).toNat = 32 := rfl
  have hnext : (add slot 0x20).toNat = slot.toNat + 32 := by
    rw [toNat_add_of_lt (by omega), h20]
  rw [PointAt, hS.mload fun a h1 h2 => hslot a h1 (by omega),
    hS.mload fun a h1 h2 => hslot a (by omega) (by omega)]
  exact h

/-- The words that a call returned. -/
theorem pointAt_writeBytes (mem : Memory) (A : g1.Point) (hend : slot.toNat + 64 < 2 ^ 256) :
    PointAt (writeBytes mem slot (encodePoint A)) slot A := by
  obtain ⟨x, y, hwords, hdecode⟩ := decodePoint_pointWords A
  have h20 : (0x20 : Word).toNat = 32 := rfl
  have hx : mload (writeBytes mem slot ([x, y].flatMap wordBytes)) slot = x :=
    mload_writeBytes mem (i := 0) rfl rfl
  have hy : mload (writeBytes mem slot ([x, y].flatMap wordBytes)) (add slot 0x20) = y :=
    mload_writeBytes mem (i := 1) rfl (by rw [toNat_add_of_lt (by omega), h20])
  rw [PointAt, encodePoint, hwords, hx, hy]
  exact hdecode

theorem length_encodePoint (A : g1.Point) : (encodePoint A).length = 64 := by
  obtain ⟨x, y, hwords, -⟩ := decodePoint_pointWords A
  rw [encodePoint, hwords, length_flatMap_wordBytes]
  rfl

end Points

end EraPrecompiles.Verifier
