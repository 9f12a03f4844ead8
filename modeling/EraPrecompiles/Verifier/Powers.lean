import EraPrecompiles.Verifier.Points

/-!
# Powers modulo `r`

The verifier computes powers and inverses with ModExp, on its path for operands of one word.  That
path gives zero for the zeroth power of zero, but the verifier has no use for it.
-/

namespace EraPrecompiles.Verifier

open Bn254

/-! ## The call -/

theorem wordBytes_eq (w : Word) : wordBytes w = beBytes 32 w.toNat := rfl

theorem precompile_modExp (fuel : ℕ) (cd : Calldata) :
    precompile fuel 5 cd = ModExp.fallback fuel cd := by
  rw [precompile, if_pos (by decide)]

/-- What ModExp answers for three operands of one word. -/
theorem modExp_words {cd : Calldata} {value power modulus : Word}
    (h : Carries cd [0x20, 0x20, 0x20, value, power, modulus]) :
    Yields (fun fuel => ModExp.fallback fuel cd)
      (ModExp.result 32
        (if value = 0 then 0 else ModExp.eip198 value.toNat power.toNat modulus.toNat)) := by
  have h0 : calldataload cd 0 = 0x20 := h 0 _ rfl
  have h1 : calldataload cd 32 = 0x20 := h 1 _ rfl
  have h2 : calldataload cd 64 = 0x20 := h 2 _ rfl
  have h3 : calldataload cd 96 = value := h 3 _ rfl
  have h4 : calldataload cd 128 = power := h 4 _ rfl
  have h5 : calldataload cd 160 = modulus := h 5 _ rfl
  have hone : ModExp.Call.OneLimb cd := ⟨h0, h1, h2⟩
  have hempty : ¬ModExp.Call.Empty cd := by
    intro hempty
    rw [ModExp.Call.Empty, hone.1] at hempty
    exact absurd hempty.1 (by decide)
  have hpath := ModExp.oneLimbImplementation_yields cd
  rw [h3, h4, h5] at hpath
  refine hpath.congr fun fuel => ?_
  rw [ModExp.fallback, if_neg (mt ModExp.empty_iff.mp hempty), if_pos (ModExp.oneLimb_iff.mpr hone)]

section Powers

variable {mem : Memory}

/-- The words of a call of ModExp. -/
def powerWords (mem : Memory) (value power : Word) : Memory :=
  mstore (mstore (mstore (mstore (mstore (mstore mem 0 0x20) 0x20 0x20) 0x40 0x20) 0x60 value)
    0x80 power) 0xa0 R_MOD

theorem carries_powerWords (mem : Memory) (value power : Word) :
    Carries (memCalldata (powerWords mem value power) 0 0xc0)
      [0x20, 0x20, 0x20, value, power, R_MOD] := by
  refine carries_memCalldata le_rfl (by decide) fun i w hw => ?_
  match i, hw with
  | 0, rfl =>
      show mload (powerWords mem value power) 0 = 0x20
      simp (disch := decide) only [powerWords, mload_mstore_of_disjoint, mload_mstore_self]
  | 1, rfl =>
      show mload (powerWords mem value power) 0x20 = 0x20
      simp (disch := decide) only [powerWords, mload_mstore_of_disjoint, mload_mstore_self]
  | 2, rfl =>
      show mload (powerWords mem value power) 0x40 = 0x20
      simp (disch := decide) only [powerWords, mload_mstore_of_disjoint, mload_mstore_self]
  | 3, rfl =>
      show mload (powerWords mem value power) 0x60 = value
      simp (disch := decide) only [powerWords, mload_mstore_of_disjoint, mload_mstore_self]
  | 4, rfl =>
      show mload (powerWords mem value power) 0x80 = power
      simp (disch := decide) only [powerWords, mload_mstore_of_disjoint, mload_mstore_self]
  | 5, rfl =>
      show mload (powerWords mem value power) 0xa0 = R_MOD
      simp (disch := decide) only [powerWords, mload_mstore_self]

/-- What the call writes, as a word. -/
theorem mload_power (mem : Memory) {v : ℕ} (hv : v < 2 ^ 256) :
    mload (writeBytes mem 0 ((beBytes 32 v).take (0x20 : Word).toNat)) 0 =
      BitVec.ofNat 256 v := by
  have hlen : (beBytes 32 v).length ≤ (0x20 : Word).toNat := by
    rw [beBytes, List.length_map, List.length_range]
    decide
  have hbytes : beBytes 32 v = [BitVec.ofNat 256 v].flatMap wordBytes := by
    rw [List.flatMap_singleton, wordBytes_eq, toNat_ofNat_of_lt hv]
  rw [List.take_of_length_le hlen, hbytes]
  exact mload_writeBytes mem (i := 0) rfl rfl

theorem keeps_powerWords (mem : Memory) (value power : Word) :
    Keeps Lasting mem (powerWords mem value power) :=
  keeps_mstore_scratch (keeps_mstore_scratch (keeps_mstore_scratch (keeps_mstore_scratch
    (keeps_mstore_scratch (keeps_mstore_scratch (Keeps.refl Lasting mem) _ (by decide)) _
      (by decide)) _ (by decide)) _ (by decide)) _ (by decide)) _ (by decide)

/-- The power of a residue, for an exponent other than zero. -/
theorem modexp_spec (mem : Memory) {value power : Word} {x : ZMod r} (hx : residue value = x)
    (hpower : power ≠ 0) :
    Reaches (fun fuel => modexp fuel value power) mem fun w mem' =>
      IsScalar w (x ^ power.toNat) ∧ Keeps Lasting mem mem' := by
  generalize hv : (if value = 0 then 0 else
    ModExp.eip198 value.toNat power.toNat R_MOD.toNat) = v
  have hpos : power.toNat ≠ 0 := mt toNat_eq_zero.mp hpower
  have hlt : v < r := by
    rw [← hv]
    split
    · exact prime_r.out.pos
    · rw [toNat_R_MOD, ModExp.eip198, if_neg prime_r.out.ne_zero]
      exact Nat.mod_lt _ prime_r.out.pos
  have hcast : (v : ZMod r) = x ^ power.toNat := by
    rw [← hv, ← hx]
    split
    · next h0 =>
        have hzero : residue value = 0 := by
          rw [h0]
          exact Nat.cast_zero
        rw [hzero, zero_pow hpos, Nat.cast_zero]
    · rw [toNat_R_MOD, ModExp.eip198, if_neg prime_r.out.ne_zero, ZMod.natCast_mod, Nat.cast_pow]
      rfl
  have hv256 : v < 2 ^ 256 := hlt.trans (by decide)
  have hyields := (modExp_words (carries_powerWords mem value power)).congr
    fun fuel => precompile_modExp fuel _
  rw [hv, ModExp.result] at hyields
  have hcall : Ends (fun fuel => staticcall fuel 0x5 0 0xc0 0x00 0x20)
      (powerWords mem value power) _ := Ends.callContract_returned hyields
  simp only [modexp, Reaches.store_bind]
  refine ⟨BitVec.ofNat 256 v, writeBytes (powerWords mem value power) 0
    ((beBytes 32 v).take (0x20 : Word).toNat), Ends.bind hcall ?_, ⟨?_, ?_⟩, ?_⟩
  · have hone : ¬iszero (1 : Word) ≠ 0 := by decide
    simp only [if_neg hone]
    have hload := mload_power (powerWords mem value power) hv256
    rw [← hload]
    exact Ends.load _ _
  · rw [residue, toNat_ofNat_of_lt hv256, hcast]
  · rwa [toNat_ofNat_of_lt hv256]
  · refine (keeps_powerWords mem value power).writeBytes fun a ha => Or.inr ?_
    have h0 : (0 : Word).toNat = 0 := rfl
    have hlen : (beBytes 32 v).length = 32 := by
      rw [beBytes, List.length_map, List.length_range]
    rw [List.length_take, hlen, h0]
    rw [Lasting] at ha
    omega

end Powers

end EraPrecompiles.Verifier
