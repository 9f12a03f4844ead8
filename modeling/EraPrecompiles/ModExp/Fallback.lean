import EraPrecompiles.ModExp.OneLimb
import EraPrecompiles.ModExp.SafePower

/-!
# Calls of ModExp

A call has an empty answer, takes the path for operands of one word, returns early, or
goes through the general path.  `fallback_refines` says when the answer is the power: on
the first three ways exactly outside of `0^0`, and on the general path if the reductions
of the exponentiation are safe.
-/

namespace EraPrecompiles.ModExp

/-! ## The operands of a call -/

namespace Call

variable (cd : Calldata)

def baseLen : Word := calldataload cd 0

def expLen : Word := calldataload cd 32

def modLen : Word := calldataload cd 64

def base : ℕ := callValue cd 96 (baseLen cd).toNat

def exponent : ℕ := callValue cd (96 + (baseLen cd).toNat) (expLen cd).toNat

def modulus : ℕ :=
  callValue cd (96 + (baseLen cd).toNat + (expLen cd).toNat) (modLen cd).toNat

/-- Neither base nor modulus has a byte. -/
def Empty : Prop := baseLen cd = 0 ∧ modLen cd = 0

/-- The three operands have 32 bytes each. -/
def OneLimb : Prop := baseLen cd = 32 ∧ expLen cd = 32 ∧ modLen cd = 32

/-- One of the early returns is taken. -/
def Early : Prop := modulus cd ≤ 1 ∨ base cd ≤ 1 ∨ exponent cd = 0

instance : Decidable (Early cd) :=
  inferInstanceAs (Decidable (_ ∨ _))

/-- What a call has to answer. -/
def Refines : Prop :=
  Yields (fun fuel => fallback fuel cd)
    (result (modLen cd) (eip198 (base cd) (exponent cd) (modulus cd)))

/-- Where it does: outside of `0^0` on the path for one word, and on the general path with
safe reductions. -/
def Safe : Prop :=
  Empty cd ∨
    (OneLimb cd ∧ ¬(base cd = 0 ∧ exponent cd = 0 ∧ 1 < modulus cd)) ∨
    (¬OneLimb cd ∧
      (Early cd ∨
        PowerSafe (2 * maxLimbs (baseLen cd) (expLen cd) (modLen cd)) (base cd) (exponent cd)
          (modulus cd)))

end Call

/-! ## The ways through the program -/

/-- The last bytes of a buffer. -/
theorem returnMem_end (mem : Memory) (ptr nLimbs len : Word) {v : ℕ}
    (hptr : ptr.toNat + 32 * nLimbs.toNat < 2 ^ 256) (hlen : len.toNat ≤ 32 * nLimbs.toNat)
    (hv : numAt mem ptr.toNat nLimbs.toNat = v) (hlt : v < 256 ^ len.toNat) :
    returnMem mem (sub (add ptr (shl 5 nLimbs)) len) len = result len v := by
  have hend : (add ptr (shl 5 nLimbs)).toNat = ptr.toNat + 32 * nLimbs.toNat :=
    toNat_limbPtr hptr
  have hstart : (sub (add ptr (shl 5 nLimbs)) len).toNat =
      ptr.toNat + (32 * nLimbs.toNat - len.toNat) := by
    rw [toNat_sub_of_le (by omega), hend]
    omega
  have hsplit : 32 * nLimbs.toNat = 32 * nLimbs.toNat - len.toNat + len.toNat := by omega
  rw [numAt, hsplit, beNat_add] at hv
  have hupper : beNat (fun i => mem (ptr.toNat + i)) (32 * nLimbs.toNat - len.toNat) = 0 := by
    refine Nat.eq_zero_of_not_pos fun hpos => ?_
    have hmul := Nat.le_mul_of_pos_left (256 ^ len.toNat) hpos
    omega
  rw [hupper, Nat.zero_mul, Nat.zero_add] at hv
  rw [returnMem_eq, result, hstart, ← hv]
  simp only [Nat.add_assoc]

section Ways

variable {cd : Calldata}

theorem empty_iff :
    and (iszero (calldataload cd 0)) (iszero (calldataload cd 64)) ≠ 0 ↔ Call.Empty cd := by
  rw [iszero, iszero, and_boolWord, boolWord_ne_zero, Call.Empty, Call.baseLen, Call.modLen]

theorem oneLimb_iff :
    and (and (eq (calldataload cd 0) 32) (eq (calldataload cd 32) 32))
      (eq (calldataload cd 64) 32) ≠ 0 ↔ Call.OneLimb cd := by
  rw [eq, eq, eq, and_boolWord, and_boolWord, boolWord_ne_zero, and_assoc, Call.OneLimb,
    Call.baseLen, Call.expLen, Call.modLen]

/-- The operands of the path for one word. -/
theorem oneLimb_operands (h : Call.OneLimb cd) :
    Call.base cd = (calldataload cd 96).toNat ∧ Call.exponent cd = (calldataload cd 128).toNat ∧
      Call.modulus cd = (calldataload cd 160).toNat := by
  obtain ⟨hbase, hexp, hmod⟩ := h
  have h32 : (32 : Word).toNat = 32 := rfl
  have h96 : (96 : Word).toNat = 96 := rfl
  have h128 : (128 : Word).toNat = 128 := rfl
  have h160 : (160 : Word).toNat = 160 := rfl
  rw [toNat_calldataload_eq, toNat_calldataload_eq, toNat_calldataload_eq, h96, h128, h160]
  refine ⟨?_, ?_, ?_⟩
  · rw [Call.base, hbase, h32]
  · rw [Call.exponent, hbase, hexp, h32]
  · rw [Call.modulus, hbase, hexp, hmod, h32]

theorem empty_refines (h : Call.Empty cd) : Call.Refines cd := by
  have hlen : Call.modLen cd = 0 := h.2
  have hanswer : result (Call.modLen cd)
      (eip198 (Call.base cd) (Call.exponent cd) (Call.modulus cd)) =
      returnMem Memory.zero 0 0 := by
    rw [hlen]
    rfl
  rw [Call.Refines, hanswer]
  refine Yields.of_eq fun fuel => ?_
  rw [fallback]
  exact if_pos (empty_iff.mpr h)

/-- The path for one word fails for `0^0` only. -/
theorem oneLimb_refines_iff (h : Call.OneLimb cd) :
    Call.Refines cd ↔
      ¬(Call.base cd = 0 ∧ Call.exponent cd = 0 ∧ 1 < Call.modulus cd) := by
  have hempty : ¬Call.Empty cd := by
    intro hempty
    rw [Call.Empty, h.1] at hempty
    exact absurd hempty.1 (by decide)
  have hpath : ∀ fuel, fallback fuel cd = oneLimbImplementation fuel cd := by
    intro fuel
    rw [fallback, if_neg (mt empty_iff.mp hempty), if_pos (oneLimb_iff.mpr h)]
  obtain ⟨hbase, hexp, hmod⟩ := oneLimb_operands h
  have hlen : Call.modLen cd = 32 := h.2.2
  rw [Call.Refines, hlen, hbase, hexp, hmod, toNat_eq_zero, toNat_eq_zero,
    ← oneLimb_agrees_iff, OneLimbAgrees]
  simp only [hpath]
  constructor
  · intro hpower
    refine ⟨hpower, fun answer hearly => ?_⟩
    rw [shortcuts_oneLimb hearly]
    exact hpower
  · exact fun hagree => hagree.1

/-- The early returns in the words of the call. -/
theorem shortcuts_call
    (hsum : 96 + (Call.baseLen cd).toNat + (Call.expLen cd).toNat + (Call.modLen cd).toNat <
      2 ^ 256) :
    Yields (fun fuel => shortcuts fuel cd (Call.baseLen cd) (Call.expLen cd) (Call.modLen cd))
      (if Call.Early cd then
        some (result (Call.modLen cd)
          (eip198 (Call.base cd) (Call.exponent cd) (Call.modulus cd)))
      else
        none) :=
  shortcuts_yields cd (Call.baseLen cd) (Call.expLen cd) (Call.modLen cd) hsum

variable (hempty : ¬Call.Empty cd) (hone : ¬Call.OneLimb cd)

include hempty hone

theorem fallback_yields_early {answer : Halt}
    (h : Yields (fun fuel => shortcuts fuel cd (Call.baseLen cd) (Call.expLen cd)
      (Call.modLen cd)) (some answer)) :
    Yields (fun fuel => fallback fuel cd) answer := by
  simp only [fallback, if_neg (mt empty_iff.mp hempty), if_neg (mt oneLimb_iff.mp hone)]
  exact h.bind (Yields.const _)

theorem fallback_yields_general {answer : Halt}
    (h : Yields (fun fuel => shortcuts fuel cd (Call.baseLen cd) (Call.expLen cd)
      (Call.modLen cd)) none)
    (hmulti : Yields (fun fuel => multiLimb fuel cd (Call.baseLen cd) (Call.expLen cd)
      (Call.modLen cd)) answer) :
    Yields (fun fuel => fallback fuel cd) answer := by
  simp only [fallback, if_neg (mt empty_iff.mp hempty), if_neg (mt oneLimb_iff.mp hone)]
  exact h.bind hmulti

theorem early_refines
    (hsum : 96 + (Call.baseLen cd).toNat + (Call.expLen cd).toNat + (Call.modLen cd).toNat <
      2 ^ 256) (hearly : Call.Early cd) : Call.Refines cd := by
  have hshort := shortcuts_call hsum
  rw [if_pos hearly] at hshort
  exact fallback_yields_early hempty hone hshort

/-- The general path with safe reductions. -/
theorem general_refines
    (hsum : 96 + (Call.baseLen cd).toNat + (Call.expLen cd).toNat + (Call.modLen cd).toNat <
      2 ^ 256)
    (hfits : LayoutFits (Call.baseLen cd) (Call.expLen cd) (Call.modLen cd))
    (hearly : ¬Call.Early cd)
    (hsafe : PowerSafe (2 * maxLimbs (Call.baseLen cd) (Call.expLen cd) (Call.modLen cd))
      (Call.base cd) (Call.exponent cd) (Call.modulus cd)) :
    Call.Refines cd := by
  have hshort := shortcuts_call hsum
  have hmodulus : 1 < Call.modulus cd := by
    rw [Call.Early] at hearly
    omega
  have hlimbs : (Call.modLen cd).toNat ≤
      32 * maxLimbs (Call.baseLen cd) (Call.expLen cd) (Call.modLen cd) := by
    have hle : (bigIntLimbs (Call.modLen cd)).1.toNat ≤
        maxLimbs (Call.baseLen cd) (Call.expLen cd) (Call.modLen cd) := le_max_right _ _
    rw [toNat_bigIntLimbs] at hle
    omega
  have hpos : 0 < maxLimbs (Call.baseLen cd) (Call.expLen cd) (Call.modLen cd) := by
    by_contra hzero
    have hlen : (Call.modLen cd).toNat = 0 := by omega
    have hlt := callValue_lt cd (96 + (Call.baseLen cd).toNat + (Call.expLen cd).toNat)
      (Call.modLen cd).toNat
    rw [hlen, pow_zero] at hlt
    rw [Call.modulus, hlen] at hmodulus
    omega
  obtain ⟨d, hdecode, hd, hmulti⟩ := decodeOperands_yields cd (Call.baseLen cd)
    (Call.expLen cd) (Call.modLen cd) hfits
  have L := hd.ready hfits hpos
  have hbase : d.value d.basePtr = Call.base cd := hd.base
  have hexponent : d.value d.exponentPtr = Call.exponent cd := hd.exponent
  have hmodulusEq : d.value d.modulusPtr = Call.modulus cd := hd.modulus
  rw [← hbase, ← hexponent, ← hmodulusEq] at hsafe
  rw [← hmodulusEq] at hmodulus
  obtain ⟨mem', hpower, hvalue⟩ := modularExponentiation_exact L hmodulus hsafe
  rw [hbase, hexponent, hmodulusEq] at hvalue
  rw [hmodulusEq] at hmodulus
  have hanswer : eip198 (Call.base cd) (Call.exponent cd) (Call.modulus cd) =
      Call.base cd ^ Call.exponent cd % Call.modulus cd := by
    rw [eip198, if_neg (by omega)]
  have hlt : Call.base cd ^ Call.exponent cd % Call.modulus cd <
      256 ^ (Call.modLen cd).toNat :=
    (Nat.mod_lt _ (by omega)).trans (callValue_lt cd _ _)
  obtain ⟨hh, hn, h₀, h₁, h₂, h₃, h₄, h₅, h₆, hend, -, -, -, -⟩ := L
  rw [if_neg hearly] at hshort
  rw [Call.Refines, hanswer]
  refine fallback_yields_general hempty hone hshort ?_
  simp only [hmulti]
  refine hdecode.bind (hpower.bind (Yields.of_eq fun _ => congrArg some ?_))
  exact returnMem_end mem' d.resultPtr d.nLimbs _ (by omega) (by omega) (by rw [hn]; exact hvalue)
    hlt

end Ways

/-! ## When the answer is the power -/

/-- The pointers into calldata do not wrap if the buffers fit. -/
theorem LayoutFits.sum_lt {baseLen expLen modLen : Word}
    (h : LayoutFits baseLen expLen modLen) :
    96 + baseLen.toNat + expLen.toNat + modLen.toNat < 2 ^ 256 := by
  have hbase : (bigIntLimbs baseLen).1.toNat ≤ maxLimbs baseLen expLen modLen :=
    le_max_of_le_left (le_max_left _ _)
  have hexp : (bigIntLimbs expLen).1.toNat ≤ maxLimbs baseLen expLen modLen :=
    le_max_of_le_left (le_max_right _ _)
  have hmod : (bigIntLimbs modLen).1.toNat ≤ maxLimbs baseLen expLen modLen := le_max_right _ _
  rw [LayoutFits, packedEnd] at h
  generalize maxLimbs baseLen expLen modLen = limbs at h hbase hexp hmod
  rw [toNat_bigIntLimbs] at h hbase hexp hmod
  rw [toNat_bigIntLimbs, toNat_bigIntLimbs] at h
  omega

/-- The answer is the power if the call is safe; on the ways other than the general path,
only then. -/
theorem fallback_refines (cd : Calldata)
    (hfits : LayoutFits (Call.baseLen cd) (Call.expLen cd) (Call.modLen cd)) :
    (Call.Safe cd → Call.Refines cd) ∧
      (Call.Empty cd ∨ Call.OneLimb cd ∨ Call.Early cd →
        (Call.Refines cd ↔ Call.Safe cd)) := by
  have hsum := hfits.sum_lt
  have hsafe : Call.Safe cd → Call.Refines cd := by
    rintro (hempty | ⟨hone, hcase⟩ | ⟨hone, hrest⟩)
    · exact empty_refines hempty
    · exact (oneLimb_refines_iff hone).mpr hcase
    · by_cases hempty : Call.Empty cd
      · exact empty_refines hempty
      · by_cases hearly : Call.Early cd
        · exact early_refines hempty hone hsum hearly
        · exact general_refines hempty hone hsum hfits hearly (hrest.resolve_left hearly)
  refine ⟨hsafe, fun hway => ⟨fun hrefines => ?_, hsafe⟩⟩
  by_cases hone : Call.OneLimb cd
  · exact Or.inr (Or.inl ⟨hone, (oneLimb_refines_iff hone).mp hrefines⟩)
  · rcases hway with hempty | hone' | hearly
    · exact Or.inl hempty
    · exact absurd hone' hone
    · exact Or.inr (Or.inr ⟨hone, Or.inl hearly⟩)

/-- The zeroth power of zero is answered with zero. -/
theorem fallback_not_refines :
    LayoutFits (Call.baseLen zeroPowerCall) (Call.expLen zeroPowerCall)
        (Call.modLen zeroPowerCall) ∧
      ¬Call.Refines zeroPowerCall := by
  obtain ⟨hbaseLen, hexpLen, hmodLen, hbase, hexp, hmod⟩ := zeroPowerCall_words
  have hone : Call.OneLimb zeroPowerCall := ⟨hbaseLen, hexpLen, hmodLen⟩
  obtain ⟨hbase', hexp', hmod'⟩ := oneLimb_operands hone
  refine ⟨?_, fun hrefines => ?_⟩
  · rw [Call.baseLen, Call.expLen, Call.modLen, hbaseLen, hexpLen, hmodLen]
    decide
  · refine (oneLimb_refines_iff hone).mp hrefines ⟨?_, ?_, ?_⟩
    · rw [hbase', hbase]
      rfl
    · rw [hexp', hexp]
      rfl
    · rw [hmod', hmod]
      decide

/-- The square of three modulo five. -/
theorem fallback_refines_small :
    Call.Refines smallCall ∧
      eip198 (Call.base smallCall) (Call.exponent smallCall) (Call.modulus smallCall) = 4 := by
  have hbase : Call.base smallCall = 3 := by decide
  have hexponent : Call.exponent smallCall = 2 := by decide
  have hmodulus : Call.modulus smallCall = 5 := by decide
  have hlimbs : maxLimbs (Call.baseLen smallCall) (Call.expLen smallCall)
      (Call.modLen smallCall) = 1 := by decide
  have hone : ¬Call.OneLimb smallCall := fun h => absurd h.1 (by decide)
  refine ⟨(fallback_refines smallCall (by decide)).1 (Or.inr (Or.inr ⟨hone, Or.inr ?_⟩)),
    ?_⟩
  · rw [hbase, hexponent, hmodulus, hlimbs]
    have hsize : Nat.size 2 = 2 := by decide
    refine ⟨by decide +kernel, ?_, ?_, ?_⟩
    · rw [hsize]
      decide +kernel
    · rw [hsize]
      decide
    · rw [hsize]
      intro i hi
      have hzero : i = 0 := by omega
      subst hzero
      decide +kernel
  · rw [hbase, hexponent, hmodulus]
    rfl

end EraPrecompiles.ModExp
