import EraPrecompiles.Arith.Pratt
import EraPrecompiles.Curve.ShortWeierstrass

/-!
# The reference scripts: arithmetic modulo a prime and affine points

The Python scripts compute with integers and reduce after every operation.  A point is a pair
of integers, with `(0, 0)` for the point at infinity.  The functions of this file stand in all
of the scripts, with the same text.

On residues the functions are the operations of the field (`residue`), and a pair of residues
stands for a point (`scriptPoint`) on curves that do not contain `(0, 0)`.
-/

namespace EraPrecompiles.Scripts

open ShortWeierstrass

/-- The exceptions a script can end with. -/
inductive Raised where
  | typeError
  | assertionError
deriving DecidableEq

/-! ## The functions -/

/-- Python's `pow(a, e, mod)`. -/
def modPow (a e mod : ℤ) : ℤ :=
  powMod mod.toNat (a % mod).toNat e.toNat

def isInfinity (x y : ℤ) : Bool :=
  x = 0 ∧ y = 0

def invMod (a mod : ℤ) : ℤ :=
  modPow a (mod - 2) mod

def addMod (a b mod : ℤ) : ℤ :=
  (a + b) % mod

def subMod (a b mod : ℤ) : ℤ :=
  addMod a (mod - b) mod

def mulMod (a b mod : ℤ) : ℤ :=
  (a * b) % mod

def divMod (a b mod : ℤ) : ℤ :=
  mulMod a (invMod b mod) mod

def isEven (x : ℤ) : Bool :=
  x % 2 = 0

/-! ## Residues -/

section Residues

variable {p : ℕ} [hp : Fact p.Prime]

/-- The integer between `0` and `p` that stands for a residue. -/
def residue (x : ZMod p) : ℤ :=
  x.val

theorem emod_eq_residue (v : ℤ) : v % p = residue (v : ZMod p) :=
  (ZMod.val_intCast v).symm

@[simp] theorem cast_residue (x : ZMod p) : ((residue x : ℤ) : ZMod p) = x := by
  rw [residue, Int.cast_natCast, ZMod.natCast_zmod_val]

omit hp in
theorem residue_nonneg (x : ZMod p) : 0 ≤ residue x :=
  Int.natCast_nonneg _

theorem residue_lt (x : ZMod p) : residue x < p :=
  Int.ofNat_lt.mpr (ZMod.val_lt x)

theorem residue_inj {x y : ZMod p} : residue x = residue y ↔ x = y := by
  rw [residue, residue, Int.ofNat_inj, ZMod.val_injective p |>.eq_iff]

@[simp] theorem residue_zero : residue (0 : ZMod p) = 0 := by
  rw [residue, ZMod.val_zero, Int.ofNat_zero]

theorem residue_eq_zero {x : ZMod p} : residue x = 0 ↔ x = 0 := by
  rw [← residue_zero (p := p), residue_inj]

theorem residue_natCast (k : ℕ) : residue (k : ZMod p) = (k % p : ℕ) := by
  rw [residue, ZMod.val_natCast]

@[simp] theorem addMod_residue (x y : ZMod p) :
    addMod (residue x) (residue y) p = residue (x + y) := by
  rw [addMod, emod_eq_residue, Int.cast_add, cast_residue, cast_residue]

@[simp] theorem subMod_residue (x y : ZMod p) :
    subMod (residue x) (residue y) p = residue (x - y) := by
  rw [subMod, addMod, emod_eq_residue]
  push_cast
  rw [cast_residue, cast_residue, ZMod.natCast_self, zero_sub, sub_eq_add_neg]

@[simp] theorem subMod_zero_residue (y : ZMod p) :
    subMod 0 (residue y) p = residue (-y) := by
  rw [← residue_zero (p := p), subMod_residue, zero_sub]

@[simp] theorem mulMod_residue (x y : ZMod p) :
    mulMod (residue x) (residue y) p = residue (x * y) := by
  rw [mulMod, emod_eq_residue, Int.cast_mul, cast_residue, cast_residue]

theorem mulMod_three_residue (x : ZMod p) : mulMod 3 (residue x) p = residue (3 * x) := by
  rw [mulMod, emod_eq_residue, Int.cast_mul, cast_residue, Int.cast_ofNat]

/-- The power, for any integers with an exponent that is not negative. -/
theorem modPow_eq (a : ℤ) (e : ℕ) : modPow a e p = residue ((a : ZMod p) ^ e) := by
  have hpos : (p : ℤ) ≠ 0 := Int.natCast_ne_zero.mpr hp.out.ne_zero
  have hbase : ((a % p).toNat : ZMod p) = a := by
    rw [← Int.cast_natCast, Int.toNat_of_nonneg (Int.emod_nonneg a hpos), ZMod.intCast_mod]
  have hlt : powMod p (a % p).toNat e < p := powModLoop_lt hp.out.pos _ _ _ _
  rw [modPow, Int.toNat_natCast, Int.toNat_natCast, ← hbase, ← powMod_zmod, residue_natCast,
    Nat.mod_eq_of_lt hlt]

/-- The power to `p - 2` is the inverse, and zero for zero. -/
theorem modPow_inv (h2 : 2 < p) (a : ℤ) : modPow a (p - 2) p = residue ((a : ZMod p)⁻¹) := by
  have hexp : ((p : ℤ) - 2) = (p - 2 : ℕ) := by omega
  rw [hexp, modPow_eq]
  congr 1
  by_cases ha : (a : ZMod p) = 0
  · rw [ha, inv_zero, zero_pow (by omega)]
  · refine eq_inv_of_mul_eq_one_left ?_
    have h1 : p - 2 + 1 = p - 1 := by omega
    rw [← pow_succ, h1]
    exact ZMod.pow_card_sub_one_eq_one ha

theorem divMod_residue (h2 : 2 < p) (x y : ZMod p) :
    divMod (residue x) (residue y) p = residue (x / y) := by
  rw [divMod, invMod, modPow_inv h2, cast_residue, mulMod_residue, div_eq_mul_inv]

end Residues

/-! ## Points -/

section Points

variable {p : ℕ} [hp : Fact p.Prime] {E : ShortWeierstrass (ZMod p)}

/-- The pair that stands for a point. -/
def scriptPoint : E.Point → ℤ × ℤ
  | .zero => (0, 0)
  | .some x y _ => (residue x, residue y)

theorem scriptPoint_zero : scriptPoint (0 : E.Point) = (0, 0) := rfl

theorem scriptPoint_of_coords {A : E.Point} {x y : ZMod p} (h : Coords A x y) :
    scriptPoint A = (residue x, residue y) := by
  obtain ⟨_, rfl⟩ := h
  rfl

theorem isInfinity_zero : isInfinity 0 0 = true := by
  decide

/-- A curve without `(0, 0)`: the pair `(0, 0)` stands for infinity only. -/
theorem isInfinity_of_coords (hb : E.b ≠ 0) {A : E.Point} {x y : ZMod p} (h : Coords A x y) :
    isInfinity (residue x) (residue y) = false := by
  rw [isInfinity, decide_eq_false_iff_not, residue_eq_zero, residue_eq_zero]
  rintro ⟨rfl, rfl⟩
  have hcurve := h.onCurve
  rw [OnCurve] at hcurve
  refine hb ?_
  linear_combination -hcurve

end Points

end EraPrecompiles.Scripts
