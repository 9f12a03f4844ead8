import Mathlib.Tactic

/-!
# The 256-bit words of Yul and their opcodes

A Yul value is a 256-bit word.  The opcodes below are the ones the precompiles
use, under their Yul names; a comparison returns one of the words `0` and `1`,
and an `if` of the source tests a word against zero.

Every opcode comes with its reading as an operation on natural numbers.  For
the wrapping operations there is also a version for operands that do not wrap.
The comparisons are all of the form `boolWord p`, and `and`, `or`, `iszero` of
such words are again of that form; this is the simp set that turns the tests of
the source into propositions.
-/

namespace EraPrecompiles

/-- A Yul value. -/
abbrev Word := BitVec 256

/-- The word `1` when `p` holds, the word `0` otherwise. -/
def boolWord (p : Prop) [Decidable p] : Word :=
  if p then 1 else 0

def add (a b : Word) : Word := a + b

def sub (a b : Word) : Word := a - b

def mul (a b : Word) : Word := a * b

/-- Division; a zero divisor gives `0`. -/
def div (a b : Word) : Word := a / b

/-- Remainder; a zero divisor gives `0`, unlike `BitVec.umod`. -/
def mod (a b : Word) : Word :=
  if b = 0 then 0 else a % b

/-- The sum is not reduced modulo `2^256` before the remainder is taken. -/
def addmod (a b n : Word) : Word :=
  if n = 0 then 0 else BitVec.ofNat 256 ((a.toNat + b.toNat) % n.toNat)

def mulmod (a b n : Word) : Word :=
  if n = 0 then 0 else BitVec.ofNat 256 ((a.toNat * b.toNat) % n.toNat)

def lt (a b : Word) : Word := boolWord (a.toNat < b.toNat)

def gt (a b : Word) : Word := boolWord (b.toNat < a.toNat)

def eq (a b : Word) : Word := boolWord (a = b)

def iszero (a : Word) : Word := boolWord (a = 0)

def and (a b : Word) : Word := a &&& b

def or (a b : Word) : Word := a ||| b

/-- Yul takes the shift count first. -/
def shl (n a : Word) : Word :=
  if n.toNat < 256 then a <<< n.toNat else 0

def shr (n a : Word) : Word :=
  if n.toNat < 256 then a >>> n.toNat else 0

/-- Byte `n` of `a`, counted from the most significant one. -/
def byte (n a : Word) : Word :=
  if n.toNat < 32 then (a >>> (8 * (31 - n.toNat))) &&& 0xff else 0

/-- The compiler's `verbatim "mul_high"`: the upper word of the product. -/
def mulHigh (a b : Word) : Word :=
  BitVec.ofNat 256 (a.toNat * b.toNat / 2 ^ 256)

/-! ## Readings as natural numbers -/

theorem word_lt (a : Word) : a.toNat < 2 ^ 256 :=
  a.isLt

theorem word_ext {a b : Word} (h : a.toNat = b.toNat) : a = b :=
  BitVec.eq_of_toNat_eq h

theorem toNat_eq_zero {a : Word} : a.toNat = 0 ↔ a = 0 := by
  constructor
  · intro h
    exact word_ext h
  · rintro rfl
    rfl

theorem toNat_eq_one {a : Word} : a.toNat = 1 ↔ a = 1 := by
  constructor
  · intro h
    exact word_ext h
  · rintro rfl
    rfl

theorem toNat_ofNat (n : ℕ) :
    (BitVec.ofNat 256 n).toNat = n % 2 ^ 256 :=
  BitVec.toNat_ofNat n 256

theorem toNat_ofNat_of_lt {n : ℕ} (h : n < 2 ^ 256) :
    (BitVec.ofNat 256 n).toNat = n := by
  rw [toNat_ofNat, Nat.mod_eq_of_lt h]

theorem toNat_add (a b : Word) :
    (add a b).toNat = (a.toNat + b.toNat) % 2 ^ 256 :=
  BitVec.toNat_add a b

theorem toNat_add_of_lt {a b : Word} (h : a.toNat + b.toNat < 2 ^ 256) :
    (add a b).toNat = a.toNat + b.toNat := by
  rw [toNat_add, Nat.mod_eq_of_lt h]

theorem toNat_sub (a b : Word) :
    (sub a b).toNat = (2 ^ 256 - b.toNat + a.toNat) % 2 ^ 256 :=
  BitVec.toNat_sub a b

theorem toNat_sub_of_le {a b : Word} (h : b.toNat ≤ a.toNat) :
    (sub a b).toNat = a.toNat - b.toNat := by
  have ha := word_lt a
  rw [toNat_sub]
  omega

/-- A counter. -/
theorem toNat_add_one {a : Word} (h : a.toNat + 1 < 2 ^ 256) :
    (add a 1).toNat = a.toNat + 1 :=
  toNat_add_of_lt h

theorem toNat_sub_one {a : Word} (h : 0 < a.toNat) : (sub a 1).toNat = a.toNat - 1 :=
  toNat_sub_of_le h

theorem toNat_mul (a b : Word) :
    (mul a b).toNat = a.toNat * b.toNat % 2 ^ 256 :=
  BitVec.toNat_mul a b

theorem toNat_div (a b : Word) :
    (div a b).toNat = a.toNat / b.toNat :=
  BitVec.toNat_udiv

theorem toNat_mod (a : Word) {b : Word} (hb : b ≠ 0) :
    (mod a b).toNat = a.toNat % b.toNat := by
  rw [mod, if_neg hb]
  exact BitVec.toNat_umod

theorem toNat_addmod (a b : Word) {n : Word} (hn : n ≠ 0) :
    (addmod a b n).toNat = (a.toNat + b.toNat) % n.toNat := by
  have hpos : 0 < n.toNat :=
    Nat.pos_of_ne_zero fun h => hn (toNat_eq_zero.mp h)
  rw [addmod, if_neg hn]
  exact toNat_ofNat_of_lt ((Nat.mod_lt _ hpos).trans (word_lt n))

theorem toNat_mulmod (a b : Word) {n : Word} (hn : n ≠ 0) :
    (mulmod a b n).toNat = a.toNat * b.toNat % n.toNat := by
  have hpos : 0 < n.toNat :=
    Nat.pos_of_ne_zero fun h => hn (toNat_eq_zero.mp h)
  rw [mulmod, if_neg hn]
  exact toNat_ofNat_of_lt ((Nat.mod_lt _ hpos).trans (word_lt n))

theorem toNat_mulHigh (a b : Word) :
    (mulHigh a b).toNat = a.toNat * b.toNat / 2 ^ 256 := by
  refine toNat_ofNat_of_lt ?_
  have hab : a.toNat * b.toNat < 2 ^ 256 * 2 ^ 256 :=
    Nat.mul_lt_mul'' (word_lt a) (word_lt b)
  exact Nat.div_lt_of_lt_mul hab

/-- The two halves of a product make up the product. -/
theorem mulHigh_mul (a b : Word) :
    2 ^ 256 * (mulHigh a b).toNat + (mul a b).toNat = a.toNat * b.toNat := by
  rw [toNat_mulHigh, toNat_mul]
  exact Nat.div_add_mod _ _

theorem toNat_shl {n : Word} (a : Word) (hn : n.toNat < 256) :
    (shl n a).toNat = a.toNat * 2 ^ n.toNat % 2 ^ 256 := by
  rw [shl, if_pos hn, BitVec.toNat_shiftLeft, Nat.shiftLeft_eq]

theorem toNat_shr {n : Word} (a : Word) (hn : n.toNat < 256) :
    (shr n a).toNat = a.toNat / 2 ^ n.toNat := by
  rw [shr, if_pos hn, BitVec.toNat_ushiftRight, Nat.shiftRight_eq_div_pow]

theorem toNat_shr_one (a : Word) : (shr 1 a).toNat = a.toNat / 2 := by
  rw [toNat_shr a (by decide)]
  rfl

theorem toNat_and (a b : Word) : (and a b).toNat = a.toNat &&& b.toNat :=
  BitVec.toNat_and a b

theorem toNat_or (a b : Word) : (or a b).toNat = a.toNat ||| b.toNat :=
  BitVec.toNat_or a b

theorem toNat_and_one (a : Word) : (and a 1).toNat = a.toNat % 2 := by
  rw [toNat_and]
  exact Nat.and_one_is_mod _

/-! ## Tests -/

@[simp] theorem boolWord_true : boolWord True = 1 := rfl

@[simp] theorem boolWord_false : boolWord False = 0 := rfl

@[simp] theorem boolWord_eq_zero (p : Prop) [Decidable p] :
    boolWord p = 0 ↔ ¬p := by
  by_cases hp : p <;> simp [boolWord, hp]

theorem boolWord_ne_zero (p : Prop) [Decidable p] :
    boolWord p ≠ 0 ↔ p := by
  rw [ne_eq, boolWord_eq_zero, not_not]

theorem lt_ne_zero {a b : Word} : lt a b ≠ 0 ↔ a.toNat < b.toNat :=
  boolWord_ne_zero _

theorem gt_ne_zero {a b : Word} : gt a b ≠ 0 ↔ b.toNat < a.toNat :=
  boolWord_ne_zero _

@[simp] theorem boolWord_eq_one (p : Prop) [Decidable p] :
    boolWord p = 1 ↔ p := by
  by_cases hp : p <;> simp [boolWord, hp]

theorem boolWord_congr {p q : Prop} [Decidable p] [Decidable q]
    (h : p ↔ q) : boolWord p = boolWord q := by
  by_cases hp : p
  · simp [boolWord, hp, h.mp hp]
  · have hq : ¬q := fun hq => hp (h.mpr hq)
    simp [boolWord, hp, hq]

@[simp] theorem and_boolWord (p q : Prop) [Decidable p] [Decidable q] :
    and (boolWord p) (boolWord q) = boolWord (p ∧ q) := by
  by_cases hp : p <;> by_cases hq : q <;> simp [boolWord, and, hp, hq]

@[simp] theorem or_boolWord (p q : Prop) [Decidable p] [Decidable q] :
    or (boolWord p) (boolWord q) = boolWord (p ∨ q) := by
  by_cases hp : p <;> by_cases hq : q <;> simp [boolWord, or, hp, hq]

@[simp] theorem iszero_boolWord (p : Prop) [Decidable p] :
    iszero (boolWord p) = boolWord (¬p) := by
  by_cases hp : p <;> simp [boolWord, iszero, hp]

theorem toNat_boolWord (p : Prop) [Decidable p] :
    (boolWord p).toNat = if p then 1 else 0 := by
  by_cases hp : p <;> simp [boolWord, hp]

/-- A disjunction of bits is zero only if both words are. -/
theorem or_eq_zero {a b : Word} : or a b = 0 ↔ a = 0 ∧ b = 0 := by
  constructor
  · intro h
    have h' : a.toNat ||| b.toNat = 0 := by
      rw [← toNat_or, h]
      rfl
    rw [Nat.or_eq_zero_iff] at h'
    exact ⟨toNat_eq_zero.mp h'.1, toNat_eq_zero.mp h'.2⟩
  · rintro ⟨rfl, rfl⟩
    rfl

theorem or_zero_right (a : Word) : or a 0 = a :=
  BitVec.or_zero

/-- The lowest bit of a word, as the source tests it. -/
theorem and_one_eq_zero {a : Word} : and a 1 = 0 ↔ a.toNat % 2 = 0 := by
  rw [← toNat_eq_zero, toNat_and_one]

theorem iszero_and_one (a : Word) :
    iszero (and a 1) = boolWord (a.toNat % 2 = 0) :=
  boolWord_congr and_one_eq_zero

/-- `overflowingAdd` of the sources: the wrapped sum and the carry. -/
def overflowingAdd (augend addend : Word) : Word × Word :=
  let sum := add augend addend
  let overflowed := lt sum augend
  (sum, overflowed)

/-- The carry of `overflowingAdd` is the carry of the addition. -/
theorem overflowingAdd_snd (a b : Word) :
    (overflowingAdd a b).2 = boolWord (2 ^ 256 ≤ a.toNat + b.toNat) := by
  refine boolWord_congr ?_
  have ha := word_lt a
  have hb := word_lt b
  rw [toNat_add]
  omega

@[simp] theorem overflowingAdd_fst (a b : Word) :
    (overflowingAdd a b).1 = add a b := rfl

end EraPrecompiles
