import EraPrecompiles.Arith.Limbs
import EraPrecompiles.Yul.Memory
import Mathlib.Order.CompletePartialOrder

/-!
# Numbers in memory

A number of any length lies in memory as a big-endian sequence of words, its limbs.
`wordAt mem a` is the word at the address `a`, and `numAt mem a n` the number in the
`n` limbs from `a` on; `region a n` are the addresses of its bytes.

`Frame S` says that no byte outside of `S` has changed: what lies in a region disjoint
from `S` is the same as before.
-/

namespace EraPrecompiles

def wordAt (mem : Memory) (a : ℕ) : Word :=
  BitVec.ofNat 256 (beNat (fun i => mem (a + i)) 32)

def numAt (mem : Memory) (a n : ℕ) : ℕ :=
  beNat (fun i => mem (a + i)) (32 * n)

/-- The addresses of `n` words. -/
def region (a n : ℕ) : Set ℕ :=
  Set.Ico a (a + 32 * n)

instance (a n b : ℕ) : Decidable (b ∈ region a n) :=
  inferInstanceAs (Decidable (a ≤ b ∧ b < a + 32 * n))

/-- Only bytes of `S` have changed. -/
def Frame (S : Set ℕ) (mem mem' : Memory) : Prop :=
  ∀ b, b ∉ S → mem' b = mem b

/-! ## Words -/

theorem mload_eq_wordAt (mem : Memory) {p : Word} {a : ℕ} (hp : p.toNat = a) :
    mload mem p = wordAt mem a := by
  rw [mload, hp, wordAt]

theorem toNat_wordAt (mem : Memory) (a : ℕ) :
    (wordAt mem a).toNat = beNat (fun i => mem (a + i)) 32 :=
  toNat_ofNat_of_lt ((beNat_lt _ 32).trans_eq (by norm_num))

theorem toNat_wordAt_eq_numAt (mem : Memory) (a : ℕ) :
    (wordAt mem a).toNat = numAt mem a 1 :=
  toNat_wordAt mem a

theorem wordAt_mstore_self (mem : Memory) {p : Word} {a : ℕ} (hp : p.toNat = a) (v : Word) :
    wordAt (mstore mem p v) a = v := by
  rw [← mload_eq_wordAt _ hp, mload_mstore_self]

/-! ## Numbers -/

theorem pow_32 (n : ℕ) : 256 ^ (32 * n) = 2 ^ (256 * n) := by
  rw [pow_mul, pow_mul]
  norm_num

section Numbers

variable (mem : Memory) (a : ℕ)

theorem numAt_lt (n : ℕ) : numAt mem a n < 2 ^ (256 * n) := by
  rw [← pow_32]
  exact beNat_lt _ _

theorem numAt_none : numAt mem a 0 = 0 :=
  rfl

theorem numAt_add (m n : ℕ) :
    numAt mem a (m + n) = numAt mem a m * 2 ^ (256 * n) + numAt mem (a + 32 * m) n := by
  rw [numAt, Nat.mul_add, beNat_add, pow_32, numAt, numAt]
  simp only [Nat.add_assoc]

/-- A number and its lowest limb. -/
theorem numAt_succ (n : ℕ) :
    numAt mem a (n + 1) =
      numAt mem a n * 2 ^ 256 + (wordAt mem (a + 32 * n)).toNat := by
  rw [numAt_add, Nat.mul_one, toNat_wordAt_eq_numAt]

/-- A number and its highest limb. -/
theorem numAt_succ_left (n : ℕ) :
    numAt mem a (n + 1) =
      (wordAt mem a).toNat * 2 ^ (256 * n) + numAt mem (a + 32) n := by
  rw [Nat.add_comm n 1, numAt_add, Nat.mul_one, toNat_wordAt_eq_numAt]

/-- The lower limbs of a number. -/
theorem numAt_mod (m n : ℕ) :
    numAt mem a (m + n) % 2 ^ (256 * n) = numAt mem (a + 32 * m) n := by
  rw [numAt_add, Nat.mul_add_mod_self_right, Nat.mod_eq_of_lt (numAt_lt mem _ n)]

/-- The upper limbs of a number. -/
theorem numAt_div (m n : ℕ) :
    numAt mem a (m + n) / 2 ^ (256 * n) = numAt mem a m := by
  rw [numAt_add, Nat.add_comm, Nat.add_mul_div_right _ _ (by positivity),
    Nat.div_eq_of_lt (numAt_lt mem _ n), Nat.zero_add]

/-- The limb of weight `2 ^ (256 * i)`. -/
theorem toNat_wordAt_limb {n i : ℕ} (hi : i < n) :
    (wordAt mem (a + 32 * (n - 1 - i))).toNat = limb (2 ^ 256) (numAt mem a n) i := by
  obtain ⟨m, rfl⟩ : ∃ m, n = m + 1 + i := ⟨n - 1 - i, by omega⟩
  have hindex : m + 1 + i - 1 - i = m := by omega
  rw [hindex, limb, ← pow_mul, numAt_div, numAt_succ, Nat.mul_add_mod_self_right,
    Nat.mod_eq_of_lt (word_lt _)]

end Numbers

theorem numAt_congr {mem mem' : Memory} {a n : ℕ}
    (h : ∀ b, b ∈ region a n → mem' b = mem b) : numAt mem' a n = numAt mem a n :=
  beNat_congr fun i hi => h (a + i) ⟨by omega, by omega⟩

theorem numAt_eq_zero {mem : Memory} {a n : ℕ} :
    numAt mem a n = 0 ↔ ∀ b, b ∈ region a n → mem b = 0 := by
  rw [numAt, beNat_eq_zero]
  constructor
  · rintro h b ⟨hab, hb⟩
    obtain ⟨i, rfl⟩ := Nat.exists_eq_add_of_le hab
    exact h i (by omega)
  · intro h i hi
    exact h (a + i) ⟨by omega, by omega⟩

/-- The same number is the same bytes. -/
theorem byte_eq_of_numAt_eq {mem mem' : Memory} {a b n : ℕ}
    (h : numAt mem' a n = numAt mem b n) {i : ℕ} (hi : i < 32 * n) :
    mem' (a + i) = mem (b + i) := by
  have hbytes : beBytes (32 * n) (numAt mem' a n) = beBytes (32 * n) (numAt mem b n) := by
    rw [h]
  rw [numAt, numAt, ← beBytes_beNat, ← beBytes_beNat] at hbytes
  exact List.map_inj_left.mp hbytes i (List.mem_range.mpr hi)

theorem numAt_inj {mem mem' : Memory} {a n : ℕ} (h : numAt mem' a n = numAt mem a n) :
    ∀ b, b ∈ region a n → mem' b = mem b := by
  rintro b ⟨hab, hb⟩
  obtain ⟨i, rfl⟩ := Nat.exists_eq_add_of_le hab
  exact byte_eq_of_numAt_eq h (by omega)

theorem wordAt_congr {mem mem' : Memory} {a : ℕ}
    (h : ∀ b, b ∈ region a 1 → mem' b = mem b) : wordAt mem' a = wordAt mem a := by
  refine word_ext ?_
  rw [toNat_wordAt_eq_numAt, toNat_wordAt_eq_numAt, numAt_congr h]

/-! ## Regions -/

theorem mem_region {a n b : ℕ} : b ∈ region a n ↔ a ≤ b ∧ b < a + 32 * n :=
  Iff.rfl

theorem disjoint_region {a n b m : ℕ} (h : a + 32 * n ≤ b ∨ b + 32 * m ≤ a) :
    Disjoint (region a n) (region b m) := by
  rw [Set.disjoint_left]
  rintro c ⟨hac, hc⟩ ⟨hbc, hc'⟩
  omega

/-- Buffers of `n` words one behind the other. -/
theorem pairwise_disjoint_region (o n : ℕ) {l : List ℕ} (hl : l.Nodup) :
    (l.map fun j => o + 32 * (j * n)).Pairwise fun a b => Disjoint (region a n) (region b n) := by
  have hbehind : ∀ {i j : ℕ}, i < j → i * n + n ≤ j * n := by
    intro i j hij
    calc i * n + n = (i + 1) * n := (Nat.succ_mul i n).symm
      _ ≤ j * n := Nat.mul_le_mul_right n hij
  refine List.pairwise_map.mpr (hl.imp fun {i j} hij => disjoint_region ?_)
  rcases Nat.lt_or_gt_of_ne hij with hlt | hgt
  · have hle := hbehind hlt
    omega
  · have hle := hbehind hgt
    omega

theorem disjoint_region_iff {a n b m : ℕ} (hn : 0 < n) (hm : 0 < m) :
    Disjoint (region a n) (region b m) ↔ a + 32 * n ≤ b ∨ b + 32 * m ≤ a := by
  refine ⟨fun h => ?_, disjoint_region⟩
  by_contra hlt
  rw [Set.disjoint_left] at h
  rcases Nat.le_total a b with hab | hab
  · exact h (a := b) ⟨hab, by omega⟩ ⟨le_rfl, by omega⟩
  · exact h (a := a) ⟨le_rfl, by omega⟩ ⟨hab, by omega⟩

theorem region_subset {a n b m : ℕ} (hb : b ≤ a) (hn : a + 32 * n ≤ b + 32 * m) :
    region a n ⊆ region b m :=
  Set.Ico_subset_Ico hb hn

/-! ## Frames -/

namespace Frame

variable {S T : Set ℕ} {mem mem' mem'' : Memory}

theorem refl (S : Set ℕ) (mem : Memory) : Frame S mem mem :=
  fun _ _ => rfl

theorem trans (h : Frame S mem mem') (h' : Frame S mem' mem'') : Frame S mem mem'' :=
  fun b hb => (h' b hb).trans (h b hb)

theorem mono (h : Frame S mem mem') (hST : S ⊆ T) : Frame T mem mem' :=
  fun b hb => h b fun hS => hb (hST hS)

theorem union (h : Frame S mem mem') (h' : Frame T mem' mem'') : Frame (S ∪ T) mem mem'' :=
  (h.mono Set.subset_union_left).trans (h'.mono Set.subset_union_right)

/-- A number whose bytes have not changed. -/
theorem numAt_eq (h : Frame S mem mem') {a n : ℕ} (hd : Disjoint (region a n) S) :
    numAt mem' a n = numAt mem a n :=
  numAt_congr fun b hb => h b (Set.disjoint_left.mp hd hb)

theorem wordAt_eq (h : Frame S mem mem') {a : ℕ} (hd : Disjoint (region a 1) S) :
    wordAt mem' a = wordAt mem a :=
  wordAt_congr fun b hb => h b (Set.disjoint_left.mp hd hb)

/-- The last word of a region is the same as before. -/
theorem of_succ {a n : ℕ} (h : Frame (region a (n + 1)) mem mem')
    (hlast : wordAt mem' (a + 32 * n) = wordAt mem (a + 32 * n)) :
    Frame (region a n) mem mem' := by
  intro b hb
  by_cases hin : b ∈ region (a + 32 * n) 1
  · refine numAt_inj ?_ b hin
    rw [← toNat_wordAt_eq_numAt, ← toNat_wordAt_eq_numAt, hlast]
  · refine h b ?_
    rw [mem_region] at hb hin ⊢
    omega

end Frame

theorem frame_mstore (mem : Memory) {p : Word} {a : ℕ} (hp : p.toNat = a) (v : Word) :
    Frame (region a 1) mem (mstore mem p v) := by
  intro b hb
  rw [mem_region] at hb
  exact mstore_of_not_mem (by omega)

/-- A store behind a number makes its new lowest limb. -/
theorem numAt_mstore_succ (mem : Memory) {p : Word} {a n : ℕ} (hp : p.toNat = a + 32 * n)
    (v : Word) :
    numAt (mstore mem p v) a (n + 1) = numAt mem a n * 2 ^ 256 + v.toNat := by
  rw [numAt_succ, wordAt_mstore_self mem hp,
    (frame_mstore mem hp v).numAt_eq (disjoint_region (Or.inl le_rfl))]

/-- A store before a number makes its new highest limb. -/
theorem numAt_mstore_left (mem : Memory) {p : Word} {a n : ℕ} (hp : p.toNat = a)
    (v : Word) :
    numAt (mstore mem p v) a (n + 1) =
      v.toNat * 2 ^ (256 * n) + numAt mem (a + 32) n := by
  rw [numAt_succ_left, wordAt_mstore_self mem hp,
    (frame_mstore mem hp v).numAt_eq (disjoint_region (Or.inr le_rfl))]

/-! ## The addresses of limbs -/

theorem toNat_shl_five {i : Word} (hi : 32 * i.toNat < 2 ^ 256) :
    (shl 5 i).toNat = 32 * i.toNat := by
  have h5 : (5 : Word).toNat = 5 := rfl
  rw [toNat_shl i (by decide), h5]
  omega

theorem toNat_limbPtr {p i : Word} (h : p.toNat + 32 * i.toNat < 2 ^ 256) :
    (add p (shl 5 i)).toNat = p.toNat + 32 * i.toNat := by
  have hshl := toNat_shl_five (i := i) (by omega)
  rw [toNat_add_of_lt (by omega), hshl]

end EraPrecompiles
