import EraPrecompiles.Yul.Word

/-!
# Memory, calldata and the end of a call

Memory maps addresses to bytes.  Addresses are natural numbers: the 32 bytes
of an `mload` or `mstore` at `p` are those at `p, ..., p + 31`, without wrapping.
Calldata is a byte string, read with zeros behind its end.

A call ends with returned bytes, or with all gas burned.
-/

namespace EraPrecompiles

abbrev Byte := BitVec 8

/-- The big-endian number of the first `n` bytes of `f`. -/
def beNat (f : ℕ → Byte) : ℕ → ℕ
  | 0 => 0
  | n + 1 => beNat f n * 256 + (f n).toNat

/-- The `len` low bytes of `n`, most significant first. -/
def beBytes (len n : ℕ) : List Byte :=
  (List.range len).map fun i => BitVec.ofNat 8 (n / 256 ^ (len - 1 - i))

/-- Byte `i` of a word, from the most significant one. -/
def wordByte (v : Word) (i : ℕ) : Byte :=
  BitVec.ofNat 8 (v.toNat / 256 ^ (31 - i))

abbrev Memory := ℕ → Byte

namespace Memory

/-- Memory as a call finds it. -/
def zero : Memory := fun _ => 0

end Memory

def mload (mem : Memory) (p : Word) : Word :=
  BitVec.ofNat 256 (beNat (fun i => mem (p.toNat + i)) 32)

def mstore (mem : Memory) (p v : Word) : Memory :=
  fun a =>
    if p.toNat ≤ a ∧ a < p.toNat + 32 then wordByte v (a - p.toNat) else mem a

def mstore8 (mem : Memory) (p v : Word) : Memory :=
  fun a => if a = p.toNat then BitVec.ofNat 8 v.toNat else mem a

/-- The bytes a call is made with; their number is a word. -/
structure Calldata where
  bytes : List Byte
  length_lt : bytes.length < 2 ^ 256

namespace Calldata

/-- Byte `i`, zero behind the end. -/
def get (cd : Calldata) (i : ℕ) : Byte :=
  cd.bytes.getD i 0

end Calldata

def calldatasize (cd : Calldata) : Word :=
  BitVec.ofNat 256 cd.bytes.length

def calldataload (cd : Calldata) (p : Word) : Word :=
  BitVec.ofNat 256 (beNat (fun i => cd.get (p.toNat + i)) 32)

def calldatacopy (mem : Memory) (cd : Calldata) (dst src len : Word) : Memory :=
  fun a =>
    if dst.toNat ≤ a ∧ a < dst.toNat + len.toNat then
      cd.get (src.toNat + (a - dst.toNat))
    else
      mem a

/-- How a call ends. -/
inductive Halt where
  | returned (data : List Byte)
  | burned
deriving DecidableEq

/-- `return(p, len)` -/
def returnMem (mem : Memory) (p len : Word) : Halt :=
  .returned ((List.range len.toNat).map fun i => mem (p.toNat + i))

/-! ## Big-endian numbers -/

theorem beNat_lt (f : ℕ → Byte) (n : ℕ) : beNat f n < 256 ^ n := by
  induction n with
  | zero =>
      simp [beNat]
  | succ n ih =>
      have hf : (f n).toNat < 256 := (f n).isLt
      rw [beNat, pow_succ]
      omega

theorem beNat_congr {f g : ℕ → Byte} {n : ℕ}
    (h : ∀ i, i < n → f i = g i) : beNat f n = beNat g n := by
  induction n with
  | zero =>
      rfl
  | succ n ih =>
      rw [beNat, beNat, ih fun i hi => h i (by omega), h n (by omega)]

/-- The number of a concatenation. -/
theorem beNat_add (f : ℕ → Byte) (m n : ℕ) :
    beNat f (m + n) =
      beNat f m * 256 ^ n + beNat (fun i => f (m + i)) n := by
  induction n with
  | zero =>
      simp [beNat]
  | succ n ih =>
      rw [← Nat.add_assoc, beNat, ih, beNat, pow_succ]
      ring

theorem beNat_zero (n : ℕ) : beNat (fun _ => 0) n = 0 := by
  induction n with
  | zero =>
      rfl
  | succ n ih =>
      rw [beNat, ih]
      rfl

theorem beNat_eq_zero {f : ℕ → Byte} {n : ℕ} :
    beNat f n = 0 ↔ ∀ i, i < n → f i = 0 := by
  constructor
  · intro h
    induction n with
    | zero =>
        intro i hi
        omega
    | succ n ih =>
        rw [beNat] at h
        have h₁ : beNat f n = 0 := by omega
        have h₂ : (f n).toNat = 0 := by omega
        intro i hi
        rcases Nat.lt_succ_iff_lt_or_eq.mp hi with hi | rfl
        · exact ih h₁ i hi
        · exact BitVec.eq_of_toNat_eq h₂
  · intro h
    rw [beNat_congr h, beNat_zero]

/-- The bytes of a number give the number back. -/
theorem beNat_digits (v len : ℕ) :
    beNat (fun i => BitVec.ofNat 8 (v / 256 ^ (len - 1 - i))) len =
      v % 256 ^ len := by
  induction len generalizing v with
  | zero =>
      simp [beNat, Nat.mod_one]
  | succ n ih =>
      have hcongr :
          beNat (fun i => BitVec.ofNat 8 (v / 256 ^ (n + 1 - 1 - i))) n =
            beNat (fun i => BitVec.ofNat 8 (v / 256 / 256 ^ (n - 1 - i))) n := by
        refine beNat_congr fun i hi => ?_
        have hexp : n + 1 - 1 - i = n - 1 - i + 1 := by omega
        rw [hexp, pow_succ, Nat.mul_comm, Nat.div_div_eq_div_mul]
      have hlast : n + 1 - 1 - n = 0 := by omega
      have hbyte : (BitVec.ofNat 8 v).toNat = v % 256 :=
        BitVec.toNat_ofNat v 8
      have hmod : v % (256 * 256 ^ n) = v % 256 + 256 * (v / 256 % 256 ^ n) :=
        Nat.mod_mul
      rw [beNat, hcongr, ih (v / 256), hlast, pow_zero, Nat.div_one, hbyte,
        pow_succ, Nat.mul_comm (256 ^ n) 256, hmod]
      ring

/-- The bytes of a region are the bytes of its number. -/
theorem beBytes_beNat (f : ℕ → Byte) (n : ℕ) :
    (List.range n).map f = beBytes n (beNat f n) := by
  refine List.map_congr_left fun i hi => ?_
  have hi' : i < n := List.mem_range.mp hi
  obtain ⟨k, rfl⟩ : ∃ k, n = i + 1 + k := ⟨n - (i + 1), by omega⟩
  have hexp : i + 1 + k - 1 - i = k := by omega
  rw [hexp, beNat_add, beNat]
  have hlow := beNat_lt (fun j => f (i + 1 + j)) k
  have hdiv :
      ((beNat f i * 256 + (f i).toNat) * 256 ^ k +
          beNat (fun j => f (i + 1 + j)) k) / 256 ^ k =
        beNat f i * 256 + (f i).toNat := by
    rw [Nat.add_comm, Nat.add_mul_div_right _ _ (by positivity),
      Nat.div_eq_of_lt hlow, Nat.zero_add]
  have hf : (f i).toNat < 2 ^ 8 := (f i).isLt
  rw [hdiv]
  refine BitVec.eq_of_toNat_eq ?_
  rw [BitVec.toNat_ofNat]
  omega

theorem beNat_wordByte (v : Word) : beNat (wordByte v) 32 = v.toNat := by
  have h := beNat_digits v.toNat 32
  rw [Nat.mod_eq_of_lt (v.isLt.trans_eq (by norm_num))] at h
  exact h

/-! ## Loads and stores -/

theorem toNat_mload (mem : Memory) (p : Word) :
    (mload mem p).toNat = beNat (fun i => mem (p.toNat + i)) 32 :=
  toNat_ofNat_of_lt ((beNat_lt _ 32).trans_eq (by norm_num))

theorem toNat_calldataload (cd : Calldata) (p : Word) :
    (calldataload cd p).toNat = beNat (fun i => cd.get (p.toNat + i)) 32 :=
  toNat_ofNat_of_lt ((beNat_lt _ 32).trans_eq (by norm_num))

theorem toNat_calldatasize (cd : Calldata) :
    (calldatasize cd).toNat = cd.bytes.length :=
  toNat_ofNat_of_lt cd.length_lt

theorem mstore_of_mem {mem : Memory} {p v : Word} {i : ℕ} (hi : i < 32) :
    mstore mem p v (p.toNat + i) = wordByte v i := by
  rw [mstore, if_pos ⟨by omega, by omega⟩, Nat.add_sub_cancel_left]

theorem mstore_of_not_mem {mem : Memory} {p v : Word} {a : ℕ}
    (ha : a < p.toNat ∨ p.toNat + 32 ≤ a) :
    mstore mem p v a = mem a := by
  rw [mstore, if_neg (by omega)]

theorem mload_mstore_self (mem : Memory) (p v : Word) :
    mload (mstore mem p v) p = v := by
  refine word_ext ?_
  rw [toNat_mload, beNat_congr fun i hi => mstore_of_mem hi]
  exact beNat_wordByte v

/-- The word at `a` is the one that the calldata has there. -/
def Mirrors (cd : Calldata) (mem : Memory) (a : ℕ) : Prop :=
  ∀ i, i < 32 → mem (a + i) = cd.get (a + i)

theorem mirrors_calldatacopy (cd : Calldata) (mem : Memory) (q : Word) :
    Mirrors cd (calldatacopy mem cd q q 32) q.toNat := by
  intro i hi
  have h32 : (32 : Word).toNat = 32 := rfl
  rw [calldatacopy, if_pos ⟨by omega, by omega⟩, Nat.add_sub_cancel_left]

/-- More words copied to their own places. -/
theorem Mirrors.copy {cd : Calldata} {mem : Memory} {a : ℕ} (h : Mirrors cd mem a)
    (q len : Word) : Mirrors cd (calldatacopy mem cd q q len) a := by
  intro i hi
  rw [calldatacopy]
  split
  · next hq => rw [Nat.add_sub_cancel' hq.1]
  · exact h i hi

theorem Mirrors.mload_eq {cd : Calldata} {mem : Memory} {q : Word}
    (h : Mirrors cd mem q.toNat) : mload mem q = calldataload cd q := by
  rw [mload, calldataload, beNat_congr h]

theorem wordByte_zero (i : ℕ) : wordByte 0 i = 0 := by
  rw [wordByte, toNat_eq_zero.mpr rfl, Nat.zero_div]
  rfl

theorem mstore_zero (p : Word) : mstore Memory.zero p 0 = Memory.zero := by
  funext a
  rw [mstore, wordByte_zero, Memory.zero, ite_self]

/-- The returned bytes are those of the number in the region. -/
theorem returnMem_eq (mem : Memory) (p len : Word) :
    returnMem mem p len =
      .returned (beBytes len.toNat (beNat (fun i => mem (p.toNat + i)) len.toNat)) := by
  rw [returnMem, ← beBytes_beNat]

theorem beBytes_injOn {len v w : ℕ} (hv : v < 256 ^ len) (hw : w < 256 ^ len)
    (h : beBytes len v = beBytes len w) : v = w := by
  have hbytes := List.map_inj_left.mp h
  have hv' := beNat_digits v len
  have hw' := beNat_digits w len
  rw [beNat_congr fun i hi => hbytes i (List.mem_range.mpr hi), hw',
    Nat.mod_eq_of_lt hv, Nat.mod_eq_of_lt hw] at hv'
  exact hv'.symm

/-! ## Returning words -/

/-- The 32 bytes of a word. -/
def wordBytes (w : Word) : List Byte :=
  (List.range 32).map (wordByte w)

theorem wordBytes_injective : Function.Injective wordBytes := by
  intro v w h
  have hbytes := List.map_inj_left.mp h
  refine word_ext ?_
  rw [← beNat_wordByte v, ← beNat_wordByte w]
  exact beNat_congr fun i hi => hbytes i (List.mem_range.mpr hi)

theorem flatMap_wordBytes_inj
    {vs ws : List Word} (hlen : vs.length = ws.length)
    (h : vs.flatMap wordBytes = ws.flatMap wordBytes) : vs = ws := by
  induction vs generalizing ws with
  | nil =>
      exact (List.length_eq_zero_iff.mp hlen.symm).symm
  | cons v vs ih =>
      cases ws with
      | nil => simp at hlen
      | cons w ws =>
          rw [List.flatMap_cons, List.flatMap_cons] at h
          have hlength : (wordBytes v).length = (wordBytes w).length := by
            simp [wordBytes]
          obtain ⟨hhead, htail⟩ := List.append_inj h hlength
          rw [wordBytes_injective hhead, ih (by simpa using hlen) htail]

/-- Stores words one after the other. -/
def storeWords (mem : Memory) (p : ℕ) : List Word → Memory
  | [] => mem
  | w :: ws => storeWords (mstore mem (BitVec.ofNat 256 p) w) (p + 32) ws

theorem storeWords_below
    (ws : List Word) {mem : Memory} {p a : ℕ}
    (hp : p + 32 * ws.length < 2 ^ 256) (ha : a < p) :
    storeWords mem p ws a = mem a := by
  induction ws generalizing mem p with
  | nil =>
      rfl
  | cons w ws ih =>
      rw [List.length_cons] at hp
      rw [storeWords, ih (by omega) (by omega)]
      refine mstore_of_not_mem (Or.inl ?_)
      rw [toNat_ofNat_of_lt (by omega)]
      exact ha

theorem map_range_add (f : ℕ → Byte) (m n : ℕ) :
    (List.range (m + n)).map f =
      (List.range m).map f ++ (List.range n).map fun i => f (m + i) := by
  rw [List.range_add, List.map_append, List.map_map]
  rfl

/-- Words stored one after the other are returned one after the other. -/
theorem map_storeWords
    (ws : List Word) (mem : Memory) (p : ℕ) (hp : p + 32 * ws.length < 2 ^ 256) :
    (List.range (32 * ws.length)).map (fun i => storeWords mem p ws (p + i)) =
      ws.flatMap wordBytes := by
  induction ws generalizing mem p with
  | nil =>
      rfl
  | cons w ws ih =>
      rw [List.length_cons] at hp ⊢
      have hlen : 32 * (ws.length + 1) = 32 + 32 * ws.length := by ring
      have hpn : (BitVec.ofNat 256 p).toNat = p := toNat_ofNat_of_lt (by omega)
      rw [hlen, map_range_add, List.flatMap_cons]
      congr 1
      · refine List.map_congr_left fun i hi => ?_
        have hi' : i < 32 := List.mem_range.mp hi
        rw [storeWords, storeWords_below ws (by omega) (by omega)]
        have hmem : mstore mem (BitVec.ofNat 256 p) w ((BitVec.ofNat 256 p).toNat + i) =
            wordByte w i := mstore_of_mem hi'
        rw [hpn] at hmem
        exact hmem
      · rw [← ih (mstore mem (BitVec.ofNat 256 p) w) (p + 32) (by omega)]
        refine List.map_congr_left fun i _ => ?_
        rw [storeWords, Nat.add_assoc]

theorem returnMem_storeWords
    (ws : List Word) (mem : Memory) (hlen : 32 * ws.length < 2 ^ 256) :
    returnMem (storeWords mem 0 ws) 0 (BitVec.ofNat 256 (32 * ws.length)) =
      .returned (ws.flatMap wordBytes) := by
  rw [returnMem, toNat_ofNat_of_lt hlen, ← map_storeWords ws mem 0 (by omega)]
  rfl

end EraPrecompiles
