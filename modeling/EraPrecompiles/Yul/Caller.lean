import EraPrecompiles.Yul.Call
import EraPrecompiles.Yul.Iteration

/-!
# Contracts

A contract computes on a memory of its own, may call other contracts with bytes of its memory, and
may revert.  A call that burns its gas is answered with `0` and leaves the memory as it is; a call
that returns is answered with `1`, and what it returns is copied to the memory.

`Ends` says how a contract ends from a given memory.  It is for contracts what `Yields` is for
calls, and its rules follow the steps of the contract.  `Reaches` is the triple for total
correctness: the contract does not revert, and its value and its memory meet the postcondition.
-/

namespace EraPrecompiles

/-- The data a contract reverts with. -/
structure Reverted where
  data : List Byte
deriving DecidableEq

/-- Steps of a contract with a value. -/
abbrev Contract : Type → Type :=
  StateT Memory (ExceptT Reverted Option)

/-! ## Steps -/

/-- `mload`, as a step. -/
def load (p : Word) : Contract Word := do
  return mload (← get) p

/-- `mstore`, as a step. -/
def store (p v : Word) : Contract Unit :=
  modify fun mem => mstore mem p v

/-- `mstore8`, as a step. -/
def store8 (p v : Word) : Contract Unit :=
  modify fun mem => mstore8 mem p v

/-- The bytes of the memory from `p` on. -/
def memBytes (mem : Memory) (p len : Word) : List Byte :=
  (List.range len.toNat).map fun i => mem (p.toNat + i)

/-- `revert(p, len)` -/
def revertMem {α : Type} (p len : Word) : Contract α := do
  throw ⟨memBytes (← get) p len⟩

/-- `keccak256`, for a hash function of the bytes. -/
def hashMem (hash : List Byte → Word) (p len : Word) : Contract Word := do
  return hash (memBytes (← get) p len)

/-- The memory with bytes written from `p` on. -/
def writeBytes (mem : Memory) (p : Word) (bytes : List Byte) : Memory :=
  fun a =>
    if p.toNat ≤ a ∧ a < p.toNat + bytes.length then bytes.getD (a - p.toNat) 0 else mem a

theorem length_memBytes (mem : Memory) (p len : Word) :
    (memBytes mem p len).length = len.toNat := by
  rw [memBytes, List.length_map, List.length_range]

/-- The calldata of a call with bytes of the memory. -/
def memCalldata (mem : Memory) (p len : Word) : Calldata where
  bytes := memBytes mem p len
  length_lt := by
    rw [length_memBytes]
    exact len.isLt

/-- `staticcall`, for a contract that ends as `run` says. -/
def callContract (run : Calldata → Option Halt) (inp insize out outsize : Word) :
    Contract Word :=
  fun mem => ExceptT.mk <|
    match run (memCalldata mem inp insize) with
    | none => none
    | some (.returned data) =>
        some (.ok (1, writeBytes mem out (data.take outsize.toNat)))
    | some .burned => some (.ok (0, mem))

/-! ## Memory -/

/-- The two memories agree on the addresses. -/
def Keeps (S : ℕ → Prop) (mem mem' : Memory) : Prop :=
  ∀ a, S a → mem' a = mem a

namespace Keeps

variable {S T : ℕ → Prop} {mem mem' mem'' : Memory}

theorem refl (S : ℕ → Prop) (mem : Memory) : Keeps S mem mem :=
  fun _ _ => rfl

theorem trans (h : Keeps S mem mem') (h' : Keeps S mem' mem'') : Keeps S mem mem'' :=
  fun a ha => (h' a ha).trans (h a ha)

theorem mono (h : Keeps S mem mem') (hST : ∀ a, T a → S a) : Keeps T mem mem' :=
  fun a ha => h a (hST a ha)

theorem mload (h : Keeps S mem mem') {p : Word} (hp : ∀ a, p.toNat ≤ a → a < p.toNat + 32 → S a) :
    EraPrecompiles.mload mem' p = EraPrecompiles.mload mem p := by
  refine word_ext ?_
  rw [toNat_mload, toNat_mload]
  exact beNat_congr fun i hi => h _ (hp _ (by omega) (by omega))

theorem mstore (h : Keeps S mem mem') {p : Word} (v : Word)
    (hp : ∀ a, S a → a < p.toNat ∨ p.toNat + 32 ≤ a) :
    Keeps S mem (EraPrecompiles.mstore mem' p v) :=
  fun a ha => (mstore_of_not_mem (hp a ha)).trans (h a ha)

theorem mstore8 (h : Keeps S mem mem') {p : Word} (v : Word) (hp : ∀ a, S a → a ≠ p.toNat) :
    Keeps S mem (EraPrecompiles.mstore8 mem' p v) :=
  fun a ha => (if_neg (hp a ha)).trans (h a ha)

theorem writeBytes (h : Keeps S mem mem') {p : Word} {bytes : List Byte}
    (hp : ∀ a, S a → a < p.toNat ∨ p.toNat + bytes.length ≤ a) :
    Keeps S mem (EraPrecompiles.writeBytes mem' p bytes) := by
  intro a ha
  have hout : ¬(p.toNat ≤ a ∧ a < p.toNat + bytes.length) := by
    have hdisjoint := hp a ha
    omega
  rw [EraPrecompiles.writeBytes, if_neg hout]
  exact h a ha

theorem storeWords (ws : List Word) (h : Keeps S mem mem') {p : ℕ}
    (hend : p + 32 * ws.length < 2 ^ 256) (hp : ∀ a, S a → a < p ∨ p + 32 * ws.length ≤ a) :
    Keeps S mem (EraPrecompiles.storeWords mem' p ws) := by
  induction ws generalizing mem' p with
  | nil =>
      exact h
  | cons w ws ih =>
      rw [List.length_cons] at hend hp
      have hpn : (BitVec.ofNat 256 p).toNat = p := toNat_ofNat_of_lt (by omega)
      refine ih (h.mstore w fun a ha => ?_) (by omega) fun a ha => ?_
      · have ha' := hp a ha
        omega
      · have ha' := hp a ha
        omega

end Keeps

theorem mload_mstore_of_disjoint (mem : Memory) {p q : Word} (v : Word)
    (h : p.toNat + 32 ≤ q.toNat ∨ q.toNat + 32 ≤ p.toNat) :
    mload (mstore mem q v) p = mload mem p := by
  refine ((Keeps.refl (fun a => p.toNat ≤ a ∧ a < p.toNat + 32) mem).mstore v ?_).mload ?_
  · intro a ha
    omega
  · exact fun a h1 h2 => ⟨h1, h2⟩

/-- One more word. -/
theorem storeWords_append_singleton (ws : List Word) (mem : Memory) (p : ℕ) (w : Word) :
    storeWords mem p (ws ++ [w]) =
      EraPrecompiles.mstore (storeWords mem p ws) (BitVec.ofNat 256 (p + 32 * ws.length)) w := by
  induction ws generalizing mem p with
  | nil =>
      rfl
  | cons v ws ih =>
      have hp : p + 32 + 32 * ws.length = p + 32 * (ws.length + 1) := by
        ring
      rw [List.cons_append, storeWords, ih, hp]
      rfl

theorem mload_storeWords {ws : List Word} (mem : Memory) {p : ℕ} {q : Word} {i : ℕ} {w : Word}
    (hend : p + 32 * ws.length < 2 ^ 256) (hw : ws[i]? = some w) (hq : q.toNat = p + 32 * i) :
    mload (storeWords mem p ws) q = w := by
  induction ws generalizing mem p i with
  | nil =>
      cases hw
  | cons v ws ih =>
      rw [List.length_cons] at hend
      have hp : (BitVec.ofNat 256 p).toNat = p := toNat_ofNat_of_lt (by omega)
      cases i with
      | zero =>
          have hv : v = w := Option.some.inj hw
          have hqp : q = BitVec.ofNat 256 p := word_ext (by rw [hp, hq]; rfl)
          have hkeeps : Keeps (fun a => a < p + 32) (EraPrecompiles.mstore mem q v)
              (storeWords (EraPrecompiles.mstore mem q v) (p + 32) ws) :=
            fun a ha => storeWords_below ws (by omega) ha
          rw [storeWords, ← hqp, hkeeps.mload fun a _ h => by omega, mload_mstore_self, hv]
      | succ i =>
          exact ih (EraPrecompiles.mstore mem (BitVec.ofNat 256 p) v) (by omega) hw (by omega)

/-- The memory with words stored at their places. -/
def storeAll (mem : Memory) : List (Word × Word) → Memory
  | [] => mem
  | (q, w) :: stores => storeAll (EraPrecompiles.mstore mem q w) stores

theorem Keeps.storeAll {S : ℕ → Prop} {mem mem' : Memory} (h : Keeps S mem mem')
    {stores : List (Word × Word)}
    (hp : ∀ q ∈ stores, ∀ a, S a → a < q.1.toNat ∨ q.1.toNat + 32 ≤ a) :
    Keeps S mem (EraPrecompiles.storeAll mem' stores) := by
  induction stores generalizing mem' with
  | nil =>
      exact h
  | cons q stores ih =>
      exact ih (h.mstore q.2 (hp q List.mem_cons_self)) fun s hs =>
        hp s (List.mem_cons_of_mem q hs)

/-- A word that was stored, if the places are disjoint. -/
theorem mload_storeAll {stores : List (Word × Word)} (mem : Memory) {p w : Word}
    (hdisjoint : stores.Pairwise fun q s =>
      q.1.toNat + 32 ≤ s.1.toNat ∨ s.1.toNat + 32 ≤ q.1.toNat)
    (h : (p, w) ∈ stores) : mload (storeAll mem stores) p = w := by
  induction stores generalizing mem with
  | nil =>
      cases h
  | cons q stores ih =>
      obtain ⟨hq, hrest⟩ := List.pairwise_cons.mp hdisjoint
      rcases List.mem_cons.mp h with rfl | h
      · have hkeeps : Keeps (fun a => p.toNat ≤ a ∧ a < p.toNat + 32)
            (EraPrecompiles.mstore mem p w)
            (storeAll (EraPrecompiles.mstore mem p w) stores) :=
          (Keeps.refl _ _).storeAll fun s hs a ha => by
            have hs' : p.toNat + 32 ≤ s.1.toNat ∨ s.1.toNat + 32 ≤ p.toNat := hq s hs
            omega
        rw [storeAll, hkeeps.mload fun a h1 h2 => ⟨h1, h2⟩, mload_mstore_self]
      · exact ih _ hrest h

/-- A word of the bytes that were written. -/
theorem mload_writeBytes (mem : Memory) {p q : Word} {ws : List Word} {i : ℕ} {w : Word}
    (hw : ws[i]? = some w) (hq : q.toNat = p.toNat + 32 * i) :
    mload (writeBytes mem p (ws.flatMap wordBytes)) q = w := by
  have hi : i < ws.length := (List.getElem?_eq_some_iff.mp hw).1
  refine word_ext ?_
  rw [toNat_mload, ← beNat_wordByte w]
  refine beNat_congr fun j hj => ?_
  have hin : p.toNat ≤ q.toNat + j ∧
      q.toNat + j < p.toNat + (ws.flatMap wordBytes).length := by
    rw [length_flatMap_wordBytes]
    omega
  have hindex : q.toNat + j - p.toNat = 32 * i + j := by
    omega
  have hbyte := getD_flatMap_wordBytes hw hj []
  rw [List.append_nil] at hbyte
  rw [writeBytes, if_pos hin, hindex, hbyte]

/-- A call with words of the memory. -/
theorem carries_memCalldata {mem : Memory} {p len : Word} {ws : List Word}
    (hlen : 32 * ws.length ≤ len.toNat) (hend : p.toNat + len.toNat < 2 ^ 256)
    (h : ∀ i w, ws[i]? = some w → mload mem (BitVec.ofNat 256 (p.toNat + 32 * i)) = w) :
    Carries (memCalldata mem p len) ws := by
  intro i w hw
  have hi : i < ws.length := (List.getElem?_eq_some_iff.mp hw).1
  rw [← h i w hw]
  refine word_ext ?_
  rw [toNat_calldataload, toNat_mload, toNat_ofNat_of_lt (by omega),
    toNat_ofNat_of_lt (by omega)]
  refine beNat_congr fun j hj => ?_
  have hin : 32 * i + j < (memBytes mem p len).length := by
    rw [length_memBytes]
    omega
  have hbyte : (memCalldata mem p len).get (32 * i + j) = (memBytes mem p len)[32 * i + j] :=
    List.getD_eq_getElem _ _ hin
  simp only [hbyte, memBytes, List.getElem_map, List.getElem_range, Nat.add_assoc]

/-! ## How steps end -/

variable {α β : Type}

/-- From the memory `mem` the steps end with the result. -/
def Ends (f : ℕ → Contract α) (mem : Memory) (result : Except Reverted (α × Memory)) : Prop :=
  Yields (fun fuel => (f fuel).run mem |>.run) result

namespace Ends

variable {f : ℕ → Contract α} {g : ℕ → α → Contract β} {mem mem' : Memory} {a : α}

theorem of_eq {result result' : Except Reverted (α × Memory)} (hf : Ends f mem result)
    (h : result = result') : Ends f mem result' :=
  h ▸ hf

theorem pure (a : α) (mem : Memory) : Ends (fun _ => Pure.pure a) mem (.ok (a, mem)) :=
  Yields.const _

/-- A step that ends, and what follows from its memory on. -/
theorem bind {result : Except Reverted (β × Memory)} (hf : Ends f mem (.ok (a, mem')))
    (hg : Ends (fun fuel => g fuel a) mem' result) :
    Ends (fun fuel => f fuel >>= g fuel) mem result := by
  obtain ⟨n, hn⟩ := hf
  obtain ⟨k, hk⟩ := hg
  refine ⟨max n k, fun m hm => ?_⟩
  have hfirst := hn m (le_of_max_le_left hm)
  have hrest := hk m (le_of_max_le_right hm)
  simp only [StateT.run_bind, ExceptT.run_bind, hfirst, Option.bind_eq_bind, Option.bind_some]
  exact hrest

/-- A step that reverts. -/
theorem bind_error {e : Reverted} (hf : Ends f mem (.error e)) (g : ℕ → α → Contract β) :
    Ends (fun fuel => f fuel >>= g fuel) mem (.error e) := by
  obtain ⟨n, hn⟩ := hf
  refine ⟨n, fun m hm => ?_⟩
  have hfirst := hn m hm
  simp only [StateT.run_bind, ExceptT.run_bind, hfirst, Option.bind_eq_bind, Option.bind_some]
  rfl

/-! ### Rules for the steps -/

variable {result : Except Reverted (α × Memory)}

theorem run_load_bind (p : Word) (g : Word → Contract α) :
    (load p >>= g).run mem = (g (mload mem p)).run mem := by
  rw [load, bind_assoc, StateT.run_bind, StateT.run_get, pure_bind, pure_bind]

theorem run_store_bind (p v : Word) (g : Unit → Contract α) :
    (store p v >>= g).run mem = (g ()).run (mstore mem p v) := by
  rw [store, StateT.run_bind, StateT.run_modify, pure_bind]

theorem load_bind {p : Word} {g : ℕ → Word → Contract α} :
    Ends (fun fuel => load p >>= g fuel) mem result ↔
      Ends (fun fuel => g fuel (mload mem p)) mem result := by
  simp only [Ends, run_load_bind]

theorem store_bind {p v : Word} {g : ℕ → Unit → Contract α} :
    Ends (fun fuel => store p v >>= g fuel) mem result ↔
      Ends (fun fuel => g fuel ()) (mstore mem p v) result := by
  simp only [Ends, run_store_bind]

theorem load (p : Word) (mem : Memory) :
    Ends (fun _ => EraPrecompiles.load p) mem (.ok (mload mem p, mem)) :=
  Yields.const _

theorem store_iff {p v : Word} {result : Except Reverted (Unit × Memory)} :
    Ends (fun _ => store p v) mem result ↔ result = .ok ((), mstore mem p v) := by
  constructor
  · exact fun h => h.unique (Yields.const _)
  · rintro rfl
    exact Yields.const _

theorem revertMem (p len : Word) (mem : Memory) :
    Ends (fun _ => (EraPrecompiles.revertMem p len : Contract α)) mem
      (.error ⟨memBytes mem p len⟩) :=
  Yields.const _

/-- A call that returns. -/
theorem callContract_returned {run : ℕ → Calldata → Option Halt} {inp insize out outsize : Word}
    {data : List Byte}
    (h : Yields (fun fuel => run fuel (memCalldata mem inp insize)) (.returned data)) :
    Ends (fun fuel => callContract (run fuel) inp insize out outsize) mem
      (.ok (1, writeBytes mem out (data.take outsize.toNat))) := by
  obtain ⟨n, hn⟩ := h
  refine ⟨n, fun m hm => ?_⟩
  have hrun := hn m hm
  show callContract (run m) inp insize out outsize mem = _
  rw [callContract]
  simp only [hrun]
  rfl

/-- A call that burns its gas. -/
theorem callContract_burned {run : ℕ → Calldata → Option Halt} {inp insize out outsize : Word}
    (h : Yields (fun fuel => run fuel (memCalldata mem inp insize)) .burned) :
    Ends (fun fuel => callContract (run fuel) inp insize out outsize) mem (.ok (0, mem)) := by
  obtain ⟨n, hn⟩ := h
  refine ⟨n, fun m hm => ?_⟩
  have hrun := hn m hm
  show callContract (run m) inp insize out outsize mem = _
  rw [callContract]
  simp only [hrun]
  rfl

/-- `mstore8`, as a step. -/
theorem store8_bind {p v : Word} {g : ℕ → Unit → Contract α} :
    Ends (fun fuel => store8 p v >>= g fuel) mem result ↔
      Ends (fun fuel => g fuel ()) (mstore8 mem p v) result := by
  have hrun : ∀ fuel, (store8 p v >>= g fuel).run mem = (g fuel ()).run (mstore8 mem p v) := by
    intro fuel
    rw [store8, StateT.run_bind, StateT.run_modify, pure_bind]
  simp only [Ends, hrun]

theorem hashMem_bind {hash : List Byte → Word} {p len : Word} {g : ℕ → Word → Contract α} :
    Ends (fun fuel => hashMem hash p len >>= g fuel) mem result ↔
      Ends (fun fuel => g fuel (hash (memBytes mem p len))) mem result := by
  have hrun : ∀ fuel, (hashMem hash p len >>= g fuel).run mem =
      (g fuel (hash (memBytes mem p len))).run mem := by
    intro fuel
    rw [hashMem, bind_assoc, StateT.run_bind, StateT.run_get, pure_bind, pure_bind]
  simp only [Ends, hrun]

end Ends

/-! ## Postconditions -/

/-- From the memory `mem` the steps end without a revert, and what they leave meets `Q`. -/
def Reaches (f : ℕ → Contract α) (mem : Memory) (Q : α → Memory → Prop) : Prop :=
  ∃ a mem', Ends f mem (.ok (a, mem')) ∧ Q a mem'

namespace Reaches

variable {f : ℕ → Contract α} {g : ℕ → α → Contract β} {mem : Memory}
  {Q Q' : α → Memory → Prop} {R : β → Memory → Prop}

theorem mono (hf : Reaches f mem Q) (h : ∀ a mem', Q a mem' → Q' a mem') :
    Reaches f mem Q' := by
  obtain ⟨a, mem', hends, hQ⟩ := hf
  exact ⟨a, mem', hends, h a mem' hQ⟩

theorem pure {a : α} (h : Q a mem) : Reaches (fun _ => Pure.pure a) mem Q :=
  ⟨a, mem, Ends.pure a mem, h⟩

theorem bind (hf : Reaches f mem Q)
    (hg : ∀ a mem', Q a mem' → Reaches (fun fuel => g fuel a) mem' R) :
    Reaches (fun fuel => f fuel >>= g fuel) mem R := by
  obtain ⟨a, mem', hends, hQ⟩ := hf
  obtain ⟨b, mem'', hends', hR⟩ := hg a mem' hQ
  exact ⟨b, mem'', hends.bind hends', hR⟩

/-- Steps that revert in the end. -/
theorem bind_ends {result : Except Reverted (β × Memory)} (hf : Reaches f mem Q)
    (hg : ∀ a mem', Q a mem' → Ends (fun fuel => g fuel a) mem' result) :
    Ends (fun fuel => f fuel >>= g fuel) mem result := by
  obtain ⟨a, mem', hends, hQ⟩ := hf
  exact hends.bind (hg a mem' hQ)

theorem load_bind {p : Word} {g : ℕ → Word → Contract α} :
    Reaches (fun fuel => load p >>= g fuel) mem Q ↔
      Reaches (fun fuel => g fuel (mload mem p)) mem Q := by
  simp only [Reaches, Ends.load_bind]

theorem store_bind {p v : Word} {g : ℕ → Unit → Contract α} :
    Reaches (fun fuel => store p v >>= g fuel) mem Q ↔
      Reaches (fun fuel => g fuel ()) (mstore mem p v) Q := by
  simp only [Reaches, Ends.store_bind]

theorem store8_bind {p v : Word} {g : ℕ → Unit → Contract α} :
    Reaches (fun fuel => store8 p v >>= g fuel) mem Q ↔
      Reaches (fun fuel => g fuel ()) (mstore8 mem p v) Q := by
  simp only [Reaches, Ends.store8_bind]

theorem hashMem_bind {hash : List Byte → Word} {p len : Word} {g : ℕ → Word → Contract α} :
    Reaches (fun fuel => hashMem hash p len >>= g fuel) mem Q ↔
      Reaches (fun fuel => g fuel (hash (memBytes mem p len))) mem Q := by
  simp only [Reaches, Ends.hashMem_bind]

theorem store {p v : Word} {Q : Unit → Memory → Prop} (h : Q () (mstore mem p v)) :
    Reaches (fun _ => EraPrecompiles.store p v) mem Q :=
  ⟨(), mstore mem p v, Ends.store_iff.mpr rfl, h⟩

theorem forM_store (stores : List (Word × Word)) {Q : Unit → Memory → Prop}
    (h : Q () (storeAll mem stores)) :
    Reaches (fun _ => stores.forM fun q => EraPrecompiles.store q.1 q.2) mem Q := by
  induction stores generalizing mem with
  | nil =>
      exact Reaches.pure h
  | cons q stores ih =>
      exact Reaches.store_bind.mpr (ih h)

end Reaches

/-- The steps end with the answer, whatever they leave in memory. -/
def Answers (f : ℕ → Contract α) (mem : Memory) (answer : Except Reverted α) : Prop :=
  ∃ mem', Ends f mem (answer.map fun a => (a, mem'))

namespace Answers

variable {f : ℕ → Contract α} {g : ℕ → α → Contract β} {mem : Memory} {answer : Except Reverted β}

theorem bind {Q : α → Memory → Prop} (hf : Reaches f mem Q)
    (hg : ∀ a mem', Q a mem' → Answers (fun fuel => g fuel a) mem' answer) :
    Answers (fun fuel => f fuel >>= g fuel) mem answer := by
  obtain ⟨a, mem', hends, hQ⟩ := hf
  obtain ⟨mem'', hends'⟩ := hg a mem' hQ
  exact ⟨mem'', hends.bind hends'⟩

theorem error {e : Reverted} (hf : Ends f mem (.error e)) (g : ℕ → α → Contract β) :
    Answers (fun fuel => f fuel >>= g fuel) mem (.error e) :=
  ⟨mem, Ends.bind_error hf g⟩

end Answers

end EraPrecompiles
