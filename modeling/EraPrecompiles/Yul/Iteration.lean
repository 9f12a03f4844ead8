import Mathlib.Tactic

/-!
# Loops with fuel

A `for` loop of the source is the iteration of its body until the body leaves
the loop.  The body answers with the next state, or with the result the loop is
left with: a false loop condition, a `break` and an early end of the call are
all of the second kind.

Iteration runs on fuel, and the same fuel is handed to the loops inside the
body.  `Yields f a` says that the computation `f` terminates with `a`: every
amount of fuel from some point on gives `a`.  `Diverges f` says that no amount
of fuel gives a result.

`Within K f a` is the same with the amount of fuel said: `K` is enough.

The rules for loops are the following.
* `iterate_yields`: an invariant and a decreasing measure give termination
  together with a property of the result.
* `count_within`: the same for a loop with a known number of rounds, which with
  its last test is the fuel that it needs.
* `while_within`: the same for a loop that is a test and a round that does not fail.
* `iterate_diverges`: an invariant under which the loop is never left gives
  divergence.
-/

namespace EraPrecompiles

universe u v w

variable {σ : Type u} {ρ : Type v} {α : Type w}

/-- What one round of a loop answers. -/
inductive Flow (σ : Type u) (ρ : Type v) where
  | next (s : σ)
  | done (r : ρ)

/-- Runs `body` until it answers `done`. -/
def iterate (body : σ → Option (Flow σ ρ)) : ℕ → σ → Option ρ
  | 0, _ => none
  | n + 1, s =>
      match body s with
      | none => none
      | some (.next s') => iterate body n s'
      | some (.done r) => some r

theorem iterate_succ_next
    {body : σ → Option (Flow σ ρ)} {s s' : σ}
    (h : body s = some (.next s')) (n : ℕ) :
    iterate body (n + 1) s = iterate body n s' := by
  simp only [iterate, h]

theorem iterate_succ_done
    {body : σ → Option (Flow σ ρ)} {s : σ} {r : ρ}
    (h : body s = some (.done r)) (n : ℕ) :
    iterate body (n + 1) s = some r := by
  simp only [iterate, h]

/-- What follows a choice follows both of its branches. -/
theorem ite_bind_eq {β : Type w} (c : Prop) [Decidable c] (f g : Option α)
    (h : α → Option β) : (if c then f >>= h else g >>= h) = (if c then f else g) >>= h := by
  split <;> rfl

/-- The computation terminates, with the value `a`. -/
def Yields (f : ℕ → Option α) (a : α) : Prop :=
  ∃ n, ∀ m, n ≤ m → f m = some a

/-- The computation terminates with the value `a`, and `K` is fuel enough. -/
def Within (K : ℕ) (f : ℕ → Option α) (a : α) : Prop :=
  ∀ m, K ≤ m → f m = some a

/-- The computation never terminates. -/
def Diverges (f : ℕ → Option α) : Prop :=
  ∀ m, f m = none

namespace Yields

theorem const (a : α) : Yields (fun _ => some a) a :=
  ⟨0, fun _ _ => rfl⟩

theorem of_eq {f : ℕ → Option α} {a : α} (h : ∀ n, f n = some a) :
    Yields f a :=
  ⟨0, fun n _ => h n⟩

theorem congr {f g : ℕ → Option α} {a : α} (hf : Yields f a)
    (h : ∀ n, g n = f n) : Yields g a := by
  obtain ⟨n, hn⟩ := hf
  exact ⟨n, fun m hm => (h m).trans (hn m hm)⟩

/-- A computation has one value. -/
theorem unique {f : ℕ → Option α} {a b : α}
    (ha : Yields f a) (hb : Yields f b) : a = b := by
  obtain ⟨n, hn⟩ := ha
  obtain ⟨k, hk⟩ := hb
  have h₁ := hn (max n k) (le_max_left n k)
  have h₂ := hk (max n k) (le_max_right n k)
  exact Option.some.inj (h₁.symm.trans h₂)

theorem iff_eq {f : ℕ → Option α} {a : α} (h : Yields f a) (b : α) : Yields f b ↔ b = a :=
  ⟨fun hb => hb.unique h, fun hb => hb ▸ h⟩

theorem not_diverges {f : ℕ → Option α} {a : α} (h : Yields f a) :
    ¬Diverges f := by
  obtain ⟨n, hn⟩ := h
  intro hd
  have := (hn n le_rfl).symm.trans (hd n)
  simp at this

theorem bind {β : Type w} {f : ℕ → Option α} {g : ℕ → α → Option β}
    {a : α} {b : β}
    (hf : Yields f a) (hg : Yields (fun n => g n a) b) :
    Yields (fun n => f n >>= g n) b := by
  obtain ⟨n, hn⟩ := hf
  obtain ⟨k, hk⟩ := hg
  refine ⟨max n k, fun m hm => ?_⟩
  show f m >>= g m = some b
  rw [hn m (le_of_max_le_left hm)]
  exact hk m (le_of_max_le_right hm)

end Yields

namespace Within

theorem of_eq {K : ℕ} {f : ℕ → Option α} {a : α} (h : ∀ n, f n = some a) :
    Within K f a :=
  fun n _ => h n

theorem const (K : ℕ) (a : α) : Within K (fun _ => some a) a :=
  of_eq fun _ => rfl

theorem yields {K : ℕ} {f : ℕ → Option α} {a : α} (h : Within K f a) : Yields f a :=
  ⟨K, h⟩

theorem congr {K : ℕ} {f g : ℕ → Option α} {a : α} (hf : Within K f a)
    (h : ∀ n, g n = f n) : Within K g a :=
  fun m hm => (h m).trans (hf m hm)

theorem bind {β : Type w} {K : ℕ} {f : ℕ → Option α} {g : ℕ → α → Option β}
    {a : α} {b : β}
    (hf : Within K f a) (hg : Within K (fun n => g n a) b) :
    Within K (fun n => f n >>= g n) b := by
  intro m hm
  show f m >>= g m = some b
  rw [hf m hm]
  exact hg m hm

end Within

namespace Diverges

/-- A computation whose first part never ends never ends. -/
theorem bind {β : Type w} {f : ℕ → Option α} (hf : Diverges f)
    (g : ℕ → α → Option β) : Diverges (fun n => f n >>= g n) := by
  intro n
  show f n >>= g n = none
  rw [hf n]
  rfl

end Diverges

/-- Whatever the first part does, the second part decides. -/
theorem not_yields_bind {β : Type w} {f : ℕ → Option α}
    {g : ℕ → α → Option β} {a : α} {b : β}
    (hf : Yields f a) (hg : ¬Yields (fun n => g n a) b) :
    ¬Yields (fun n => f n >>= g n) b := by
  rintro ⟨n, hn⟩
  obtain ⟨k, hk⟩ := hf
  refine hg ⟨max n k, fun m hm => ?_⟩
  have h : f m >>= g m = some b := hn m (le_of_max_le_left hm)
  rw [hk m (le_of_max_le_right hm)] at h
  exact h

section Rules

variable (body : ℕ → σ → Option (Flow σ ρ))

/-- The rule of `iterate_yields`, with separate fuels for loop and body. -/
theorem iterate_yields_aux
    (I : σ → Prop) (Q : ρ → Prop) (μ : σ → ℕ)
    (hstep : ∀ s, I s →
      (∃ r, Yields (fun n => body n s) (.done r) ∧ Q r) ∨
      (∃ s', Yields (fun n => body n s) (.next s') ∧ I s' ∧ μ s' < μ s)) :
    ∀ (b : ℕ) (s : σ), μ s ≤ b → I s →
      ∃ r, Q r ∧ ∃ n, ∀ m k, n ≤ m → n ≤ k →
        iterate (body m) k s = some r := by
  intro b
  induction b with
  | zero =>
      intro s hs hI
      rcases hstep s hI with ⟨r, ⟨n, hn⟩, hQ⟩ | ⟨s', _, _, hμ⟩
      · refine ⟨r, hQ, n + 1, fun m k hm hk => ?_⟩
        obtain ⟨k, rfl⟩ : ∃ k', k = k' + 1 := ⟨k - 1, by omega⟩
        exact iterate_succ_done (hn m (by omega)) k
      · omega
  | succ b ih =>
      intro s hs hI
      rcases hstep s hI with ⟨r, ⟨n, hn⟩, hQ⟩ | ⟨s', ⟨n, hn⟩, hI', hμ⟩
      · refine ⟨r, hQ, n + 1, fun m k hm hk => ?_⟩
        obtain ⟨k, rfl⟩ : ∃ k', k = k' + 1 := ⟨k - 1, by omega⟩
        exact iterate_succ_done (hn m (by omega)) k
      · obtain ⟨r, hQ, n', hn'⟩ := ih s' (by omega) hI'
        refine ⟨r, hQ, max n n' + 1, fun m k hm hk => ?_⟩
        obtain ⟨k, rfl⟩ : ∃ k', k = k' + 1 := ⟨k - 1, by omega⟩
        rw [iterate_succ_next (hn m (by omega)) k]
        exact hn' m k (by omega) (by omega)

/-- An invariant and a decreasing measure: the loop ends, with a result for
which `Q` holds. -/
theorem iterate_yields
    (I : σ → Prop) (Q : ρ → Prop) (μ : σ → ℕ)
    (hstep : ∀ s, I s →
      (∃ r, Yields (fun n => body n s) (.done r) ∧ Q r) ∨
      (∃ s', Yields (fun n => body n s) (.next s') ∧ I s' ∧ μ s' < μ s))
    (s : σ) (hs : I s) :
    ∃ r, Yields (fun n => iterate (body n) n s) r ∧ Q r := by
  obtain ⟨r, hQ, n, hn⟩ := iterate_yields_aux body I Q μ hstep (μ s) s le_rfl hs
  exact ⟨r, ⟨n, fun m hm => hn m m hm hm⟩, hQ⟩

/-- The rule of `count_within`, with separate fuels for loop and body; `d` rounds are
left. -/
theorem count_within_aux
    (I : ℕ → σ → Prop) (Q : ρ → Prop) (n K : ℕ)
    (hstep : ∀ i s, i < n → I i s →
      ∃ s', Within K (fun m => body m s) (.next s') ∧ I (i + 1) s')
    (hdone : ∀ s, I n s → ∃ r, Within K (fun m => body m s) (.done r) ∧ Q r) :
    ∀ (d i : ℕ) (s : σ), i + d = n → I i s →
      ∃ r, Q r ∧ ∀ m k, K ≤ m → d < k → iterate (body m) k s = some r := by
  intro d
  induction d with
  | zero =>
      rintro i s rfl hI
      obtain ⟨r, hr, hQ⟩ := hdone s hI
      refine ⟨r, hQ, fun m k hm hk => ?_⟩
      obtain ⟨k, rfl⟩ : ∃ k', k = k' + 1 := ⟨k - 1, by omega⟩
      exact iterate_succ_done (hr m hm) k
  | succ d ih =>
      intro i s hi hI
      obtain ⟨s', hs', hI'⟩ := hstep i s (by omega) hI
      obtain ⟨r, hQ, hr⟩ := ih (i + 1) s' (by omega) hI'
      refine ⟨r, hQ, fun m k hm hk => ?_⟩
      obtain ⟨k, rfl⟩ : ∃ k', k = k' + 1 := ⟨k - 1, by omega⟩
      rw [iterate_succ_next (hs' m hm) k]
      exact hr m k hm (by omega)

/-- A loop of `n` rounds: an invariant indexed by the round.  The last evaluation of
the body is the one that leaves the loop. -/
theorem count_within
    (I : ℕ → σ → Prop) (Q : ρ → Prop) (n K : ℕ) (hK : n < K)
    (hstep : ∀ i s, i < n → I i s →
      ∃ s', Within K (fun m => body m s) (.next s') ∧ I (i + 1) s')
    (hdone : ∀ s, I n s → ∃ r, Within K (fun m => body m s) (.done r) ∧ Q r)
    (s : σ) (hs : I 0 s) :
    ∃ r, Within K (fun m => iterate (body m) m s) r ∧ Q r := by
  obtain ⟨r, hQ, hr⟩ :=
    count_within_aux body I Q n K hstep hdone n 0 s (Nat.zero_add n) hs
  exact ⟨r, fun m hm => hr m m hm (by omega), hQ⟩

omit body in
/-- A loop that is a test and a round that does not fail: the invariant says in which rounds the
test is true, and holds of the state with which the loop is left. -/
theorem while_within
    (test : σ → Prop) [DecidablePred test] (step : σ → σ) (out : σ → ρ)
    (I : ℕ → σ → Prop) (n K : ℕ) (hK : n < K)
    (htest : ∀ k s, k ≤ n → I k s → (test s ↔ k < n))
    (hstep : ∀ k s, k < n → I k s → I (k + 1) (step s))
    (s : σ) (hs : I 0 s) :
    ∃ s', I n s' ∧ Within K (fun m => iterate
      (fun s => if test s then some (Flow.next (step s)) else some (.done (out s))) m s)
        (out s') := by
  have hrule := count_within
    (fun _ s => if test s then some (Flow.next (step s)) else some (.done (out s)))
    I (fun r => ∃ s', I n s' ∧ out s' = r) n K hK ?_ ?_ s hs
  · obtain ⟨r, hrun, s', hI, rfl⟩ := hrule
    exact ⟨s', hI, hrun⟩
  · intro k s hk hI
    have hgo := (htest k s hk.le hI).mpr hk
    exact ⟨step s, Within.of_eq fun _ => if_pos hgo, hstep k s hk hI⟩
  · intro s hI
    have hstop := mt (htest n s le_rfl hI).mp (lt_irrefl n)
    exact ⟨out s, Within.of_eq fun _ => if_neg hstop, s, hI, rfl⟩

/-- A loop that is never left, whatever the fuel. -/
theorem iterate_eq_none
    (I : σ → Prop) (m : ℕ)
    (hstep : ∀ s, I s →
      body m s = none ∨ ∃ s', body m s = some (.next s') ∧ I s') :
    ∀ (k : ℕ) (s : σ), I s → iterate (body m) k s = none := by
  intro k
  induction k with
  | zero =>
      intro s _
      rfl
  | succ k ih =>
      intro s hs
      rcases hstep s hs with h | ⟨s', h, hI⟩
      · simp only [iterate, h]
      · rw [iterate_succ_next h k]
        exact ih s' hI

theorem iterate_diverges
    (I : σ → Prop)
    (hstep : ∀ n s, I s →
      body n s = none ∨ ∃ s', body n s = some (.next s') ∧ I s')
    {s : σ} (hs : I s) :
    Diverges (fun n => iterate (body n) n s) :=
  fun n => iterate_eq_none body I n (hstep n) n s hs

end Rules

end EraPrecompiles
