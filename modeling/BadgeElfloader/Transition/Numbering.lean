import Mathlib.Data.List.Basic
import Mathlib.Data.Nat.ModEq

/-!
Numbers from a counter that wraps.

A registry that numbers its entries with a counter of period `N` gives out new
numbers for one round of the counter and no longer. `forall_calls_iff` is the
rule behind every such statement: a property that holds of all calls until the
counter comes round, and fails of the call that brings it round, holds of a
whole sequence of calls exactly if fewer than `N` of them draw a number.
-/

namespace BadgeElfloader.Transition

variable {α σ ω : Type*}

/-- `num` is a counter with period `N`. -/
def Cyclic (num : ℕ → α) (N : ℕ) : Prop := ∀ i j, num i = num j ↔ i % N = j % N

/-- `id` is among the `n` numbers behind `num 0`. -/
def Issued (num : ℕ → α) (n : ℕ) (id : α) : Prop := ∃ k, 0 < k ∧ k ≤ n ∧ id = num k

section counter

variable {num : ℕ → α} {N n m : ℕ} {id : α}

theorem Issued.mono (h : Issued num n id) (hnm : n ≤ m) : Issued num m id := by
  obtain ⟨k, hpos, hle, rfl⟩ := h
  exact ⟨k, hpos, hle.trans hnm, rfl⟩

theorem issued_succ (num : ℕ → α) (n : ℕ) : Issued num (n + 1) (num (n + 1)) :=
  ⟨n + 1, n.succ_pos, le_refl _, rfl⟩

/-- Until the counter comes round, the next number is new. -/
theorem Cyclic.not_issued (h : Cyclic num N) (hn : n + 1 < N) : ¬ Issued num n (num (n + 1)) := by
  rintro ⟨k, -, hle, heq⟩
  have hmod := (h _ _).mp heq
  rw [Nat.mod_eq_of_lt hn, Nat.mod_eq_of_lt (by omega)] at hmod
  omega

theorem Cyclic.ne_zero (h : Cyclic num N) (hn : n + 1 < N) : num (n + 1) ≠ num 0 := by
  intro heq
  have hmod := (h _ _).mp heq
  rw [Nat.mod_eq_of_lt hn, Nat.zero_mod] at hmod
  omega

theorem Cyclic.round (h : Cyclic num N) : num N = num 0 := (h _ _).mpr (by simp)

theorem cyclic_bitVec (w : ℕ) : Cyclic (BitVec.ofNat w) (2 ^ w) := by
  intro i j
  rw [← BitVec.toNat_inj, BitVec.toNat_ofNat, BitVec.toNat_ofNat]

end counter

/-- `Good` holds of every call of `ops`, made one after the other from `s` on. -/
def EachCall (exec : σ → ω → σ) (Good : σ → ω → Prop) : σ → List ω → Prop
  | _, [] => True
  | s, op :: ops => Good s op ∧ EachCall exec Good (exec s op) ops

section calls

variable {exec : σ → ω → σ} {Good : σ → ω → Prop}

/-- A property that every call has or not, whatever was called before. -/
theorem eachCall_iff_forall {Inv : σ → Prop} {P : ω → Prop}
    (hgood : ∀ s op, Inv s → (Good s op ↔ P op)) (hstep : ∀ s op, Inv s → Inv (exec s op))
    {s : σ} (hs : Inv s) (ops : List ω) : EachCall exec Good s ops ↔ ∀ op ∈ ops, P op := by
  induction ops generalizing s with
  | nil => simp [EachCall]
  | cons op ops ih => rw [EachCall, hgood s op hs, ih (hstep s op hs), List.forall_mem_cons]

/-- Calls that draw numbers: `Inv n` is the invariant after `n` of them. -/
theorem forall_calls_iff {draws : ω → Bool} {Inv : ℕ → σ → Prop} {N : ℕ} (hN : 0 < N)
    (hgood : ∀ n s op, Inv n s → (draws op → n + 1 < N) →
      Good s op ∧ Inv (n + if draws op then 1 else 0) (exec s op))
    (hround : ∀ n s op, Inv n s → draws op → n + 1 = N → ¬ Good s op)
    {s : σ} (hinit : Inv 0 s) (ops : List ω) :
    EachCall exec Good s ops ↔ ops.countP draws < N := by
  suffices h : ∀ n, n < N → Inv n s → (EachCall exec Good s ops ↔ n + ops.countP draws < N) by
    simpa using h 0 hN hinit
  clear hinit
  induction ops generalizing s with
  | nil => exact fun n hn _ => by simpa [EachCall] using hn
  | cons op ops ih =>
      intro n hn hs
      by_cases hlast : draws op ∧ n + 1 = N
      · obtain ⟨hdraws, hlast⟩ := hlast
        have hbad := hround n s op hs hdraws hlast
        rw [List.countP_cons_of_pos hdraws]
        exact ⟨fun h => absurd h.1 hbad, fun h => by omega⟩
      · have hnext : draws op → n + 1 < N := fun hdraws =>
          lt_of_le_of_ne hn fun heq => hlast ⟨hdraws, heq⟩
        obtain ⟨hop, hs'⟩ := hgood n s op hs hnext
        have hrest := ih _ (by split <;> simp_all) hs'
        rw [EachCall, hrest, List.countP_cons]
        constructor
        · rintro ⟨-, h⟩
          omega
        · intro h
          exact ⟨hop, by omega⟩

end calls

end BadgeElfloader.Transition
