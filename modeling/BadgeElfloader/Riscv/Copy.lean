import BadgeElfloader.Riscv.Machine
import Mathlib.Algebra.Group.Nat.Defs

/-!
Copies of words in memory, where addresses wrap.
-/

namespace BadgeElfloader.Riscv

/-- `memcpy` of whole words -/
def memcpy (mem : Word → Word) (dst : Word) : List Word → Word → Word
  | [] => mem
  | w :: ws => memcpy (Function.update mem dst w) (dst + 4) ws

/-- The `n` words at `a` and the `m` words at `b` share no byte. -/
def Apart (a : Word) (n : ℕ) (b : Word) (m : ℕ) : Prop :=
  ∀ i < 4 * n, ∀ j < 4 * m, a + BitVec.ofNat 32 i ≠ b + BitVec.ofNat 32 j

/-- The address of word `i` of an array. -/
def nth (a : Word) (i : ℕ) : Word := a + BitVec.ofNat 32 (4 * i)

@[simp] theorem nth_zero (a : Word) : nth a 0 = a := by simp [nth]

theorem nth_succ (a : Word) (i : ℕ) : nth a (i + 1) = nth (a + 4) i := by
  unfold nth
  rw [Nat.mul_succ, Nat.add_comm, BitVec.ofNat_add, ← BitVec.add_assoc]
  rfl

theorem nth_inj {a : Word} {i j : ℕ} (hi : 4 * i < 2 ^ 32) (hj : 4 * j < 2 ^ 32)
    (h : nth a i = nth a j) : i = j := by
  have hnat := congrArg BitVec.toNat (BitVec.add_right_inj a |>.mp h)
  simp only [BitVec.toNat_ofNat] at hnat
  omega

theorem Apart.nth_ne {a b : Word} {n m i j : ℕ} (h : Apart a n b m) (hi : i < n) (hj : j < m) :
    nth a i ≠ nth b j := h _ (by omega) _ (by omega)

theorem memcpy_of_ne (mem : Word → Word) (dst : Word) (ws : List Word) {a : Word}
    (h : ∀ k < ws.length, nth dst k ≠ a) : memcpy mem dst ws a = mem a := by
  induction ws generalizing mem dst with
  | nil => rfl
  | cons w ws ih =>
      have hfirst : a ≠ dst := fun heq => h 0 (by simp) (by simp [heq])
      rw [memcpy, ih, Function.update_of_ne hfirst]
      intro k hk
      rw [← nth_succ]
      exact h (k + 1) (by simpa using hk)

theorem memcpy_concat (mem : Word → Word) (dst : Word) (ws : List Word) (w : Word) :
    memcpy mem dst (ws ++ [w]) = Function.update (memcpy mem dst ws) (nth dst ws.length) w := by
  induction ws generalizing mem dst with
  | nil => rw [List.length_nil, nth_zero]; rfl
  | cons v ws ih =>
      rw [List.cons_append, memcpy, ih, List.length_cons, nth_succ]
      rfl

/-- The copy holds the words. -/
theorem memcpy_nth (mem : Word → Word) (dst : Word) (ws : List Word)
    (hlen : 4 * ws.length < 2 ^ 32) (k : ℕ) (hk : k < ws.length) :
    memcpy mem dst ws (nth dst k) = ws[k] := by
  induction ws generalizing mem dst k with
  | nil => simp at hk
  | cons w ws ih =>
      rw [List.length_cons] at hlen hk
      cases k with
      | zero =>
          rw [memcpy, nth_zero, memcpy_of_ne _ _ _ fun k hk' => ?_, Function.update_self]
          · rfl
          · intro heq
            rw [← nth_succ] at heq
            have hzero : k + 1 = 0 :=
              nth_inj (by omega) (by omega) (heq.trans (nth_zero dst).symm)
            omega
      | succ k =>
          rw [memcpy, nth_succ, ih _ _ (by omega) k (by omega)]
          rfl

theorem apart_of_le {a b : Word} {n m : ℕ} (h : a.toNat + 4 * n ≤ b.toNat)
    (hb : b.toNat + 4 * m ≤ 2 ^ 32) : Apart a n b m := by
  intro i hi j hj heq
  have hnat := congrArg BitVec.toNat heq
  simp only [BitVec.toNat_add, BitVec.toNat_ofNat] at hnat
  omega

theorem Apart.symm {a b : Word} {n m : ℕ} (h : Apart a n b m) : Apart b m a n :=
  fun j hj i hi heq => h i hi j hj heq.symm

end BadgeElfloader.Riscv
