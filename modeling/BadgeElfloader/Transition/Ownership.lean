import Mathlib.Data.Finset.Basic
import Mathlib.Logic.Function.Basic

/-!
Traces of actions on resources that are acquired once and released once.

Every resource goes from `fresh` to `held` to `released`, and is used while it
is held. A trace is legal if `replay` accepts it; `Owned trace held` says that
it is, and which resources it leaves held. A legal trace releases what it has
acquired and no longer holds exactly once (`Owned.count_release`).
-/

namespace BadgeElfloader.Transition

inductive Action (ρ : Type*)
  | acquire (x : ρ)
  | use (x : ρ)
  | release (x : ρ)
  deriving DecidableEq

/-- How far a resource is. -/
inductive Tenure
  | fresh
  | held
  | released
  deriving DecidableEq

variable {ρ : Type*} [DecidableEq ρ]

/-- There is no result if the resource is not where it must be. -/
def Action.next (s : ρ → Tenure) : Action ρ → Option (ρ → Tenure)
  | acquire x => if s x = .fresh then some (Function.update s x .held) else none
  | use x => if s x = .held then some s else none
  | release x => if s x = .held then some (Function.update s x .released) else none

def replay (trace : List (Action ρ)) : Option (ρ → Tenure) :=
  trace.foldlM Action.next fun _ => .fresh

/-- A legal trace that leaves exactly `held`. -/
def Owned (trace : List (Action ρ)) (held : Finset ρ) : Prop :=
  ∃ s, replay trace = some s ∧ ∀ x, s x = .held ↔ x ∈ held

variable {trace : List (Action ρ)} {held : Finset ρ} {s : ρ → Tenure} {x y : ρ} {a : Action ρ}

theorem replay_concat (trace : List (Action ρ)) (a : Action ρ) :
    replay (trace ++ [a]) = (replay trace).bind fun s => a.next s := by
  simp [replay, List.foldlM_append]

/-- The counts say where a resource is. -/
theorem replay_count (h : replay trace = some s) (x : ρ) :
    trace.count (.acquire x) = (if s x = .fresh then 0 else 1) ∧
      trace.count (.release x) = if s x = .released then 1 else 0 := by
  induction trace using List.reverseRecOn generalizing s with
  | nil =>
      obtain rfl := Option.some.inj h
      exact ⟨rfl, rfl⟩
  | append_singleton trace a ih =>
      rw [replay_concat, Option.bind_eq_some_iff] at h
      obtain ⟨s₀, h₀, hnext⟩ := h
      obtain ⟨hacquire, hrelease⟩ := ih h₀
      rw [List.count_append, List.count_append, hacquire, hrelease]
      cases a with
      | acquire y =>
          simp only [Action.next, Option.ite_none_right_eq_some, Option.some.injEq] at hnext
          obtain ⟨hy, rfl⟩ := hnext
          by_cases hxy : x = y
          · subst hxy
            simp [hy]
          · simp [hxy, Ne.symm hxy]
      | use y =>
          simp only [Action.next, Option.ite_none_right_eq_some, Option.some.injEq] at hnext
          obtain ⟨-, rfl⟩ := hnext
          simp
      | release y =>
          simp only [Action.next, Option.ite_none_right_eq_some, Option.some.injEq] at hnext
          obtain ⟨hy, rfl⟩ := hnext
          by_cases hxy : x = y
          · subst hxy
            simp [hy]
          · simp [hxy, Ne.symm hxy]

namespace Owned

theorem nil : Owned ([] : List (Action ρ)) ∅ := ⟨_, rfl, by simp⟩

theorem acquire (h : Owned trace held) (hx : .acquire x ∉ trace) :
    Owned (trace ++ [.acquire x]) (insert x held) := by
  obtain ⟨s, hs, hheld⟩ := h
  have hfresh : s x = .fresh := by
    have hcount := (replay_count hs x).1
    rw [List.count_eq_zero_of_not_mem hx] at hcount
    by_contra hne
    simp [hne] at hcount
  refine ⟨Function.update s x .held, by simp [replay_concat, hs, Action.next, hfresh], fun y => ?_⟩
  by_cases hy : y = x
  · simp [hy]
  · simp [hy, hheld]

theorem use (h : Owned trace held) (hx : x ∈ held) : Owned (trace ++ [.use x]) held := by
  obtain ⟨s, hs, hheld⟩ := h
  exact ⟨s, by simp [replay_concat, hs, Action.next, (hheld x).mpr hx], hheld⟩

theorem release (h : Owned trace held) (hx : x ∈ held) :
    Owned (trace ++ [.release x]) (held.erase x) := by
  obtain ⟨s, hs, hheld⟩ := h
  refine ⟨Function.update s x .released,
    by simp [replay_concat, hs, Action.next, (hheld x).mpr hx], fun y => ?_⟩
  by_cases hy : y = x
  · simp [hy]
  · simp [hy, hheld]

/-- Releasing everything on a list of what is held. -/
theorem releaseAll (h : Owned trace held) (xs : List ρ) (hnodup : xs.Nodup)
    (hxs : ∀ x ∈ xs, x ∈ held) : Owned (trace ++ xs.map .release) (held \ xs.toFinset) := by
  induction xs generalizing trace held with
  | nil => simpa using h
  | cons x xs ih =>
      obtain ⟨hnot, hnodup⟩ := List.nodup_cons.mp hnodup
      have hrest : ∀ y ∈ xs, y ∈ held.erase x := fun y hy =>
        Finset.mem_erase.mpr ⟨fun heq => hnot (heq ▸ hy), hxs y (List.mem_cons_of_mem x hy)⟩
      have hall := ih (h.release (hxs x List.mem_cons_self)) hnodup hrest
      have hheld : held.erase x \ xs.toFinset = held \ (x :: xs).toFinset := by
        ext y
        simp only [Finset.mem_sdiff, Finset.mem_erase, List.toFinset_cons, Finset.mem_insert]
        tauto
      rw [← hheld]
      simpa using hall

/-- What was acquired and is not held any more has been released exactly once. -/
theorem count_release (h : Owned trace held) (hx : .acquire x ∈ trace) :
    trace.count (.release x) = if x ∈ held then 0 else 1 := by
  obtain ⟨s, hs, hheld⟩ := h
  obtain ⟨hacquire, hrelease⟩ := replay_count hs x
  have hpos : 0 < trace.count (.acquire x) := List.count_pos_iff.mpr hx
  rw [hrelease]
  have hiff := hheld x
  cases hsx : s x with
  | fresh => simp [hsx, hacquire] at hpos
  | held => simp [← hiff, hsx]
  | released => simp [← hiff, hsx]

theorem count_acquire_le (h : Owned trace held) (x : ρ) : trace.count (.acquire x) ≤ 1 := by
  obtain ⟨s, hs, -⟩ := h
  rw [(replay_count hs x).1]
  split <;> omega

/-- What is held was acquired. -/
theorem acquired (h : Owned trace held) (hx : x ∈ held) : .acquire x ∈ trace := by
  obtain ⟨s, hs, hheld⟩ := h
  have hcount := (replay_count hs x).1
  rw [(hheld x).mpr hx] at hcount
  exact List.count_pos_iff.mp (by simp [hcount])

end Owned

end BadgeElfloader.Transition
