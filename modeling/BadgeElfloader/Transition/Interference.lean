import Mathlib.Logic.Relation

/-!
Straight-line code under interference.

Code is a list of instructions, and the environment may take steps of its own in
front of each of them and behind the last. Where it can take none the code is
atomic (`Interfered.eq_of_masked`). Where it can, a relation that the
instructions keep and the environment cannot leave relates what comes out to
what would have come out alone (`Interfered.simulates`).
-/

namespace BadgeElfloader.Transition

open Relation

variable {σ ι : Type*}

section

variable (exec : σ → ι → σ) (disturb : σ → σ → Prop)

/-- The code leads from `s` to `t` with any steps of the environment on the
way. -/
inductive Interfered : List ι → σ → σ → Prop
  | nil {s t : σ} : ReflTransGen disturb s t → Interfered [] s t
  | cons {i : ι} {is : List ι} {s u t : σ} :
      ReflTransGen disturb s u → Interfered is (exec u i) t → Interfered (i :: is) s t

/-- The environment cannot take a step in any of the states that the code comes
through. -/
def Masked : List ι → σ → Prop
  | [], s => ∀ u, ¬ disturb s u
  | i :: is, s => (∀ u, ¬ disturb s u) ∧ Masked is (exec s i)

end

section interfered

variable {exec : σ → ι → σ} {disturb : σ → σ → Prop} {i : ι} {is js : List ι} {s t u : σ}

/-- The environment may always do nothing. -/
theorem Interfered.foldl (exec : σ → ι → σ) (disturb : σ → σ → Prop) (is : List ι) (s : σ) :
    Interfered exec disturb is s (is.foldl exec s) := by
  induction is generalizing s with
  | nil => exact .nil .refl
  | cons i is ih => exact .cons .refl (ih (exec s i))

theorem Interfered.before (h : ReflTransGen disturb s t) (h' : Interfered exec disturb is t u) :
    Interfered exec disturb is s u := by
  cases h' with
  | nil htu => exact .nil (h.trans htu)
  | cons htv hrest => exact .cons (h.trans htv) hrest

theorem interfered_append :
    Interfered exec disturb (is ++ js) s t ↔
      ∃ u, Interfered exec disturb is s u ∧ Interfered exec disturb js u t := by
  induction is generalizing s with
  | nil =>
      constructor
      · exact fun h => ⟨s, .nil .refl, h⟩
      · rintro ⟨u, hu, h⟩
        cases hu with
        | nil hsu => exact .before hsu h
  | cons i is ih =>
      constructor
      · intro h
        cases h with
        | cons hsv hrest =>
            obtain ⟨u, hu, h⟩ := ih.mp hrest
            exact ⟨u, .cons hsv hu, h⟩
      · rintro ⟨u, hu, h⟩
        cases hu with
        | cons hsv hrest => exact .cons hsv (ih.mpr ⟨u, hrest, h⟩)

theorem eq_of_undisturbed (hs : ∀ u, ¬ disturb s u) (h : ReflTransGen disturb s t) : t = s := by
  obtain heq | ⟨u, hu, -⟩ := h.cases_head
  · exact heq.symm
  · exact absurd hu (hs u)

/-- Masked code is atomic. -/
theorem Interfered.eq_of_masked (h : Interfered exec disturb is s t)
    (hmask : Masked exec disturb is s) : t = is.foldl exec s := by
  induction h with
  | nil hst => exact eq_of_undisturbed hmask hst
  | cons hsu _ ih =>
      obtain rfl := eq_of_undisturbed hmask.1 hsu
      exact ih hmask.2

theorem masked_append :
    Masked exec disturb (is ++ js) s ↔
      Masked exec disturb is s ∧ Masked exec disturb js (is.foldl exec s) := by
  induction is generalizing s with
  | nil =>
      refine ⟨fun h => ⟨?_, h⟩, fun h => h.2⟩
      cases js with
      | nil => exact h
      | cons j js => exact h.1
  | cons i is ih =>
      show _ ∧ Masked exec disturb (is ++ js) (exec s i) ↔ _
      rw [ih, ← and_assoc]
      rfl

/-- Code is masked that keeps a condition under which the environment is
still. -/
theorem masked_of_keeps {Q : σ → Prop} (hQ : ∀ s, Q s → ∀ u, ¬ disturb s u)
    (hkeep : ∀ i ∈ is, ∀ s, Q s → Q (exec s i)) (hs : Q s) : Masked exec disturb is s := by
  induction is generalizing s with
  | nil => exact hQ s hs
  | cons i is ih =>
      obtain ⟨hi, his⟩ := List.forall_mem_cons.mp hkeep
      exact ⟨hQ s hs, ih his (hi s hs)⟩

theorem disturbed_rel {R : σ → σ → Prop} (henv : ∀ s u v, R s u → disturb u v → R s v)
    (h : ReflTransGen disturb u t) (hR : R s u) : R s t := by
  induction h with
  | refl => exact hR
  | tail _ hstep ih => exact henv _ _ _ ih hstep

/-- The rule for code that is not masked: what `R` relates to the undisturbed
run is related to it still at the end. -/
theorem Interfered.simulates {R : σ → σ → Prop} (henv : ∀ s u v, R s u → disturb u v → R s v)
    (hinstr : ∀ i ∈ is, ∀ s u, R s u → R (exec s i) (exec u i)) (hR : R s u)
    (h : Interfered exec disturb is u t) : R (is.foldl exec s) t := by
  induction h generalizing s with
  | nil hut => exact disturbed_rel henv hut hR
  | cons huv _ ih =>
      obtain ⟨hi, his⟩ := List.forall_mem_cons.mp hinstr
      exact ih his (hi _ _ (disturbed_rel henv huv hR))

end interfered

end BadgeElfloader.Transition
