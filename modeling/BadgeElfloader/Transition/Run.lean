import Mathlib.Logic.Relation

/-!
Finite runs of a labelled transition relation.

`Run step s as t` says that the labels `as` lead from `s` to `t`, one step
each. The rules below are the only inductions over runs in this development:
an invariant is carried from state to state (`Run.invariant`), and what an
invariant says about single steps holds of every label (`Run.forall_label`).
-/

namespace BadgeElfloader.Transition

variable {σ α : Type*}

inductive Run (step : σ → α → σ → Prop) : σ → List α → σ → Prop
  | nil (s : σ) : Run step s [] s
  | cons {s t u : σ} {a : α} {as : List α} :
      step s a t → Run step t as u → Run step s (a :: as) u

namespace Run

variable {step : σ → α → σ → Prop} {s t u : σ} {a : α} {as bs : List α}

theorem append (h : Run step s as t) (h' : Run step t bs u) : Run step s (as ++ bs) u := by
  induction h with
  | nil s => exact h'
  | cons hstep hrun ih => exact .cons hstep (ih h')

theorem single (h : step s a t) : Run step s [a] t := .cons h (.nil t)

/-- A step added to the end of a run. -/
theorem snoc (h : Run step s as t) (h' : step t a u) : Run step s (as ++ [a]) u :=
  h.append (single h')

/-- A run of a relation that has all the steps. -/
theorem mono {step' : σ → α → σ → Prop} (h : Run step s as t)
    (hsub : ∀ s a t, step s a t → step' s a t) : Run step' s as t := by
  induction h with
  | nil s => exact .nil s
  | cons hstep _ ih => exact .cons (hsub _ _ _ hstep) ih

/-- A run is empty or has a last step. -/
theorem eq_nil_or_snoc (h : Run step s as u) :
    (as = [] ∧ s = u) ∨ ∃ bs a t, as = bs ++ [a] ∧ Run step s bs t ∧ step t a u := by
  induction h with
  | nil s => exact .inl ⟨rfl, rfl⟩
  | @cons s t u a as hstep hrun ih =>
      right
      obtain ⟨rfl, rfl⟩ | ⟨bs, b, v, rfl, hbs, hb⟩ := ih
      · exact ⟨[], a, s, rfl, .nil s, hstep⟩
      · exact ⟨a :: bs, b, v, rfl, .cons hstep hbs, hb⟩

/-- Every label of a run is that of one of its steps. -/
theorem exists_step (h : Run step s as u) (ha : a ∈ as) :
    ∃ s₁ s₂ bs cs, Run step s bs s₁ ∧ step s₁ a s₂ ∧ Run step s₂ cs u := by
  induction h with
  | nil s => cases ha
  | cons h₁ hrun ih =>
      obtain rfl | hmem := List.mem_cons.mp ha
      · exact ⟨_, _, [], _, .nil _, h₁, hrun⟩
      · obtain ⟨s₁, s₂, bs, cs, hbs, hstep, hcs⟩ := ih hmem
        exact ⟨s₁, s₂, _ :: bs, cs, .cons h₁ hbs, hstep, hcs⟩

/-- The rule for runs with labels in `L` only: if `P` holds initially, and every
step from `P` with a label in `L` leads to `P` and has its label in `Q`, then
`P` holds at the end and all labels are in `Q`. -/
theorem forall_label_of {P : σ → Prop} {L Q : α → Prop} (h : Run step s as t)
    (hstep : ∀ s a t, P s → L a → step s a t → P t ∧ Q a) (hs : P s) (hL : ∀ a ∈ as, L a) :
    P t ∧ ∀ a ∈ as, Q a := by
  induction h with
  | nil s => exact ⟨hs, by simp⟩
  | cons h₁ _ ih =>
      obtain ⟨hLa, hLas⟩ := List.forall_mem_cons.mp hL
      obtain ⟨ht, ha⟩ := hstep _ _ _ hs hLa h₁
      obtain ⟨hu, has⟩ := ih ht hLas
      exact ⟨hu, List.forall_mem_cons.mpr ⟨ha, has⟩⟩

theorem forall_label {P : σ → Prop} {Q : α → Prop} (h : Run step s as t)
    (hstep : ∀ s a t, P s → step s a t → P t ∧ Q a) (hs : P s) : P t ∧ ∀ a ∈ as, Q a :=
  h.forall_label_of (L := fun _ => True) (fun _ _ _ hs _ h₁ => hstep _ _ _ hs h₁) hs
    fun _ _ => trivial

/-- What holds initially and is preserved by every step holds at the end. -/
theorem invariant {P : σ → Prop} (h : Run step s as t)
    (hstep : ∀ s a t, P s → step s a t → P t) (hs : P s) : P t :=
  (h.forall_label (Q := fun _ => True) (fun _ _ _ hs h₁ => ⟨hstep _ _ _ hs h₁, trivial⟩) hs).1

/-- An invariant of the steps with labels in `L`. -/
theorem invariant_of_labels {P : σ → Prop} {L : α → Prop} (h : Run step s as t)
    (hstep : ∀ s a t, P s → L a → step s a t → P t) (hs : P s) (hL : ∀ a ∈ as, L a) : P t :=
  (h.forall_label_of (Q := fun _ => True)
    (fun _ _ _ hs ha h₁ => ⟨hstep _ _ _ hs ha h₁, trivial⟩) hs hL).1

/-- An invariant of a state and the labels that led to it. -/
theorem history {P : List α → σ → Prop} (h : Run step s as t)
    (hstep : ∀ as s a t, P as s → step s a t → P (as ++ [a]) t) (hs : P [] s) : P as t := by
  suffices hall : ∀ bs, P bs s → P (bs ++ as) t from hall [] hs
  clear hs
  induction h with
  | nil s => exact fun bs hbs => by simpa using hbs
  | @cons s t u a as h₁ _ ih =>
      intro bs hbs
      simpa using ih (bs ++ [a]) (hstep bs s a t hbs h₁)

end Run

/-- The states that runs out of initial states lead to. -/
def Reachable (init : σ → Prop) (step : σ → α → σ → Prop) (t : σ) : Prop :=
  ∃ s as, init s ∧ Run step s as t

theorem Reachable.invariant {init : σ → Prop} {step : σ → α → σ → Prop} {P : σ → Prop} {t : σ}
    (h : Reachable init step t) (hinit : ∀ s, init s → P s)
    (hstep : ∀ s a t, P s → step s a t → P t) : P t := by
  obtain ⟨s, as, hs, hrun⟩ := h
  exact hrun.invariant hstep (hinit s hs)

end BadgeElfloader.Transition
