import Mathlib.Data.List.Nodup

/-!
What a worklist has to do.

`needs a` lists what `a` needs, if `a` can be had at all, and `met` says what
needs nothing done. `Needed` is the closure of the roots under `needs`. A loop
that does one item of `frontier` after the other, each once, is `Underway`; when
nothing in `frontier` is left it has done exactly what is needed.
-/

namespace BadgeElfloader.Transition

variable {α : Type*}

inductive Needed (met : α → Prop) (roots : List α) (needs : α → Option (List α)) : α → Prop
  | root {a : α} : a ∈ roots → ¬ met a → Needed met roots needs a
  | step {a b : α} {deps : List α} : Needed met roots needs a → needs a = some deps → b ∈ deps →
      ¬ met b → Needed met roots needs b

/-- What the roots and the items in `done` list. -/
def frontier (roots : List α) (needs : α → Option (List α)) (done : List α) : List α :=
  roots ++ done.flatMap fun a => (needs a).getD []

structure Underway (met : α → Prop) (roots : List α) (needs : α → Option (List α))
    (done : List α) : Prop where
  nodup : done.Nodup
  needed : ∀ a ∈ done, Needed met roots needs a
  had : ∀ a ∈ done, (needs a).isSome

section worklist

variable {met : α → Prop} {roots roots' done : List α} {needs needs' : α → Option (List α)} {a : α}

theorem frontier_snoc (roots : List α) (needs : α → Option (List α)) (done : List α) (a : α) :
    frontier roots needs (done ++ [a]) = frontier roots needs done ++ (needs a).getD [] := by
  simp [frontier]

theorem Underway.nil : Underway met roots needs [] := ⟨List.nodup_nil, nofun, nofun⟩

theorem Underway.needed_of_frontier (h : Underway met roots needs done)
    (ha : a ∈ frontier roots needs done) (hmet : ¬ met a) : Needed met roots needs a := by
  obtain hroot | hdep := List.mem_append.mp ha
  · exact .root hroot hmet
  · obtain ⟨b, hb, hab⟩ := List.mem_flatMap.mp hdep
    obtain ⟨deps, hdeps⟩ := Option.isSome_iff_exists.mp (h.had b hb)
    rw [hdeps, Option.getD_some] at hab
    exact .step (h.needed b hb) hdeps hab hmet

theorem Underway.snoc (h : Underway met roots needs done) (ha : a ∈ frontier roots needs done)
    (hmet : ¬ met a) (hnew : a ∉ done) (hhad : (needs a).isSome) :
    Underway met roots needs (done ++ [a]) where
  nodup := List.nodup_append_comm.mp (List.nodup_cons.mpr ⟨hnew, h.nodup⟩)
  needed b hb := by
    obtain hold | hlast := List.mem_append.mp hb
    · exact h.needed b hold
    · rw [List.mem_singleton.mp hlast]
      exact h.needed_of_frontier ha hmet
  had b hb := by
    obtain hold | hlast := List.mem_append.mp hb
    · exact h.had b hold
    · rwa [List.mem_singleton.mp hlast]

/-- If nothing is left to do, all that is needed is done. -/
theorem Underway.complete (h : Underway met roots needs done)
    (hall : ∀ a ∈ frontier roots needs done, met a ∨ a ∈ done) :
    Needed met roots needs a ↔ a ∈ done := by
  constructor
  · intro ha
    induction ha with
    | root hroot hmet => exact (hall _ (List.mem_append_left _ hroot)).resolve_left hmet
    | @step a b deps _ hdeps hb hmet ih =>
        refine (hall b (List.mem_append_right _ (List.mem_flatMap.mpr ⟨a, ih, ?_⟩))).resolve_left
          hmet
        rwa [hdeps, Option.getD_some]
  · exact h.needed a

/-- The two lists, if there are any, have the same members. -/
def SameNeeds : Option (List α) → Option (List α) → Prop
  | some deps, some deps' => ∀ a, a ∈ deps ↔ a ∈ deps'
  | none, none => True
  | _, _ => False

theorem SameNeeds.symm {o o' : Option (List α)} (h : SameNeeds o o') : SameNeeds o' o := by
  cases o <;> cases o' <;> first | exact h | exact fun a => (h a).symm

theorem SameNeeds.isSome_eq {o o' : Option (List α)} (h : SameNeeds o o') :
    o.isSome = o'.isSome := by
  cases o <;> cases o' <;> first | rfl | exact h.elim

theorem Needed.reorder (hroots : ∀ a, a ∈ roots → a ∈ roots')
    (hneeds : ∀ a, SameNeeds (needs a) (needs' a)) (h : Needed met roots needs a) :
    Needed met roots' needs' a := by
  induction h with
  | root hroot hmet => exact .root (hroots _ hroot) hmet
  | @step a b deps _ hdeps hb hmet ih =>
      have hsame := hneeds a
      rw [hdeps] at hsame
      cases hdeps' : needs' a with
      | none =>
          rw [hdeps'] at hsame
          exact hsame.elim
      | some deps' =>
          rw [hdeps'] at hsame
          exact .step ih hdeps' ((hsame b).mp hb) hmet

/-- The order in which the roots and the needs are listed does not matter. -/
theorem needed_reorder (hroots : ∀ a, a ∈ roots ↔ a ∈ roots')
    (hneeds : ∀ a, SameNeeds (needs a) (needs' a)) :
    Needed met roots needs a ↔ Needed met roots' needs' a :=
  ⟨.reorder (fun a => (hroots a).mp) hneeds,
    .reorder (fun a => (hroots a).mpr) fun a => (hneeds a).symm⟩

end worklist

end BadgeElfloader.Transition
