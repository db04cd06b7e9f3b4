import Mathlib.Data.List.Perm.Basic
import Mathlib.Data.List.Pairwise

/-!
A pool of things that have owners.

Things are put into the pool for an owner and taken out again one by one. Taking
out what an owner has always succeeds, in whatever order (`takeOut_all`), and no
other owner sees any of it. An owner that has less than it is to give back gets
stuck (`takeOut_all_length`).
-/

namespace BadgeElfloader.Transition

variable {ι β : Type*} [DecidableEq ι]

/-- What `i` has in the pool. -/
def owned (pool : List (ι × β)) (i : ι) : List β := (pool.filter fun p => p.1 = i).map Prod.snd

/-- Take out one of the things that `i` has. There is no result if it is not
there. -/
def takeOut [DecidableEq β] (i : ι) (pool : List (ι × β)) (b : β) : Option (List (ι × β)) :=
  if (i, b) ∈ pool then some (pool.erase (i, b)) else none

section pool

variable {pool pool' : List (ι × β)} {i j : ι} {b c : β} {bs rest : List β} {R : β → β → Prop}

@[simp] theorem owned_append (pool pool' : List (ι × β)) (i : ι) :
    owned (pool ++ pool') i = owned pool i ++ owned pool' i := by simp [owned]

@[simp] theorem owned_map_self (bs : List β) (i : ι) : owned (bs.map (i, ·)) i = bs := by
  induction bs with
  | nil => rfl
  | cons b bs ih => simpa [owned] using ih

theorem owned_map_other (bs : List β) (h : i ≠ j) : owned (bs.map (i, ·)) j = [] := by
  simp [owned, h]

@[simp] theorem mem_owned : b ∈ owned pool i ↔ (i, b) ∈ pool := by simp [owned]

theorem owned_perm (h : pool.Perm pool') (i : ι) : (owned pool i).Perm (owned pool' i) :=
  (h.filter _).map _

/-- A pool in which nobody has anything is empty. -/
theorem eq_nil_of_owned (h : ∀ i, owned pool i = []) : pool = [] := by
  refine List.eq_nil_iff_forall_not_mem.mpr fun ⟨i, b⟩ hmem => ?_
  have hb : b ∈ owned pool i := mem_owned.mpr hmem
  rw [h i] at hb
  cases hb

/-- Two owners have different things. -/
theorem rel_of_owned_ne [Std.Symm R] (h : (pool.map Prod.snd).Pairwise R) (hij : i ≠ j)
    (hb : b ∈ owned pool i) (hc : c ∈ owned pool j) : R b c := by
  have hpool : pool.Pairwise fun p q => R p.2 q.2 := List.pairwise_map.mp h
  have hsymm : Std.Symm fun p q : ι × β => R p.2 q.2 := ⟨fun _ _ h => Std.Symm.symm _ _ h⟩
  exact hpool.forall (mem_owned.mp hb) (mem_owned.mp hc) (by simp [hij])

theorem owned_pairwise (h : (pool.map Prod.snd).Pairwise R) (i : ι) : (owned pool i).Pairwise R :=
  h.sublist (List.filter_sublist.map _)

variable [DecidableEq β]

theorem takeOut_one (hb : (owned pool i).Perm (b :: rest)) :
    ∃ pool', takeOut i pool b = some pool' ∧ pool'.Sublist pool ∧ (owned pool' i).Perm rest ∧
      ∀ j, j ≠ i → (owned pool' j).Perm (owned pool j) := by
  have hmem : (i, b) ∈ pool := mem_owned.mp (hb.symm.subset List.mem_cons_self)
  have hperm := List.perm_cons_erase hmem
  refine ⟨pool.erase (i, b), if_pos hmem, List.erase_sublist, ?_, fun j hj => ?_⟩
  · have hself : (owned pool i).Perm (b :: owned (pool.erase (i, b)) i) := by
      simpa [owned] using owned_perm hperm i
    exact (hself.symm.trans hb).cons_inv
  · have hother := owned_perm hperm j
    simp only [owned, List.filter_cons, decide_eq_true_eq, if_neg (Ne.symm hj)] at hother
    exact hother.symm

/-- An owner takes out things that it has, and is left with the rest. -/
theorem takeOut_all (hbs : (owned pool i).Perm (bs ++ rest)) :
    ∃ pool', bs.foldlM (takeOut i) pool = some pool' ∧ pool'.Sublist pool ∧
      (owned pool' i).Perm rest ∧ ∀ j, j ≠ i → (owned pool' j).Perm (owned pool j) := by
  induction bs generalizing pool with
  | nil => exact ⟨pool, rfl, .refl pool, hbs, fun _ _ => .refl _⟩
  | cons b bs ih =>
      obtain ⟨p, hp, hsub, hrest, hothers⟩ := takeOut_one hbs
      obtain ⟨q, hq, hsub', hrest', hothers'⟩ := ih hrest
      refine ⟨q, ?_, hsub'.trans hsub, hrest', fun j hj => (hothers' j hj).trans (hothers j hj)⟩
      rw [List.foldlM_cons, hp]
      exact hq

theorem takeOut_some (h : takeOut i pool b = some pool') : (i, b) ∈ pool ∧
    pool' = pool.erase (i, b) := by
  unfold takeOut at h
  split at h
  · rename_i hmem
    exact ⟨hmem, (Option.some.inj h).symm⟩
  · cases h

/-- Taking out things one by one makes what `i` has shorter by as many. -/
theorem takeOut_all_length (h : bs.foldlM (takeOut i) pool = some pool') :
    (owned pool i).length = bs.length + (owned pool' i).length ∧
      ∀ j, j ≠ i → (owned pool' j).Perm (owned pool j) := by
  induction bs generalizing pool with
  | nil =>
      obtain rfl := Option.some.inj h
      exact ⟨(Nat.zero_add _).symm, fun _ _ => .refl _⟩
  | cons b bs ih =>
      rw [List.foldlM_cons, Option.bind_eq_bind, Option.bind_eq_some_iff] at h
      obtain ⟨p, hp, hrest⟩ := h
      obtain ⟨hmem, rfl⟩ := takeOut_some hp
      obtain ⟨_, hp', -, hself, hothers⟩ :=
        takeOut_one (List.perm_cons_erase (mem_owned.mpr hmem))
      obtain rfl := Option.some.inj (hp.symm.trans hp')
      obtain ⟨hlength, hothers'⟩ := ih hrest
      refine ⟨?_, fun j hj => (hothers' j hj).trans (hothers j hj)⟩
      rw [List.length_cons, Nat.add_right_comm, ← hlength, hself.length_eq,
        List.length_erase_of_mem (mem_owned.mpr hmem)]
      have hpos := List.length_pos_of_mem (mem_owned.mpr hmem)
      omega

end pool

end BadgeElfloader.Transition
