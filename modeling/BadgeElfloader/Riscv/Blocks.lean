import BadgeElfloader.Riscv.Machine
import Mathlib.Data.Set.Function

/-!
Whole register files going to memory and back.

A context switch is mostly two loops written out by hand: a store for every
register and, later, a load for every register, each at its own offset from one
base register. The lemmas here give the effect of such a run of instructions at
once. They ask for nothing about the list of registers — neither order nor the
absence of repetitions matters — only that no two of them share an offset.
-/

namespace BadgeElfloader.Riscv

/-- Store every register of `l` at its offset from `base`. -/
def saveAll (off : Reg → Word) (base : Reg) (l : List Reg) : List Instr :=
  l.map fun r => .sw r (off r) base

/-- Load every register of `l` from its offset from `base`. -/
def loadAll (off : Reg → Word) (base : Reg) (l : List Reg) : List Instr :=
  l.map fun r => .lw r (off r) base

namespace Machine

/-- The memory after `saveAll`. -/
def savedMem (s : Machine) (off : Reg → Word) (base : Word) (l : List Reg) (a : Word) : Word :=
  (l.find? fun r => a == base + off r).elim (s.mem a) s.regs

theorem savedMem_of_mem {s : Machine} {off : Reg → Word} {base : Word} {l : List Reg}
    (hoff : Set.InjOn off {r | r ∈ l}) {r : Reg} (hr : r ∈ l) :
    s.savedMem off base l (base + off r) = s.regs r := by
  unfold savedMem
  cases hfind : l.find? fun q => base + off r == base + off q with
  | none => simpa using List.find?_eq_none.mp hfind r hr
  | some q =>
      have hsame : off r = off q := by simpa using List.find?_some hfind
      rw [Option.elim_some, hoff hr (List.mem_of_find?_eq_some hfind) hsame]

theorem savedMem_of_forall_ne {s : Machine} {off : Reg → Word} {base a : Word} {l : List Reg}
    (h : ∀ r ∈ l, a ≠ base + off r) : s.savedMem off base l a = s.mem a := by
  have hnone : l.find? (fun r => a == base + off r) = none := by
    simpa [List.find?_eq_none] using h
  rw [savedMem, hnone, Option.elim_none]

/-- Storing the first register and then the others is storing them all. -/
theorem savedMem_cons {s : Machine} {off : Reg → Word} {base : Word} {l : List Reg}
    {q : Reg} (hoff : Set.InjOn off {r | r ∈ q :: l}) :
    (s.store (base + off q) (s.regs q)).savedMem off base l = s.savedMem off base (q :: l) := by
  have htail : Set.InjOn off {r | r ∈ l} := hoff.mono fun r => List.mem_cons_of_mem q
  funext a
  by_cases hq : a = base + off q
  · subst hq
    rw [savedMem_of_mem (l := q :: l) hoff (by simp)]
    by_cases hl : q ∈ l
    · rw [savedMem_of_mem htail hl, regs_store]
    · have hne : ∀ r ∈ l, base + off q ≠ base + off r := by
        intro r hr h
        have hqr := hoff List.mem_cons_self (List.mem_cons_of_mem q hr)
          ((BitVec.add_right_inj _).mp h)
        rw [hqr] at hl
        exact hl hr
      rw [savedMem_of_forall_ne hne, mem_store, if_pos rfl]
  · simp [savedMem, hq]

end Machine

/-- Saving registers changes memory alone. -/
theorem exec_saveAll (s : Machine) {off : Reg → Word} (base : Reg) {l : List Reg}
    (hoff : Set.InjOn off {r | r ∈ l}) :
    s.exec (saveAll off base l) = { s with mem := s.savedMem off (s.regs base) l } := by
  induction l generalizing s with
  | nil => rfl
  | cons q l ih =>
      simp only [saveAll, List.map_cons, Machine.exec_cons, Instr.exec] at ih ⊢
      rw [ih _ (hoff.mono fun r => List.mem_cons_of_mem q), Machine.regs_store,
        Machine.savedMem_cons hoff]
      rfl

/-- Loading registers changes those registers alone, provided the base register
is not among them. -/
theorem exec_loadAll (s : Machine) (off : Reg → Word) (base : Reg) (l : List Reg)
    (hbase : base ∉ l) :
    s.exec (loadAll off base l) =
      { s with regs := fun r => if r ∈ l then s.mem (s.regs base + off r) else s.regs r } := by
  induction l generalizing s with
  | nil => rfl
  | cons q l ih =>
      simp only [List.mem_cons, not_or] at hbase
      simp only [loadAll, List.map_cons, Machine.exec_cons, Instr.exec] at ih ⊢
      rw [ih _ hbase.2]
      refine Machine.ext ?_ rfl rfl rfl rfl rfl rfl rfl
      funext r
      by_cases hl : r ∈ l
      · simp [hl, hbase.1]
      · by_cases hq : r = q
        · subst hq
          simp [hl]
        · simp [hl, hq]

end BadgeElfloader.Riscv
