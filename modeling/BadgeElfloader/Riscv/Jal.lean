import BadgeElfloader.Riscv.Machine
import Mathlib.Algebra.Group.Nat.Defs
import Mathlib.Tactic.IntervalCases

/-!
The `jal` instruction.

`jalCut` is what is left of an offset that went through the 21 bits of an
instruction. It is the offset itself for those in `JalRange` and for no others.
-/

namespace BadgeElfloader.Riscv

structure Jal where
  rd : BitVec 5
  offset : Word

/-- The bits `imm[20|10:1|11|19:12]` of the instruction, put in order. -/
def jalOffset (w : Word) : Word :=
  (w.extractLsb' 31 1 ++ w.extractLsb' 12 8 ++ w.extractLsb' 20 1 ++ w.extractLsb' 21 10 ++
    0#1).signExtend 32

def decodeJal (w : Word) : Option Jal :=
  if w.extractLsb' 0 7 = 0x6f then some ⟨w.extractLsb' 7 5, jalOffset w⟩ else none

/-- Where a `jal` at `pc` goes. -/
def jalTarget (pc w : Word) : Option Word := (decodeJal w).map fun i => pc + i.offset

theorem jalTarget_of_isSome {pc w : Word} (h : (decodeJal w).isSome) :
    jalTarget pc w = some (pc + jalOffset w) := by
  unfold jalTarget decodeJal at *
  split at h
  · rename_i hop
    rw [if_pos hop]
    rfl
  · cases h

/-- The offset with bit 0 dropped, sign-extended from bit 20. -/
def jalCut (offset : Word) : Word := ((offset &&& ~~~ 1#32).setWidth 21).signExtend 32

def JalRange (offset : Word) : Prop :=
  offset.getLsbD 0 = false ∧ -2 ^ 20 ≤ offset.toInt ∧ offset.toInt < 2 ^ 20

instance (offset : Word) : Decidable (JalRange offset) :=
  inferInstanceAs (Decidable (_ ∧ _ ∧ _))

theorem jalCut_eq_append (offset : Word) : jalCut offset =
    (offset.extractLsb' 20 1 ++ offset.extractLsb' 12 8 ++ offset.extractLsb' 11 1 ++
      offset.extractLsb' 1 10 ++ 0#1).signExtend 32 := by
  rw [jalCut]
  congr 1
  refine BitVec.eq_of_getLsbD_eq fun i hi => ?_
  simp only [BitVec.getLsbD_append, BitVec.getLsbD_setWidth, BitVec.getLsbD_and,
    BitVec.getLsbD_not, BitVec.getLsbD_one]
  interval_cases i <;> simp

theorem and_not_one_eq_iff (w : Word) : w &&& ~~~ 1#32 = w ↔ w.getLsbD 0 = false := by
  constructor
  · intro h
    rw [← h]
    simp
  · intro h
    ext i hi
    rw [BitVec.getElem_and, BitVec.getElem_not, BitVec.getElem_one]
    by_cases hi0 : i = 0
    · subst hi0
      simpa using h.symm
    · simp [hi0]

theorem signExtend_setWidth_eq_iff (w : Word) :
    (w.setWidth 21).signExtend 32 = w ↔ -2 ^ 20 ≤ w.toInt ∧ w.toInt < 2 ^ 20 := by
  rw [← BitVec.toInt_inj, BitVec.toInt_signExtend_of_le (by decide), BitVec.toInt_setWidth,
    Int.bmod_eq_iff (by decide)]
  have hcond := BitVec.toInt_eq_toNat_cond w
  split at hcond <;> omega

theorem jalCut_eq_iff (offset : Word) : jalCut offset = offset ↔ JalRange offset := by
  unfold jalCut JalRange
  rw [← and_not_one_eq_iff, ← signExtend_setWidth_eq_iff]
  constructor
  · intro h
    have heven : offset &&& ~~~ 1#32 = offset := by
      rw [and_not_one_eq_iff, ← h]
      simp
    rw [heven] at h
    exact ⟨heven, h⟩
  · rintro ⟨heven, h⟩
    rwa [heven]

end BadgeElfloader.Riscv
