import BadgeElfloader.Riscv.Blocks
import Mathlib.Algebra.Group.Nat.Defs

/-!
The process context `ctx_t`, twice: as the C++ struct lays it out, and as the
constants by which the assembly refers to it. The struct is the `Field` type
with its offsets, the assembly side is the list of `.equ` constants, and the
lemmas marked `simp` say that each constant is the offset of the field it is
named after. From there on proofs speak about fields, which are told apart by
their constructors instead of by arithmetic on addresses.
-/

namespace BadgeElfloader.Kernel

open Riscv

/-! ### The constants of `kernel_include.S` -/

/-- Offset of a register in `riscv_regs_t`. -/
def rs : Reg → Word
  | .ra => 4 | .sp => 8 | .gp => 12 | .tp => 16
  | .t0 => 20 | .t1 => 24 | .t2 => 28
  | .s0 => 32 | .s1 => 36
  | .a0 => 40 | .a1 => 44 | .a2 => 48 | .a3 => 52
  | .a4 => 56 | .a5 => 60 | .a6 => 64 | .a7 => 68
  | .s2 => 72 | .s3 => 76 | .s4 => 80 | .s5 => 84 | .s6 => 88
  | .s7 => 92 | .s8 => 96 | .s9 => 100 | .s10 => 104 | .s11 => 108
  | .t3 => 112 | .t4 => 116 | .t5 => 120 | .t6 => 124

def ctxUReg : Word := 0
def ctxMReg : Word := 128
def ctxMRegSp : Word := 128 + 8
def ctxMRegGp : Word := 128 + 12
def ctxMRegTp : Word := 128 + 16
def ctxUPc : Word := 288
def ctxMPc : Word := 292
def ctxIsSuper : Word := 320

def ctxScratch : Fin 8 → Word
  | 0 => 256 | 1 => 260 | 2 => 264 | 3 => 268
  | 4 => 272 | 5 => 276 | 6 => 280 | 7 => 284

def sysExit : Word := 512
def sysAbicall : Word := 513
def sysUserjump : Word := 514
def sysUserenter : Word := 515

/-! ### The struct of `kernel.hpp` -/

/-- The words of `ctx_t`. `uZero` and `mZero` are the padding words for `x0` at
the front of the two register arrays. -/
inductive Field
  | uZero
  | uReg (r : Reg)
  | mZero
  | mReg (r : Reg)
  | scratch (i : Fin 8)
  | uPc | mPc
  | uStackHi | uStackLo | mStackHi | mStackLo
  | uAbiTable | uAbiSize
  | isSuper | pid
  deriving DecidableEq, Repr

/-- The position of a field, counted in words. -/
def Field.index : Field → ℕ
  | uZero => 0
  | uReg r => 1 + r.ctorIdx
  | mZero => 32
  | mReg r => 33 + r.ctorIdx
  | scratch i => 64 + i
  | uPc => 72
  | mPc => 73
  | uStackHi => 74
  | uStackLo => 75
  | mStackHi => 76
  | mStackLo => 77
  | uAbiTable => 78
  | uAbiSize => 79
  | isSuper => 80
  | pid => 81

def Field.offset (f : Field) : Word := BitVec.ofNat 32 (4 * f.index)

theorem ctorIdx_lt (r : Reg) : r.ctorIdx < 31 := by cases r <;> decide

theorem ctorIdx_injective : Function.Injective Reg.ctorIdx := by
  intro r q h
  rw [← Reg.ofNat_ctorIdx r, ← Reg.ofNat_ctorIdx q, h]

theorem Field.index_lt (f : Field) : f.index < 82 := by
  cases f with
  | uReg r | mReg r => have := ctorIdx_lt r; simp only [index]; omega
  | scratch i => simp only [index]; omega
  | _ => decide

theorem Field.index_injective : Function.Injective Field.index := by
  intro f g h
  cases f with
  | uReg r =>
      have hr := ctorIdx_lt r
      cases g with
      | uReg q => rw [ctorIdx_injective (Nat.add_left_cancel h)]
      | _ => simp only [index] at h; omega
  | mReg r =>
      have hr := ctorIdx_lt r
      cases g with
      | uReg q => have hq := ctorIdx_lt q; simp only [index] at h; omega
      | mReg q => rw [ctorIdx_injective (Nat.add_left_cancel h)]
      | _ => simp only [index] at h; omega
  | scratch i =>
      cases g with
      | uReg q | mReg q => have hq := ctorIdx_lt q; simp only [index] at h; omega
      | scratch j => rw [Fin.ext (Nat.add_left_cancel h)]
      | _ => simp only [index] at h; omega
  | _ =>
      cases g with
      | uReg q | mReg q => have hq := ctorIdx_lt q; simp only [index] at h; omega
      | _ => first | rfl | (simp only [index] at h; omega)

theorem Field.offset_injective : Function.Injective Field.offset := by
  intro f g h
  have hf := f.index_lt
  have hg := g.index_lt
  have hnat := congrArg BitVec.toNat h
  simp only [offset, BitVec.toNat_ofNat] at hnat
  exact index_injective (by omega)

@[simp] theorem Field.offset_inj {f g : Field} : f.offset = g.offset ↔ f = g :=
  offset_injective.eq_iff

/-! ### The two sides agree -/

theorem rs_eq (r : Reg) : rs r = BitVec.ofNat 32 (4 * (1 + r.ctorIdx)) := by cases r <;> rfl

theorem rs_injective : Function.Injective rs := by
  intro r q h
  have hr := ctorIdx_lt r
  have hq := ctorIdx_lt q
  have hnat := congrArg BitVec.toNat h
  simp only [rs_eq, BitVec.toNat_ofNat] at hnat
  exact ctorIdx_injective (by omega)

@[simp] theorem ctxUReg_add_rs (r : Reg) : ctxUReg + rs r = (Field.uReg r).offset := by
  cases r <;> rfl

@[simp] theorem ctxMReg_add_rs (r : Reg) : ctxMReg + rs r = (Field.mReg r).offset := by
  cases r <;> rfl

@[simp] theorem add_ctxUReg_add_rs (ctx : Word) (r : Reg) :
    ctx + ctxUReg + rs r = ctx + (Field.uReg r).offset := by
  rw [BitVec.add_assoc, ctxUReg_add_rs]

@[simp] theorem add_ctxMReg_add_rs (ctx : Word) (r : Reg) :
    ctx + ctxMReg + rs r = ctx + (Field.mReg r).offset := by
  rw [BitVec.add_assoc, ctxMReg_add_rs]

theorem rs_eq_uReg (r : Reg) : rs r = (Field.uReg r).offset := by cases r <;> rfl

@[simp] theorem ctxMRegSp_eq : ctxMRegSp = (Field.mReg .sp).offset := rfl
@[simp] theorem ctxMRegGp_eq : ctxMRegGp = (Field.mReg .gp).offset := rfl
@[simp] theorem ctxMRegTp_eq : ctxMRegTp = (Field.mReg .tp).offset := rfl
@[simp] theorem ctxUPc_eq : ctxUPc = Field.uPc.offset := rfl
@[simp] theorem ctxMPc_eq : ctxMPc = Field.mPc.offset := rfl
@[simp] theorem ctxIsSuper_eq : ctxIsSuper = Field.isSuper.offset := rfl

@[simp] theorem ctxScratch_eq (i : Fin 8) : ctxScratch i = (Field.scratch i).offset := by
  revert i
  decide

/-! ### Reading a context out of memory -/

/-- The value of a field of the context at address `ctx`. -/
def field (s : Machine) (ctx : Word) (f : Field) : Word := s.mem (ctx + f.offset)

/-- The address is not a word of the context at `ctx`. -/
def OutsideCtx (ctx a : Word) : Prop := ∀ f : Field, a ≠ ctx + f.offset

/-- An address behind the 82 words of the context is outside of it. -/
theorem outsideCtx_of_le {ctx a : Word} (h : 328 ≤ (a - ctx).toNat) : OutsideCtx ctx a := by
  rintro f rfl
  have hf := f.index_lt
  rw [BitVec.add_comm, BitVec.add_sub_cancel, Field.offset, BitVec.toNat_ofNat] at h
  omega

/-- Two contexts that lie far enough from each other do not overlap. -/
theorem outsideCtx_of_far {c d : Word} (h : 328 ≤ (d - c).toNat)
    (h' : (d - c).toNat + 328 ≤ 2 ^ 32) (f : Field) : OutsideCtx c (d + f.offset) := by
  apply outsideCtx_of_le
  have hf := f.index_lt
  have hoff : f.offset.toNat = 4 * f.index := by
    rw [Field.offset, BitVec.toNat_ofNat]
    omega
  have hsum : d + f.offset - c = (d - c) + f.offset := by
    rw [BitVec.sub_eq_add_neg, BitVec.sub_eq_add_neg, BitVec.add_assoc, BitVec.add_assoc,
      BitVec.add_comm f.offset]
  rw [hsum, BitVec.toNat_add, hoff]
  omega

theorem mem_eq_field (s : Machine) (ctx : Word) (f : Field) :
    s.mem (ctx + f.offset) = field s ctx f := rfl

@[simp] theorem field_store (s : Machine) (ctx v : Word) (f g : Field) :
    field (s.store (ctx + g.offset) v) ctx f = if f = g then v else field s ctx f := by
  simp [field]

theorem field_store_outside {s : Machine} {ctx a v : Word} (h : OutsideCtx ctx a) (f : Field) :
    field (s.store a v) ctx f = field s ctx f := by
  simp [field, Machine.mem_store, (h f).symm]

@[simp] theorem field_setReg (s : Machine) (ctx : Word) (r : Reg) (v : Word) (f : Field) :
    field (s.setReg r v) ctx f = field s ctx f := rfl

@[simp] theorem field_setCsr (s : Machine) (ctx : Word) (c : Csr) (v : Word) (f : Field) :
    field (s.setCsr c v) ctx f = field s ctx f := by
  simp [field]

end BadgeElfloader.Kernel
