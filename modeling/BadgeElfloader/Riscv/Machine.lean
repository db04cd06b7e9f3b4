import Mathlib.Data.Fintype.Basic
import Mathlib.Logic.Function.Basic

/-!
A one-hart RV32 machine with M-mode and U-mode: registers, word-granular
memory, the four trap CSRs, and the straight-line instructions that trap
handlers are written in.

Control flow is not part of the instruction set. A routine is a Lean function
that runs blocks of instructions and decides between them the way its branches
do, so the label structure of an assembly file is the structure of its
definition. Memory is addressed by the word: an aligned address names the word
stored there, and every access of a handler is aligned.
-/

namespace BadgeElfloader.Riscv

abbrev Word := BitVec 32

/-- The registers `x1` to `x31` by their ABI names; `x0` holds no state. -/
inductive Reg
  | ra | sp | gp | tp | t0 | t1 | t2 | s0 | s1
  | a0 | a1 | a2 | a3 | a4 | a5 | a6 | a7
  | s2 | s3 | s4 | s5 | s6 | s7 | s8 | s9 | s10 | s11
  | t3 | t4 | t5 | t6
  deriving DecidableEq, Repr

open Reg in
instance : Fintype Reg where
  elems := ⟨[ra, sp, gp, tp, t0, t1, t2, s0, s1, a0, a1, a2, a3, a4, a5, a6, a7,
    s2, s3, s4, s5, s6, s7, s8, s9, s10, s11, t3, t4, t5, t6], by decide⟩
  complete r := by cases r <;> decide

/-- The registers a called function hands back as it found them. `gp` and
`tp` are in the list because no compiled function ever allocates them. -/
def Reg.calleeSaved : Reg → Bool
  | sp | gp | tp | s0 | s1 | s2 | s3 | s4 | s5 | s6 | s7 | s8 | s9 | s10 | s11 => true
  | _ => false

inductive Priv | user | machine
  deriving DecidableEq, Repr

@[ext] structure Machine where
  regs : Reg → Word
  mem : Word → Word
  pc : Word
  priv : Priv
  mstatus : Word
  mepc : Word
  mcause : Word
  mscratch : Word

inductive Csr | mstatus | mepc | mcause | mscratch
  deriving DecidableEq, Repr

/-- `mstatus.MIE`, `mstatus.MPIE` and `mstatus.MPP`. -/
def mieBit : Word := 0x8
def mpieBit : Word := 0x80
def mppMask : Word := 0x1800

namespace Machine

def setReg (s : Machine) (r : Reg) (v : Word) : Machine :=
  { s with regs := Function.update s.regs r v }

def store (s : Machine) (a v : Word) : Machine :=
  { s with mem := Function.update s.mem a v }

def csr (s : Machine) : Csr → Word
  | .mstatus => s.mstatus
  | .mepc => s.mepc
  | .mcause => s.mcause
  | .mscratch => s.mscratch

def setCsr (s : Machine) (c : Csr) (v : Word) : Machine :=
  match c with
  | .mstatus => { s with mstatus := v }
  | .mepc => { s with mepc := v }
  | .mcause => { s with mcause := v }
  | .mscratch => { s with mscratch := v }

@[simp] theorem regs_setReg (s : Machine) (r : Reg) (v : Word) (r' : Reg) :
    (s.setReg r v).regs r' = if r' = r then v else s.regs r' := by
  simp [setReg, Function.update_apply]

@[simp] theorem mem_setReg (s : Machine) (r : Reg) (v : Word) : (s.setReg r v).mem = s.mem := rfl
@[simp] theorem pc_setReg (s : Machine) (r : Reg) (v : Word) : (s.setReg r v).pc = s.pc := rfl
@[simp] theorem priv_setReg (s : Machine) (r : Reg) (v : Word) :
    (s.setReg r v).priv = s.priv := rfl
@[simp] theorem mstatus_setReg (s : Machine) (r : Reg) (v : Word) :
    (s.setReg r v).mstatus = s.mstatus := rfl
@[simp] theorem mepc_setReg (s : Machine) (r : Reg) (v : Word) :
    (s.setReg r v).mepc = s.mepc := rfl
@[simp] theorem mcause_setReg (s : Machine) (r : Reg) (v : Word) :
    (s.setReg r v).mcause = s.mcause := rfl
@[simp] theorem mscratch_setReg (s : Machine) (r : Reg) (v : Word) :
    (s.setReg r v).mscratch = s.mscratch := rfl

@[simp] theorem mem_store (s : Machine) (a v b : Word) :
    (s.store a v).mem b = if b = a then v else s.mem b := by
  simp [store, Function.update_apply]

@[simp] theorem regs_store (s : Machine) (a v : Word) : (s.store a v).regs = s.regs := rfl
@[simp] theorem pc_store (s : Machine) (a v : Word) : (s.store a v).pc = s.pc := rfl
@[simp] theorem priv_store (s : Machine) (a v : Word) : (s.store a v).priv = s.priv := rfl
@[simp] theorem mstatus_store (s : Machine) (a v : Word) :
    (s.store a v).mstatus = s.mstatus := rfl
@[simp] theorem mepc_store (s : Machine) (a v : Word) : (s.store a v).mepc = s.mepc := rfl
@[simp] theorem mcause_store (s : Machine) (a v : Word) : (s.store a v).mcause = s.mcause := rfl
@[simp] theorem mscratch_store (s : Machine) (a v : Word) :
    (s.store a v).mscratch = s.mscratch := rfl

@[simp] theorem csr_mstatus (s : Machine) : s.csr .mstatus = s.mstatus := rfl
@[simp] theorem csr_mepc (s : Machine) : s.csr .mepc = s.mepc := rfl
@[simp] theorem csr_mcause (s : Machine) : s.csr .mcause = s.mcause := rfl
@[simp] theorem csr_mscratch (s : Machine) : s.csr .mscratch = s.mscratch := rfl

@[simp] theorem regs_setCsr (s : Machine) (c : Csr) (v : Word) :
    (s.setCsr c v).regs = s.regs := by cases c <;> rfl
@[simp] theorem mem_setCsr (s : Machine) (c : Csr) (v : Word) :
    (s.setCsr c v).mem = s.mem := by cases c <;> rfl
@[simp] theorem pc_setCsr (s : Machine) (c : Csr) (v : Word) :
    (s.setCsr c v).pc = s.pc := by cases c <;> rfl
@[simp] theorem priv_setCsr (s : Machine) (c : Csr) (v : Word) :
    (s.setCsr c v).priv = s.priv := by cases c <;> rfl
@[simp] theorem mstatus_setCsr (s : Machine) (c : Csr) (v : Word) :
    (s.setCsr c v).mstatus = if c = .mstatus then v else s.mstatus := by cases c <;> rfl
@[simp] theorem mepc_setCsr (s : Machine) (c : Csr) (v : Word) :
    (s.setCsr c v).mepc = if c = .mepc then v else s.mepc := by cases c <;> rfl
@[simp] theorem mcause_setCsr (s : Machine) (c : Csr) (v : Word) :
    (s.setCsr c v).mcause = if c = .mcause then v else s.mcause := by cases c <;> rfl
@[simp] theorem mscratch_setCsr (s : Machine) (c : Csr) (v : Word) :
    (s.setCsr c v).mscratch = if c = .mscratch then v else s.mscratch := by cases c <;> rfl

end Machine

/-- Straight-line instructions, with the pseudo-instructions `mv` and `li` as
one instruction each. -/
inductive Instr
  | mv (rd rs : Reg)
  | li (rd : Reg) (imm : Word)
  | addi (rd rs : Reg) (imm : Word)
  | and (rd rs₁ rs₂ : Reg)
  | or (rd rs₁ rs₂ : Reg)
  | auipc (rd : Reg) (imm : Word)
  | lw (rd : Reg) (off : Word) (base : Reg)
  | sw (rs : Reg) (off : Word) (base : Reg)
  | csrr (rd : Reg) (c : Csr)
  | csrw (c : Csr) (rs : Reg)
  | csrrw (rd : Reg) (c : Csr) (rs : Reg)
  | csrs (c : Csr) (rs : Reg)
  | csrc (c : Csr) (rs : Reg)

def Instr.exec (s : Machine) : Instr → Machine
  | mv rd rs => s.setReg rd (s.regs rs)
  | li rd imm => s.setReg rd imm
  | addi rd rs imm => s.setReg rd (s.regs rs + imm)
  | and rd rs₁ rs₂ => s.setReg rd (s.regs rs₁ &&& s.regs rs₂)
  | or rd rs₁ rs₂ => s.setReg rd (s.regs rs₁ ||| s.regs rs₂)
  | auipc rd imm => s.setReg rd (s.pc + imm <<< 12)
  | lw rd off base => s.setReg rd (s.mem (s.regs base + off))
  | sw rs off base => s.store (s.regs base + off) (s.regs rs)
  | csrr rd c => s.setReg rd (s.csr c)
  | csrw c rs => s.setCsr c (s.regs rs)
  | csrrw rd c rs => (s.setCsr c (s.regs rs)).setReg rd (s.csr c)
  | csrs c rs => s.setCsr c (s.csr c ||| s.regs rs)
  | csrc c rs => s.setCsr c (s.csr c &&& ~~~ s.regs rs)

namespace Machine

/-- Run a straight-line block. -/
def exec (s : Machine) (is : List Instr) : Machine := is.foldl Instr.exec s

@[simp] theorem exec_nil (s : Machine) : s.exec [] = s := rfl

@[simp] theorem exec_cons (s : Machine) (i : Instr) (is : List Instr) :
    s.exec (i :: is) = (i.exec s).exec is := rfl

@[simp] theorem exec_append (s : Machine) (is js : List Instr) :
    s.exec (is ++ js) = (s.exec is).exec js := List.foldl_append

/-- Run code whose position matters: each instruction comes with its encoded
size, and the program counter moves along with it. -/
def execAt (s : Machine) (is : List (Word × Instr)) : Machine :=
  is.foldl (fun s i => { i.2.exec s with pc := s.pc + i.1 }) s

/-- Hardware trap entry: the interrupted program counter goes to `mepc`, the
interrupt enable and the privilege level go to the previous-mode fields of
`mstatus`, and the hart continues in M-mode with interrupts off. -/
def takeTrap (s : Machine) (cause : Word) : Machine :=
  { s with
    priv := .machine
    mepc := s.pc
    mcause := cause
    mstatus := (s.mstatus &&& ~~~ (mieBit ||| mpieBit ||| mppMask))
      ||| (if s.mstatus &&& mieBit = 0 then 0 else mpieBit)
      ||| (if s.priv = .machine then mppMask else 0) }

/-- `mret`: back to `mepc` in the mode `mstatus.MPP` names. On a hart with
M-mode and U-mode only, every other value of the field reads as U-mode. -/
def mret (s : Machine) : Machine :=
  { s with
    priv := if s.mstatus &&& mppMask = mppMask then .machine else .user
    pc := s.mepc
    mstatus := (s.mstatus &&& ~~~ (mieBit ||| mpieBit ||| mppMask))
      ||| (if s.mstatus &&& mpieBit = 0 then 0 else mieBit)
      ||| mpieBit }

@[simp] theorem regs_mret (s : Machine) : s.mret.regs = s.regs := rfl
@[simp] theorem mem_mret (s : Machine) : s.mret.mem = s.mem := rfl
@[simp] theorem pc_mret (s : Machine) : s.mret.pc = s.mepc := rfl
@[simp] theorem mscratch_mret (s : Machine) : s.mret.mscratch = s.mscratch := rfl

/-- `jalr` to the address in `rs`: bit 0 of the target is dropped. -/
def jump (s : Machine) (rs : Reg) : Machine := { s with pc := s.regs rs &&& ~~~ 1 }

end Machine

/-- What the calling convention promises of a function entered in state `n`
that has returned in state `n'`: it is back at its return address, in the same
mode, with the callee-saved registers as they were. -/
structure Returns (n n' : Machine) : Prop where
  pc_eq : n'.pc = n.regs .ra
  priv_eq : n'.priv = n.priv
  saved : ∀ r, r.calleeSaved → n'.regs r = n.regs r

end BadgeElfloader.Riscv
