import BadgeElfloader.Kernel.Ctx

/-!
The trap path of the kernel: the assembly of `trap.S`, `abicall.S` and
`interrupt.S` and the C++ handlers they call, in the default build without
`DUAL_M_MODE` and the two `FORWARD_NON_ECALL` switches. Every label of the
assembly is a definition of that name; the `.restore` of `interrupt.S` is
`isrRestore`.

A native ABI function is code the kernel does not own, so a trap that calls one
is split at the call: `trap` ends where the function body is entered, and
`abiReturn` continues from whatever state the body has returned in. Compiled
C++ code is described by the calling convention alone. It may leave anything it
likes in the caller-saved registers (`Env.clobber`), and it never touches `gp`
and `tp`.
-/

namespace BadgeElfloader.Kernel

open Riscv

/-- What the build fixes outside of the modelled text: the two `PRESERVE`
switches, code addresses, the stack use and register leftovers of compiled
functions, and the tables of native functions, which are complete before any
process runs and never written again. -/
structure Env where
  preserveGp : Bool
  preserveTp : Bool
  /-- Address of `customTrap0`. -/
  customTrap0 : Word
  /-- Return address of the handler calls in `customTrap0`. -/
  handlerLink : Word
  /-- Return address of the `makeABICall` call in `ecallHandler`. -/
  callLink : Word
  /-- Return address of the `jalr` in `makeABICall`. -/
  abiLink : Word
  /-- Stack space `ecallHandler` has in use when it calls `makeABICall`. -/
  frame : Word
  clobber : Machine → Reg → Word
  /-- Entry `i` of the table of function pointers at an address. -/
  abiTable : Word → Word → Word

/-- A build in the default configuration, with addresses made up. -/
def Env.sample : Env where
  preserveGp := false
  preserveTp := false
  customTrap0 := 0x42000100
  handlerLink := 0x42000200
  callLink := 0x42000300
  abiLink := 0x42000400
  frame := 64
  clobber := fun _ _ => 0
  abiTable := fun _ i => 0x42001000 + 16 * i

/-- How a C++ handler leaves: by returning, by entering the body of a native
function, or through `panic`, which never returns. -/
inductive Handled
  | ret (s : Machine)
  | call (body : Machine)
  | panic

/-- How far a trap gets without the help of native code: to its `mret`, to the
body of a native function, or to `panic`. Each case carries the state in which
the C++ handler was entered. -/
inductive Trapped
  | mret (handler final : Machine)
  | call (handler body : Machine)
  | panic (handler : Machine)

/-! ### `abicall.S` -/

/-- Preserve the s* registers. -/
def pushFrame : List Instr :=
  [ .addi .sp .sp (-32),
    .sw .s0 16 .sp, .sw .s1 12 .sp, .sw .s2 8 .sp, .sw .s3 4 .sp, .sw .s4 0 .sp ]

/-- Restore the s* registers. -/
def popFrame : List Instr :=
  [ .lw .s0 16 .sp, .lw .s1 12 .sp, .lw .s2 8 .sp, .lw .s3 4 .sp, .lw .s4 0 .sp,
    .addi .sp .sp 32 ]

def rearrange : List Instr :=
  [ -- Preserve registers in a slightly unusual location.
    .mv .s0 .ra, .mv .s1 .sp, .mv .s2 .gp, .mv .s3 .tp,
    -- Rearrange arguments.
    .mv .ra .a1, .mv .s4 .a0,
    .lw .a0 (rs .t0) .s4, .lw .a1 (rs .t1) .s4,
    .lw .a2 (rs .a2) .s4, .lw .a3 (rs .a3) .s4, .lw .a4 (rs .a4) .s4,
    .lw .a5 (rs .a5) .s4, .lw .a6 (rs .a6) .s4, .lw .a7 (rs .a7) .s4,
    -- Get environment registers.
    .lw .sp (rs .sp) .s4, .lw .gp (rs .gp) .s4, .lw .tp (rs .tp) .s4,
    .li .t0 0x8, .csrs .mstatus .t0 ]

def storeResult : List Instr :=
  [ -- Store return value.
    .sw .a0 (rs .a0) .s4, .sw .a1 (rs .a1) .s4,
    .li .t0 0x8, .csrc .mstatus .t0,
    -- Restore registers.
    .mv .ra .s0, .mv .sp .s1, .mv .gp .s2, .mv .tp .s3 ]

/-- `makeABICall` up to its `jalr`. -/
def makeABICallEntry : List Instr := pushFrame ++ rearrange

/-- `makeABICall` behind its `jalr`, up to its `ret`. -/
def makeABICallExit : List Instr := storeResult ++ popFrame

/-- From the call of `makeABICall` into the body of the function in `a1`. -/
def makeABICall (env : Env) (s : Machine) : Machine :=
  ((s.exec makeABICallEntry).jump .ra).setReg .ra env.abiLink

/-! ### `kernel.cpp` -/

/-- The state after a compiled function has returned `v`. It was entered in
state `h` and its last effect on memory and CSRs left state `s`. -/
def cppRet (env : Env) (h s : Machine) (v : Word) : Machine :=
  { s with regs := fun r =>
      if r = .a0 then v
      else if r = .gp ∨ r = .tp then s.regs r
      else if r.calleeSaved then h.regs r
      else env.clobber s r }

/-- The call site `ctx->is_super = 1; makeABICall(ctx, ctx->u_abi_table[a1])` in
`ecallHandler`, which was entered in state `h`. -/
def abiCallSite (env : Env) (h : Machine) : Machine :=
  let ctx := h.mscratch
  let s := h.store (ctx + Field.isSuper.offset) 1
  { s with regs := fun r => match r with
      | .a0 => ctx
      | .a1 => env.abiTable (field s ctx .uAbiTable) (h.regs .a1)
      | .ra => env.callLink
      | .sp => h.regs .sp - env.frame
      | .gp => h.regs .gp
      | .tp => h.regs .tp
      | r => env.clobber s r }

/-- `memset(&ctx->u_regs, 0, sizeof(ctx->u_regs))`. -/
def clearURegs (s : Machine) (ctx : Word) : Machine :=
  { s with mem := fun a =>
      if a = ctx + Field.uZero.offset ∨ ∃ r, a = ctx + (Field.uReg r).offset then 0
      else s.mem a }

/-- Create usermode context: the body of `SYS_USERENTER`. -/
def userenter (s : Machine) : Machine :=
  let ctx := s.mscratch
  let s' := clearURegs s ctx
  let s' := s'.store (ctx + Field.uPc.offset) (s.regs .a1)
  let s' := s'.store (ctx + (Field.uReg .sp).offset) (s.regs .a2)
  let s' := s'.store (ctx + (Field.uReg .gp).offset) (field s' ctx (.mReg .gp))
  s'.store (ctx + (Field.uReg .tp).offset) (field s' ctx (.mReg .tp))

/-- The result of the branches of `ecallHandler` that end a process but must
not be reached by the kernel itself. -/
def terminate (env : Env) (s : Machine) (isSuper : Word) : Handled :=
  if isSuper ≠ 0 then .panic else .ret (cppRet env s s 1)

def ecallHandler (env : Env) (s : Machine) : Handled :=
  let ctx := s.mscratch
  let syscall := s.regs .a0
  let a1 := s.regs .a1
  let isSuper := field s ctx .isSuper
  if syscall = sysAbicall then
    if isSuper ≠ 0 then .panic
    else if 0 ≤ a1.toInt ∧ a1 < field s ctx .uAbiSize then
      .call (makeABICall env (abiCallSite env s))
    else terminate env s isSuper
  else if syscall = sysExit then
    if isSuper ≠ 0 then .panic else .ret (cppRet env s s 1)
  else if syscall = sysUserjump then
    if isSuper = 0 then .ret (cppRet env s s 1) else .ret (cppRet env s s 0)
  else if syscall = sysUserenter then
    if isSuper = 0 then .ret (cppRet env s s 1)
    else .ret (cppRet env s (userenter s) 0)
  else terminate env s isSuper

/-- `trapHandler` prints what happened; it decides nothing but whether it was
the kernel that trapped. -/
def trapHandler (env : Env) (s : Machine) : Handled :=
  if field s s.mscratch .isSuper ≠ 0 then .panic else .ret (cppRet env s s 1)

/-! ### `trap.S` -/

/-- `customTrap`. The `auipc`/`lw` pair at its end picks up the word behind the
jump, which holds the address of `customTrap0`. -/
def customTrap (env : Env) : List Instr :=
  [ .csrrw .t0 .mscratch .t0,
    .sw .t1 (ctxScratch 1) .t0,
    .sw .t2 (ctxScratch 2) .t0,
    .sw .t3 (ctxScratch 3) .t0,
    .csrrw .t1 .mscratch .t0,
    .sw .t1 (ctxScratch 0) .t0,
    .li .t1 env.customTrap0 ]

def decideMode : List Instr :=
  [ .csrr .t1 .mstatus,
    .sw .t1 (ctxScratch 4) .t0,
    .csrr .t3 .mepc,
    .sw .t3 (ctxScratch 5) .t0,
    .lw .t1 ctxIsSuper .t0 ]

def mtrap : List Instr :=
  [ .sw .t3 ctxMPc .t0,
    .addi .t3 .t0 ctxMReg,
    .sw .t3 (ctxScratch 6) .t0 ]

def utrap : List Instr :=
  [ .sw .t3 ctxUPc .t0,
    .addi .t3 .t0 ctxUReg,
    .sw .t3 (ctxScratch 6) .t0 ]

/-- The registers that `.saveregs` stores directly and `.restore` loads
directly, in their order. -/
def remainingRegs (env : Env) : List Reg :=
  [.ra, .sp]
    ++ (if env.preserveGp then [.gp] else [])
    ++ (if env.preserveTp then [.tp] else [])
    ++ [.s0, .s1, .a0, .a1, .a2, .a3, .a4, .a5, .a6, .a7,
      .s2, .s3, .s4, .s5, .s6, .s7, .s8, .s9, .s10, .s11, .t4, .t5, .t6]

/-- Transfer scratch data. -/
def transferScratch : List Instr :=
  [ .lw .t1 (ctxScratch 0) .t0, .sw .t1 (rs .t0) .t3,
    .lw .t1 (ctxScratch 1) .t0, .sw .t1 (rs .t1) .t3,
    .lw .t1 (ctxScratch 2) .t0, .sw .t1 (rs .t2) .t3,
    .lw .t1 (ctxScratch 3) .t0, .sw .t1 (rs .t3) .t3 ]

def saveregs (env : Env) : List Instr :=
  transferScratch
    -- Preserve remaining registers.
    ++ saveAll rs .t3 (remainingRegs env)

/-- Load bare minimum machine regs. -/
def machineRegs (env : Env) : List Instr :=
  [.lw .sp ctxMRegSp .t0]
    ++ (if env.preserveGp then [.lw .gp ctxMRegGp .t0] else [])
    ++ (if env.preserveTp then [.lw .tp ctxMRegTp .t0] else [])

/-- Restore return address and status. -/
def restoreCsrs : List Instr :=
  [ .lw .t1 (ctxScratch 5) .t0,
    .csrw .mepc .t1,
    .lw .t1 (ctxScratch 4) .t0,
    .csrw .mstatus .t1 ]

def restoreTemps : List Instr :=
  [ .lw .t1 (rs .t0) .t3, .sw .t1 (ctxScratch 0) .t0,
    .lw .t1 (rs .t1) .t3, .sw .t1 (ctxScratch 1) .t0,
    .lw .t1 (rs .t2) .t3, .sw .t1 (ctxScratch 2) .t0,
    .lw .t1 (rs .t3) .t3, .sw .t1 (ctxScratch 3) .t0,
    -- Enable interrupts.
    .li .t1 0x80, .csrs .mstatus .t1,
    -- Restore tempregs.
    .lw .t1 (ctxScratch 0) .t0,
    .csrw .mscratch .t1,
    .lw .t3 (ctxScratch 3) .t0,
    .lw .t2 (ctxScratch 2) .t0,
    .lw .t1 (ctxScratch 1) .t0,
    .csrrw .t0 .mscratch .t0 ]

/-- `.restore`, up to its `mret`. -/
def restore (env : Env) : List Instr :=
  restoreCsrs
    -- Restore registers.
    ++ loadAll rs .t3 (remainingRegs env)
    ++ restoreTemps

/-- `.urestore`, up to its jump to `.restore`. -/
def restoreToU : List Instr :=
  [ -- Set restore context to U-mode.
    .addi .t3 .t0 ctxUReg,
    -- Set MPP to 0.
    .li .t1 0xffffe7ff,
    .lw .t2 (ctxScratch 4) .t0,
    .and .t1 .t2 .t1,
    .sw .t1 (ctxScratch 4) .t0,
    -- Set to non-supervisor mode.
    .li .t1 0,
    .sw .t1 ctxIsSuper .t0,
    -- Set new PC.
    .lw .t1 ctxUPc .t0,
    .sw .t1 (ctxScratch 5) .t0 ]

/-- `.mrestore`, up to its jump to `.restore`. -/
def restoreToM : List Instr :=
  [ -- Set restore context to M-mode.
    .addi .t3 .t0 ctxMReg,
    -- Set MPP to 3.
    .li .t1 0x00001800,
    .lw .t2 (ctxScratch 4) .t0,
    .or .t1 .t2 .t1,
    .sw .t1 (ctxScratch 4) .t0,
    -- Set to supervisor mode.
    .li .t1 1,
    .sw .t1 ctxIsSuper .t0,
    -- Set new PC.
    .lw .t1 ctxMPc .t0,
    .sw .t1 (ctxScratch 5) .t0 ]

def urestore (env : Env) : List Instr := restoreToU ++ restore env

def mrestore (env : Env) : List Instr := restoreToM ++ restore env

/-- `.checkRestore`; the end of `.uhandleEcall` is the same code. -/
def checkRestore (env : Env) (s : Machine) : Machine :=
  let s := s.exec [.csrr .t0 .mscratch]
  if s.regs .a0 ≠ 0 then s.exec (mrestore env) else s.exec (urestore env)

/-- Continue behind the call of a handler that was entered in state `h`. -/
def afterHandler (env : Env) (h : Machine) : Handled → Trapped
  | .ret s => .mret h (checkRestore env s)
  | .call body => .call h body
  | .panic => .panic h

/-- `.uhandleEcall`, up to the call of `ecallHandler`. -/
def advanceUPc (env : Env) : List Instr :=
  [ .lw .t1 ctxUPc .t0,
    .addi .t1 .t1 4,
    .sw .t1 ctxUPc .t0,
    .sw .t1 (ctxScratch 5) .t0,
    .li .ra env.handlerLink ]

/-- `.mhandleEcall`, up to the call of `ecallHandler`. -/
def advanceMPc (env : Env) : List Instr :=
  [ .lw .t1 ctxMPc .t0,
    .addi .t1 .t1 4,
    .sw .t1 ctxMPc .t0,
    .sw .t1 (ctxScratch 5) .t0,
    .li .ra env.handlerLink ]

/-- `.mforward` and `.uforward`, up to the call of `trapHandler`, which runs
with interrupts enabled. -/
def enableInterrupts (env : Env) : List Instr :=
  [.li .t1 0x08, .csrs .mstatus .t1, .li .ra env.handlerLink]

def uhandleEcall (env : Env) (s : Machine) : Trapped :=
  let s := s.exec (advanceUPc env)
  afterHandler env s (ecallHandler env s)

def mhandleEcall (env : Env) (s : Machine) : Trapped :=
  let s := s.exec (advanceMPc env)
  afterHandler env s (ecallHandler env s)

/-- Behind the call of `trapHandler` interrupts are disabled again. -/
def disableInterrupts : List Instr :=
  [.li .t1 0x08, .csrc .mstatus .t1]

/-- The shared text of `.mforward` and `.uforward`. -/
def forwardTrap (env : Env) (s : Machine) : Trapped :=
  let s := s.exec (enableInterrupts env)
  match trapHandler env s with
  | .ret r => afterHandler env s (.ret (r.exec disableInterrupts))
  | left => afterHandler env s left

def mforward (env : Env) : Machine → Trapped := forwardTrap env
def uforward (env : Env) : Machine → Trapped := forwardTrap env

/-- `customTrap0` up to the check for ECALL. -/
def trapEntry (env : Env) (s : Machine) : Machine :=
  let s := s.exec decideMode
  let s := if s.regs .t1 = 0 then s.exec utrap else s.exec mtrap
  s.exec (saveregs env ++ machineRegs env)

def customTrap0 (env : Env) (s : Machine) : Trapped :=
  let s := trapEntry env s
  let s := s.exec [.csrr .t1 .mcause, .li .t2 8]
  if s.regs .t1 = s.regs .t2 then uhandleEcall env s
  else
    let s := s.exec [.li .t2 11]
    if s.regs .t1 = s.regs .t2 then mhandleEcall env s
    else
      let s := s.exec [.lw .t1 ctxIsSuper .t0]
      if s.regs .t1 = 0 then uforward env s else mforward env s

/-- A synchronous trap, from the instruction that raised it. Entry 0 of the
vector table leads to `customTrap`. -/
def trap (env : Env) (s : Machine) (cause : Word) : Trapped :=
  customTrap0 env ((s.takeTrap cause).exec (customTrap env))

/-- The way back from a native function: the rest of `makeABICall`, the rest of
`ecallHandler`, which was entered in state `h`, and the exit of the trap. The
result is the state at the `mret`. Compiled code can only go on if the function
it called has come back to the call site with the callee-saved registers as
they were. -/
def abiReturn (env : Env) (h s : Machine) : Option Machine :=
  let s := s.exec makeABICallExit
  let site := abiCallSite env h
  if s.regs .ra = site.regs .ra ∧ ∀ r, r.calleeSaved → s.regs r = site.regs r then
    let s := s.store (h.mscratch + Field.isSuper.offset) 0
    some (checkRestore env (cppRet env h s 0))
  else none

/-! ### `interrupt.S` -/

/-- The addresses that the build fixes for `interrupt.S`. -/
structure Forwarder where
  /-- Address of `customISR0`. -/
  customISR0 : Word
  /-- Address of the label `.restore` in `customISR0`. -/
  restore : Word
  interruptVectorTable : Word

def Forwarder.sample : Forwarder where
  customISR0 := 0x42000500
  restore := 0x42000540
  interruptVectorTable := 0x3fc80000

/-- `customISR`, which ends like `customTrap` does. -/
def customISR (isr : Forwarder) : List Instr :=
  [ .csrrw .t0 .mscratch .t0,
    .sw .t1 (ctxScratch 1) .t0,
    .sw .t2 (ctxScratch 2) .t0,
    .sw .t3 (ctxScratch 3) .t0,
    .csrrw .t1 .mscratch .t0,
    .sw .t1 (ctxScratch 0) .t0,
    .li .t1 isr.customISR0 ]

/-- Preserve CSRs. -/
def preserveCsrs : List Instr :=
  [ .csrr .t1 .mstatus,
    .sw .t1 (ctxScratch 4) .t0,
    .csrr .t1 .mepc,
    .sw .t1 (ctxScratch 5) .t0 ]

def prepareForward (isr : Forwarder) : List Instr :=
  [ -- Disable interrupts.
    .li .t1 0x00000080,
    .csrc .mstatus .t1,
    -- Set return address.
    .li .t1 isr.restore,
    .csrw .mepc .t1,
    -- Upgrade privilege to M-mode.
    .li .t1 0x00001800,
    .csrs .mstatus .t1 ]

/-- Get forwarded address. -/
def forwardedAddress (isr : Forwarder) (s : Machine) : Machine :=
  let s := s.exec [.csrr .t1 .mcause]
  -- andi, slli
  let s := s.setReg .t1 (s.regs .t1 &&& 0x1f)
  let s := s.setReg .t1 (s.regs .t1 <<< 2)
  let s := s.exec [.li .t2 isr.interruptVectorTable]
  -- add
  let s := s.setReg .t1 (s.regs .t2 + s.regs .t1)
  s.exec [.lw .t1 0 .t1]

/-- `customISR0` up to its jump into the forwarded handler. -/
def customISR0 (isr : Forwarder) (s : Machine) : Machine :=
  (forwardedAddress isr (s.exec (preserveCsrs ++ prepareForward isr))).jump .t1

/-- An interrupt, from the instruction in front of which it is taken to the
first instruction of the forwarded handler. -/
def interrupt (isr : Forwarder) (s : Machine) (cause : Word) : Machine :=
  customISR0 isr ((s.takeTrap cause).exec (customISR isr))

/-- `.restore` of `customISR0`, up to its `mret`. -/
def isrRestore : List Instr :=
  [ -- Restore CSRs.
    .lw .t1 (ctxScratch 4) .t0,
    .li .t2 0x00001880,
    .and .t1 .t2 .t1,
    .csrs .mstatus .t1,
    .lw .t1 (ctxScratch 5) .t0,
    .csrw .mepc .t1,
    -- Restore tempregs.
    .lw .t1 (ctxScratch 0) .t0,
    .csrw .mscratch .t1,
    .lw .t3 (ctxScratch 3) .t0,
    .lw .t2 (ctxScratch 2) .t0,
    .lw .t1 (ctxScratch 1) .t0,
    .csrrw .t0 .mscratch .t0 ]

/-- The way back from a forwarded handler that has come to its `mret` in state
`f`: that `mret`, the rest of `customISR0`, and the `mret` at its end. -/
def afterForward (isr : Forwarder) (f : Machine) : Option Machine :=
  let s := f.mret
  if s.pc = isr.restore ∧ s.priv = .machine then some (s.exec isrRestore).mret else none

end BadgeElfloader.Kernel
