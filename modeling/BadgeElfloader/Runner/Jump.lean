import BadgeElfloader.Riscv.Blocks
import BadgeElfloader.Riscv.Copy
import BadgeElfloader.Runner.Exit

/-!
Leaving an app in the build without the kernel.

`_badgert_jump_to_app` saves a frame and leaves the address of its second half,
and the stack pointer, in the context of the process. The entry function of the
app returns to that address; `appExited` jumps there from wherever it is called.
Any number of tasks run such code in one memory.
-/

namespace BadgeElfloader.Runner

open Riscv (Word Reg Instr Machine saveAll loadAll exec_saveAll exec_loadAll nth Apart)
open Abi Transition

/-! ### The code -/

/-- What the code depends on: the address of `.exit`, where the contexts have
their `exitPC` and `exitSP`, and the registers of the three operands in
`appExited`. -/
structure AppCode where
  exit : Word
  exitPC : Pid → Word
  exitSP : Pid → Word
  ecReg : Reg
  spReg : Reg
  pcReg : Reg
  exitEven : exit &&& ~~~ 1 = exit
  spReg_ne : spReg ≠ .a0
  pcReg_ne_a0 : pcReg ≠ .a0
  pcReg_ne_sp : pcReg ≠ .sp

/-- The registers of the frame. -/
def frameRegs : List Reg :=
  [.ra, .s0, .s1, .s2, .s3, .s4, .s5, .s6, .s7, .s8, .s9, .s10, .s11]

/-- Preserve all callee-save registers. -/
def saveFrame : List Instr :=
  [.sw .ra 0 .sp, .sw .s0 4 .sp, .sw .s1 8 .sp, .sw .s2 12 .sp, .sw .s3 16 .sp, .sw .s4 20 .sp,
    .sw .s5 24 .sp, .sw .s6 28 .sp, .sw .s7 32 .sp, .sw .s8 36 .sp, .sw .s9 40 .sp,
    .sw .s10 44 .sp, .sw .s11 48 .sp]

/-- Restore all callee-save registers. -/
def restoreFrame : List Instr :=
  [.lw .ra 0 .sp, .lw .s0 4 .sp, .lw .s1 8 .sp, .lw .s2 12 .sp, .lw .s3 16 .sp, .lw .s4 20 .sp,
    .lw .s5 24 .sp, .lw .s6 28 .sp, .lw .s7 32 .sp, .lw .s8 36 .sp, .lw .s9 40 .sp,
    .lw .s10 44 .sp, .lw .s11 48 .sp]

/-- `_badgert_jump_to_app`, up to the jump to the entry function in `a3`. -/
def jumpToApp (code : AppCode) (s : Machine) : Machine :=
  (s.exec ([.addi .sp .sp (-64)] ++ saveFrame ++
    [.li .ra code.exit, .sw .ra 0 .a4, .sw .sp 0 .a5])).jump .a3

/-- `_badgert_jump_to_app` from `.exit` on. -/
def exitApp (s : Machine) : Machine := (s.exec (restoreFrame ++ [.addi .sp .sp 64])).jump .ra

/-- The assembly of `appExited`. -/
def appExited (code : AppCode) (s : Machine) : Machine :=
  (s.exec [.mv .a0 code.ecReg, .mv .sp code.spReg]).jump code.pcReg

/-! ### One call -/

def frameOff : Reg → Word
  | .ra => 0 | .s0 => 4 | .s1 => 8 | .s2 => 12 | .s3 => 16 | .s4 => 20 | .s5 => 24
  | .s6 => 28 | .s7 => 32 | .s8 => 36 | .s9 => 40 | .s10 => 44 | .s11 => 48
  | _ => 52

theorem saveFrame_eq : saveFrame = saveAll frameOff .sp frameRegs := rfl

theorem restoreFrame_eq : restoreFrame = loadAll frameOff .sp frameRegs := rfl

theorem frameOff_injOn : Set.InjOn frameOff {r | r ∈ frameRegs} := by
  have hall : ∀ r ∈ frameRegs, ∀ q ∈ frameRegs, frameOff r = frameOff q → r = q := by decide
  exact fun r hr q hq => hall r hr q hq

/-- The word of a register in the frame at `fp`. -/
theorem frameOff_eq_nth {r : Reg} (hr : r ∈ frameRegs) : ∃ i < 16, ∀ fp : Word,
    fp + frameOff r = nth fp i := by
  have hall : ∀ r ∈ frameRegs, ∃ i < 16, frameOff r = BitVec.ofNat 32 (4 * i) := by decide
  obtain ⟨i, hi, heq⟩ := hall r hr
  exact ⟨i, hi, fun fp => by rw [heq, nth]⟩

/-- The words that process `pid`, with its frame at `fp`, needs to get back. -/
def Needs (code : AppCode) (fp : Word) (pid : Pid) (a : Word) : Prop :=
  (∃ i < 16, a = nth fp i) ∨ a = code.exitPC pid ∨ a = code.exitSP pid

/-- The caller passes the fields of the context of `pid`, which are no part of
the stack below `sp`. -/
structure Caller (code : AppCode) (pid : Pid) (s : Machine) : Prop where
  a4 : s.regs .a4 = code.exitPC pid
  a5 : s.regs .a5 = code.exitSP pid
  fields : code.exitPC pid ≠ code.exitSP pid
  pcApart : ∀ i < 16, nth (s.regs .sp - 64) i ≠ code.exitPC pid
  spApart : ∀ i < 16, nth (s.regs .sp - 64) i ≠ code.exitSP pid

/-- The memory is such that a process can get back to `caller`. -/
structure Saved (code : AppCode) (pid : Pid) (caller : Machine) (mem : Word → Word) : Prop where
  frame : ∀ r ∈ frameRegs, mem (caller.regs .sp - 64 + frameOff r) = caller.regs r
  exitPC : mem (code.exitPC pid) = code.exit
  exitSP : mem (code.exitSP pid) = caller.regs .sp - 64

/-- `_badgert_jump_to_app` has returned `c` to `caller`. -/
structure ReturnedTo (caller : Machine) (c : Word) (s : Machine) : Prop where
  pc : s.pc = caller.regs .ra &&& ~~~ 1
  a0 : s.regs .a0 = c
  sp : s.regs .sp = caller.regs .sp
  saved : ∀ r ∈ frameRegs, s.regs r = caller.regs r

section call

variable {code : AppCode} {pid : Pid} {caller s : Machine} {c : Word} {mem mem' : Word → Word}

theorem jumpToApp_regs (code : AppCode) (s : Machine) :
    (jumpToApp code s).regs .sp = s.regs .sp - 64 ∧ (jumpToApp code s).regs .ra = code.exit := by
  simp only [jumpToApp, saveFrame_eq, Machine.exec_append]
  rw [exec_saveAll _ _ frameOff_injOn]
  simp [Machine.jump, Instr.exec, BitVec.sub_eq_add_neg]

theorem jumpToApp_mem (code : AppCode) (s : Machine) (a : Word) : (jumpToApp code s).mem a =
    if a = s.regs .a5 then s.regs .sp - 64
    else if a = s.regs .a4 then code.exit
    else (s.setReg .sp (s.regs .sp - 64)).savedMem frameOff (s.regs .sp - 64) frameRegs a := by
  simp only [jumpToApp, saveFrame_eq, Machine.exec_append]
  rw [exec_saveAll _ _ frameOff_injOn]
  simp [Machine.jump, Instr.exec, BitVec.sub_eq_add_neg]

/-- Calling saves what is needed to get back. -/
theorem Caller.saved (h : Caller code pid s) : Saved code pid s (jumpToApp code s).mem where
  frame r hr := by
    obtain ⟨i, hi, hnth⟩ := frameOff_eq_nth hr
    have hsp : r ≠ .sp := by
      rintro rfl
      exact absurd hr (by decide)
    have h5 : s.regs .sp - 64 + frameOff r ≠ s.regs .a5 := by
      rw [hnth, h.a5]
      exact h.spApart i hi
    have h4 : s.regs .sp - 64 + frameOff r ≠ s.regs .a4 := by
      rw [hnth, h.a4]
      exact h.pcApart i hi
    rw [jumpToApp_mem, if_neg h5, if_neg h4, Machine.savedMem_of_mem frameOff_injOn hr,
      Machine.regs_setReg, if_neg hsp]
  exitPC := by
    rw [jumpToApp_mem, h.a5, h.a4, if_neg h.fields, if_pos rfl]
  exitSP := by
    rw [jumpToApp_mem, h.a5, if_pos rfl]

/-- Calling writes nothing else. -/
theorem Caller.mem_other (h : Caller code pid s) {a : Word}
    (ha : ¬ Needs code (s.regs .sp - 64) pid a) : (jumpToApp code s).mem a = s.mem a := by
  rw [Needs, not_or, not_or] at ha
  obtain ⟨hframe, hpc, hsp⟩ := ha
  rw [jumpToApp_mem, h.a5, h.a4, if_neg hsp, if_neg hpc, Machine.savedMem_of_forall_ne,
    Machine.mem_setReg]
  intro r hr heq
  obtain ⟨i, hi, hnth⟩ := frameOff_eq_nth hr
  exact hframe ⟨i, hi, by rw [heq, hnth]⟩

theorem Saved.congr (h : Saved code pid caller mem)
    (hmem : ∀ a, Needs code (caller.regs .sp - 64) pid a → mem' a = mem a) :
    Saved code pid caller mem' where
  frame r hr := by
    obtain ⟨i, hi, hnth⟩ := frameOff_eq_nth hr
    rw [hmem _ (.inl ⟨i, hi, hnth _⟩)]
    exact h.frame r hr
  exitPC := by
    rw [hmem _ (.inr (.inl rfl))]
    exact h.exitPC
  exitSP := by
    rw [hmem _ (.inr (.inr rfl))]
    exact h.exitSP

/-- From `.exit`, with the stack pointer at the frame. -/
theorem Saved.exitApp (h : Saved code pid caller s.mem) (hsp : s.regs .sp = caller.regs .sp - 64) :
    ReturnedTo caller (s.regs .a0) (exitApp s) := by
  have hload : ∀ r, r ∈ frameRegs → s.mem (s.regs .sp + frameOff r) = caller.regs r := by
    rw [hsp]
    exact h.frame
  have hregs : ∀ r, (Runner.exitApp s).regs r =
      if r = .sp then caller.regs .sp else if r ∈ frameRegs then caller.regs r else s.regs r := by
    intro r
    simp only [Runner.exitApp, restoreFrame_eq, Machine.exec_append]
    rw [exec_loadAll _ _ _ _ (by decide)]
    simp only [Machine.jump, Machine.exec_cons, Machine.exec_nil, Instr.exec, Machine.regs_setReg]
    split
    · rw [if_neg (by decide), hsp, BitVec.sub_add_cancel]
    · split
      · rename_i hr
        exact hload r hr
      · rfl
  have hra := hregs .ra
  rw [if_neg (by decide), if_pos (by decide)] at hra
  refine ⟨?_, ?_, ?_, fun r hr => ?_⟩
  · rw [← hra]
    rfl
  · rw [hregs, if_neg (by decide), if_neg (by decide)]
  · rw [hregs, if_pos rfl]
  · rw [hregs, if_neg, if_pos hr]
    rintro rfl
    exact absurd hr (by decide)

/-- `appExited` goes to `.exit`, with the stack pointer at the frame. -/
theorem Saved.appExited (h : Saved code pid caller s.mem) (hec : s.regs code.ecReg = c)
    (hsp : s.regs code.spReg = s.mem (code.exitSP pid))
    (hpc : s.regs code.pcReg = s.mem (code.exitPC pid)) :
    (appExited code s).pc = code.exit ∧ (appExited code s).mem = s.mem ∧
      (appExited code s).regs .sp = caller.regs .sp - 64 ∧ (appExited code s).regs .a0 = c := by
  rw [h.exitSP] at hsp
  rw [h.exitPC] at hpc
  have hne := code.spReg_ne
  have hpca0 := code.pcReg_ne_a0
  have hpcsp := code.pcReg_ne_sp
  simp only [Runner.appExited, Machine.jump, Machine.exec_cons, Machine.exec_nil, Instr.exec]
  refine ⟨?_, rfl, ?_, ?_⟩
  · simpa [hpca0, hpcsp, hpc] using code.exitEven
  · simp [hne, hsp]
  · simp [hec]

end call

/-! ### Many tasks -/

/-- The processes, their memory, the machine of the task of each, and the machine
with which its entry function was called. -/
structure TaskSystem (ι : Type) where
  sys : System ι
  mem : Word → Word
  task : ι → Machine
  entry : ι → Machine

/-- The machine of a task, which sees the memory of all. -/
def TaskSystem.machine {ι : Type} (s : TaskSystem ι) (p : ι) : Machine :=
  { s.task p with mem := s.mem }

def TaskSystem.running {ι : Type} (s : TaskSystem ι) (p : ι) : Prop :=
  (s.sys.process p).stage = .running

/-- What `p` needs to get back. -/
def TaskSystem.Needs {ι : Type} (code : AppCode) (s : TaskSystem ι) (p : ι) : Word → Prop :=
  Runner.Needs code ((s.entry p).regs .sp) (s.sys.process p).actx

inductive TaskEvent (ι : Type)
  | other
  | enter (p : ι) (caller : Machine)
  | leave (p : ι) (c : Word)

variable {ι : Type} [DecidableEq ι]

inductive TaskStep (code : AppCode) : TaskSystem ι → TaskEvent ι → TaskSystem ι → Prop
  /-- Apps run and call ABI functions, and processes start and end. All of that
  leaves intact what running apps need to get back. -/
  | other {s : TaskSystem ι} {sys : System ι} {mem : Word → Word} {task : ι → Machine}
      (ev : Option (Event ι)) :
      (ev.elim (sys = s.sys) fun ev => SystemStep false s.sys ev sys) →
      (∀ q, (sys.process q).stage = .running ↔ s.running q) →
      (∀ q, s.running q → ∀ a, s.Needs code q a → mem a = s.mem a) →
      TaskStep code s .other ⟨sys, mem, task, s.entry⟩
  /-- `taskCode` calls `_badgert_jump_to_app`. -/
  | enter {s : TaskSystem ι} {sys : System ι} {p : ι} {caller : Machine} :
      SystemStep false s.sys .other sys → (s.sys.process p).stage = .created →
      (sys.process p).stage = .running → caller.mem = s.mem →
      Caller code (s.sys.process p).actx caller →
      (∀ q, s.running q → ∀ a, s.Needs code q a →
        ¬ Runner.Needs code (caller.regs .sp - 64) (s.sys.process p).actx a) →
      TaskStep code s (.enter p caller)
        ⟨sys, (jumpToApp code caller).mem, Function.update s.task p (jumpToApp code caller),
          Function.update s.entry p (jumpToApp code caller)⟩
  /-- The entry function returns `c`, as the calling convention says. -/
  | ret {s : TaskSystem ι} {sys : System ι} {p : ι} {c : Word} {m : Machine} :
      SystemStep false s.sys (.leave p (.ret c)) sys → m.mem = s.mem →
      m.pc = (s.entry p).regs .ra &&& ~~~ 1 → m.regs .sp = (s.entry p).regs .sp →
      m.regs .a0 = c →
      TaskStep code s (.leave p c) ⟨sys, s.mem, Function.update s.task p m, s.entry⟩
  /-- `appExited` is called with `c`, and `getContext()` returns the context of
  `pid`. -/
  | exit {s : TaskSystem ι} {sys : System ι} {p : ι} {c : Word} {m : Machine} {pid : Pid} :
      SystemStep false s.sys
        (.call p (.exit c) (s.sys.process p).actx (some pid) s.sys.registry s.sys.registry) sys →
      m.mem = s.mem → m.regs code.ecReg = c → m.regs code.spReg = s.mem (code.exitSP pid) →
      m.regs code.pcReg = s.mem (code.exitPC pid) →
      TaskStep code s (.leave p c)
        ⟨sys, s.mem, Function.update s.task p (appExited code m), s.entry⟩

section tasks

variable {code : AppCode} {s s' : TaskSystem ι} {sys sys' : System ι} {p : ι} {caller : Machine}
  {c : Word} {ev : Event ι} {tev : TaskEvent ι}

/-- The invariant of `p` in its app: it can get back to `caller`. -/
structure InApp (code : AppCode) (p : ι) (caller : Machine) (s : TaskSystem ι) : Prop where
  saved : Saved code (s.sys.process p).actx caller s.mem
  sp : (s.entry p).regs .sp = caller.regs .sp - 64
  ra : (s.entry p).regs .ra = code.exit
  threadPID : (s.sys.process p).threadPID = (s.sys.process p).actx

/-- What a step does to the processes: it makes one, it lets one into its user
code, or it changes neither context nor thread. -/
inductive ProcessStep (p q : Process) : Prop
  | start (unborn : p.stage = .unborn) (loading : q.stage = .loading)
  | taskCode (created : p.stage = .created) (actx : q.actx = p.actx)
      (threadPID : q.threadPID = p.actx)
  | same (actx : q.actx = p.actx) (threadPID : q.threadPID = p.threadPID)
      (running : q.stage = .running → p.stage = .running)
      (leaves : p.stage = .running → q.stage = .running ∨ q.stage.past)

theorem SystemStep.process_step (hstep : SystemStep false sys ev sys') :
    ∃ q, ProcessStep (sys.process q) (sys'.process q) ∧
      ∀ p, p ≠ q → sys'.process p = sys.process p := by
  have hothers : ∀ (q : ι) (r : Registry) (pr : Process) (p : ι), p ≠ q →
      (sys.update q r pr).process p = sys.process p := fun q r pr p hp =>
    Function.update_of_ne hp _ _
  cases hstep with
  | @start q cb _ hq =>
      exact ⟨q, .start hq (by simp [System.update]), fun _ hp => Function.update_of_ne hp _ _⟩
  | @taskCode q _ hq => exact ⟨q, .taskCode hq (by simp) (by simp), hothers q _ _⟩
  | @useContext q op _ hq =>
      exact ⟨q, .same (by simp) (by simp) (by simp) (by simpa using .inl), hothers q _ _⟩
  | @abandon q _ hq => exact ⟨q, .same (by simp) (by simp) (by simp) (by simp [hq]), hothers q _ _⟩
  | @createTask q _ hq =>
      exact ⟨q, .same (by simp) (by simp) (by simp) (by simp [hq]), hothers q _ _⟩
  | @noStack q hkernel _ hq => cases hkernel
  | @call q r fn _ hq hcall =>
      refine ⟨q, .same (by simp) ?_ (fun _ => hq) fun _ => ?_, hothers q _ _⟩
      · rw [System.update_process_self]
        cases fn <;> rfl
      · rw [System.update_process_self]
        cases fn with
        | exit c => exact .inr rfl
        | _ => exact .inl hq
  | @crash q fn _ hq hcall => exact ⟨q, .same rfl rfl id .inl, fun _ _ => rfl⟩
  | @leave q how _ hq _ =>
      exact ⟨q, .same (by simp) (by simp) (by simp) fun _ => .inr (by simp [Stage.past]),
        hothers q _ _⟩
  | @deleteContext q _ hq =>
      exact ⟨q, .same (by simp) (by simp) (by simp) (by simp [hq]), hothers q _ _⟩

/-- No step changes the context of a running process. -/
theorem SystemStep.running_same (hstep : SystemStep false sys ev sys')
    (hp : (sys.process p).stage = .running) :
    (sys'.process p).actx = (sys.process p).actx ∧
      (sys'.process p).threadPID = (sys.process p).threadPID ∧
      ((sys'.process p).stage = .running ∨ (sys'.process p).stage.past) := by
  obtain ⟨q, hq, hothers⟩ := hstep.process_step
  by_cases hpq : p = q
  · subst hpq
    cases hq with
    | start hunborn _ => simp [hp] at hunborn
    | taskCode hcreated _ _ => simp [hp] at hcreated
    | same hactx hthread _ hleaves => exact ⟨hactx, hthread, hleaves hp⟩
  · rw [hothers p hpq]
    exact ⟨rfl, rfl, .inl hp⟩

/-- A process comes into its user code with its context set. -/
theorem SystemStep.enters (hstep : SystemStep false sys ev sys')
    (hp : (sys.process p).stage = .created) (hp' : (sys'.process p).stage = .running) :
    (sys'.process p).actx = (sys.process p).actx ∧
      (sys'.process p).threadPID = (sys.process p).actx ∧
      ∀ q, q ≠ p → sys'.process q = sys.process q := by
  obtain ⟨q, hq, hothers⟩ := hstep.process_step
  by_cases hpq : p = q
  · subst hpq
    cases hq with
    | start hunborn _ => simp [hp] at hunborn
    | taskCode _ hactx hthread => exact ⟨hactx, hthread, hothers⟩
    | same _ _ hrunning _ => simp [hrunning hp'] at hp
  · rw [hothers p hpq, hp] at hp'
    cases hp'

/-- Entering the app. -/
theorem TaskStep.enter_inv (hstep : TaskStep code s (.enter p caller) s') :
    s'.running p ∧ InApp code p caller s' := by
  cases hstep with
  | @enter sys' _ _ hsys hp hp' hmem hcaller hapart =>
      obtain ⟨hactx, hthread, -⟩ := hsys.enters hp hp'
      obtain ⟨hsp, hra⟩ := jumpToApp_regs code caller
      refine ⟨hp', ⟨?_, ?_, ?_, ?_⟩⟩
      · simp only [hactx]
        exact hcaller.saved
      · simp only [Function.update_self]
        exact hsp
      · simp only [Function.update_self]
        exact hra
      · simp only [hactx, hthread]

omit [DecidableEq ι] in
/-- A step that keeps what `p` needs keeps it in its app. -/
theorem InApp.keep (h : InApp code p caller s)
    (hactx : (s'.sys.process p).actx = (s.sys.process p).actx)
    (hthread : (s'.sys.process p).threadPID = (s.sys.process p).threadPID)
    (hentry : s'.entry p = s.entry p) (hmem : ∀ a, s.Needs code p a → s'.mem a = s.mem a) :
    InApp code p caller s' where
  saved := by
    rw [hactx]
    refine h.saved.congr fun a ha => hmem a ?_
    rw [TaskSystem.Needs, h.sp]
    exact ha
  sp := by
    rw [hentry]
    exact h.sp
  ra := by
    rw [hentry]
    exact h.ra
  threadPID := by
    rw [hactx, hthread]
    exact h.threadPID

/-- A running process stays in its app, or it leaves it for good. -/
theorem InApp.step (h : InApp code p caller s) (hp : s.running p) (hstep : TaskStep code s tev s') :
    InApp code p caller s' ∧ (s'.running p ∨ (s'.sys.process p).stage.past) := by
  cases hstep with
  | @other sys' mem task ev hsys hrunning hmem =>
      have hsame : (sys'.process p).actx = (s.sys.process p).actx ∧
          (sys'.process p).threadPID = (s.sys.process p).threadPID := by
        cases ev with
        | none => exact (show sys' = s.sys from hsys) ▸ ⟨rfl, rfl⟩
        | some ev =>
            obtain ⟨hactx, hthread, -⟩ := SystemStep.running_same hsys hp
            exact ⟨hactx, hthread⟩
      exact ⟨h.keep hsame.1 hsame.2 rfl (hmem p hp), .inl ((hrunning p).mpr hp)⟩
  | @enter sys' q caller' hsys hq hq' hmem hcaller hapart =>
      have hpq : p ≠ q := by
        rintro rfl
        rw [TaskSystem.running, hq] at hp
        cases hp
      have hsame := (hsys.enters hq hq').2.2 p hpq
      refine ⟨h.keep ?_ ?_ (Function.update_of_ne hpq _ _) fun a ha => ?_, .inl ?_⟩
      · simp only [hsame]
      · simp only [hsame]
      · exact (hcaller.mem_other (hapart p hp a ha)).trans (congrFun hmem a)
      · rw [TaskSystem.running, hsame]
        exact hp
  | ret hsys | exit hsys =>
      obtain ⟨hactx, hthread, hstage⟩ := hsys.running_same hp
      exact ⟨h.keep hactx hthread rfl fun _ _ => rfl, hstage⟩

theorem TaskStep.past (hstep : TaskStep code s tev s') (hp : (s.sys.process p).stage.past) :
    (s'.sys.process p).stage.past := by
  cases hstep with
  | @other sys' _ _ ev hsys =>
      cases ev with
      | none => exact (show sys' = s.sys from hsys) ▸ hp
      | some ev => exact (SystemStep.past hsys hp).1
  | enter hsys | ret hsys | exit hsys => exact (hsys.past hp).1

/-- What holds of a process from its entry on. -/
theorem inApp_of_run {ls : List (TaskEvent ι)} (hrun : Run (TaskStep code) s ls s')
    (hp : s.running p) (h : InApp code p caller s) :
    s'.running p ∧ InApp code p caller s' ∨ (s'.sys.process p).stage.past :=
  hrun.invariant (P := fun u => u.running p ∧ InApp code p caller u ∨ (u.sys.process p).stage.past)
    (fun u tev v hu hstep => by
      obtain ⟨hup, hin⟩ | hpast := hu
      · obtain ⟨hin', hrunning | hpast⟩ := hin.step hup hstep
        · exact .inl ⟨hrunning, hin'⟩
        · exact .inr hpast
      · exact .inr (hstep.past hpast))
    (.inl ⟨hp, h⟩)

/-- A call is made by a running process, and looks up the PID of its thread. -/
theorem SystemStep.call_inv (hstep : SystemStep false sys ev sys') {fn : AbiFn} {actx : Pid}
    {ref : Option Pid} {before after : Registry} (hev : ev = .call p fn actx ref before after) :
    (sys.process p).stage = .running ∧ ref = getContext sys.registry (sys.process p).threadPID := by
  cases hstep with
  | call _ _ hp _ | crash _ _ hp _ =>
      injection hev with hq _ _ href _ _
      subst hq
      exact ⟨hp, href.symm⟩
  | _ => cases hev

/-- Leaving the app, by either way, leads to `.exit` with the frame at the stack
pointer. -/
theorem InApp.leave (h : InApp code p caller s) (hstep : TaskStep code s (.leave p c) s') :
    (s'.machine p).pc = code.exit ∧ (s'.machine p).mem = s.mem ∧
      (s'.machine p).regs .sp = caller.regs .sp - 64 ∧ (s'.machine p).regs .a0 = c := by
  cases hstep with
  | @ret sys' _ _ m hsys hmem hpc hsp ha0 =>
      rw [h.ra, code.exitEven] at hpc
      rw [h.sp] at hsp
      simp only [TaskSystem.machine, Function.update_self]
      exact ⟨hpc, trivial, hsp, ha0⟩
  | @exit sys' _ _ m pid hsys hmem hec hsp hpc =>
      have hown : pid = (s.sys.process p).actx := by
        have href := (hsys.call_inv rfl).2
        rw [getContext] at href
        split at href
        · rw [Option.some.inj href, h.threadPID]
        · cases href
      subst hown
      rw [← hmem] at hsp hpc
      have hsaved : Saved code (s.sys.process p).actx caller m.mem := hmem ▸ h.saved
      obtain ⟨hpc', -, hsp', ha0'⟩ := hsaved.appExited hec hsp hpc
      simp only [TaskSystem.machine, Function.update_self]
      exact ⟨hpc', trivial, hsp', ha0'⟩

/-- A process that has entered its app by `_badgert_jump_to_app` returns from
there, whichever way it leaves, and whatever other processes do meanwhile. As
long as its context is there `appExited` finds it. -/
theorem leave_returns (code : AppCode) {s₀ s₁ s₂ : TaskSystem ι} (p : ι) (caller : Machine)
    (ls : List (TaskEvent ι)) (henter : TaskStep code s₀ (.enter p caller) s₁)
    (hrun : Run (TaskStep code) s₁ ls s₂) (hp : s₂.running p) :
    ((s₂.sys.registry.getContext (s₂.sys.process p).actx).isSome →
      getContext s₂.sys.registry (s₂.sys.process p).threadPID = some (s₂.sys.process p).actx) ∧
    ∀ c s₃, TaskStep code s₂ (.leave p c) s₃ →
      (s₃.machine p).pc = code.exit ∧ ReturnedTo caller c (exitApp (s₃.machine p)) := by
  obtain ⟨hrunning, hentered⟩ := henter.enter_inv
  have hin : InApp code p caller s₂ := by
    obtain ⟨-, hin⟩ | hpast := inApp_of_run hrun hrunning hentered
    · exact hin
    · rw [hp] at hpast
      cases hpast
  refine ⟨fun halive => ?_, fun c s₃ hleave => ?_⟩
  · rw [hin.threadPID, getContext, if_pos halive]
  · obtain ⟨hpc, hmem, hsp, ha0⟩ := hin.leave hleave
    have hsaved : Saved code (s₂.sys.process p).actx caller (s₃.machine p).mem := hmem ▸ hin.saved
    exact ⟨hpc, ha0 ▸ hsaved.exitApp hsp⟩

end tasks

/-! ### A sample -/

def AppCode.sample : AppCode where
  exit := 0x42002000
  exitPC _ := 0x3fc80000
  exitSP _ := 0x3fc80004
  ecReg := .a3
  spReg := .a4
  pcReg := .a5
  exitEven := by decide
  spReg_ne := by decide
  pcReg_ne_a0 := by decide
  pcReg_ne_sp := by decide

/-- `taskCode`, about to call the entry function at 0x3fc90000. -/
def sampleCaller : Machine where
  regs
    | .ra => 0x42001234
    | .sp => 0x3fcb0000
    | .a3 => 0x3fc90000
    | .a4 => 0x3fc80000
    | .a5 => 0x3fc80004
    | r => BitVec.ofNat 32 r.ctorIdx
  mem _ := 0
  pc := 0
  priv := .machine
  mstatus := 0
  mepc := 0
  mcause := 0
  mscratch := 0

/-- One process whose task has been created. -/
def TaskSystem.sample : TaskSystem Unit where
  sys := ⟨Registry.initial.newContext.2, fun _ => ⟨1, .empty, 0, 0, .created⟩, 1, false⟩
  mem _ := 0
  task _ := sampleCaller
  entry _ := sampleCaller

/-- The process has entered its app. -/
def TaskSystem.entered : TaskSystem Unit where
  sys := TaskSystem.sample.sys.update () Registry.initial.newContext.2 ⟨1, .empty, 1, 0, .running⟩
  mem := (jumpToApp .sample sampleCaller).mem
  task := Function.update TaskSystem.sample.task () (jumpToApp .sample sampleCaller)
  entry := Function.update TaskSystem.sample.entry () (jumpToApp .sample sampleCaller)

theorem TaskSystem.sample_enter :
    TaskStep .sample .sample (.enter () sampleCaller) TaskSystem.entered := by
  have hstep : SystemStep false TaskSystem.sample.sys .other TaskSystem.entered.sys :=
    .taskCode rfl rfl
  refine .enter hstep rfl rfl rfl ⟨rfl, rfl, ?_, ?_, ?_⟩ ?_
  · decide
  · decide
  · decide
  · rintro q hq
    cases hq

/-- The process has mapped 64 bytes and written to them. -/
def TaskSystem.mapped : TaskSystem Unit where
  sys := TaskSystem.entered.sys.update ()
    (Registry.initial.newContext.2.apply 1
      (.map (fun len _ _ => ⟨0x3fca0000, len⟩) 64 true false 4))
    ⟨1, .empty, 1, 0, .running⟩
  mem := Function.update TaskSystem.entered.mem 0x3fca0000 7
  task := TaskSystem.entered.task
  entry := TaskSystem.entered.entry

theorem TaskSystem.sample_maps : TaskStep .sample .entered .other TaskSystem.mapped := by
  have hstep : SystemStep false TaskSystem.entered.sys
      (.call () (.memMap (fun len _ _ => ⟨0x3fca0000, len⟩) 64 4 false) 1 (some 1) _ _)
      TaskSystem.mapped.sys := .call (.memMap (fun len _ _ => ⟨0x3fca0000, len⟩) 64 4 false)
        rfl rfl rfl
  refine .other (some _) hstep (fun _ => .rfl) fun () _ a ha => Function.update_of_ne ?_ _ _
  rintro rfl
  have hsp : (TaskSystem.entered.entry ()).regs .sp = 0x3fcaffc0 :=
    (jumpToApp_regs .sample sampleCaller).1
  unfold TaskSystem.Needs Runner.Needs at ha
  rw [hsp] at ha
  exact absurd ha (by decide)

/-- Deep in its app the process calls `appExited(3)`. -/
def sampleExiting : Machine :=
  { sampleCaller with
    regs := fun
      | .a3 => 3
      | .a4 => 0x3fcaffc0
      | .a5 => 0x42002000
      | _ => 0x3fcaff00
    mem := TaskSystem.mapped.mem }

theorem leave_returns_sample : ∃ s : TaskSystem Unit,
    Run (TaskStep .sample) .entered [.other] .mapped ∧ TaskStep .sample .mapped (.leave () 3) s ∧
      (s.machine ()).pc = 0x42002000 ∧ ReturnedTo sampleCaller 3 (exitApp (s.machine ())) := by
  have hsaved : Saved .sample 1 sampleCaller TaskSystem.entered.mem :=
    TaskSystem.sample_enter.enter_inv.2.saved
  have hmem : ∀ a, a ≠ 0x3fca0000 → TaskSystem.mapped.mem a = TaskSystem.entered.mem a :=
    fun a ha => Function.update_of_ne ha _ _
  have hsp : sampleExiting.regs .a4 = TaskSystem.mapped.mem (AppCode.sample.exitSP 1) := by
    rw [hmem _ (by decide), hsaved.exitSP]
    rfl
  have hpc : sampleExiting.regs .a5 = TaskSystem.mapped.mem (AppCode.sample.exitPC 1) := by
    rw [hmem _ (by decide), hsaved.exitPC]
    rfl
  have hstep : SystemStep false TaskSystem.mapped.sys
      (.call () (.exit 3) 1 (some 1) TaskSystem.mapped.sys.registry
        TaskSystem.mapped.sys.registry) _ := .call (.exit 3) rfl rfl rfl
  have hleave : TaskStep .sample .mapped (.leave () 3) _ :=
    .exit (m := sampleExiting) hstep rfl rfl hsp hpc
  have hrun : Run (TaskStep .sample) .entered [.other] .mapped := .single TaskSystem.sample_maps
  exact ⟨_, hrun, hleave,
    (leave_returns .sample () sampleCaller [.other] TaskSystem.sample_enter hrun rfl).2 3 _ hleave⟩

end BadgeElfloader.Runner
