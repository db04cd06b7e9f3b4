import BadgeElfloader.Kernel.Process

/-!
Several processes on one hart.

Each process has a task of its own, and the scheduler may switch tasks wherever
interrupts are enabled. A switch takes along the registers of a task, but not
`mscratch`, by which the trap path finds the context: a task that comes back
finds there what the others have left. `abi_yield` and `abi_delay_ms` reinstate
the context behind their own switch. The invariant below says what all other
switches have to leave alone, and the end of the module what happens if one
does not.
-/

namespace BadgeElfloader.Kernel

open Riscv Transition

/-- A trap that called a native function which has not returned yet. -/
structure Call where
  raised : Machine
  cause : Word
  handler : Machine
  body : Machine

/-- How far a task is. -/
inductive Phase
  /-- In `runUserCode`, before `setCtx`. -/
  | starting
  /-- Behind `setCtx`. -/
  | ready
  | user
  /-- In the body of a native function. -/
  | native (c : Call)
  /-- In `abi_yield` or `abi_delay_ms`, between `getCtx` and `setCtx`. -/
  | yielding (c : Call) (ctx : Word)
  /-- Behind the system call of `runUserCode`. -/
  | leaving
  /-- Behind `setDefaultCtx`. -/
  | gone
  | panicked

/-- The phases in which a trap would be meant for the context of the task. -/
def Phase.bound : Phase → Bool
  | ready | user | native _ => true
  | _ => false

/-- The phases in which the task does as it likes with its own context. -/
def Phase.free : Phase → Bool
  | starting | leaving | gone => true
  | _ => false

/-- Where the contexts and the kernel stacks are. -/
structure Layout (ι : Type) where
  ctx : ι → Word
  stack : ι → Word → Prop
  defaultCtx : Word
  ctx_ne_zero : ∀ p, ctx p ≠ 0
  ctx_apart : ∀ p q, p ≠ q → ∀ f : Field, OutsideCtx (ctx p) (ctx q + f.offset)
  stack_apart : ∀ p q, p ≠ q → ∀ a, stack p a → ¬ stack q a
  stack_outside : ∀ p q a, stack p a → OutsideCtx (ctx q) a
  default_outside : ∀ p, OutsideCtx (ctx p) (defaultCtx + Field.isSuper.offset)
  default_stack : ∀ p, ¬ stack p (defaultCtx + Field.isSuper.offset)

section sched

variable {ι : Type}

/-- The memory that belongs to the kernel side of a process. -/
def Layout.Owned (L : Layout ι) (p : ι) (a : Word) : Prop :=
  L.stack p a ∨ ∃ f : Field, a = L.ctx p + f.offset

/-- `makeABICall` finds room for its frame on the kernel stack of `p`. -/
def Layout.FrameOn (L : Layout ι) (env : Env) (p : ι) (sp : Word) : Prop :=
  ∀ k ∈ frameSlots, L.stack p (frameBase env sp + k)

/-- The hart with the task it runs, and the other tasks as they were when they
were switched out. -/
structure World (ι : Type) where
  hart : Machine
  running : ι
  parked : ι → Machine
  phase : ι → Phase

/-- A switch brings back registers, `mepc` and `mstatus`, and leaves `mscratch`
alone. -/
def World.switchTo [DecidableEq ι] (w : World ι) (q : ι) : World ι :=
  let parked := Function.update w.parked w.running w.hart
  { w with
    hart := { parked q with
      mem := w.hart.mem, mscratch := w.hart.mscratch, mcause := w.hart.mcause }
    running := q
    parked := parked }

def World.next [DecidableEq ι] (w : World ι) (hart : Machine) (phase : Phase) : World ι :=
  { w with hart := hart, phase := Function.update w.phase w.running phase }

/-- Behind an `mret` the task is in user code or past its system call. -/
def afterMret (u : Machine) : Phase := if u.priv = .user then .user else .leaving

inductive Label (ι : Type)
  | code
  /-- The hart goes to task `q`, which is in phase `phase`, with this
  `mscratch`. -/
  | switched (q : ι) (phase : Phase) (mscratch : Word)
  /-- The system call made in state `s` led to user code in state `u`. -/
  | entered (p : ι) (s u : Machine)
  /-- The trap raised in state `s` was handled from state `h` on. -/
  | trapped (p : ι) (cause : Word) (s h : Machine)
  /-- The native function returned in state `n`, user code goes on in state
  `u`. -/
  | returned (p : ι) (c : Call) (n u : Machine)

/-- One step of the hart. `code` stands for user code, native functions and the
kernel's C++ code alike; a task that is not in a `free` phase leaves the kernel
side of every process alone. -/
inductive SchedStep [DecidableEq ι] (env : Env) (L : Layout ι) : World ι → Label ι → World ι → Prop
  | code {w : World ι} {hart : Machine} :
      w.phase w.running ≠ .panicked → hart.priv = w.hart.priv →
      hart.mscratch = w.hart.mscratch →
      (∀ q a, L.Owned q a →
        hart.mem a = w.hart.mem a ∨ (q = w.running ∧ (w.phase w.running).free)) →
      SchedStep env L w .code (w.next hart (w.phase w.running))
  | setCtx {w : World ι} : w.phase w.running = .starting →
      SchedStep env L w .code (w.next (setCtx w.hart (L.ctx w.running)) .ready)
  | userjump {w : World ι} {h t : Machine} : w.phase w.running = .ready →
      w.hart.regs .a0 = sysUserjump → L.FrameOn env w.running (w.hart.regs .sp) →
      trap env w.hart 11 = .mret h t →
      SchedStep env L w (.entered w.running w.hart t.mret) (w.next t.mret (afterMret t.mret))
  | ended {w : World ι} {cause : Word} {h t : Machine} : w.phase w.running = .user →
      trap env w.hart cause = .mret h t →
      SchedStep env L w (.trapped w.running cause w.hart h) (w.next t.mret (afterMret t.mret))
  | panicked {w : World ι} {cause : Word} {h : Machine} : w.phase w.running = .user →
      trap env w.hart cause = .panic h →
      SchedStep env L w (.trapped w.running cause w.hart h) (w.next h .panicked)
  | called {w : World ι} {cause : Word} {h b : Machine} : w.phase w.running = .user →
      trap env w.hart cause = .call h b →
      SchedStep env L w (.trapped w.running cause w.hart h)
        (w.next b (.native ⟨w.hart, cause, h, b⟩))
  | returned {w : World ι} {c : Call} {t : Machine} : w.phase w.running = .native c →
      Returns c.body w.hart → abiReturn env c.handler w.hart = some t →
      SchedStep env L w (.returned w.running c w.hart t.mret)
        (w.next t.mret (afterMret t.mret))
  | yield {w : World ι} {c : Call} : w.phase w.running = .native c →
      SchedStep env L w .code (w.next w.hart (.yielding c w.hart.mscratch))
  | yielded {w : World ι} {c : Call} {ctx : Word} : w.phase w.running = .yielding c ctx →
      SchedStep env L w .code
        (w.next (if ctx = 0 then w.hart else setCtx w.hart ctx) (.native c))
  | setDefaultCtx {w : World ι} : w.phase w.running = .leaving →
      SchedStep env L w .code (w.next (setCtx w.hart L.defaultCtx) .gone)
  | switch {w : World ι} (q : ι) : w.phase w.running ≠ .panicked →
      SchedStep env L w (.switched q (w.phase q) w.hart.mscratch) (w.switchTo q)

/-- What a switch has to leave to a task that relies on `mscratch`. -/
def SafeSwitch (L : Layout ι) : Label ι → Prop
  | .switched q phase mscratch => phase.bound → mscratch = L.ctx q
  | _ => True

/-- Traps of a process go to its own context, and its user code goes on with
its own registers. -/
def OwnContext (env : Env) (L : Layout ι) : Label ι → Prop
  | .entered p s u =>
      (∀ r, env.saves r → field u (L.ctx p) (.mReg r) = s.regs r) ∧
        (∀ r, env.saves r → u.regs r = field s (L.ctx p) (.uReg r)) ∧
        u.pc = field s (L.ctx p) .uPc
  | .trapped p cause s h =>
      (∀ r, env.saves r → field h (L.ctx p) (.uReg r) = s.regs r) ∧
        field h (L.ctx p) .uPc = s.pc + if cause = 8 then 4 else 0
  | .returned _ c n u =>
      (∀ r, r ≠ .a0 → r ≠ .a1 → u.regs r = c.raised.regs r) ∧
        u.regs .a0 = n.regs .a0 ∧ u.regs .a1 = n.regs .a1 ∧
        u.pc = c.raised.pc + if c.cause = 8 then 4 else 0
  | _ => True

/-! ### The invariant -/

/-- The call `c` of process `p` is under way, in a machine with the memory of
`m`: everything its return is going to need is still in place. -/
structure CallInv (env : Env) (L : Layout ι) (p : ι) (c : Call) (m : Machine) : Prop where
  ctx : c.raised.mscratch = L.ctx p
  atHandler : AtHandler env false c.cause c.raised c.handler
  body : c.body = makeABICall env (abiCallSite env c.handler)
  frameOn : L.FrameOn env p (field c.raised (L.ctx p) (.mReg .sp))
  ctxKept : ∀ f, field m (L.ctx p) f = field c.body (L.ctx p) f
  frameKept : ∀ k ∈ frameSlots, m.mem (frameBase env (c.handler.regs .sp) + k) =
    c.body.mem (frameBase env (c.handler.regs .sp) + k)

/-- What holds of a process in a given phase, whoever is running. -/
def ProcInv (env : Env) (L : Layout ι) (p : ι) (m : Machine) : Phase → Prop
  | .ready => field m (L.ctx p) .isSuper = 1
  | .user => field m (L.ctx p) .isSuper = 0 ∧ L.FrameOn env p (field m (L.ctx p) (.mReg .sp))
  | .native c => CallInv env L p c m
  | .yielding c ctx => CallInv env L p c m ∧ ctx = L.ctx p
  | _ => True

structure SchedInv (env : Env) (L : Layout ι) (w : World ι) : Prop where
  proc : ∀ p, ProcInv env L p w.hart (w.phase p)
  bound : (w.phase w.running).bound → w.hart.mscratch = L.ctx w.running

variable {env : Env} {L : Layout ι} {w : World ι} {p q : ι}

theorem Layout.FrameOn.stackApart {sp : Word} (h : L.FrameOn env p sp) (q : ι) :
    StackApart env (L.ctx q) sp :=
  fun k hk => L.stack_outside p q _ (h k hk)

theorem Layout.Owned.outside {a : Word} (h : L.Owned q a) (hne : p ≠ q) :
    OutsideCtx (L.ctx p) a := by
  obtain hstack | ⟨f, rfl⟩ := h
  · exact L.stack_outside q p a hstack
  · exact L.ctx_apart p q hne f

theorem Layout.Owned.not_frame {a sp : Word} (h : L.Owned q a) (hne : p ≠ q)
    (hframe : L.FrameOn env p sp) : ∀ k ∈ frameSlots, a ≠ frameBase env sp + k := by
  rintro k hk rfl
  obtain hstack | ⟨f, hf⟩ := h
  · exact L.stack_apart p q hne _ (hframe k hk) hstack
  · exact L.stack_outside p q _ (hframe k hk) f hf

theorem CallInv.handler_ctx {c : Call} {m : Machine} (h : CallInv env L p c m) :
    c.handler.mscratch = L.ctx p :=
  h.atHandler.mscratch.trans h.ctx

theorem CallInv.handler_sp {c : Call} {m : Machine} (h : CallInv env L p c m) :
    c.handler.regs .sp = field c.raised (L.ctx p) (.mReg .sp) := by
  rw [h.atHandler.sp, h.atHandler.fixed rfl (by simp), h.ctx]

theorem CallInv.stackApart {c : Call} {m : Machine} (h : CallInv env L p c m) :
    StackApart env (L.ctx p) (c.handler.regs .sp) :=
  h.handler_sp ▸ h.frameOn.stackApart p

theorem CallInv.atBody {c : Call} {m : Machine} (h : CallInv env L p c m) :
    AtBody env c.handler c.body := by
  rw [h.body]
  apply makeABICall_spec
  rw [h.handler_ctx]
  exact h.stackApart

/-- Up to the body of the native function, the call keeps off the memory of
other processes. -/
theorem CallInv.entry_mem {c : Call} {m : Machine} (h : CallInv env L p c m) (hne : p ≠ q)
    {a : Word} (ha : L.Owned q a) : c.body.mem a = c.raised.mem a := by
  have hout : OutsideCtx (L.ctx p) a := ha.outside hne
  rw [h.atBody.outside a (h.handler_ctx ▸ hout), h.atHandler.outside a (h.ctx ▸ hout)]
  rw [h.handler_sp]
  exact ha.not_frame hne h.frameOn

/-- A step that leaves the memory of a process alone leaves its part of the
invariant alone. -/
theorem ProcInv.frame {m m' : Machine} {phase : Phase} (h : ProcInv env L p m phase)
    (hmem : ∀ a, L.Owned p a → m'.mem a = m.mem a) : ProcInv env L p m' phase := by
  have hfield : ∀ f, field m' (L.ctx p) f = field m (L.ctx p) f := fun f =>
    hmem _ (.inr ⟨f, rfl⟩)
  have hcall : ∀ {c}, CallInv env L p c m → CallInv env L p c m' := by
    intro c hc
    refine ⟨hc.ctx, hc.atHandler, hc.body, hc.frameOn, fun f => (hfield f).trans (hc.ctxKept f), ?_⟩
    intro k hk
    rw [hmem _ (.inl ?_), hc.frameKept k hk]
    rw [hc.handler_sp]
    exact hc.frameOn k hk
  cases phase with
  | ready => exact (hfield _).trans h
  | user =>
      refine ⟨(hfield _).trans h.1, ?_⟩
      rw [hfield]
      exact h.2
  | native c => exact hcall h
  | yielding c ctx => exact ⟨hcall h.1, h.2⟩
  | _ => trivial

variable [DecidableEq ι]

/-- The step rule: the running process has to re-establish its own part of the
invariant and to keep off the memory of the others. -/
theorem SchedInv.next (h : SchedInv env L w) {hart : Machine} {phase : Phase}
    (hproc : ProcInv env L w.running hart phase)
    (hbound : phase.bound → hart.mscratch = L.ctx w.running)
    (hmem : ∀ q, w.running ≠ q → ∀ a, L.Owned q a → hart.mem a = w.hart.mem a) :
    SchedInv env L (w.next hart phase) where
  proc q := by
    by_cases hq : q = w.running
    · subst hq
      simpa [World.next] using hproc
    · simpa [World.next, hq] using (h.proc q).frame (hmem q (Ne.symm hq))
  bound := by simpa [World.next] using hbound

theorem SchedInv.switchTo (h : SchedInv env L w)
    (hsafe : (w.phase q).bound → w.hart.mscratch = L.ctx q) :
    SchedInv env L (w.switchTo q) where
  proc p := (h.proc p).frame fun _ _ => rfl
  bound := hsafe

/-! ### Steps -/

omit [DecidableEq ι] in
/-- In user code of `p`, the hart is set up for a trap. -/
theorem SchedInv.userCtx (h : SchedInv env L w) (hphase : w.phase w.running = .user) :
    UserCtx env (L.ctx w.running) w.hart := by
  have hproc := h.proc w.running
  rw [hphase] at hproc
  exact ⟨h.bound (hphase ▸ rfl), hproc.1, hproc.2.stackApart _⟩

omit [DecidableEq ι] in
theorem UserCtx.ownContext {s : Machine} (h : UserCtx env (L.ctx p) s) (cause : Word) :
    OwnContext env L (.trapped p cause s (handlerEntry env s cause)) := by
  have hat := h.atHandler cause
  have harea := hat.area
  have hpc := hat.uPc
  rw [h.mscratch] at harea hpc
  exact ⟨harea, hpc⟩

theorem setCtx_mem {s : Machine} {ctx a : Word} (h : a ≠ ctx + Field.isSuper.offset) :
    (setCtx s ctx).mem a = s.mem a := by
  simp [setCtx, h]

omit [DecidableEq ι] in
/-- A native function that returns finds all it needs for the way back. -/
theorem CallInv.nativeResult {c : Call} {n : Machine} (h : CallInv env L p c n)
    (hn : Returns c.body n) (hctx : n.mscratch = L.ctx p) :
    NativeResult c.raised.mscratch (makeABICall env (abiCallSite env c.handler)) n := by
  have hb := h.atBody
  rw [← h.body]
  refine ⟨⟨hn, fun f => ?_, fun k hk => ?_⟩, ?_⟩
  · rw [h.ctx, h.ctxKept]
  · rw [hb.s1, h.frameKept k hk]
  · rw [hb.mscratch, h.handler_ctx, hctx]

/-- The kernel jumps to user code. -/
theorem SchedInv.userjump (h : SchedInv env L w) {hd t : Machine}
    (hphase : w.phase w.running = .ready) (ha0 : w.hart.regs .a0 = sysUserjump)
    (hframe : L.FrameOn env w.running (w.hart.regs .sp))
    (htrap : trap env w.hart 11 = .mret hd t) :
    SchedInv env L (w.next t.mret (afterMret t.mret)) ∧
      OwnContext env L (.entered w.running w.hart t.mret) := by
  have hctx : w.hart.mscratch = L.ctx w.running := h.bound (hphase ▸ rfl)
  have hsuper : field w.hart w.hart.mscratch .isSuper ≠ 0 := by
    have hready := h.proc w.running
    rw [hphase] at hready
    rw [hctx, hready]
    decide
  obtain ⟨t', ht', hent, -⟩ := trap_kernel env hsuper (.inl ha0)
  obtain ⟨-, rfl⟩ := Trapped.mret.inj (htrap.symm.trans ht')
  obtain ⟨hpc, hreg⟩ := hent.userjump ha0
  have hself := hent.pc
  have hregs := hent.regs
  have hzero := hent.isSuper
  have hmReg := hent.mReg
  have hout := hent.outside
  rw [hctx] at hpc hreg hself hregs hzero hmReg hout
  have hsp : field t.mret (L.ctx w.running) (.mReg .sp) = w.hart.regs .sp := hmReg .sp
  have hafter : afterMret t.mret = .user := if_pos hent.priv
  refine ⟨h.next ?_ (fun _ => hent.mscratch.trans hctx) fun q hq a ha =>
    hout a (ha.outside hq), fun r hr => ?_, fun r hr => ?_, hself.trans hpc⟩
  · rw [hafter]
    exact ⟨hzero, hsp ▸ hframe⟩
  · rw [hmReg, hr]
    rfl
  · rw [hregs r hr, hreg]

/-- A trap ends the user code. -/
theorem SchedInv.ended (h : SchedInv env L w) {cause : Word} {hd t : Machine}
    (hphase : w.phase w.running = .user) (htrap : trap env w.hart cause = .mret hd t) :
    SchedInv env L (w.next t.mret (afterMret t.mret)) ∧
      OwnContext env L (.trapped w.running cause w.hart hd) := by
  have hu := h.userCtx hphase
  have hrec : Trap env (L.ctx w.running) ⟨w.hart, cause, hd, none, t⟩ := .handled htrap
  obtain ⟨hentry, hcase⟩ := hrec.userTrap hu
  simp only at hentry
  cases hcase with
  | resumed _ _ _ _ hbody => cases hbody
  | ended _ _ hend _ =>
      have hafter : afterMret t.mret = .leaving := if_neg (by simp [hend.priv])
      have hout := hend.outside
      simp only [hu.mscratch] at hout
      refine ⟨?_, hentry ▸ hu.ownContext cause⟩
      rw [hafter]
      exact h.next trivial (by simp [Phase.bound]) fun q hq a ha => hout a (ha.outside hq)

/-- The user code calls a native function. -/
theorem SchedInv.called (h : SchedInv env L w) {cause : Word} {hd b : Machine}
    (hphase : w.phase w.running = .user) (htrap : trap env w.hart cause = .call hd b) :
    SchedInv env L (w.next b (.native ⟨w.hart, cause, hd, b⟩)) ∧
      OwnContext env L (.trapped w.running cause w.hart hd) := by
  have hu := h.userCtx hphase
  obtain ⟨hentry, hbody⟩ := hu.call htrap
  have hproc := h.proc w.running
  rw [hphase] at hproc
  have hinv : CallInv env L w.running ⟨w.hart, cause, hd, b⟩ b :=
    ⟨hu.mscratch, hentry ▸ hu.atHandler cause, hbody, hproc.2, fun _ => rfl, fun _ _ => rfl⟩
  exact ⟨h.next hinv (fun _ => hinv.atBody.mscratch.trans hinv.handler_ctx)
    fun q hq a ha => hinv.entry_mem hq ha, hentry ▸ hu.ownContext cause⟩

/-- A native function returns. -/
theorem SchedInv.returned (h : SchedInv env L w) {c : Call} {t : Machine}
    (hphase : w.phase w.running = .native c) (hn : Returns c.body w.hart)
    (hret : abiReturn env c.handler w.hart = some t) :
    SchedInv env L (w.next t.mret (afterMret t.mret)) ∧
      OwnContext env L (.returned w.running c w.hart t.mret) := by
  have hctx : w.hart.mscratch = L.ctx w.running := h.bound (hphase ▸ rfl)
  have hinv : CallInv env L w.running c w.hart := by
    have hproc := h.proc w.running
    rwa [hphase] at hproc
  obtain ⟨t', ht', hres, -⟩ := abiReturn_resumed hinv.atHandler
    (hinv.ctx ▸ hinv.frameOn.stackApart _) (hinv.nativeResult hn hctx)
  obtain rfl := Option.some.inj (ht'.symm.trans hret)
  have hafter : afterMret t'.mret = .user := if_pos hres.priv
  have hzero := hres.isSuper
  have hsp := hres.fixed (.mReg .sp) rfl
  have hout := hres.outside
  rw [hinv.ctx] at hzero hsp hout
  refine ⟨?_, hres.regs, hres.a0, hres.a1, hres.pc⟩
  rw [hafter]
  refine h.next ⟨hzero, ?_⟩ (fun _ => hres.mscratch.trans hinv.ctx) fun q hq a ha =>
    hout a (ha.outside hq)
  rw [hsp]
  exact hinv.frameOn

/-- A native function that has yielded sets the context it had before. -/
theorem SchedInv.yielded (h : SchedInv env L w) {c : Call} {ctx : Word}
    (hphase : w.phase w.running = .yielding c ctx) :
    SchedInv env L (w.next (if ctx = 0 then w.hart else setCtx w.hart ctx) (.native c)) := by
  have hproc := h.proc w.running
  rw [hphase] at hproc
  obtain ⟨hinv, rfl⟩ := hproc
  rw [if_neg (L.ctx_ne_zero _)]
  have hsuper : field c.body (L.ctx w.running) .isSuper = 1 := by
    rw [← hinv.handler_ctx, hinv.atBody.fields, if_pos rfl]
  refine h.next ?_ (fun _ => by simp [setCtx]) fun q hq a ha => setCtx_mem (ha.outside hq _)
  refine ⟨hinv.ctx, hinv.atHandler, hinv.body, hinv.frameOn, fun f => ?_, fun k hk => ?_⟩
  · have hset : field (setCtx w.hart (L.ctx w.running)) (L.ctx w.running) f =
        if f = .isSuper then 1 else field w.hart (L.ctx w.running) f := by
      simp [setCtx]
    rw [hset, hinv.ctxKept]
    split
    · rename_i hf
      rw [hf, hsuper]
    · rfl
  · rw [setCtx_mem (hinv.stackApart k hk _), hinv.frameKept k hk]

theorem SchedStep.inv (h : SchedInv env L w) {w' : World ι} {l : Label ι}
    (hsafe : SafeSwitch L l) (hstep : SchedStep env L w l w') :
    SchedInv env L w' ∧ OwnContext env L l := by
  cases hstep with
  | @code hart _ _ hscratch hmem =>
      refine ⟨h.next ?_ (fun hb => hscratch.trans (h.bound hb)) ?_, trivial⟩
      · by_cases hfree : (w.phase w.running).free
        · revert hfree
          cases w.phase w.running <;> simp [Phase.free, ProcInv]
        · exact (h.proc _).frame fun a ha => (hmem _ a ha).resolve_right fun hf => hfree hf.2
      · exact fun q hq a ha => (hmem q a ha).resolve_right fun hf => hq hf.1.symm
  | setCtx _ =>
      refine ⟨h.next ?_ (fun _ => by simp [Kernel.setCtx]) fun q hq a ha => setCtx_mem ?_, trivial⟩
      · simp [ProcInv, Kernel.setCtx]
      · exact ha.outside hq _
  | userjump hphase ha0 hframe htrap => exact h.userjump hphase ha0 hframe htrap
  | ended hphase htrap => exact h.ended hphase htrap
  | @panicked cause hd hphase htrap =>
      exact absurd htrap ((h.userCtx hphase).trap_ne_panic cause hd)
  | called hphase htrap => exact h.called hphase htrap
  | returned hphase hn hret => exact h.returned hphase hn hret
  | @yield c hphase =>
      have hctx : w.hart.mscratch = L.ctx w.running := h.bound (hphase ▸ rfl)
      have hproc := h.proc w.running
      rw [hphase] at hproc
      exact ⟨h.next ⟨hproc, hctx⟩ (by simp [Phase.bound]) fun _ _ _ _ => rfl, trivial⟩
  | yielded hphase => exact ⟨h.yielded hphase, trivial⟩
  | setDefaultCtx _ =>
      refine ⟨h.next trivial (by simp [Phase.bound]) fun q _ a ha => setCtx_mem ?_, trivial⟩
      rintro rfl
      obtain hstack | ⟨f, hf⟩ := ha
      · exact L.default_stack q hstack
      · exact L.default_outside q f hf
  | switch q _ => exact ⟨h.switchTo hsafe, trivial⟩

end sched

/-! ### Two processes -/

def Layout.sample : Layout Bool where
  ctx p := if p then 0x2000 else 0x1000
  stack p a := ∃ k ∈ frameSlots, a = frameBase Env.sample (if p then 0x9000 else 0x8000) + k
  defaultCtx := 0x3000
  ctx_ne_zero p := by cases p <;> decide
  ctx_apart p q hne f := by
    cases p <;> cases q <;> first
      | exact absurd rfl hne
      | exact outsideCtx_of_far (by decide) (by decide) f
  stack_apart p q hne a := by
    rintro ⟨k, hk, rfl⟩ ⟨l, hl, h⟩
    simp only [frameSlots, List.mem_cons, List.not_mem_nil, or_false] at hk hl
    cases p <;> cases q <;> first
      | exact hne rfl
      | (rcases hk with rfl | rfl | rfl | rfl | rfl <;>
          rcases hl with rfl | rfl | rfl | rfl | rfl <;>
          simp [frameBase, Env.sample] at h)
  stack_outside p q a := by
    rintro ⟨k, hk, rfl⟩
    simp only [frameSlots, List.mem_cons, List.not_mem_nil, or_false] at hk
    apply outsideCtx_of_le
    cases p <;> cases q <;> rcases hk with rfl | rfl | rfl | rfl | rfl <;>
      simp [frameBase, Env.sample]
  default_outside p := by
    cases p <;> exact outsideCtx_of_far (by decide) (by decide) .isSuper
  default_stack p := by
    rintro ⟨k, hk, h⟩
    simp only [frameSlots, List.mem_cons, List.not_mem_nil, or_false] at hk
    cases p <;> rcases hk with rfl | rfl | rfl | rfl | rfl <;>
      simp [frameBase, Env.sample, Field.offset, Field.index] at h

/-- Two tasks about to make their first processes. -/
def worldStart : World Bool where
  hart := kernelStart
  running := false
  parked _ := kernelStart
  phase _ := .starting

theorem userjump_kernelStart : (setCtx kernelStart 0x1000).regs .a0 = sysUserjump ∧
    ∃ t, trap Env.sample (setCtx kernelStart 0x1000) 11 =
        .mret (handlerEntry Env.sample (setCtx kernelStart 0x1000) 11) t ∧
      Entered Env.sample (setCtx kernelStart 0x1000) t.mret := by
  have hk : InKernel 0x1000 (setCtx kernelStart 0x1000) := setCtx_inKernel rfl
  have hcall : (setCtx kernelStart 0x1000).regs .a0 = sysUserjump := by simp [setCtx, kernelStart]
  have hsuper : field (setCtx kernelStart 0x1000) (setCtx kernelStart 0x1000).mscratch
      .isSuper ≠ 0 := by
    rw [hk.mscratch, hk.isSuper]
    decide
  obtain ⟨t, htrap, hent, -⟩ := trap_kernel Env.sample hsuper (.inl hcall)
  exact ⟨hcall, t, htrap, hent⟩

/-- The first process has put 5 into `a0` in its user code, where it was switched
out; the task of the second one is about to make its process. -/
structure SwitchedAway (w : World Bool) : Prop where
  running : w.running = true
  away : w.phase false = .user
  starting : w.phase true = .starting
  a0 : (w.parked false).regs .a0 = 5
  mscratch : w.hart.mscratch = 0x1000
  isSuper : field w.hart 0x1000 .isSuper = 0
  uReg : field w.hart 0x1000 (.uReg .a0) = 0

theorem run_switchedAway : ∃ ls w, Run (SchedStep Env.sample Layout.sample) worldStart ls w ∧
    (∀ l ∈ ls, SafeSwitch Layout.sample l) ∧ SwitchedAway w := by
  obtain ⟨hcall, t, htrap, hent⟩ := userjump_kernelStart
  set w₁ := worldStart.next (setCtx kernelStart 0x1000) .ready
  set w₂ := w₁.next t.mret (afterMret t.mret)
  have hafter : afterMret t.mret = .user := if_pos hent.priv
  have huser : w₂.phase w₂.running = .user := by simp [w₂, w₁, World.next, hafter]
  set w₃ := w₂.next (t.mret.setReg .a0 5) (w₂.phase w₂.running)
  have hrun : Run (SchedStep Env.sample Layout.sample) worldStart
      [.code, .entered false w₁.hart t.mret, .code,
        .switched true (w₃.phase true) w₃.hart.mscratch] (w₃.switchTo true) := by
    refine .cons (t := w₁) (.setCtx rfl) ?_
    refine .cons (t := w₂) (.userjump rfl hcall (fun k hk => ⟨k, hk, rfl⟩) htrap) ?_
    refine .cons (t := w₃) (.code (by simp [huser]) rfl rfl fun _ _ _ => .inl rfl) ?_
    exact .single (.switch true (by simp [w₃, World.next, huser]))
  have hstarting : w₃.phase true = .starting := by
    simp [w₃, w₂, w₁, World.next, worldStart]
  refine ⟨_, _, hrun, by simp [SafeSwitch, hstarting, Phase.bound], rfl, ?_, hstarting, ?_,
    hent.mscratch, hent.isSuper, ?_⟩
  · simp [World.switchTo, w₃, w₂, w₁, World.next, worldStart, hafter]
  · simp [World.switchTo, w₃, w₂, w₁, World.next, worldStart]
  · exact ((hent.userjump hcall).2 .a0).trans (by simp [setCtx, kernelStart, field])

/-- If every switch into the inside of a process finds `mscratch` still naming
the context of that process, no two processes ever get mixed up. -/
theorem contexts_kept_apart {ι : Type} [DecidableEq ι] (env : Env) (L : Layout ι)
    (w₀ w : World ι) (ls : List (Label ι))
    (hstart : ∀ p, w₀.phase p = .starting) (hrun : Run (SchedStep env L) w₀ ls w)
    (hsafe : ∀ l ∈ ls, SafeSwitch L l) : ∀ l ∈ ls, OwnContext env L l := by
  have hinit : SchedInv env L w₀ :=
    ⟨fun p => by rw [hstart p]; trivial, by simp [hstart, Phase.bound]⟩
  exact (hrun.forall_label_of (fun _ _ _ hw hl hstep => hstep.inv hw hl) hinit hsafe).2

/-- The second task has run meanwhile, and the first process is back with its
context in `mscratch`: its next trap saves the 5 there. -/
theorem contexts_kept_apart_sample : ∃ ls w s h,
    Run (SchedStep Env.sample Layout.sample) worldStart ls w ∧
      .switched false .user 0x1000 ∈ ls ∧ .trapped false 2 s h ∈ ls ∧
      s.regs .a0 = 5 ∧ field h 0x1000 (.uReg .a0) = 5 := by
  obtain ⟨ls, w₄, hrun₄, hsafe, hw⟩ := run_switchedAway
  set w₅ := w₄.next (w₄.hart.setReg .a0 7) (w₄.phase w₄.running)
  have hphase : w₅.phase w₅.running = .starting := by
    simp [w₅, World.next, hw.running, hw.starting]
  have haway : w₅.phase false = .user := by simp [w₅, World.next, hw.running, hw.away]
  set w₆ := w₅.switchTo false
  have huser : w₆.phase w₆.running = .user := haway
  have hscratch : w₅.hart.mscratch = 0x1000 := hw.mscratch
  have ha0 : w₆.hart.regs .a0 = 5 := by
    simpa [w₆, w₅, World.next, World.switchTo, hw.running] using hw.a0
  have hsuper : field w₆.hart w₆.hart.mscratch .isSuper = 0 := by
    rw [show w₆.hart.mscratch = 0x1000 from hscratch]
    exact hw.isSuper
  have hat : AtHandler Env.sample false 2 w₆.hart (handlerEntry Env.sample w₆.hart 2) :=
    handlerEntry_spec Env.sample false w₆.hart 2 (by rw [hsuper]; decide)
  obtain ⟨t, htrap⟩ : ∃ t, trap Env.sample w₆.hart 2 =
      .mret (handlerEntry Env.sample w₆.hart 2) t := by
    rw [trap_exception Env.sample w₆.hart _ (by decide) (by decide) rfl, if_pos]
    · exact ⟨_, rfl⟩
    · rw [hat.mscratch, hat.isSuper_eq, hsuper]
  have hrun : Run (SchedStep Env.sample Layout.sample) worldStart
      (ls ++ [.code, .switched false (w₅.phase false) w₅.hart.mscratch,
        .trapped false 2 w₆.hart (handlerEntry Env.sample w₆.hart 2)])
      (w₆.next t.mret (afterMret t.mret)) := by
    refine hrun₄.append ?_
    refine .cons (t := w₅) (.code ?_ rfl rfl fun _ _ _ => .inl rfl) ?_
    · simp [hw.running, hw.starting]
    · refine .cons (t := w₆) (.switch false (by simp [hphase])) ?_
      exact .single (.ended huser htrap)
  rw [haway, hscratch] at hrun
  have hall := contexts_kept_apart Env.sample Layout.sample worldStart _ _ (fun _ => rfl) hrun
    (List.forall_mem_append.mpr ⟨hsafe, by simp [SafeSwitch, Layout.sample]⟩)
  obtain ⟨harea, -⟩ := hall (.trapped false 2 w₆.hart (handlerEntry Env.sample w₆.hart 2))
    (by simp)
  exact ⟨_, _, w₆.hart, _, hrun, by simp, by simp, ha0, (harea .a0 rfl).trans ha0⟩

/-- The start of a second process takes `mscratch` away from the first: once
switched back in, its next trap goes to the context of the other. -/
theorem contexts_mixed_up : ∃ ls w, Run (SchedStep Env.sample Layout.sample) worldStart ls w ∧
    ¬ ∀ l ∈ ls, OwnContext Env.sample Layout.sample l := by
  obtain ⟨ls, w₄, hrun₄, -, hw⟩ := run_switchedAway
  have hstarting : w₄.phase w₄.running = .starting := by rw [hw.running, hw.starting]
  set w₅ := w₄.next (setCtx w₄.hart 0x2000) .ready
  set w₆ := w₅.switchTo false
  have huser : w₆.phase w₆.running = .user := by
    simp [w₆, w₅, World.next, World.switchTo, hw.running, hw.away]
  have ha0 : w₆.hart.regs .a0 = 5 := by
    simpa [w₆, w₅, World.next, World.switchTo, hw.running] using hw.a0
  have hscratch : w₆.hart.mscratch = 0x2000 := by
    simp [w₆, w₅, World.next, World.switchTo, setCtx]
  have hsuper : field w₆.hart w₆.hart.mscratch .isSuper = 1 := by
    rw [hscratch]
    simp [w₆, w₅, World.next, World.switchTo, field, setCtx]
  have hat : AtHandler Env.sample true 2 w₆.hart (handlerEntry Env.sample w₆.hart 2) :=
    handlerEntry_spec Env.sample true w₆.hart 2 (by rw [hsuper]; decide)
  have hpanic : trap Env.sample w₆.hart 2 = .panic (handlerEntry Env.sample w₆.hart 2) := by
    rw [trap_exception Env.sample w₆.hart _ (by decide) (by decide) rfl, if_neg]
    rw [hat.mscratch, hat.isSuper_eq, hsuper]
    decide
  have hrun : Run (SchedStep Env.sample Layout.sample) worldStart
      (ls ++ [.code, .switched false (w₅.phase false) w₅.hart.mscratch,
        .trapped false 2 w₆.hart (handlerEntry Env.sample w₆.hart 2)])
      (w₆.next (handlerEntry Env.sample w₆.hart 2) .panicked) := by
    refine hrun₄.append ?_
    refine .cons (t := w₅) ?_ (.cons (t := w₆) (.switch false (by simp [w₅, World.next])) ?_)
    · have hset : SchedStep Env.sample Layout.sample w₄ .code
          (w₄.next (setCtx w₄.hart (Layout.sample.ctx w₄.running)) .ready) := .setCtx hstarting
      rwa [hw.running] at hset
    · exact .single (.panicked huser hpanic)
  refine ⟨_, _, hrun, fun hall => ?_⟩
  obtain ⟨harea, -⟩ := hall (.trapped false 2 w₆.hart (handlerEntry Env.sample w₆.hart 2))
    (by simp)
  -- the save area of the first process is as it was when the process was entered
  have hout : OutsideCtx 0x2000 (0x1000 + (Field.uReg .a0).offset) :=
    outsideCtx_of_far (by decide) (by decide) _
  have hkept : field (handlerEntry Env.sample w₆.hart 2) 0x1000 (.uReg .a0) = 0 :=
    calc field (handlerEntry Env.sample w₆.hart 2) 0x1000 (.uReg .a0)
        = (setCtx w₄.hart 0x2000).mem (0x1000 + (Field.uReg .a0).offset) :=
          hat.outside _ (hscratch ▸ hout)
      _ = field w₄.hart 0x1000 (.uReg .a0) := setCtx_mem (hout _)
      _ = 0 := hw.uReg
  have hsaved : field (handlerEntry Env.sample w₆.hart 2) 0x1000 (.uReg .a0) = w₆.hart.regs .a0 :=
    harea .a0 rfl
  rw [hkept, ha0] at hsaved
  exact absurd hsaved (by decide)

end BadgeElfloader.Kernel
