import BadgeElfloader.Kernel.PreemptedTrap
import BadgeElfloader.Kernel.Continuation

/-!
A process under interrupts.

`Step` lets a task and its process run with no interrupts at all. Here they may
be taken in user code, in the kernel, and inside of every trap wherever the hart
takes them. Each trap is replaced by its twin, for which the invariants of
`Process` and `Continuation` are known, and carried over to what the trap really
led to.
-/

namespace BadgeElfloader.Kernel

open Riscv Transition Relation

inductive PreemptedStep (env : Env) (isr : Forwarder) (ctx : Word) (stack : Set Word) :
    Machine → Option TrapRecord → Machine → Prop
  | code {s u : Machine} : Step env ctx s none u → PreemptedStep env isr ctx stack s none u
  | interrupt {s u : Machine} : InterruptStep isr stack s u →
      PreemptedStep env isr ctx stack s none u
  | ecall {r : TrapRecord} : r.raised.priv = .machine → r.cause = 11 →
      r.raised.regs .a0 = sysUserjump ∨ r.raised.regs .a0 = sysUserenter →
      FrameOnStack env stack (r.raised.regs .sp) → PreemptedTrap env isr ctx stack r →
      PreemptedStep env isr ctx stack r.raised (some r) r.final.mret
  | trap {r : TrapRecord} : r.raised.priv = .user → PreemptedTrap env isr ctx stack r →
      PreemptedStep env isr ctx stack r.raised (some r) r.final.mret

/-- User code is running, and the frame will be in `words`. -/
structure InUserOn (env : Env) (ctx : Word) (words : Set Word) (s : Machine) : Prop
    extends InUser env ctx s where
  frame : FrameOnStack env words (field s ctx (.mReg .sp))

/-! ### What is carried over from a twin -/

/-- A machine behind an interrupt, or behind a trap instead of its twin. -/
structure SameOutcome (ctx : Word) (s u : Machine) : Prop where
  regs : u.regs = s.regs
  pc : u.pc = s.pc
  priv : u.priv = s.priv
  mscratch : u.mscratch = s.mscratch
  fields : ∀ f, (∀ i, f ≠ .scratch i) → field u ctx f = field s ctx f

section carried

variable {env : Env} {isr : Forwarder} {ctx : Word} {stack : Set Word} {s s' u v t₀ t : Machine}
  {r₀ r : TrapRecord}

theorem SameExit.outcome (h : SameExit ctx stack t₀ t) : SameOutcome ctx t₀.mret t.mret :=
  ⟨h.regs, h.pc, h.priv, h.mscratch, h.fields⟩

theorem InterruptStep.outcome (h : InterruptStep isr stack s u) (hctx : s.mscratch = ctx) :
    SameOutcome ctx s u := by
  subst hctx
  have hgo := h.goesOn
  exact ⟨hgo.regs, hgo.pc, hgo.priv, hgo.mscratch, hgo.fields⟩

theorem SameOutcome.inUser (h : SameOutcome ctx u v) (hu : InUser env ctx u) :
    InUser env ctx v where
  mscratch := h.mscratch.trans hu.mscratch
  isSuper := (h.fields _ (by simp)).trans hu.isSuper
  stack := by
    rw [h.fields _ (by simp)]
    exact hu.stack
  priv := h.priv.trans hu.priv

theorem SameOutcome.inUserOn (h : SameOutcome ctx u v) (hu : InUserOn env ctx stack u) :
    InUserOn env ctx stack v where
  toInUser := h.inUser hu.toInUser
  frame := by
    rw [h.fields _ (by simp)]
    exact hu.frame

theorem SameOutcome.inKernel (h : SameOutcome ctx u v) (hu : InKernel ctx u) : InKernel ctx v where
  priv := h.priv.trans hu.priv
  mscratch := h.mscratch.trans hu.mscratch
  isSuper := (h.fields _ (by simp)).trans hu.isSuper

theorem SameOutcome.continuation (h : SameOutcome ctx u v) (hu : Continuation env ctx s u) :
    Continuation env ctx s v where
  mReg r := (h.fields _ (by simp)).trans (hu.mReg r)
  mPc := (h.fields _ (by simp)).trans hu.mPc

theorem SameOutcome.inProcess (h : SameOutcome ctx u v) (hu : InProcess env ctx s u) :
    InProcess env ctx s v := by
  obtain ⟨hc, huser | hkernel⟩ := hu
  · exact ⟨h.continuation hc, .inl (h.inUser huser)⟩
  · refine ⟨h.continuation hc, .inr ⟨h.inKernel hkernel.toInKernel, h.pc.trans hkernel.pc, ?_⟩⟩
    rw [h.regs]
    exact hkernel.regs

theorem TwinTrap.body_isSome (h : TwinTrap isr ctx stack r₀ r) :
    r.body.isSome = r₀.body.isSome := by
  have hrel := h.body
  generalize r₀.body = b₀ at hrel
  generalize r.body = b at hrel
  cases hrel <;> rfl

theorem TwinTrap.privilegeExact (h : TwinTrap isr ctx stack r₀ r) (hr₀ : PrivilegeExact ctx r₀) :
    PrivilegeExact ctx r where
  mret := by
    rw [h.exit.priv, h.exit.mpp, h.exit.fields _ (by simp)]
    exact hr₀.mret
  body b hb := by
    have hrel := h.body
    rw [hb] at hrel
    cases hbody : r₀.body with
    | none =>
        rw [hbody] at hrel
        cases hrel
    | some b₀ =>
        rw [hbody] at hrel
        cases hrel with
        | some hdist =>
            exact (hdist.sameContext.fields _ (by simp)).trans (hr₀.body b₀ hbody)

theorem frameOnStack_apart (hout : ∀ a ∈ stack, OutsideCtx ctx a) {sp : Word}
    (h : FrameOnStack env stack sp) : StackApart env ctx sp := fun k hk => hout _ (h k hk)

/-- The twin of a trap out of user code, as a step. -/
theorem InUserOn.exists_twin (hs : InUserOn env ctx stack r.raised)
    (hout : ∀ a ∈ stack, OutsideCtx ctx a) (h : PreemptedTrap env isr ctx stack r) :
    ∃ r₀, TwinTrap isr ctx stack r₀ r ∧ Trap env ctx r₀ ∧
      Step env ctx r.raised (some r₀) r₀.final.mret := by
  obtain ⟨r₀, hr₀, htwin⟩ := h.exists_twin hs.toUserCtx hout hs.frame
  have hpriv : r₀.raised.priv = .user := htwin.raised ▸ hs.priv
  exact ⟨r₀, htwin, hr₀, htwin.raised ▸ .trap hpriv hr₀⟩

/-! ### Privilege -/

/-- The hart is outside of any trap. -/
def OutsideOn (env : Env) (ctx : Word) (stack : Set Word) (s : Machine) : Prop :=
  InUserOn env ctx stack s ∨ InKernel ctx s

theorem OutsideOn.outcome (h : SameOutcome ctx u v) (hu : OutsideOn env ctx stack u) :
    OutsideOn env ctx stack v := hu.imp h.inUserOn h.inKernel

theorem OutsideOn.mscratch (h : OutsideOn env ctx stack s) : s.mscratch = ctx := by
  obtain hu | hk := h
  · exact hu.mscratch
  · exact hk.mscratch

theorem OutsideOn.outside (h : OutsideOn env ctx stack s) : Outside env ctx s :=
  h.imp_left InUserOn.toInUser

/-- The kernel stack of a process is where it was. -/
theorem Trap.kernelSp (hr₀ : Trap env ctx r₀) (hs : UserCtx env ctx r₀.raised) :
    field r₀.final.mret ctx (.mReg .sp) = field r₀.raised ctx (.mReg .sp) := by
  have hctx := hs.mscratch
  cases (hr₀.userTrap hs).2 with
  | resumed _ _ _ _ _ _ _ hres _ => exact hctx ▸ hres.fixed (.mReg .sp) rfl
  | ended _ _ hend _ => exact hctx ▸ hend.fixed (.mReg .sp) rfl

theorem InUserOn.afterTrap (hs : InUserOn env ctx stack r₀.raised) (hr₀ : Trap env ctx r₀)
    (hnext : Outside env ctx r₀.final.mret) : OutsideOn env ctx stack r₀.final.mret := by
  refine hnext.imp_left fun hu => ⟨hu, ?_⟩
  rw [hr₀.kernelSp hs.toUserCtx]
  exact hs.frame

theorem PreemptedStep.outside (hout : ∀ a ∈ stack, OutsideCtx ctx a)
    (hs : OutsideOn env ctx stack s) {ev : Option TrapRecord}
    (hstep : PreemptedStep env isr ctx stack s ev s') :
    OutsideOn env ctx stack s' ∧ ∀ r ∈ ev, PrivilegeExact ctx r := by
  cases hstep with
  | code hstep =>
      refine ⟨?_, fun r hr => by cases hr⟩
      refine (hstep.outside hs.outside).1.imp_left fun hu' => ⟨hu', ?_⟩
      cases hstep with
      | user hpriv _ _ hfield =>
          obtain hu | hk := hs
          · rw [hfield]
            exact hu.frame
          · cases hpriv.symm.trans hk.priv
      | kernel _ hpriv' _ _ => cases hpriv'.symm.trans hu'.priv
  | interrupt h => exact ⟨hs.outcome (h.outcome hs.mscratch), fun r hr => by cases hr⟩
  | @ecall r hpriv hcause hcall hframe hr =>
      obtain hu | hk := hs
      · cases hpriv.symm.trans hu.priv
      · have hr₀ := hr.entry hk hcause hcall
        have hstep : Step env ctx r.raised (some r) r.final.mret :=
          .ecall hpriv hcause hcall (frameOnStack_apart hout hframe) hr₀
        obtain ⟨hnext, hexact⟩ := hstep.outside (.inr hk)
        refine ⟨hnext.imp_left fun hu => ⟨hu, ?_⟩, hexact⟩
        obtain ⟨-, hent, -⟩ := hk.trap_entered hr₀ hcause hcall
        have hsp : field r.final.mret ctx (.mReg .sp) = r.raised.regs .sp := by
          rw [← hk.mscratch]
          exact hent.mReg .sp
        rw [hsp]
        exact hframe
  | @trap r hpriv hr =>
      obtain hu | hk := hs
      · obtain ⟨r₀, htwin, hr₀, hstep⟩ := hu.exists_twin hout hr
        obtain ⟨hnext, hexact⟩ := hstep.outside (.inl hu.toInUser)
        refine ⟨((htwin.raised ▸ hu : InUserOn env ctx stack r₀.raised).afterTrap hr₀ hnext).outcome
          htwin.exit.outcome, fun q hq => ?_⟩
        obtain rfl := Option.some.inj hq
        exact htwin.privilegeExact (hexact r₀ rfl)
      · cases hpriv.symm.trans hk.priv

end carried

/-- The states that a task comes through behind `setCtx`. -/
def PreemptedBehindSetCtx (env : Env) (isr : Forwarder) (ctx : Word) (stack : Set Word) :
    Machine → Prop :=
  Reachable (fun s => ∃ s₀ : Machine, s₀.priv = .machine ∧ s = setCtx s₀ ctx)
    (PreemptedStep env isr ctx stack)

section privilege

variable {env : Env} {isr : Forwarder} {ctx : Word} {stack : Set Word} {s h : Machine}

theorem PreemptedBehindSetCtx.outside (hout : ∀ a ∈ stack, OutsideCtx ctx a)
    (hs : PreemptedBehindSetCtx env isr ctx stack s) : OutsideOn env ctx stack s := by
  refine hs.invariant ?_ fun s a t hs hstep => (hstep.outside hout hs).1
  rintro s ⟨s₀, hs₀, rfl⟩
  exact .inr (setCtx_inKernel hs₀)

theorem UserCtx.no_panic (hs : UserCtx env ctx s) {cause : Word}
    (hentry : HandlerEntryRun env isr stack s cause h) :
    field h ctx .isSuper = 0 ∧ ecallHandler env h ≠ .panic := by
  have hat := hs.atHandler cause
  have hdist := hentry.disturbed hs.mscratch
  have hctx : h.mscratch = ctx := hdist.mscratch.trans (hat.mscratch.trans hs.mscratch)
  have hsuper : field h ctx .isSuper = 0 := by
    rw [hdist.sameContext.fields _ (by simp), ← hs.mscratch, hat.isSuper_eq, hs.mscratch]
    exact hs.isSuper
  refine ⟨hsuper, ?_⟩
  rw [ecallHandler_user env h (hctx ▸ hsuper)]
  split <;> exact nofun

end privilege

/-- The system call that enters a process takes place. -/
theorem InKernel.exists_preempted (env : Env) (isr : Forwarder) (stack : Set Word) {ctx : Word}
    {s : Machine} (hs : InKernel ctx s)
    (hcall : s.regs .a0 = sysUserjump ∨ s.regs .a0 = sysUserenter) :
    ∃ r, r.raised = s ∧ r.cause = 11 ∧ PreemptedTrap env isr ctx stack r := by
  have hsuper : field s s.mscratch .isSuper ≠ 0 := by
    rw [hs.mscratch, hs.isSuper]
    decide
  obtain ⟨t, htrap, -⟩ := trap_kernel env hsuper hcall
  rw [trap_ecall env s (.inr rfl)] at htrap
  cases hret : ecallHandler env (handlerEntry env s 11) with
  | ret r =>
      exact ⟨_, rfl, rfl, .handled (.inr rfl) (handlerEntryRun env isr stack s 11) hret
        (checkRestoreRun env isr stack r)⟩
  | call | panic =>
      rw [hret] at htrap
      cases htrap

/-- The kernel stack of the sample task. -/
def sampleStack : Set Word := frameWords .sample 0x8000

theorem sampleStack_outside : ∀ a ∈ sampleStack, OutsideCtx 0x1000 a :=
  frameWords_outside stackApart_sample

theorem sampleStack_far : (0x2000 : Word) ∉ sampleStack := by
  rintro ⟨k, hk, heq⟩
  have hne : ∀ k ∈ frameSlots, (0x2000 : Word) ≠ frameBase .sample 0x8000 + k := by
    simp [frameSlots, frameBase, Env.sample]
  exact hne k hk heq

/-- A process that has been interrupted by a tick. -/
theorem exists_ticked_sample : ∃ r u, r.raised = setCtx kernelStart 0x1000 ∧ r.cause = 11 ∧
    PreemptedTrap .sample .sample 0x1000 sampleStack r ∧
    InUserOn .sample 0x1000 sampleStack u ∧
    Run (fun s ev t => s.priv = .user ∧ PreemptedStep .sample .sample 0x1000 sampleStack s ev t)
      r.final.mret [none, none] u := by
  have hk : InKernel 0x1000 (setCtx kernelStart 0x1000) := setCtx_inKernel rfl
  have hcall : (setCtx kernelStart 0x1000).regs .a0 = sysUserjump := by
    simp [setCtx, kernelStart]
  obtain ⟨r, hraised, hcause, hr⟩ :=
    hk.exists_preempted .sample .sample sampleStack (.inl hcall)
  have hstep : PreemptedStep .sample .sample 0x1000 sampleStack r.raised (some r) r.final.mret := by
    refine .ecall ?_ hcause ?_ ?_ hr <;> rw [hraised]
    · rfl
    · exact .inl hcall
    · exact frameWords_frame .sample 0x8000
  have hnext := (hstep.outside sampleStack_outside (.inr (hraised ▸ hk))).1
  rw [← hraised] at hk hcall
  have huser : r.final.mret.priv = .user :=
    (hk.trap_entered (hr.entry hk hcause (.inl hcall)) hcause (.inl hcall)).2.1.priv
  have hin : InUserOn .sample 0x1000 sampleStack r.final.mret :=
    hnext.resolve_right fun hm => by cases huser.symm.trans hm.priv
  -- user code has interrupts enabled
  set v : Machine := { r.final.mret with mstatus := 0x8 } with hv
  have hsame : SameOutcome 0x1000 r.final.mret v := ⟨rfl, rfl, rfl, rfl, fun _ _ => rfl⟩
  have hvin := hsame.inUserOn hin
  have hmie : MieSet v := show (0x8 : Word) &&& mieBit ≠ 0 by decide
  obtain ⟨u, hu, -⟩ := exists_tickStep hvin.mscratch hmie sampleStack_far sampleStack_outside
  have hcode : Step .sample 0x1000 r.final.mret none v :=
    .user hin.priv hvin.priv rfl fun _ => rfl
  exact ⟨r, u, hraised, hcause, hr, (hu.outcome hvin.mscratch).inUserOn hvin,
    .cons ⟨hin.priv, .code hcode⟩ (.single ⟨hvin.priv, .interrupt hu⟩)⟩

/-- Privilege bookkeeping stays exact, and no trap out of user code panics,
wherever interrupts are taken. A native function that returns always takes
`makeABICall` back to its call site. -/
theorem preempted_privilege_exact (env : Env) (isr : Forwarder) (ctx : Word) (stack : Set Word)
    (hout : ∀ a ∈ stack, OutsideCtx ctx a) (s : Machine)
    (hs : PreemptedBehindSetCtx env isr ctx stack s) :
    (s.priv = .user → field s ctx .isSuper = 0) ∧
      (∀ r s', PreemptedStep env isr ctx stack s (some r) s' → PrivilegeExact ctx r) ∧
      (s.priv = .user → ∀ cause h, HandlerEntryRun env isr stack s cause h →
        field h ctx .isSuper = 0 ∧ ecallHandler env h ≠ .panic) ∧
      (s.priv = .user → ∀ cause h b₀ c n x, cause = 8 ∨ cause = 11 →
        HandlerEntryRun env isr stack s cause h → ecallHandler env h = .call b₀ →
        Preempted isr stack makeABICallEntry (abiCallSite env h) c →
        ReflTransGen (WindowStep isr ctx stack) ((c.jump .ra).setReg .ra env.abiLink) n →
        Returns ((c.jump .ra).setReg .ra env.abiLink) n →
        Preempted isr stack makeABICallExit n x →
        x.regs .ra = (abiCallSite env h).regs .ra ∧
          ∀ r, r.calleeSaved → x.regs r = (abiCallSite env h).regs r) := by
  have houtside := hs.outside hout
  have huser : s.priv = .user → InUserOn env ctx stack s := by
    intro hpriv
    obtain hu | hk := houtside
    · exact hu
    · cases hpriv.symm.trans hk.priv
  refine ⟨fun hp => (huser hp).isSuper, fun r s' hstep => (hstep.outside hout houtside).2 r rfl,
    fun hp cause h hentry => (huser hp).toUserCtx.no_panic hentry, ?_⟩
  intro hp cause h b₀ c n x hcause hentry hcall hc hwindow hret hx
  have hu := huser hp
  obtain ⟨n₀, htwin⟩ := exists_calledTwin hu.toUserCtx hout hu.frame hcause hentry hcall hc rfl
    hwindow hret hx
  exact htwin.site

theorem preempted_privilege_exact_sample : ∃ s, s.priv = .user ∧ field s 0x1000 .isSuper = 0 ∧
    ∀ cause h, HandlerEntryRun .sample .sample sampleStack s cause h →
      ecallHandler .sample h ≠ .panic := by
  obtain ⟨r, u, hraised, hcause, hr, hu, hrun⟩ := exists_ticked_sample
  have hstep : PreemptedStep .sample .sample 0x1000 sampleStack r.raised (some r) r.final.mret := by
    refine .ecall ?_ hcause ?_ ?_ hr <;> rw [hraised]
    · rfl
    · exact .inl (by simp [setCtx, kernelStart])
    · exact frameWords_frame .sample 0x8000
  have hreach : PreemptedBehindSetCtx .sample .sample 0x1000 sampleStack u :=
    ⟨_, _, ⟨kernelStart, rfl, rfl⟩, .cons (hraised ▸ hstep) (hrun.mono fun _ _ _ h => h.2)⟩
  obtain ⟨hsuper, -, hpanic, -⟩ := preempted_privilege_exact .sample .sample 0x1000 sampleStack
    sampleStack_outside u hreach
  exact ⟨u, hu.priv, hsuper hu.priv, fun cause h hentry => (hpanic hu.priv cause h hentry).2⟩

/-! ### The continuation of the task -/

/-- User code runs, or a trap is raised in it, or an interrupt is taken. -/
def PreemptedUserStep (env : Env) (isr : Forwarder) (ctx : Word) (stack : Set Word) (s : Machine)
    (ev : Option TrapRecord) (u : Machine) : Prop :=
  s.priv = .user ∧ PreemptedStep env isr ctx stack s ev u

/-- The process entered by the system call in state `s` has come to state
`u`. -/
def PreemptedRun (env : Env) (isr : Forwarder) (ctx : Word) (stack : Set Word) (s : Machine)
    (evs : List (Option TrapRecord)) (u : Machine) : Prop :=
  ∃ r, r.raised = s ∧ r.cause = 11 ∧ PreemptedTrap env isr ctx stack r ∧
    Run (PreemptedUserStep env isr ctx stack) r.final.mret evs u

/-- A trap of the process that was entered in state `s`: its handler runs from
the stack pointer that the task had then, and if user code goes on, it does so
with the result of a native function in its registers and otherwise as it
was. -/
structure ServedTrap (isr : Forwarder) (ctx : Word) (stack : Set Word) (s : Machine)
    (r : TrapRecord) : Prop where
  sp : r.handler.regs .sp = s.regs .sp
  pc : r.final.mret.priv = .user →
    r.final.mret.pc = r.raised.pc + if r.cause = 8 then 4 else 0
  regs : r.final.mret.priv = .user → ∀ q, q ≠ .a0 → q ≠ .a1 →
    r.final.mret.regs q = r.raised.regs q
  result : r.final.mret.priv = .user → ∃ b n, r.body = some b ∧
    ReflTransGen (WindowStep isr ctx stack) b n ∧ Returns b n ∧
    r.final.mret.regs .a0 = n.regs .a0 ∧ r.final.mret.regs .a1 = n.regs .a1

section process

variable {env : Env} {isr : Forwarder} {ctx : Word} {stack : Set Word} {s u v : Machine}
  {evs : List (Option TrapRecord)}

/-- The trap of a process whose task is to go on from state `s`. -/
theorem TwinTrap.served {r₀ r : TrapRecord} (htwin : TwinTrap isr ctx stack r₀ r)
    (hr₀ : Trap env ctx r₀) (hu : InUser env ctx r.raised)
    (hc : Continuation env ctx s r.raised) : ServedTrap isr ctx stack s r := by
  have hu₀ : InUser env ctx r₀.raised := htwin.raised ▸ hu
  obtain ⟨hentry, huser⟩ := hr₀.userTrap hu₀.toUserCtx
  have hat := hu₀.atHandler r₀.cause
  have hsp : r.handler.regs .sp = s.regs .sp := by
    have hslot := hc.mReg .sp
    rw [← htwin.raised] at hslot
    rw [htwin.handler.regs, hentry, hat.sp, hat.fixed rfl (by simp), hu₀.mscratch, hslot]
    rfl
  have hresumed : r.final.mret.priv = .user →
      ∃ n, Resumed r₀.cause r₀.raised n r₀.final.mret ∧ r₀.body.isSome := by
    intro hpriv
    cases huser with
    | resumed n b _ _ hb _ _ hres _ => exact ⟨n, hres, by rw [hb]; rfl⟩
    | ended _ _ hend _ => cases (htwin.exit.priv.symm.trans hpriv).symm.trans hend.priv
  refine ⟨hsp, fun hp => ?pc, fun hp q h0 h1 => ?regs, fun hp => ?result⟩
  case pc =>
    obtain ⟨n, hres, -⟩ := hresumed hp
    rw [htwin.exit.pc, hres.pc, htwin.raised, htwin.cause]
  case regs =>
    obtain ⟨n, hres, -⟩ := hresumed hp
    rw [htwin.exit.regs, hres.regs q h0 h1, htwin.raised]
  case result =>
    obtain ⟨-, -, hbody⟩ := hresumed hp
    rw [← htwin.body_isSome] at hbody
    obtain ⟨b, hb⟩ := Option.isSome_iff_exists.mp hbody
    obtain ⟨n, hwindow, hret, ha0, ha1⟩ := htwin.result b hb
    exact ⟨b, n, hb, hwindow, hret, ha0, ha1⟩

theorem PreemptedUserStep.inProcess (hout : ∀ a ∈ stack, OutsideCtx ctx a)
    (hframe : FrameOnStack env stack (s.regs .sp)) (hu : InProcess env ctx s u)
    {ev : Option TrapRecord} (hev : ∀ r ∈ ev, r.cause ≠ 11)
    (hstep : PreemptedUserStep env isr ctx stack u ev v) :
    InProcess env ctx s v ∧ ∀ r ∈ ev, ServedTrap isr ctx stack s r := by
  obtain ⟨hpriv, hstep⟩ := hstep
  obtain ⟨hc, hu | hk⟩ := hu
  · have hon : InUserOn env ctx stack u := by
      refine ⟨hu, ?_⟩
      rw [hc.mReg .sp]
      exact hframe
    cases hstep with
    | code hstep =>
        exact ⟨UserStep.inProcess ⟨hc, .inl hu⟩ (by simp) ⟨hpriv, hstep⟩, fun r hr => by cases hr⟩
    | interrupt h =>
        exact ⟨(h.outcome hu.mscratch).inProcess ⟨hc, .inl hu⟩, fun r hr => by cases hr⟩
    | ecall hp _ _ _ _ => cases hpriv.symm.trans hp
    | @trap r _ hr =>
        obtain ⟨r₀, htwin, hr₀, hstep⟩ := hon.exists_twin hout hr
        have hcause : ∀ q ∈ some r₀, q.cause ≠ 11 := by
          intro q hq
          obtain rfl := Option.some.inj hq
          rw [htwin.cause]
          exact hev r rfl
        have hnext := UserStep.inProcess ⟨hc, .inl hu⟩ hcause ⟨hpriv, hstep⟩
        refine ⟨htwin.exit.outcome.inProcess hnext, fun q hq => ?_⟩
        obtain rfl := Option.some.inj hq
        exact htwin.served hr₀ hu hc
  · cases hpriv.symm.trans hk.priv

theorem PreemptedRun.inProcess (hs : AtUserjump env ctx s) (hout : ∀ a ∈ stack, OutsideCtx ctx a)
    (hframe : FrameOnStack env stack (s.regs .sp)) (hrun : PreemptedRun env isr ctx stack s evs u)
    (hcause : ∀ r, some r ∈ evs → r.cause ≠ 11) :
    InProcess env ctx s u ∧ ∀ ev ∈ evs, ∀ r ∈ ev, ServedTrap isr ctx stack s r := by
  obtain ⟨r, rfl, h11, hr, hrun⟩ := hrun
  have hr₀ := hr.entry hs.toInKernel h11 (.inl hs.call)
  obtain ⟨hent, huser⟩ := hs.entered rfl h11 hr₀
  refine hrun.forall_label_of (L := fun ev => ∀ r ∈ ev, r.cause ≠ 11)
    (fun _ _ _ hu hev hstep => hstep.inProcess hout hframe hu hev)
    ⟨hs.continuation hent, .inl huser⟩ ?_
  intro ev hev q hq
  obtain rfl : ev = some q := hq
  exact hcause q hev

end process

/-- With interrupts anywhere, the task that has entered a process is gone back to
when the process is over, behind its system call and with the registers it had
then, all but `gp` and `tp`. Until that every handler runs on the same stack, and
every native function that returns takes user code on with its result. -/
theorem preempted_process (env : Env) (isr : Forwarder) (ctx : Word) (stack : Set Word)
    (hout : ∀ a ∈ stack, OutsideCtx ctx a) (s : Machine) (hs : AtUserjump env ctx s)
    (hframe : FrameOnStack env stack (s.regs .sp)) (evs : List (Option TrapRecord)) (u : Machine)
    (hrun : PreemptedRun env isr ctx stack s evs u) (hcause : ∀ r, some r ∈ evs → r.cause ≠ 11) :
    Continuation env ctx s u ∧ (u.priv = .user → InUser env ctx u) ∧
      (u.priv = .machine → KernelResumed ctx s u) ∧
      ∀ r, some r ∈ evs → ServedTrap isr ctx stack s r := by
  obtain ⟨⟨hc, hin⟩, hserved⟩ := hrun.inProcess hs hout hframe hcause
  refine ⟨hc, fun hpriv => ?_, fun hpriv => ?_, fun r hr => hserved _ hr r rfl⟩
  · obtain hu | hk := hin
    · exact hu
    · cases hpriv.symm.trans hk.priv
  · obtain hu | hk := hin
    · cases hpriv.symm.trans hu.priv
    · exact hk

/-- A tick in user code, and one while an illegal instruction is reported. -/
theorem preempted_process_sample : ∃ (r : TrapRecord) (u : Machine), r.cause = 2 ∧
    u.priv = .machine ∧ r.handler.regs .sp = 0x8000 ∧
    KernelResumed 0x1000 (setCtx kernelStart 0x1000) u := by
  obtain ⟨r₀, u, hraised, hcause, hr₀, hu, hrun⟩ := exists_ticked_sample
  obtain ⟨r, -, rfl, h2, hr, -⟩ :=
    exists_preemptedTrap_sample hu.toUserCtx sampleStack_far sampleStack_outside
  have hend : r.final.mret.priv = .machine := by
    obtain ⟨t₀, htwin, ht₀, -⟩ := hu.exists_twin sampleStack_outside hr
    rw [htwin.exit.priv]
    cases (ht₀.userTrap (htwin.raised ▸ hu.toUserCtx)).2 with
    | resumed _ _ hecall =>
        rw [htwin.cause, h2] at hecall
        exact absurd hecall (by decide)
    | ended _ _ hend _ => exact hend.priv
  have hall : PreemptedRun .sample .sample 0x1000 sampleStack (setCtx kernelStart 0x1000)
      ([none, none] ++ [some r]) r.final.mret :=
    ⟨r₀, hraised, hcause, hr₀, hrun.snoc ⟨hu.priv, .trap hu.priv hr⟩⟩
  have h11 : ∀ q, some q ∈ [none, none] ++ [some r] → q.cause ≠ 11 := by
    intro q hq
    obtain rfl : q = r := by simpa using hq
    rw [h2]
    decide
  obtain ⟨-, -, hresumed, hserved⟩ := preempted_process .sample .sample 0x1000 sampleStack
    sampleStack_outside _ atUserjump_sample (frameWords_frame .sample 0x8000) _ _ hall h11
  refine ⟨r, r.final.mret, h2, hend, ?_, hresumed hend⟩
  rw [(hserved r (by simp)).sp]
  simp [setCtx, kernelStart]

/-! ### Builds that preserve `gp` or `tp` -/

section preserved

variable {env : Env} {isr : Forwarder} {ctx : Word} {stack : Set Word} {s u v : Machine}
  {evs : List (Option TrapRecord)} {q : Reg}

/-- The value that the task had in a register is in force again when a handler
runs, and when the task does. -/
theorem TwinTrap.preserved {r₀ r : TrapRecord} (htwin : TwinTrap isr ctx stack r₀ r)
    (hr₀ : Trap env ctx r₀) (hu : InUser env ctx r.raised) (hc : Continuation env ctx s r.raised)
    (hq : q = .gp ∨ q = .tp) (hsaves : env.saves q) :
    r.handler.regs q = s.regs q ∧
      (r.final.mret.priv = .machine → r.final.mret.regs q = s.regs q) := by
  have hu₀ : InUser env ctx r₀.raised := htwin.raised ▸ hu
  obtain ⟨hentry, huser⟩ := hr₀.userTrap hu₀.toUserCtx
  have hat := hu₀.atHandler r₀.cause
  have hslot : field r₀.raised r₀.raised.mscratch (.mReg q) = s.regs q := by
    rw [hu₀.mscratch, htwin.raised, hc.mReg q, if_pos hsaves]
  refine ⟨?_, fun hp => ?_⟩
  · rw [htwin.handler.regs, hentry, ← hslot, ← hat.fixed rfl (by simp)]
    obtain rfl | rfl := hq
    · have hgp : env.preserveGp = true := by simpa [Env.saves] using hsaves
      rw [hat.gp, if_pos hgp]
    · have htp : env.preserveTp = true := by simpa [Env.saves] using hsaves
      rw [hat.tp, if_pos htp]
  · cases huser with
    | resumed _ _ _ _ _ _ _ hres _ => cases (htwin.exit.priv.symm.trans hp).symm.trans hres.priv
    | ended _ _ hend _ => rw [htwin.exit.regs, hend.regs q hsaves, hslot]

theorem PreemptedUserStep.preserved (hout : ∀ a ∈ stack, OutsideCtx ctx a)
    (hframe : FrameOnStack env stack (s.regs .sp)) (hu : InProcess env ctx s u)
    (hq : q = .gp ∨ q = .tp) (hsaves : env.saves q) {ev : Option TrapRecord}
    (hstep : PreemptedUserStep env isr ctx stack u ev v) :
    (v.priv = .machine → v.regs q = s.regs q) ∧ ∀ r ∈ ev, r.handler.regs q = s.regs q := by
  obtain ⟨hpriv, hstep⟩ := hstep
  obtain ⟨hc, hu | hk⟩ := hu
  · have hon : InUserOn env ctx stack u := by
      refine ⟨hu, ?_⟩
      rw [hc.mReg .sp]
      exact hframe
    cases hstep with
    | code hstep =>
        refine ⟨fun hp => ?_, fun r hr => by cases hr⟩
        cases hstep with
        | user _ hp' _ _ => cases hp'.symm.trans hp
        | kernel hp' _ _ _ => cases hpriv.symm.trans hp'
    | interrupt h =>
        refine ⟨fun hp => ?_, fun r hr => by cases hr⟩
        cases (hpriv.symm.trans (h.outcome hu.mscratch).priv.symm).trans hp
    | ecall hp _ _ _ _ => cases hpriv.symm.trans hp
    | @trap r _ hr =>
        obtain ⟨r₀, htwin, hr₀, -⟩ := hon.exists_twin hout hr
        obtain ⟨hhandler, hfinal⟩ := htwin.preserved hr₀ hu hc hq hsaves
        refine ⟨hfinal, fun r' hr' => ?_⟩
        obtain rfl := Option.some.inj hr'
        exact hhandler
  · cases hpriv.symm.trans hk.priv

end preserved

/-- A build that preserves `gp` or `tp` gives every handler the value of the
kernel in it, and the task as well when its process is over, whatever user code
has put there. -/
theorem preserved_registers (env : Env) (isr : Forwarder) (ctx : Word) (stack : Set Word)
    (hout : ∀ a ∈ stack, OutsideCtx ctx a) (s : Machine) (hs : AtUserjump env ctx s)
    (hframe : FrameOnStack env stack (s.regs .sp)) (evs : List (Option TrapRecord)) (u : Machine)
    (hrun : PreemptedRun env isr ctx stack s evs u) (hcause : ∀ r, some r ∈ evs → r.cause ≠ 11)
    (q : Reg) (hq : q = .gp ∨ q = .tp) (hsaves : env.saves q) :
    (∀ r, some r ∈ evs → r.handler.regs q = s.regs q) ∧
      (u.priv = .machine → u.regs q = s.regs q) := by
  obtain ⟨r, rfl, h11, hr, hrun⟩ := hrun
  have hr₀ := hr.entry hs.toInKernel h11 (.inl hs.call)
  obtain ⟨hent, huser⟩ := hs.entered rfl h11 hr₀
  have hall := hrun.forall_label_of (L := fun ev => ∀ r ∈ ev, r.cause ≠ 11)
    (P := fun v => InProcess env ctx r.raised v ∧
      (v.priv = .machine → v.regs q = r.raised.regs q))
    (Q := fun ev => ∀ r' ∈ ev, r'.handler.regs q = r.raised.regs q)
    (fun v ev w hv hev hstep => by
      obtain ⟨hnext, -⟩ := hstep.inProcess hout hframe hv.1 hev
      obtain ⟨hkernel, hhandler⟩ := hstep.preserved hout hframe hv.1 hq hsaves
      exact ⟨⟨hnext, hkernel⟩, hhandler⟩)
    ⟨⟨hs.continuation hent, .inl huser⟩, fun hp => by cases huser.priv.symm.trans hp⟩ ?_
  · exact ⟨fun r' hr' => hall.2 _ hr' r' rfl, hall.1.2⟩
  · intro ev hev r' hr'
    obtain rfl : ev = some r' := hr'
    exact hcause r' hev

/-- A build that preserves `gp`, and an illegal instruction in user code. -/
theorem preserved_registers_sample : ∃ (r : TrapRecord) (u : Machine), r.cause = 2 ∧
    r.handler.regs .gp = 0x3fc80000 ∧ (u.priv = .machine → u.regs .gp = 0x3fc80000) := by
  set env : Env := { Env.sample with preserveGp := true }
  have happart : StackApart env 0x1000 0x8000 := stackApart_sample
  have hs : AtUserjump env 0x1000 (setCtx kernelStart 0x1000) := by
    refine ⟨setCtx_inKernel rfl, ?_, happart⟩
    simp [setCtx, kernelStart]
  obtain ⟨r₀, hraised, h11, hr₀⟩ := hs.exists_preempted env .sample sampleStack (.inl hs.call)
  have hentry : Trap env 0x1000 r₀ := by
    have hs' := hraised ▸ hs
    exact hr₀.entry hs'.toInKernel h11 (.inl hs'.call)
  obtain ⟨-, hin⟩ := hs.entered hraised h11 hentry
  obtain ⟨r, -, hr, h2, htrap, -⟩ :=
    exists_preemptedTrap_sample hin.toUserCtx sampleStack_far sampleStack_outside
  have hpriv : r.raised.priv = .user := hr ▸ hin.priv
  have hrun : PreemptedRun env .sample 0x1000 sampleStack (setCtx kernelStart 0x1000) [some r]
      r.final.mret :=
    ⟨r₀, hraised, h11, hr₀, hr ▸ .single ⟨hpriv, .trap hpriv htrap⟩⟩
  have hcause : ∀ q, some q ∈ [some r] → q.cause ≠ 11 := by
    intro q hq
    obtain rfl : q = r := by simpa using hq
    rw [h2]
    decide
  obtain ⟨hhandler, hkernel⟩ := preserved_registers env .sample 0x1000 sampleStack
    sampleStack_outside _ hs (frameWords_frame .sample 0x8000) _ _ hrun hcause .gp (.inl rfl) rfl
  have hgp : (setCtx kernelStart 0x1000).regs .gp = 0x3fc80000 := by simp [setCtx, kernelStart]
  exact ⟨r, r.final.mret, h2, hgp ▸ hhandler r (by simp), hgp ▸ hkernel⟩

end BadgeElfloader.Kernel
