import BadgeElfloader.Kernel.Transitions
import BadgeElfloader.Transition.Run

/-!
A process in the task that runs it.

The kernel enters user code by an ECALL, user code runs, every trap takes the
hart through the trap path, and one of them ends the process. `Step` describes
all of this with one task and no task switch; both kinds of code between traps
are arbitrary, but for the context that user code does not reach and for the
`is_super` flag that the kernel leaves to the trap path.
-/

namespace BadgeElfloader.Kernel

open Riscv Transition

/-- One trap: the state it was raised in, the state its handler was entered in,
the state in which a native function was entered, if any, and the state at the
`mret`. -/
structure TrapRecord where
  raised : Machine
  cause : Word
  handler : Machine
  body : Option Machine
  final : Machine

/-- The traps there are, native functions doing whatever they like within
`NativeResult`. -/
inductive Trap (env : Env) (ctx : Word) : TrapRecord → Prop
  | handled {s h t : Machine} {cause : Word} :
      trap env s cause = .mret h t → Trap env ctx ⟨s, cause, h, none, t⟩
  | called {s h b n t : Machine} {cause : Word} :
      trap env s cause = .call h b → NativeResult ctx b n → abiReturn env h n = some t →
      Trap env ctx ⟨s, cause, h, some b, t⟩

/-- `setCtx`, which prepares the hart for its first ECALL. -/
def setCtx (s : Machine) (ctx : Word) : Machine :=
  (s.setCsr .mscratch ctx).store (ctx + Field.isSuper.offset) 1

inductive Step (env : Env) (ctx : Word) : Machine → Option TrapRecord → Machine → Prop
  | user {s u : Machine} : s.priv = .user → u.priv = .user → u.mscratch = s.mscratch →
      (∀ f, field u ctx f = field s ctx f) → Step env ctx s none u
  | kernel {s u : Machine} : s.priv = .machine → u.priv = .machine → u.mscratch = s.mscratch →
      field u ctx .isSuper = field s ctx .isSuper → Step env ctx s none u
  | ecall {r : TrapRecord} : r.raised.priv = .machine → r.cause = 11 →
      r.raised.regs .a0 = sysUserjump ∨ r.raised.regs .a0 = sysUserenter →
      StackApart env ctx (r.raised.regs .sp) → Trap env ctx r →
      Step env ctx r.raised (some r) r.final.mret
  | trap {r : TrapRecord} : r.raised.priv = .user → Trap env ctx r →
      Step env ctx r.raised (some r) r.final.mret

/-! ### The invariant -/

/-- The hart is set up for a trap out of user code. -/
structure UserCtx (env : Env) (ctx : Word) (s : Machine) : Prop where
  mscratch : s.mscratch = ctx
  isSuper : field s ctx .isSuper = 0
  stack : StackApart env ctx (field s ctx (.mReg .sp))

/-- User code is running. -/
structure InUser (env : Env) (ctx : Word) (s : Machine) : Prop extends UserCtx env ctx s where
  priv : s.priv = .user

/-- The kernel is running outside of any trap. -/
structure InKernel (ctx : Word) (s : Machine) : Prop where
  priv : s.priv = .machine
  mscratch : s.mscratch = ctx
  isSuper : field s ctx .isSuper = 1

/-- What a trap out of user code does, by what its handler decides. -/
inductive UserTrap (env : Env) (ctx : Word) (r : TrapRecord) : Prop
  | resumed (n b : Machine) : r.cause = 8 ∨ r.cause = 11 → AbiCall r.handler →
      r.body = some b → AtBody env r.handler b → NativeResult ctx b n →
      Resumed r.cause r.raised n r.final.mret → r.final.mstatus &&& mppMask = 0 →
      UserTrap env ctx r
  | ended : ¬((r.cause = 8 ∨ r.cause = 11) ∧ AbiCall r.handler) → r.body = none →
      Ended env r.cause r.raised r.final.mret → r.final.mstatus &&& mppMask = mppMask →
      UserTrap env ctx r

theorem UserCtx.atHandler {env : Env} {ctx : Word} {s : Machine} (hs : UserCtx env ctx s)
    (cause : Word) : AtHandler env false cause s (handlerEntry env s cause) :=
  handlerEntry_spec env false s cause (by rw [hs.mscratch, hs.isSuper]; simp)

theorem Trap.userTrap {env : Env} {ctx : Word} {r : TrapRecord} (hr : Trap env ctx r)
    (hs : UserCtx env ctx r.raised) :
    r.handler = handlerEntry env r.raised r.cause ∧ UserTrap env ctx r := by
  have hctx := hs.mscratch
  have hat := hs.atHandler r.cause
  have htrap := trap_user (hctx ▸ hs.isSuper) (rfl : _ = handlerEntry env r.raised r.cause)
  have hstack : StackApart env r.raised.mscratch
      (field r.raised r.raised.mscratch (.mReg .sp)) := hctx ▸ hs.stack
  generalize handlerEntry env r.raised r.cause = e at hat htrap ⊢
  split at htrap
  · rename_i hcall
    have hsp : e.regs .sp = field r.raised r.raised.mscratch (.mReg .sp) :=
      hat.sp.trans (hat.fixed rfl (by simp))
    cases hr with
    | handled h => cases htrap.symm.trans h
    | called h hn hret =>
        obtain ⟨rfl, rfl⟩ := Trapped.call.inj (htrap.symm.trans h)
        have hbody := makeABICall_spec env e (by rwa [hat.mscratch, hsp])
        obtain ⟨t, ht, hres, hmpp⟩ := abiReturn_resumed hat hstack (hctx ▸ hn)
        obtain rfl := Option.some.inj (ht.symm.trans hret)
        exact ⟨rfl, .resumed _ _ hcall.1 hcall.2 rfl hbody hn hres hmpp⟩
  · rename_i hcall
    obtain ⟨w, hw, ha0, hmem, hscratch, hgp, htp⟩ := htrap
    cases hr with
    | called h _ _ => cases hw.symm.trans h
    | handled h =>
        obtain ⟨rfl, rfl⟩ := Trapped.mret.inj (hw.symm.trans h)
        obtain ⟨hend, hmpp⟩ := checkRestore_ended hat ha0 hmem hscratch hgp htp
        exact ⟨rfl, .ended hcall rfl hend hmpp⟩

theorem InUser.resumed {env : Env} {ctx cause : Word} {s n u : Machine} (hs : InUser env ctx s)
    (hu : Resumed cause s n u) : InUser env ctx u where
  priv := hu.priv
  mscratch := hu.mscratch.trans hs.mscratch
  isSuper := hs.mscratch ▸ hu.isSuper
  stack := by
    have hsp := hu.fixed (.mReg .sp) rfl
    rw [hs.mscratch] at hsp
    rw [hsp]
    exact hs.stack

theorem InUser.ended {env : Env} {ctx cause : Word} {s e : Machine} (hs : InUser env ctx s)
    (he : Ended env cause s e) : InKernel ctx e where
  priv := he.priv
  mscratch := he.mscratch.trans hs.mscratch
  isSuper := hs.mscratch ▸ he.isSuper

theorem InKernel.entered {env : Env} {ctx : Word} {s u : Machine} (hs : InKernel ctx s)
    (hstack : StackApart env ctx (s.regs .sp)) (hu : Entered env s u) : InUser env ctx u where
  priv := hu.priv
  mscratch := hu.mscratch.trans hs.mscratch
  isSuper := hs.mscratch ▸ hu.isSuper
  stack := by
    have hsp : field u s.mscratch (.mReg .sp) = s.regs .sp := hu.mReg .sp
    rw [hs.mscratch] at hsp
    rwa [hsp]

theorem InKernel.trap_entered {env : Env} {ctx : Word} {r : TrapRecord}
    (hs : InKernel ctx r.raised) (hr : Trap env ctx r) (hcause : r.cause = 11)
    (hcall : r.raised.regs .a0 = sysUserjump ∨ r.raised.regs .a0 = sysUserenter) :
    r.body = none ∧ Entered env r.raised r.final.mret ∧ r.final.mstatus &&& mppMask = 0 := by
  have hsuper : field r.raised r.raised.mscratch .isSuper ≠ 0 := by
    rw [hs.mscratch, hs.isSuper]
    decide
  obtain ⟨t, htrap, hent, hmpp⟩ := trap_kernel env hsuper hcall
  rw [← hcause] at htrap
  cases hr with
  | handled h =>
      obtain ⟨-, rfl⟩ := Trapped.mret.inj (htrap.symm.trans h)
      exact ⟨rfl, hent, hmpp⟩
  | called h _ _ => cases htrap.symm.trans h

/-- The `mret` of a trap agrees with the context on who runs next, and the
native function called meanwhile has run for the kernel. -/
structure PrivilegeExact (ctx : Word) (r : TrapRecord) : Prop where
  mret : (r.final.mret.priv = .user ∧ r.final.mstatus &&& mppMask = 0 ∧
      field r.final ctx .isSuper = 0) ∨
    (r.final.mret.priv = .machine ∧ r.final.mstatus &&& mppMask = mppMask ∧
      field r.final ctx .isSuper = 1)
  body : ∀ b, r.body = some b → field b ctx .isSuper = 1

/-- The hart is outside of any trap. -/
def Outside (env : Env) (ctx : Word) (s : Machine) : Prop := InUser env ctx s ∨ InKernel ctx s

theorem Step.outside {env : Env} {ctx : Word} {s s' : Machine} {ev : Option TrapRecord}
    (hs : Outside env ctx s) (hstep : Step env ctx s ev s') :
    Outside env ctx s' ∧ ∀ r ∈ ev, PrivilegeExact ctx r := by
  cases hstep with
  | user hpriv hpriv' hscratch hfield =>
      obtain hu | hk := hs
      · refine ⟨.inl ⟨⟨hscratch.trans hu.mscratch, (hfield _).trans hu.isSuper, ?_⟩, hpriv'⟩, nofun⟩
        rw [hfield]
        exact hu.stack
      · cases hpriv.symm.trans hk.priv
  | kernel hpriv hpriv' hscratch hsuper =>
      obtain hu | hk := hs
      · cases hpriv.symm.trans hu.priv
      · exact ⟨.inr ⟨hpriv', hscratch.trans hk.mscratch, hsuper.trans hk.isSuper⟩, nofun⟩
  | @ecall r hpriv hcause hcall hstack hr =>
      obtain hu | hk := hs
      · cases hpriv.symm.trans hu.priv
      · obtain ⟨hbody, hent, hmpp⟩ := hk.trap_entered hr hcause hcall
        have hin := hk.entered hstack hent
        refine ⟨.inl hin, fun q hq => ?_⟩
        obtain rfl := Option.some.inj hq
        exact ⟨.inl ⟨hin.priv, hmpp, hin.isSuper⟩, by simp [hbody]⟩
  | @trap r hpriv hr =>
      obtain hu | hk := hs
      · refine (?_ : _ ∧ PrivilegeExact ctx r).imp_right fun h q hq => Option.some.inj hq ▸ h
        cases (hr.userTrap hu.toUserCtx).2 with
        | resumed n b _ _ hb hbody _ hres hmpp =>
            have hin := hu.resumed hres
            refine ⟨.inl hin, .inl ⟨hin.priv, hmpp, hin.isSuper⟩, fun c hc => ?_⟩
            have hctx : r.handler.mscratch = ctx := by
              rw [(hr.userTrap hu.toUserCtx).1, (hu.atHandler _).mscratch, hu.mscratch]
            obtain rfl := Option.some.inj (hb.symm.trans hc)
            simpa [hctx] using hbody.fields .isSuper
        | ended _ hb hend hmpp =>
            have hin := hu.ended hend
            exact ⟨.inr hin, .inr ⟨hin.priv, hmpp, hin.isSuper⟩, by simp [hb]⟩
      · cases hpriv.symm.trans hk.priv

/-! ### Progress -/

/-- Out of user code every trap takes place, and none of them panics. -/
theorem UserCtx.exists_trap {env : Env} {ctx : Word} {s : Machine} (hs : UserCtx env ctx s)
    (cause : Word) : ∃ r, r.raised = s ∧ r.cause = cause ∧ Trap env ctx r := by
  have hctx := hs.mscratch
  have htrap := trap_user (hctx ▸ hs.isSuper) (rfl : _ = handlerEntry env s cause)
  split at htrap
  · obtain ⟨t, ht, -⟩ := abiReturn_resumed (hs.atHandler cause) (hctx ▸ hs.stack)
      (returnAtOnce_result _ _)
    exact ⟨_, rfl, rfl, .called htrap (returnAtOnce_result _ _) ht⟩
  · obtain ⟨w, hw, -⟩ := htrap
    exact ⟨_, rfl, rfl, .handled hw⟩

theorem UserCtx.call {env : Env} {ctx cause : Word} {s h b : Machine} (hs : UserCtx env ctx s)
    (hcall : trap env s cause = .call h b) :
    h = handlerEntry env s cause ∧ b = makeABICall env (abiCallSite env h) := by
  have htrap := trap_user (hs.mscratch ▸ hs.isSuper) (rfl : _ = handlerEntry env s cause)
  split at htrap
  · obtain ⟨rfl, rfl⟩ := Trapped.call.inj (hcall.symm.trans htrap)
    exact ⟨rfl, rfl⟩
  · obtain ⟨w, hw, -⟩ := htrap
    cases hw.symm.trans hcall

theorem UserCtx.trap_ne_panic {env : Env} {ctx : Word} {s : Machine} (hs : UserCtx env ctx s)
    (cause : Word) (h : Machine) : trap env s cause ≠ .panic h := by
  intro hpanic
  have htrap := trap_user (hs.mscratch ▸ hs.isSuper) (rfl : _ = handlerEntry env s cause)
  rw [hpanic] at htrap
  split at htrap
  · cases htrap
  · obtain ⟨w, hw, -⟩ := htrap
    cases hw

theorem InKernel.exists_ecall (env : Env) {ctx : Word} {s : Machine} (hs : InKernel ctx s)
    (hcall : s.regs .a0 = sysUserjump ∨ s.regs .a0 = sysUserenter) :
    ∃ r, r.raised = s ∧ r.cause = 11 ∧ Trap env ctx r := by
  have hsuper : field s s.mscratch .isSuper ≠ 0 := by
    rw [hs.mscratch, hs.isSuper]
    decide
  obtain ⟨t, htrap, -⟩ := trap_kernel env hsuper hcall
  exact ⟨_, rfl, rfl, .handled htrap⟩

/-! ### Privilege -/

theorem setCtx_inKernel {s : Machine} {ctx : Word} (hs : s.priv = .machine) :
    InKernel ctx (setCtx s ctx) where
  priv := by simpa [setCtx] using hs
  mscratch := by simp [setCtx]
  isSuper := by simp [setCtx]

/-- The states that a task comes through behind `setCtx`. -/
def BehindSetCtx (env : Env) (ctx : Word) : Machine → Prop :=
  Reachable (fun s => ∃ s₀ : Machine, s₀.priv = .machine ∧ s = setCtx s₀ ctx) (Step env ctx)

theorem BehindSetCtx.outside {env : Env} {ctx : Word} {s : Machine}
    (h : BehindSetCtx env ctx s) : Outside env ctx s := by
  refine Reachable.invariant h ?_ fun s a t hs hstep => (hstep.outside hs).1
  rintro s ⟨s₀, hs₀, rfl⟩
  exact .inr (setCtx_inKernel hs₀)

/-- Privilege bookkeeping is exact, and no trap out of user code panics. -/
theorem privilege_exact (env : Env) (ctx : Word) (s : Machine) (hs : BehindSetCtx env ctx s) :
    (s.priv = .user → field s ctx .isSuper = 0) ∧
      (∀ r s', Step env ctx s (some r) s' → PrivilegeExact ctx r) ∧
      (s.priv = .user → ∀ cause h, trap env s cause ≠ .panic h) ∧
      (s.priv = .user → ∀ cause h b n, trap env s cause = .call h b → NativeResult ctx b n →
        ∃ t, abiReturn env h n = some t) ∧
      (s.priv = .user → s.regs .a0 = sysUserjump ∨ s.regs .a0 = sysUserenter →
        ∃ t, trap env s 8 = .mret (handlerEntry env s 8) t ∧ t.mret.priv = .machine ∧
          field t ctx .uPc = s.pc + 4 ∧
          ∀ r, field t ctx (.uReg r) =
            if env.saves r then s.regs r else field s ctx (.uReg r)) := by
  have hout := hs.outside
  have huser : s.priv = .user → InUser env ctx s := by
    intro hpriv
    obtain hu | hk := hout
    · exact hu
    · cases hpriv.symm.trans hk.priv
  refine ⟨fun hp => (huser hp).isSuper, fun r s' hstep => (hstep.outside hout).2 r rfl,
    fun hp => (huser hp).trap_ne_panic, fun hp cause h b n hcall hn => ?_, fun hp ha0 => ?_⟩
  · have hu := huser hp
    obtain ⟨rfl, rfl⟩ := hu.call hcall
    obtain ⟨t, ht, -⟩ := abiReturn_resumed (hu.atHandler cause) (hu.mscratch ▸ hu.stack)
      (hu.mscratch ▸ hn)
    exact ⟨t, ht⟩
  · have hu := huser hp
    obtain ⟨r, rfl, hcause, hr⟩ := hu.exists_trap 8
    obtain ⟨hentry, htrap⟩ := hr.userTrap hu.toUserCtx
    rw [hcause] at hentry
    have hreg : r.handler.regs .a0 = r.raised.regs .a0 := by
      rw [hentry]
      exact (hu.atHandler 8).regs .a0 (by decide) (by decide) (by decide) (by decide) (by decide)
    cases htrap with
    | resumed _ _ _ hcall =>
        have h513 := hcall.1
        rw [hreg] at h513
        rw [h513] at ha0
        exact absurd ha0 (by decide)
    | ended _ hbody hend _ =>
        rw [hcause] at hend
        have hpc := hend.uPc
        have hreg := hend.uReg
        rw [hu.mscratch] at hpc hreg
        cases hr with
        | handled h =>
            obtain rfl := hcause
            exact ⟨_, hentry ▸ h, hend.priv, hpc, hreg⟩
        | called => cases hbody

/-- A task about to make its first process. -/
def kernelStart : Machine where
  regs := fun r => match r with
    | .sp => 0x8000
    | .gp => 0x3fc80000
    | .tp => 0x3fc90000
    | .a0 => sysUserjump
    | _ => 0
  mem := fun _ => 0
  pc := 0x42002000
  priv := .machine
  mstatus := 0x8
  mepc := 0
  mcause := 0
  mscratch := 0

theorem exists_entered_sample : ∃ r, r.raised = setCtx kernelStart 0x1000 ∧ r.cause = 11 ∧
    Trap Env.sample 0x1000 r ∧ InUser Env.sample 0x1000 r.final.mret := by
  have hk : InKernel 0x1000 (setCtx kernelStart 0x1000) := setCtx_inKernel rfl
  have hcall : (setCtx kernelStart 0x1000).regs .a0 = sysUserjump := by
    simp [setCtx, kernelStart]
  obtain ⟨r, hraised, hcause, hr⟩ := hk.exists_ecall Env.sample (.inl hcall)
  rw [← hraised] at hk hcall
  obtain ⟨-, hent, -⟩ := hk.trap_entered hr hcause (.inl hcall)
  refine ⟨r, hraised, hcause, hr, hk.entered ?_ hent⟩
  rw [hraised]
  exact stackApart_sample

theorem behindSetCtx_sample {r : TrapRecord} (hraised : r.raised = setCtx kernelStart 0x1000)
    (hcause : r.cause = 11) (hr : Trap Env.sample 0x1000 r) :
    BehindSetCtx Env.sample 0x1000 r.final.mret := by
  refine ⟨setCtx kernelStart 0x1000, [some r], ⟨kernelStart, rfl, rfl⟩, .single ?_⟩
  have hstep : Step Env.sample 0x1000 r.raised (some r) r.final.mret := by
    refine .ecall ?_ hcause ?_ ?_ hr <;> rw [hraised]
    · rfl
    · exact .inl rfl
    · exact stackApart_sample
  exact hraised ▸ hstep

theorem privilege_exact_sample : ∃ s, s.priv = .user ∧ field s 0x1000 .isSuper = 0 ∧
    ∀ cause h, trap Env.sample s cause ≠ .panic h := by
  obtain ⟨r, hraised, hcause, hr, hin⟩ := exists_entered_sample
  have hexact := privilege_exact Env.sample 0x1000 r.final.mret
    (behindSetCtx_sample hraised hcause hr)
  exact ⟨r.final.mret, hin.priv, hexact.1 hin.priv, hexact.2.2.1 hin.priv⟩

end BadgeElfloader.Kernel
