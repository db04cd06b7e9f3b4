import BadgeElfloader.Kernel.Process

/-!
The kernel continuation of a process.

`SYS_USERJUMP` leaves the calling task behind in `m_regs` and `m_pc`, to be
continued when the process is over. The continuation survives the process,
except that in the default build `gp` and `tp` are not part of it: there the
kernel runs on whatever user code has left in these two registers.
-/

namespace BadgeElfloader.Kernel

open Riscv Transition

/-- The task makes the system call that enters its process. -/
structure AtUserjump (env : Env) (ctx : Word) (s : Machine) : Prop extends InKernel ctx s where
  call : s.regs .a0 = sysUserjump
  stack : StackApart env ctx (s.regs .sp)

/-- User code runs, or a trap is raised in it. -/
def UserStep (env : Env) (ctx : Word) (s : Machine) (ev : Option TrapRecord) (u : Machine) : Prop :=
  s.priv = .user ∧ Step env ctx s ev u

/-- The process entered by the system call in state `s` has come to state
`u`. -/
def ProcessRun (env : Env) (ctx : Word) (s : Machine) (evs : List (Option TrapRecord))
    (u : Machine) : Prop :=
  ∃ r, r.raised = s ∧ r.cause = 11 ∧ Trap env ctx r ∧
    Run (UserStep env ctx) r.final.mret evs u

/-- The context still holds what trap entry saved of the task in state `s`. -/
structure Continuation (env : Env) (ctx : Word) (s u : Machine) : Prop where
  mReg : ∀ r, field u ctx (.mReg r) = if env.saves r then s.regs r else field s ctx (.mReg r)
  mPc : field u ctx .mPc = s.pc + 4

/-- The task that made the system call in state `s` goes on behind it. -/
structure KernelResumed (ctx : Word) (s e : Machine) : Prop extends InKernel ctx e where
  pc : e.pc = s.pc + 4
  regs : ∀ r, r ≠ .gp → r ≠ .tp → e.regs r = s.regs r

section process

variable {env : Env} {ctx : Word} {s u : Machine} {evs : List (Option TrapRecord)}

theorem AtUserjump.entered (hs : AtUserjump env ctx s) {r : TrapRecord} (hraised : r.raised = s)
    (hcause : r.cause = 11) (hr : Trap env ctx r) :
    Entered env s r.final.mret ∧ InUser env ctx r.final.mret := by
  subst hraised
  obtain ⟨-, hent, -⟩ := hs.trap_entered hr hcause (.inl hs.call)
  exact ⟨hent, hs.entered hs.stack hent⟩

theorem AtUserjump.continuation (hs : AtUserjump env ctx s) (hu : Entered env s u) :
    Continuation env ctx s u :=
  ⟨fun r => hs.mscratch ▸ hu.mReg r, hs.mscratch ▸ hu.mPc⟩

/-- User code of the process runs, or the task has been resumed. -/
def InProcess (env : Env) (ctx : Word) (s u : Machine) : Prop :=
  Continuation env ctx s u ∧ (InUser env ctx u ∨ KernelResumed ctx s u)

theorem Continuation.of_fixed (hc : Continuation env ctx s u) {v : Machine}
    (hfixed : ∀ f, f.fixed → field v ctx f = field u ctx f)
    (hpc : field v ctx .mPc = field u ctx .mPc) : Continuation env ctx s v :=
  ⟨fun r => (hfixed _ rfl).trans (hc.mReg r), hpc.trans hc.mPc⟩

/-- A trap that ends the process resumes the task. -/
theorem Continuation.resume (hc : Continuation env ctx s u) (hu : InUser env ctx u)
    {cause : Word} (hcause : cause ≠ 11) {e : Machine} (he : Ended env cause u e) :
    Continuation env ctx s e ∧ KernelResumed ctx s e := by
  have hpc := he.pc
  have hmPc := he.mPc
  have hfixed := he.fixed
  have hregs := he.regs
  rw [hu.mscratch] at hpc hmPc hfixed hregs
  rw [add_step_of_ne hcause] at hpc hmPc
  refine ⟨hc.of_fixed hfixed hmPc, hu.ended he, hpc.trans hc.mPc, fun r hgp htp => ?_⟩
  have hr : env.saves r = true := by simp [Env.saves, hgp, htp]
  rw [hregs r hr, hc.mReg, hr]
  rfl

theorem UserStep.inProcess (hu : InProcess env ctx s u) {ev : Option TrapRecord}
    (hev : ∀ r ∈ ev, r.cause ≠ 11) {v : Machine} (hstep : UserStep env ctx u ev v) :
    InProcess env ctx s v := by
  obtain ⟨hpriv, hstep⟩ := hstep
  obtain ⟨hc, hu | hk⟩ := hu
  · cases hstep with
    | user _ hpriv' hscratch hfield =>
        refine ⟨hc.of_fixed (fun f _ => hfield f) (hfield _), .inl ?_⟩
        exact ⟨⟨hscratch.trans hu.mscratch, (hfield _).trans hu.isSuper,
          by rw [hfield]; exact hu.stack⟩, hpriv'⟩
    | kernel hp _ _ _ => cases hpriv.symm.trans hp
    | ecall hp _ _ _ _ => cases hpriv.symm.trans hp
    | @trap r _ hr =>
        have hcause := hev r rfl
        cases (hr.userTrap hu.toUserCtx).2 with
        | resumed n b _ _ _ _ _ hres _ =>
            have hfixed := hres.fixed
            have hmPc := hres.mPc
            rw [hu.mscratch] at hfixed hmPc
            rw [add_step_of_ne hcause] at hmPc
            exact ⟨hc.of_fixed hfixed hmPc, .inl (hu.resumed hres)⟩
        | ended _ _ hend _ =>
            obtain ⟨hcont, hresume⟩ := hc.resume hu hcause hend
            exact ⟨hcont, .inr hresume⟩
  · cases hpriv.symm.trans hk.priv

theorem ProcessRun.inProcess (hs : AtUserjump env ctx s) (hrun : ProcessRun env ctx s evs u)
    (hcause : ∀ r, some r ∈ evs → r.cause ≠ 11) : InProcess env ctx s u := by
  obtain ⟨r, hraised, h11, hr, hrun⟩ := hrun
  obtain ⟨hent, huser⟩ := hs.entered hraised h11 hr
  refine hrun.invariant_of_labels (L := fun ev => ∀ r ∈ ev, r.cause ≠ 11)
    (fun _ _ _ hu hev hstep => hstep.inProcess hu hev) ⟨hs.continuation hent, .inl huser⟩ ?_
  intro ev hev q hq
  obtain rfl : ev = some q := hq
  exact hcause q hev

/-- The continuation survives every run of the process, and the first trap that
is not the call of a native function takes the task back to it. -/
theorem kernel_continuation_survives (env : Env) (ctx : Word) (s : Machine)
    (hs : AtUserjump env ctx s) (evs : List (Option TrapRecord)) (u : Machine)
    (hrun : ProcessRun env ctx s evs u) (hcause : ∀ r, some r ∈ evs → r.cause ≠ 11) :
    Continuation env ctx s u ∧
      (u.priv = .machine → KernelResumed ctx s u) ∧
      (u.priv = .user → ∀ cause, cause ≠ 11 →
        (cause = 8 ∧ AbiCall (handlerEntry env u cause)) ∨
        ∃ t, trap env u cause = .mret (handlerEntry env u cause) t ∧
          KernelResumed ctx s t.mret) := by
  obtain ⟨hc, hin⟩ := hrun.inProcess hs hcause
  refine ⟨hc, fun hpriv => ?_, fun hpriv cause h11 => ?_⟩
  · obtain hu | hk := hin
    · cases hpriv.symm.trans hu.priv
    · exact hk
  · obtain hu | hk := hin
    · obtain ⟨r, rfl, rfl, hr⟩ := hu.exists_trap cause
      obtain ⟨hentry, htrap⟩ := hr.userTrap hu.toUserCtx
      cases htrap with
      | resumed n b hecall habi =>
          rw [hentry] at habi
          exact .inl ⟨hecall.resolve_right h11, habi⟩
      | ended _ hbody hend _ =>
          cases hr with
          | handled h => exact .inr ⟨_, hentry ▸ h, (hc.resume hu h11 hend).2⟩
          | called => cases hbody
    · cases hpriv.symm.trans hk.priv

end process

/-! ### A process that spoils `gp` -/

theorem atUserjump_sample : AtUserjump Env.sample 0x1000 (setCtx kernelStart 0x1000) where
  toInKernel := setCtx_inKernel rfl
  call := by simp [setCtx, kernelStart]
  stack := stackApart_sample

/-- A process that loads a value of its own into `gp` and runs into an illegal
instruction. -/
theorem exists_run_sample : ∃ r u, r.cause = 2 ∧ r.raised.regs .gp = 0xdead ∧
    u.priv = .machine ∧
    ProcessRun Env.sample 0x1000 (setCtx kernelStart 0x1000) [none, some r] u := by
  obtain ⟨r₀, hraised, h11, hr₀⟩ :=
    atUserjump_sample.exists_ecall Env.sample (.inl atUserjump_sample.call)
  obtain ⟨-, huser⟩ := atUserjump_sample.entered hraised h11 hr₀
  set v := r₀.final.mret.setReg .gp 0xdead with hv
  have hin : InUser Env.sample 0x1000 v :=
    ⟨⟨huser.mscratch, huser.isSuper, huser.stack⟩, huser.priv⟩
  obtain ⟨r, hr, hcause, htrap⟩ := hin.exists_trap 2
  have hmachine : r.final.mret.priv = .machine := by
    cases (htrap.userTrap (hr ▸ hin.toUserCtx)).2 with
    | resumed _ _ h =>
        rw [hcause] at h
        exact absurd h (by decide)
    | ended _ _ hend _ => exact hend.priv
  have hrpriv : r.raised.priv = .user := hr ▸ hin.priv
  refine ⟨r, r.final.mret, hcause, by simp [hr, hv], hmachine, r₀, hraised, h11, hr₀, ?_⟩
  refine .cons (t := v) ⟨huser.priv, .user huser.priv hin.priv rfl fun _ => rfl⟩ ?_
  exact hr ▸ .single ⟨hrpriv, .trap hrpriv htrap⟩

theorem kernel_continuation_survives_sample : ∃ u, u.priv = .machine ∧
    KernelResumed 0x1000 (setCtx kernelStart 0x1000) u := by
  obtain ⟨r, u, hcause, -, hpriv, hrun⟩ := exists_run_sample
  have h11 : ∀ q, some q ∈ [none, some r] → q.cause ≠ 11 := by
    intro q hq
    obtain rfl : q = r := by simpa using hq
    rw [hcause]
    decide
  exact ⟨u, hpriv, (kernel_continuation_survives Env.sample 0x1000 _ atUserjump_sample _ u hrun
    h11).2.1 hpriv⟩

/-! ### `gp` and `tp` -/

def SameGpTp (k s : Machine) : Prop := s.regs .gp = k.regs .gp ∧ s.regs .tp = k.regs .tp

/-- Handlers run, and the task goes on behind the process, with the `gp` and
`tp` of the task. -/
def KernelGpTp (s : Machine) (evs : List (Option TrapRecord)) (u : Machine) : Prop :=
  (∀ r, some r ∈ evs → SameGpTp s r.handler) ∧ (u.priv = .machine → SameGpTp s u)

section gptp

variable {env : Env} {ctx : Word} {s u : Machine} {evs : List (Option TrapRecord)}

/-- In a build that saves neither register, a handler runs with the values of
user code, and so does the task behind the last trap. -/
theorem Trap.gp_tp (hgp : env.preserveGp = false) (htp : env.preserveTp = false)
    {r : TrapRecord} (hu : InUser env ctx r.raised) (hr : Trap env ctx r) :
    SameGpTp r.raised r.handler ∧
      (r.final.mret.priv = .machine → SameGpTp r.raised r.final.mret) := by
  obtain ⟨hentry, htrap⟩ := hr.userTrap hu.toUserCtx
  have hat := hu.atHandler r.cause
  have hsgp : env.saves .gp = false := by simp [Env.saves, hgp]
  have hstp : env.saves .tp = false := by simp [Env.saves, htp]
  refine ⟨hentry ▸ ⟨hat.unsaved hsgp, hat.unsaved hstp⟩, fun hpriv => ?_⟩
  cases htrap with
  | resumed _ _ _ _ _ _ _ hres _ => cases hpriv.symm.trans hres.priv
  | ended _ _ hend _ => exact ⟨hend.rest _ hsgp, hend.rest _ hstp⟩

theorem UserStep.gp_tp (hgp : env.preserveGp = false) (htp : env.preserveTp = false)
    (hu : Outside env ctx u) {v : Machine} {ev : Option TrapRecord}
    (hstep : UserStep env ctx u ev v) :
    (∀ r, ev = some r → SameGpTp r.raised r.handler) ∧
      (v.priv = .machine → ∃ r, ev = some r ∧ SameGpTp r.raised v) := by
  obtain ⟨hpriv, hstep⟩ := hstep
  cases hstep with
  | user _ hpriv' _ _ => exact ⟨nofun, fun h => absurd (h.symm.trans hpriv') (by decide)⟩
  | kernel hp _ _ _ => cases hpriv.symm.trans hp
  | ecall hp _ _ _ _ => cases hpriv.symm.trans hp
  | @trap r _ hr =>
      have hin : InUser env ctx r.raised :=
        hu.resolve_right fun hk => absurd (hpriv.symm.trans hk.priv) (by decide)
      obtain ⟨hhandler, hfinal⟩ := hr.gp_tp hgp htp hin
      exact ⟨fun q hq => Option.some.inj hq ▸ hhandler, fun h => ⟨r, rfl, hfinal h⟩⟩

end gptp

/-- In the default build the kernel keeps its `gp` and `tp` over a process
exactly if user code never traps with other values in them. -/
theorem kernelGpTp_iff (env : Env) (hgp : env.preserveGp = false) (htp : env.preserveTp = false)
    (ctx : Word) (s : Machine) (hs : AtUserjump env ctx s) (evs : List (Option TrapRecord))
    (u : Machine) (hrun : ProcessRun env ctx s evs u) :
    KernelGpTp s evs u ↔ ∀ r, some r ∈ evs → SameGpTp s r.raised := by
  obtain ⟨r₀, hraised, h11, hr₀, hrun⟩ := hrun
  obtain ⟨-, huser⟩ := hs.entered hraised h11 hr₀
  have hstep : ∀ v ev w, Outside env ctx v → UserStep env ctx v ev w →
      Outside env ctx w ∧ ∀ r, ev = some r → SameGpTp r.raised r.handler := fun v ev w hv h =>
    ⟨(h.2.outside hv).1, (h.gp_tp hgp htp hv).1⟩
  have hhandler := (hrun.forall_label hstep (.inl huser)).2
  refine ⟨fun h r hr => ?_, fun h => ⟨fun r hr => ?_, fun hpriv => ?_⟩⟩
  · obtain ⟨h1, h2⟩ := hhandler _ hr r rfl
    obtain ⟨h3, h4⟩ := h.1 r hr
    exact ⟨h1.symm.trans h3, h2.symm.trans h4⟩
  · obtain ⟨h1, h2⟩ := hhandler _ hr r rfl
    obtain ⟨h3, h4⟩ := h r hr
    exact ⟨h1.trans h3, h2.trans h4⟩
  · -- the kernel only runs again behind a last trap
    obtain ⟨-, rfl⟩ | ⟨bs, ev, v, rfl, hbs, hlast⟩ := hrun.eq_nil_or_snoc
    · cases hpriv.symm.trans huser.priv
    · have hv : Outside env ctx v :=
        hbs.invariant (fun _ _ _ hw h => (h.2.outside hw).1) (.inl huser)
      obtain ⟨r, rfl, h1, h2⟩ := (hlast.gp_tp hgp htp hv).2 hpriv
      obtain ⟨h3, h4⟩ := h r (by simp)
      exact ⟨h1.trans h3, h2.trans h4⟩

theorem kernelGpTp_iff_sample : ∃ r u,
    (KernelGpTp (setCtx kernelStart 0x1000) [none, some r] u ↔
      ∀ q, some q ∈ [none, some r] → SameGpTp (setCtx kernelStart 0x1000) q.raised) := by
  obtain ⟨r, u, -, -, -, hrun⟩ := exists_run_sample
  exact ⟨r, u, kernelGpTp_iff Env.sample rfl rfl 0x1000 _ atUserjump_sample _ u hrun⟩

/-- User code chooses the `gp` of the kernel. -/
theorem user_chooses_gp : ∃ r u,
    ProcessRun Env.sample 0x1000 (setCtx kernelStart 0x1000) [none, some r] u ∧
      r.handler.regs .gp = 0xdead ∧ u.priv = .machine ∧ u.regs .gp = 0xdead ∧
      ¬ KernelGpTp (setCtx kernelStart 0x1000) [none, some r] u := by
  obtain ⟨r, u, hcause, hraised, hpriv, r₀, hr₀, h11, htrap₀, hrun⟩ := exists_run_sample
  obtain ⟨-, huser⟩ := atUserjump_sample.entered hr₀ h11 htrap₀
  obtain ⟨h, -⟩ | ⟨bs, ev, v, heq, hbs, hlast⟩ := hrun.eq_nil_or_snoc
  · cases h
  have hsplit : [none] ++ [some r] = bs ++ [ev] := heq
  obtain ⟨rfl, hev⟩ := List.append_inj' hsplit rfl
  obtain rfl : some r = ev := by simpa using hev
  have hv := hbs.invariant (fun _ _ _ hw h => (h.2.outside hw).1) (.inl huser)
  obtain ⟨hhandler, hfinal⟩ := hlast.gp_tp rfl rfl hv
  have hgp : r.handler.regs .gp = 0xdead := (hhandler r rfl).1.trans hraised
  obtain ⟨q, hq, hsame⟩ := hfinal hpriv
  obtain rfl := Option.some.inj hq
  refine ⟨r, u, ⟨r₀, hr₀, h11, htrap₀, hrun⟩, hgp, hpriv, hsame.1.trans hraised, fun hkernel => ?_⟩
  have hkeep := (hkernel.1 r (by simp)).1
  rw [hgp] at hkeep
  exact absurd hkeep (by simp [setCtx, kernelStart])

end BadgeElfloader.Kernel
