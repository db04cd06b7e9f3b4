import BadgeElfloader.Kernel.SaveRestore

/-!
The specification of a trap.

A trap has two ends that are the same for every cause — the registers are saved
(`AtHandler`) and a register file is restored (`Restored`) — and in between one
of two C++ handlers decides. The lemmas of the last two sections put the parts
together for traps out of user code and for the two machine-mode system calls.
-/

namespace BadgeElfloader.Kernel

open Riscv

/-! ### The state in which a handler is entered -/

/-- The code between the check for ECALL and the call of the handler. -/
def dispatch (env : Env) (cause : Word) : List Instr :=
  [.csrr .t1 .mcause, .li .t2 8] ++
    if cause = 8 then advanceUPc env
    else [.li .t2 11] ++
      if cause = 11 then advanceMPc env
      else [.lw .t1 ctxIsSuper .t0] ++ enableInterrupts env

/-- The state in which the C++ handler for a trap is entered. -/
def handlerEntry (env : Env) (s : Machine) (cause : Word) : Machine :=
  (trapEntry env ((s.takeTrap cause).exec (customTrap env))).exec (dispatch env cause)

/-- `h` is the state in which the handler for a trap out of mode `m` is
entered, the trap having been raised in state `s`. -/
structure AtHandler (env : Env) (m : Bool) (cause : Word) (s h : Machine) : Prop where
  area : ∀ r, env.saves r → field h s.mscratch (areaField m r) = s.regs r
  uPc : field h s.mscratch .uPc =
    (if m then field s s.mscratch .uPc else s.pc) + if cause = 8 then 4 else 0
  mPc : field h s.mscratch .mPc =
    (if m then s.pc else field s s.mscratch .mPc) + if cause = 11 then 4 else 0
  status : field h s.mscratch (.scratch 4) = (s.takeTrap cause).mstatus
  other : ∀ f, (∀ i, f ≠ .scratch i) → f ≠ .uPc → f ≠ .mPc →
    (∀ r, env.saves r → f ≠ areaField m r) → field h s.mscratch f = field s s.mscratch f
  outside : ∀ a, OutsideCtx s.mscratch a → h.mem a = s.mem a
  sp : h.regs .sp = field h s.mscratch (.mReg .sp)
  gp : h.regs .gp = if env.preserveGp then field h s.mscratch (.mReg .gp) else s.regs .gp
  tp : h.regs .tp = if env.preserveTp then field h s.mscratch (.mReg .tp) else s.regs .tp
  regs : ∀ r, r ∉ tempRegs → r ≠ .ra → r ≠ .sp → r ≠ .gp → r ≠ .tp → h.regs r = s.regs r
  mscratch : h.mscratch = s.mscratch
  mcause : h.mcause = cause
  priv : h.priv = .machine

theorem dispatch_field (env : Env) (cause ctx : Word) (s : Machine) (ht0 : s.regs .t0 = ctx)
    (f : Field) (hf : f ≠ .scratch 5) :
    field (s.exec (dispatch env cause)) ctx f =
      field s ctx f + if (f = .uPc ∧ cause = 8) ∨ (f = .mPc ∧ cause = 11) then 4 else 0 := by
  unfold dispatch
  by_cases h8 : cause = 8
  · subst h8
    by_cases hu : f = .uPc
    · simp [advanceUPc, Instr.exec, ht0, hu, mem_eq_field]
    · simp [advanceUPc, Instr.exec, ht0, hf, hu]
  · by_cases h11 : cause = 11
    · subst h11
      by_cases hu : f = .mPc
      · simp [advanceMPc, Instr.exec, ht0, hu, mem_eq_field]
      · simp [advanceMPc, Instr.exec, ht0, hf, hu]
    · have hnone : ¬((f = .uPc ∧ cause = 8) ∨ (f = .mPc ∧ cause = 11)) := by
        rintro (⟨_, h⟩ | ⟨_, h⟩)
        · exact h8 h
        · exact h11 h
      rw [if_neg h8, if_neg h11, if_neg hnone]
      simp [enableInterrupts, Instr.exec]

theorem dispatch_outside (env : Env) (cause ctx a : Word) (s : Machine) (ht0 : s.regs .t0 = ctx)
    (ha : OutsideCtx ctx a) : (s.exec (dispatch env cause)).mem a = s.mem a := by
  unfold dispatch
  split
  · simp [advanceUPc, Instr.exec, ht0, ha _]
  · split
    · simp [advanceMPc, Instr.exec, ht0, ha _]
    · simp [enableInterrupts, Instr.exec]

theorem dispatch_regs (env : Env) (cause : Word) (s : Machine) (r : Reg) (hr : r ∉ tempRegs)
    (hra : r ≠ .ra) : (s.exec (dispatch env cause)).regs r = s.regs r := by
  simp only [tempRegs, List.mem_cons, List.not_mem_nil, or_false, not_or] at hr
  unfold dispatch
  split
  · simp [advanceUPc, Instr.exec, hr, hra]
  · split
    · simp [advanceMPc, Instr.exec, hr, hra]
    · simp [enableInterrupts, Instr.exec, hr, hra]

theorem dispatch_csrs (env : Env) (cause : Word) (s : Machine) :
    (s.exec (dispatch env cause)).mscratch = s.mscratch ∧
      (s.exec (dispatch env cause)).mcause = s.mcause ∧
      (s.exec (dispatch env cause)).priv = s.priv := by
  unfold dispatch
  split
  · simp [advanceUPc, Instr.exec]
  · split
    · simp [advanceMPc, Instr.exec]
    · simp [enableInterrupts, Instr.exec]

theorem handlerEntry_spec (env : Env) (m : Bool) (s : Machine) (cause : Word)
    (hm : field s s.mscratch .isSuper = 0 ↔ m = false) :
    AtHandler env m cause s (handlerEntry env s cause) := by
  have hsaved : Saved env m (s.takeTrap cause)
      (trapEntry env ((s.takeTrap cause).exec (customTrap env))) :=
    trapEntry_saved env (s.takeTrap cause) m hm
  unfold handlerEntry
  set e := trapEntry env ((s.takeTrap cause).exec (customTrap env))
  have ht0 : e.regs .t0 = s.mscratch := hsaved.t0
  have hfield := fun f hf => dispatch_field env cause s.mscratch e ht0 f hf
  obtain ⟨hscratch, hcause, hpriv⟩ := dispatch_csrs env cause e
  -- the dispatch code leaves every field alone except the program counter of the ecall
  have hkeep : ∀ f, f ≠ .scratch 5 → f ≠ .uPc → f ≠ .mPc →
      field (e.exec (dispatch env cause)) s.mscratch f = field e s.mscratch f := by
    intro f h5 hu hmp
    rw [hfield f h5]
    simp [hu, hmp]
  refine ⟨?area, ?uPc, ?mPc, ?status, ?other, ?outside, ?sp, ?gp, ?tp, ?regs,
    hscratch.trans hsaved.mscratch, hcause.trans hsaved.mcause, hpriv.trans hsaved.priv⟩
  case area =>
    intro r hr
    rw [hkeep _ (by simp) (by cases m <;> simp [areaField]) (by cases m <;> simp [areaField])]
    exact hsaved.area r hr
  case uPc =>
    rw [hfield _ (by simp)]
    have hslot : field e s.mscratch .uPc = if m then field s s.mscratch .uPc else s.pc := by
      cases m
      · exact hsaved.pcSlot
      · exact hsaved.other .uPc (by simp) (by simp [pcField]) (by simp [areaField])
    simp [hslot]
  case mPc =>
    rw [hfield _ (by simp)]
    have hslot : field e s.mscratch .mPc = if m then s.pc else field s s.mscratch .mPc := by
      cases m
      · exact hsaved.other .mPc (by simp) (by simp [pcField]) (by simp [areaField])
      · exact hsaved.pcSlot
    simp [hslot]
  case status =>
    rw [hkeep _ (by simp) (by simp) (by simp)]
    exact hsaved.status
  case other =>
    intro f hscr hu hmp harea
    rw [hkeep f (hscr 5) hu hmp]
    exact hsaved.other f hscr (by cases m <;> simpa [pcField]) harea
  case outside =>
    intro a ha
    rw [dispatch_outside env cause s.mscratch a e ht0 ha]
    exact hsaved.outside a ha
  case sp =>
    rw [dispatch_regs env cause e .sp (by decide) (by decide),
      hkeep _ (by simp) (by simp) (by simp)]
    exact hsaved.sp
  case gp =>
    rw [dispatch_regs env cause e .gp (by decide) (by decide),
      hkeep _ (by simp) (by simp) (by simp)]
    exact hsaved.gp
  case tp =>
    rw [dispatch_regs env cause e .tp (by decide) (by decide),
      hkeep _ (by simp) (by simp) (by simp)]
    exact hsaved.tp
  case regs =>
    intro r htemp hra hsp hgp htp
    rw [dispatch_regs env cause e r htemp hra]
    exact hsaved.regs r htemp hsp hgp htp

/-! ### The handlers -/

theorem trapEntry_mcause (env : Env) (s : Machine) (cause : Word) :
    (trapEntry env ((s.takeTrap cause).exec (customTrap env))).mcause = cause :=
  (trapEntry_saved env (s.takeTrap cause) (field s s.mscratch .isSuper != 0)
    (by simp [field, Machine.takeTrap])).mcause

theorem trap_ecall (env : Env) (s : Machine) {cause : Word} (h : cause = 8 ∨ cause = 11) :
    trap env s cause =
      afterHandler env (handlerEntry env s cause)
        (ecallHandler env (handlerEntry env s cause)) := by
  have hcause := trapEntry_mcause env s cause
  unfold trap customTrap0 handlerEntry dispatch
  generalize trapEntry env ((s.takeTrap cause).exec (customTrap env)) = e at hcause ⊢
  rcases h with rfl | rfl
  · simp [Instr.exec, hcause, uhandleEcall]
  · simp [Instr.exec, hcause, mhandleEcall]

theorem forwardTrap_eq (env : Env) (s h : Machine) (hh : h = s.exec (enableInterrupts env)) :
    forwardTrap env s =
      if field h h.mscratch .isSuper = 0 then
        .mret h (checkRestore env ((cppRet env h h 1).exec disableInterrupts))
      else .panic h := by
  unfold forwardTrap trapHandler
  rw [← hh]
  by_cases hsuper : field h h.mscratch .isSuper = 0
  · simp only [hsuper, ne_eq, not_true_eq_false, if_false, if_true, afterHandler]
  · simp only [hsuper, ne_eq, not_false_eq_true, if_false, if_true, afterHandler]

theorem trap_exception (env : Env) (s h : Machine) {cause : Word} (h8 : cause ≠ 8#32)
    (h11 : cause ≠ 11#32) (hh : h = handlerEntry env s cause) :
    trap env s cause =
      if field h h.mscratch .isSuper = 0 then
        .mret h (checkRestore env ((cppRet env h h 1).exec disableInterrupts))
      else .panic h := by
  have hcause := trapEntry_mcause env s cause
  unfold handlerEntry dispatch at hh
  unfold trap customTrap0
  generalize trapEntry env ((s.takeTrap cause).exec (customTrap env)) = e at hcause hh ⊢
  set s₁ := e.exec ([.csrr .t1 .mcause, .li .t2 8] ++ [.li .t2 11] ++ [.lw .t1 ctxIsSuper .t0])
    with hs₁
  have hforward : h = s₁.exec (enableInterrupts env) := by
    rw [hh, hs₁]
    simp [h8, h11]
  rw [← forwardTrap_eq env s₁ h hforward, hs₁]
  simp [Instr.exec, hcause, h8, h11, uforward, mforward]

/-- The system call in the registers of `h` is an ABI call of a function that
exists. -/
def AbiCall (h : Machine) : Prop :=
  h.regs .a0 = sysAbicall ∧ 0 ≤ (h.regs .a1).toInt ∧
    h.regs .a1 < field h h.mscratch .uAbiSize

instance (h : Machine) : Decidable (AbiCall h) := inferInstanceAs (Decidable (_ ∧ _ ∧ _))

/-- A process either calls a function or is over. -/
theorem ecallHandler_user (env : Env) (h : Machine)
    (huser : field h h.mscratch .isSuper = 0) :
    ecallHandler env h =
      if AbiCall h then .call (makeABICall env (abiCallSite env h))
      else .ret (cppRet env h h 1) := by
  unfold ecallHandler terminate AbiCall
  simp only [huser]
  grind

/-- The kernel enters user mode, or else panics. -/
theorem ecallHandler_kernel (env : Env) (h : Machine)
    (hsuper : field h h.mscratch .isSuper ≠ 0) :
    ecallHandler env h =
      if h.regs .a0 = sysUserjump then .ret (cppRet env h h 0)
      else if h.regs .a0 = sysUserenter then .ret (cppRet env h (userenter h) 0)
      else .panic := by
  unfold ecallHandler terminate
  simp only [hsuper]
  grind [sysUserjump, sysUserenter, sysAbicall, sysExit]

theorem userenter_field (s : Machine) (f : Field) :
    field (userenter s) s.mscratch f =
      match f with
      | .uZero => 0
      | .uPc => s.regs .a1
      | .uReg .sp => s.regs .a2
      | .uReg .gp => field s s.mscratch (.mReg .gp)
      | .uReg .tp => field s s.mscratch (.mReg .tp)
      | .uReg _ => 0
      | f => field s s.mscratch f := by
  have hclear : ∀ f, field (clearURegs s s.mscratch) s.mscratch f =
      if f = .uZero ∨ ∃ r, f = .uReg r then 0 else field s s.mscratch f := by
    intro f
    simp [clearURegs, field]
  unfold userenter
  cases f with
  | uReg r => cases r <;> simp [hclear]
  | _ => simp [hclear]

/-! ### The call of a native function -/

/-- The stack frame of `makeABICall`, for `ecallHandler` entered with stack
pointer `sp`. -/
def frameBase (env : Env) (sp : Word) : Word := sp - env.frame + (-32)

def frameSlots : List Word := [16, 12, 8, 4, 0]

/-- The context is not in the part of the kernel stack that `makeABICall` is
about to use. -/
def StackApart (env : Env) (ctx sp : Word) : Prop :=
  ∀ k ∈ frameSlots, OutsideCtx ctx (frameBase env sp + k)

theorem stackApart_sample : StackApart Env.sample 0x1000 0x8000 := by
  have h : ∀ k ∈ frameSlots, 328 ≤ (frameBase Env.sample 0x8000 + k - 0x1000).toNat := by
    simp [frameSlots, frameBase, Env.sample]
  exact fun k hk => outsideCtx_of_le (h k hk)

/-- A native function entered in state `b` has returned in state `n`: it kept
the calling convention, and it wrote neither to the context nor to its caller's
stack frame. -/
structure NativeReturn (ctx : Word) (b n : Machine) : Prop extends Returns b n where
  ctxKept : ∀ f, field n ctx f = field b ctx f
  frameKept : ∀ k ∈ frameSlots, n.mem (b.regs .s1 + k) = b.mem (b.regs .s1 + k)

theorem pushFrame_field {s : Machine} {ctx : Word}
    (hframe : ∀ k ∈ frameSlots, OutsideCtx ctx (s.regs .sp + (-32) + k)) (f : Field) :
    field (s.exec pushFrame) ctx f = field s ctx f := by
  simp only [frameSlots, List.mem_cons, List.not_mem_nil, or_false, forall_eq_or_imp,
    forall_eq] at hframe
  obtain ⟨h16, h12, h8, h4, h0⟩ := hframe
  simp only [pushFrame, Machine.exec_cons, Machine.exec_nil, Instr.exec, Machine.regs_setReg,
    Machine.regs_store, if_true]
  rw [field_store_outside h0, field_store_outside h4, field_store_outside h8,
    field_store_outside h12, field_store_outside h16, field_setReg]

/-- The register that `makeABICall` keeps in a slot of its frame. -/
def slotReg (k : Word) : Reg :=
  if k = 16 then .s0 else if k = 12 then .s1 else if k = 8 then .s2
  else if k = 4 then .s3 else .s4

theorem pushFrame_slot (s : Machine) {k : Word} (hk : k ∈ frameSlots) :
    (s.exec pushFrame).mem (s.regs .sp + (-32) + k) = s.regs (slotReg k) := by
  simp only [frameSlots, List.mem_cons, List.not_mem_nil, or_false] at hk
  rcases hk with rfl | rfl | rfl | rfl | rfl <;>
    simp [pushFrame, Instr.exec, slotReg]

theorem pushFrame_outside {s : Machine} {a : Word}
    (ha : ∀ k ∈ frameSlots, a ≠ s.regs .sp + (-32) + k) :
    (s.exec pushFrame).mem a = s.mem a := by
  simp only [frameSlots, List.mem_cons, List.not_mem_nil, or_false, forall_eq_or_imp,
    forall_eq] at ha
  obtain ⟨h16, h12, h8, h4, h0⟩ := ha
  simp only [pushFrame, Machine.exec_cons, Machine.exec_nil, Instr.exec, Machine.regs_setReg,
    Machine.regs_store, Machine.mem_store, Machine.mem_setReg, if_true, if_neg h16, if_neg h12,
    if_neg h8, if_neg h4, if_neg h0]

theorem pushFrame_regs (s : Machine) (r : Reg) :
    (s.exec pushFrame).regs r = if r = .sp then s.regs .sp + (-32) else s.regs r := by
  simp [pushFrame, Instr.exec]

theorem rearrange_regs (s : Machine) (ctx : Word) (hctx : s.regs .a0 = ctx) (r : Reg) :
    (s.exec rearrange).regs r =
      match r with
      | .a0 => field s ctx (.uReg .t0)
      | .a1 => field s ctx (.uReg .t1)
      | .a2 | .a3 | .a4 | .a5 | .a6 | .a7 | .sp | .gp | .tp => field s ctx (.uReg r)
      | .ra => s.regs .a1
      | .s0 => s.regs .ra
      | .s1 => s.regs .sp
      | .s2 => s.regs .gp
      | .s3 => s.regs .tp
      | .s4 => ctx
      | .t0 => 0x8
      | r => s.regs r := by
  cases r <;> simp [rearrange, Instr.exec, hctx, rs_eq_uReg, mem_eq_field]

theorem rearrange_mem (s : Machine) : (s.exec rearrange).mem = s.mem := by
  simp [rearrange, Instr.exec]

/-- `b` is the state in which the body of a native function is entered, called
by `ecallHandler`, which was entered in state `h`. -/
structure AtBody (env : Env) (h b : Machine) : Prop where
  pc : b.pc = env.abiTable (field h h.mscratch .uAbiTable) (h.regs .a1) &&& ~~~ 1
  a0 : b.regs .a0 = field h h.mscratch (.uReg .t0)
  a1 : b.regs .a1 = field h h.mscratch (.uReg .t1)
  args : ∀ r ∈ [Reg.a2, .a3, .a4, .a5, .a6, .a7, .sp, .gp, .tp],
    b.regs r = field h h.mscratch (.uReg r)
  s0 : b.regs .s0 = env.callLink
  s1 : b.regs .s1 = frameBase env (h.regs .sp)
  s2 : b.regs .s2 = h.regs .gp
  s3 : b.regs .s3 = h.regs .tp
  s4 : b.regs .s4 = h.mscratch
  saved : ∀ r ∈ [Reg.s5, .s6, .s7, .s8, .s9, .s10, .s11],
    b.regs r = (abiCallSite env h).regs r
  fields : ∀ f, field b h.mscratch f = if f = .isSuper then 1 else field h h.mscratch f
  slots : ∀ k ∈ frameSlots,
    b.mem (frameBase env (h.regs .sp) + k) = (abiCallSite env h).regs (slotReg k)
  outside : ∀ a, OutsideCtx h.mscratch a →
    (∀ k ∈ frameSlots, a ≠ frameBase env (h.regs .sp) + k) → b.mem a = h.mem a
  mscratch : b.mscratch = h.mscratch
  priv : b.priv = h.priv

theorem abiCallSite_field (env : Env) (h : Machine) (f : Field) :
    field (abiCallSite env h) h.mscratch f =
      if f = .isSuper then 1 else field h h.mscratch f := by
  simp [abiCallSite, field]

theorem makeABICall_spec (env : Env) (h : Machine)
    (hstack : StackApart env h.mscratch (h.regs .sp)) :
    AtBody env h (makeABICall env (abiCallSite env h)) := by
  set c := abiCallSite env h with hc
  have hsp : c.regs .sp + (-32) = frameBase env (h.regs .sp) := rfl
  have hframe : ∀ k ∈ frameSlots, OutsideCtx h.mscratch (c.regs .sp + (-32) + k) := hstack
  have hfield : ∀ f, field (c.exec pushFrame) h.mscratch f =
      if f = .isSuper then 1 else field h h.mscratch f := fun f => by
    rw [pushFrame_field hframe, hc, abiCallSite_field]
  have hctx : (c.exec pushFrame).regs .a0 = h.mscratch := by
    simp [pushFrame_regs, hc, abiCallSite]
  have hregs := rearrange_regs (c.exec pushFrame) h.mscratch hctx
  -- behind the frame push, the only register left to change is the link register
  have hbody : ∀ r, r ≠ .ra →
      (makeABICall env c).regs r = ((c.exec pushFrame).exec rearrange).regs r := by
    intro r hr
    simp [makeABICall, makeABICallEntry, Machine.jump, hr]
  have hmem : (makeABICall env c).mem = (c.exec pushFrame).mem := by
    rw [← rearrange_mem (c.exec pushFrame)]
    simp [makeABICall, makeABICallEntry, Machine.jump]
  refine ⟨?pc, ?a0, ?a1, ?args, ?s0, ?s1, ?s2, ?s3, ?s4, ?saved, ?fields, ?slots, ?outside,
    ?mscratch, ?priv⟩
  case pc =>
    have htarget : (makeABICall env c).pc =
        ((c.exec pushFrame).exec rearrange).regs .ra &&& ~~~ 1 := by
      simp [makeABICall, makeABICallEntry, Machine.jump]
    rw [htarget, hregs, pushFrame_regs]
    simp [hc, abiCallSite]
  case a0 => exact (hbody .a0 (by decide)).trans ((hregs .a0).trans ((hfield _).trans (by simp)))
  case a1 => exact (hbody .a1 (by decide)).trans ((hregs .a1).trans ((hfield _).trans (by simp)))
  case args =>
    intro r hr
    simp only [List.mem_cons, List.not_mem_nil, or_false] at hr
    rcases hr with rfl | rfl | rfl | rfl | rfl | rfl | rfl | rfl | rfl <;>
      exact (hbody _ (by decide)).trans ((hregs _).trans ((hfield _).trans (by simp)))
  case s0 => exact (hbody .s0 (by decide)).trans ((hregs .s0).trans (pushFrame_regs c _))
  case s1 => exact (hbody .s1 (by decide)).trans ((hregs .s1).trans (pushFrame_regs c _))
  case s2 => exact (hbody .s2 (by decide)).trans ((hregs .s2).trans (pushFrame_regs c _))
  case s3 => exact (hbody .s3 (by decide)).trans ((hregs .s3).trans (pushFrame_regs c _))
  case s4 => exact (hbody .s4 (by decide)).trans (hregs .s4)
  case saved =>
    intro r hr
    simp only [List.mem_cons, List.not_mem_nil, or_false] at hr
    rcases hr with rfl | rfl | rfl | rfl | rfl | rfl | rfl <;>
      exact (hbody _ (by decide)).trans ((hregs _).trans (pushFrame_regs c _))
  case fields => exact fun f => (congrFun hmem _).trans (hfield f)
  case slots =>
    intro k hk
    rw [hmem, ← hsp, pushFrame_slot c hk]
  case outside =>
    intro a hctx ha
    have hpush : (c.exec pushFrame).mem a = c.mem a := pushFrame_outside ha
    rw [hmem, hpush, hc]
    simp [abiCallSite, hctx _]
  case mscratch =>
    simp [makeABICall, makeABICallEntry, pushFrame, rearrange, Machine.jump, Instr.exec, hc,
      abiCallSite]
  case priv =>
    simp [makeABICall, makeABICallEntry, pushFrame, rearrange, Machine.jump, Instr.exec, hc,
      abiCallSite]

theorem storeResult_field (s : Machine) (ctx : Word) (hctx : s.regs .s4 = ctx) (f : Field) :
    field (s.exec storeResult) ctx f =
      if f = .uReg .a1 then s.regs .a1
      else if f = .uReg .a0 then s.regs .a0
      else field s ctx f := by
  simp [storeResult, Instr.exec, hctx, rs_eq_uReg]

theorem storeResult_outside {s : Machine} {ctx a : Word} (hctx : s.regs .s4 = ctx)
    (ha : OutsideCtx ctx a) : (s.exec storeResult).mem a = s.mem a := by
  simp [storeResult, Instr.exec, hctx, rs_eq_uReg, ha _]

theorem storeResult_regs (s : Machine) (r : Reg) :
    (s.exec storeResult).regs r =
      match r with
      | .ra => s.regs .s0
      | .sp => s.regs .s1
      | .gp => s.regs .s2
      | .tp => s.regs .s3
      | .t0 => 0x8
      | r => s.regs r := by
  cases r <;> simp [storeResult, Instr.exec]

theorem popFrame_regs (s : Machine) (r : Reg) :
    (s.exec popFrame).regs r =
      match r with
      | .s0 => s.mem (s.regs .sp + 16)
      | .s1 => s.mem (s.regs .sp + 12)
      | .s2 => s.mem (s.regs .sp + 8)
      | .s3 => s.mem (s.regs .sp + 4)
      | .s4 => s.mem (s.regs .sp + 0)
      | .sp => s.regs .sp + 32
      | r => s.regs r := by
  cases r <;> simp [popFrame, Instr.exec]

theorem popFrame_mem (s : Machine) : (s.exec popFrame).mem = s.mem := by
  simp [popFrame, Instr.exec]

theorem makeABICallExit_csrs (s : Machine) :
    (s.exec makeABICallExit).mscratch = s.mscratch ∧
      (s.exec makeABICallExit).mcause = s.mcause ∧
      (s.exec makeABICallExit).priv = s.priv := by
  simp [makeABICallExit, storeResult, popFrame, Instr.exec]

/-- Behind a native function that has returned, `makeABICall` finds its way back
to its call site. -/
theorem makeABICallExit_regs {env : Env} {h b n : Machine} (hb : AtBody env h b)
    (hstack : StackApart env h.mscratch (h.regs .sp)) (hn : NativeReturn h.mscratch b n) :
    (n.exec makeABICallExit).regs .ra = (abiCallSite env h).regs .ra ∧
      ∀ r, r.calleeSaved → (n.exec makeABICallExit).regs r = (abiCallSite env h).regs r := by
  have hs : ∀ {r v}, r.calleeSaved → b.regs r = v → n.regs r = v := fun hr hv =>
    (hn.saved _ hr).trans hv
  set p := n.exec storeResult with hp
  have hsp : p.regs .sp = frameBase env (h.regs .sp) :=
    (storeResult_regs n .sp).trans (hs rfl hb.s1)
  have hslot : ∀ k ∈ frameSlots, p.mem (p.regs .sp + k) = (abiCallSite env h).regs (slotReg k) := by
    intro k hk
    have hkept := hn.frameKept k hk
    rw [hb.s1, hb.slots k hk] at hkept
    rw [hsp, hp, storeResult_outside (hs rfl hb.s4) (hstack k hk), hkept]
  have hexit : ∀ r, (n.exec makeABICallExit).regs r = _ := fun r => by
    rw [makeABICallExit, Machine.exec_append, popFrame_regs]
  have hkeep : ∀ r ∈ [Reg.s5, .s6, .s7, .s8, .s9, .s10, .s11], r.calleeSaved →
      n.regs r = (abiCallSite env h).regs r := fun r hr hc => hs hc (hb.saved r hr)
  refine ⟨(hexit .ra).trans ((storeResult_regs n .ra).trans (hs rfl hb.s0)), ?_⟩
  intro r hr
  cases r with
  | sp =>
      calc (n.exec makeABICallExit).regs .sp
          = p.regs .sp + 32 := hexit .sp
        _ = h.regs .sp - env.frame := by rw [hsp, frameBase, BitVec.add_assoc]; simp
  | gp => exact (hexit .gp).trans ((storeResult_regs n .gp).trans (hs rfl hb.s2))
  | tp => exact (hexit .tp).trans ((storeResult_regs n .tp).trans (hs rfl hb.s3))
  | s0 => exact (hexit .s0).trans (hslot 16 (by decide))
  | s1 => exact (hexit .s1).trans (hslot 12 (by decide))
  | s2 => exact (hexit .s2).trans (hslot 8 (by decide))
  | s3 => exact (hexit .s3).trans (hslot 4 (by decide))
  | s4 => exact (hexit .s4).trans (hslot 0 (by decide))
  | s5 | s6 | s7 | s8 | s9 | s10 | s11 =>
      exact (hexit _).trans ((storeResult_regs n _).trans (hkeep _ (by decide) rfl))
  | _ => cases hr

/-- A native function that returns takes the trap back to user code, with its
two result registers in place of the caller's. `r` is the state in which
`ecallHandler` returns. -/
theorem abiReturn_spec (env : Env) (h n : Machine)
    (hstack : StackApart env h.mscratch (h.regs .sp))
    (hn : NativeReturn h.mscratch (makeABICall env (abiCallSite env h)) n) :
    ∃ r t, abiReturn env h n = some t ∧ Restored env false r t ∧
      (∀ f, field r h.mscratch f =
        if f = .isSuper then 0
        else if f = .uReg .a1 then n.regs .a1
        else if f = .uReg .a0 then n.regs .a0
        else field h h.mscratch f) ∧
      (∀ a, OutsideCtx h.mscratch a → r.mem a = n.mem a) ∧
      r.regs .gp = h.regs .gp ∧ r.regs .tp = h.regs .tp ∧
      r.mscratch = n.mscratch ∧ r.priv = n.priv := by
  have hb := makeABICall_spec env h hstack
  set b := makeABICall env (abiCallSite env h)
  obtain ⟨hra, hsaved⟩ := makeABICallExit_regs hb hstack hn
  have hs4 : n.regs .s4 = h.mscratch := (hn.saved .s4 rfl).trans hb.s4
  have hmem : (n.exec makeABICallExit).mem = (n.exec storeResult).mem := by
    rw [makeABICallExit, Machine.exec_append, popFrame_mem]
  obtain ⟨hscratch, -, hpriv⟩ := makeABICallExit_csrs n
  set x := n.exec makeABICallExit
  set s := x.store (h.mscratch + Field.isSuper.offset) 0 with hs
  refine ⟨cppRet env h s 0, checkRestore env (cppRet env h s 0), ?_,
    checkRestore_restored env _ false (by simp [cppRet]), ?fields, ?outside, ?gp, ?tp,
    hscratch, hpriv⟩
  · exact if_pos ⟨hra, hsaved⟩
  case fields =>
    intro f
    have hx : field x h.mscratch f = field (n.exec storeResult) h.mscratch f :=
      congrFun hmem _
    calc field (cppRet env h s 0) h.mscratch f
        = if f = .isSuper then 0 else field x h.mscratch f := field_store x _ _ _ _
      _ = _ := by
          rw [hx, storeResult_field n _ hs4, hn.ctxKept, hb.fields]
          grind
  case outside =>
    intro a ha
    calc s.mem a
        = x.mem a := by simp [hs, ha _]
      _ = n.mem a := by rw [hmem, storeResult_outside hs4 ha]
  case gp => exact hsaved .gp rfl
  case tp => exact hsaved .tp rfl

end BadgeElfloader.Kernel
