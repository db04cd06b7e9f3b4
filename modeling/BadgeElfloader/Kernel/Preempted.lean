import BadgeElfloader.Kernel.Transparent
import BadgeElfloader.Transition.Interference

/-!
The trap path with interrupts wherever the hart takes them.

`trap` runs from the instruction that raised the trap to the `mret` as if no
interrupt could come in between. Here the same text is run one instruction at a
time, and an interrupt may be taken in front of every instruction at which
`mstatus.MIE` is set. It is served through `customISR`, or straight from the
vector table. Nothing is assumed about the `mscratch` it finds there.
The text turns out to be atomic where it uses the scratch words of the context,
and each trap to have an undisturbed twin (`PreemptedTrap.exists_twin`) that
leads to the same registers and the same context.
-/

namespace BadgeElfloader.Kernel

open Riscv Transition Relation

/-! ### Blocks of instructions -/

/-- An interrupt is taken in state `s`, and the interrupted code goes on in
state `u`. No interrupt writes to the words in `stack`. -/
inductive InterruptStep (isr : Forwarder) (stack : Set Word) (s u : Machine) : Prop
  /-- Through `customISR`. -/
  | forwarded (cause : Word) (taken : Interrupted isr s.mscratch s cause u)
      (kept : ∀ a ∈ stack, u.mem a = s.mem a)
  /-- Through an entry of the vector table that `init` leaves as it is. -/
  | direct (cause : Word) (f : Machine) (mie : MieSet s)
      (served : Forwarded s.mscratch (s.takeTrap cause) f) (back : u = f.mret)
      (kept : ∀ a ∈ stack, u.mem a = s.mem a)

/-- A block of the text, with any interrupts that may come on the way. -/
def Preempted (isr : Forwarder) (stack : Set Word) : List Instr → Machine → Machine → Prop :=
  Interfered Instr.exec (InterruptStep isr stack)

/-- The instructions that do not write `mstatus`. -/
def keepsStatus : Instr → Bool
  | .csrw c _ | .csrrw _ c _ | .csrs c _ | .csrc c _ => c != .mstatus
  | _ => true

/-- The saved status of a trap says that interrupts are to stay disabled until
the `mret`. -/
structure Clean (ctx : Word) (s : Machine) : Prop where
  status : field s ctx (.scratch 4) &&& mieBit = 0

theorem Clean.congr {ctx : Word} {s u : Machine} (h : Clean ctx s)
    (hstatus : field u ctx (.scratch 4) = field s ctx (.scratch 4)) : Clean ctx u :=
  ⟨hstatus ▸ h.status⟩

section blocks

variable {isr : Forwarder} {stack : Set Word} {is js : List Instr} {i : Instr} {ctx : Word}
  {s t u : Machine}

theorem InterruptStep.mieSet (h : InterruptStep isr stack s u) : MieSet s := by
  cases h with
  | forwarded cause taken kept =>
      obtain ⟨hmie, -, -, -⟩ := taken
      exact hmie
  | direct cause f mie served back kept => exact mie

theorem still (hs : ¬ MieSet s) (u : Machine) : ¬ InterruptStep isr stack s u :=
  fun h => hs h.mieSet

theorem mstatus_of_keepsStatus (hi : keepsStatus i) (s : Machine) :
    (i.exec s).mstatus = s.mstatus := by
  cases i <;> simp_all [keepsStatus, Instr.exec]

theorem exec_mstatus (his : ∀ i ∈ is, keepsStatus i) (s : Machine) :
    (s.exec is).mstatus = s.mstatus := by
  induction is generalizing s with
  | nil => rfl
  | cons i is ih =>
      obtain ⟨hi, his⟩ := List.forall_mem_cons.mp his
      exact (ih his (i.exec s)).trans (mstatus_of_keepsStatus hi s)

theorem mieSet_exec (his : ∀ i ∈ is, keepsStatus i) (hs : ¬ MieSet s) : ¬ MieSet (s.exec is) := by
  rwa [MieSet, exec_mstatus his]

/-- A block that is entered with interrupts disabled and leaves `mstatus` alone
is atomic. -/
theorem masked_of_keepsStatus (his : ∀ i ∈ is, keepsStatus i) (hs : ¬ MieSet s) :
    Masked Instr.exec (InterruptStep isr stack) is s := by
  refine masked_of_keeps (Q := fun s => ¬ MieSet s) (fun _ hs => still hs) (fun i hi s hs => ?_) hs
  rwa [MieSet, mstatus_of_keepsStatus (his i hi)]

theorem Preempted.eq_exec (h : Preempted isr stack is s t) (his : ∀ i ∈ is, keepsStatus i)
    (hs : ¬ MieSet s) : t = s.exec is := h.eq_of_masked (masked_of_keepsStatus his hs)

/-- No interrupt needs to come. -/
theorem Preempted.exec (isr : Forwarder) (stack : Set Word) (is : List Instr) (s : Machine) :
    Preempted isr stack is s (s.exec is) := Interfered.foldl _ _ is s

theorem and_or_mieBit {v w : Word} (hv : v &&& mieBit = 0) (hw : w &&& mieBit = 0) :
    (v ||| w) &&& mieBit = 0 := by
  rw [BitVec.and_or_distrib_right, hv, hw]
  rfl

theorem and_and_mieBit {v : Word} (hv : v &&& mieBit = 0) (w : Word) :
    (v &&& w) &&& mieBit = 0 := by
  rw [BitVec.and_assoc, BitVec.and_comm w, ← BitVec.and_assoc, hv]
  exact BitVec.zero_and

theorem takeTrap_mieBit (s : Machine) (cause : Word) :
    (s.takeTrap cause).mstatus &&& mieBit = 0 := by
  refine and_or_mieBit (and_or_mieBit (plainStatus_and (by decide)) ?_) ?_
  · split <;> decide
  · split <;> decide

/-- A trap disables interrupts. -/
theorem takeTrap_still (s : Machine) (cause : Word) : ¬ MieSet (s.takeTrap cause) :=
  not_not.mpr (takeTrap_mieBit s cause)

/-- An interrupt leaves a clean status behind in the scratch words. -/
theorem Interrupted.clean {cause : Word} (h : Interrupted isr ctx s cause u) : Clean ctx u := by
  obtain ⟨hmie, hctx, hf, hback⟩ := h
  obtain ⟨v, hv, -, hmem⟩ := hf.goesOn hctx hmie
  obtain rfl := Option.some.inj (hback.symm.trans hv)
  have hstatus := (interrupt_atForward isr s cause hmie).status
  rw [hctx] at hstatus
  have hfield : field u ctx (.scratch 4) = plainStatus s.mstatus ||| mpieBit ||| mppOf s.priv :=
    (congrFun hmem _).trans ((hf.ctxKept _).trans hstatus)
  constructor
  rw [hfield]
  refine and_or_mieBit (and_or_mieBit (plainStatus_and (by decide)) (by decide)) ?_
  cases s.priv <;> decide

/-- A handler that is entered from the vector table comes back by its own
`mret`. -/
theorem direct_goesOn {cause : Word} {f : Machine} (hmie : MieSet s)
    (hf : Forwarded ctx (s.takeTrap cause) f) : GoesOn ctx s f.mret := by
  obtain ⟨hpriv, hstatus⟩ := mret_of_restored (hf.mstatus.trans (takeTrap_mstatus hmie cause))
  refine ⟨hf.regs, hf.mepc, hpriv, hf.mscratch, ?mie, ?status, fun g _ => hf.ctxKept g⟩
  case mie =>
    rw [MieSet, hstatus, BitVec.or_assoc, BitVec.and_or_distrib_right,
      plainStatus_and (by decide)]
    decide
  case status =>
    rw [hstatus]
    exact keptStatus_restored hmie

theorem InterruptStep.goesOn (h : InterruptStep isr stack s u) : GoesOn s.mscratch s u := by
  cases h with
  | forwarded cause taken kept => exact taken.goesOn
  | direct cause f mie served back kept =>
      subst back
      exact direct_goesOn mie served

theorem InterruptStep.clean (h : InterruptStep isr stack s u) (hs : Clean s.mscratch s) :
    Clean s.mscratch u := by
  cases h with
  | forwarded cause taken kept => exact taken.clean
  | direct cause f mie served back kept =>
      subst back
      exact hs.congr (served.ctxKept _)

theorem InterruptStep.stack_mem (h : InterruptStep isr stack s u) {a : Word} (ha : a ∈ stack) :
    u.mem a = s.mem a := by
  cases h with
  | forwarded cause taken kept => exact kept a ha
  | direct cause f mie served back kept => exact kept a ha

end blocks

/-! ### The text of `trap.S` -/

section text

variable (env : Env) (isr : Forwarder) (stack : Set Word)

/-- `trapEntry`. -/
def TrapEntryRun (s h : Machine) : Prop :=
  ∃ d m, Preempted isr stack decideMode s d ∧
    Preempted isr stack (if d.regs .t1 = 0 then utrap else mtrap) d m ∧
    Preempted isr stack (saveregs env ++ machineRegs env) m h

/-- The rest of `customTrap0` up to the call of a handler. -/
def DispatchRun (s h : Machine) : Prop :=
  ∃ p, Preempted isr stack [.csrr .t1 .mcause, .li .t2 8] s p ∧
    if p.regs .t1 = p.regs .t2 then Preempted isr stack (advanceUPc env) p h
    else ∃ q, Preempted isr stack [.li .t2 11] p q ∧
      if q.regs .t1 = q.regs .t2 then Preempted isr stack (advanceMPc env) q h
      else ∃ r, Preempted isr stack [.lw .t1 ctxIsSuper .t0] q r ∧
        Preempted isr stack (enableInterrupts env) r h

/-- A trap, up to the call of its handler. -/
def HandlerEntryRun (s : Machine) (cause : Word) (h : Machine) : Prop :=
  ∃ c e, Preempted isr stack (customTrap env) (s.takeTrap cause) c ∧
    TrapEntryRun env isr stack c e ∧ DispatchRun env isr stack e h

/-- `checkRestore`. -/
def CheckRestoreRun (s t : Machine) : Prop :=
  ∃ c, Preempted isr stack [.csrr .t0 .mscratch] s c ∧
    Preempted isr stack (if c.regs .a0 ≠ 0 then mrestore env else urestore env) c t

end text

section entry

variable {env : Env} {isr : Forwarder} {stack : Set Word} {s e h t : Machine} {cause : Word}

theorem saveregs_keepsStatus (env : Env) {i : Instr}
    (hi : i ∈ saveregs env ++ machineRegs env) : keepsStatus i := by
  simp only [saveregs, saveAll, machineRegs, List.mem_append, List.mem_map] at hi
  obtain (hi | ⟨r, -, rfl⟩) | (hi | hi) | hi := hi
  · revert i
    decide
  · rfl
  · obtain rfl := List.mem_singleton.mp hi
    rfl
  · split at hi
    · obtain rfl := List.mem_singleton.mp hi
      rfl
    · cases hi
  · split at hi
    · obtain rfl := List.mem_singleton.mp hi
      rfl
    · cases hi

/-- Trap entry is atomic. -/
theorem TrapEntryRun.eq (hrun : TrapEntryRun env isr stack s e) (hs : ¬ MieSet s) :
    e = trapEntry env s ∧ ¬ MieSet e := by
  obtain ⟨d, m, hd, hm, he⟩ := hrun
  have hdecide : ∀ i ∈ decideMode, keepsStatus i := by simp [decideMode, keepsStatus]
  have hmode : ∀ i ∈ if d.regs .t1 = 0 then utrap else mtrap, keepsStatus i := by
    split <;> simp [utrap, mtrap, keepsStatus]
  have hd' := hd.eq_exec hdecide hs
  have hdstill : ¬ MieSet d := hd' ▸ mieSet_exec hdecide hs
  have hm' := hm.eq_exec hmode hdstill
  have hmstill : ¬ MieSet m := hm' ▸ mieSet_exec hmode hdstill
  have he' := he.eq_exec (fun _ => saveregs_keepsStatus env) hmstill
  refine ⟨?_, he' ▸ mieSet_exec (fun _ => saveregs_keepsStatus env) hmstill⟩
  rw [he', hm', trapEntry, ← hd']
  split <;> rfl

/-- The handler of a system call is entered with interrupts still disabled, and
in the state in which it is entered without any. The handler of another trap is
called behind the instruction that enables them. -/
theorem HandlerEntryRun.eq (hrun : HandlerEntryRun env isr stack s cause h) :
    if cause = 8 ∨ cause = 11 then h = handlerEntry env s cause ∧ ¬ MieSet h
    else ∃ r, ¬ MieSet r ∧ handlerEntry env s cause = r.exec (enableInterrupts env) ∧
      Preempted isr stack (enableInterrupts env) r h := by
  obtain ⟨c, e, hc, he, p, hp, hdispatch⟩ := hrun
  have hcustom : ∀ i ∈ customTrap env, keepsStatus i := by simp [customTrap, keepsStatus]
  have hc' := hc.eq_exec hcustom (takeTrap_still s cause)
  obtain ⟨he', hestill⟩ := he.eq (hc' ▸ mieSet_exec hcustom (takeTrap_still s cause))
  have hcause := trapEntry_mcause env s cause
  rw [← hc', ← he'] at hcause
  have hp' := hp.eq_exec (by simp [keepsStatus]) hestill
  have hpstill : ¬ MieSet p := hp' ▸ mieSet_exec (by simp [keepsStatus]) hestill
  have hp1 : p.regs .t1 = cause := by simp [hp', Instr.exec, hcause]
  have hp2 : p.regs .t2 = 8 := by simp [hp', Instr.exec]
  rw [hp1, hp2] at hdispatch
  have hentry : handlerEntry env s cause = e.exec (dispatch env cause) := by
    rw [he', hc', handlerEntry]
  by_cases h8 : cause = 8
  · have hkeeps : ∀ i ∈ advanceUPc env, keepsStatus i := by simp [advanceUPc, keepsStatus]
    rw [if_pos h8] at hdispatch
    have hh := hdispatch.eq_exec hkeeps hpstill
    rw [if_pos (.inl h8), hentry, dispatch, if_pos h8, Machine.exec_append, ← hp']
    exact ⟨hh, hh ▸ mieSet_exec hkeeps hpstill⟩
  rw [if_neg h8] at hdispatch
  obtain ⟨q, hq, hdispatch⟩ := hdispatch
  have hq' := hq.eq_exec (by simp [keepsStatus]) hpstill
  have hqstill : ¬ MieSet q := hq' ▸ mieSet_exec (by simp [keepsStatus]) hpstill
  have hq1 : q.regs .t1 = cause := by simp [hq', Instr.exec, hp1]
  have hq2 : q.regs .t2 = 11 := by simp [hq', Instr.exec]
  rw [hq1, hq2] at hdispatch
  by_cases h11 : cause = 11
  · have hkeeps : ∀ i ∈ advanceMPc env, keepsStatus i := by simp [advanceMPc, keepsStatus]
    rw [if_pos h11] at hdispatch
    have hh := hdispatch.eq_exec hkeeps hqstill
    rw [if_pos (.inr h11), hentry, dispatch, if_neg h8, if_pos h11, Machine.exec_append, ← hp',
      Machine.exec_append, ← hq']
    exact ⟨hh, hh ▸ mieSet_exec hkeeps hqstill⟩
  · rw [if_neg h11] at hdispatch
    obtain ⟨r, hr, hdispatch⟩ := hdispatch
    have hr' := hr.eq_exec (by simp [keepsStatus]) hqstill
    rw [if_neg (not_or.mpr ⟨h8, h11⟩)]
    refine ⟨r, hr' ▸ mieSet_exec (by simp [keepsStatus]) hqstill, ?_, hdispatch⟩
    rw [hentry, dispatch, if_neg h8, if_neg h11, Machine.exec_append, ← hp', Machine.exec_append,
      ← hq', Machine.exec_append, ← hr']

/-- Trap entry without interrupts is one of its runs. -/
theorem handlerEntryRun (env : Env) (isr : Forwarder) (stack : Set Word) (s : Machine)
    (cause : Word) : HandlerEntryRun env isr stack s cause (handlerEntry env s cause) := by
  have hcause := trapEntry_mcause env s cause
  refine ⟨_, _, .exec isr stack _ _, ⟨_, _, .exec isr stack _ _, .exec isr stack _ _,
    .exec isr stack _ _⟩, _, .exec isr stack _ _, ?_⟩
  have hentry : ((((s.takeTrap cause).exec (customTrap env)).exec decideMode).exec
      (if (((s.takeTrap cause).exec (customTrap env)).exec decideMode).regs .t1 = 0 then utrap
        else mtrap)).exec (saveregs env ++ machineRegs env) =
      trapEntry env ((s.takeTrap cause).exec (customTrap env)) := by
    rw [trapEntry]
    split <;> rfl
  rw [hentry, handlerEntry]
  generalize trapEntry env ((s.takeTrap cause).exec (customTrap env)) = e at hcause
  have h1 : (e.exec [.csrr .t1 .mcause, .li .t2 8]).regs .t1 = cause := by
    simp [Instr.exec, hcause]
  have h2 : (e.exec [.csrr .t1 .mcause, .li .t2 8]).regs .t2 = 8 := by simp [Instr.exec]
  rw [h1, h2, dispatch]
  by_cases h8 : cause = 8
  · rw [if_pos h8, if_pos h8, Machine.exec_append]
    exact .exec isr stack _ _
  · rw [if_neg h8, if_neg h8, Machine.exec_append]
    refine ⟨_, .exec isr stack _ _, ?_⟩
    have h3 : ((e.exec [.csrr .t1 .mcause, .li .t2 8]).exec [.li .t2 11]).regs .t1 = cause := by
      simp [Instr.exec, hcause]
    have h4 : ((e.exec [.csrr .t1 .mcause, .li .t2 8]).exec [.li .t2 11]).regs .t2 = 11 := by
      simp [Instr.exec]
    rw [h3, h4, Machine.exec_append]
    by_cases h11 : cause = 11
    · rw [if_pos h11, if_pos h11]
      exact .exec isr stack _ _
    · rw [if_neg h11, if_neg h11, Machine.exec_append]
      exact ⟨_, .exec isr stack _ _, .exec isr stack _ _⟩

/-! ### The way out -/

theorem checkRestoreRun (env : Env) (isr : Forwarder) (stack : Set Word) (s : Machine) :
    CheckRestoreRun env isr stack s (checkRestore env s) := by
  refine ⟨_, .exec isr stack _ s, ?_⟩
  rw [checkRestore]
  split <;> exact .exec isr stack _ _

theorem restoreToMode_keepsStatus (m : Bool) {i : Instr}
    (hi : i ∈ if m then restoreToM else restoreToU) : keepsStatus i := by
  revert i
  cases m <;> simp [restoreToM, restoreToU, keepsStatus]

theorem restorePrefix_still (m : Bool) (hclean : Clean s.mscratch s) :
    ¬ MieSet (s.exec (restorePrefix m)) := by
  rw [MieSet, (restorePrefix_csrs m s).2.1, not_not]
  cases m
  · exact and_and_mieBit hclean.status _
  · exact and_or_mieBit hclean.status (by decide)

theorem restoreTemps_masked (hs : ¬ MieSet s) :
    Masked Instr.exec (InterruptStep isr stack) restoreTemps s := by
  have hsplit : restoreTemps =
      restoreTemps.take 9 ++ ([.csrs .mstatus .t1] ++ restoreTemps.drop 10) := rfl
  have htake : ∀ i ∈ restoreTemps.take 9, keepsStatus i := by simp [restoreTemps, keepsStatus]
  have hdrop : ∀ i ∈ restoreTemps.drop 10, keepsStatus i := by simp [restoreTemps, keepsStatus]
  have hset : ¬ MieSet (Instr.exec (s.exec (restoreTemps.take 9)) (.csrs .mstatus .t1)) := by
    have ht1 : (s.exec (restoreTemps.take 9)).regs .t1 = 0x80 := by
      simp [restoreTemps, Instr.exec]
    have hmie : (s.exec (restoreTemps.take 9)).mstatus &&& mieBit = 0 := by
      rw [exec_mstatus htake]
      exact not_not.mp hs
    simp only [Instr.exec, MieSet, Machine.mstatus_setCsr, if_true, Machine.csr_mstatus, ht1,
      not_not]
    exact and_or_mieBit hmie (by decide)
  rw [hsplit, masked_append, masked_append]
  exact ⟨masked_of_keepsStatus htake hs, ⟨still (mieSet_exec htake hs), still hset⟩,
    masked_of_keepsStatus hdrop hset⟩

/-- Trap exit is atomic as well, although it writes `mstatus`. -/
theorem CheckRestoreRun.eq (hrun : CheckRestoreRun env isr stack s t) (hs : ¬ MieSet s)
    (hclean : Clean s.mscratch s) : t = checkRestore env s := by
  obtain ⟨c, hc, ht⟩ := hrun
  have hc' := hc.eq_exec (by simp [keepsStatus]) hs
  have hcstill : ¬ MieSet c := hc' ▸ mieSet_exec (by simp [keepsStatus]) hs
  suffices hmask : ∀ m : Bool, Masked Instr.exec (InterruptStep isr stack)
      ((if m then restoreToM else restoreToU) ++ restore env) c by
    rw [checkRestore, ← hc']
    split at ht
    · rename_i ha0
      rw [if_pos ha0]
      exact ht.eq_of_masked (hmask true)
    · rename_i ha0
      rw [if_neg ha0]
      exact ht.eq_of_masked (hmask false)
  intro m
  have hto : ∀ i ∈ if m then restoreToM else restoreToU, keepsStatus i :=
    fun _ => restoreToMode_keepsStatus m
  have hload : ∀ i ∈ loadAll rs .t3 (remainingRegs env), keepsStatus i := by
    simp [loadAll, keepsStatus]
  have hprefix : (c.exec (if m then restoreToM else restoreToU)).exec restoreCsrs =
      s.exec (restorePrefix m) := by
    rw [hc', restorePrefix, Machine.exec_append, Machine.exec_append]
  have hstill : ¬ MieSet ((c.exec (if m then restoreToM else restoreToU)).exec restoreCsrs) :=
    hprefix ▸ restorePrefix_still m hclean
  rw [restore, List.append_assoc, masked_append, masked_append, masked_append]
  refine ⟨masked_of_keepsStatus hto hcstill, ?_, masked_of_keepsStatus hload hstill,
    restoreTemps_masked (mieSet_exec hload hstill)⟩
  -- the last of these instructions writes `mstatus`
  have hcsrs : restoreCsrs = restoreCsrs.take 3 ++ [.csrw .mstatus .t1] := rfl
  have htake : ∀ i ∈ restoreCsrs.take 3, keepsStatus i := by simp [restoreCsrs, keepsStatus]
  have hto' := mieSet_exec hto hcstill
  rw [hcsrs, masked_append]
  exact ⟨masked_of_keepsStatus htake hto', still (mieSet_exec htake hto'), still hstill⟩

end entry

end BadgeElfloader.Kernel
