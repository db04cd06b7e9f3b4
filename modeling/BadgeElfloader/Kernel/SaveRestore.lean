import BadgeElfloader.Kernel.Trap

/-!
What trap entry and trap exit do to a context.

Both ends of `customTrap0` serve M-mode and U-mode with the same text, so both
are described once, with the mode as a parameter: `Saved` for everything up to
the check for ECALL, `Restored` for `.urestore` and `.mrestore`. All later
arguments about traps go through these two structures and never look at a
register-by-register store again.
-/

namespace BadgeElfloader.Kernel

open Riscv

/-- The slot of a register in the save area of a mode (`true` is M-mode). -/
def areaField (m : Bool) (r : Reg) : Field := if m then .mReg r else .uReg r

def pcField (m : Bool) : Field := if m then .mPc else .uPc

/-- The registers that a trap saves and restores in this build. -/
def Env.saves (env : Env) (r : Reg) : Bool :=
  (r != .gp || env.preserveGp) && (r != .tp || env.preserveTp)

def tempRegs : List Reg := [.t0, .t1, .t2, .t3]

theorem mem_remainingRegs (env : Env) (r : Reg) :
    r ∈ remainingRegs env ↔ env.saves r ∧ r ∉ tempRegs := by
  cases hgp : env.preserveGp <;> cases htp : env.preserveTp <;>
    cases r <;> simp [remainingRegs, Env.saves, tempRegs, hgp, htp]

@[simp] theorem areaField_inj {m : Bool} {r q : Reg} :
    areaField m r = areaField m q ↔ r = q := by
  cases m <;> simp [areaField]

@[simp] theorem areaField_ne_scratch {m : Bool} {r : Reg} {i : Fin 8} :
    areaField m r ≠ .scratch i := by
  cases m <;> simp [areaField]

@[simp] theorem areaField_ne_isSuper {m : Bool} {r : Reg} : areaField m r ≠ .isSuper := by
  cases m <;> simp [areaField]

def areaBase (m : Bool) : Word := if m then ctxMReg else ctxUReg

@[simp] theorem add_areaBase_add_rs (ctx : Word) (m : Bool) (r : Reg) :
    ctx + areaBase m + rs r = ctx + (areaField m r).offset := by
  cases m
  · exact add_ctxUReg_add_rs ctx r
  · exact add_ctxMReg_add_rs ctx r

/-! ### Saving -/

/-- `s'` is `s`, the state in which `customTrap` was entered, after its
registers have been saved in the area of mode `m` of the context in
`mscratch`. -/
structure Saved (env : Env) (m : Bool) (s s' : Machine) : Prop where
  area : ∀ r, env.saves r → field s' s.mscratch (areaField m r) = s.regs r
  pcSlot : field s' s.mscratch (pcField m) = s.mepc
  status : field s' s.mscratch (.scratch 4) = s.mstatus
  other : ∀ f, (∀ i, f ≠ .scratch i) → f ≠ pcField m →
    (∀ r, env.saves r → f ≠ areaField m r) →
    field s' s.mscratch f = field s s.mscratch f
  outside : ∀ a, OutsideCtx s.mscratch a → s'.mem a = s.mem a
  t0 : s'.regs .t0 = s.mscratch
  sp : s'.regs .sp = field s' s.mscratch (.mReg .sp)
  gp : s'.regs .gp = if env.preserveGp then field s' s.mscratch (.mReg .gp) else s.regs .gp
  tp : s'.regs .tp = if env.preserveTp then field s' s.mscratch (.mReg .tp) else s.regs .tp
  regs : ∀ r, r ∉ tempRegs → r ≠ .sp → r ≠ .gp → r ≠ .tp → s'.regs r = s.regs r
  mscratch : s'.mscratch = s.mscratch
  mcause : s'.mcause = s.mcause
  priv : s'.priv = s.priv

/-- Everything up to the bulk of the register stores, in the mode already
decided. -/
def savePrefix (env : Env) (m : Bool) : List Instr :=
  customTrap env ++ decideMode ++ (if m then mtrap else utrap) ++ transferScratch

theorem savePrefix_field (env : Env) (m : Bool) (s : Machine) (f : Field) :
    field (s.exec (savePrefix env m)) s.mscratch f =
      if f = areaField m .t3 then s.regs .t3
      else if f = areaField m .t2 then s.regs .t2
      else if f = areaField m .t1 then s.regs .t1
      else if f = areaField m .t0 then s.regs .t0
      else if f = .scratch 6 then s.mscratch + areaBase m
      else if f = pcField m then s.mepc
      else if f = .scratch 5 then s.mepc
      else if f = .scratch 4 then s.mstatus
      else if f = .scratch 0 then s.regs .t0
      else if f = .scratch 3 then s.regs .t3
      else if f = .scratch 2 then s.regs .t2
      else if f = .scratch 1 then s.regs .t1
      else field s s.mscratch f := by
  cases m <;>
    simp [savePrefix, customTrap, decideMode, mtrap, utrap, transferScratch, Instr.exec,
      mem_eq_field, areaField, areaBase, pcField]

theorem savePrefix_outside (env : Env) (m : Bool) (s : Machine) {a : Word}
    (ha : OutsideCtx s.mscratch a) : (s.exec (savePrefix env m)).mem a = s.mem a := by
  cases m <;>
    simp [savePrefix, customTrap, decideMode, mtrap, utrap, transferScratch, Instr.exec,
      ha _]

theorem savePrefix_regs (env : Env) (m : Bool) (s : Machine) (r : Reg) :
    (s.exec (savePrefix env m)).regs r =
      if r = .t0 then s.mscratch
      else if r = .t1 then s.regs .t3
      else if r = .t3 then s.mscratch + areaBase m
      else s.regs r := by
  cases m <;>
    simp [savePrefix, customTrap, decideMode, mtrap, utrap, transferScratch, Instr.exec,
      mem_eq_field, areaBase] <;>
    grind

theorem savePrefix_csrs (env : Env) (m : Bool) (s : Machine) :
    (s.exec (savePrefix env m)).mscratch = s.mscratch ∧
      (s.exec (savePrefix env m)).mcause = s.mcause ∧
      (s.exec (savePrefix env m)).priv = s.priv := by
  cases m <;>
    simp [savePrefix, customTrap, decideMode, mtrap, utrap, transferScratch, Instr.exec,
      mem_eq_field]

/-- Trap entry, with the branch on `is_super` taken. -/
theorem trapEntry_eq (env : Env) (s : Machine) (m : Bool)
    (hm : field s s.mscratch .isSuper = 0 ↔ m = false) :
    trapEntry env (s.exec (customTrap env)) =
      (((s.exec (savePrefix env m)).exec (saveAll rs .t3 (remainingRegs env))).exec
        (machineRegs env)) := by
  have hsuper : ((s.exec (customTrap env)).exec decideMode).regs .t1 =
      field s s.mscratch .isSuper := by
    simp [customTrap, decideMode, Instr.exec, mem_eq_field]
  cases m
  · simp [trapEntry, hsuper, hm.mpr rfl, saveregs, savePrefix]
  · have hne : field s s.mscratch .isSuper ≠ 0 := fun h => by simpa using hm.mp h
    simp only [trapEntry, hsuper, if_neg hne, saveregs, savePrefix, Machine.exec_append, if_true]

theorem machineRegs_exec (env : Env) (s : Machine) :
    s.exec (machineRegs env) =
      { s with regs := fun r =>
          if r = .sp then field s (s.regs .t0) (.mReg .sp)
          else if r = .gp ∧ env.preserveGp then field s (s.regs .t0) (.mReg .gp)
          else if r = .tp ∧ env.preserveTp then field s (s.regs .t0) (.mReg .tp)
          else s.regs r } := by
  refine Machine.ext ?_ ?_ ?_ ?_ ?_ ?_ ?_ ?_
  · funext r
    cases hgp : env.preserveGp <;> cases htp : env.preserveTp <;>
      simp [machineRegs, hgp, htp, Instr.exec, mem_eq_field] <;> grind
  all_goals
    cases hgp : env.preserveGp <;> cases htp : env.preserveTp <;>
      simp [machineRegs, hgp, htp, Instr.exec]

/-- The bulk of the register stores, seen from the context. -/
theorem saveAll_field (env : Env) (m : Bool) (s : Machine) (ctx : Word)
    (ht3 : s.regs .t3 = ctx + areaBase m) (r : Reg) :
    field (s.exec (saveAll rs .t3 (remainingRegs env))) ctx (areaField m r) =
      if r ∈ remainingRegs env then s.regs r else field s ctx (areaField m r) := by
  rw [exec_saveAll s _ rs_injective.injOn, ht3]
  simp only [field]
  split
  · rename_i hr
    rw [← add_areaBase_add_rs, Machine.savedMem_of_mem rs_injective.injOn hr]
  · rename_i hr
    apply Machine.savedMem_of_forall_ne
    intro q hq h
    rw [add_areaBase_add_rs, BitVec.add_right_inj, Field.offset_inj, areaField_inj] at h
    exact hr (h ▸ hq)

theorem saveAll_mem (env : Env) (m : Bool) (s : Machine) (ctx a : Word)
    (ht3 : s.regs .t3 = ctx + areaBase m)
    (ha : ∀ r ∈ remainingRegs env, a ≠ ctx + (areaField m r).offset) :
    (s.exec (saveAll rs .t3 (remainingRegs env))).mem a = s.mem a := by
  rw [exec_saveAll s _ rs_injective.injOn, ht3]
  apply Machine.savedMem_of_forall_ne
  intro r hr
  rw [add_areaBase_add_rs]
  exact ha r hr

theorem saveAll_field_other (env : Env) (m : Bool) (s : Machine) (ctx : Word) (f : Field)
    (ht3 : s.regs .t3 = ctx + areaBase m) (hf : ∀ r ∈ remainingRegs env, f ≠ areaField m r) :
    field (s.exec (saveAll rs .t3 (remainingRegs env))) ctx f = field s ctx f := by
  apply saveAll_mem env m s ctx _ ht3
  intro r hr h
  exact hf r hr (Field.offset_injective ((BitVec.add_right_inj _).mp h))

/-- Trap entry saves the interrupted registers in the area of the mode that
`is_super` says was running. -/
theorem trapEntry_saved (env : Env) (s : Machine) (m : Bool)
    (hm : field s s.mscratch .isSuper = 0 ↔ m = false) :
    Saved env m s (trapEntry env (s.exec (customTrap env))) := by
  rw [trapEntry_eq env s m hm, machineRegs_exec]
  set s₁ := s.exec (savePrefix env m) with hs₁
  set s₂ := s₁.exec (saveAll rs .t3 (remainingRegs env)) with hs₂
  have hregs₁ : ∀ r, s₁.regs r = _ := savePrefix_regs env m s
  have ht3 : s₁.regs .t3 = s.mscratch + areaBase m := by simp [hregs₁]
  have hregs₂ : s₂.regs = s₁.regs := by rw [hs₂, exec_saveAll s₁ _ rs_injective.injOn]
  obtain ⟨hscratch, hcause, hpriv⟩ := savePrefix_csrs env m s
  have hcsr₂ : s₂.mscratch = s.mscratch ∧ s₂.mcause = s.mcause ∧ s₂.priv = s.priv := by
    rw [hs₂, exec_saveAll s₁ _ rs_injective.injOn]
    exact ⟨hscratch, hcause, hpriv⟩
  have hother : ∀ f, (∀ r ∈ remainingRegs env, f ≠ areaField m r) →
      field s₂ s.mscratch f = _ := fun f hf =>
    (saveAll_field_other env m s₁ s.mscratch f ht3 hf).trans (savePrefix_field env m s f)
  have hpc : ∀ r, pcField m ≠ areaField m r := by
    intro r
    cases m <;> simp [pcField, areaField]
  refine ⟨?area, ?pcSlot, ?status, ?other, ?outside, ?t0, ?sp, ?gp, ?tp, ?regs,
    hcsr₂.1, hcsr₂.2.1, hcsr₂.2.2⟩
  case area =>
    intro r hr
    refine (saveAll_field env m s₁ s.mscratch ht3 r).trans ?_
    by_cases htemp : r ∈ tempRegs
    · rw [if_neg fun h => ((mem_remainingRegs env r).mp h).2 htemp, savePrefix_field]
      simp only [tempRegs, List.mem_cons, List.not_mem_nil, or_false] at htemp
      rcases htemp with rfl | rfl | rfl | rfl <;> simp
    · rw [if_pos ((mem_remainingRegs env r).mpr ⟨hr, htemp⟩), hregs₁]
      simp only [tempRegs, List.mem_cons, List.not_mem_nil, or_false, not_or] at htemp
      simp [htemp]
  case pcSlot =>
    refine (hother (pcField m) fun r _ => hpc r).trans ?_
    simp only [hpc, if_false]
    cases m <;> simp [pcField]
  case status =>
    refine (hother (.scratch 4) fun r _ => by cases m <;> simp [areaField]).trans ?_
    cases m <;> simp [areaField, pcField]
  case other =>
    intro f hscr hfpc hfarea
    refine (hother f fun r hr => hfarea r ((mem_remainingRegs env r).mp hr).1).trans ?_
    have htemp : ∀ r ∈ tempRegs, f ≠ areaField m r := by
      intro r hr
      apply hfarea
      simp only [tempRegs, List.mem_cons, List.not_mem_nil, or_false] at hr
      rcases hr with rfl | rfl | rfl | rfl <;> rfl
    simp only [tempRegs, List.mem_cons, List.not_mem_nil, or_false, forall_eq_or_imp,
      forall_eq] at htemp
    simp [hscr, hfpc, htemp]
  case outside =>
    intro a ha
    exact (saveAll_mem env m s₁ s.mscratch a ht3 fun r _ => ha _).trans
      (savePrefix_outside env m s ha)
  case t0 => simp [hregs₂, hregs₁]
  case sp => simp [hregs₂, hregs₁, field]
  case gp => cases env.preserveGp <;> simp [hregs₂, hregs₁, field]
  case tp => cases env.preserveTp <;> simp [hregs₂, hregs₁, field]
  case regs =>
    intro r htemp hsp hgp htp
    simp only [tempRegs, List.mem_cons, List.not_mem_nil, or_false, not_or] at htemp
    simp [hregs₂, hregs₁, htemp, hsp, hgp, htp]

/-! ### Restoring -/

/-- `mstatus` at the `mret`, from the value saved at trap entry. -/
def exitStatus (m : Bool) (w : Word) : Word :=
  (if m then w ||| 0x1800 else w &&& 0xffffe7ff) ||| 0x80

theorem exitStatus_mpp (m : Bool) (w : Word) :
    exitStatus m w &&& mppMask = if m then mppMask else 0 := by
  rw [exitStatus, mppMask, BitVec.and_or_distrib_right]
  cases m
  · rw [if_neg (by decide), BitVec.and_assoc]
    simp
  · rw [if_pos rfl, BitVec.and_or_distrib_right]
    ext i
    simp

/-- `t` is the state at the `mret` that returns to mode `m`, reached from `s`,
whose `mscratch` names the context. -/
structure Restored (env : Env) (m : Bool) (s t : Machine) : Prop where
  regs : ∀ r, env.saves r → t.regs r = field s s.mscratch (areaField m r)
  rest : ∀ r, env.saves r = false → t.regs r = s.regs r
  mepc : t.mepc = field s s.mscratch (pcField m)
  mstatus : t.mstatus = exitStatus m (field s s.mscratch (.scratch 4))
  isSuper : field t s.mscratch .isSuper = if m then 1 else 0
  other : ∀ f, (∀ i, f ≠ .scratch i) → f ≠ .isSuper →
    field t s.mscratch f = field s s.mscratch f
  outside : ∀ a, OutsideCtx s.mscratch a → t.mem a = s.mem a
  mscratch : t.mscratch = s.mscratch
  mcause : t.mcause = s.mcause
  priv : t.priv = s.priv

/-- The `mret` goes where the handler's result says. -/
theorem Restored.mret_priv {env : Env} {m : Bool} {s t : Machine} (h : Restored env m s t) :
    t.mret.priv = if m then .machine else .user := by
  simp only [Machine.mret, h.mstatus, exitStatus_mpp]
  cases m <;> decide

theorem Restored.mret_pc {env : Env} {m : Bool} {s t : Machine} (h : Restored env m s t) :
    t.mret.pc = field s s.mscratch (pcField m) := h.mepc

/-- The exit path up to the bulk of the register loads. -/
def restorePrefix (m : Bool) : List Instr :=
  [.csrr .t0 .mscratch] ++ (if m then restoreToM else restoreToU) ++ restoreCsrs

theorem restorePrefix_field (m : Bool) (s : Machine) (f : Field) :
    field (s.exec (restorePrefix m)) s.mscratch f =
      if f = .scratch 5 then field s s.mscratch (pcField m)
      else if f = .isSuper then (if m then 1 else 0)
      else if f = .scratch 4 then
        (if m then field s s.mscratch (.scratch 4) ||| 0x1800
          else field s s.mscratch (.scratch 4) &&& 0xffffe7ff)
      else field s s.mscratch f := by
  cases m <;>
    simp [restorePrefix, restoreToM, restoreToU, restoreCsrs, Instr.exec, mem_eq_field, pcField]

theorem restorePrefix_outside (m : Bool) (s : Machine) {a : Word}
    (ha : OutsideCtx s.mscratch a) : (s.exec (restorePrefix m)).mem a = s.mem a := by
  cases m <;> simp [restorePrefix, restoreToM, restoreToU, restoreCsrs, Instr.exec, ha _]

theorem restorePrefix_regs (m : Bool) (s : Machine) (r : Reg) (hr : r ∉ tempRegs) :
    (s.exec (restorePrefix m)).regs r = s.regs r := by
  simp only [tempRegs, List.mem_cons, List.not_mem_nil, or_false, not_or] at hr
  cases m <;> simp [restorePrefix, restoreToM, restoreToU, restoreCsrs, Instr.exec, hr]

theorem restorePrefix_base (m : Bool) (s : Machine) :
    (s.exec (restorePrefix m)).regs .t0 = s.mscratch ∧
      (s.exec (restorePrefix m)).regs .t3 = s.mscratch + areaBase m := by
  cases m <;> simp [restorePrefix, restoreToM, restoreToU, restoreCsrs, Instr.exec, areaBase]

theorem restorePrefix_csrs (m : Bool) (s : Machine) :
    (s.exec (restorePrefix m)).mepc = field s s.mscratch (pcField m) ∧
      (s.exec (restorePrefix m)).mstatus =
        (if m then field s s.mscratch (.scratch 4) ||| 0x1800
          else field s s.mscratch (.scratch 4) &&& 0xffffe7ff) ∧
      (s.exec (restorePrefix m)).mcause = s.mcause ∧
      (s.exec (restorePrefix m)).priv = s.priv := by
  cases m <;>
    simp [restorePrefix, restoreToM, restoreToU, restoreCsrs, Instr.exec, mem_eq_field, pcField]

theorem checkRestore_eq (env : Env) (s : Machine) (m : Bool)
    (hm : s.regs .a0 = 0 ↔ m = false) :
    checkRestore env s =
      (((s.exec (restorePrefix m)).exec (loadAll rs .t3 (remainingRegs env))).exec
        restoreTemps) := by
  have ha0 : (s.exec [.csrr .t0 .mscratch]).regs .a0 = s.regs .a0 := by simp [Instr.exec]
  simp only [checkRestore, ha0]
  cases m
  · rw [if_neg (not_not.mpr (hm.mpr rfl))]
    simp [urestore, restore, restorePrefix]
  · rw [if_pos fun h => by simpa using hm.mp h]
    simp [mrestore, restore, restorePrefix]

theorem restoreTemps_effect (s : Machine) (ctx : Word) (m : Bool)
    (ht0 : s.regs .t0 = ctx) (ht3 : s.regs .t3 = ctx + areaBase m) :
    (∀ r, (s.exec restoreTemps).regs r =
        if r ∈ tempRegs then field s ctx (areaField m r) else s.regs r) ∧
      (∀ f, (∀ i, f ≠ .scratch i) → field (s.exec restoreTemps) ctx f = field s ctx f) ∧
      (∀ a, OutsideCtx ctx a → (s.exec restoreTemps).mem a = s.mem a) ∧
      (s.exec restoreTemps).mstatus = s.mstatus ||| 0x80 ∧
      (s.exec restoreTemps).mscratch = ctx ∧
      (s.exec restoreTemps).mepc = s.mepc ∧
      (s.exec restoreTemps).mcause = s.mcause ∧
      (s.exec restoreTemps).priv = s.priv := by
  refine ⟨?_, ?_, ?_, ?_, ?_, ?_, ?_, ?_⟩
  · intro r
    simp [restoreTemps, Instr.exec, ht0, ht3, mem_eq_field, tempRegs]
    grind
  · intro f hf
    simp [restoreTemps, Instr.exec, ht0, ht3, mem_eq_field, hf]
  · intro a ha
    simp [restoreTemps, Instr.exec, ht0, ha _]
  all_goals simp [restoreTemps, Instr.exec, ht0]

/-- Trap exit restores the registers and the program counter of the mode that
the handler's result asks for. -/
theorem checkRestore_restored (env : Env) (s : Machine) (m : Bool)
    (hm : s.regs .a0 = 0 ↔ m = false) : Restored env m s (checkRestore env s) := by
  rw [checkRestore_eq env s m hm]
  set s₁ := s.exec (restorePrefix m)
  obtain ⟨ht0, ht3⟩ : s₁.regs .t0 = s.mscratch ∧ s₁.regs .t3 = s.mscratch + areaBase m :=
    restorePrefix_base m s
  obtain ⟨hepc, hstatus, hcause, hpriv⟩ := restorePrefix_csrs m s
  have ht3l : Reg.t3 ∉ remainingRegs env := fun h =>
    ((mem_remainingRegs env .t3).mp h).2 (by decide)
  have ht0l : Reg.t0 ∉ remainingRegs env := fun h =>
    ((mem_remainingRegs env .t0).mp h).2 (by decide)
  have hload := exec_loadAll s₁ rs .t3 (remainingRegs env) ht3l
  set s₂ := s₁.exec (loadAll rs .t3 (remainingRegs env))
  have hfield₂ : ∀ f, field s₂ s.mscratch f = field s₁ s.mscratch f := fun f => by
    rw [hload]; rfl
  have hfield₁ : ∀ f, field s₁ s.mscratch f = _ := restorePrefix_field m s
  have harea : ∀ r, field s₂ s.mscratch (areaField m r) = field s s.mscratch (areaField m r) := by
    intro r
    rw [hfield₂, hfield₁]
    simp
  have hregs₂ : ∀ r, r ∉ tempRegs → s₂.regs r =
      if env.saves r then field s s.mscratch (areaField m r) else s.regs r := by
    intro r hr
    rw [hload]
    simp only [mem_remainingRegs, hr, not_false_eq_true, and_true, ht3, add_areaBase_add_rs,
      mem_eq_field]
    rw [← hfield₂, harea, restorePrefix_regs m s r hr]
  obtain ⟨hregs, hfield, hout, hst, hscr, hep, hca, hpr⟩ :=
    restoreTemps_effect s₂ s.mscratch m (by rw [hload]; simpa [ht0l] using ht0)
      (by rw [hload]; simpa [ht3l] using ht3)
  refine ⟨?regs, ?rest, ?mepc, ?mstatus, ?isSuper, ?other, ?outside, hscr, ?mcause, ?priv⟩
  case regs =>
    intro r hr
    rw [hregs]
    by_cases htemp : r ∈ tempRegs
    · rw [if_pos htemp, harea]
    · rw [if_neg htemp, hregs₂ r htemp, if_pos hr]
  case rest =>
    intro r hr
    have htemp : r ∉ tempRegs := by
      intro h
      simp only [tempRegs, List.mem_cons, List.not_mem_nil, or_false] at h
      rcases h with rfl | rfl | rfl | rfl <;> simp [Env.saves] at hr
    rw [hregs, if_neg htemp, hregs₂ r htemp, hr]
    simp
  case mepc =>
    rw [hep, hload]
    exact hepc
  case mstatus =>
    rw [hst, hload]
    simp only [exitStatus]
    rw [← hstatus]
  case isSuper =>
    rw [hfield _ (by simp), hfield₂, hfield₁]
    simp
  case other =>
    intro f hscratch hsuper
    rw [hfield f hscratch, hfield₂, hfield₁]
    simp [hscratch, hsuper]
  case outside =>
    intro a ha
    rw [hout a ha, hload]
    exact restorePrefix_outside m s ha
  case mcause =>
    rw [hca, hload]
    exact hcause
  case priv =>
    rw [hpr, hload]
    exact hpriv

end BadgeElfloader.Kernel
