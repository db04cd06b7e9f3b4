import BadgeElfloader.Kernel.TrapSpec

/-!
Traps as transitions of a process.

A trap out of user code either resumes the process behind a native function
(`Resumed`) or ends it (`Ended`), and an ECALL of the kernel itself enters it
(`Entered`). Each of the three relates the state in which the trap was raised to
the state behind the `mret`; what happens in between is no longer visible.
-/

namespace BadgeElfloader.Kernel

open Riscv

/-- The fields that no trap out of user code writes. -/
def Field.fixed : Field → Bool
  | uReg _ | scratch _ | uPc | mPc | isSuper => false
  | _ => true

theorem Field.fixed_ne {f g : Field} (hf : f.fixed) (hg : g.fixed = false) : f ≠ g := by
  rintro rfl
  rw [hf] at hg
  cases hg

/-- A program counter steps past the ECALL of its own mode only. -/
theorem add_step_of_ne {pc size cause ecall : Word} (h : cause ≠ ecall) :
    (pc + if cause = ecall then size else 0) = pc := by
  rw [if_neg h]
  exact BitVec.add_zero pc

/-- The native function entered in state `b` has returned in state `n`, and its
task has not been switched out meanwhile. -/
structure NativeResult (ctx : Word) (b n : Machine) : Prop extends NativeReturn ctx b n where
  mscratchKept : n.mscratch = b.mscratch

/-- The shortest native function. -/
def returnAtOnce (b : Machine) : Machine := { b with pc := b.regs .ra }

theorem returnAtOnce_result (ctx : Word) (b : Machine) : NativeResult ctx b (returnAtOnce b) where
  pc_eq := rfl
  priv_eq := rfl
  saved _ _ := rfl
  ctxKept _ := rfl
  frameKept _ _ := rfl
  mscratchKept := rfl

/-- The trap raised in state `s` called a native function, which returned in
state `n`; user code resumes in state `u`. -/
structure Resumed (cause : Word) (s n u : Machine) : Prop where
  priv : u.priv = .user
  pc : u.pc = s.pc + if cause = 8 then 4 else 0
  a0 : u.regs .a0 = n.regs .a0
  a1 : u.regs .a1 = n.regs .a1
  regs : ∀ r, r ≠ .a0 → r ≠ .a1 → u.regs r = s.regs r
  isSuper : field u s.mscratch .isSuper = 0
  mPc : field u s.mscratch .mPc =
    field s s.mscratch .mPc + if cause = 11 then 4 else 0
  fixed : ∀ f, f.fixed → field u s.mscratch f = field s s.mscratch f
  outside : ∀ a, OutsideCtx s.mscratch a → u.mem a = n.mem a
  mscratch : u.mscratch = s.mscratch

/-- The trap raised in state `s` ended the process; the kernel goes on in state
`e`. -/
structure Ended (env : Env) (cause : Word) (s e : Machine) : Prop where
  priv : e.priv = .machine
  pc : e.pc = field s s.mscratch .mPc + if cause = 11 then 4 else 0
  regs : ∀ r, env.saves r → e.regs r = field s s.mscratch (.mReg r)
  rest : ∀ r, env.saves r = false → e.regs r = s.regs r
  isSuper : field e s.mscratch .isSuper = 1
  uReg : ∀ r, field e s.mscratch (.uReg r) =
    if env.saves r then s.regs r else field s s.mscratch (.uReg r)
  uPc : field e s.mscratch .uPc = s.pc + if cause = 8 then 4 else 0
  mPc : field e s.mscratch .mPc =
    field s s.mscratch .mPc + if cause = 11 then 4 else 0
  fixed : ∀ f, f.fixed → field e s.mscratch f = field s s.mscratch f
  outside : ∀ a, OutsideCtx s.mscratch a → e.mem a = s.mem a
  mscratch : e.mscratch = s.mscratch

/-- The ECALL that the kernel made in state `s` entered user code, in state
`u`. -/
structure Entered (env : Env) (s u : Machine) : Prop where
  priv : u.priv = .user
  pc : u.pc = field u s.mscratch .uPc
  regs : ∀ r, env.saves r → u.regs r = field u s.mscratch (.uReg r)
  rest : ∀ r, env.saves r = false → u.regs r = s.regs r
  isSuper : field u s.mscratch .isSuper = 0
  mReg : ∀ r, field u s.mscratch (.mReg r) =
    if env.saves r then s.regs r else field s s.mscratch (.mReg r)
  mPc : field u s.mscratch .mPc = s.pc + 4
  userjump : s.regs .a0 = sysUserjump →
    field u s.mscratch .uPc = field s s.mscratch .uPc ∧
      ∀ r, field u s.mscratch (.uReg r) = field s s.mscratch (.uReg r)
  userenter : s.regs .a0 = sysUserenter →
    field u s.mscratch .uPc = s.regs .a1 ∧ field u s.mscratch (.uReg .sp) = s.regs .a2 ∧
      ∀ r, r ≠ .sp → r ≠ .gp → r ≠ .tp → field u s.mscratch (.uReg r) = 0
  fixed : ∀ f, f.fixed → f ≠ .uZero → (∀ r, f ≠ .mReg r) →
    field u s.mscratch f = field s s.mscratch f
  outside : ∀ a, OutsideCtx s.mscratch a → u.mem a = s.mem a
  mscratch : u.mscratch = s.mscratch

/-! ### Traps out of user code -/

section user

variable {env : Env} {s h : Machine} {cause : Word}

theorem AtHandler.fixed {m : Bool} (hh : AtHandler env m cause s h) {f : Field}
    (hf : f.fixed) (harea : m = true → ∀ r, f ≠ .mReg r) :
    field h s.mscratch f = field s s.mscratch f := by
  refine hh.other f (fun i => Field.fixed_ne hf rfl) (Field.fixed_ne hf rfl)
    (Field.fixed_ne hf rfl) fun r _ => ?_
  cases m
  · exact Field.fixed_ne hf rfl
  · exact harea rfl r

theorem Env.unsaved_eq {r : Reg} (hr : env.saves r = false) : r = .gp ∨ r = .tp := by
  simp only [saves] at hr
  grind

/-- A build that does not save a register enters the handler with the value of
the interrupted code. -/
theorem AtHandler.unsaved {m : Bool} (hh : AtHandler env m cause s h) {r : Reg}
    (hr : env.saves r = false) : h.regs r = s.regs r := by
  obtain rfl | rfl := Env.unsaved_eq hr
  · have hp : env.preserveGp = false := by simpa [Env.saves] using hr
    rw [hh.gp, hp]
    rfl
  · have hp : env.preserveTp = false := by simpa [Env.saves] using hr
    rw [hh.tp, hp]
    rfl

theorem AtHandler.isSuper_eq {m : Bool} (hh : AtHandler env m cause s h) :
    field h s.mscratch .isSuper = field s s.mscratch .isSuper :=
  hh.other .isSuper (by simp) (by simp) (by simp) fun r _ => areaField_ne_isSuper.symm

/-- The save area of the interrupted mode, saved registers or not. -/
theorem AtHandler.area_eq {m : Bool} (hh : AtHandler env m cause s h) (r : Reg) :
    field h s.mscratch (areaField m r) =
      if env.saves r then s.regs r else field s s.mscratch (areaField m r) := by
  cases hr : env.saves r with
  | true => exact hh.area r hr
  | false =>
      refine hh.other _ (by simp) (by cases m <;> simp [areaField])
        (by cases m <;> simp [areaField]) fun q hq heq => ?_
      have hrq : r = q := by cases m <;> simpa [areaField] using heq
      rw [hrq, hq] at hr
      cases hr

/-- What trap entry and exit leave alone between them. -/
theorem AtHandler.rest_eq {m m' : Bool} (hh : AtHandler env m cause s h) {r t : Machine}
    (ht : Restored env m' r t) (hgp : r.regs .gp = h.regs .gp) (htp : r.regs .tp = h.regs .tp)
    {q : Reg} (hq : env.saves q = false) : t.regs q = s.regs q := by
  obtain rfl | rfl := Env.unsaved_eq hq
  · exact (ht.rest _ hq).trans (hgp.trans (hh.unsaved hq))
  · exact (ht.rest _ hq).trans (htp.trans (hh.unsaved hq))

/-- A trap out of user code that calls no native function asks for the machine
mode to be restored, with nothing written since the handler was entered. -/
theorem trap_user (huser : field s s.mscratch .isSuper = 0) (hh : h = handlerEntry env s cause) :
    if (cause = 8 ∨ cause = 11) ∧ AbiCall h then
      trap env s cause = .call h (makeABICall env (abiCallSite env h))
    else
      ∃ r, trap env s cause = .mret h (checkRestore env r) ∧ r.regs .a0 = 1 ∧
        r.mem = h.mem ∧ r.mscratch = h.mscratch ∧
        r.regs .gp = h.regs .gp ∧ r.regs .tp = h.regs .tp := by
  have hat : AtHandler env false cause s h :=
    hh ▸ handlerEntry_spec env false s cause (by simp [huser])
  have hsuper : field h h.mscratch .isSuper = 0 := by
    rw [hat.mscratch, hat.isSuper_eq, huser]
  by_cases hecall : cause = 8 ∨ cause = 11
  · rw [trap_ecall env s hecall, ← hh, ecallHandler_user env h hsuper]
    by_cases hcall : AbiCall h
    · rw [if_pos ⟨hecall, hcall⟩, if_pos hcall]
      rfl
    · rw [if_neg fun hboth => hcall hboth.2, if_neg hcall]
      exact ⟨cppRet env h h 1, rfl, by simp [cppRet], rfl, rfl, by simp [cppRet],
        by simp [cppRet]⟩
  · obtain ⟨h8, h11⟩ := not_or.mp hecall
    rw [if_neg fun hboth => hecall hboth.1, trap_exception env s h h8 h11 hh, if_pos hsuper]
    refine ⟨_, rfl, ?_, ?_, ?_, ?_, ?_⟩ <;> simp [disableInterrupts, Instr.exec, cppRet]

/-- The way back into user code behind a native function. -/
theorem abiReturn_resumed (hat : AtHandler env false cause s h)
    (hstack : StackApart env s.mscratch (field s s.mscratch (.mReg .sp))) {n : Machine}
    (hn : NativeResult s.mscratch (makeABICall env (abiCallSite env h)) n) :
    ∃ t, abiReturn env h n = some t ∧ Resumed cause s n t.mret ∧ t.mstatus &&& mppMask = 0 := by
  have hctx : h.mscratch = s.mscratch := hat.mscratch
  have hsp : h.regs .sp = field s s.mscratch (.mReg .sp) :=
    hat.sp.trans (hat.fixed rfl (by simp))
  have hb := makeABICall_spec env h (by rwa [hctx, hsp])
  obtain ⟨r, t, habi, ht, hfield, hout, hgp, htp, hscratch, -⟩ :=
    abiReturn_spec env h n (by rwa [hctx, hsp]) (hctx ▸ hn.toNativeReturn)
  rw [hctx] at hfield hout
  have hrctx : r.mscratch = s.mscratch := by
    rw [hscratch, hn.mscratchKept, hb.mscratch, hctx]
  -- everything but the two result registers is as it was saved at trap entry
  have hsaved : ∀ r', env.saves r' → r' ≠ .a0 → r' ≠ .a1 → t.regs r' = s.regs r' := by
    intro r' hr' h0 h1
    rw [ht.regs r' hr', hrctx, hfield]
    simpa [areaField, h0, h1] using hat.area r' hr'
  have hkeep : ∀ f, f.fixed → field t s.mscratch f = field s s.mscratch f := by
    intro f hf
    rw [← hrctx, ht.other f (fun i => Field.fixed_ne hf rfl) (Field.fixed_ne hf rfl), hrctx, hfield,
      if_neg (Field.fixed_ne hf rfl), if_neg (Field.fixed_ne hf rfl),
      if_neg (Field.fixed_ne hf rfl), hat.fixed hf (by simp)]
  refine ⟨t, habi, ⟨ht.mret_priv, ?pc, ?a0, ?a1, ?regs, ?isSuper, ?mPc, hkeep, ?outside,
    ht.mscratch.trans hrctx⟩, by rw [ht.mstatus, exitStatus_mpp]; rfl⟩
  case pc =>
    rw [ht.mret_pc, hrctx, hfield]
    simpa [pcField] using hat.uPc
  case a0 =>
    refine (ht.regs .a0 (by simp [Env.saves])).trans ?_
    rw [hrctx, hfield]
    simp [areaField]
  case a1 =>
    refine (ht.regs .a1 (by simp [Env.saves])).trans ?_
    rw [hrctx, hfield]
    simp [areaField]
  case regs =>
    intro r' h0 h1
    cases hsave : env.saves r' with
    | true => exact hsaved r' hsave h0 h1
    | false => exact hat.rest_eq ht hgp htp hsave
  case isSuper => exact hrctx ▸ ht.isSuper
  case mPc =>
    refine (hrctx ▸ ht.other .mPc (by simp) (by simp)).trans ?_
    rw [hfield]
    simpa using hat.mPc
  case outside =>
    intro a ha
    rw [← hout a ha]
    exact ht.outside a (hrctx ▸ ha)

/-- The way back into the kernel. -/
theorem checkRestore_ended (hat : AtHandler env false cause s h) {r : Machine}
    (ha0 : r.regs .a0 = 1) (hmem : r.mem = h.mem) (hscratch : r.mscratch = h.mscratch)
    (hgp : r.regs .gp = h.regs .gp) (htp : r.regs .tp = h.regs .tp) :
    Ended env cause s (checkRestore env r).mret ∧
      (checkRestore env r).mstatus &&& mppMask = mppMask := by
  have ht : Restored env true r (checkRestore env r) :=
    checkRestore_restored env r true (by simp [ha0])
  set t := checkRestore env r
  have hctx : r.mscratch = s.mscratch := hscratch.trans hat.mscratch
  have hfield : ∀ f, field r s.mscratch f = field h s.mscratch f := fun f => congrFun hmem _
  have hkeep : ∀ f, (∀ i, f ≠ .scratch i) → f ≠ .isSuper →
      field t s.mscratch f = field h s.mscratch f := by
    intro f hscr hsup
    rw [← hctx, ht.other f hscr hsup, hctx, hfield]
  refine ⟨⟨ht.mret_priv, ?pc, ?regs, ?rest, ?isSuper, ?uReg, ?uPc, ?mPc, ?fixed, ?outside,
    ht.mscratch.trans hctx⟩, by rw [ht.mstatus, exitStatus_mpp]; rfl⟩
  case pc =>
    rw [ht.mret_pc, hctx, hfield]
    simpa [pcField] using hat.mPc
  case regs =>
    intro q hq
    refine (ht.regs q hq).trans ?_
    rw [hctx, hfield]
    exact hat.fixed rfl (by simp)
  case rest => exact fun q hq => hat.rest_eq ht hgp htp hq
  case isSuper => exact hctx ▸ ht.isSuper
  case uReg => exact fun q => (hkeep _ (by simp) (by simp)).trans (hat.area_eq q)
  case uPc => exact (hkeep _ (by simp) (by simp)).trans hat.uPc
  case mPc => exact (hkeep _ (by simp) (by simp)).trans hat.mPc
  case fixed =>
    intro f hf
    refine (hkeep f (fun i => Field.fixed_ne hf rfl) (Field.fixed_ne hf rfl)).trans ?_
    exact hat.fixed hf (by simp)
  case outside =>
    intro a ha
    refine (ht.outside a (hctx ▸ ha)).trans ?_
    rw [hmem, hat.outside a ha]

end user

/-! ### System calls of the kernel -/

theorem userenter_outside {s : Machine} {a : Word} (ha : OutsideCtx s.mscratch a) :
    (userenter s).mem a = s.mem a := by
  have hclear : (clearURegs s s.mscratch).mem a = s.mem a := by
    simp [clearURegs, ha _]
  simp [userenter, hclear, ha _]

section kernel

variable {env : Env} {s h w : Machine}

theorem isSuper_true_iff (hsuper : field s s.mscratch .isSuper ≠ 0) :
    field s s.mscratch .isSuper = 0 ↔ true = false :=
  ⟨fun h => absurd h hsuper, nofun⟩

/-- `w` is what `ecallHandler`, entered in state `h`, makes of a system call
that enters user code. -/
structure EntryWrites (s h w : Machine) : Prop where
  mscratch : w.mscratch = s.mscratch
  gp : w.regs .gp = h.regs .gp
  tp : w.regs .tp = h.regs .tp
  outside : ∀ a, OutsideCtx s.mscratch a → w.mem a = h.mem a
  userjump : s.regs .a0 = sysUserjump → ∀ f, field w s.mscratch f = field h s.mscratch f
  userenter : s.regs .a0 = sysUserenter →
    field w s.mscratch .uPc = s.regs .a1 ∧ field w s.mscratch (.uReg .sp) = s.regs .a2 ∧
      ∀ r, r ≠ .sp → r ≠ .gp → r ≠ .tp → field w s.mscratch (.uReg r) = 0
  kept : ∀ f, f ≠ .uZero → f ≠ .uPc → (∀ r, f ≠ .uReg r) →
    field w s.mscratch f = field h s.mscratch f

theorem ecallHandler_entry (hat : AtHandler env true 11 s h)
    (hsuper : field s s.mscratch .isSuper ≠ 0)
    (hcall : s.regs .a0 = sysUserjump ∨ s.regs .a0 = sysUserenter) :
    ∃ w, ecallHandler env h = .ret (cppRet env h w 0) ∧ EntryWrites s h w := by
  have hctx : h.mscratch = s.mscratch := hat.mscratch
  have hsuper' : field h h.mscratch .isSuper ≠ 0 := by rwa [hctx, hat.isSuper_eq]
  have hreg : ∀ r ∈ [Reg.a0, .a1, .a2], h.regs r = s.regs r := by
    intro r hr
    apply hat.regs <;> revert r <;> decide
  have ha0 : h.regs .a0 = s.regs .a0 := hreg _ (by decide)
  have hne : sysUserenter ≠ sysUserjump := by decide
  rw [ecallHandler_kernel env h hsuper', ha0]
  rcases hcall with hjump | henter
  · rw [if_pos hjump]
    refine ⟨h, rfl, hctx, rfl, rfl, fun _ _ => rfl, fun _ _ => rfl, ?_, fun _ _ _ _ => rfl⟩
    intro henter
    exact absurd (henter.symm.trans hjump) hne
  · rw [if_neg (henter ▸ hne), if_pos henter]
    have hfield := userenter_field h
    rw [hctx] at hfield
    refine ⟨userenter h, rfl, hctx, rfl, rfl, fun a ha => userenter_outside (hctx ▸ ha), ?_, ?_, ?_⟩
    · intro hjump
      exact absurd (henter.symm.trans hjump) hne
    · intro _
      simp only [hfield, hreg .a1 (by decide), hreg .a2 (by decide), true_and]
      intro r hsp hgp htp
      cases r <;> simp at hsp hgp htp ⊢
    · intro f hzero hpc hnreg
      rw [hfield]
      cases f <;> simp at hzero hpc hnreg ⊢

theorem checkRestore_entered (hat : AtHandler env true 11 s h) (hw : EntryWrites s h w)
    {r : Machine} (hr : r = cppRet env h w 0) :
    Entered env s (checkRestore env r).mret ∧ (checkRestore env r).mstatus &&& mppMask = 0 := by
  have ht : Restored env false r (checkRestore env r) :=
    checkRestore_restored env r false (by simp [hr, cppRet])
  generalize checkRestore env r = t at ht
  have hctx : r.mscratch = s.mscratch := by rw [hr]; exact hw.mscratch
  have hmem : r.mem = w.mem := by rw [hr]; rfl
  have hkeep : ∀ f, (∀ i, f ≠ .scratch i) → f ≠ .isSuper →
      field t s.mscratch f = field w s.mscratch f := by
    intro f hscr hsup
    rw [← hctx, ht.other f hscr hsup]
    exact congrFun hmem _
  have hself : ∀ f, (∀ i, f ≠ .scratch i) → f ≠ .isSuper →
      field r r.mscratch f = field t s.mscratch f := by
    intro f hscr hsup
    rw [← hctx, ht.other f hscr hsup]
  refine ⟨⟨ht.mret_priv, ?pc, ?regs, ?rest, ?isSuper, ?mReg, ?mPc, ?userjump, ?userenter,
    ?fixed, ?outside, ht.mscratch.trans hctx⟩, by rw [ht.mstatus, exitStatus_mpp]; rfl⟩
  case pc => exact ht.mret_pc.trans (hself .uPc (by simp) (by simp))
  case regs => exact fun q hq => (ht.regs q hq).trans (hself (.uReg q) (by simp) (by simp))
  case rest =>
    have hgp : r.regs .gp = w.regs .gp := by simp [hr, cppRet]
    have htp : r.regs .tp = w.regs .tp := by simp [hr, cppRet]
    exact fun q hq => hat.rest_eq ht (hgp.trans hw.gp) (htp.trans hw.tp) hq
  case isSuper => exact hctx ▸ ht.isSuper
  case mReg =>
    intro q
    refine (hkeep _ (by simp) (by simp)).trans ?_
    rw [hw.kept _ (by simp) (by simp) (by simp)]
    exact hat.area_eq q
  case mPc =>
    refine (hkeep _ (by simp) (by simp)).trans ?_
    rw [hw.kept _ (by simp) (by simp) (by simp), hat.mPc]
    simp
  case userjump =>
    intro hjump
    refine ⟨?_, fun q => ?_⟩
    · refine (hkeep _ (by simp) (by simp)).trans ?_
      rw [hw.userjump hjump, hat.uPc]
      simp
    · refine (hkeep _ (by simp) (by simp)).trans ?_
      rw [hw.userjump hjump]
      exact hat.other _ (by simp) (by simp) (by simp) (by simp [areaField])
  case userenter =>
    intro henter
    obtain ⟨hpc, hsp, hzero⟩ := hw.userenter henter
    exact ⟨(hkeep _ (by simp) (by simp)).trans hpc, (hkeep _ (by simp) (by simp)).trans hsp,
      fun q h2 h3 h4 => (hkeep _ (by simp) (by simp)).trans (hzero q h2 h3 h4)⟩
  case fixed =>
    intro f hf hzero hreg
    refine (hkeep f (fun i => Field.fixed_ne hf rfl) (Field.fixed_ne hf rfl)).trans ?_
    rw [hw.kept f hzero (Field.fixed_ne hf rfl) fun q => Field.fixed_ne hf rfl]
    exact hat.fixed hf fun _ => hreg
  case outside =>
    intro a ha
    refine (ht.outside a (hctx ▸ ha)).trans ?_
    rw [hmem, hw.outside a ha, hat.outside a ha]

variable (env) in
/-- `SYS_USERJUMP` and `SYS_USERENTER` enter user code. -/
theorem trap_kernel (hsuper : field s s.mscratch .isSuper ≠ 0)
    (hcall : s.regs .a0 = sysUserjump ∨ s.regs .a0 = sysUserenter) :
    ∃ t, trap env s 11 = .mret (handlerEntry env s 11) t ∧ Entered env s t.mret ∧
      t.mstatus &&& mppMask = 0 := by
  have hat : AtHandler env true 11 s (handlerEntry env s 11) :=
    handlerEntry_spec env true s 11 (isSuper_true_iff hsuper)
  obtain ⟨w, hret, hw⟩ := ecallHandler_entry hat hsuper hcall
  refine ⟨_, ?_, checkRestore_entered hat hw rfl⟩
  rw [trap_ecall env s (.inr rfl), hret]
  rfl

end kernel

end BadgeElfloader.Kernel
