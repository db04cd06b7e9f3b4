import BadgeElfloader.Kernel.Transitions

/-!
The user-mode wrapper of an ABI function.

User code calls native functions through copies of `abiCallTemplate`, each with
the number of its function behind the code. Calling such a copy is shown to be
a direct call of the native function, seen from both sides: the function is
entered with its caller's arguments (`DirectCall`) and the caller goes on with
the function's result (`DirectReturn`).
-/

namespace BadgeElfloader.Kernel

open Riscv

/-- The code in front of the `ecall`, with the size of each instruction. The
two moves are in front of the `.option` line and compressed. -/
def abiCallTemplate : List (Word × Instr) :=
  [ -- Preserve first two argument words.
    (2, .mv .t0 .a0), (2, .mv .t1 .a1),
    -- Make system call.
    (4, .li .a0 sysAbicall), (4, .auipc .a1 0), (4, .lw .a1 16 .a1) ]

/-- Where the `jr ra` is, and where the system call number is appended. -/
def abiCallTemplateRet : Word := 20
def abiCallTemplateEnd : Word := 24

/-- A synchronous trap with the native code it calls, from the instruction that
raised it to the one behind the `mret`. The first component lists the states in
which native functions were entered. -/
def trapWith (env : Env) (native : Machine → Machine) (s : Machine) (cause : Word) :
    Option (List Machine × Machine) :=
  match trap env s cause with
  | .mret _ t => some ([], t.mret)
  | .call h b => (abiReturn env h (native b)).map fun t => ([b], t.mret)
  | .panic _ => none

/-- Run a wrapper from its first instruction through its `jr ra`, which is
reached only if the trap resumes there. -/
def runWrapper (env : Env) (native : Machine → Machine) (s : Machine) :
    Option (List Machine × Machine) := do
  let (calls, u) ← trapWith env native (s.execAt abiCallTemplate) 8
  if u.pc = s.pc + abiCallTemplateRet then some (calls, u.jump .ra) else none

def argRegs : List Reg := [.a0, .a1, .a2, .a3, .a4, .a5, .a6, .a7]

/-- Native function `i` has been entered in state `b` as it would be by a
direct call out of state `s`. -/
structure DirectCall (env : Env) (i : Word) (s b : Machine) : Prop where
  pc : b.pc = env.abiTable (field s s.mscratch .uAbiTable) i &&& ~~~ 1
  args : ∀ r ∈ argRegs, b.regs r = s.regs r
  sp : b.regs .sp = s.regs .sp

/-- The call made in state `s` is over, the function having returned in state
`n`, and user code goes on in state `u`. -/
structure DirectReturn (s n u : Machine) : Prop where
  priv : u.priv = .user
  pc : u.pc = s.regs .ra &&& ~~~ 1
  a0 : u.regs .a0 = n.regs .a0
  a1 : u.regs .a1 = n.regs .a1
  kept : ∀ r, r ∉ [Reg.a0, .a1, .t0, .t1] → u.regs r = s.regs r
  t0 : u.regs .t0 = s.regs .a0
  t1 : u.regs .t1 = s.regs .a1

theorem abiCallTemplate_regs (s : Machine) (r : Reg) :
    (s.execAt abiCallTemplate).regs r =
      match r with
      | .t0 => s.regs .a0
      | .t1 => s.regs .a1
      | .a0 => sysAbicall
      | .a1 => s.mem (s.pc + abiCallTemplateEnd)
      | r => s.regs r := by
  cases r <;>
    simp [Machine.execAt, abiCallTemplate, abiCallTemplateEnd, Instr.exec, BitVec.add_assoc]

theorem abiCallTemplate_rest (s : Machine) :
    (s.execAt abiCallTemplate).mem = s.mem ∧ (s.execAt abiCallTemplate).pc = s.pc + 16 ∧
      (s.execAt abiCallTemplate).mscratch = s.mscratch := by
  simp [Machine.execAt, abiCallTemplate, Instr.exec, BitVec.add_assoc]

section wrapper

variable {env : Env} {s h b n u : Machine} {i : Word}

theorem wrapper_fixed (hat : AtHandler env false 8 (s.execAt abiCallTemplate) h) {f : Field}
    (hf : f.fixed) : field h h.mscratch f = field s s.mscratch f := by
  obtain ⟨hmem, -, hscratch⟩ := abiCallTemplate_rest s
  rw [hat.mscratch, hat.fixed hf (by simp), field, hmem, hscratch, field]

/-- The handler finds the call of function `i`. -/
theorem wrapper_abiCall (hat : AtHandler env false 8 (s.execAt abiCallTemplate) h)
    (hindex : s.mem (s.pc + abiCallTemplateEnd) = i) (hlo : 0 ≤ i.toInt)
    (hhi : i < field s s.mscratch .uAbiSize) : h.regs .a1 = i ∧ AbiCall h := by
  have hkept : ∀ r ∈ [Reg.a0, .a1], h.regs r = (s.execAt abiCallTemplate).regs r := by
    intro r hr
    apply hat.regs <;> revert r <;> decide
  have ha0 : h.regs .a0 = sysAbicall :=
    (hkept .a0 (by decide)).trans (abiCallTemplate_regs s .a0)
  have ha1 : h.regs .a1 = i :=
    ((hkept .a1 (by decide)).trans (abiCallTemplate_regs s .a1)).trans hindex
  exact ⟨ha1, ha0, ha1 ▸ hlo, by rwa [ha1, wrapper_fixed hat rfl]⟩

/-- The arguments come out of the save area, where trap entry has put them. -/
theorem wrapper_directCall (hat : AtHandler env false 8 (s.execAt abiCallTemplate) h)
    (ha1 : h.regs .a1 = i) (hb : AtBody env h b) : DirectCall env i s b := by
  have hslot : ∀ r, env.saves r →
      field h h.mscratch (.uReg r) = (s.execAt abiCallTemplate).regs r := by
    intro r hr
    rw [hat.mscratch]
    exact hat.area r hr
  have harg : ∀ r ∈ [Reg.a2, .a3, .a4, .a5, .a6, .a7, .sp], b.regs r = s.regs r := by
    intro r hr
    simp only [List.mem_cons, List.not_mem_nil, or_false] at hr
    rcases hr with rfl | rfl | rfl | rfl | rfl | rfl | rfl <;>
      exact (hb.args _ (by decide)).trans
        ((hslot _ (by simp [Env.saves])).trans (abiCallTemplate_regs s _))
  refine ⟨?_, fun r hr => ?_, harg .sp (by decide)⟩
  · rw [hb.pc, wrapper_fixed hat rfl, ha1]
  · simp only [argRegs, List.mem_cons, List.not_mem_nil, or_false] at hr
    rcases hr with rfl | rfl | rfl | rfl | rfl | rfl | rfl | rfl
    · exact hb.a0.trans ((hslot _ (by simp [Env.saves])).trans (abiCallTemplate_regs s .t0))
    · exact hb.a1.trans ((hslot _ (by simp [Env.saves])).trans (abiCallTemplate_regs s .t1))
    all_goals exact harg _ (by decide)

theorem wrapper_pc (hres : Resumed 8 (s.execAt abiCallTemplate) n u) :
    u.pc = s.pc + abiCallTemplateRet := by
  rw [hres.pc, (abiCallTemplate_rest s).2.1, if_pos rfl, BitVec.add_assoc]
  rfl

theorem wrapper_directReturn (hres : Resumed 8 (s.execAt abiCallTemplate) n u) :
    DirectReturn s n (u.jump .ra) := by
  have hkept : ∀ r, r ≠ .a0 → r ≠ .a1 → u.regs r = _ := fun r h0 h1 =>
    (hres.regs r h0 h1).trans (abiCallTemplate_regs s r)
  refine ⟨hres.priv, ?_, hres.a0, hres.a1, fun r hr => ?_, hkept .t0 (by decide) (by decide),
    hkept .t1 (by decide) (by decide)⟩
  · have hra : u.regs .ra = s.regs .ra := hkept .ra (by decide) (by decide)
    rw [← hra]
    rfl
  · simp only [List.mem_cons, List.not_mem_nil, or_false, not_or] at hr
    refine (hkept r hr.1 hr.2.1).trans ?_
    cases r <;> simp at hr ⊢

end wrapper

/-- Calling a wrapper refines calling its native function: the function is
entered once, as if called directly, and the caller then goes on with the
results in place. -/
theorem runWrapper_refines_direct_call (env : Env) (native : Machine → Machine) (s : Machine)
    (i : Word) (hindex : s.mem (s.pc + abiCallTemplateEnd) = i)
    (huser : field s s.mscratch .isSuper = 0)
    (hlo : 0 ≤ i.toInt) (hhi : i < field s s.mscratch .uAbiSize)
    (hstack : StackApart env s.mscratch (field s s.mscratch (.mReg .sp)))
    (hnative : ∀ b, NativeResult s.mscratch b (native b)) :
    ∃ b u, runWrapper env native s = some ([b], u) ∧ DirectCall env i s b ∧
      DirectReturn s (native b) u := by
  obtain ⟨hmem, -, hscratch⟩ := abiCallTemplate_rest s
  have hfield : ∀ f, field (s.execAt abiCallTemplate) (s.execAt abiCallTemplate).mscratch f =
      field s s.mscratch f := fun f => by
    rw [field, hmem, hscratch, field]
  have huser' : field (s.execAt abiCallTemplate) (s.execAt abiCallTemplate).mscratch .isSuper = 0 :=
    (hfield _).trans huser
  have hat := handlerEntry_spec env false (s.execAt abiCallTemplate) 8 (by simp [huser'])
  have hcall := trap_user huser' (rfl : _ = handlerEntry env (s.execAt abiCallTemplate) 8)
  generalize handlerEntry env (s.execAt abiCallTemplate) 8 = h at hat hcall
  obtain ⟨ha1, habi⟩ := wrapper_abiCall hat hindex hlo hhi
  rw [if_pos ⟨.inl rfl, habi⟩] at hcall
  have hsp : h.regs .sp = field s s.mscratch (.mReg .sp) := by
    rw [hat.sp, ← hat.mscratch, wrapper_fixed hat rfl]
  have hb := makeABICall_spec env h (by rwa [hat.mscratch, hscratch, hsp])
  obtain ⟨t, hret, hres, -⟩ := abiReturn_resumed hat (by rwa [hfield, hscratch])
    (hscratch ▸ hnative _)
  refine ⟨makeABICall env (abiCallSite env h), t.mret.jump .ra, ?_,
    wrapper_directCall hat ha1 hb, wrapper_directReturn hres⟩
  rw [runWrapper, trapWith, hcall]
  simp only [hret, Option.map_some, Option.bind_eq_bind, Option.bind_some, wrapper_pc hres,
    if_true]

/-- User code about to run the wrapper of function 1 of 4. -/
def wrapperStart : Machine where
  regs := fun _ => 7
  mem := fun a =>
    if a = 0x1000 + Field.uAbiSize.offset then 4
    else if a = 0x1000 + (Field.mReg .sp).offset then 0x8000
    else if a = 0x4000 + abiCallTemplateEnd then 1
    else 0
  pc := 0x4000
  priv := .user
  mstatus := 0
  mepc := 0
  mcause := 0
  mscratch := 0x1000

theorem runWrapper_refines_direct_call_start :
    ∃ b u, runWrapper Env.sample returnAtOnce wrapperStart = some ([b], u) ∧
      DirectCall Env.sample 1 wrapperStart b ∧ DirectReturn wrapperStart (returnAtOnce b) u :=
  have hsp : field wrapperStart 0x1000 (.mReg .sp) = 0x8000 := by decide +kernel
  runWrapper_refines_direct_call Env.sample returnAtOnce wrapperStart 1 (by decide +kernel)
    (by decide +kernel) (by decide) (by decide +kernel) (hsp ▸ stackApart_sample)
    (returnAtOnce_result _)

end BadgeElfloader.Kernel
