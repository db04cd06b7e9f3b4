import BadgeElfloader.Kernel.AbiWrapper
import BadgeElfloader.Kernel.PreemptedProcess

/-!
The user-mode wrapper of an ABI function, under interrupts.

Interrupts may come between any two instructions of a wrapper. They might as
well have come in front of it (`WrapperRun.exists_start`), and then the trap of
its ECALL, with the interrupts inside of that, is a direct call of the native
function still.
-/

namespace BadgeElfloader.Kernel

open Riscv Transition Relation

/-- One instruction of code whose position matters. -/
def execSized (s : Machine) (i : Word × Instr) : Machine := { i.2.exec s with pc := s.pc + i.1 }

/-- The wrapper from its first instruction to its `ecall`. -/
def WrapperRun (isr : Forwarder) (words : Set Word) : Machine → Machine → Prop :=
  Interfered execSized (InterruptStep isr words) abiCallTemplate

/-- A machine behind interrupts that have left `words` alone. -/
structure Carried (ctx : Word) (words : Set Word) (s u : Machine) : Prop
    extends SameOutcome ctx s u where
  words : ∀ a ∈ words, u.mem a = s.mem a

section wrapper

variable {env : Env} {isr : Forwarder} {ctx : Word} {words : Set Word} {s t u v : Machine}

theorem Carried.refl (ctx : Word) (words : Set Word) (s : Machine) : Carried ctx words s s :=
  ⟨⟨rfl, rfl, rfl, rfl, fun _ _ => rfl⟩, fun _ _ => rfl⟩

theorem Carried.interrupted (h : Carried ctx words s u) (hctx : s.mscratch = ctx)
    (hstep : InterruptStep isr words u v) : Carried ctx words s v := by
  have huctx : u.mscratch = ctx := h.mscratch.trans hctx
  have hnext := hstep.outcome huctx
  exact ⟨⟨hnext.regs.trans h.regs, hnext.pc.trans h.pc, hnext.priv.trans h.priv,
    hnext.mscratch.trans h.mscratch, fun f hf => (hnext.fields f hf).trans (h.fields f hf)⟩,
    fun a ha => ((hstep.kept huctx).stack a ha).trans (h.words a ha)⟩

theorem Carried.setReg (h : Carried ctx words s u) (r : Reg) {v w : Word} (hvw : w = v)
    (size : Word) :
    Carried ctx words { s.setReg r v with pc := s.pc + size }
      { u.setReg r w with pc := u.pc + size } := by
  refine ⟨⟨?_, ?_, h.priv, h.mscratch, h.fields⟩, h.words⟩
  · show (u.setReg r w).regs = (s.setReg r v).regs
    rw [hvw, Machine.setReg, Machine.setReg, h.regs]
  · show u.pc + size = s.pc + size
    rw [h.pc]

/-- The instructions that read registers and the program counter only. -/
theorem Carried.execSized (h : Carried ctx words s u) {i : Word × Instr}
    (hi : i ∈ abiCallTemplate.take 4) : Carried ctx words (execSized s i) (execSized u i) := by
  simp only [abiCallTemplate, List.take_succ_cons, List.take_zero, List.mem_cons,
    List.not_mem_nil, or_false] at hi
  obtain rfl | rfl | rfl | rfl := hi
  · exact h.setReg .t0 (congrFun h.regs .a0) 2
  · exact h.setReg .t1 (congrFun h.regs .a1) 2
  · exact h.setReg .a0 rfl 4
  · refine h.setReg .a1 ?_ 4
    rw [h.pc]

/-- The last instruction reads the index word. -/
theorem WrapperRun.carried (h : WrapperRun isr words s t) (hctx : s.mscratch = ctx)
    (hindex : s.pc + abiCallTemplateEnd ∈ words) :
    Carried ctx words (s.execAt abiCallTemplate) t := by
  have hsplit : abiCallTemplate = abiCallTemplate.take 4 ++ [(4, .lw .a1 16 .a1)] := rfl
  rw [WrapperRun, hsplit] at h
  obtain ⟨u, hu, hlast⟩ := interfered_append.mp h
  set p := s.execAt (abiCallTemplate.take 4) with hp
  have hstep : ∀ s u v : Machine, Carried ctx words s u ∧ s.mscratch = ctx →
      InterruptStep isr words u v → Carried ctx words s v ∧ s.mscratch = ctx := by
    rintro s u v ⟨hcarried, hctx⟩ hstep
    exact ⟨hcarried.interrupted hctx hstep, hctx⟩
  have hprefix : Carried ctx words p u ∧ p.mscratch = ctx := by
    refine hu.simulates (R := fun s u => Carried ctx words s u ∧ s.mscratch = ctx) hstep ?_
      ⟨.refl ctx words s, hctx⟩
    rintro i hi s u ⟨hcarried, hctx⟩
    refine ⟨hcarried.execSized hi, ?_⟩
    simp only [abiCallTemplate, List.take_succ_cons, List.take_zero, List.mem_cons,
      List.not_mem_nil, or_false] at hi
    obtain rfl | rfl | rfl | rfl := hi <;> exact hctx
  have ha1 : p.regs .a1 + 16 = s.pc + abiCallTemplateEnd := by
    simp [hp, Machine.execAt, abiCallTemplate, abiCallTemplateEnd, Instr.exec, BitVec.add_assoc]
  cases hlast with
  | cons huv hrest =>
      obtain ⟨hv, -⟩ := disturbed_rel (R := fun s u => Carried ctx words s u ∧ s.mscratch = ctx)
        hstep huv hprefix
      cases hrest with
      | nil hend =>
          refine (disturbed_rel (R := fun s u => Carried ctx words s u ∧ s.mscratch = ctx)
            hstep hend ⟨?_, ?_⟩).1
          · refine hv.setReg .a1 ?_ 4
            rw [hv.regs]
            exact hv.words _ (ha1 ▸ hindex)
          · exact hprefix.2

theorem execAt_abiCallTemplate (s : Machine) :
    s.execAt abiCallTemplate =
      { s with regs := (s.execAt abiCallTemplate).regs, pc := s.pc + 16 } := by
  simp [Machine.execAt, abiCallTemplate, Instr.exec, Machine.setReg, BitVec.add_assoc]

/-- The interrupts might as well have come before the wrapper. -/
theorem WrapperRun.exists_start (h : WrapperRun isr words s t) (hctx : s.mscratch = ctx)
    (hindex : s.pc + abiCallTemplateEnd ∈ words) :
    ∃ s', Carried ctx words s s' ∧ t = s'.execAt abiCallTemplate := by
  have hcarried := h.carried hctx hindex
  have hend := execAt_abiCallTemplate s
  generalize hs : s.execAt abiCallTemplate = e at *
  have hmem : e.mem = s.mem := by rw [hend]
  refine ⟨{ t with regs := s.regs, pc := s.pc }, ⟨⟨rfl, rfl, ?_, ?_, fun f hf => ?_⟩,
    fun a ha => ?_⟩, ?_⟩
  · rw [hcarried.priv, hend]
  · rw [hcarried.mscratch, hend]
  · exact (hcarried.fields f hf).trans (congrFun hmem _)
  · exact (hcarried.words a ha).trans (congrFun hmem a)
  · rw [execAt_abiCallTemplate]
    refine Machine.ext ?_ rfl ?_ rfl rfl rfl rfl rfl
    · have hword : t.mem (s.pc + abiCallTemplateEnd) = s.mem (s.pc + abiCallTemplateEnd) :=
        (hcarried.words _ hindex).trans (congrFun hmem _)
      funext r
      rw [hcarried.regs, ← hs, abiCallTemplate_regs, abiCallTemplate_regs]
      dsimp only
      rw [hword]
    · rw [hcarried.pc, hend]

/-- The call of native function `i`, entered in state `b` and left in state `n`,
out of state `s`, with user code going on in state `u`. -/
structure DirectlyCalled (env : Env) (isr : Forwarder) (ctx : Word) (words : Set Word) (i : Word)
    (s b n u : Machine) : Prop where
  call : DirectCall env i s b
  native : ReflTransGen (WindowStep isr ctx words) b n
  returns : Returns b n
  back : u.pc = s.pc + abiCallTemplateRet
  result : DirectReturn s n (u.jump .ra)

theorem Carried.directCall {i : Word} {b b' : Machine} (h : Carried ctx words s u)
    (hctx : s.mscratch = ctx) (hcall : DirectCall env i u b) (hregs : b'.regs = b.regs)
    (hpc : b'.pc = b.pc) : DirectCall env i s b' := by
  have htable : field s s.mscratch .uAbiTable = field u u.mscratch .uAbiTable := by
    rw [h.mscratch, hctx, h.fields _ (by simp)]
  refine ⟨?_, fun r hr => ?_, ?_⟩
  · rw [hpc, hcall.pc, htable]
  · rw [hregs, hcall.args r hr, h.regs]
  · rw [hregs, hcall.sp, h.regs]

/-- The ECALL of a wrapper calls the function of the index word. -/
theorem WrapperRun.directlyCalled {r : TrapRecord} {i : Word} (hs : InUserOn env ctx words s)
    (hout : ∀ a ∈ words, OutsideCtx ctx a) (hrun : WrapperRun isr words s r.raised)
    (hcause : r.cause = 8) (hr : PreemptedTrap env isr ctx words r)
    (hwords : s.pc + abiCallTemplateEnd ∈ words) (hindex : s.mem (s.pc + abiCallTemplateEnd) = i)
    (hlo : 0 ≤ i.toInt) (hhi : i < field s ctx .uAbiSize) :
    ∃ b n, r.body = some b ∧ DirectlyCalled env isr ctx words i s b n r.final.mret := by
  obtain ⟨s', hcarried, hraised⟩ := hrun.exists_start hs.mscratch hwords
  have hs' : InUserOn env ctx words s' := hcarried.inUserOn hs
  obtain ⟨hmem, -, hscratch⟩ := abiCallTemplate_rest s'
  have hfield : ∀ f, field r.raised ctx f = field s' ctx f := by
    intro f
    rw [hraised, field, hmem, field]
  have hin : UserCtx env ctx r.raised := by
    refine ⟨?_, (hfield _).trans hs'.isSuper, ?_⟩
    · rw [hraised, hscratch, hs'.mscratch]
    · rw [hfield]
      exact hs'.stack
  obtain ⟨r₀, hr₀, htwin⟩ := hr.exists_twin hin hout (hfield (.mReg .sp) ▸ hs'.frame)
  obtain ⟨hentry, huser⟩ := hr₀.userTrap (htwin.raised ▸ hin)
  have hat : AtHandler env false 8 (s'.execAt abiCallTemplate) r₀.handler := by
    rw [hentry, htwin.raised, htwin.cause, hcause, ← hraised]
    exact hin.atHandler 8
  have hhi' : i < field s' s'.mscratch .uAbiSize := by
    rw [hs'.mscratch, hcarried.fields _ (by simp)]
    exact hhi
  have hindex' : s'.mem (s'.pc + abiCallTemplateEnd) = i := by
    rw [hcarried.pc, hcarried.words _ hwords, hindex]
  obtain ⟨ha1, habi⟩ := wrapper_abiCall hat hindex' hlo hhi'
  cases huser with
  | ended hnot _ _ _ => exact absurd ⟨.inl (htwin.cause.trans hcause), habi⟩ hnot
  | resumed n₀ b₀ _ _ hb₀ hbody _ hres _ =>
      obtain ⟨b, hb⟩ := Option.isSome_iff_exists.mp (htwin.body_isSome.trans (by rw [hb₀]; rfl))
      obtain ⟨n, hwindow, hret, ha0, ha1'⟩ := htwin.result b hb
      have hdist : Disturbed ctx words b₀ b := by
        have hrel := htwin.body
        rw [hb₀, hb] at hrel
        cases hrel with
        | some h => exact h
      rw [htwin.raised, htwin.cause, hcause, hraised] at hres
      have hback := wrapper_pc hres
      have hdirect := wrapper_directReturn hres
      have hexit := htwin.exit.outcome
      have hregs : ∀ q, (r.final.mret.jump .ra).regs q = (r₀.final.mret.jump .ra).regs q :=
        fun q => congrFun hexit.regs q
      refine ⟨b, n, hb, ⟨?call, hwindow, hret, ?back, ?result⟩⟩
      case call =>
        obtain ⟨hidden, halike, -⟩ := hdist.alike
        exact hcarried.directCall hs.mscratch (wrapper_directCall hat ha1 hbody) hdist.regs
          halike.pc
      case back => rw [hexit.pc, hback, hcarried.pc]
      case result =>
        refine ⟨hexit.priv.trans hdirect.priv, ?_, ha0, ha1', fun q hq => ?_, ?_, ?_⟩
        · rw [← hcarried.regs, ← hdirect.pc]
          show r.final.mret.regs .ra &&& ~~~ 1 = r₀.final.mret.regs .ra &&& ~~~ 1
          rw [hexit.regs]
        · rw [hregs, hdirect.kept q hq, hcarried.regs]
        · rw [hregs, hdirect.t0, hcarried.regs]
        · rw [hregs, hdirect.t1, hcarried.regs]

/-- A call of a native function takes place. -/
theorem InUserOn.exists_call (isr : Forwarder) (hs : InUserOn env ctx words s)
    (hout : ∀ a ∈ words, OutsideCtx ctx a) (hcall : AbiCall (handlerEntry env s 8)) :
    ∃ r, r.raised = s ∧ r.cause = 8 ∧ PreemptedTrap env isr ctx words r := by
  have hat := hs.atHandler 8
  have hentry := handlerEntryRun env isr words s 8
  generalize handlerEntry env s 8 = h at *
  have hsuper : field h h.mscratch .isSuper = 0 := by
    rw [hat.mscratch, hat.isSuper_eq, hs.mscratch]
    exact hs.isSuper
  have hhandler := ecallHandler_user env h hsuper
  rw [if_pos hcall] at hhandler
  obtain ⟨b, hb⟩ : ∃ b, b = makeABICall env (abiCallSite env h) := ⟨_, rfl⟩
  rw [← hb] at hhandler
  have hwindow : ReflTransGen (WindowStep isr ctx words) b (returnAtOnce b) :=
    .single (.code rfl (fun _ => rfl) fun _ _ => rfl)
  have hret : Returns b (returnAtOnce b) := ⟨rfl, rfl, fun _ _ => rfl⟩
  have hcalled := Preempted.exec isr words makeABICallEntry (abiCallSite env h)
  have hexit := Preempted.exec isr words makeABICallExit (returnAtOnce b)
  obtain ⟨n₀, htwin⟩ := exists_calledTwin hs.toUserCtx hout hs.frame (.inl rfl) hentry hhandler
    hcalled hb hwindow hret hexit
  exact ⟨_, rfl, rfl, .called (.inl rfl) hentry hhandler hcalled hb hwindow hret hexit htwin.site.1
    htwin.site.2 (checkRestoreRun env isr words _)⟩

/-- A call through a wrapper does. -/
theorem InUserOn.exists_wrapperCall (isr : Forwarder) {i : Word} (hs : InUserOn env ctx words s)
    (hout : ∀ a ∈ words, OutsideCtx ctx a) (hindex : s.mem (s.pc + abiCallTemplateEnd) = i)
    (hlo : 0 ≤ i.toInt) (hhi : i < field s ctx .uAbiSize) :
    ∃ r, WrapperRun isr words s r.raised ∧ r.cause = 8 ∧ PreemptedTrap env isr ctx words r := by
  obtain ⟨hmem, -, hscratch⟩ := abiCallTemplate_rest s
  have hpriv : (s.execAt abiCallTemplate).priv = s.priv := by rw [execAt_abiCallTemplate]
  have hfield : ∀ f, field (s.execAt abiCallTemplate) ctx f = field s ctx f :=
    fun f => congrFun hmem _
  have hin : InUserOn env ctx words (s.execAt abiCallTemplate) := by
    refine ⟨⟨⟨hscratch.trans hs.mscratch, (hfield _).trans hs.isSuper, ?_⟩, hpriv.trans hs.priv⟩,
      ?_⟩
    · rw [hfield]
      exact hs.stack
    · rw [hfield]
      exact hs.frame
  have hhi' : i < field s s.mscratch .uAbiSize := hs.mscratch.symm ▸ hhi
  obtain ⟨-, habi⟩ := wrapper_abiCall (hin.atHandler 8) hindex hlo hhi'
  obtain ⟨r, hraised, hcause, hr⟩ := hin.exists_call isr hout habi
  exact ⟨r, hraised ▸ Interfered.foldl _ _ abiCallTemplate s, hcause, hr⟩

end wrapper

end BadgeElfloader.Kernel
