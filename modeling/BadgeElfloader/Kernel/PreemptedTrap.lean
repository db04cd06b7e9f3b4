import BadgeElfloader.Kernel.Preempted

/-!
Whole traps with interrupts, and their undisturbed twins.

A trap leaves the text that `Preempted` describes in two places: in
`trapHandler`, and in the body of a native function. Both are code that runs
with interrupts enabled (`WindowStep`). What the trap needs behind them is in
the words of the context that are no scratch words and in the frame of
`makeABICall`, and the status that an interrupt leaves in the scratch words is
as good as the one it overwrites.
-/

namespace BadgeElfloader.Kernel

open Riscv Transition Relation

/-- Compiled code that interrupts may come into, or an interrupt there. The code
writes neither to the context nor to the words in `stack`. -/
inductive WindowStep (isr : Forwarder) (ctx : Word) (stack : Set Word) (s u : Machine) : Prop
  | code (mscratch : u.mscratch = s.mscratch) (fields : ∀ f, field u ctx f = field s ctx f)
      (kept : ∀ a ∈ stack, u.mem a = s.mem a) : WindowStep isr ctx stack s u
  | interrupt (h : InterruptStep isr stack s u) : WindowStep isr ctx stack s u

/-- The frame of `makeABICall` is on the kernel stack. -/
def FrameOnStack (env : Env) (stack : Set Word) (sp : Word) : Prop :=
  ∀ k ∈ frameSlots, frameBase env sp + k ∈ stack

/-- The traps there are. Compiled code behind a call goes on only if its
registers are back. -/
inductive PreemptedTrap (env : Env) (isr : Forwarder) (ctx : Word) (stack : Set Word) :
    TrapRecord → Prop
  | handled {s h r t : Machine} {cause : Word} : cause = 8 ∨ cause = 11 →
      HandlerEntryRun env isr stack s cause h → ecallHandler env h = .ret r →
      CheckRestoreRun env isr stack r t → PreemptedTrap env isr ctx stack ⟨s, cause, h, none, t⟩
  | exception {s h r q t : Machine} {cause : Word} : ¬(cause = 8 ∨ cause = 11) →
      HandlerEntryRun env isr stack s cause h → field h h.mscratch .isSuper = 0 →
      ReflTransGen (WindowStep isr ctx stack) h r →
      r.regs .gp = h.regs .gp → r.regs .tp = h.regs .tp → r.regs .a0 = 1 →
      Preempted isr stack disableInterrupts r q → CheckRestoreRun env isr stack q t →
      PreemptedTrap env isr ctx stack ⟨s, cause, h, none, t⟩
  | called {s h b₀ c b n x t : Machine} {cause : Word} : cause = 8 ∨ cause = 11 →
      HandlerEntryRun env isr stack s cause h → ecallHandler env h = .call b₀ →
      Preempted isr stack makeABICallEntry (abiCallSite env h) c →
      b = (c.jump .ra).setReg .ra env.abiLink →
      ReflTransGen (WindowStep isr ctx stack) b n → Returns b n →
      Preempted isr stack makeABICallExit n x →
      x.regs .ra = (abiCallSite env h).regs .ra →
      (∀ r, r.calleeSaved → x.regs r = (abiCallSite env h).regs r) →
      CheckRestoreRun env isr stack
        (cppRet env h (x.store (h.mscratch + Field.isSuper.offset) 0) 0) t →
      PreemptedTrap env isr ctx stack ⟨s, cause, h, some b, t⟩

/-! ### Windows -/

/-- What code in a window and interrupts leave alone. -/
structure Kept (ctx : Word) (stack : Set Word) (s u : Machine) : Prop where
  mscratch : u.mscratch = s.mscratch
  fields : ∀ f, (∀ i, f ≠ .scratch i) → field u ctx f = field s ctx f
  clean : Clean ctx s → Clean ctx u
  stack : ∀ a ∈ stack, u.mem a = s.mem a

/-- Two machines that have the same registers, and differ in what interrupts
leave behind: scratch words, trap CSRs, and words that are not in `stack`. -/
structure Disturbed (ctx : Word) (stack : Set Word) (s u : Machine) : Prop where
  alike : ∃ hidden, Alike ctx hidden s u ∧ ∀ a ∈ stack, a ∉ hidden
  clean : Clean ctx s → Clean ctx u

section windows

variable {isr : Forwarder} {ctx : Word} {stack : Set Word} {is : List Instr} {s t u v : Machine}

theorem Kept.refl (ctx : Word) (stack : Set Word) (s : Machine) : Kept ctx stack s s :=
  ⟨rfl, fun _ _ => rfl, id, fun _ _ => rfl⟩

theorem Kept.trans (h : Kept ctx stack s t) (h' : Kept ctx stack t u) : Kept ctx stack s u where
  mscratch := h'.mscratch.trans h.mscratch
  fields f hf := (h'.fields f hf).trans (h.fields f hf)
  clean := h'.clean ∘ h.clean
  stack a ha := (h'.stack a ha).trans (h.stack a ha)

theorem InterruptStep.kept (h : InterruptStep isr stack s u) (hctx : s.mscratch = ctx) :
    Kept ctx stack s u := by
  subst hctx
  have hgo := h.goesOn
  exact ⟨hgo.mscratch, hgo.fields, h.clean, fun _ => h.stack_mem⟩

theorem WindowStep.kept (h : WindowStep isr ctx stack s u) (hctx : s.mscratch = ctx) :
    Kept ctx stack s u := by
  cases h with
  | code mscratch fields kept =>
      exact ⟨mscratch, fun f _ => fields f, fun hclean => hclean.congr (fields _), kept⟩
  | interrupt h => exact h.kept hctx

theorem windowRun_kept (h : ReflTransGen (WindowStep isr ctx stack) s u) (hctx : s.mscratch = ctx) :
    Kept ctx stack s u := by
  induction h with
  | refl => exact .refl ctx stack s
  | tail _ hstep ih => exact ih.trans (hstep.kept (ih.mscratch.trans hctx))

theorem Disturbed.refl (ctx : Word) (stack : Set Word) (s : Machine) : Disturbed ctx stack s s :=
  ⟨⟨∅, .self, fun _ _ => Set.notMem_empty _⟩, id⟩

theorem Disturbed.regs (h : Disturbed ctx stack s u) : u.regs = s.regs := by
  obtain ⟨hidden, halike, -⟩ := h.alike
  exact halike.regs

theorem Disturbed.mscratch (h : Disturbed ctx stack s u) : u.mscratch = s.mscratch := by
  obtain ⟨hidden, halike, -⟩ := h.alike
  exact halike.mscratch

theorem Disturbed.sameContext (h : Disturbed ctx stack s u) : SameContext ctx s u := by
  obtain ⟨hidden, halike, -⟩ := h.alike
  exact halike.sameContext

theorem GoesOn.alike (h : GoesOn ctx s u) : Alike ctx (touched ctx s u) s u := by
  refine ⟨h.regs, h.pc, h.priv, h.mscratch, h.status, fun a ha => ?_, fun a ha => ha.1⟩
  by_cases hout : OutsideCtx ctx a
  · by_contra hne
    exact ha.1 ⟨hout, hne⟩
  · simp only [OutsideCtx, not_forall, not_not] at hout
    obtain ⟨f, rfl⟩ := hout
    exact h.fields f fun i hi => ha.2 i (by rw [hi])

theorem Alike.trans {hidden hidden' : Set Word} (h : Alike ctx hidden s t)
    (h' : Alike ctx hidden' t u) : Alike ctx (hidden ∪ hidden') s u where
  regs := h'.regs.trans h.regs
  pc := h'.pc.trans h.pc
  priv := h'.priv.trans h.priv
  mscratch := h'.mscratch.trans h.mscratch
  status := h'.status.trans h.status
  mem a ha := (h'.mem a ⟨fun hmem => ha.1 (.inr hmem), ha.2⟩).trans
    (h.mem a ⟨fun hmem => ha.1 (.inl hmem), ha.2⟩)
  apart a ha := ha.elim (h.apart a) (h'.apart a)

theorem Disturbed.interrupted (h : Disturbed ctx stack s u) (hctx : s.mscratch = ctx)
    (hstep : InterruptStep isr stack u v) : Disturbed ctx stack s v := by
  have huctx : u.mscratch = ctx := h.mscratch.trans hctx
  obtain ⟨⟨hidden, halike, hstack⟩, hclean⟩ := h
  have hgo := hstep.goesOn
  rw [huctx] at hgo
  refine ⟨⟨_, halike.trans hgo.alike, fun a ha => ?_⟩, fun hs => ?_⟩
  · rintro (hold | ⟨-, hnew⟩)
    · exact hstack a ha hold
    · exact hnew (hstep.stack_mem ha)
  · exact huctx ▸ hstep.clean (huctx.symm ▸ hclean hs)

theorem Disturbed.mieSet (h : Disturbed ctx stack s u) : MieSet u ↔ MieSet s := by
  obtain ⟨hidden, halike, -⟩ := h.alike
  have hbit : ∀ w, keptStatus w &&& mieBit = w &&& mieBit := by
    intro w
    rw [keptStatus, BitVec.and_assoc]
    congr 1
  rw [MieSet, MieSet, ← hbit, halike.status, hbit]

theorem Disturbed.stack_mem (h : Disturbed ctx stack s u) (hout : ∀ a ∈ stack, OutsideCtx ctx a)
    {a : Word} (ha : a ∈ stack) : u.mem a = s.mem a := by
  obtain ⟨hidden, halike, hstack⟩ := h.alike
  exact halike.mem a ⟨hstack a ha, fun i => hout a ha _⟩

/-- An instruction that neither reads what the two machines differ in nor writes
the saved status. -/
theorem Disturbed.instr (h : Disturbed ctx stack s u) {i : Instr} (hi : blind i)
    (hs : field (i.exec s) ctx (.scratch 4) = field s ctx (.scratch 4))
    (hu : field (i.exec u) ctx (.scratch 4) = field u ctx (.scratch 4)) :
    Disturbed ctx stack (i.exec s) (i.exec u) := by
  obtain ⟨⟨hidden, halike, hstack⟩, hclean⟩ := h
  exact ⟨⟨hidden, halike.instr hi, hstack⟩, fun h => (hclean (h.congr hs.symm)).congr hu⟩

/-- The instructions that write to registers and CSRs only, and do not read what
two disturbed machines differ in. -/
def quiet : Instr → Bool
  | .sw .. | .lw .. | .csrr .. | .csrrw .. => false
  | .csrw c _ | .csrs c _ | .csrc c _ => c != .mscratch
  | _ => true

theorem quiet_blind {i : Instr} (hi : quiet i) : blind i := by
  cases i <;> simp_all [quiet, blind]

theorem quiet_mem {i : Instr} (hi : quiet i) (s : Machine) : (i.exec s).mem = s.mem := by
  cases i <;> simp_all [quiet, Instr.exec]

theorem quiet_mscratch {i : Instr} (hi : quiet i) (s : Machine) :
    (i.exec s).mscratch = s.mscratch := by
  cases i <;> simp_all [quiet, Instr.exec]

/-- Quiet code, with interrupts. -/
theorem Preempted.disturbed (h : Preempted isr stack is u t) (his : ∀ i ∈ is, quiet i)
    (hs : Disturbed ctx stack s u) (hctx : s.mscratch = ctx) :
    Disturbed ctx stack (s.exec is) t ∧ (s.exec is).mscratch = ctx := by
  refine h.simulates (R := fun s u => Disturbed ctx stack s u ∧ s.mscratch = ctx) ?_ ?_ ⟨hs, hctx⟩
  · rintro s u v ⟨hdist, hctx⟩ hstep
    exact ⟨hdist.interrupted hctx hstep, hctx⟩
  · rintro i hi s u ⟨hdist, hctx⟩
    have hi' := his i hi
    refine ⟨hdist.instr (quiet_blind hi') ?_ ?_, (quiet_mscratch hi' s).trans hctx⟩ <;>
      exact congrFun (quiet_mem hi' _) _

end windows

/-! ### The call of a native function -/

section call

variable {env : Env} {isr : Forwarder} {ctx : Word} {stack : Set Word} {h b₀ b c n n₀ x : Machine}

/-- Interrupts come into `makeABICall` behind its last instruction only. -/
theorem makeABICallEntry_disturbed (hs : ¬ MieSet h) (hctx : h.mscratch = ctx)
    (hrun : Preempted isr stack makeABICallEntry (abiCallSite env h) c) :
    Disturbed ctx stack ((abiCallSite env h).exec makeABICallEntry) c := by
  set init := pushFrame ++ rearrange.dropLast with hinit
  have hsplit : makeABICallEntry = init ++ [.csrs .mstatus .t0] := rfl
  have hkeeps : ∀ i ∈ init, keepsStatus i := by simp [hinit, pushFrame, rearrange, keepsStatus]
  rw [hsplit] at hrun ⊢
  obtain ⟨u, hu, hlast⟩ := interfered_append.mp hrun
  obtain rfl := Preempted.eq_exec hu hkeeps hs
  have hscratch : ((abiCallSite env h).exec init).mscratch = ctx := by
    rw [← hctx]
    simp [hinit, pushFrame, rearrange, Instr.exec, abiCallSite]
  rw [Machine.exec_append]
  exact (Preempted.disturbed hlast (by simp [quiet]) (.refl ctx stack _) hscratch).1

/-- The `jalr` of `makeABICall`. -/
theorem Disturbed.call (hd : Disturbed ctx stack b₀ b) (link : Word) :
    Disturbed ctx stack ((b₀.jump .ra).setReg .ra link) ((b.jump .ra).setReg .ra link) := by
  obtain ⟨⟨hidden, halike, hstack⟩, hclean⟩ := hd
  refine ⟨⟨hidden, ⟨?_, ?_, halike.priv, halike.mscratch, halike.status, halike.mem,
    halike.apart⟩, hstack⟩, fun h => (hclean (h.congr rfl)).congr rfl⟩
  · simp only [Machine.jump, Machine.setReg, halike.regs]
  · simp only [Machine.jump, Machine.setReg, halike.regs]

/-- What a native function does with interrupts it could have done without. -/
theorem exists_nativeResult (hd : Disturbed ctx stack b₀ b)
    (hout : ∀ a ∈ stack, OutsideCtx ctx a) (hctx : b₀.mscratch = ctx)
    (hframe : ∀ k ∈ frameSlots, b₀.regs .s1 + k ∈ stack)
    (hrun : ReflTransGen (WindowStep isr ctx stack) b n) (hret : Returns b n) :
    ∃ n₀, NativeResult ctx b₀ n₀ ∧ Disturbed ctx stack n₀ n := by
  have hkept := windowRun_kept hrun (hd.mscratch.trans hctx)
  obtain ⟨hidden, halike, -⟩ := hd.alike
  -- the scratch words of `n₀` are those that the function found
  set n₀ : Machine := { n with
    mem := fun a => if ∃ i, a = ctx + (Field.scratch i).offset then b₀.mem a else n.mem a } with hn₀
  have hscratch : ∀ i, field n₀ ctx (.scratch i) = field b₀ ctx (.scratch i) := fun i =>
    if_pos ⟨i, rfl⟩
  have hmem : ∀ a, (∀ i, a ≠ ctx + (Field.scratch i).offset) → n₀.mem a = n.mem a := fun a ha =>
    if_neg fun ⟨i, hi⟩ => ha i hi
  refine ⟨n₀, ⟨⟨⟨?pc, ?priv, ?saved⟩, ?ctxKept, ?frameKept⟩, ?mscratchKept⟩, ?disturbed⟩
  case pc =>
    rw [← halike.regs]
    exact hret.pc_eq
  case priv =>
    rw [← halike.priv]
    exact hret.priv_eq
  case saved =>
    rw [← halike.regs]
    exact hret.saved
  case ctxKept =>
    intro f
    by_cases hf : ∃ i, f = .scratch i
    · obtain ⟨i, rfl⟩ := hf
      exact hscratch i
    · have hf' : ∀ i, f ≠ .scratch i := fun i hi => hf ⟨i, hi⟩
      refine (hmem _ fun i hi => hf' i (Field.offset_injective
        ((BitVec.add_right_inj _).mp hi))).trans ?_
      exact (hkept.fields f hf').trans (halike.fields hf')
  case frameKept =>
    intro k hk
    have hk' := hframe k hk
    rw [hmem _ fun i => hout _ hk' _, hkept.stack _ hk', hd.stack_mem hout hk']
  case mscratchKept => exact hkept.mscratch.trans halike.mscratch
  case disturbed =>
    refine ⟨⟨∅, ⟨rfl, rfl, rfl, rfl, rfl, fun a ha => (hmem a ha.2).symm, fun _ h => h.elim⟩,
      fun a _ => Set.notMem_empty a⟩, fun hclean => hkept.clean (hd.clean ?_)⟩
    exact hclean.congr (hscratch 4).symm

theorem sw_scratch {s : Machine} {r base : Reg} {off : Word} {g : Field} (hctx : s.regs base = ctx)
    (hoff : off = g.offset) (hg : ∀ i, g ≠ .scratch i) (i : Fin 8) :
    field ((Instr.sw r off base).exec s) ctx (.scratch i) = field s ctx (.scratch i) := by
  rw [Instr.exec, hctx, hoff, field_store, if_neg (hg i).symm]

/-- On the way back, interrupts come until they are disabled. -/
theorem makeABICallExit_disturbed (hd : Disturbed ctx stack n₀ n)
    (hout : ∀ a ∈ stack, OutsideCtx ctx a) (hctx : n₀.mscratch = ctx) (hs4 : n₀.regs .s4 = ctx)
    (hframe : ∀ k ∈ frameSlots, n₀.regs .s1 + k ∈ stack)
    (hrun : Preempted isr stack makeABICallExit n x) :
    Disturbed ctx stack (n₀.exec makeABICallExit) x ∧ ¬ MieSet x := by
  obtain ⟨m, hm, hpop⟩ := interfered_append.mp hrun
  have hsplit : storeResult = storeResult.take 2 ++ storeResult.drop 2 := rfl
  rw [hsplit] at hm
  obtain ⟨u, hu, hm⟩ := interfered_append.mp hm
  have hstored : Disturbed ctx stack (n₀.exec (storeResult.take 2)) u ∧
      (n₀.exec (storeResult.take 2)).mscratch = ctx ∧
      (n₀.exec (storeResult.take 2)).regs .s4 = ctx := by
    refine hu.simulates
      (R := fun s u => Disturbed ctx stack s u ∧ s.mscratch = ctx ∧ s.regs .s4 = ctx) ?_ ?_
      ⟨hd, hctx, hs4⟩
    · rintro s u v ⟨hdist, hctx, hs4⟩ hstep
      exact ⟨hdist.interrupted hctx hstep, hctx, hs4⟩
    · rintro i hi s u ⟨hdist, hctx, hs4⟩
      have hs4' : u.regs .s4 = ctx := (congrFun hdist.regs .s4).trans hs4
      obtain ⟨r, rfl⟩ : ∃ r, i = .sw r (rs r) .s4 := by
        simp only [storeResult, List.take_succ_cons, List.take_zero, List.mem_cons,
          List.not_mem_nil, or_false] at hi
        exact hi.elim (fun h => ⟨_, h⟩) fun h => ⟨_, h⟩
      refine ⟨hdist.instr rfl ?_ ?_, hctx, hs4⟩
      · exact sw_scratch hs4 (rs_eq_uReg r) (by simp) 4
      · exact sw_scratch hs4' (rs_eq_uReg r) (by simp) 4
  have hrest := (Preempted.disturbed hm (by simp [storeResult, quiet]) hstored.1 hstored.2.1).1
  rw [← Machine.exec_append, List.take_append_drop] at hrest
  -- `csrc` has cleared the bit in both machines
  have hstill : ¬ MieSet m := by
    rw [hrest.mieSet, MieSet, not_not]
    simp only [storeResult, Machine.exec_cons, Machine.exec_nil, Instr.exec]
    simp [BitVec.and_assoc, mieBit]
  have hkeeps : ∀ i ∈ popFrame, keepsStatus i := by simp [popFrame, keepsStatus]
  obtain rfl := Preempted.eq_exec hpop hkeeps hstill
  refine ⟨?_, mieSet_exec hkeeps hstill⟩
  obtain ⟨⟨hidden, halike, hstack⟩, hclean⟩ := hrest
  rw [makeABICallExit, Machine.exec_append]
  refine ⟨⟨hidden, halike.popFrame fun k hk => ?_, hstack⟩, fun h => ?_⟩
  · have hslot : (n₀.exec storeResult).regs .sp + k ∈ stack := by
      rw [storeResult_regs]
      exact hframe k hk
    exact ⟨hstack _ hslot, fun i => hout _ hslot _⟩
  · have hmem : ∀ s : Machine, field (s.exec popFrame) ctx (.scratch 4) =
        field s ctx (.scratch 4) := fun s => congrFun (popFrame_mem s) _
    exact (hclean (h.congr (hmem _).symm)).congr (hmem _)

end call

/-! ### Twins -/

/-- The ends of two traps that agree on everything but the scratch words, the
trap CSRs and the memory outside of the context and of `stack`. -/
structure SameExit (ctx : Word) (stack : Set Word) (t₀ t : Machine) : Prop
    extends SameReturn t₀ t where
  mscratch : t.mscratch = t₀.mscratch
  fields : ∀ f, (∀ i, f ≠ .scratch i) → field t ctx f = field t₀ ctx f
  mpp : t.mstatus &&& mppMask = t₀.mstatus &&& mppMask
  stack : ∀ a ∈ stack, t.mem a = t₀.mem a

/-- Two traps out of the same state, of which the second has been interrupted
any number of times. -/
structure TwinTrap (isr : Forwarder) (ctx : Word) (stack : Set Word) (r₀ r : TrapRecord) :
    Prop where
  raised : r₀.raised = r.raised
  cause : r₀.cause = r.cause
  handler : Disturbed ctx stack r₀.handler r.handler
  body : Option.Rel (Disturbed ctx stack) r₀.body r.body
  exit : SameExit ctx stack r₀.final r.final
  result : ∀ b ∈ r.body, ∃ n, ReflTransGen (WindowStep isr ctx stack) b n ∧ Returns b n ∧
    r.final.regs .a0 = n.regs .a0 ∧ r.final.regs .a1 = n.regs .a1

section twins

variable {env : Env} {isr : Forwarder} {ctx : Word} {stack : Set Word} {cause : Word}
  {s u h r q t b₀ c b n x : Machine}

theorem checkRestore_sameExit (env : Env) (hout : ∀ a ∈ stack, OutsideCtx ctx a)
    (h : SameContext ctx s u) (hctx : s.mscratch = ctx) (hstack : ∀ a ∈ stack, u.mem a = s.mem a)
    (ha0 : s.regs .a0 = 0 ↔ u.regs .a0 = 0) :
    SameExit ctx stack (checkRestore env s) (checkRestore env u) := by
  have hsame := checkRestore_sameReturn env h hctx ha0
  have huctx : u.mscratch = ctx := h.mscratch.trans hctx
  obtain ⟨m, hm⟩ : ∃ m, s.regs .a0 = 0 ↔ m = false := ⟨s.regs .a0 != 0, by simp⟩
  have hs := checkRestore_restored env s m hm
  have hu := checkRestore_restored env u m (ha0.symm.trans hm)
  refine ⟨hsame, ?mscratch, fun f hf => ?fields, ?mpp, fun a ha => ?stack⟩
  case mscratch => rw [hu.mscratch, hs.mscratch, huctx, hctx]
  case fields =>
    by_cases hsuper : f = .isSuper
    · subst hsuper
      exact (huctx ▸ hu.isSuper).trans (hctx ▸ hs.isSuper).symm
    · exact (huctx ▸ hu.other f hf hsuper).trans
        ((h.fields f hf).trans (hctx ▸ hs.other f hf hsuper).symm)
  case mpp => rw [hu.mstatus, hs.mstatus, exitStatus_mpp, exitStatus_mpp]
  case stack =>
    have hout' := hout a ha
    exact (hu.outside a (huctx.symm ▸ hout')).trans
      ((hstack a ha).trans (hs.outside a (hctx.symm ▸ hout')).symm)

theorem SameExit.refl (ctx : Word) (stack : Set Word) (t : Machine) : SameExit ctx stack t t :=
  ⟨⟨rfl, rfl, rfl⟩, rfl, fun _ _ => rfl, rfl, fun _ _ => rfl⟩

theorem handlerEntry_clean (env : Env) (hctx : s.mscratch = ctx) (cause : Word) :
    Clean ctx (handlerEntry env s cause) := by
  subst hctx
  have hat := handlerEntry_spec env (field s s.mscratch .isSuper != 0) s cause (by simp)
  constructor
  rw [hat.status]
  exact takeTrap_mieBit s cause

theorem handlerEntry_mscratch (env : Env) (s : Machine) (cause : Word) :
    (handlerEntry env s cause).mscratch = s.mscratch :=
  (handlerEntry_spec env (field s s.mscratch .isSuper != 0) s cause (by simp)).mscratch

theorem HandlerEntryRun.disturbed (hrun : HandlerEntryRun env isr stack s cause h)
    (hctx : s.mscratch = ctx) : Disturbed ctx stack (handlerEntry env s cause) h := by
  have hentry := hrun.eq
  split at hentry
  · rw [hentry.1]
    exact .refl ctx stack _
  · obtain ⟨r, -, heq, hlast⟩ := hentry
    have hr : r.mscratch = ctx := by
      rw [← hctx, ← handlerEntry_mscratch env s cause, heq]
      simp [enableInterrupts, Instr.exec]
    rw [heq]
    exact (hlast.disturbed (by simp [enableInterrupts, quiet]) (.refl ctx stack r) hr).1

/-- A handler of a system call that returns has not written to `mstatus` or to
the scratch words. -/
theorem ecallHandler_ret (hret : ecallHandler env h = .ret r) :
    r.mstatus = h.mstatus ∧ r.mscratch = h.mscratch ∧
      field r h.mscratch (.scratch 4) = field h h.mscratch (.scratch 4) := by
  by_cases hsuper : field h h.mscratch .isSuper = 0
  · rw [ecallHandler_user env h hsuper] at hret
    split at hret
    · cases hret
    · obtain rfl := Handled.ret.inj hret
      exact ⟨rfl, rfl, rfl⟩
  · rw [ecallHandler_kernel env h hsuper] at hret
    split at hret
    · obtain rfl := Handled.ret.inj hret
      exact ⟨rfl, rfl, rfl⟩
    · split at hret
      · obtain rfl := Handled.ret.inj hret
        exact ⟨rfl, rfl, userenter_field h (.scratch 4)⟩
      · cases hret

/-- System calls that call no native function are atomic as a whole. -/
theorem handled_eq (hcause : cause = 8 ∨ cause = 11)
    (hentry : HandlerEntryRun env isr stack s cause h) (hret : ecallHandler env h = .ret r)
    (hexit : CheckRestoreRun env isr stack r t) : trap env s cause = .mret h t := by
  have hmasked := hentry.eq
  rw [if_pos hcause] at hmasked
  obtain ⟨rfl, hstill⟩ := hmasked
  obtain ⟨hstatus, hscratch, hfield⟩ := ecallHandler_ret hret
  have hclean : Clean r.mscratch r := by
    rw [hscratch]
    refine Clean.congr ?_ hfield
    rw [handlerEntry_mscratch]
    exact handlerEntry_clean env rfl cause
  rw [hexit.eq (by rwa [MieSet, hstatus]) hclean, trap_ecall env s hcause, hret]
  rfl

theorem exception_twin (hs : UserCtx env ctx s) (hout : ∀ a ∈ stack, OutsideCtx ctx a)
    (hcause : ¬(cause = 8 ∨ cause = 11))
    (hentry : HandlerEntryRun env isr stack s cause h)
    (hwindow : ReflTransGen (WindowStep isr ctx stack) h r) (hgp : r.regs .gp = h.regs .gp)
    (htp : r.regs .tp = h.regs .tp) (ha0 : r.regs .a0 = 1)
    (hdisable : Preempted isr stack disableInterrupts r q)
    (hexit : CheckRestoreRun env isr stack q t) :
    ∃ t₀, trap env s cause = .mret (handlerEntry env s cause) t₀ ∧ SameExit ctx stack t₀ t := by
  obtain ⟨h8, h11⟩ := not_or.mp hcause
  have hat := hs.atHandler cause
  have hsuper :
      field (handlerEntry env s cause) (handlerEntry env s cause).mscratch .isSuper = 0 := by
    rw [hat.mscratch, hat.isSuper_eq, hs.mscratch]
    exact hs.isSuper
  refine ⟨_, (trap_exception env s _ h8 h11 rfl).trans (if_pos hsuper), ?_⟩
  have hdist := hentry.disturbed hs.mscratch
  have hclean := hdist.clean (handlerEntry_clean env hs.mscratch cause)
  set e := handlerEntry env s cause
  have hectx : e.mscratch = ctx := hat.mscratch.trans hs.mscratch
  have hkept := windowRun_kept hwindow (hdist.mscratch.trans hectx)
  have hrctx : r.mscratch = ctx := hkept.mscratch.trans (hdist.mscratch.trans hectx)
  -- the call of `trapHandler`, from the machine that was not interrupted
  have hcall : SameContext ctx e r :=
    hdist.sameContext.trans ⟨hgp, htp, hkept.mscratch, hkept.fields⟩
  obtain ⟨hlast, hlastctx⟩ := hdisable.disturbed (by simp [disableInterrupts, quiet])
    (.refl ctx stack r) hrctx
  have hdisabled : SameContext ctx r (r.exec disableInterrupts) :=
    disableInterrupts_sameContext ctx 0 r
  have hqctx : q.mscratch = ctx := hlast.mscratch.trans hlastctx
  have hqa0 : q.regs .a0 = 1 := by
    rw [hlast.regs]
    exact (disableInterrupts_a0 0 r).trans ha0
  have hqstill : ¬ MieSet q := by
    rw [hlast.mieSet, MieSet, not_not]
    simp [disableInterrupts, Instr.exec, mieBit, BitVec.and_assoc]
  have hqclean : Clean q.mscratch q := by
    rw [hqctx]
    refine hlast.clean ?_
    have hmem : (r.exec disableInterrupts).mem = r.mem := by
      simp [disableInterrupts, Instr.exec]
    exact (hkept.clean hclean).congr (congrFun hmem _)
  rw [hexit.eq hqstill hqclean]
  have hquiet := (cppRet_sameContext env ctx 1 e e).trans (disableInterrupts_sameContext ctx 0 _)
  refine checkRestore_sameExit env hout
    (hquiet.symm.trans (hcall.trans (hdisabled.trans hlast.sameContext)))
    (hquiet.mscratch.trans hectx) (fun a ha => ?_) ?_
  · have hdisable : ∀ s : Machine, (s.exec disableInterrupts).mem = s.mem := fun s => by
      simp [disableInterrupts, Instr.exec]
    rw [hlast.stack_mem hout ha, hdisable, hdisable, hkept.stack a ha, hdist.stack_mem hout ha]
    rfl
  have hea0 : ((cppRet env e e 1).exec disableInterrupts).regs .a0 = 1 := disableInterrupts_a0 0 _
  rw [hqa0]
  exact iff_of_eq (congrArg (· = 0) hea0)

/-- A native function has been called with interrupts and `makeABICall` is about
to return in state `x`, which is where it would have come to with a function
that returns in state `n₀`. -/
structure CalledTwin (env : Env) (ctx : Word) (stack : Set Word) (s : Machine) (cause : Word)
    (h b n x n₀ : Machine) : Prop where
  atHandler : AtHandler env false cause s h
  call : trap env s cause = .call h (makeABICall env (abiCallSite env h))
  body : Disturbed ctx stack (makeABICall env (abiCallSite env h)) b
  result : NativeResult ctx (makeABICall env (abiCallSite env h)) n₀
  native : Disturbed ctx stack n₀ n
  exit : Disturbed ctx stack (n₀.exec makeABICallExit) x
  still : ¬ MieSet x
  clean : Clean ctx x
  site : x.regs .ra = (abiCallSite env h).regs .ra ∧
    ∀ r, r.calleeSaved → x.regs r = (abiCallSite env h).regs r

/-- The kernel stack on which the handler runs. -/
theorem UserCtx.handler_sp (hs : UserCtx env ctx s) (hat : AtHandler env false cause s h) :
    h.regs .sp = field s ctx (.mReg .sp) ∧ StackApart env h.mscratch (h.regs .sp) := by
  have hsp : h.regs .sp = field s ctx (.mReg .sp) := by
    rw [hat.sp, hat.fixed rfl (by simp), hs.mscratch]
  rw [hat.mscratch, hs.mscratch, hsp]
  exact ⟨rfl, hs.stack⟩

theorem exists_calledTwin (hs : UserCtx env ctx s) (hout : ∀ a ∈ stack, OutsideCtx ctx a)
    (hframe : FrameOnStack env stack (field s ctx (.mReg .sp)))
    (hcause : cause = 8 ∨ cause = 11) (hentry : HandlerEntryRun env isr stack s cause h)
    (hcall : ecallHandler env h = .call b₀)
    (hc : Preempted isr stack makeABICallEntry (abiCallSite env h) c)
    (hb : b = (c.jump .ra).setReg .ra env.abiLink)
    (hwindow : ReflTransGen (WindowStep isr ctx stack) b n) (hret : Returns b n)
    (hx : Preempted isr stack makeABICallExit n x) :
    ∃ n₀, CalledTwin env ctx stack s cause h b n x n₀ := by
  have hmasked := hentry.eq
  rw [if_pos hcause] at hmasked
  obtain ⟨rfl, hstill⟩ := hmasked
  have hat := hs.atHandler cause
  have hclean := handlerEntry_clean env hs.mscratch cause
  have htrap := trap_ecall env s hcause
  generalize handlerEntry env s cause = h at *
  have hctx : h.mscratch = ctx := hat.mscratch.trans hs.mscratch
  have hsuper : field h h.mscratch .isSuper = 0 := by
    rw [hat.mscratch, hat.isSuper_eq, hs.mscratch]
    exact hs.isSuper
  have hbody := ecallHandler_user env h hsuper
  rw [hcall] at hbody
  split at hbody
  case isFalse => cases hbody
  rw [hcall, Handled.call.inj hbody] at htrap
  obtain ⟨hsp, hstack⟩ := hs.handler_sp hat
  have hat₀ := makeABICall_spec env h hstack
  have hdist : Disturbed ctx stack (makeABICall env (abiCallSite env h)) b :=
    hb ▸ (makeABICallEntry_disturbed hstill hctx hc).call env.abiLink
  have hs1 : ∀ k ∈ frameSlots, (makeABICall env (abiCallSite env h)).regs .s1 + k ∈ stack := by
    rw [hat₀.s1, hsp]
    exact hframe
  obtain ⟨n₀, hn₀, hdist'⟩ :=
    exists_nativeResult hdist hout (hat₀.mscratch.trans hctx) hs1 hwindow hret
  have hn₀ctx : n₀.mscratch = ctx := hn₀.mscratchKept.trans (hat₀.mscratch.trans hctx)
  have hs4 : n₀.regs .s4 = ctx := (hn₀.saved .s4 rfl).trans (hat₀.s4.trans hctx)
  have hs1' : ∀ k ∈ frameSlots, n₀.regs .s1 + k ∈ stack := by
    rw [hn₀.saved .s1 rfl]
    exact hs1
  obtain ⟨hexit, hxstill⟩ := makeABICallExit_disturbed hdist' hout hn₀ctx hs4 hs1' hx
  refine ⟨n₀, hat, htrap, hdist, hn₀, hdist', hexit, hxstill, hexit.clean ?_, ?_⟩
  · have hfield : field (n₀.exec makeABICallExit) ctx (.scratch 4) = field h ctx (.scratch 4) := by
      rw [makeABICallExit, Machine.exec_append, field, popFrame_mem]
      refine (storeResult_field n₀ ctx hs4 _).trans ?_
      refine ((hn₀.ctxKept _).trans (hctx ▸ hat₀.fields _)).trans ?_
      simp
    exact hclean.congr hfield
  · rw [hexit.regs]
    exact makeABICallExit_regs hat₀ hstack (hctx ▸ hn₀.toNativeReturn)

theorem CalledTwin.exit_twin {n₀ : Machine} (hx : CalledTwin env ctx stack s cause h b n x n₀)
    (hs : UserCtx env ctx s) (hout : ∀ a ∈ stack, OutsideCtx ctx a)
    (hexit : CheckRestoreRun env isr stack
      (cppRet env h (x.store (h.mscratch + Field.isSuper.offset) 0) 0) t) :
    ∃ t₀, abiReturn env h n₀ = some t₀ ∧ Resumed cause s n₀ t₀.mret ∧ SameExit ctx stack t₀ t := by
  have hctx : h.mscratch = ctx := hx.atHandler.mscratch.trans hs.mscratch
  obtain ⟨t₀, ht₀, hres, -⟩ :=
    abiReturn_resumed hx.atHandler (hs.mscratch ▸ hs.stack) (hs.mscratch ▸ hx.result)
  refine ⟨t₀, ht₀, hres, ?_⟩
  simp only [abiReturn, Option.ite_none_right_eq_some, Option.some.injEq] at ht₀
  obtain ⟨-, rfl⟩ := ht₀
  have hn₀ctx : (n₀.exec makeABICallExit).mscratch = ctx := by
    have hbody := makeABICall_spec env h (hs.handler_sp hx.atHandler).2
    rw [(makeABICallExit_csrs n₀).1, hx.result.mscratchKept, hbody.mscratch, hctx]
  have hxctx : x.mscratch = ctx := hx.exit.mscratch.trans hn₀ctx
  have hclean :
      Clean x.mscratch (cppRet env h (x.store (h.mscratch + Field.isSuper.offset) 0) 0) := by
    rw [hxctx, hctx]
    have hstatus : field (x.store (ctx + Field.isSuper.offset) 0) ctx (.scratch 4) =
        field x ctx (.scratch 4) := by
      rw [field_store, if_neg (by simp)]
    exact hx.clean.congr hstatus
  rw [hexit.eq hx.still hclean]
  refine checkRestore_sameExit env hout ?context hn₀ctx (fun a ha => ?stack) (by simp [cppRet])
  case context =>
    exact (cppRet_sameContext env ctx 0 h _).symm.trans
      ((hx.exit.sameContext.store _ 0).trans (cppRet_sameContext env ctx 0 h _))
  case stack =>
    have hne : a ≠ h.mscratch + Field.isSuper.offset := hctx.symm ▸ hout a ha _
    simp only [cppRet, Machine.mem_store, if_neg hne]
    exact hx.exit.stack_mem hout ha

/-- Every trap out of user code has a twin without interrupts. -/
theorem PreemptedTrap.exists_twin {r : TrapRecord} (hs : UserCtx env ctx r.raised)
    (hout : ∀ a ∈ stack, OutsideCtx ctx a)
    (hframe : FrameOnStack env stack (field r.raised ctx (.mReg .sp)))
    (h : PreemptedTrap env isr ctx stack r) :
    ∃ r₀, Trap env ctx r₀ ∧ TwinTrap isr ctx stack r₀ r := by
  cases h with
  | handled hcause hentry hret hexit =>
      exact ⟨_, .handled (handled_eq hcause hentry hret hexit),
        ⟨rfl, rfl, .refl ctx stack _, .none, .refl ctx stack _, fun b hb => by cases hb⟩⟩
  | exception hcause hentry _ hwindow hgp htp ha0 hdisable hexit =>
      obtain ⟨t₀, htrap, hsame⟩ :=
        exception_twin hs hout hcause hentry hwindow hgp htp ha0 hdisable hexit
      exact ⟨_, .handled htrap,
        ⟨rfl, rfl, hentry.disturbed hs.mscratch, .none, hsame, fun b hb => by cases hb⟩⟩
  | @called s h b₀ c b n x t cause hcause hentry hcall hc hb hwindow hret hx hra hsaved hexit =>
      obtain ⟨n₀, htwin⟩ :=
        exists_calledTwin hs hout hframe hcause hentry hcall hc hb hwindow hret hx
      obtain ⟨t₀, ht₀, hres, hsame⟩ := htwin.exit_twin hs hout hexit
      refine ⟨_, .called htwin.call htwin.result ht₀,
        ⟨rfl, rfl, .refl ctx stack _, .some htwin.body, hsame, fun b' hb' => ?_⟩⟩
      obtain rfl := Option.some.inj hb'
      refine ⟨n, hwindow, hret, ?_, ?_⟩
      · rw [htwin.native.regs, ← hres.a0]
        exact congrFun hsame.regs .a0
      · rw [htwin.native.regs, ← hres.a1]
        exact congrFun hsame.regs .a1

/-- A trap out of user code writes to `stack` where the frame is, and nowhere
else. -/
theorem PreemptedTrap.kept {r : TrapRecord} (hs : UserCtx env ctx r.raised)
    (hout : ∀ a ∈ stack, OutsideCtx ctx a)
    (hframe : FrameOnStack env stack (field r.raised ctx (.mReg .sp)))
    (h : PreemptedTrap env isr ctx stack r) {a : Word} (ha : a ∈ stack)
    (hnot : ∀ k ∈ frameSlots, a ≠ frameBase env (field r.raised ctx (.mReg .sp)) + k) :
    r.final.mem a = r.raised.mem a := by
  have hended : ∀ {r₀ : TrapRecord}, Trap env ctx r₀ → r₀.body = none → UserCtx env ctx r₀.raised →
      r₀.final.mem a = r₀.raised.mem a := by
    intro r₀ hr₀ hbody hs₀
    cases (hr₀.userTrap hs₀).2 with
    | resumed _ _ _ _ hb => cases hb.symm.trans hbody
    | ended _ _ hend _ => exact hend.outside a (hs₀.mscratch.symm ▸ hout a ha)
  cases h with
  | handled hcause hentry hret hexit =>
      exact hended (.handled (handled_eq hcause hentry hret hexit)) rfl hs
  | exception hcause hentry _ hwindow hgp htp ha0 hdisable hexit =>
      obtain ⟨t₀, htrap, hsame⟩ :=
        exception_twin hs hout hcause hentry hwindow hgp htp ha0 hdisable hexit
      exact (hsame.stack a ha).trans (hended (.handled htrap) rfl hs)
  | @called s h b₀ c b n x t cause hcause hentry hcall hc hb hwindow hret hx hra hsaved hexit =>
      obtain ⟨n₀, htwin⟩ :=
        exists_calledTwin hs hout hframe hcause hentry hcall hc hb hwindow hret hx
      obtain ⟨t₀, ht₀, hres, hsame⟩ := htwin.exit_twin hs hout hexit
      have hat := htwin.atHandler
      obtain ⟨hsp, hstack⟩ := hs.handler_sp hat
      have hbody := makeABICall_spec env h hstack
      have hbctx : b.mscratch = ctx :=
        htwin.body.mscratch.trans (hbody.mscratch.trans (hat.mscratch.trans hs.mscratch))
      have hout' : OutsideCtx s.mscratch a := hs.mscratch.symm ▸ hout a ha
      calc t.mem a = t₀.mem a := hsame.stack a ha
        _ = n₀.mem a := hres.outside a hout'
        _ = n.mem a := (htwin.native.stack_mem hout ha).symm
        _ = b.mem a := (windowRun_kept hwindow hbctx).stack a ha
        _ = (makeABICall env (abiCallSite env h)).mem a := htwin.body.stack_mem hout ha
        _ = h.mem a := hbody.outside a (hat.mscratch.symm ▸ hout') (hsp ▸ hnot)
        _ = s.mem a := hat.outside a hout'

/-- The system calls that enter user code have none of their own. -/
theorem PreemptedTrap.entry {r : TrapRecord} (hs : InKernel ctx r.raised) (hcause : r.cause = 11)
    (hcall : r.raised.regs .a0 = sysUserjump ∨ r.raised.regs .a0 = sysUserenter)
    (h : PreemptedTrap env isr ctx stack r) : Trap env ctx r := by
  have hsuper : field r.raised r.raised.mscratch .isSuper ≠ 0 := by
    rw [hs.mscratch, hs.isSuper]
    decide
  obtain ⟨t, htrap, -⟩ := trap_kernel env hsuper hcall
  cases h with
  | handled hcause' hentry hret hexit =>
      exact .handled (handled_eq hcause' hentry hret hexit)
  | exception hne => exact absurd (.inr hcause) hne
  | called hcause' hentry hcall' =>
      have hmasked := hentry.eq
      rw [if_pos hcause'] at hmasked
      simp only at hcause htrap
      rw [hcause] at hmasked
      rw [trap_ecall env _ (.inr rfl), ← hmasked.1, hcall'] at htrap
      cases htrap

end twins

/-- Interrupts make no difference to a trap. The system call that enters a
process is atomic, and every trap out of user code ends as one without
interrupts could have ended, native function included. Only the scratch words of
the ctx may differ. -/
theorem preempted_trap_has_twin (env : Env) (isr : Forwarder) (ctx : Word) (stack : Set Word)
    (hout : ∀ a ∈ stack, OutsideCtx ctx a) (r : TrapRecord)
    (h : PreemptedTrap env isr ctx stack r) :
    (InKernel ctx r.raised → r.cause = 11 →
        r.raised.regs .a0 = sysUserjump ∨ r.raised.regs .a0 = sysUserenter → Trap env ctx r) ∧
      (UserCtx env ctx r.raised → FrameOnStack env stack (field r.raised ctx (.mReg .sp)) →
        ∃ r₀, Trap env ctx r₀ ∧ TwinTrap isr ctx stack r₀ r) :=
  ⟨fun hs hcause hcall => h.entry hs hcause hcall, fun hs hframe => h.exists_twin hs hout hframe⟩

/-- The words of a frame, and nothing else. -/
def frameWords (env : Env) (sp : Word) : Set Word :=
  {a | ∃ k ∈ frameSlots, a = frameBase env sp + k}

theorem frameWords_frame (env : Env) (sp : Word) : FrameOnStack env (frameWords env sp) sp :=
  fun k hk => ⟨k, hk, rfl⟩

theorem frameWords_outside {env : Env} {ctx sp : Word} (h : StackApart env ctx sp) :
    ∀ a ∈ frameWords env sp, OutsideCtx ctx a := by
  rintro a ⟨k, hk, rfl⟩
  exact h k hk

/-- A tick that is taken anywhere. -/
theorem exists_tickStep {s : Machine} {stack : Set Word} (hctx : s.mscratch = 0x1000)
    (hmie : MieSet s) (hfar : (0x2000 : Word) ∉ stack) (hout : ∀ a ∈ stack, OutsideCtx 0x1000 a) :
    ∃ u, InterruptStep .sample stack s u ∧ GoesOn 0x1000 s u ∧
      u.mem 0x2000 = s.mem 0x2000 + 1 := by
  obtain ⟨u, hu, htouched, hcount⟩ := exists_tick hctx hmie 0x80000007
  refine ⟨u, .forwarded 0x80000007 (hctx ▸ hu) fun a ha => ?_, hu.goesOn, hcount⟩
  by_contra hne
  have hmem : a = 0x2000 := htouched ⟨hout a ha, hne⟩
  exact hfar (hmem ▸ ha)

/-- The handler of a trap that is no system call runs with interrupts enabled. -/
theorem handlerEntry_mieSet (env : Env) (s : Machine) {cause : Word}
    (hcause : ¬(cause = 8 ∨ cause = 11)) : MieSet (handlerEntry env s cause) := by
  obtain ⟨h8, h11⟩ := not_or.mp hcause
  have hset : ∀ w : Word, (w ||| 8) &&& mieBit ≠ 0 := by
    intro w hw
    rw [BitVec.and_or_distrib_right] at hw
    exact absurd (BitVec.or_eq_zero_iff.mp hw).2 (by decide)
  rw [handlerEntry, dispatch, if_neg h8, if_neg h11]
  simp only [Machine.exec_append]
  simp only [enableInterrupts, Machine.exec_cons, Machine.exec_nil, Instr.exec, MieSet]
  exact hset _

/-- A trap that was ticked into `u` where its handler starts, and went on from
there. -/
structure Ticked (env : Env) (stack : Set Word) (r : TrapRecord) (u : Machine) : Prop where
  taken : InterruptStep .sample stack r.handler u
  counted : u.mem 0x2000 = r.handler.mem 0x2000 + 1
  exit : CheckRestoreRun env .sample stack ((u.setReg .a0 1).exec disableInterrupts) r.final

/-- An illegal instruction, with a tick while it is reported. -/
theorem exists_preemptedTrap_sample {env : Env} {s : Machine} {stack : Set Word}
    (hs : UserCtx env 0x1000 s) (hfar : (0x2000 : Word) ∉ stack)
    (hout : ∀ a ∈ stack, OutsideCtx 0x1000 a) :
    ∃ r u, r.raised = s ∧ r.cause = 2 ∧ PreemptedTrap env .sample 0x1000 stack r ∧
      Ticked env stack r u := by
  have hat := hs.atHandler 2
  have hcause : ¬((2 : Word) = 8 ∨ (2 : Word) = 11) := by decide
  have hmie := handlerEntry_mieSet env s hcause
  have hentry := handlerEntryRun env .sample stack s 2
  generalize handlerEntry env s 2 = h at *
  have hctx : h.mscratch = 0x1000 := hat.mscratch.trans hs.mscratch
  have hsuper : field h h.mscratch .isSuper = 0 := by
    rw [hat.mscratch, hat.isSuper_eq, hs.mscratch]
    exact hs.isSuper
  obtain ⟨u, hu, hgo, hcount⟩ := exists_tickStep hctx hmie hfar hout
  have hwindow : ReflTransGen (WindowStep .sample 0x1000 stack) h (u.setReg .a0 1) :=
    .tail (.single (.interrupt hu)) (.code rfl (fun _ => rfl) fun _ _ => rfl)
  obtain ⟨t, ht⟩ : ∃ t, CheckRestoreRun env .sample stack
      ((u.setReg .a0 1).exec disableInterrupts) t := ⟨_, checkRestoreRun _ _ _ _⟩
  refine ⟨⟨s, 2, h, none, t⟩, u, rfl, rfl, ?trap, ⟨hu, hcount, ht⟩⟩
  case trap =>
    refine .exception hcause hentry hsuper hwindow ?_ ?_ (by simp) (.exec _ _ _ _) ht
    · simpa using congrFun hgo.regs .gp
    · simpa using congrFun hgo.regs .tp

theorem preempted_trap_has_twin_sample :
    ∃ r r₀ u, r.raised = userStart ∧ r.cause = 2 ∧ Ticked .sample (frameWords .sample 0) r u ∧
      Trap .sample 0x1000 r₀ ∧ TwinTrap .sample 0x1000 (frameWords .sample 0) r₀ r := by
  have hfar : ∀ k ∈ frameSlots, (0x2000 : Word) ≠ frameBase .sample 0 + k := by
    simp [frameSlots, frameBase, Env.sample]
  have hapart : StackApart .sample 0x1000 0 := by
    have hle : ∀ k ∈ frameSlots, 328 ≤ (frameBase Env.sample 0 + k - 0x1000).toNat := by
      simp [frameSlots, frameBase, Env.sample]
    exact fun k hk => outsideCtx_of_le (hle k hk)
  have hout := frameWords_outside hapart
  have hs : UserCtx .sample 0x1000 userStart := ⟨rfl, rfl, hapart⟩
  have hnot : (0x2000 : Word) ∉ frameWords .sample 0 := fun ⟨k, hk, h⟩ => hfar k hk h
  obtain ⟨r, u, hraised, hcause, hr, hticked⟩ := exists_preemptedTrap_sample hs hnot hout
  obtain ⟨-, hexists⟩ := preempted_trap_has_twin .sample .sample 0x1000 _ hout r hr
  obtain ⟨r₀, hr₀, htwin⟩ := hexists (hraised ▸ hs) (hraised ▸ frameWords_frame .sample 0)
  exact ⟨r, r₀, u, hraised, hcause, hticked, hr₀, htwin⟩

end BadgeElfloader.Kernel
