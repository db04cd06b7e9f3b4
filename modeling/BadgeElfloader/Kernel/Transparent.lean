import BadgeElfloader.Kernel.Interrupt
import BadgeElfloader.Kernel.Process
import BadgeElfloader.Transition.Run
import Mathlib.Data.Set.Basic
import Mathlib.Tactic.IntervalCases

/-!
Interrupts inside of a trap.

While a trap is handled, interrupts are enabled in two places: in `trapHandler`
and in the body of a native function. Each interrupt overwrites scratch words
of the context that trap entry has filled, and the trap CSRs. Neither matters
to the exit of the trap, which takes its registers and its program counter from
the rest of the context, and of the saved status only the fields that every
trap entry leaves the same.

`trapHandler` looks at `mcause`, so an interrupt can change what it prints. Its
exit is compared with the exit of the undisturbed trap without any assumption
on the path in between. The result of a native function matters. It is run
twice in lockstep, once with interrupts and once without, and the invariant is
that the two machines differ only where the function does not look.
-/

namespace BadgeElfloader.Kernel

open Riscv Transition

/-- An interrupt is taken in state `s`, in a process of the context `ctx`, and
the interrupted code goes on in state `u`. -/
inductive Interrupted (isr : Forwarder) (ctx : Word) : Machine → Word → Machine → Prop
  | intro {s f u : Machine} {cause : Word} (mie : MieSet s) (mscratch : s.mscratch = ctx)
      (forwarded : Forwarded ctx (interrupt isr s cause) f) (back : afterForward isr f = some u) :
      Interrupted isr ctx s cause u

theorem Interrupted.goesOn {isr : Forwarder} {ctx cause : Word} {s u : Machine}
    (h : Interrupted isr ctx s cause u) : GoesOn ctx s u := by
  obtain ⟨hmie, hctx, hf, hback⟩ := h
  obtain ⟨v, hv, hgo, -⟩ := hf.goesOn hctx hmie
  rw [hback, Option.some.injEq] at hv
  rwa [hv]

/-! ### The exit of a trap -/

/-- The `mret` instructions at the ends of two traps lead to the same
registers, program counter and mode. -/
structure SameReturn (t t' : Machine) : Prop where
  regs : t'.mret.regs = t.mret.regs
  pc : t'.mret.pc = t.mret.pc
  priv : t'.mret.priv = t.mret.priv

/-- What the exit of a trap depends on, apart from the result of the handler. -/
structure SameContext (ctx : Word) (s u : Machine) : Prop where
  gp : u.regs .gp = s.regs .gp
  tp : u.regs .tp = s.regs .tp
  mscratch : u.mscratch = s.mscratch
  fields : ∀ f, (∀ i, f ≠ .scratch i) → field u ctx f = field s ctx f

section exits

variable {isr : Forwarder} {ctx cause : Word} {s t u : Machine}

theorem SameContext.trans (h : SameContext ctx s t) (h' : SameContext ctx t u) :
    SameContext ctx s u where
  gp := h'.gp.trans h.gp
  tp := h'.tp.trans h.tp
  mscratch := h'.mscratch.trans h.mscratch
  fields f hf := (h'.fields f hf).trans (h.fields f hf)

theorem SameContext.symm (h : SameContext ctx s t) : SameContext ctx t s :=
  ⟨h.gp.symm, h.tp.symm, h.mscratch.symm, fun f hf => (h.fields f hf).symm⟩

theorem SameContext.store (h : SameContext ctx s t) (a v : Word) :
    SameContext ctx (s.store a v) (t.store a v) := by
  refine ⟨h.gp, h.tp, h.mscratch, fun f hf => ?_⟩
  have hf' := h.fields f hf
  simp only [field, Machine.mem_store] at hf' ⊢
  rw [hf']

theorem cppRet_sameContext (env : Env) (ctx v : Word) (h s : Machine) :
    SameContext ctx s (cppRet env h s v) := by
  refine ⟨?_, ?_, rfl, fun _ _ => rfl⟩ <;> simp [cppRet]

theorem disableInterrupts_sameContext (ctx : Word) (k : ℕ) (s : Machine) :
    SameContext ctx s (s.exec (disableInterrupts.drop k)) := by
  refine ⟨?gp, ?tp, ?mscratch, fun f _ => ?fields⟩
  all_goals obtain _ | _ | k := k <;> simp [disableInterrupts, Instr.exec]

theorem disableInterrupts_a0 (k : ℕ) (s : Machine) :
    (s.exec (disableInterrupts.drop k)).regs .a0 = s.regs .a0 := by
  obtain _ | _ | k := k <;> simp [disableInterrupts, Instr.exec]

theorem GoesOn.sameContext (h : GoesOn ctx s u) : SameContext ctx s u :=
  ⟨congrFun h.regs .gp, congrFun h.regs .tp, h.mscratch, h.fields⟩

theorem eq_gp_or_tp_of_not_saves {env : Env} {r : Reg} (h : env.saves r = false) :
    r = .gp ∨ r = .tp := by
  by_contra hne
  rw [not_or] at hne
  simp [Env.saves, hne] at h

/-- `.urestore` and `.mrestore` do not depend on the scratch words. -/
theorem checkRestore_sameReturn (env : Env) (h : SameContext ctx s u) (hctx : s.mscratch = ctx)
    (ha0 : s.regs .a0 = 0 ↔ u.regs .a0 = 0) :
    SameReturn (checkRestore env s) (checkRestore env u) := by
  subst hctx
  obtain ⟨m, hm⟩ : ∃ m, s.regs .a0 = 0 ↔ m = false := ⟨s.regs .a0 != 0, by simp⟩
  have ht := checkRestore_restored env s m hm
  have hu := checkRestore_restored env u m (ha0.symm.trans hm)
  have hfield : ∀ f, (∀ i, f ≠ .scratch i) → field u u.mscratch f = field s s.mscratch f :=
    fun f hf => by rw [h.mscratch]; exact h.fields f hf
  refine ⟨?regs, ?pc, ?priv⟩
  case regs =>
    funext r
    show (checkRestore env u).regs r = (checkRestore env s).regs r
    cases hr : env.saves r with
    | true => rw [hu.regs r hr, ht.regs r hr, hfield _ (by simp)]
    | false =>
        rw [hu.rest r hr, ht.rest r hr]
        obtain rfl | rfl := eq_gp_or_tp_of_not_saves hr
        · exact h.gp
        · exact h.tp
  case pc =>
    rw [hu.mret_pc, ht.mret_pc, hfield _ (by cases m <;> simp [pcField])]
  case priv => rw [hu.mret_priv, ht.mret_priv]

/-! ### Interrupts in `trapHandler` -/

/-- A step of the text between the two writes to `mstatus` around the call of
`trapHandler`, or an interrupt there. Of the code, only that it leaves the
context, `mscratch`, `gp` and `tp` alone. -/
inductive HandlerStep (isr : Forwarder) (ctx : Word) : Machine → Option Word → Machine → Prop
  | code {s u : Machine} (keeps : SameContext ctx s u) : HandlerStep isr ctx s none u
  | interrupt {s u : Machine} {cause : Word} (h : Interrupted isr ctx s cause u) :
      HandlerStep isr ctx s (some cause) u

theorem HandlerStep.sameContext {ev : Option Word} (h : HandlerStep isr ctx s ev u) :
    SameContext ctx s u := by
  cases h with
  | code keeps => exact keeps
  | interrupt h => exact h.goesOn.sameContext

theorem handlerRun_sameContext {evs : List (Option Word)} (h : Run (HandlerStep isr ctx) s evs u) :
    SameContext ctx s u :=
  h.invariant (P := SameContext ctx s) (fun _ _ _ hs hstep => hs.trans hstep.sameContext)
    ⟨rfl, rfl, rfl, fun _ _ => rfl⟩

/-- `trapHandler` returns 1 in state `r`, with any interrupts on the way and any
cause printed, `k` instructions in front of the end of the window. -/
theorem trapHandler_sameReturn (env : Env) {h r : Machine} {evs : List (Option Word)}
    (hctx : s.mscratch = ctx) (h8 : cause ≠ 8) (h11 : cause ≠ 11)
    (htrap : trap env s cause = .mret h t) (hrun : Run (HandlerStep isr ctx) h evs r)
    (ha0 : r.regs .a0 = 1) (k : ℕ) :
    SameReturn t (checkRestore env (r.exec (disableInterrupts.drop k))) := by
  have hentry := trap_exception env s _ h8 h11 rfl
  rw [htrap] at hentry
  split at hentry
  · simp only [Trapped.mret.injEq] at hentry
    obtain ⟨hh, rfl⟩ := hentry
    have hentered := (handlerEntry_spec env (field s s.mscratch .isSuper != 0) s cause
      (by simp)).mscratch
    rw [← hh] at hentered ⊢
    have hquiet := (cppRet_sameContext env ctx 1 h h).trans
      (disableInterrupts_sameContext ctx 0 _)
    have hdisturbed := (handlerRun_sameContext hrun).trans (disableInterrupts_sameContext ctx k r)
    refine checkRestore_sameReturn env (hquiet.symm.trans hdisturbed)
      (hquiet.mscratch.trans (hentered.trans hctx)) ?_
    have ha0' : ((cppRet env h h 1).exec disableInterrupts).regs .a0 = 1 :=
      disableInterrupts_a0 0 _
    rw [disableInterrupts_a0, ha0, ← ha0']
    rfl
  · cases hentry

end exits

/-! ### Interrupts in a native function -/

/-- A word that code may look at which uses neither the scratch words of the
context nor the words in `hidden`. -/
def Visible (ctx : Word) (hidden : Set Word) (a : Word) : Prop :=
  a ∉ hidden ∧ ∀ i, a ≠ ctx + (Field.scratch i).offset

/-- Two machines that differ only in the words that are not visible, in the
trap CSRs, and in the fields of `mstatus` that belong to the last trap. -/
structure Alike (ctx : Word) (hidden : Set Word) (s s' : Machine) : Prop where
  regs : s'.regs = s.regs
  pc : s'.pc = s.pc
  priv : s'.priv = s.priv
  mscratch : s'.mscratch = s.mscratch
  status : keptStatus s'.mstatus = keptStatus s.mstatus
  mem : ∀ a, Visible ctx hidden a → s'.mem a = s.mem a
  apart : ∀ a ∈ hidden, OutsideCtx ctx a

section alike

variable {isr : Forwarder} {ctx cause : Word} {hidden : Set Word} {s s' u : Machine}

theorem visible_field (hapart : ∀ a ∈ hidden, OutsideCtx ctx a)
    {f : Field} (hf : ∀ i, f ≠ .scratch i) : Visible ctx hidden (ctx + f.offset) :=
  ⟨fun h => hapart _ h f rfl,
    fun i h => hf i (Field.offset_injective ((BitVec.add_right_inj _).mp h))⟩

theorem Alike.fields (h : Alike ctx hidden s s') {f : Field} (hf : ∀ i, f ≠ .scratch i) :
    field s' ctx f = field s ctx f := h.mem _ (visible_field h.apart hf)

theorem Alike.sameContext (h : Alike ctx hidden s s') : SameContext ctx s s' :=
  ⟨congrFun h.regs .gp, congrFun h.regs .tp, h.mscratch, fun _ hf => h.fields hf⟩

theorem Alike.self : Alike ctx ∅ s s :=
  ⟨rfl, rfl, rfl, rfl, rfl, fun _ _ => rfl, fun _ h => h.elim⟩

/-- The words outside of the context that an interrupt has changed. -/
def touched (ctx : Word) (s u : Machine) : Set Word :=
  {a | OutsideCtx ctx a ∧ u.mem a ≠ s.mem a}

theorem Alike.interrupted (h : Alike ctx hidden s s') (hu : Interrupted isr ctx s' cause u) :
    Alike ctx (hidden ∪ touched ctx s' u) s u := by
  have hgo := hu.goesOn
  refine ⟨hgo.regs.trans h.regs, hgo.pc.trans h.pc, hgo.priv.trans h.priv,
    hgo.mscratch.trans h.mscratch, hgo.status.trans h.status, ?mem, ?apart⟩
  case mem =>
    intro a ha
    obtain ⟨hnot, hscratch⟩ := ha
    rw [Set.mem_union, not_or] at hnot
    rw [← h.mem a ⟨hnot.1, hscratch⟩]
    by_cases hout : OutsideCtx ctx a
    · by_contra hne
      exact hnot.2 ⟨hout, hne⟩
    · simp only [OutsideCtx, not_forall, not_not] at hout
      obtain ⟨f, rfl⟩ := hout
      exact hgo.fields f fun i hi => hscratch i (by rw [hi])
  case apart =>
    rintro a (ha | ha)
    · exact h.apart a ha
    · exact ha.1

theorem keptStatus_or (v w : Word) : keptStatus (v ||| w) = keptStatus v ||| keptStatus w :=
  BitVec.and_or_distrib_right

theorem keptStatus_and (v w : Word) : keptStatus (v &&& w) = keptStatus v &&& w := by
  rw [keptStatus, keptStatus, BitVec.and_assoc, BitVec.and_assoc, BitVec.and_comm w]

theorem Alike.setCsr (h : Alike ctx hidden s s') {c : Csr} {v v' : Word}
    (hstatus : c = .mstatus → keptStatus v' = keptStatus v) (hscratch : c = .mscratch → v' = v) :
    Alike ctx hidden (s.setCsr c v) (s'.setCsr c v') := by
  cases c with
  | mstatus => exact ⟨h.regs, h.pc, h.priv, h.mscratch, hstatus rfl, h.mem, h.apart⟩
  | mscratch => exact ⟨h.regs, h.pc, h.priv, hscratch rfl, h.status, h.mem, h.apart⟩
  | mepc | mcause => exact ⟨h.regs, h.pc, h.priv, h.mscratch, h.status, h.mem, h.apart⟩

/-- The instructions that read neither memory nor a CSR. -/
def blind : Instr → Bool
  | .lw .. | .csrr .. | .csrrw .. => false
  | _ => true

theorem Alike.instr (h : Alike ctx hidden s s') {i : Instr} (hi : blind i) :
    Alike ctx hidden (i.exec s) (i.exec s') := by
  cases i with
  | lw | csrr | csrrw => cases hi
  | mv | li | addi | and | or | auipc =>
      exact ⟨by simp [Instr.exec, Machine.setReg, h.regs, h.pc], h.pc, h.priv, h.mscratch,
        h.status, h.mem, h.apart⟩
  | sw =>
      refine ⟨h.regs, h.pc, h.priv, h.mscratch, h.status, fun a ha => ?_, h.apart⟩
      simp [Instr.exec, h.regs, h.mem a ha]
  | csrw c rs => exact h.setCsr (fun _ => by rw [h.regs]) fun _ => by rw [h.regs]
  | csrs c rs =>
      refine h.setCsr (fun hc => ?_) fun hc => ?_
      · subst hc
        simp only [Machine.csr_mstatus, keptStatus_or, h.status, h.regs]
      · subst hc
        simp only [Machine.csr_mscratch, h.mscratch, h.regs]
  | csrc c rs =>
      refine h.setCsr (fun hc => ?_) fun hc => ?_
      · subst hc
        simp only [Machine.csr_mstatus, keptStatus_and, h.status, h.regs]
      · subst hc
        simp only [Machine.csr_mscratch, h.mscratch, h.regs]

theorem Alike.exec (h : Alike ctx hidden s s') {is : List Instr} (his : ∀ i ∈ is, blind i) :
    Alike ctx hidden (s.exec is) (s'.exec is) := by
  induction is generalizing s s' with
  | nil => exact h
  | cons i is ih =>
      obtain ⟨hi, his⟩ := List.forall_mem_cons.mp his
      exact ih (h.instr hi) his

theorem Alike.popFrame (h : Alike ctx hidden s s')
    (hframe : ∀ k ∈ frameSlots, Visible ctx hidden (s.regs .sp + k)) :
    Alike ctx hidden (s.exec popFrame) (s'.exec popFrame) := by
  have hslot : ∀ k ∈ frameSlots, s'.mem (s'.regs .sp + k) = s.mem (s.regs .sp + k) := by
    intro k hk
    rw [h.regs]
    exact h.mem _ (hframe k hk)
  refine ⟨?regs, h.pc, h.priv, h.mscratch, h.status, ?mem, h.apart⟩
  case regs =>
    funext r
    rw [popFrame_regs, popFrame_regs]
    cases r with
    | s0 => exact hslot 16 (by decide)
    | s1 => exact hslot 12 (by decide)
    | s2 => exact hslot 8 (by decide)
    | s3 => exact hslot 4 (by decide)
    | s4 => exact hslot 0 (by decide)
    | sp => exact congrArg (· + 32) (congrFun h.regs .sp)
    | _ => exact congrFun h.regs _
  case mem =>
    intro a ha
    rw [popFrame_mem, popFrame_mem]
    exact h.mem a ha

/-- Code that does in all alike machines what it does in state `s`, and leaves
them alike. It may hide words, and it may make words visible by writing to
them. -/
def Oblivious (ctx : Word) (hidden hidden' : Set Word) (run : Machine → Machine) (s : Machine) :
    Prop :=
  ∀ s', Alike ctx hidden s s' → Alike ctx hidden' (run s) (run s')

/-- A native function runs twice, side by side. The words in `hidden` are those
in which the memories may differ. -/
structure Twin where
  hidden : Set Word
  quiet : Machine
  disturbed : Machine

inductive TwinStep (isr : Forwarder) (ctx : Word) : Twin → Option Word → Twin → Prop
  | code {hidden hidden' : Set Word} {s s' : Machine} (run : Machine → Machine)
      (h : Oblivious ctx hidden hidden' run s) :
      TwinStep isr ctx ⟨hidden, s, s'⟩ none ⟨hidden', run s, run s'⟩
  | interrupt {hidden : Set Word} {s s' u : Machine} {cause : Word}
      (h : Interrupted isr ctx s' cause u) :
      TwinStep isr ctx ⟨hidden, s, s'⟩ (some cause) ⟨hidden ∪ touched ctx s' u, s, u⟩

def Twin.Alike (ctx : Word) (w : Twin) : Prop := Kernel.Alike ctx w.hidden w.quiet w.disturbed

theorem TwinStep.alike {w w' : Twin} {ev : Option Word}
    (h : TwinStep isr ctx w ev w') (hw : w.Alike ctx) : w'.Alike ctx := by
  cases h with
  | code run h => exact h _ hw
  | interrupt h => exact hw.interrupted h

theorem twinRun_alike {w : Twin} {evs : List (Option Word)}
    (h : Run (TwinStep isr ctx) ⟨∅, s, s⟩ evs w) : w.Alike ctx :=
  h.invariant (P := Twin.Alike ctx) (fun _ _ _ hw hstep => hstep.alike hw) Alike.self

/-- `abiReturn` behind the first `k` instructions of the way back, which do not
disable interrupts yet. -/
def abiReturnFrom (env : Env) (h : Machine) (k : ℕ) (s : Machine) : Option Machine :=
  let s := s.exec (makeABICallExit.drop k)
  let site := abiCallSite env h
  if s.regs .ra = site.regs .ra ∧ ∀ r, r.calleeSaved → s.regs r = site.regs r then
    let s := s.store (h.mscratch + Field.isSuper.offset) 0
    some (checkRestore env (cppRet env h s 0))
  else none

theorem abiReturnFrom_exec (env : Env) (h s : Machine) (k : ℕ) :
    abiReturnFrom env h k (s.exec (makeABICallExit.take k)) = abiReturn env h s := by
  rw [abiReturnFrom, abiReturn, ← Machine.exec_append, List.take_append_drop]

theorem storeResult_blind {i : Instr} (hi : i ∈ storeResult) : blind i := by
  simp only [storeResult, List.mem_cons, List.not_mem_nil, or_false] at hi
  rcases hi with rfl | rfl | rfl | rfl | rfl | rfl | rfl | rfl <;> rfl

theorem drop_makeABICallExit {k : ℕ} (hk : k ≤ 3) :
    makeABICallExit.drop k = storeResult.drop k ++ popFrame :=
  List.drop_append_of_le_length (by simp only [storeResult, List.length_cons]; omega)

theorem drop_storeResult_sp {k : ℕ} (hk : k ≤ 3) (s : Machine) :
    (s.exec (storeResult.drop k)).regs .sp = s.regs .s1 := by
  interval_cases k <;> simp [storeResult, Instr.exec]

theorem abiReturnFrom_sameReturn (env : Env) {h n n' t : Machine} (hctx : h.mscratch = ctx)
    (halike : Alike ctx hidden n n') (hscratch : n.mscratch = ctx)
    (hframe : ∀ j ∈ frameSlots, Visible ctx hidden (n.regs .s1 + j)) {k : ℕ} (hk : k ≤ 3)
    (ht : abiReturnFrom env h k n = some t) :
    ∃ t', abiReturnFrom env h k n' = some t' ∧ SameReturn t t' := by
  subst hctx
  have hexit : Alike h.mscratch hidden (n.exec (makeABICallExit.drop k))
      (n'.exec (makeABICallExit.drop k)) := by
    rw [drop_makeABICallExit hk, Machine.exec_append, Machine.exec_append]
    refine (halike.exec fun i hi => storeResult_blind (List.mem_of_mem_drop hi)).popFrame ?_
    rw [drop_storeResult_sp hk]
    exact hframe
  have hcsr : (n.exec (makeABICallExit.drop k)).mscratch = h.mscratch := by
    rw [← hscratch]
    interval_cases k <;> simp [makeABICallExit, storeResult, popFrame, Instr.exec]
  simp only [abiReturnFrom] at ht ⊢
  simp only [hexit.regs]
  split at ht
  · rename_i hsite
    obtain rfl := Option.some.inj ht
    refine ⟨_, if_pos hsite, checkRestore_sameReturn env ?_ hcsr (by simp [cppRet])⟩
    exact (cppRet_sameContext env _ 0 h _).symm.trans
      ((hexit.sameContext.store _ 0).trans (cppRet_sameContext env _ 0 h _))
  · cases ht

end alike

/-! ### Transparency -/

/-- Interrupts are transparent to the code of a process and to the traps it is
in: to the code interrupted, to a trap that `trapHandler` handles, and to one
that calls a native function, in whichever places they are taken. In the last
part `h` is the state in which `ecallHandler` was entered and `s` any state
between the instruction that enables interrupts and the function's return. -/
theorem customISR_transparent (env : Env) (isr : Forwarder) (ctx : Word) :
    (∀ s cause f, s.mscratch = ctx → MieSet s → Forwarded ctx (interrupt isr s cause) f →
      ∃ u, afterForward isr f = some u ∧ u.pc = s.pc ∧ u.priv = s.priv ∧ u.regs = s.regs ∧
        MieSet u ∧ u.mscratch = s.mscratch) ∧
    (∀ s cause h t evs r k, s.mscratch = ctx → cause ≠ 8 → cause ≠ 11 →
      trap env s cause = .mret h t → Run (HandlerStep isr ctx) h evs r → r.regs .a0 = 1 →
      SameReturn t (checkRestore env (r.exec (disableInterrupts.drop k)))) ∧
    (∀ h s evs w k t, h.mscratch = ctx → Run (TwinStep isr ctx) ⟨∅, s, s⟩ evs w →
      w.quiet.mscratch = ctx →
      (∀ j ∈ frameSlots, Visible ctx w.hidden (w.quiet.regs .s1 + j)) → k ≤ 3 →
      abiReturnFrom env h k w.quiet = some t →
      ∃ t', abiReturnFrom env h k w.disturbed = some t' ∧ SameReturn t t') := by
  refine ⟨?returns, ?handler, ?native⟩
  case returns =>
    intro s cause f hctx hmie hf
    obtain ⟨u, hu, hgo, -⟩ := hf.goesOn hctx hmie
    exact ⟨u, hu, hgo.pc, hgo.priv, hgo.regs, hgo.mieSet, hgo.mscratch⟩
  case handler =>
    intro s cause h t evs r k hctx h8 h11 htrap hrun ha0
    exact trapHandler_sameReturn env hctx h8 h11 htrap hrun ha0 k
  case native =>
    intro h s evs w k t hctx hrun hscratch hframe hk ht
    exact abiReturnFrom_sameReturn env hctx (twinRun_alike hrun) hscratch hframe hk ht

/-- User code of a process that has just been entered. -/
def userStart : Machine := { kernelStart with priv := .user, mscratch := 0x1000 }

/-- A timer interrupt that counts a tick. -/
def tick (h : Machine) : Machine := h.store 0x2000 (h.mem 0x2000 + 1)

theorem tick_forwarded (h : Machine) : Forwarded 0x1000 h (tick h) :=
  ⟨rfl, rfl, rfl, rfl, rfl, fun g => field_store_outside (outsideCtx_of_le (by decide)) g⟩

theorem exists_tick {s : Machine} (hctx : s.mscratch = 0x1000) (hmie : MieSet s) (cause : Word) :
    ∃ u, Interrupted .sample 0x1000 s cause u ∧ touched 0x1000 s u ⊆ {0x2000} ∧
      u.mem 0x2000 = s.mem 0x2000 + 1 := by
  have hf := tick_forwarded (interrupt .sample s cause)
  obtain ⟨u, hu, -, hmem⟩ := hf.goesOn hctx hmie
  have hother : ∀ a, OutsideCtx 0x1000 a → (interrupt .sample s cause).mem a = s.mem a := by
    intro a ha
    refine (interrupt_atForward .sample s cause hmie).other a fun i => ?_
    rw [hctx]
    exact ha _
  refine ⟨u, .intro hmie hctx hf hu, fun a ha => ?_, ?_⟩
  · obtain ⟨hout, hne⟩ := ha
    by_contra hfar
    have hkept : u.mem a = (interrupt .sample s cause).mem a := by
      rw [hmem, tick, Machine.mem_store]
      exact if_neg hfar
    exact hne (hkept.trans (hother a hout))
  · rw [hmem, tick, Machine.mem_store, if_pos rfl, hother _ (outsideCtx_of_le (by decide))]

/-- `ecallHandler` is entered for the call of a native function. -/
def callStart : Machine := { kernelStart with mscratch := 0x1000 }

def callBody : Machine := makeABICall .sample (abiCallSite .sample callStart)

theorem returnAtOnce_oblivious {ctx : Word} {hidden : Set Word} (s : Machine) :
    Oblivious ctx hidden hidden returnAtOnce s := fun _ h =>
  ⟨h.regs, congrFun h.regs .ra, h.priv, h.mscratch, h.status, h.mem, h.apart⟩

/-- A tick in user code, in `trapHandler` and in a native function. -/
theorem customISR_transparent_sample :
    (∃ u, afterForward .sample (tick (interrupt .sample userStart 0x80000007)) = some u ∧
      u.pc = userStart.pc ∧ u.priv = .user ∧ u.regs = userStart.regs) ∧
    (∃ h t u, trap .sample userStart 2 = .mret h t ∧
      Interrupted .sample 0x1000 h 0x80000007 u ∧
      SameReturn t (checkRestore .sample ((u.setReg .a0 1).exec disableInterrupts))) ∧
    (∃ u t t', Interrupted .sample 0x1000 callBody 0x80000007 u ∧
      abiReturn .sample callStart (returnAtOnce callBody) = some t ∧
      abiReturn .sample callStart (returnAtOnce u) = some t' ∧ SameReturn t t') := by
  obtain ⟨hreturns, hhandler, hnative⟩ := customISR_transparent .sample .sample 0x1000
  refine ⟨?returns, ?handler, ?native⟩
  case returns =>
    obtain ⟨u, hu, hpc, hpriv, hregs, -⟩ :=
      hreturns userStart 0x80000007 _ rfl (by decide) (tick_forwarded _)
    exact ⟨u, hu, hpc, hpriv, hregs⟩
  case handler =>
    have hat := handlerEntry_spec .sample false userStart 2 (by decide)
    have htrap : trap .sample userStart 2 = _ :=
      trap_exception .sample userStart _ (by decide) (by decide) rfl
    rw [if_pos (by decide)] at htrap
    obtain ⟨u, hu, -⟩ := exists_tick (s := handlerEntry .sample userStart 2) hat.mscratch
      (by decide) 0x80000007
    refine ⟨_, _, u, htrap, hu, ?_⟩
    have hkeeps : SameContext 0x1000 u (u.setReg .a0 1) :=
      ⟨by simp, by simp, rfl, fun _ _ => rfl⟩
    exact hhandler userStart 2 _ _ _ _ 0 rfl (by decide) (by decide) htrap
      (.cons (.interrupt hu) (.single (.code hkeeps))) (by simp)
  case native =>
    have hb := makeABICall_spec .sample callStart stackApart_sample
    obtain ⟨_, t, ht, -⟩ := abiReturn_spec .sample callStart _ stackApart_sample
      (returnAtOnce_result 0x1000 callBody).toNativeReturn
    obtain ⟨u, hu, htouched, -⟩ := exists_tick (s := callBody) hb.mscratch (by decide) 0x80000007
    have hframe : ∀ j ∈ frameSlots, Visible 0x1000 (∅ ∪ touched 0x1000 callBody u)
        ((returnAtOnce callBody).regs .s1 + j) := by
      intro j hj
      have hslot : (returnAtOnce callBody).regs .s1 + j = frameBase .sample 0x8000 + j :=
        congrArg (· + j) hb.s1
      rw [hslot]
      have hfar : ∀ j ∈ frameSlots, frameBase .sample 0x8000 + j ≠ 0x2000 := by
        simp [frameSlots, frameBase, Env.sample]
      refine ⟨?_, fun i => stackApart_sample j hj _⟩
      rw [Set.empty_union]
      exact fun h => hfar j hj (htouched h)
    rw [← abiReturnFrom_exec .sample callStart (returnAtOnce callBody) 0] at ht ⊢
    obtain ⟨t', ht', hsame⟩ := hnative callStart callBody _
      ⟨_, returnAtOnce callBody, returnAtOnce u⟩ 0 t rfl
      (.cons (.interrupt hu) (.single (.code _ (returnAtOnce_oblivious _)))) hb.mscratch hframe
      (by decide) ht
    refine ⟨u, t, t', hu, ht, ?_, hsame⟩
    rw [← abiReturnFrom_exec .sample callStart (returnAtOnce u) 0]
    exact ht'

end BadgeElfloader.Kernel
