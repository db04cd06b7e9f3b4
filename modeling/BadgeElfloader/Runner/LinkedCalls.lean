import BadgeElfloader.Abi.Exports
import BadgeElfloader.Kernel.PreemptedWrapper
import BadgeElfloader.Runner.UserStack
import Mathlib.Data.Finset.Prod
import Mathlib.Data.Finset.Card
import Mathlib.Tactic.IntervalCases

/-!
A program that calls what it was linked against.

The loader takes the addresses of the wrappers from `exportSymbols`, and
`runUserCode` gives the table of `getAbiTable` to the trap path. Neither knows of
the other, and a call goes to the right function because both stand for one map.
Here the program runs from its entry on, with any calls through its symbols, any
other traps, and interrupts anywhere.
-/

namespace BadgeElfloader.Runner

open Riscv (Word Machine nth nth_inj)
open Kernel Abi Transition
open Loader (SymMap)

/-- The words of the wrappers. -/
def wrapperWords (e : Exports) : Set Word :=
  {a | ∃ i k, i < e.natives.length ∧ k < 7 ∧ a = nth (e.malloc i) k}

section count

/-- A wrapper takes 28 bytes, so that there is no index that is negative as an
`int`. -/
theorem natives_length_lt (e : Exports) (hmalloc : ∀ i < e.natives.length, e.malloc i ≠ 0) :
    e.natives.length < 2 ^ 31 := by
  set slots := Finset.range e.natives.length ×ˢ Finset.range 7 with hslots
  have hinj : Set.InjOn (fun p : ℕ × ℕ => (nth (e.malloc p.1) p.2).toNat) slots := by
    rintro ⟨i, k⟩ hp ⟨j, l⟩ hq heq
    simp only [hslots, Finset.coe_product, Set.mem_prod, Finset.coe_range, Set.mem_Iio] at hp hq
    have heq' : nth (e.malloc i) k = nth (e.malloc j) l := BitVec.eq_of_toNat_eq heq
    by_cases hij : i = j
    · subst hij
      rw [nth_inj (by omega) (by omega) heq']
    · have hapart := e.apart i j hij (hmalloc i hp.1) (hmalloc j hq.1)
      exact absurd heq' (hapart.nth_ne hp.2 hq.2)
  have hmaps : Set.MapsTo (fun p : ℕ × ℕ => (nth (e.malloc p.1) p.2).toNat) slots
      (Finset.range (2 ^ 32)) := fun p _ => by simpa using (nth (e.malloc p.1) p.2).isLt
  have hcard := Finset.card_le_card_of_injOn _ hmaps hinj
  rw [hslots, Finset.card_product, Finset.card_range, Finset.card_range, Finset.card_range] at hcard
  omega

theorem ofNat_toInt_nonneg {i : ℕ} (hi : i < 2 ^ 31) : 0 ≤ (BitVec.ofNat 32 i : Word).toInt := by
  have hnat : (BitVec.ofNat 32 i : Word).toNat = i := by
    rw [BitVec.toNat_ofNat]
    omega
  rw [BitVec.toInt_eq_toNat_of_lt (by omega)]
  omega

end count

/-! ### Runs of the program -/

/-- A call through the symbol `name`: the wrapper is entered in state `entered`,
and `trap` is the trap of its ECALL. -/
structure LinkedCall where
  name : String
  entered : Machine
  trap : TrapRecord

/-- One step of the program: its own code, which leaves the wrappers alone, an
interrupt, a trap, or a call through one of the `names` that `linked` has
addresses for. -/
inductive LinkedStep (env : Env) (isr : Forwarder) (ctx : Word) (words own : Set Word)
    (names : List String) (linked : SymMap) : Machine → Option LinkedCall → Machine → Prop
  | code {s u : Machine} : Step env ctx s none u → s.priv = .user →
      (∀ a ∈ own, u.mem a = s.mem a) → LinkedStep env isr ctx words own names linked s none u
  | interrupt {s u : Machine} : s.priv = .user → InterruptStep isr words s u →
      LinkedStep env isr ctx words own names linked s none u
  | trap {r : TrapRecord} : r.raised.priv = .user → PreemptedTrap env isr ctx words r →
      LinkedStep env isr ctx words own names linked r.raised none r.final.mret
  | call {c : LinkedCall} : c.entered.priv = .user → c.name ∈ names →
      linked c.name = some c.entered.pc → WrapperRun isr words c.entered c.trap.raised →
      c.trap.cause = 8 → PreemptedTrap env isr ctx words c.trap →
      LinkedStep env isr ctx words own names linked c.entered (some c) c.trap.final.mret

/-- What the calls of a program rely on. -/
structure Prepared (env : Env) (e : Exports) (table : Word) (linked : SymMap) (mem : Word → Word) :
    Prop where
  size : e.natives.length < 2 ^ 31
  published : ∀ name ∈ e.natives.map Prod.fst, ∀ w, linked name = some w →
    ∃ (i : ℕ) (hi : i < e.natives.length), e.natives[i].1 = name ∧ w = e.malloc i ∧
      mem (w + abiCallTemplateEnd) = BitVec.ofNat 32 i ∧
      ∀ k (hk : k < e.template.length), mem (nth w k) = e.template[k]
  table : ∀ (i : ℕ) (hi : i < e.natives.length),
    env.abiTable table (BitVec.ofNat 32 i) = e.natives[i].2

/-- Where things are in memory: `words` holds the frame that `makeABICall` puts
below `sp`, and the wrappers, and none of these overlap. -/
structure LinkedLayout (env : Env) (e : Exports) (ctx : Word) (words : Set Word) (sp : Word) :
    Prop where
  outside : ∀ a ∈ words, OutsideCtx ctx a
  frame : FrameOnStack env words sp
  wrappers : wrapperWords e ⊆ words
  apart : ∀ a ∈ wrapperWords e, ∀ k ∈ frameSlots, a ≠ frameBase env sp + k

/-- The invariant of the program. -/
structure LinkedInv (env : Env) (e : Exports) (table ctx sp : Word) (words : Set Word)
    (mem : Word → Word) (u : Machine) : Prop where
  outside : OutsideOn env ctx words u
  sp : field u ctx (.mReg .sp) = sp
  abiTable : field u ctx .uAbiTable = table
  abiSize : field u ctx .uAbiSize = BitVec.ofNat 32 e.natives.length
  wrappers : ∀ a ∈ wrapperWords e, u.mem a = mem a

/-- A call has found a wrapper and has entered function `i` of the table, which
is in range and the one with its name, as a direct call of it. -/
structure NativeCalled (env : Env) (isr : Forwarder) (e : Exports) (ctx : Word) (words : Set Word)
    (c : LinkedCall) (native i : Word) (b n : Machine) : Prop where
  code : ∀ k (hk : k < e.template.length),
    c.entered.mem (nth c.entered.pc k) = e.template[k]
  index : i.toNat < e.natives.length
  named : e.natives[i.toNat] = (c.name, native)
  body : c.trap.body = some b
  pc : b.pc = native &&& ~~~ 1
  direct : DirectlyCalled env isr ctx words i c.entered b n c.trap.final.mret

section steps

variable {env : Env} {isr : Forwarder} {e : Exports} {table ctx sp : Word} {words : Set Word}
  {linked : SymMap} {mem : Word → Word} {s u : Machine} {ev : Option LinkedCall}
  {evs : List (Option LinkedCall)}

/-- A step that keeps the fields that no trap writes, and the wrappers. -/
theorem LinkedInv.next (h : LinkedInv env e table ctx sp words mem s)
    (houtside : OutsideOn env ctx words u)
    (hfixed : ∀ f, f.fixed → field u ctx f = field s ctx f)
    (hmem : ∀ a ∈ wrapperWords e, u.mem a = s.mem a) :
    LinkedInv env e table ctx sp words mem u where
  outside := houtside
  sp := (hfixed _ rfl).trans h.sp
  abiTable := (hfixed _ rfl).trans h.abiTable
  abiSize := (hfixed _ rfl).trans h.abiSize
  wrappers a ha := (hmem a ha).trans (h.wrappers a ha)

theorem LinkedInv.inUser (h : LinkedInv env e table ctx sp words mem s) (hpriv : s.priv = .user) :
    InUserOn env ctx words s := by
  obtain hu | hk := h.outside
  · exact hu
  · cases hpriv.symm.trans hk.priv

theorem LinkedInv.trap (hlayout : LinkedLayout env e ctx words sp) {r : TrapRecord}
    (h : LinkedInv env e table ctx sp words mem r.raised) (hpriv : r.raised.priv = .user)
    (hr : PreemptedTrap env isr ctx words r) :
    LinkedInv env e table ctx sp words mem r.final.mret := by
  have hu := h.inUser hpriv
  have hnext := (PreemptedStep.outside hlayout.outside h.outside (.trap hpriv hr)).1
  obtain ⟨r₀, htwin, hr₀, -⟩ := hu.exists_twin hlayout.outside hr
  have hu₀ : InUser env ctx r₀.raised := htwin.raised ▸ hu.toInUser
  refine h.next hnext (fun f hf => ?_) fun a ha => ?_
  · refine (htwin.exit.fields f fun i => Field.fixed_ne hf rfl).trans ?_
    rw [← htwin.raised]
    cases (hr₀.userTrap hu₀.toUserCtx).2 with
    | resumed _ _ _ _ _ _ _ hres _ => exact hu₀.mscratch ▸ hres.fixed f hf
    | ended _ _ hend _ => exact hu₀.mscratch ▸ hend.fixed f hf
  · refine hr.kept hu.toUserCtx hlayout.outside hu.frame (hlayout.wrappers ha) ?_
    rw [h.sp]
    exact hlayout.apart a ha

/-- The trap of a call is raised behind the code of the wrapper. -/
theorem LinkedInv.wrapper (hlayout : LinkedLayout env e ctx words sp)
    (h : LinkedInv env e table ctx sp words mem s) (hpriv : s.priv = .user)
    (hindex : s.pc + abiCallTemplateEnd ∈ words) (hrun : WrapperRun isr words s u) :
    LinkedInv env e table ctx sp words mem u ∧ u.priv = .user := by
  have hu := h.inUser hpriv
  have hcarried := hrun.carried hu.mscratch hindex
  have hend := execAt_abiCallTemplate s
  generalize s.execAt abiCallTemplate = p at *
  have hmem : p.mem = s.mem := by rw [hend]
  have hfields : ∀ f, field p ctx f = field s ctx f := fun f => congrFun hmem _
  have hp : InUserOn env ctx words p := by
    refine ⟨⟨⟨?_, (hfields _).trans hu.isSuper, hfields (.mReg .sp) ▸ hu.stack⟩, ?_⟩,
      hfields (.mReg .sp) ▸ hu.frame⟩
    · rw [hend]
      exact hu.mscratch
    · rw [hend]
      exact hpriv
  have hout := hcarried.inUserOn hp
  refine ⟨h.next (.inl hout) (fun f hf => ?_) fun a ha => ?_, hout.priv⟩
  · exact (hcarried.fields f fun i => Field.fixed_ne hf rfl).trans (hfields f)
  · exact (hcarried.words a (hlayout.wrappers ha)).trans (congrFun hmem a)

/-- One step. A call finds the index word of its own function, and with it the
entry of the table that its name has in the map. -/
theorem LinkedStep.inv (hlayout : LinkedLayout env e ctx words sp)
    (hprep : Prepared env e table linked mem) (h : LinkedInv env e table ctx sp words mem s)
    (hstep : LinkedStep env isr ctx words (wrapperWords e) (e.natives.map Prod.fst) linked s ev u) :
    LinkedInv env e table ctx sp words mem u ∧
      ∀ c ∈ ev, ∃ native i b n, NativeCalled env isr e ctx words c native i b n := by
  cases hstep with
  | code hcode hpriv hkept =>
      have hstep : PreemptedStep env isr ctx words s none u := .code hcode
      refine ⟨h.next (hstep.outside hlayout.outside h.outside).1 (fun f _ => ?_) hkept,
        fun c hc => by cases hc⟩
      cases hcode with
      | user _ _ _ hfield => exact hfield f
      | kernel hpriv' _ _ _ => cases hpriv.symm.trans hpriv'
  | interrupt hpriv hint =>
      have hctx := (h.inUser hpriv).mscratch
      have hstep : PreemptedStep env isr ctx words s none u := .interrupt hint
      refine ⟨h.next (hstep.outside hlayout.outside h.outside).1 (fun f hf => ?_) fun a ha => ?_,
        fun c hc => by cases hc⟩
      · exact (hint.kept hctx).fields f fun i => Field.fixed_ne hf rfl
      · exact (hint.kept hctx).stack a (hlayout.wrappers ha)
  | trap hpriv hr => exact ⟨h.trap hlayout hpriv hr, fun c hc => by cases hc⟩
  | @call c hpriv hname hlinked hrun hcause hr =>
      obtain ⟨i, hi, hentry, hpc, hindex, hcode⟩ := hprep.published c.name hname _ hlinked
      have hwords : ∀ k < 7, nth c.entered.pc k ∈ wrapperWords e := fun k hk =>
        ⟨i, k, hi, hk, by rw [hpc]⟩
      have hword : c.entered.pc + abiCallTemplateEnd ∈ wrapperWords e := hwords 6 (by omega)
      have hu := h.inUser hpriv
      obtain ⟨hraised, huser⟩ := h.wrapper hlayout hpriv (hlayout.wrappers hword) hrun
      refine ⟨hraised.trap hlayout huser hr, fun q hq => ?_⟩
      obtain rfl := Option.some.inj hq
      have hsize := hprep.size
      have hlt : BitVec.ofNat 32 i < field c.entered ctx .uAbiSize := by
        rw [h.abiSize, BitVec.lt_def, BitVec.toNat_ofNat, BitVec.toNat_ofNat]
        omega
      obtain ⟨b, n, hb, hcall⟩ := hrun.directlyCalled hu hlayout.outside hcause hr
        (hlayout.wrappers hword) ((h.wrappers _ hword).trans hindex)
        (ofNat_toInt_nonneg (hi.trans hsize)) hlt
      have hnat : (BitVec.ofNat 32 i).toNat = i := by
        rw [BitVec.toNat_ofNat]
        omega
      refine ⟨e.natives[i].2, _, b, n, fun k hk => ?_, hnat.symm ▸ hi, ?_, hb, ?_, hcall⟩
      · rw [h.wrappers _ (hwords k (hk.trans (by rw [e.templateSize]; omega)))]
        exact hcode k hk
      · simp only [hnat, ← hentry]
      · rw [hcall.call.pc, hu.mscratch, h.abiTable, hprep.table i hi]

end steps

/-! ### Linking and entering -/

/-- `abi.cpp` behind some calls of its functions. -/
def exported (e : Exports) (mem : Word → Word) (calls : List ExportCall) : ExportState :=
  calls.foldl (ExportState.exec e) (.initial mem)

section entry

variable {env : Env} {isr : Forwarder} {e : Exports} {kctx entryFunc abiTable abiTableSize : Word}
  {actx : Context} {allocator : Allocator} {depth : ℕ} {words : Set Word} {s call : Machine}

theorem exported_settled (e : Exports) (mem : Word → Word) (calls : List ExportCall) :
    Settled e (exported e mem calls) := by
  induction calls using List.reverseRecOn with
  | nil => exact Settled.initial e mem
  | append_singleton calls c ih =>
      rw [exported, List.foldl_concat]
      exact ih.exec

/-- From the first call on, nothing changes. -/
theorem foldl_exec_ready {t : ExportState} (ht : Settled e t) (calls : List ExportCall) :
    calls.foldl (ExportState.exec e) (t.ready e) = t.ready e := by
  induction calls with
  | nil => rfl
  | cons c calls ih => rw [List.foldl_cons, exec_eq_ready, Wrapped.ready ht, ih]

theorem exported_linked (e : Exports) (mem : Word → Word) (before after : List ExportCall)
    (map : SymMap) :
    exported e mem (before ++ .exportSymbols map :: after) = (exported e mem before).ready e := by
  rw [exported, List.foldl_append, List.foldl_cons, exec_eq_ready]
  exact foldl_exec_ready (exported_settled e mem before) after

/-- The calls of a program that was linked in state `t` and got the table. -/
theorem prepared_of_settled {t : ExportState} (ht : Settled e t) (map : SymMap) {table : Word}
    (hmalloc : ∀ i < e.natives.length, e.malloc i ≠ 0)
    (htable : ∀ i w, (t.ready e).abiTable[i]? = some w →
      env.abiTable table (BitVec.ofNat 32 i) = w) :
    Prepared env e table (exportSymbols e map t).1 (t.ready e).mem where
  size := natives_length_lt e hmalloc
  published name hname w hw := by
    obtain ⟨⟨_, native⟩, hmem, rfl⟩ := List.mem_map.mp hname
    obtain ⟨i, hi, heq, rfl⟩ := Wrapped.lookup_inv ht map hmem hw
    refine ⟨i, hi, by rw [heq], rfl, BitVec.eq_of_toNat_eq ?_,
      fun k hk => Wrapped.code ht hi (hmalloc i hi) hk⟩
    rw [Wrapped.index ht hi (hmalloc i hi), BitVec.toNat_ofNat, Nat.mod_eq_of_lt (hi.trans e.size)]
  table i hi := by
    refine htable i _ ?_
    rw [Wrapped.abiTable ht, List.getElem?_map, List.getElem?_eq_getElem hi]
    rfl

/-- What `runUserCode` has set up when it makes its system call. -/
structure SetUp (kctx entryFunc abiTable abiTableSize : Word) (s call : Machine) : Prop
    extends InKernel kctx call where
  a0 : call.regs .a0 = sysUserjump
  sp : call.regs .sp = s.regs .sp
  abiTable : field call kctx .uAbiTable = abiTable
  abiSize : field call kctx .uAbiSize = abiTableSize
  uPc : field call kctx .uPc = entryFunc
  outside : ∀ a, OutsideCtx kctx a → call.mem a = s.mem a

theorem runUserCode_setUp (hs : s.priv = .machine)
    (hcall : (runUserCode s kctx entryFunc abiTable abiTableSize actx allocator depth).1 =
      .userjump call) : SetUp kctx entryFunc abiTable abiTableSize s call := by
  unfold runUserCode at hcall
  dsimp only at hcall
  split at hcall
  · cases hcall
  · have heq := (UserCode.userjump.inj hcall).symm
    have hclear : (clearURegs s kctx).regs = s.regs ∧ (clearURegs s kctx).priv = s.priv := by
      simp [clearURegs]
    refine ⟨⟨?_, ?_, ?_⟩, ?_, ?_, ?_, ?_, ?_, fun a ha => ?_⟩
    · simp [heq, setCtx, Riscv.Instr.exec, hclear.2, hs]
    · simp [heq, setCtx, Riscv.Instr.exec]
    · simp [heq, setCtx, Riscv.Instr.exec]
    · simp [heq, setCtx, Riscv.Instr.exec]
    · simp [heq, setCtx, Riscv.Instr.exec, hclear.1]
    · simp [heq, setCtx, Riscv.Instr.exec]
    · simp [heq, setCtx, Riscv.Instr.exec]
    · simp [heq, setCtx, Riscv.Instr.exec]
    · simp [heq, setCtx, Riscv.Instr.exec, clearURegs, ha _]

/-- The program is entered with the invariant in place. -/
theorem SetUp.linkedInv {table : Word} {mem : Word → Word} {r : TrapRecord}
    (h : SetUp kctx entryFunc table (BitVec.ofNat 32 e.natives.length) s r.raised)
    (hlayout : LinkedLayout env e kctx words (s.regs .sp))
    (hmem : ∀ a ∈ wrapperWords e, s.mem a = mem a) (hcause : r.cause = 11)
    (hr : PreemptedTrap env isr kctx words r) :
    LinkedInv env e table kctx (s.regs .sp) words mem r.final.mret ∧
      r.final.mret.priv = .user ∧ r.final.mret.pc = entryFunc := by
  have hk := h.toInKernel
  have hr₀ := hr.entry hk hcause (.inl h.a0)
  obtain ⟨-, hent, -⟩ := hk.trap_entered hr₀ hcause (.inl h.a0)
  have hctx := hk.mscratch
  have hframe : FrameOnStack env words (r.raised.regs .sp) := h.sp.symm ▸ hlayout.frame
  have hin := hk.entered (frameOnStack_apart hlayout.outside hframe) hent
  have hsp : field r.final.mret kctx (.mReg .sp) = s.regs .sp := by
    have hslot := hent.mReg .sp
    rw [hctx, if_pos (by simp [Env.saves]), h.sp] at hslot
    exact hslot
  have hfield : ∀ f, f.fixed → f ≠ .uZero → (∀ q, f ≠ .mReg q) →
      field r.final.mret kctx f = field r.raised kctx f := by
    intro f hf hzero hreg
    exact hctx ▸ hent.fixed f hf hzero hreg
  refine ⟨⟨.inl ⟨hin, hsp.symm ▸ hlayout.frame⟩, hsp, ?_, ?_, fun a ha => ?_⟩, hent.priv, ?_⟩
  · rw [hfield _ rfl (by simp) (by simp), h.abiTable]
  · rw [hfield _ rfl (by simp) (by simp), h.abiSize]
  · have hout := hlayout.outside a (hlayout.wrappers ha)
    rw [← hmem a ha, ← h.outside a hout]
    exact hent.outside a (hctx.symm ▸ hout)
  · rw [hent.pc, (hent.userjump h.a0).1, hctx, h.uPc]

end entry

/-- Whatever a program does between them, each call through a symbol that
`exportSymbols` gave it enters the native function of that name, as a direct
call would, and goes on behind the wrapper with the function's result. -/
theorem linked_calls_direct (env : Env) (isr : Forwarder) (e : Exports) (mem : Word → Word)
    (hmalloc : ∀ i < e.natives.length, e.malloc i ≠ 0)
    (before after : List ExportCall) (map : SymMap)
    (t : ExportState) (ht : t = exported e mem (before ++ .exportSymbols map :: after))
    (table : Word) (htable : ∀ i w, (getAbiTable e t).1[i]? = some w →
      env.abiTable table (BitVec.ofNat 32 i) = w)
    (s : Machine) (hs : s.priv = .machine) (kctx : Word) (words : Set Word)
    (hlayout : LinkedLayout env e kctx words (s.regs .sp))
    (hmem : ∀ a ∈ wrapperWords e, s.mem a = t.mem a)
    (entryFunc : Word) (actx : Context) (allocator : Allocator) (depth : ℕ) (r : TrapRecord)
    (hcall : (runUserCode s kctx entryFunc table (BitVec.ofNat 32 (getAbiTableSize e t).1) actx
      allocator depth).1 = .userjump r.raised)
    (hcause : r.cause = 11) (hr : PreemptedTrap env isr kctx words r)
    (evs : List (Option LinkedCall)) (u : Machine)
    (hrun : Run (LinkedStep env isr kctx words (wrapperWords e) (e.natives.map Prod.fst)
      (exportSymbols e map (exported e mem before)).1) r.final.mret evs u) :
    ∀ c, some c ∈ evs → ∃ native i b n, NativeCalled env isr e kctx words c native i b n := by
  have hsettled := exported_settled e mem before
  rw [exported_linked] at ht
  subst ht
  simp only [getAbiTable, Wrapped.ready hsettled] at htable
  have hprep := prepared_of_settled hsettled map hmalloc htable
  have hsize : (getAbiTableSize e ((exported e mem before).ready e)).1 = e.natives.length := by
    rw [getAbiTableSize, Wrapped.ready hsettled, Wrapped.abiTable hsettled, List.length_map]
  rw [hsize] at hcall
  obtain ⟨hinv, -⟩ := (runUserCode_setUp hs hcall).linkedInv hlayout hmem hcause hr
  have hall := hrun.forall_label (fun _ _ _ hinv hstep => hstep.inv hlayout hprep hinv) hinv
  exact fun c hc => hall.2 _ hc c rfl

/-- One function with a wrapper. -/
def oneWrapper : Exports :=
  { Exports.sample with
    malloc := fun i => if i = 0 then 0x3fc30000 else 0
    apart := by
      intro i j hij hi hj
      rw [Ne, ite_eq_right_iff, Classical.not_imp] at hi hj
      exact absurd (hi.1.trans hj.1.symm) hij }

theorem mem_oneWrapper {a : Word} (ha : a ∈ wrapperWords oneWrapper) :
    ∃ k < 7, a = nth 0x3fc30000 k := by
  obtain ⟨i, k, hi, hk, rfl⟩ := ha
  obtain rfl : i = 0 := by simpa [oneWrapper, Exports.sample] using hi
  exact ⟨k, hk, rfl⟩

theorem oneWrapper_malloc : ∀ i < oneWrapper.natives.length, oneWrapper.malloc i ≠ 0 := by
  intro i hi
  obtain rfl : i = 0 := by simpa [oneWrapper, Exports.sample] using hi
  decide

theorem oneWrapper_layout : LinkedLayout .sample oneWrapper 0x1000
    (sampleStack ∪ wrapperWords oneWrapper) 0x8000 := by
  have hfar : ∀ k < 7, 328 ≤ (nth 0x3fc30000 k - 0x1000).toNat := by decide
  have hapart : ∀ j < 7, ∀ k ∈ frameSlots, nth 0x3fc30000 j ≠ frameBase .sample 0x8000 + k := by
    intro j hj
    interval_cases j <;> simp [nth, frameSlots, frameBase, Env.sample]
  refine ⟨?_, fun k hk => .inl ⟨k, hk, rfl⟩, Set.subset_union_right, fun a ha => ?_⟩
  · rintro a (ha | ha)
    · exact sampleStack_outside a ha
    · obtain ⟨k, hk, rfl⟩ := mem_oneWrapper ha
      exact outsideCtx_of_le (hfar k hk)
  · obtain ⟨k, hk, rfl⟩ := mem_oneWrapper ha
    exact hapart k hk

/-- A program that consists of a call of `puts`. -/
theorem linked_calls_direct_sample : ∃ (c : LinkedCall) (b : Machine), c.name = "puts" ∧
    c.trap.body = some b ∧ b.pc = 0x42001000 := by
  have hlayout := oneWrapper_layout
  have hmalloc := oneWrapper_malloc
  generalize sampleStack ∪ wrapperWords oneWrapper = words at hlayout
  obtain ⟨t, ht⟩ : ∃ t, t = exported oneWrapper (fun _ => 0)
    ([] ++ [.exportSymbols fun _ => none]) := ⟨_, rfl⟩
  have hready := ht.trans (exported_linked oneWrapper (fun _ => 0) [] [] fun _ => none)
  have hsettled := exported_settled oneWrapper (fun _ => 0) []
  have htable : t.abiTable = [0x42001000] := by
    rw [hready, Wrapped.abiTable hsettled]
    rfl
  have htable' : ∀ i w, t.abiTable[i]? = some w →
      Env.sample.abiTable 0x3fc10000 (BitVec.ofNat 32 i) = w := by
    intro i w hw
    obtain ⟨hi, heq⟩ := List.getElem?_eq_some_iff.mp hw
    rw [htable] at hi
    obtain rfl : i = 0 := by simpa using hi
    simpa [htable, Env.sample] using heq
  have hprep : Prepared Env.sample oneWrapper 0x3fc10000 _ _ :=
    prepared_of_settled hsettled (fun _ => none) hmalloc (hready ▸ htable')
  have hanswer : getAbiTable oneWrapper t = (t.abiTable, t) := by
    rw [getAbiTable, hready, Wrapped.ready hsettled]
  have hlinked : (exportSymbols oneWrapper (fun _ => none) (exported oneWrapper (fun _ => 0) [])).1
      "puts" = some 0x3fc30000 := by
    have hlookup : ((exported oneWrapper (fun _ => 0) []).ready oneWrapper).cache.lookup "puts" =
        some 0x3fc30000 := Wrapped.lookup hsettled (i := 0) (by decide)
    show (_ <|> none) = _
    rw [hlookup]
    rfl
  set s : Machine := { kernelStart with mem := t.mem } with hs
  obtain ⟨call, hcall⟩ : ∃ call, (runUserCode s 0x1000 0x3fc30000 0x3fc10000 1 .empty
      (heapAt 0x3fc01000) 4096).1 = .userjump call := runUserCode_userjump (by decide)
  have hset := runUserCode_setUp rfl hcall
  obtain ⟨r, rfl, hcause, hr⟩ := hset.exists_preempted .sample .sample words (.inl hset.a0)
  obtain ⟨hinv, huser, hpc⟩ := hset.linkedInv (e := oneWrapper) hlayout (fun _ _ => rfl) hcause hr
  have hin := hinv.inUser huser
  have hindex : r.final.mret.mem (r.final.mret.pc + abiCallTemplateEnd) = 0 := by
    obtain ⟨i, hi, -, hw, hword, -⟩ := hprep.published "puts" (by decide) _ hlinked
    obtain rfl : i = 0 := by simpa [oneWrapper, Exports.sample] using hi
    rw [hpc, hinv.wrappers _ ⟨0, 6, hi, by omega, by rw [hw]; rfl⟩]
    show t.mem (0x3fc30000 + abiCallTemplateEnd) = 0
    rw [hready]
    exact hword
  obtain ⟨q, hwrapper, h8, hq⟩ := hin.exists_wrapperCall .sample hlayout.outside hindex (by decide)
    (by rw [hinv.abiSize]; decide)
  have hstep : LinkedStep .sample .sample 0x1000 words (wrapperWords oneWrapper) ["puts"]
      (exportSymbols oneWrapper (fun _ => none) (exported oneWrapper (fun _ => 0) [])).1
      r.final.mret (some ⟨"puts", r.final.mret, q⟩) q.final.mret :=
    .call (c := ⟨"puts", r.final.mret, q⟩) huser (.head _)
      (hlinked.trans (congrArg some hpc.symm)) hwrapper h8 hq
  have hsize : BitVec.ofNat 32 (getAbiTableSize oneWrapper t).1 = 1 := by
    rw [getAbiTableSize, hready, Wrapped.ready hsettled, ← hready, htable]
    rfl
  obtain ⟨native, i, b, n, hcalled⟩ := linked_calls_direct .sample .sample oneWrapper
    (fun _ => 0) hmalloc [] [] (fun _ => none) t ht 0x3fc10000 (hanswer ▸ htable') s rfl 0x1000
    words hlayout (fun _ _ => rfl) 0x3fc30000 .empty (heapAt 0x3fc01000) 4096 r
    (hsize ▸ hcall) hcause hr _ _ (.single hstep) _ (.head _)
  refine ⟨_, b, rfl, hcalled.body, ?_⟩
  obtain rfl : 0x42001000 = native := by simpa [oneWrapper, Exports.sample] using hcalled.named
  exact hcalled.pc

end BadgeElfloader.Runner
