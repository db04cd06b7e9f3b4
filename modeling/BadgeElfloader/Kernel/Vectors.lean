import BadgeElfloader.Kernel.Init
import BadgeElfloader.Kernel.PreemptedProcess
import BadgeElfloader.Riscv.Code

/-!
From the vector table to the trap path.

`trap` begins with the first instruction of `customTrap`. The hart does not: it
goes to an entry of the vector table, where `init` has put a jump to a copy of
`customTrap`, and runs the copy from memory. Nothing tells the copy where it
is. Below, the words that `init` leaves are decoded and run, from any state that
processes and interrupts lead to, as long as nobody overwrites them.
-/

namespace BadgeElfloader.Kernel

open Riscv Transition Relation

/-! ### The copy -/

/-- `customTrap` up to its `jr`, with the pair at its end as it is. `customISR` is
the same code. -/
def customTrapText (env : Env) : List Instr :=
  (customTrap env).dropLast ++ [.auipc .t1 0, .lw .t1 12 .t1]

def customTrapCode (env : Env) : List Code := (customTrapText env).map .straight ++ [.jr .t1]

/-- The words of `customTrap`: the code, and the address of `customTrap0`. -/
def Assembled (env : Env) (ws : List Word) : Prop :=
  ∃ text, assemble (customTrapCode env) = some text ∧ ws = text ++ [env.customTrap0]

/-- Memory holds the words `ws` from `a` on. -/
def InMemory (mem : Word → Word) (a : Word) (ws : List Word) : Prop :=
  ∀ k (hk : k < ws.length), mem (nth a k) = ws[k]

section copy

variable {env : Env} {ws : List Word} {s : Machine}

theorem Assembled.length (h : Assembled env ws) : ws.length = 10 := by
  obtain ⟨text, htext, rfl⟩ := h
  rw [List.length_append, (assemble_decode htext).length_eq]
  rfl

theorem Assembled.holds (h : Assembled env ws) {mem : Word → Word} {a : Word}
    (hmem : InMemory mem a ws) : Holds mem a (customTrapText env) ∧
      decode (mem (nth a 8)) = some (.jr .t1) ∧ mem (nth a 9) = env.customTrap0 := by
  obtain ⟨text, htext, rfl⟩ := h
  have hdecode := assemble_decode htext
  have hlen : text.length = 9 := hdecode.length_eq
  have hword : ∀ k (hk : k < 9), decode (mem (nth a k)) =
      some ((customTrapCode env).get ⟨k, hk⟩) := by
    intro k hk
    have hk' : k < text.length := hlen.symm ▸ hk
    rw [hmem k (by rw [List.length_append]; omega), List.getElem_append_left hk']
    exact hdecode.get hk' hk
  refine ⟨fun k hk => ?_, hword 8 (by decide), ?_⟩
  · have hk8 : k < 8 := hk
    rw [hword k (by omega)]
    have hmap : k < ((customTrapText env).map Code.straight).length := by simpa using hk
    exact congrArg some ((List.getElem_append_left hmap).trans (List.getElem_map _))
  · rw [hmem 9 (by simp [hlen]), List.getElem_append_right (by omega)]
    simp [hlen]

/-- The code writes to the scratch words only. -/
theorem customTrapText_leaves (env : Env) {words : Set Word}
    (hout : ∀ a ∈ words, OutsideCtx s.mscratch a) : Leaves words (customTrapText env) s := by
  have hne : ∀ a ∈ words, ∀ i, ¬ a = s.mscratch + (Field.scratch i).offset :=
    fun a ha i => hout a ha _
  simp only [customTrapText, customTrap, List.dropLast, List.cons_append, List.nil_append, Leaves,
    Instr.exec]
  simp
  refine ⟨?_, ?_, ?_, ?_⟩ <;> exact fun a ha heq => absurd heq (hne a ha _)

/-- The last two instructions pick up the word behind the jump. -/
theorem customTrapText_execWords (env : Env) (s : Machine) :
    (s.execWords (customTrapText env)).mem = (s.exec (customTrap env)).mem ∧
      ((s.exec (customTrap env)).mem (nth s.pc 9) = env.customTrap0 →
        s.execWords (customTrapText env) = { s.exec (customTrap env) with pc := nth s.pc 8 }) := by
  have hfirst : s.execWords (customTrap env).dropLast =
      { s.exec (customTrap env).dropLast with pc := nth s.pc 6 } :=
    s.execWords_placeless (by simp [customTrap, placeless])
  have hword : nth s.pc 6 + 12 = nth s.pc 9 := by simp [nth, BitVec.add_assoc]
  have hjump : nth s.pc 6 + 4 + 4 = nth s.pc 8 := by simp [nth, BitVec.add_assoc]
  have hlast : s.exec (customTrap env) =
      (s.exec (customTrap env).dropLast).setReg .t1 env.customTrap0 := rfl
  rw [customTrapText, Machine.execWords_append, hfirst, hlast]
  generalize s.exec (customTrap env).dropLast = e
  refine ⟨rfl, fun htarget => ?_⟩
  rw [Machine.mem_setReg, ← hword] at htarget
  rw [← htarget]
  simp [Machine.execWords, Machine.execAt, Instr.exec, Machine.setReg, ← hjump]

/-- A copy of `customTrap` leads to `customTrap0`, wherever it has been copied
to. -/
theorem customTrap_arrives (hcode : Assembled env ws) (hmem : InMemory s.mem s.pc ws)
    (hout : ∀ a ∈ wordsAt s.pc ws.length, OutsideCtx s.mscratch a) : s.fetches 9 =
      some { s.exec (customTrap env) with pc := env.customTrap0 &&& ~~~ 1 } := by
  obtain ⟨hholds, hjump, hword⟩ := hcode.holds hmem
  rw [hcode.length] at hout
  have hne : ∀ k < 10, nth s.pc k ∈ wordsAt s.pc 10 := fun k hk => ⟨k, hk, rfl⟩
  have hleaves := customTrapText_leaves env hout
  have hmem' : ∀ k < 10, (s.execWords (customTrapText env)).mem (nth s.pc k) = s.mem (nth s.pc k) :=
    fun k hk => hleaves.mem (hne k hk)
  have hrun : s.fetches 8 = some (s.execWords (customTrapText env)) := by
    refine fetches_straight hholds (hleaves.mono ?_)
    rintro a ⟨k, hk, rfl⟩
    have hk8 : k < 8 := hk
    exact hne k (by omega)
  have hlast : (s.execWords (customTrapText env)).fetch =
      some ((s.execWords (customTrapText env)).jump .t1) := by
    rw [Machine.fetch, s.execWords_pc (customTrapText env)]
    show (decode ((s.execWords (customTrapText env)).mem (nth s.pc 8))).map _ = _
    rw [hmem' 8 (by decide), hjump]
    rfl
  obtain ⟨hstored, hstate⟩ := customTrapText_execWords env s
  rw [← hstored, hmem' 9 (by decide)] at hstate
  rw [Machine.fetches_add 8 1, hrun, Option.bind_some, Machine.fetches, hlast, Option.bind_some,
    Machine.fetches, hstate hword]
  simp [Machine.jump, customTrap, Instr.exec]

end copy

/-! ### The table -/

/-- Where the hart starts to handle a trap: with the mode of `mtvec` set to 1,
each interrupt has an entry of its own. -/
def vector (mtvec cause : Word) : Word :=
  let table := mtvec &&& 0xfffffffc
  if mtvec &&& 3 = 1 ∧ cause.msb then nth table (cause.setWidth 31).toNat else table

def enterTrap (mtvec : Word) (s : Machine) (cause : Word) : Machine :=
  { s.takeTrap cause with pc := vector mtvec cause }

/-- `mcause` for interrupt `i`. -/
def interruptCause (i : Fin 32) : Word := 0x80000000 ||| BitVec.ofNat 32 i

/-- The words through which the hart comes to the trap path. -/
def Boot.words (b : Boot) : Set Word :=
  wordsAt b.table 32 ∪ wordsAt b.trapMem b.customTrap.length

/-- Memory has in these words what `init` has put there. -/
def Boot.Installed (b : Boot) (mem : Word → Word) : Prop :=
  ∀ a ∈ b.words, mem a = (init b).mem a

/-- A trap taken in state `s` goes through the first entry of the table to the
copy of `customTrap`, and from there to `customTrap0`, in the state that `trap`
gives to it. -/
structure Dispatched (env : Env) (b : Boot) (s : Machine) (cause : Word) : Prop where
  entry : (enterTrap b.mtvec s cause).fetch =
    some { enterTrap b.mtvec s cause with pc := b.trapMem }
  path : (enterTrap b.mtvec s cause).fetches 10 =
    some { (s.takeTrap cause).exec (customTrap env) with pc := env.customTrap0 &&& ~~~ 1 }

section table

variable {env : Env} {b : Boot} {s : Machine} {cause : Word}

theorem vector_exception (mtvec : Word) (hcause : cause.msb = false) :
    vector mtvec cause = mtvec &&& 0xfffffffc := by
  rw [vector, if_neg]
  simp [hcause]

theorem vector_interrupt {mtvec : Word} (hmode : mtvec &&& 3 = 1) (i : Fin 32) :
    vector mtvec (interruptCause i) = nth (mtvec &&& 0xfffffffc) i := by
  have hcause : ∀ i : Fin 32, (interruptCause i).msb = true ∧
      ((interruptCause i).setWidth 31).toNat = i := by decide
  rw [vector, if_pos ⟨hmode, (hcause i).1⟩, (hcause i).2]

/-- The jump in the first entry of the table. -/
theorem Boot.Valid.fetch_entry (h : b.Valid) (hmem : b.Installed s.mem)
    (hcause : cause.msb = false) : (enterTrap b.mtvec s cause).fetch =
      some { enterTrap b.mtvec s cause with pc := b.table + jalCut (b.trapMem - b.table) } := by
  have hword : s.mem b.table = writeJAL (b.trapMem - b.table) := by
    have hentry := h.mem_table 0
    rw [Fin.val_zero, nth_zero, if_pos rfl] at hentry
    rw [hmem _ (.inl ⟨0, by decide, (nth_zero _).symm⟩), hentry]
  have hpc : (enterTrap b.mtvec s cause).pc = b.table := vector_exception b.mtvec hcause
  have hdecode := decode_jal (decodeJal_writeJAL (b.trapMem - b.table))
  rw [← hword] at hdecode
  rw [Machine.fetch, hpc]
  show (decode (s.mem b.table)).map _ = _
  rw [hdecode, Option.map_some, Code.exec, hpc]

/-- The trap path is reached where the copy is in reach of the table. -/
theorem dispatched_iff (h : b.Valid) (hcode : Assembled env b.customTrap)
    (hmem : b.Installed s.mem) (hout : ∀ a ∈ b.words, OutsideCtx s.mscratch a)
    (hcause : cause.msb = false) :
    Dispatched env b s cause ↔ JalRange (b.trapMem - b.table) := by
  have hcut : b.table + jalCut (b.trapMem - b.table) = b.trapMem ↔
      JalRange (b.trapMem - b.table) := by
    rw [← jalCut_eq_iff, BitVec.eq_sub_iff_add_eq, BitVec.add_comm]
  have hentry := h.fetch_entry hmem hcause
  rw [← hcut]
  constructor
  · intro hdisp
    exact congrArg Machine.pc (Option.some.inj (hentry.symm.trans hdisp.entry))
  · intro hreach
    rw [hreach] at hentry
    refine ⟨hentry, ?_⟩
    set t : Machine := { enterTrap b.mtvec s cause with pc := b.trapMem } with ht
    have hcopy : InMemory t.mem t.pc b.customTrap := fun k hk =>
      (hmem _ (.inr ⟨k, hk, rfl⟩)).trans (h.copied k hk)
    have harrive := customTrap_arrives hcode hcopy fun a ha => hout a (.inr ha)
    have hset : t.exec (customTrap env) =
        { (s.takeTrap cause).exec (customTrap env) with pc := b.trapMem } :=
      (s.takeTrap cause).exec_setPc (by simp [customTrap, placeless]) b.trapMem
    rw [Machine.fetches_add 1 9, Machine.fetches, hentry, Option.bind_some, Machine.fetches,
      Option.bind_some, harrive, hset]

/-- An interrupt goes straight to the handler that the table was made for, which
is also the one that `customISR0` would forward it to. -/
theorem interrupt_direct (h : b.Valid) (hmem : b.Installed s.mem) (hmode : b.mtvec &&& 3 = 1)
    {i : Fin 32} (hi : i ≠ 0) {offset : Word}
    (hjump : decodeJal (b.mem (nth b.table i)) = some ⟨0, offset⟩) :
    (enterTrap b.mtvec s (interruptCause i)).fetch =
        some { s.takeTrap (interruptCause i) with pc := (init b).interruptVectorTable i } ∧
      b.target i = some ((init b).interruptVectorTable i) := by
  refine ⟨?_, h.vectors hi⟩
  have hpc : (enterTrap b.mtvec s (interruptCause i)).pc = nth b.table i :=
    vector_interrupt hmode i
  have hword : s.mem (nth b.table i) = b.mem (nth b.table i) := by
    rw [hmem _ (.inl ⟨i, i.isLt, rfl⟩), h.mem_table, if_neg hi]
  have htarget : (init b).interruptVectorTable i = nth b.table i + offset := by
    have hvector := h.vectors hi
    rw [Boot.target, jalTarget, hjump] at hvector
    exact (Option.some.inj hvector).symm
  have hdecode := decode_jal hjump
  rw [← hword] at hdecode
  rw [Machine.fetch, hpc]
  show (decode (s.mem (nth b.table i))).map _ = _
  rw [hdecode, Option.map_some, Code.exec, hpc, htarget]
  rfl

end table

/-! ### Over runs -/

/-- `makeABICall` does not put its frame over the way to the trap path. -/
def Boot.FrameApart (b : Boot) (env : Env) (sp : Word) : Prop :=
  ∀ a ∈ b.words, ∀ k ∈ frameSlots, a ≠ frameBase env sp + k

/-- A step of a task in which the code outside of traps does not write over the
way to the trap path either. -/
structure HookedStep (env : Env) (isr : Forwarder) (b : Boot) (ctx : Word) (words : Set Word)
    (s : Machine) (ev : Option TrapRecord) (u : Machine) : Prop where
  step : PreemptedStep env isr ctx words s ev u
  code : ev = none → ∀ a ∈ b.words, u.mem a = s.mem a
  frame : s.priv = .machine → ev.isSome → b.FrameApart env (s.regs .sp)

structure HookedInv (env : Env) (b : Boot) (ctx : Word) (words : Set Word) (s : Machine) :
    Prop where
  outside : OutsideOn env ctx words s
  installed : b.Installed s.mem
  frame : s.priv = .user → b.FrameApart env (field s ctx (.mReg .sp))

section runs

variable {env : Env} {isr : Forwarder} {b : Boot} {ctx : Word} {words : Set Word} {s u : Machine}
  {ev : Option TrapRecord}

theorem Boot.Installed.congr {mem mem' : Word → Word} (h : b.Installed mem)
    (hmem : ∀ a ∈ b.words, mem' a = mem a) : b.Installed mem' :=
  fun a ha => (hmem a ha).trans (h a ha)

theorem HookedStep.inv (hout : ∀ a ∈ words, OutsideCtx ctx a) (hsub : b.words ⊆ words)
    (hs : HookedInv env b ctx words s) (h : HookedStep env isr b ctx words s ev u) :
    HookedInv env b ctx words u := by
  have houtside := (h.step.outside hout hs.outside).1
  obtain ⟨hstep, hcode, hframe⟩ := h
  cases hstep with
  | code hstep =>
      refine ⟨houtside, hs.installed.congr (hcode rfl), fun hpriv => ?_⟩
      cases hstep with
      | user hp _ _ hfield =>
          rw [hfield]
          exact hs.frame hp
      | kernel _ hp' _ _ => cases hp'.symm.trans hpriv
  | interrupt hi =>
      have hsame := hi.outcome hs.outside.mscratch
      refine ⟨houtside, hs.installed.congr (hcode rfl), fun hpriv => ?_⟩
      rw [hsame.fields _ (by simp)]
      exact hs.frame (hsame.priv.symm.trans hpriv)
  | @ecall r hp hcause hcall _ hr =>
      obtain hu | hk := hs.outside
      · cases hp.symm.trans hu.priv
      obtain ⟨-, hent, -⟩ := hk.trap_entered (hr.entry hk hcause hcall) hcause hcall
      refine ⟨houtside, hs.installed.congr fun a ha => ?_, fun _ => ?_⟩
      · exact hent.outside a (hk.mscratch.symm ▸ hout a (hsub ha))
      · have hsp : field r.final.mret ctx (.mReg .sp) = r.raised.regs .sp := by
          rw [← hk.mscratch]
          exact hent.mReg .sp
        rw [hsp]
        exact hframe hp rfl
  | @trap r hp hr =>
      obtain hu | hk := hs.outside
      · refine ⟨houtside, hs.installed.congr fun a ha => ?_, fun _ => ?_⟩
        · exact hr.kept hu.toUserCtx hout hu.frame (hsub ha) (hs.frame hp a ha)
        · obtain ⟨r₀, htwin, hr₀, -⟩ := hu.exists_twin hout hr
          have hsp := hr₀.kernelSp (htwin.raised.symm ▸ hu.toUserCtx)
          rw [htwin.exit.outcome.fields _ (by simp), hsp, htwin.raised]
          exact hs.frame hp
      · cases hp.symm.trans hk.priv

theorem setCtx_hookedInv (hout : ∀ a ∈ words, OutsideCtx ctx a) (hsub : b.words ⊆ words)
    (hs : s.priv = .machine) (hmem : b.Installed s.mem) :
    HookedInv env b ctx words (setCtx s ctx) where
  outside := .inr (setCtx_inKernel hs)
  installed := hmem.congr fun a ha => by
    have hne := hout a (hsub ha) .isSuper
    simp [setCtx, hne]
  frame hpriv := by cases hs.symm.trans hpriv

end runs

/-- Behind `init`, whatever a task, its processes and interrupts do, every trap
goes through the vector table to the trap path exactly if the copy of
`customTrap` is in reach of the table, and every interrupt goes to the handler
that it went to before. -/
theorem traps_dispatched_iff (env : Env) (isr : Forwarder) (b : Boot) (hvalid : b.Valid)
    (hcode : Assembled env b.customTrap) (ctx : Word) (words : Set Word)
    (hout : ∀ a ∈ words, OutsideCtx ctx a) (hsub : b.words ⊆ words) (s : Machine)
    (hs : s.priv = .machine) (hmem : b.Installed s.mem) (evs : List (Option TrapRecord))
    (u : Machine) (hrun : Run (HookedStep env isr b ctx words) (setCtx s ctx) evs u) :
    (∀ cause : Word, cause.msb = false →
        (Dispatched env b u cause ↔ JalRange (b.trapMem - b.table))) ∧
      (b.mtvec &&& 3 = 1 → ∀ i : Fin 32, i ≠ 0 → ∀ offset,
        decodeJal (b.mem (nth b.table i)) = some ⟨0, offset⟩ →
        (enterTrap b.mtvec u (interruptCause i)).fetch =
            some { u.takeTrap (interruptCause i) with pc := (init b).interruptVectorTable i } ∧
          b.target i = some ((init b).interruptVectorTable i)) := by
  have hinv : HookedInv env b ctx words u :=
    hrun.invariant (fun _ _ _ hs hstep => hstep.inv hout hsub hs)
      (setCtx_hookedInv hout hsub hs hmem)
  refine ⟨fun cause hcause => ?_, fun hmode i hi offset hjump => ?_⟩
  · refine dispatched_iff hvalid hcode hinv.installed (fun a ha => ?_) hcause
    rw [hinv.outside.mscratch]
    exact hout a (hsub ha)
  · exact interrupt_direct hvalid hinv.installed hmode hi hjump

/-- The machine code of `customTrap`, 64 KiB behind the table. -/
def Boot.sampleTrap : Boot :=
  { Boot.sample with
    customTrap := [0x340292f3, 0x1062a223, 0x1072a423, 0x11c2a623, 0x34029373, 0x1062a023,
      0x00000317, 0x00c32303, 0x00030067, 0x42000100] }

theorem Boot.sampleTrap_valid : sampleTrap.Valid where
  jumps := sample_valid.jumps
  trapSize := by decide
  trapApart := sample_valid.trapApart
  isrApart := sample_valid.isrApart
  copiesApart := sample_valid.copiesApart

theorem Boot.sampleTrap_words {a : Word} (ha : a ∈ sampleTrap.words) :
    OutsideCtx 0x1000 a ∧ ∀ k ∈ frameSlots, a ≠ frameBase .sample 0x8000 + k := by
  have hfar : 0x40380000 ≤ a.toNat := by
    obtain ⟨k, hk, rfl⟩ | ⟨k, hk, rfl⟩ := ha
    · have htable : (0x40380000 : Word).toNat = 0x40380000 := rfl
      show 0x40380000 ≤ (nth 0x40380000 k).toNat
      rw [toNat_nth (by omega)]
      omega
    · have hcopy : (0x40390000 : Word).toNat = 0x40390000 := rfl
      have hlen : k < 10 := hk
      show 0x40380000 ≤ (nth 0x40390000 k).toNat
      rw [toNat_nth (by omega)]
      omega
  have hframe : ∀ k ∈ frameSlots, (frameBase .sample 0x8000 + k).toNat < 0x8000 := by
    simp [frameSlots, frameBase, Env.sample]
  refine ⟨outsideCtx_of_le ?_, fun k hk heq => ?_⟩
  · have hctx : (0x1000 : Word).toNat = 0x1000 := rfl
    rw [BitVec.toNat_sub]
    omega
  · have hk' := hframe k hk
    rw [← heq] at hk'
    omega

/-- An illegal instruction in a process that has been entered behind `init`. -/
theorem traps_dispatched_iff_sample : ∃ u : Machine, u.priv = .user ∧
    Dispatched .sample .sampleTrap u 2 := by
  set s : Machine := { kernelStart with mem := (init .sampleTrap).mem } with hs
  set words := sampleStack ∪ Boot.sampleTrap.words with hwords
  have hout : ∀ a ∈ words, OutsideCtx 0x1000 a := by
    rintro a (ha | ha)
    · exact sampleStack_outside a ha
    · exact (Boot.sampleTrap_words ha).1
  have hk : InKernel 0x1000 (setCtx s 0x1000) := setCtx_inKernel rfl
  have hcall : (setCtx s 0x1000).regs .a0 = sysUserjump := by simp [setCtx, hs, kernelStart]
  have hsp : (setCtx s 0x1000).regs .sp = 0x8000 := by simp [setCtx, hs, kernelStart]
  obtain ⟨r, hraised, hcause, hr⟩ := hk.exists_preempted .sample .sample words (.inl hcall)
  have hstep : PreemptedStep .sample .sample 0x1000 words r.raised (some r) r.final.mret := by
    refine .ecall ?_ hcause ?_ ?_ hr <;> rw [hraised]
    · rfl
    · exact .inl hcall
    · rw [hsp]
      exact fun k hk => .inl (frameWords_frame .sample 0x8000 k hk)
  have hentry := hr.entry (hraised ▸ hk) hcause (.inl (hraised ▸ hcall))
  obtain ⟨-, hent, -⟩ := (hraised ▸ hk : InKernel 0x1000 r.raised).trap_entered hentry hcause
    (.inl (hraised ▸ hcall))
  have hrun : Run (HookedStep .sample .sample .sampleTrap 0x1000 words) (setCtx s 0x1000)
      [some r] r.final.mret := by
    rw [← hraised]
    refine .single ⟨hstep, (fun hnone => by cases hnone), fun _ _ => ?_⟩
    rw [hraised, hsp]
    exact fun a ha => (Boot.sampleTrap_words ha).2
  have hcode : Assembled .sample Boot.sampleTrap.customTrap := ⟨_, rfl, rfl⟩
  have hall := traps_dispatched_iff .sample .sample .sampleTrap Boot.sampleTrap_valid hcode 0x1000
    words hout Set.subset_union_right s rfl (fun _ _ => rfl) _ _ hrun
  exact ⟨r.final.mret, hent.priv, (hall.1 2 (by decide)).mpr (by decide)⟩

end BadgeElfloader.Kernel
