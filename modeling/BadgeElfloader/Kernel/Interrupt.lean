import BadgeElfloader.Kernel.TrapSpec

/-!
What the interrupted code sees of an interrupt.

`customISR` is not a handler. It saves four registers and two CSRs in the
scratch words of the context, which trap entry uses too, and goes on to the
handler that the C library has registered for the interrupt. The handler is
entered with its `mepc` pointing back into `customISR0`, so there are two
`mret` instructions between the handler and the interrupted code.
-/

namespace BadgeElfloader.Kernel

open Riscv

/-! ### The handler is entered -/

def MieSet (s : Machine) : Prop := s.mstatus &&& mieBit ≠ 0

instance (s : Machine) : Decidable (MieSet s) := inferInstanceAs (Decidable (_ ≠ _))

/-- `mstatus` without the three fields that trap entry and `mret` rewrite. -/
def plainStatus (w : Word) : Word := w &&& ~~~ (mieBit ||| mpieBit ||| mppMask)

/-- `mstatus` without the two fields that belong to the last trap. -/
def keptStatus (w : Word) : Word := w &&& ~~~ (mpieBit ||| mppMask)

/-- The `mstatus.MPP` that says `p`. -/
def mppOf (p : Priv) : Word := if p = .machine then mppMask else 0

theorem takeTrap_mstatus {s : Machine} (hmie : MieSet s) (cause : Word) :
    (s.takeTrap cause).mstatus = plainStatus s.mstatus ||| mpieBit ||| mppOf s.priv := by
  have hne : ¬ s.mstatus &&& mieBit = 0 := hmie
  simp only [Machine.takeTrap, plainStatus, mppOf, if_neg hne]

/-- `h` is the state in which the handler is entered to which an interrupt is
forwarded that has been taken in state `s`. -/
structure AtForward (isr : Forwarder) (s h : Machine) : Prop where
  regs : ∀ r, r ∉ tempRegs → h.regs r = s.regs r
  t0 : h.regs .t0 = s.mscratch
  t3 : h.regs .t3 = s.regs .t3
  temps : field h s.mscratch (.scratch 0) = s.regs .t0 ∧
    field h s.mscratch (.scratch 1) = s.regs .t1 ∧
    field h s.mscratch (.scratch 2) = s.regs .t2 ∧
    field h s.mscratch (.scratch 3) = s.regs .t3
  status : field h s.mscratch (.scratch 4) = plainStatus s.mstatus ||| mpieBit ||| mppOf s.priv
  pc : field h s.mscratch (.scratch 5) = s.pc
  other : ∀ a, (∀ i, a ≠ s.mscratch + (Field.scratch i).offset) → h.mem a = s.mem a
  mepc : h.mepc = isr.restore
  mstatus : h.mstatus = plainStatus s.mstatus ||| mppMask
  mscratch : h.mscratch = s.mscratch
  priv : h.priv = .machine

theorem plainStatus_forward (w : Word) (p : Priv) :
    (plainStatus w ||| mpieBit ||| mppOf p) &&& ~~~ (0x80 : Word) ||| 0x1800 =
      plainStatus w ||| mppMask := by
  cases p <;>
    simp [plainStatus, mppOf, mieBit, mpieBit, mppMask, BitVec.and_or_distrib_right,
      BitVec.and_assoc, BitVec.or_assoc]

/-- Everything that `customISR` saves and sets before it looks for the handler. -/
def isrSave (isr : Forwarder) : List Instr := customISR isr ++ (preserveCsrs ++ prepareForward isr)

theorem isrSave_field (isr : Forwarder) (s : Machine) (f : Field) :
    field (s.exec (isrSave isr)) s.mscratch f =
      if f = .scratch 5 then s.mepc
      else if f = .scratch 4 then s.mstatus
      else if f = .scratch 0 then s.regs .t0
      else if f = .scratch 3 then s.regs .t3
      else if f = .scratch 2 then s.regs .t2
      else if f = .scratch 1 then s.regs .t1
      else field s s.mscratch f := by
  simp [isrSave, customISR, preserveCsrs, prepareForward, Instr.exec]

theorem isrSave_mem (isr : Forwarder) (s : Machine) {a : Word}
    (ha : ∀ i, a ≠ s.mscratch + (Field.scratch i).offset) :
    (s.exec (isrSave isr)).mem a = s.mem a := by
  simp [isrSave, customISR, preserveCsrs, prepareForward, Instr.exec, ha]

theorem isrSave_regs (isr : Forwarder) (s : Machine) (r : Reg) :
    (s.exec (isrSave isr)).regs r =
      if r = .t1 then 0x1800 else if r = .t0 then s.mscratch else s.regs r := by
  simp [isrSave, customISR, preserveCsrs, prepareForward, Instr.exec]
  grind

theorem isrSave_csrs (isr : Forwarder) (s : Machine) :
    (s.exec (isrSave isr)).mstatus = s.mstatus &&& ~~~ (0x80 : Word) ||| 0x1800 ∧
      (s.exec (isrSave isr)).mepc = isr.restore ∧
      (s.exec (isrSave isr)).mscratch = s.mscratch ∧
      (s.exec (isrSave isr)).priv = s.priv := by
  simp [isrSave, customISR, preserveCsrs, prepareForward, Instr.exec]

/-- Looking for the handler costs `t1` and `t2`. -/
theorem forwardedAddress_regs (isr : Forwarder) (s : Machine) {r : Reg} (h1 : r ≠ .t1)
    (h2 : r ≠ .t2) : (forwardedAddress isr s).regs r = s.regs r := by
  simp [forwardedAddress, Instr.exec, h1, h2]

theorem interrupt_eq (isr : Forwarder) (s : Machine) (cause : Word) :
    interrupt isr s cause =
      (forwardedAddress isr ((s.takeTrap cause).exec (isrSave isr))).jump .t1 := by
  simp only [interrupt, customISR0, isrSave, Machine.exec_append]

theorem interrupt_atForward (isr : Forwarder) (s : Machine) (cause : Word) (hmie : MieSet s) :
    AtForward isr s (interrupt isr s cause) := by
  rw [interrupt_eq]
  obtain ⟨hstatus, hepc, hscratch, hpriv⟩ := isrSave_csrs isr (s.takeTrap cause)
  have hsaved := isrSave_field isr (s.takeTrap cause)
  have hregs := isrSave_regs isr (s.takeTrap cause)
  have hmem := fun a => isrSave_mem isr (s.takeTrap cause) (a := a)
  set e := (s.takeTrap cause).exec (isrSave isr)
  -- the jump changes the program counter, and the search for the handler registers only
  have hfield : ∀ f, field ((forwardedAddress isr e).jump .t1) s.mscratch f = _ := hsaved
  have hkept : ∀ r, r ≠ .t1 → r ≠ .t2 → ((forwardedAddress isr e).jump .t1).regs r = _ :=
    fun r h1 h2 => (forwardedAddress_regs isr e h1 h2).trans (hregs r)
  refine ⟨?regs, ?t0, ?t3, ⟨?temp0, ?temp1, ?temp2, ?temp3⟩, ?status, ?pc, hmem, hepc, ?mstatus,
    hscratch, hpriv⟩
  case regs =>
    intro r hr
    simp only [tempRegs, List.mem_cons, List.not_mem_nil, or_false, not_or] at hr
    rw [hkept r hr.2.1 hr.2.2.1, if_neg hr.2.1, if_neg hr.1]
    rfl
  case t0 => exact hkept .t0 (by decide) (by decide)
  case t3 => exact hkept .t3 (by decide) (by decide)
  case temp0 | temp1 | temp2 | temp3 => exact hfield _
  case status => exact (hfield _).trans (takeTrap_mstatus hmie cause)
  case pc => exact hfield _
  case mstatus =>
    show e.mstatus = _
    rw [hstatus, takeTrap_mstatus hmie cause, plainStatus_forward]

/-! ### The interrupted code goes on -/

/-- A handler entered in state `h` has come to its `mret` in state `f`. It has
used registers and CSRs of its own only, interrupts stayed disabled, and it did
not write to the context. -/
structure Forwarded (ctx : Word) (h f : Machine) : Prop where
  regs : f.regs = h.regs
  mscratch : f.mscratch = h.mscratch
  mepc : f.mepc = h.mepc
  mstatus : f.mstatus = h.mstatus
  priv : f.priv = h.priv
  ctxKept : ∀ g, field f ctx g = field h ctx g

/-- The code interrupted in state `s` goes on in state `u`. -/
structure GoesOn (ctx : Word) (s u : Machine) : Prop where
  regs : u.regs = s.regs
  pc : u.pc = s.pc
  priv : u.priv = s.priv
  mscratch : u.mscratch = s.mscratch
  mieSet : MieSet u
  status : keptStatus u.mstatus = keptStatus s.mstatus
  fields : ∀ g, (∀ i, g ≠ .scratch i) → field u ctx g = field s ctx g

theorem isrRestore_regs (s : Machine) (ctx : Word) (ht0 : s.regs .t0 = ctx) (r : Reg) :
    (s.exec isrRestore).regs r =
      match r with
      | .t0 => field s ctx (.scratch 0)
      | .t1 => field s ctx (.scratch 1)
      | .t2 => field s ctx (.scratch 2)
      | .t3 => field s ctx (.scratch 3)
      | r => s.regs r := by
  cases r <;> simp [isrRestore, Instr.exec, ht0, mem_eq_field]

theorem isrRestore_mem (s : Machine) : (s.exec isrRestore).mem = s.mem := by
  simp [isrRestore, Instr.exec]

theorem isrRestore_csrs (s : Machine) (ctx : Word) (ht0 : s.regs .t0 = ctx) :
    (s.exec isrRestore).mstatus = s.mstatus ||| 0x1880 &&& field s ctx (.scratch 4) ∧
      (s.exec isrRestore).mepc = field s ctx (.scratch 5) ∧
      (s.exec isrRestore).mscratch = ctx ∧
      (s.exec isrRestore).priv = s.priv := by
  simp [isrRestore, Instr.exec, ht0, mem_eq_field]

theorem plainStatus_and {w v : Word} (hv : plainStatus v = 0) : plainStatus w &&& v = 0 := by
  rw [plainStatus, BitVec.and_assoc, BitVec.and_comm _ v, ← plainStatus, hv]
  exact BitVec.and_zero

theorem plainStatus_or {w v : Word} (hv : plainStatus v = 0) :
    plainStatus (plainStatus w ||| v) = plainStatus w := by
  have hsame : plainStatus (plainStatus w) = plainStatus w := by
    rw [plainStatus, plainStatus, BitVec.and_assoc, BitVec.and_self]
  have hsplit : plainStatus (plainStatus w ||| v) = plainStatus (plainStatus w) ||| plainStatus v :=
    BitVec.and_or_distrib_right
  rw [hsplit, hsame, hv]
  exact BitVec.or_zero

/-- An `mret` reads the fields `v` of `mstatus`, and the rest stays. -/
theorem mret_of_fields {f : Machine} {w v : Word} (hv : plainStatus v = 0)
    (h : f.mstatus = plainStatus w ||| v) :
    f.mret.priv = (if v &&& mppMask = mppMask then .machine else .user) ∧
      f.mret.mstatus =
        plainStatus w ||| (if v &&& mpieBit = 0 then 0 else mieBit) ||| mpieBit := by
  have hand : ∀ m, plainStatus m = 0 → (plainStatus w ||| v) &&& m = v &&& m := by
    intro m hm
    rw [BitVec.and_or_distrib_right, plainStatus_and hm]
    exact BitVec.zero_or
  simp only [Machine.mret, h, hand mppMask (by decide), hand mpieBit (by decide), true_and]
  rw [← plainStatus, plainStatus_or hv]

/-- The `mret` of a handler that was entered with interrupts disabled. -/
theorem mret_of_forward {f : Machine} {w : Word} (h : f.mstatus = plainStatus w ||| mppMask) :
    f.mret.priv = .machine ∧ f.mret.mstatus = plainStatus w ||| mpieBit := by
  obtain ⟨hpriv, hstatus⟩ := mret_of_fields (by decide) h
  refine ⟨hpriv, hstatus.trans ?_⟩
  rw [if_pos (by decide)]
  exact congrArg (· ||| mpieBit) BitVec.or_zero

/-- Setting bits is enough to restore `mstatus`: the `mret` of the handler has
left `MPP` clear, and `MPIE` was set when the interrupt was taken. -/
theorem status_restored (w : Word) (p : Priv) :
    (plainStatus w ||| mpieBit) ||| 0x1880 &&& (plainStatus w ||| mpieBit ||| mppOf p) =
      plainStatus w ||| mpieBit ||| mppOf p := by
  have hplain : 0x1880 &&& plainStatus w = 0 := by
    rw [BitVec.and_comm]
    exact plainStatus_and (by decide)
  have hmpp : 0x1880 &&& mppOf p = mppOf p := by cases p <;> decide
  have hmpie : 0x1880 &&& mpieBit = mpieBit := by decide
  calc (plainStatus w ||| mpieBit) ||| 0x1880 &&& (plainStatus w ||| mpieBit ||| mppOf p)
      = (plainStatus w ||| mpieBit) ||| (mpieBit ||| mppOf p) := by
        rw [BitVec.and_or_distrib_left, BitVec.and_or_distrib_left, hplain, hmpp, hmpie]
        simp
    _ = plainStatus w ||| mpieBit ||| mppOf p := by
        rw [← BitVec.or_assoc, BitVec.or_assoc (plainStatus w) mpieBit mpieBit, BitVec.or_self]

/-- The `mret` at the end of `customISR0`. -/
theorem mret_of_restored {f : Machine} {w : Word} {p : Priv}
    (h : f.mstatus = plainStatus w ||| mpieBit ||| mppOf p) :
    f.mret.priv = p ∧ f.mret.mstatus = plainStatus w ||| mieBit ||| mpieBit := by
  rw [BitVec.or_assoc] at h
  obtain ⟨hpriv, hstatus⟩ := mret_of_fields (by cases p <;> decide) h
  refine ⟨hpriv.trans (by cases p <;> decide), hstatus.trans ?_⟩
  rw [if_neg (by cases p <;> decide)]

/-- A set `MIE` is all that `mret` has to bring back. -/
theorem keptStatus_restored {w : Word} (h : w &&& mieBit ≠ 0) :
    keptStatus (plainStatus w ||| mieBit ||| mpieBit) = keptStatus w := by
  have hmie : w &&& mieBit = mieBit := by
    have htwo : mieBit = BitVec.twoPow 32 3 := by decide
    rw [htwo, BitVec.and_twoPow] at h ⊢
    grind
  have hsplit : keptStatus w = plainStatus w ||| w &&& mieBit := by
    rw [plainStatus, ← BitVec.and_or_distrib_left, keptStatus]
    rfl
  rw [hsplit, hmie]
  simp [keptStatus, plainStatus, mieBit, mpieBit, mppMask, BitVec.and_or_distrib_right,
    BitVec.and_assoc]

/-- `customISR` is transparent: a forwarded handler that keeps to its part of
the machine comes back to the code that it interrupted, whatever that was. -/
theorem Forwarded.goesOn {isr : Forwarder} {ctx cause : Word} {s f : Machine}
    (hf : Forwarded ctx (interrupt isr s cause) f) (hctx : s.mscratch = ctx) (hmie : MieSet s) :
    ∃ u, afterForward isr f = some u ∧ GoesOn ctx s u ∧ u.mem = f.mem := by
  subst hctx
  have hat := interrupt_atForward isr s cause hmie
  obtain ⟨hpriv, hstatus⟩ := mret_of_forward (hf.mstatus.trans hat.mstatus)
  have hpc : f.mret.pc = isr.restore := hf.mepc.trans hat.mepc
  have ht0 : f.mret.regs .t0 = s.mscratch := (congrFun hf.regs .t0).trans hat.t0
  have hfield : ∀ g, field f.mret s.mscratch g = field (interrupt isr s cause) s.mscratch g :=
    hf.ctxKept
  obtain ⟨hst, hepc, hscratch, -⟩ := isrRestore_csrs f.mret s.mscratch ht0
  rw [hstatus, hfield, hat.status, status_restored] at hst
  obtain ⟨hrpriv, hrstatus⟩ := mret_of_restored hst
  obtain ⟨htemp0, htemp1, htemp2, htemp3⟩ := hat.temps
  have hmem : (f.mret.exec isrRestore).mret.mem = f.mem := isrRestore_mem f.mret
  refine ⟨(f.mret.exec isrRestore).mret, if_pos ⟨hpc, hpriv⟩,
    ⟨?regs, ?pc, hrpriv, hscratch, ?mie, ?status, ?fields⟩, hmem⟩
  case regs =>
    funext r
    have hr : (f.mret.exec isrRestore).mret.regs r = _ := isrRestore_regs f.mret s.mscratch ht0 r
    cases r with
    | t0 => exact hr.trans ((hfield _).trans htemp0)
    | t1 => exact hr.trans ((hfield _).trans htemp1)
    | t2 => exact hr.trans ((hfield _).trans htemp2)
    | t3 => exact hr.trans ((hfield _).trans htemp3)
    | _ => exact hr.trans ((congrFun hf.regs _).trans (hat.regs _ (by decide)))
  case pc =>
    calc (f.mret.exec isrRestore).mret.pc
        = field f.mret s.mscratch (.scratch 5) := hepc
      _ = s.pc := by rw [hfield, hat.pc]
  case mie =>
    rw [MieSet, hrstatus, BitVec.or_assoc, BitVec.and_or_distrib_right,
      plainStatus_and (by decide)]
    decide
  case status =>
    rw [hrstatus]
    exact keptStatus_restored hmie
  case fields =>
    intro g hg
    calc field (f.mret.exec isrRestore).mret s.mscratch g
        = field (interrupt isr s cause) s.mscratch g := by rw [← hf.ctxKept, field, hmem]; rfl
      _ = field s s.mscratch g :=
          hat.other _ fun i h => hg i (Field.offset_injective ((BitVec.add_right_inj _).mp h))

end BadgeElfloader.Kernel
