import BadgeElfloader.Riscv.Copy
import BadgeElfloader.Riscv.Jal

/-!
`kernel::init`, which hooks the vector table of the hart.

The table holds 32 jumps. Entry 0 is replaced by a jump to a copy of
`customTrap`, and the targets of all entries are read into
`interruptVectorTable`: after the replacement, and through the 21 bits that an
instruction has for an offset.
-/

namespace BadgeElfloader.Kernel

open Riscv

/-! ### Reading and writing jumps -/

/-- `inst_jal_t` -/
@[ext] structure InstJal where
  opcode : BitVec 7
  dest : BitVec 5
  imm19_12 : BitVec 8
  imm11 : BitVec 1
  imm10_1 : BitVec 10
  imm20 : BitVec 1

def InstJal.ofRaw (raw : Word) : InstJal where
  opcode := raw.extractLsb' 0 7
  dest := raw.extractLsb' 7 5
  imm19_12 := raw.extractLsb' 12 8
  imm11 := raw.extractLsb' 20 1
  imm10_1 := raw.extractLsb' 21 10
  imm20 := raw.extractLsb' 31 1

def InstJal.raw (bits : InstJal) : Word :=
  bits.imm20 ++ bits.imm10_1 ++ bits.imm11 ++ bits.imm19_12 ++ bits.dest ++ bits.opcode

/-- `jal_off_t` -/
@[ext] structure JalOff where
  padd0 : BitVec 1
  imm10_1 : BitVec 10
  imm11 : BitVec 1
  imm19_12 : BitVec 8
  imm20 : BitVec 1
  signext : BitVec 11

def JalOff.ofRaw (raw : Word) : JalOff where
  padd0 := raw.extractLsb' 0 1
  imm10_1 := raw.extractLsb' 1 10
  imm11 := raw.extractLsb' 11 1
  imm19_12 := raw.extractLsb' 12 8
  imm20 := raw.extractLsb' 20 1
  signext := raw.extractLsb' 21 11

def JalOff.raw (bits : JalOff) : Word :=
  bits.signext ++ bits.imm20 ++ bits.imm19_12 ++ bits.imm11 ++ bits.imm10_1 ++ bits.padd0

/-- `imm20 ? 0xffff : 0`, in the 11 bits of the field. -/
def signext (imm20 : BitVec 1) : BitVec 11 :=
  (if imm20 ≠ 0 then 0xffff else 0 : BitVec 16).setWidth 11

/-- Get relative address from RISC-V JAL instruction. -/
def readJAL (inst : Word) : Word :=
  let input := InstJal.ofRaw inst
  JalOff.raw
    { padd0 := 0
      imm10_1 := input.imm10_1
      imm11 := input.imm11
      imm19_12 := input.imm19_12
      imm20 := input.imm20
      signext := signext input.imm20 }

/-- Convert relative address to RISC-V JAL instruction. -/
def writeJAL (offset : Word) : Word :=
  let input := JalOff.ofRaw offset
  InstJal.raw
    { opcode := 0x6f
      dest := 0
      imm19_12 := input.imm19_12
      imm11 := input.imm11
      imm10_1 := input.imm10_1
      imm20 := input.imm20 }

theorem signext_eq (imm20 : BitVec 1) : signext imm20 = imm20.signExtend 11 := by
  revert imm20
  decide

theorem JalOff.raw_eq (bits : JalOff) (hsign : bits.signext = bits.imm20.signExtend 11) :
    bits.raw = (bits.imm20 ++ bits.imm19_12 ++ bits.imm11 ++ bits.imm10_1 ++
      bits.padd0).signExtend 32 := by
  rw [raw, hsign]
  refine BitVec.eq_of_getLsbD_eq fun i hi => ?_
  simp only [BitVec.getLsbD_append, BitVec.getLsbD_signExtend, BitVec.msb_eq_getLsbD_last]
  interval_cases i <;> simp

theorem InstJal.ofRaw_raw (bits : InstJal) : ofRaw bits.raw = bits := by
  simp only [ofRaw, raw, InstJal.ext_iff]
  refine ⟨?_, ?_, ?_, ?_, ?_, ?_⟩
  all_goals
    ext i hi
    rw [BitVec.getElem_extractLsb']
    simp only [BitVec.getLsbD_append]
    interval_cases i <;> simp

/-- `readJAL` reads the offset of the instruction. -/
theorem readJAL_eq (inst : Word) : readJAL inst = jalOffset inst :=
  JalOff.raw_eq _ (signext_eq _)

theorem InstJal.decodeJal_raw (bits : InstJal) : decodeJal bits.raw =
    if bits.opcode = 0x6f then
      some ⟨bits.dest,
        (bits.imm20 ++ bits.imm19_12 ++ bits.imm11 ++ bits.imm10_1 ++ 0#1).signExtend 32⟩
    else none := by
  have h := bits.ofRaw_raw
  simp only [ofRaw, InstJal.ext_iff] at h
  obtain ⟨hop, hdest, h19, h11, h10, h20⟩ := h
  rw [decodeJal, jalOffset, hop, hdest, h19, h11, h10, h20]

/-- `writeJAL` makes a jump that links nothing, and keeps 20 bits of the offset. -/
theorem decodeJal_writeJAL (offset : Word) :
    decodeJal (writeJAL offset) = some ⟨0, jalCut offset⟩ := by
  rw [writeJAL, InstJal.decodeJal_raw, if_pos rfl, jalCut_eq_append]
  rfl

theorem jalTarget_writeJAL (pc offset : Word) :
    jalTarget pc (writeJAL offset) = some (pc + jalCut offset) := by
  rw [jalTarget, decodeJal_writeJAL]
  rfl

theorem jalOffset_writeJAL (offset : Word) : jalOffset (writeJAL offset) = jalCut offset := by
  have h := jalTarget_writeJAL 0 offset
  rw [jalTarget_of_isSome (by rw [decodeJal_writeJAL]; rfl)] at h
  simpa using h

theorem JalOff.ofRaw_raw (bits : JalOff) : ofRaw bits.raw = bits := by
  simp only [ofRaw, raw, JalOff.ext_iff]
  refine ⟨?_, ?_, ?_, ?_, ?_, ?_⟩
  all_goals
    ext i hi
    rw [BitVec.getElem_extractLsb']
    simp only [BitVec.getLsbD_append]
    interval_cases i <;> simp

theorem InstJal.raw_ofRaw (inst : Word) : (ofRaw inst).raw = inst := by
  rw [raw, ofRaw]
  refine BitVec.eq_of_getLsbD_eq fun i hi => ?_
  simp only [BitVec.getLsbD_append, BitVec.getLsbD_extractLsb']
  interval_cases i <;> simp

/-- The fields that `writeJAL` does not take from the offset. -/
theorem ofRaw_writeJAL (offset : Word) :
    (InstJal.ofRaw (writeJAL offset)).opcode = 0x6f ∧
      (InstJal.ofRaw (writeJAL offset)).dest = 0 := by
  rw [writeJAL, InstJal.ofRaw_raw]
  exact ⟨rfl, rfl⟩

/-- All fields that `readJAL` takes from an instruction come back. -/
theorem writeJAL_readJAL (inst : Word) :
    writeJAL (readJAL inst) =
      InstJal.raw { InstJal.ofRaw inst with opcode := 0x6f, dest := 0 } := by
  rw [writeJAL, readJAL, JalOff.ofRaw_raw]

/-- `writeJAL` and `readJAL` are the encoding and the decoding of a `jal` that
links nothing. -/
theorem jal_codec_exact (offset inst : Word) :
    ((writeJAL offset).extractLsb' 0 7 = 0x6f ∧ (writeJAL offset).extractLsb' 7 5 = 0) ∧
      readJAL (writeJAL offset) = jalCut offset ∧
      (readJAL (writeJAL offset) = offset ↔ JalRange offset) ∧
      (decodeJal inst =
        if inst.extractLsb' 0 7 = 0x6f then some ⟨inst.extractLsb' 7 5, readJAL inst⟩ else none) ∧
      (writeJAL (readJAL inst) = inst ↔
        inst.extractLsb' 0 7 = 0x6f ∧ inst.extractLsb' 7 5 = 0) := by
  have hread : readJAL (writeJAL offset) = jalCut offset := by
    rw [readJAL_eq, jalOffset_writeJAL]
  refine ⟨ofRaw_writeJAL offset, hread, ?_, ?_, ?_⟩
  · rw [hread, jalCut_eq_iff]
  · rw [readJAL_eq]
    rfl
  · constructor
    · intro h
      have hfields := ofRaw_writeJAL (readJAL inst)
      rwa [h] at hfields
    · rintro ⟨hopcode, hdest⟩
      have hsame : { InstJal.ofRaw inst with opcode := 0x6f, dest := 0 } = InstJal.ofRaw inst := by
        rw [← hopcode, ← hdest]
        rfl
      rw [writeJAL_readJAL, hsame, InstJal.raw_ofRaw]

/-! ### `init` -/

/-- What `init` finds: the machine, the code of the two handlers, and the memory
that `malloc` returns for the copies of them. -/
structure Boot where
  mstatus : Word
  mtvec : Word
  mem : Word → Word
  customTrap : List Word
  customISR : List Word
  trapMem : Word
  isrMem : Word

/-- The machine and the variables of the kernel, after `init`. -/
structure Hook where
  mstatus : Word
  mem : Word → Word
  interruptPointer : Word
  defaultTrapHandler : Word
  interruptVectorTable : Fin 32 → Word

/-- The vector table. -/
def Boot.table (b : Boot) : Word := b.mtvec &&& 0xfffffffc

/-- Do all generic setup required for user mode. -/
def init (b : Boot) : Hook :=
  -- Disable interrupts.
  let mstatus := b.mstatus &&& ~~~ mieBit
  let interruptPointer := b.table
  let instptr := nth interruptPointer
  -- Read trap address.
  let defaultTrapHandler := readJAL (b.mem interruptPointer) + interruptPointer
  -- Copy customTrap to RAM.
  let mem := memcpy b.mem b.trapMem b.customTrap
  -- Write custom trap address.
  let mem := Function.update mem interruptPointer (writeJAL (b.trapMem - interruptPointer))
  -- Copy customISR to RAM, and read the complete interrupt vector table.
  let mem := memcpy mem b.isrMem b.customISR
  { mstatus := mstatus ||| mieBit
    mem := mem
    interruptPointer := interruptPointer
    defaultTrapHandler := defaultTrapHandler
    interruptVectorTable := fun i => readJAL (mem (instptr i)) + instptr i }

namespace Boot

/-- Where entry `i` of the table goes. -/
def target (b : Boot) (i : ℕ) : Option Word := jalTarget (nth b.table i) (b.mem (nth b.table i))

/-- The table holds jumps, and `malloc` returns memory that is not in use. -/
structure Valid (b : Boot) : Prop where
  jumps : ∀ i < 32, (decodeJal (b.mem (nth b.table i))).isSome
  trapSize : 4 * b.customTrap.length < 2 ^ 32
  trapApart : Apart b.trapMem b.customTrap.length b.table 32
  isrApart : Apart b.isrMem b.customISR.length b.table 32
  copiesApart : Apart b.isrMem b.customISR.length b.trapMem b.customTrap.length

/-- The trap vector is hooked and no handler is lost. -/
structure Hooked (b : Boot) : Prop where
  entry : jalTarget b.table ((init b).mem b.table) = some b.trapMem
  copied : ∀ k (hk : k < b.customTrap.length), (init b).mem (nth b.trapMem k) = b.customTrap[k]
  handler : b.target 0 = some (init b).defaultTrapHandler
  vectors : ∀ i : Fin 32, b.target i = some ((init b).interruptVectorTable i)
  rest : ∀ i : Fin 32, i ≠ 0 → (init b).mem (nth b.table i) = b.mem (nth b.table i)

end Boot

section init

variable {b : Boot}

/-- The entries of the table after `init`. -/
theorem Boot.Valid.mem_table (h : b.Valid) (i : Fin 32) : (init b).mem (nth b.table i) =
    if i = 0 then writeJAL (b.trapMem - b.table) else b.mem (nth b.table i) := by
  have hisr : ∀ k < b.customISR.length, nth b.isrMem k ≠ nth b.table i := fun k hk =>
    h.isrApart.nth_ne hk i.isLt
  have htrap : ∀ k < b.customTrap.length, nth b.trapMem k ≠ nth b.table i := fun k hk =>
    h.trapApart.nth_ne hk i.isLt
  have hfirst : nth b.table i = b.table ↔ i = 0 := by
    constructor
    · intro heq
      have hi := i.isLt
      exact Fin.ext (nth_inj (by omega) (by omega) (heq.trans (nth_zero b.table).symm))
    · rintro rfl
      exact nth_zero b.table
  simp only [init]
  rw [memcpy_of_ne _ _ _ hisr, Function.update_apply, memcpy_of_ne _ _ _ htrap]
  simp only [hfirst]

theorem Boot.Valid.target_eq (h : b.Valid) (i : Fin 32) :
    b.target i = some (nth b.table i + jalOffset (b.mem (nth b.table i))) :=
  jalTarget_of_isSome (h.jumps i i.isLt)

theorem init_interruptVectorTable (b : Boot) (i : Fin 32) : (init b).interruptVectorTable i =
    nth b.table i + jalOffset ((init b).mem (nth b.table i)) := by
  rw [← readJAL_eq, BitVec.add_comm]
  rfl

theorem Boot.Valid.handler (h : b.Valid) : b.target 0 = some (init b).defaultTrapHandler := by
  have htarget := h.target_eq 0
  rw [Fin.val_zero] at htarget
  rw [htarget, nth_zero, ← readJAL_eq, BitVec.add_comm]
  rfl

/-- All entries but the first are read as they were. -/
theorem Boot.Valid.vectors (h : b.Valid) {i : Fin 32} (hi : i ≠ 0) :
    b.target i = some ((init b).interruptVectorTable i) := by
  rw [init_interruptVectorTable, h.mem_table, if_neg hi, h.target_eq]

/-- The first is read as `init` has written it. -/
theorem Boot.Valid.vector_zero (h : b.Valid) :
    (init b).interruptVectorTable 0 = b.table + jalCut (b.trapMem - b.table) := by
  rw [init_interruptVectorTable, h.mem_table, if_pos rfl, jalOffset_writeJAL]
  simp

theorem Boot.Valid.copied (h : b.Valid) (k : ℕ) (hk : k < b.customTrap.length) :
    (init b).mem (nth b.trapMem k) = b.customTrap[k] := by
  have hisr : ∀ j < b.customISR.length, nth b.isrMem j ≠ nth b.trapMem k := fun j hj =>
    h.copiesApart.nth_ne hj hk
  have htable : nth b.trapMem k ≠ b.table := by
    simpa using h.trapApart.nth_ne hk (show 0 < 32 by decide)
  simp only [init]
  rw [memcpy_of_ne _ _ _ hisr, Function.update_of_ne htable,
    memcpy_nth _ _ _ h.trapSize k hk]

/-- `init` hooks the table where the copy is in reach of a jump from the table,
and entry 0 went to it already. -/
theorem init_hooks_iff (b : Boot) (h : b.Valid) :
    b.Hooked ↔ JalRange (b.trapMem - b.table) ∧ b.target 0 = some b.trapMem := by
  have hcut : b.table + jalCut (b.trapMem - b.table) = b.trapMem ↔
      JalRange (b.trapMem - b.table) := by
    rw [← jalCut_eq_iff, BitVec.eq_sub_iff_add_eq, BitVec.add_comm]
  have hentry : jalTarget b.table ((init b).mem b.table) =
      some (b.table + jalCut (b.trapMem - b.table)) := by
    have hmem := h.mem_table 0
    rw [Fin.val_zero, nth_zero, if_pos rfl] at hmem
    rw [hmem, jalTarget_writeJAL]
  constructor
  · intro hhooked
    have hreach : b.table + jalCut (b.trapMem - b.table) = b.trapMem :=
      Option.some.inj (hentry.symm.trans hhooked.entry)
    refine ⟨hcut.mp hreach, ?_⟩
    have hvector := hhooked.vectors 0
    rwa [h.vector_zero, hreach] at hvector
  · rintro ⟨hrange, htarget⟩
    have hreach := hcut.mpr hrange
    refine ⟨by rw [hentry, hreach], h.copied, h.handler, fun i => ?_, fun i hi => ?_⟩
    · by_cases hi : i = 0
      · subst hi
        rw [h.vector_zero, hreach]
        exact htarget
      · exact h.vectors hi
    · rw [h.mem_table, if_neg hi]

end init

/-- A table of jumps that go 256 bytes ahead, with the copies 64 KiB behind it. -/
def Boot.sample : Boot where
  mstatus := 0x8
  mtvec := 0x40380001
  mem _ := 0x1000006f
  customTrap := List.replicate 10 0x13
  customISR := List.replicate 10 0x13
  trapMem := 0x40390000
  isrMem := 0x40390040

theorem Boot.sample_valid : sample.Valid where
  jumps _ _ := show (decodeJal 0x1000006f).isSome by decide
  trapSize := by decide
  trapApart := (apart_of_le (by decide) (by decide)).symm
  isrApart := (apart_of_le (by decide) (by decide)).symm
  copiesApart := (apart_of_le (by decide) (by decide)).symm

theorem init_hooks_iff_sample : Boot.sample.Hooked ↔
    JalRange (0x40390000 - 0x40380000) ∧ Boot.sample.target 0 = some 0x40390000 :=
  init_hooks_iff Boot.sample Boot.sample_valid

/-- The vector of the trap itself is that of the copy: entry 0 went to
0x40380100. -/
theorem init_loses_vector : Boot.sample.Valid ∧ ¬ Boot.sample.Hooked := by
  refine ⟨Boot.sample_valid, fun h => ?_⟩
  have hbefore : Boot.sample.target 0 = some 0x40380100 := by decide
  have hafter : (init Boot.sample).interruptVectorTable 0 = 0x40390000 := by decide
  have hvector := h.vectors 0
  rw [hafter, Fin.val_zero, hbefore] at hvector
  exact absurd hvector (by decide)

end BadgeElfloader.Kernel
