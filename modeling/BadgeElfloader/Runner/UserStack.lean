import BadgeElfloader.Abi.Grants
import BadgeElfloader.Kernel.Process

/-!
`runUserCode`, which gives a program its stack and enters it.

This is the kernel build. The stack is a mapping of the process's context with
the default alignment of `map`, and the stack pointer is its upper end.
-/

namespace BadgeElfloader.Runner

open Riscv (Word Machine)
open Kernel Abi

/-- How `runUserCode` goes on: it returns, or it makes the system call that
enters the program. -/
inductive UserCode
  | returned (success : Bool) (ec : Int32)
  | userjump (s : Machine)

/-- `CONFIG_BADGERT_STACK_DEPTH * sizeof(long)` -/
def stackBytes (depth : ℕ) : Word := BitVec.ofNat 32 depth * wordSize

/-- Set up user context and run user code. The machine is in state `s`, and
`kctx` is the address of the kernel context. -/
def runUserCode (s : Machine) (kctx : Word) (entryFunc abiTable abiTableSize : Word)
    (actx : Context) (allocator : Allocator) (depth : ℕ) : UserCode × Context :=
  let s := clearURegs s kctx
  -- Allocate user stack.
  let r := actx.map allocator (stackBytes depth) true false wordSize
  let s := s.store (kctx + (Field.uReg .sp).offset) r.1
  if r.1 = 0 then (.returned false (-1), r.2.1)
  else
    let s := s.store (kctx + (Field.uReg .sp).offset) (r.1 + stackBytes depth)
    -- Set up usermode registers.
    let s := s.store (kctx + Field.uAbiTable.offset) abiTable
    let s := s.store (kctx + Field.uAbiSize.offset) abiTableSize
    let s := s.store (kctx + Field.uPc.offset) entryFunc
    let s := s.store (kctx + (Field.uReg .gp).offset) (s.regs .gp)
    let s := s.store (kctx + (Field.uReg .tp).offset) (s.regs .tp)
    -- Run user program.
    let s := setCtx s kctx
    (.userjump (s.exec [.li .a0 sysUserjump]), r.2.1)

/-- A stack pointer with the stack below it, as the program may rely on them:
`actx` is the context with the stack, `mapped` what was mapped in it before, and
`gs` the requests behind that. -/
structure ValidStack (actx : Context) (mapped : List MemMapped) (gs : List Grant) (depth : ℕ)
    (sp : Word) : Prop where
  aligned : 16 ∣ sp.toNat
  owned : ∃ block ∈ actx.actual, block.Covers (sp - stackBytes depth).toNat (4 * depth)
  mappings : ∀ m ∈ mapped, ¬ Overlaps (sp - stackBytes depth) (4 * depth) m.promise.base
    m.promise.length.toNat
  images : ∀ g ∈ gs, ¬ Overlaps (sp - stackBytes depth) (4 * depth) g.base g.minLength.toNat

/-- Where the program is entered, it has a valid stack, and where there is no
stack it is not entered. -/
structure EntersWithStack (env : Env) (s : Machine) (kctx entryFunc abiTable abiTableSize : Word)
    (actx : Context) (gs : List Grant) (allocator : Allocator) (depth : ℕ) : Prop where
  failed : (actx.map allocator (stackBytes depth) true false wordSize).1 = 0 →
    (runUserCode s kctx entryFunc abiTable abiTableSize actx allocator depth).1 =
      .returned false (-1)
  entered : ∀ call, (runUserCode s kctx entryFunc abiTable abiTableSize actx allocator depth).1 =
      .userjump call →
    ∃ h t, trap env call 11 = .mret h t ∧ t.mret.priv = .user ∧
      ValidStack (runUserCode s kctx entryFunc abiTable abiTableSize actx allocator depth).2
        actx.mapped gs depth (t.mret.regs .sp)

section stack

variable {env : Env} {s : Machine} {kctx entryFunc abiTable abiTableSize : Word} {actx : Context}
  {gs : List Grant} {allocator : Allocator} {depth : ℕ}

theorem stackBytes_toNat (hdepth : 4 * depth < 2 ^ 32) : (stackBytes depth).toNat = 4 * depth := by
  have hword : wordSize.toNat = 4 := rfl
  rw [stackBytes, BitVec.toNat_mul, BitVec.toNat_ofNat, hword]
  omega

/-- The request for the stack is passed on as it is. -/
theorem map_stack (hdepth : 4 * depth < 2 ^ 32) (hpos : depth ≠ 0) :
    actx.map allocator (stackBytes depth) true false wordSize =
      if (allocator (stackBytes depth) true false).base = 0 then (0, actx, none)
      else ((allocator (stackBytes depth) true false).base,
        { actx with
          actual := actx.actual ++ [allocator (stackBytes depth) true false]
          mapped := actx.mapped ++ [⟨⟨(allocator (stackBytes depth) true false).base,
            stackBytes depth⟩, actx.actual.length⟩] },
        some (allocator (stackBytes depth) true false)) := by
  have hbytes := stackBytes_toNat hdepth
  have hvalid : ¬(wordSize &&& (wordSize - 1) ≠ 0 ∨ stackBytes depth = 0) := by
    rintro (h | h)
    · exact h rfl
    · have hzero : (0 : Word).toNat = 0 := rfl
      rw [h, hzero] at hbytes
      omega
  have hrounded : roundedLength (stackBytes depth) (alignment wordSize) = stackBytes depth := by
    have hmod : stackBytes depth % wordSize = 0 := by
      refine BitVec.eq_of_toNat_eq ?_
      rw [BitVec.toNat_umod, hbytes]
      exact Nat.mul_mod_right 4 depth
    exact if_neg (not_not.mpr hmod)
  split
  · rename_i hnull
    exact Context.map_null (by rw [hrounded]; exact hnull)
  · rename_i hbase
    rw [Context.map_granted hvalid rfl (by rw [hrounded]; exact hbase), hrounded]
    rfl

/-- The stack pointer that the program is entered with. -/
theorem runUserCode_enters (env : Env) (s : Machine) (kctx entryFunc abiTable abiTableSize : Word)
    (actx : Context) (allocator : Allocator) (depth : ℕ) {call : Machine}
    (hcall : (runUserCode s kctx entryFunc abiTable abiTableSize actx allocator depth).1 =
      .userjump call) :
    ∃ h t, trap env call 11 = .mret h t ∧ t.mret.priv = .user ∧ t.mret.regs .sp =
      (actx.map allocator (stackBytes depth) true false wordSize).1 + stackBytes depth := by
  unfold runUserCode at hcall
  dsimp only at hcall
  split at hcall
  · cases hcall
  · have heq := (UserCode.userjump.inj hcall).symm
    have hctx : call.mscratch = kctx := by simp [heq, setCtx, Riscv.Instr.exec]
    have ha0 : call.regs .a0 = sysUserjump := by simp [heq, setCtx, Riscv.Instr.exec]
    have hsuper : field call kctx .isSuper = 1 := by simp [heq, setCtx, Riscv.Instr.exec]
    have hsp : field call kctx (.uReg .sp) =
        (actx.map allocator (stackBytes depth) true false wordSize).1 + stackBytes depth := by
      simp [heq, setCtx, Riscv.Instr.exec]
    obtain ⟨t, ht, hent, -⟩ := trap_kernel env (s := call) (by rw [hctx, hsuper]; decide) (.inl ha0)
    refine ⟨_, t, ht, hent.priv, ?_⟩
    rw [hent.regs .sp (by simp [Env.saves]), (hent.userjump ha0).2 .sp, hctx, hsp]

theorem runUserCode_context (s : Machine) (kctx entryFunc abiTable abiTableSize : Word)
    (actx : Context) (allocator : Allocator) (depth : ℕ) :
    (runUserCode s kctx entryFunc abiTable abiTableSize actx allocator depth).2 =
      (actx.map allocator (stackBytes depth) true false wordSize).2.1 := by
  unfold runUserCode
  dsimp only
  split <;> rfl

theorem runUserCode_failed
    (hmap : (actx.map allocator (stackBytes depth) true false wordSize).1 = 0) :
    (runUserCode s kctx entryFunc abiTable abiTableSize actx allocator depth).1 =
      .returned false (-1) := by
  unfold runUserCode
  dsimp only
  rw [if_pos hmap]

theorem runUserCode_userjump
    (hmap : (actx.map allocator (stackBytes depth) true false wordSize).1 ≠ 0) :
    ∃ call, (runUserCode s kctx entryFunc abiTable abiTableSize actx allocator depth).1 =
      .userjump call := by
  unfold runUserCode
  dsimp only
  rw [if_neg hmap]
  exact ⟨_, rfl⟩

/-- Without a stack there is nothing to enter. -/
theorem EntersWithStack.of_failed
    (hmap : (actx.map allocator (stackBytes depth) true false wordSize).1 = 0) :
    EntersWithStack env s kctx entryFunc abiTable abiTableSize actx gs allocator depth where
  failed _ := runUserCode_failed hmap
  entered call hcall := by
    rw [runUserCode_failed hmap] at hcall
    cases hcall

/-- With a stack, everything depends on the stack pointer. -/
theorem entersWithStack_iff_validStack
    (hmap : (actx.map allocator (stackBytes depth) true false wordSize).1 ≠ 0) :
    EntersWithStack env s kctx entryFunc abiTable abiTableSize actx gs allocator depth ↔
      ValidStack (actx.map allocator (stackBytes depth) true false wordSize).2.1 actx.mapped gs
        depth ((actx.map allocator (stackBytes depth) true false wordSize).1 +
          stackBytes depth) := by
  constructor
  · intro h
    obtain ⟨call, hcall⟩ := runUserCode_userjump (s := s) hmap
    obtain ⟨h₁, t₁, ht₁, -, hvalid⟩ := h.entered call hcall
    obtain ⟨h₂, t₂, ht₂, -, hsp⟩ := runUserCode_enters env s kctx entryFunc abiTable abiTableSize
      actx allocator depth hcall
    obtain ⟨rfl, rfl⟩ := Trapped.mret.inj (ht₁.symm.trans ht₂)
    rwa [hsp, runUserCode_context] at hvalid
  · intro hvalid
    refine ⟨fun hzero => absurd hzero hmap, fun call hcall => ?_⟩
    obtain ⟨h, t, ht, hpriv, hsp⟩ := runUserCode_enters env s kctx entryFunc abiTable abiTableSize
      actx allocator depth hcall
    exact ⟨h, t, ht, hpriv, by rwa [hsp, runUserCode_context]⟩

/-- There is no stack, or its upper end is aligned and no earlier request that
did not fit reaches into it. -/
def StackFits (gs : List Grant) (allocator : Allocator) (depth : ℕ) : Prop :=
  let mem := allocator (stackBytes depth) true false
  depth = 0 ∨ mem.base = 0 ∨ 16 ∣ mem.base.toNat + 4 * depth ∧
    ∀ g ∈ gs, ¬ Fits g.minLength g.minAlign → ¬ Overlaps mem.base (4 * depth) g.base g.extent

/-- A program is entered with a valid stack exactly if the allocator happens to
put the stack where `StackFits` says. -/
theorem user_stack_valid_iff (env : Env) (s : Machine)
    (kctx entryFunc abiTable abiTableSize : Word) (h : Granted actx gs)
    (hhonours : Honours allocator actx.actual) (hdepth : 4 * depth < 2 ^ 32) :
    EntersWithStack env s kctx entryFunc abiTable abiTableSize actx gs allocator depth ↔
      StackFits gs allocator depth := by
  have hb := h.books
  by_cases hpos : depth = 0
  · refine iff_of_true (.of_failed ?_) (.inl hpos)
    rw [hpos, show stackBytes 0 = 0 from rfl, Context.map_refused (.inr rfl)]
  have hmap : actx.map allocator (stackBytes depth) true false wordSize = _ :=
    map_stack hdepth hpos
  obtain ⟨hconf, hdisjoint⟩ := hhonours
  have hanswer := hconf (stackBytes depth) true false
  have hapart := hdisjoint (stackBytes depth) true false
  unfold StackFits
  generalize allocator (stackBytes depth) true false = mem at *
  by_cases hnull : mem.base = 0
  · rw [if_pos hnull] at hmap
    exact iff_of_true (.of_failed (by rw [hmap])) (.inr (.inl hnull))
  rw [if_neg hnull] at hmap
  obtain ⟨hlong, hbounded, -⟩ := hanswer.resolve_left hnull
  have hapart := hapart.resolve_left hnull
  have hbytes := stackBytes_toNat hdepth
  rw [hbytes] at hlong
  have hcovers : mem.Covers mem.base.toNat (4 * depth) := ⟨le_refl _, by omega⟩
  have hsub : mem.base + stackBytes depth - stackBytes depth = mem.base :=
    BitVec.add_sub_cancel _ _
  have haligned : 16 ∣ (mem.base + stackBytes depth).toNat ↔ 16 ∣ mem.base.toNat + 4 * depth := by
    rw [BitVec.toNat_add, hbytes]
    omega
  rw [entersWithStack_iff_validStack (by rw [hmap]; exact hnull), hmap]
  constructor
  · rintro ⟨halign, -, hmappings, himages⟩
    rw [hsub] at hmappings himages
    refine .inr (.inr ⟨haligned.mp halign, fun g hg _ => ?_⟩)
    exact (hb.apart_iff mem.base (4 * depth)).mp ⟨hmappings, himages⟩ g hg
  · intro hfits
    obtain ⟨halign, hwrapped⟩ := (hfits.resolve_left hpos).resolve_left hnull
    have hall : ∀ g ∈ gs, ¬ Overlaps mem.base (4 * depth) g.base g.extent := by
      intro g hg
      by_cases hg' : Fits g.minLength g.minAlign
      · exact hb.apart_of_fits hapart hbounded hcovers hg hg'
      · exact hwrapped g hg hg'
    obtain ⟨hmappings, himages⟩ := (hb.apart_iff mem.base (4 * depth)).mpr hall
    refine ⟨haligned.mpr halign, ⟨mem, by simp, by rwa [hsub]⟩, ?_, ?_⟩
    · rwa [hsub]
    · rwa [hsub]

/-- An allocator with one block, of any length, at a fixed address. -/
def heapAt (base : Word) : Allocator := fun length _ _ =>
  if base.toNat + length.toNat ≤ 2 ^ 32 then ⟨base, length⟩ else ⟨0, 0⟩

theorem heapAt_honours {base : Word} {inUse : List MemRange} (hbase : 4 ∣ base.toNat)
    (hbelow : ∀ b ∈ inUse, b.base.toNat + b.length.toNat ≤ base.toNat) :
    Honours (heapAt base) inUse := by
  refine ⟨fun length _ _ => ?_, fun length _ _ => ?_⟩ <;> unfold heapAt <;> split
  · rename_i hfit
    exact .inr ⟨le_refl _, hfit, hbase⟩
  · exact .inl rfl
  · refine .inr fun b hb a h => ?_
    have hend := hbelow b hb
    obtain ⟨hstart, -, -, hlt⟩ := h
    simp only at hstart
    omega
  · exact .inl rfl

/-- A process with an image of 510 bytes, and 100 bytes that were mapped after
that. -/
def loadedSample : Context where
  actual := [⟨0x3fc00000, 512⟩, ⟨0x3fc00400, 100⟩]
  mapped := [⟨⟨0x3fc00000, 512⟩, 0⟩, ⟨⟨0x3fc00400, 100⟩, 1⟩]
  pid := 1

def loadedGrants : List Grant :=
  [⟨⟨0x3fc00000, ⟨0x3fc00000, 512⟩⟩, 510, 4⟩, ⟨⟨0x3fc00400, ⟨0x3fc00400, 100⟩⟩, 100, 4⟩]

theorem loadedSample_granted : Granted loadedSample loadedGrants := by
  let image : Context := ⟨[⟨0x3fc00000, 512⟩], [⟨⟨0x3fc00000, 512⟩, 0⟩], 1⟩
  have himage : (⟨[], [], 1⟩ : Context).map (heapAt 0x3fc00000) 510 true true 4 =
      (0x3fc00000, image, some ⟨0x3fc00000, 512⟩) := by decide
  have hmore : image.map (heapAt 0x3fc00400) 100 true false 4 =
      (0x3fc00400, loadedSample, some ⟨0x3fc00400, 100⟩) := by decide
  exact .map (.map (.empty 1) (heapAt_honours (by decide) nofun) himage)
    (heapAt_honours (by decide) (by decide)) hmore

theorem loadedGrants_fit : ∀ g ∈ loadedGrants, Fits g.minLength g.minAlign := by
  intro g hg
  simp only [loadedGrants, List.mem_cons, List.not_mem_nil, or_false] at hg
  rcases hg with rfl | rfl <;> exact .inr (.inr ⟨by decide, by decide⟩)

theorem user_stack_valid_iff_sample :
    EntersWithStack .sample kernelStart 0x1000 0x3fc00000 0x3fc20000 8 loadedSample loadedGrants
      (heapAt 0x3fc01000) 4096 :=
  (user_stack_valid_iff .sample kernelStart 0x1000 0x3fc00000 0x3fc20000 8 loadedSample_granted
    (heapAt_honours (by decide) (by decide)) (by decide)).mpr
      (.inr (.inr ⟨by decide, fun g hg hwraps => absurd (loadedGrants_fit g hg) hwraps⟩))

/-- The stack pointer is 0x3fc05004. -/
theorem user_stack_misaligned : Granted loadedSample loadedGrants ∧
    Honours (heapAt 0x3fc01004) loadedSample.actual ∧
    ¬ EntersWithStack .sample kernelStart 0x1000 0x3fc00000 0x3fc20000 8 loadedSample loadedGrants
      (heapAt 0x3fc01004) 4096 := by
  refine ⟨loadedSample_granted, heapAt_honours (by decide) (by decide), fun h => ?_⟩
  have hmap : (loadedSample.map (heapAt 0x3fc01004) (stackBytes 4096) true false wordSize).1 =
      0x3fc01004 := by decide
  rw [entersWithStack_iff_validStack (by rw [hmap]; decide), hmap] at h
  exact absurd h.aligned (by decide)

end stack

end BadgeElfloader.Runner
