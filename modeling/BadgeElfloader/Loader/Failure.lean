import BadgeElfloader.Abi.Ranges
import BadgeElfloader.Loader.Linkage

/-!
What a load that fails leaves behind.

`loadLibrary` maps memory in the context of the process before it knows that the
load succeeds, and no failure path takes it out of the context again. The one
that frees something frees the memory cookie, which the context still lists.
-/

namespace BadgeElfloader.Loader

open Riscv (Word)
open Abi

/-- What a `map` call returns, and the block it gets, do not depend on what is
mapped already. -/
theorem map_indep (c c' : Context) (allocator : Allocator) (minLength : Word)
    (allowWrite allowExec : Bool) (minAlign : Word) :
    (c.map allocator minLength allowWrite allowExec minAlign).1 =
        (c'.map allocator minLength allowWrite allowExec minAlign).1 ∧
      (c.map allocator minLength allowWrite allowExec minAlign).2.2 =
        (c'.map allocator minLength allowWrite allowExec minAlign).2.2 := by
  unfold Context.map
  split
  · exact ⟨rfl, rfl⟩
  · simp only
    split <;> exact ⟨rfl, rfl⟩

/-- The blocks that a run of `load` gets from its callback. -/
def LoadM.blocks (allocators : ℕ → Allocator) : LoadM → ℕ → List MemRange
  | .done _, _ => []
  | .alloc _ len align k, i =>
      let r := Context.empty.map (allocators i) len true true align
      r.2.2.toList ++ (k r.1).blocks allocators (i + 1)

/-- `map` refuses a request. -/
def Refused (allocator : Allocator) (len align : Word) : Prop :=
  align &&& (align - 1) ≠ 0 ∨ len = 0 ∨
    (requestBlock allocator (roundedLength len (alignment align)) (alignment align) true
      true).base = 0

/-- All requests of a run of `load` are refused, and its callback returns 0. -/
def LoadM.Refused (allocators : ℕ → Allocator) : LoadM → ℕ → Prop
  | .done _, _ => True
  | .alloc _ len align k, i =>
      Loader.Refused (allocators i) len align ∧ (k 0).Refused allocators (i + 1)

/-- `load` returns a value of its callback as `memory_cookie`; `given` lists the
values so far. -/
def LoadM.KeepsCookie : LoadM → List Word → Prop
  | .done prog, given => ∀ p, prog = some p → p.memoryCookie ∈ given
  | .alloc _ _ _ k, given => ∀ mem, (k mem).KeepsCookie (mem :: given)

/-- The blocks that a call of `loadLibrary` gets. -/
def Linkage.blocks {File Elf : Type} (l : Linkage Elf) (lib : ElfLib File Elf)
    (allocators : ℕ → Allocator) (r : Registry) (fd : File) : List MemRange :=
  if l.linkAttempted then []
  else if (r.getContext l.pid).isNone then []
  else (lib.readDyn fd).elim [] fun elf => (lib.load elf).blocks allocators 0

/-- A call that fails leaves the linkage and the lists of the context as they
were, and has released each block it got once. Any call of `free` with the base
of a block counts as its release; null may be freed freely. -/
structure Undone {Elf : Type} (l l' : Linkage Elf) (r r' : Registry) (blocks : List MemRange)
    (freed : List Word) : Prop where
  loaded : l'.loaded = l.loaded
  files : l'.files = l.files
  filenames : l'.filenames = l.filenames
  hasExecutable : l'.hasExecutable = l.hasExecutable
  entryFunc : l'.entryFunc = l.entryFunc
  context : ∀ c, r.getContext l.pid = some c → ∃ c', r'.getContext l.pid = some c' ∧
    c'.actual = c.actual ∧ c'.mapped = c.mapped
  released : (freed.filter (· ≠ 0)).Perm (blocks.map MemRange.base)

/-! ### The context -/

theorem apply_map_actual (c : Context) (allocator : Allocator) (len align : Word) :
    (c.apply (.map allocator len true true align)).actual =
      c.actual ++ (Context.empty.map allocator len true true align).2.2.toList := by
  rw [← (map_indep c Context.empty allocator len true true align).2]
  obtain hmap | ⟨base, length, mem, hmap⟩ := c.map_cases allocator len true true align <;>
    rw [Context.apply, hmap] <;> simp

/-- Without a block, `map` returns 0 and changes nothing. -/
theorem apply_map_none {allocator : Allocator} {len align : Word}
    (h : (Context.empty.map allocator len true true align).2.2 = none) (c : Context) :
    c.apply (.map allocator len true true align) = c ∧
      (Context.empty.map allocator len true true align).1 = 0 := by
  have hindep := map_indep c Context.empty allocator len true true align
  rw [← hindep.2] at h
  rw [← hindep.1]
  obtain hmap | ⟨base, length, mem, hmap⟩ := c.map_cases allocator len true true align
  · rw [Context.apply, hmap]
    exact ⟨rfl, rfl⟩
  · simp [hmap] at h

theorem refused_iff (allocator : Allocator) (len align : Word) :
    Refused allocator len align ↔
      (Context.empty.map allocator len true true align).2.2 = none := by
  constructor
  · rintro (halign | hlen | hnull)
    · rw [Context.map_refused (.inl halign)]
    · rw [Context.map_refused (.inr hlen)]
    · rw [Context.map_null hnull]
  · intro hnone
    by_contra hgranted
    simp only [Refused, not_or] at hgranted
    obtain ⟨halign, hlen, hbase⟩ := hgranted
    rw [Context.map_granted (not_or.mpr ⟨halign, hlen⟩) rfl hbase] at hnone
    cases hnone

variable {allocators : ℕ → Allocator} {pid : Pid} {r : Registry} {c : Context} {m : LoadM} {i : ℕ}

theorem LoadM.blocks_eq_nil_iff : m.blocks allocators i = [] ↔ m.Refused allocators i := by
  induction m generalizing i with
  | done prog => simp [blocks, LoadM.Refused]
  | alloc vaddr len align k ih =>
      rw [blocks, LoadM.Refused, List.append_eq_nil_iff, Option.toList_eq_nil_iff, refused_iff]
      refine and_congr_right fun hnone => ?_
      rw [(apply_map_none hnone Context.empty).2]
      exact ih 0

/-- The blocks of a run of `load` end up in the context. -/
theorem LoadM.run_actual (hc : r.contextMap pid = some c) :
    ∃ c', (m.run allocators pid i r).2.contextMap pid = some c' ∧
      c'.actual = c.actual ++ m.blocks allocators i := by
  induction m generalizing i r c with
  | done prog => exact ⟨c, hc, by simp [blocks]⟩
  | alloc vaddr len align k ih =>
      have happly : (r.apply pid (.map (allocators i) len true true align)).contextMap pid =
          some (c.apply (.map (allocators i) len true true align)) := by
        rw [Registry.apply_contextMap, if_pos rfl, hc]
        rfl
      obtain ⟨c', hc', hactual⟩ := ih ((c.map (allocators i) len true true align).1) happly
      refine ⟨c', ?_, ?_⟩
      · simpa [LoadM.run, Registry.getContext, hc] using hc'
      · rw [hactual, apply_map_actual, blocks, List.append_assoc,
          (map_indep c Context.empty (allocators i) len true true align).1]

/-- A run of `load` without a block changes nothing, and has no cookie to free. -/
theorem LoadM.run_noBlocks (hc : r.contextMap pid = some c) (hblocks : m.blocks allocators i = [])
    {given : List Word} (hcookie : m.KeepsCookie given) (hgiven : ∀ w ∈ given, w = 0) :
    (m.run allocators pid i r).2.contextMap pid = some c ∧
      ∀ p, (m.run allocators pid i r).1 = some p → p.memoryCookie = 0 := by
  induction m generalizing i r given with
  | done prog => exact ⟨hc, fun p hp => hgiven _ (hcookie p hp)⟩
  | alloc vaddr len align k ih =>
      obtain ⟨hnone, hrest⟩ := List.append_eq_nil_iff.mp hblocks
      obtain ⟨happly, hzero⟩ := apply_map_none (Option.toList_eq_nil_iff.mp hnone) c
      have hmem := (map_indep c Context.empty (allocators i) len true true align).1.trans hzero
      have hc' :
          (r.apply pid (.map (allocators i) len true true align)).contextMap pid = some c := by
        rw [Registry.apply_contextMap, if_pos rfl, hc, Option.map_some, happly]
      rw [hzero] at hrest
      have hrun := ih 0 hc' hrest (hcookie 0) (by simpa using hgiven)
      simpa [LoadM.run, Registry.getContext, hc, hmem] using hrun

/-! ### Calls that fail -/

section failed

variable {File Elf : Type} {l : Linkage Elf} {lib : ElfLib File Elf} {filename : String} {fd : File}

/-- All that a call gets stays in the context. -/
theorem loadLibrary_actual (lib : ElfLib File Elf) (allocators : ℕ → Allocator) (filename : String)
    (fd : File) (hc : r.getContext l.pid = some c) :
    ∃ c', (l.loadLibrary lib allocators r filename fd).2.2.1.getContext l.pid = some c' ∧
      c'.actual = c.actual ++ l.blocks lib allocators r fd := by
  unfold Linkage.loadLibrary Linkage.blocks
  split
  · exact ⟨c, hc, by simp⟩
  · split
    · rename_i hnone
      simp [hc] at hnone
    · cases hdyn : lib.readDyn fd with
      | none => exact ⟨c, hc, by simp⟩
      | some elf =>
          obtain ⟨c', hc', hactual⟩ :
              ∃ c', ((lib.load elf).run allocators l.pid 0 r).2.contextMap l.pid = some c' ∧
                c'.actual = c.actual ++ (lib.load elf).blocks allocators 0 := LoadM.run_actual hc
          refine ⟨c', ?_, hactual⟩
          dsimp only
          split <;> rename_i hrun <;> rw [hrun] at hc'
          · exact hc'
          · split <;> exact hc'

/-- A call that gets no block changes no context, and frees nothing but null. -/
theorem loadLibrary_noBlocks (filename : String)
    (hcookie : ∀ elf, (lib.load elf).KeepsCookie [])
    (hc : r.getContext l.pid = some c) (hblocks : l.blocks lib allocators r fd = []) :
    (l.loadLibrary lib allocators r filename fd).2.2.1.getContext l.pid = some c ∧
      ∀ a ∈ (l.loadLibrary lib allocators r filename fd).2.2.2, a = 0 := by
  unfold Linkage.loadLibrary
  unfold Linkage.blocks at hblocks
  split
  · exact ⟨hc, nofun⟩
  · rename_i hattempted
    split
    · exact ⟨hc, nofun⟩
    · rename_i hlive
      rw [if_neg hattempted, if_neg hlive] at hblocks
      cases hdyn : lib.readDyn fd with
      | none => exact ⟨hc, nofun⟩
      | some elf =>
          rw [hdyn] at hblocks
          obtain ⟨hctx, hzero⟩ := LoadM.run_noBlocks hc hblocks (hcookie elf) (by simp)
          dsimp only
          split <;> rename_i hrun <;> rw [hrun] at hctx hzero
          · exact ⟨hctx, nofun⟩
          · split
            · exact ⟨hctx, nofun⟩
            · exact ⟨hctx, by simpa using hzero⟩

theorem undone_iff_blocks (hcookie : ∀ elf, (lib.load elf).KeepsCookie [])
    (hfail : (l.loadLibrary lib allocators r filename fd).1 = none) :
    Undone l (l.loadLibrary lib allocators r filename fd).2.1 r
        (l.loadLibrary lib allocators r filename fd).2.2.1 (l.blocks lib allocators r fd)
        (l.loadLibrary lib allocators r filename fd).2.2.2 ↔
      l.blocks lib allocators r fd = [] := by
  constructor
  · intro h
    cases hc : r.getContext l.pid with
    | none => simp [Linkage.blocks, hc]
    | some c =>
        obtain ⟨c₁, hc₁, hkept, -⟩ := h.context c hc
        obtain ⟨c₂, hc₂, hactual⟩ := loadLibrary_actual lib allocators filename fd hc
        obtain rfl := Option.some.inj (hc₁.symm.trans hc₂)
        simpa [hactual] using hkept
  · intro hblocks
    obtain ⟨symbols, r', freed, hload⟩ | ⟨-, symbols, load, r', -, hload⟩ :=
      l.loadLibrary_cases lib allocators r filename fd
    · have hfreed : ∀ a ∈ freed, a = 0 := by
        cases hc : r.getContext l.pid with
        | none =>
            have hnone : l.loadLibrary lib allocators r filename fd = (none, l, r, []) := by
              simp [Linkage.loadLibrary, hc]
            rw [hnone] at hload
            obtain rfl := congrArg (fun x => x.2.2.2) hload
            exact fun a ha => by cases ha
        | some c =>
            have hzero := (loadLibrary_noBlocks filename hcookie hc hblocks).2
            rwa [hload] at hzero
      rw [hload, hblocks]
      refine ⟨rfl, rfl, rfl, rfl, rfl, fun c hc => ⟨c, ?_, rfl, rfl⟩, ?_⟩
      · have hctx := (loadLibrary_noBlocks filename hcookie hc hblocks).1
        rwa [hload] at hctx
      · rw [List.filter_eq_nil_iff.mpr (by simpa using hfreed)]
        rfl
    · rw [hload] at hfail
      cases hfail

theorem blocks_eq_nil_iff : l.blocks lib allocators r fd = [] ↔
    l.linkAttempted ∨ r.getContext l.pid = none ∨
      ∀ elf, lib.readDyn fd = some elf → (lib.load elf).Refused allocators 0 := by
  rw [Linkage.blocks, ← Option.isNone_iff_eq_none]
  cases l.linkAttempted with
  | true => simp
  | false =>
      cases (r.getContext l.pid).isNone with
      | true => simp
      | false => cases lib.readDyn fd <;> simp [LoadM.blocks_eq_nil_iff]

end failed

/-- A load that fails leaves everything as it was exactly if it is over before
it asks for memory, or all its requests are refused. -/
theorem failed_load_undone_iff {File Elf : Type} (l : Linkage Elf) (lib : ElfLib File Elf)
    (allocators : ℕ → Allocator) (r : Registry) (filename : String) (fd : File)
    (hcookie : ∀ elf, (lib.load elf).KeepsCookie [])
    (hfail : (l.loadLibrary lib allocators r filename fd).1 = none) :
    Undone l (l.loadLibrary lib allocators r filename fd).2.1 r
        (l.loadLibrary lib allocators r filename fd).2.2.1 (l.blocks lib allocators r fd)
        (l.loadLibrary lib allocators r filename fd).2.2.2 ↔
      l.linkAttempted ∨ r.getContext l.pid = none ∨
        ∀ elf, lib.readDyn fd = some elf → (lib.load elf).Refused allocators 0 :=
  (undone_iff_blocks hcookie hfail).trans blocks_eq_nil_iff

/-- A library of 200 bytes, aligned to 64, whose symbols cannot be exported. -/
def badSymbols : ElfLib Unit Unit where
  readDyn _ := some ()
  load _ := .alloc 0x10000 200 64 fun mem => .done (if mem = 0 then none else some ⟨mem, mem⟩)
  exportSymbols _ _ symbols := (false, symbols)
  relocate _ _ _ _ := true
  getDynLibs _ := []

theorem badSymbols_keepsCookie : ∀ elf, (badSymbols.load elf).KeepsCookie [] := by
  intro elf mem p hp
  split at hp
  · cases hp
  · obtain rfl := Option.some.inj hp
    exact List.mem_singleton_self mem

/-- Out of memory, the load fails and leaves no trace. -/
theorem failed_load_undone_iff_sample :
    Undone (Linkage.new 1) (Linkage.new 1 : Linkage Unit) Registry.initial.newContext.2
      ((Linkage.new 1).loadLibrary badSymbols (fun _ _ _ _ => ⟨0, 0⟩)
        Registry.initial.newContext.2 "libfoo.so" ()).2.2.1 [] [] := by
  have h := failed_load_undone_iff (Linkage.new 1) badSymbols (fun _ _ _ _ => ⟨0, 0⟩)
    Registry.initial.newContext.2 "libfoo.so" () badSymbols_keepsCookie rfl
  exact h.mpr (.inr (.inr fun _ _ => ⟨.inr (.inr rfl), trivial⟩))

/-- A load of it into a new context. -/
def badLoad : Option (Load Unit) × Linkage Unit × Registry × List Word :=
  (Linkage.new 1).loadLibrary badSymbols (fun _ len _ _ => ⟨0x3fc90004, len⟩)
    Registry.initial.newContext.2 "libfoo.so" ()

/-- An address inside of the block has been freed, and the destructor of the
context will free the block. -/
theorem failed_load_keeps_block :
    (∀ elf, (badSymbols.load elf).KeepsCookie []) ∧ badLoad.1.isNone ∧
      badLoad.2.2.2 = [0x3fc90040] ∧
      (badLoad.2.2.1.deleteContext 1).2.2 = [⟨0x3fc90004, 320⟩] ∧
      ¬ Undone (Linkage.new 1) badLoad.2.1 Registry.initial.newContext.2 badLoad.2.2.1
        ((Linkage.new 1).blocks badSymbols (fun _ len _ _ => ⟨0x3fc90004, len⟩)
          Registry.initial.newContext.2 ()) badLoad.2.2.2 := by
  refine ⟨badSymbols_keepsCookie, by decide, by decide, by decide, fun h => ?_⟩
  obtain ⟨c', hc', hactual, -⟩ := h.context _ rfl
  obtain rfl := Option.some.inj hc'
  exact absurd hactual (by decide)

end BadgeElfloader.Loader
