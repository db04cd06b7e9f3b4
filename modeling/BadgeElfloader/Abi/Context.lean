import BadgeElfloader.Riscv.Machine
import Mathlib.Data.List.InsertIdx
import Mathlib.Data.List.Perm.Basic

/-!
`abi::Context`, the memory of a process.

A context keeps two vectors in step by position alone: `actual` has the blocks
the allocator gave, `mapped` what was promised to the process out of each. The
address that is handed out need not be the address of the block. `Lifetime` is
a context together with the history of its calls, and `Lifetime.Exact` says
that the two vectors are the two columns of the list of live mappings.
-/

namespace BadgeElfloader.Abi

open Riscv (Word)

/-- Represents a range of memory. -/
structure MemRange where
  base : Word
  length : Word
  deriving DecidableEq, Repr

/-- Determine whether an address falls within this range. -/
def MemRange.contains (r : MemRange) (addr : Word) : Bool :=
  decide (r.base ≤ addr) && decide (addr < r.base + r.length)

/-- Represents a mapped range of memory: the promised range, and the index of
the actual one. -/
structure MemMapped where
  promise : MemRange
  actual : ℕ
  deriving DecidableEq, Repr

structure Context where
  actual : List MemRange
  mapped : List MemMapped
  pid : BitVec 32
  deriving DecidableEq, Repr

/-- `Context()`; the `pid` is set by `newContext`. -/
def Context.empty : Context := ⟨[], [], 0⟩

/-- `sizeof(size_t)`. -/
def wordSize : Word := 4

/-- What the allocator answers to a length and the two permissions. -/
abbrev Allocator := Word → Bool → Bool → MemRange

/-- The alignment and the length that `map` goes on with. -/
def alignment (minAlign : Word) : Word := if minAlign ≤ wordSize then wordSize else minAlign

def roundedLength (minLength align : Word) : Word :=
  if minLength % align ≠ 0 then minLength + (align - minLength % align) else minLength

/-- Alignment beyond what the allocator guarantees is paid for with length. -/
def requestBlock (allocator : Allocator) (length align : Word) (allowWrite allowExec : Bool) :
    MemRange :=
  if align ≤ wordSize then allocator length allowWrite allowExec
  else allocator (length + align) allowWrite allowExec

/-- The address handed out of a block. -/
def alignedBase (mem : MemRange) (align : Word) : Word :=
  if align ≤ wordSize then mem.base
  else if mem.base % align ≠ 0 then mem.base + align - mem.base % align
  else mem.base

/-- Map a new range of a minimum size. The result is the address, or 0, and the
block that the allocator gave for it. -/
def Context.map (c : Context) (allocator : Allocator) (minLength : Word)
    (allowWrite allowExec : Bool) (minAlign : Word) : Word × Context × Option MemRange :=
  -- Enforce alignment is a power of two.
  if minAlign &&& (minAlign - 1) ≠ 0 ∨ minLength = 0 then (0, c, none)
  else
    let align := alignment minAlign
    let length := roundedLength minLength align
    let mem := requestBlock allocator length align allowWrite allowExec
    if mem.base = 0 then (0, c, none)
    else
      let base := alignedBase mem align
      (base,
        { c with
          actual := c.actual ++ [mem]
          mapped := c.mapped ++ [⟨⟨base, length⟩, c.actual.length⟩] },
        some mem)

/-- Actual implementation of unmap. The second component is the range that goes
to the deallocator; there is no result where `actual` has no such index. -/
def Context.unmapIdx (c : Context) (index : ℕ) : Option (Context × MemRange) := do
  let mem ← c.actual[index]?
  some ({ c with actual := c.actual.eraseIdx index, mapped := c.mapped.eraseIdx index }, mem)

/-- Unmap a range of memory. -/
def Context.unmap (c : Context) (base : Word) : Option (Bool × Context × Option MemRange) :=
  match c.mapped.findIdx? fun m => base == m.promise.base with
  | some i => do
      let (c', mem) ← c.unmapIdx i
      some (true, c', some mem)
  | none => some (false, c, none)

/-- The ranges that `~Context` passes to the deallocator. -/
def Context.destroy (c : Context) : List MemRange := c.actual

/-! ### Histories -/

/-- A `map` call: the address it returned and the block it got. -/
structure Mapping where
  base : Word
  block : MemRange
  deriving DecidableEq, Repr

/-- What the allocator gives for a `map` call: there is nothing if it is not
asked, or its answer is null. -/
def mapBlock (allocator : Allocator) (minLength : Word) (allowWrite allowExec : Bool)
    (minAlign : Word) : Option MemRange :=
  if minAlign &&& (minAlign - 1) ≠ 0 ∨ minLength = 0 then none
  else
    let mem := requestBlock allocator (roundedLength minLength (alignment minAlign))
      (alignment minAlign) allowWrite allowExec
    if mem.base = 0 then none else some mem

/-- A context, the blocks that were allocated and freed for it so far, and the
`map` calls that have not been unmapped. -/
structure Lifetime where
  ctx : Context
  allocated : List MemRange
  freed : List MemRange
  live : List Mapping

def Lifetime.fresh : Lifetime := ⟨Context.empty, [], [], []⟩

inductive MemOp
  | map (allocator : Allocator) (minLength : Word) (allowWrite allowExec : Bool) (minAlign : Word)
  | unmap (base : Word)

/-- What a call leaves of the context. -/
def Context.apply (c : Context) : MemOp → Context
  | .map allocator minLength allowWrite allowExec minAlign =>
      (c.map allocator minLength allowWrite allowExec minAlign).2.1
  | .unmap base => (c.unmap base).elim c fun r => r.2.1

def Lifetime.exec (s : Lifetime) : MemOp → Option Lifetime
  | .map allocator minLength allowWrite allowExec minAlign =>
      let (base, ctx, _) := s.ctx.map allocator minLength allowWrite allowExec minAlign
      let got := mapBlock allocator minLength allowWrite allowExec minAlign
      some ⟨ctx, s.allocated ++ got.toList, s.freed,
        s.live ++ got.toList.map fun block => ⟨base, block⟩⟩
  | .unmap base => do
      let (ok, ctx, freed) ← s.ctx.unmap base
      some ⟨ctx, s.allocated, s.freed ++ freed.toList,
        if ok then s.live.eraseP fun m => base == m.base else s.live⟩

/-- The books of the context agree with its history. -/
structure Lifetime.Exact (s : Lifetime) : Prop where
  actual : s.ctx.actual = s.live.map Mapping.block
  mapped : (s.ctx.mapped.map fun m => m.promise.base) = s.live.map Mapping.base
  blocks : s.allocated.Perm (s.ctx.actual ++ s.freed)

theorem Lifetime.Exact.length_eq {s : Lifetime} (h : s.Exact) :
    s.ctx.actual.length = s.ctx.mapped.length := by
  have hmapped := congrArg List.length h.mapped
  simp only [List.length_map] at hmapped
  rw [h.actual, List.length_map, hmapped]

theorem Lifetime.fresh_exact : fresh.Exact := ⟨rfl, rfl, .refl []⟩

/-- The block that `map` records is the one that the allocator gave. -/
theorem Context.map_block (c : Context) (allocator : Allocator) (minLength : Word)
    (allowWrite allowExec : Bool) (minAlign : Word) :
    (c.map allocator minLength allowWrite allowExec minAlign).2.2 =
      mapBlock allocator minLength allowWrite allowExec minAlign := by
  unfold Context.map mapBlock
  split
  · rfl
  · simp only
    split <;> rfl

theorem Lifetime.exec_map (s : Lifetime) (allocator : Allocator) (minLength : Word)
    (allowWrite allowExec : Bool) (minAlign : Word) :
    s.exec (.map allocator minLength allowWrite allowExec minAlign) =
      let (base, ctx, got) := s.ctx.map allocator minLength allowWrite allowExec minAlign
      some ⟨ctx, s.allocated ++ got.toList, s.freed,
        s.live ++ got.toList.map fun block => ⟨base, block⟩⟩ := by
  rw [Lifetime.exec, ← s.ctx.map_block]

/-- `map` adds a row to both columns, or nothing at all. -/
theorem Context.map_cases (c : Context) (allocator : Allocator) (minLength : Word)
    (allowWrite allowExec : Bool) (minAlign : Word) :
    c.map allocator minLength allowWrite allowExec minAlign = (0, c, none) ∨
      ∃ base length mem, c.map allocator minLength allowWrite allowExec minAlign =
        (base,
          { c with
            actual := c.actual ++ [mem]
            mapped := c.mapped ++ [⟨⟨base, length⟩, c.actual.length⟩] },
          some mem) := by
  unfold Context.map
  split
  · exact .inl rfl
  · simp only
    split
    · exact .inl rfl
    · exact .inr ⟨_, _, _, rfl⟩

theorem Context.unmap_pid {c c' : Context} {base : Word} {ok : Bool} {freed : Option MemRange}
    (h : c.unmap base = some (ok, c', freed)) : c'.pid = c.pid := by
  unfold Context.unmap Context.unmapIdx at h
  split at h
  · simp only [Option.bind_eq_bind, Option.bind_eq_some_iff] at h
    obtain ⟨⟨_, _⟩, ⟨mem, -, hmem⟩, h⟩ := h
    cases hmem
    cases h
    rfl
  · cases h
    rfl

theorem Context.apply_pid (c : Context) (op : MemOp) : (c.apply op).pid = c.pid := by
  cases op with
  | map allocator minLength allowWrite allowExec minAlign =>
      obtain hmap | ⟨base, length, mem, hmap⟩ :=
        c.map_cases allocator minLength allowWrite allowExec minAlign <;>
        rw [Context.apply, hmap]
  | unmap base =>
      cases h : c.unmap base with
      | none => simp [Context.apply, h]
      | some r => simpa [Context.apply, h] using Context.unmap_pid h

/-- Where `unmap` looks is where the live mapping with that base is. -/
theorem Lifetime.Exact.findIdx_eq {s : Lifetime} (h : s.Exact) (base : Word) :
    (s.ctx.mapped.findIdx? fun m => base == m.promise.base) =
      s.live.findIdx? fun m => base == m.base := by
  have hbases := congrArg (List.findIdx? fun b => base == b) h.mapped
  rwa [List.findIdx?_map, List.findIdx?_map] at hbases

theorem Lifetime.Exact.unmap_none {s : Lifetime} (h : s.Exact) {base : Word}
    (hnone : (s.live.findIdx? fun m => base == m.base) = none) :
    s.ctx.unmap base = some (false, s.ctx, none) := by
  rw [Context.unmap, h.findIdx_eq, hnone]

theorem Lifetime.Exact.unmap_some {s : Lifetime} (h : s.Exact) {base : Word} {i : ℕ}
    (hi : (s.live.findIdx? fun m => base == m.base) = some i) :
    ∃ m, s.live[i]? = some m ∧ m.base = base ∧
      s.ctx.unmap base = some (true,
        { s.ctx with
          actual := s.ctx.actual.eraseIdx i
          mapped := s.ctx.mapped.eraseIdx i },
        some m.block) := by
  obtain ⟨hlt, hbase, -⟩ := List.findIdx?_eq_some_iff_getElem.mp hi
  refine ⟨s.live[i], List.getElem?_eq_getElem hlt, (beq_iff_eq.mp hbase).symm, ?_⟩
  rw [Context.unmap, h.findIdx_eq, hi]
  simp [Context.unmapIdx, h.actual, hlt]

/-- Two columns with the same row erased are the columns of the rest. -/
theorem Lifetime.Exact.eraseIdx {s : Lifetime} (h : s.Exact) {i : ℕ} {m : Mapping}
    (hm : s.live[i]? = some m) :
    (⟨{ s.ctx with
          actual := s.ctx.actual.eraseIdx i
          mapped := s.ctx.mapped.eraseIdx i },
      s.allocated, s.freed ++ [m.block], s.live.eraseIdx i⟩ : Lifetime).Exact where
  actual := by rw [h.actual, List.eraseIdx_map]
  mapped := by rw [← List.eraseIdx_map, h.mapped, List.eraseIdx_map]
  blocks := by
    have hget : s.ctx.actual[i]? = some m.block := by
      rw [h.actual, List.getElem?_map, hm]
      rfl
    obtain ⟨hlt, hblock⟩ := List.getElem?_eq_some_iff.mp hget
    have hperm : s.ctx.actual.Perm (m.block :: s.ctx.actual.eraseIdx i) :=
      hblock ▸ (List.getElem_cons_eraseIdx_perm hlt).symm
    refine h.blocks.trans ((hperm.append_right s.freed).trans ?_)
    rw [← List.append_assoc]
    exact (List.perm_append_singleton m.block _).symm

theorem Lifetime.Exact.exec {s : Lifetime} (h : s.Exact) (op : MemOp) :
    ∃ s', s.exec op = some s' ∧ s'.Exact := by
  cases op with
  | map allocator minLength allowWrite allowExec minAlign =>
      obtain hmap | ⟨base, length, mem, hmap⟩ :=
        s.ctx.map_cases allocator minLength allowWrite allowExec minAlign
      · refine ⟨s, ?_, h⟩
        rw [Lifetime.exec_map, hmap]
        simp
      · refine ⟨_, by rw [Lifetime.exec_map, hmap], ?_, ?_, ?_⟩
        · simp [h.actual]
        · simp [h.mapped]
        · have hperm : (s.allocated ++ [mem]).Perm (mem :: (s.ctx.actual ++ s.freed)) :=
            (List.perm_append_singleton mem s.allocated).trans (h.blocks.cons mem)
          refine hperm.trans ?_
          simp only [List.append_assoc]
          exact List.perm_middle.symm
  | unmap base =>
      cases hi : s.live.findIdx? fun m => base == m.base with
      | none =>
          refine ⟨s, ?_, h⟩
          simp [Lifetime.exec, h.unmap_none hi]
      | some i =>
          obtain ⟨m, hm, -, hunmap⟩ := h.unmap_some hi
          refine ⟨_, ?_, h.eraseIdx hm⟩
          simp [Lifetime.exec, hunmap, List.eraseP_eq_eraseIdx, hi]

/-- Every sequence of calls comes to an end with exact books. -/
theorem Lifetime.exact_of_run (ops : List MemOp) :
    ∃ s, ops.foldlM Lifetime.exec Lifetime.fresh = some s ∧ s.Exact := by
  suffices h : ∀ s : Lifetime, s.Exact → ∃ s', ops.foldlM Lifetime.exec s = some s' ∧ s'.Exact from
    h _ fresh_exact
  induction ops with
  | nil => exact fun s hs => ⟨s, rfl, hs⟩
  | cons op ops ih =>
      intro s hs
      obtain ⟨s₁, hop, hs₁⟩ := hs.exec op
      obtain ⟨s₂, hops, hs₂⟩ := ih s₁ hs₁
      exact ⟨s₂, by rw [List.foldlM_cons, hop]; exact hops, hs₂⟩

/-- The live blocks are disjoint, and each promise starts inside its block. -/
structure Separated (live : List Mapping) : Prop where
  inside : ∀ m ∈ live, m.block.contains m.base
  disjoint : live.Pairwise fun m n => ∀ addr, ¬(m.block.contains addr ∧ n.block.contains addr)

/-- Separated mappings are told apart by their bases. -/
theorem Separated.index_unique {live : List Mapping} (h : Separated live) {i j : ℕ}
    {m n : Mapping} (hi : live[i]? = some m) (hj : live[j]? = some n) (hbase : m.base = n.base) :
    i = j := by
  obtain ⟨hilt, rfl⟩ := List.getElem?_eq_some_iff.mp hi
  obtain ⟨hjlt, rfl⟩ := List.getElem?_eq_some_iff.mp hj
  have hpair := List.pairwise_iff_getElem.mp h.disjoint
  have hmi := h.inside _ (List.getElem_mem hilt)
  have hnj := h.inside _ (List.getElem_mem hjlt)
  rcases lt_trichotomy i j with hlt | heq | hgt
  · exact absurd ⟨hmi, hbase ▸ hnj⟩ (hpair i j hilt hjlt hlt _)
  · exact heq
  · exact absurd ⟨hnj, hbase.symm ▸ hmi⟩ (hpair j i hjlt hilt hgt _)

/-- The bookkeeping of a context is exact over its whole lifetime. -/
theorem context_books_exact (ops : List MemOp) :
    ∃ s, ops.foldlM Lifetime.exec Lifetime.fresh = some s ∧ s.Exact ∧
      s.ctx.actual.length = s.ctx.mapped.length ∧
      s.allocated.Perm (s.freed ++ s.ctx.destroy) ∧
      (Separated s.live → ∀ base, ∃ ok ctx freed, s.ctx.unmap base = some (ok, ctx, freed) ∧
        (ok = true ↔ ∃ m ∈ s.live, m.base = base) ∧
        (∀ i m, s.live[i]? = some m → m.base = base → freed = some m.block ∧
          ctx.actual = s.ctx.actual.eraseIdx i ∧ ctx.mapped = s.ctx.mapped.eraseIdx i) ∧
        (ok = false → ctx = s.ctx ∧ freed = none)) := by
  obtain ⟨s, hrun, hs⟩ := Lifetime.exact_of_run ops
  refine ⟨s, hrun, hs, hs.length_eq, hs.blocks.trans List.perm_append_comm, fun hsep base => ?_⟩
  cases hi : s.live.findIdx? fun m => base == m.base with
  | none =>
      have hno : ∀ m ∈ s.live, m.base ≠ base := by
        intro m hm hbase
        have hne := List.findIdx?_eq_none_iff.mp hi m hm
        simp [hbase] at hne
      refine ⟨false, s.ctx, none, hs.unmap_none hi, by simpa using hno, fun i m hm hbase => ?_,
        fun _ => ⟨rfl, rfl⟩⟩
      exact absurd hbase (hno m (List.mem_of_getElem? hm))
  | some j =>
      obtain ⟨m, hm, hbase, hunmap⟩ := hs.unmap_some hi
      refine ⟨true, _, _, hunmap, ?_, fun i n hn hbase' => ?_, nofun⟩
      · simpa using ⟨m, List.mem_of_getElem? hm, hbase⟩
      · obtain rfl := hsep.index_unique hn hm (hbase'.trans hbase.symm)
        obtain rfl := Option.some.inj (hn.symm.trans hm)
        exact ⟨rfl, rfl, rfl⟩

/-- The address handed out of a block that is not aligned as asked for is not
the address of the block, and `unmap` frees the block all the same and leaves
the other mapping alone. -/
theorem context_books_exact_sample : ∃ s : Lifetime,
    [MemOp.map (fun length _ _ => ⟨0x3fc02000, length⟩) 10 true false 4,
      MemOp.map (fun length _ _ => ⟨0x3fc01004, length⟩) 64 true false 64].foldlM
        Lifetime.exec Lifetime.fresh = some s ∧
      s.live = [⟨0x3fc02000, ⟨0x3fc02000, 12⟩⟩, ⟨0x3fc01040, ⟨0x3fc01004, 128⟩⟩] ∧
      Separated s.live ∧ ∃ ctx,
        s.ctx.unmap 0x3fc01040 = some (true, ctx, some ⟨0x3fc01004, 128⟩) ∧
        ctx.actual = [⟨0x3fc02000, 12⟩] := by
  obtain ⟨s, hrun, hs, -, -, hunmap⟩ :=
    context_books_exact [.map (fun length _ _ => ⟨0x3fc02000, length⟩) 10 true false 4,
      .map (fun length _ _ => ⟨0x3fc01004, length⟩) 64 true false 64]
  have hlive : s.live = [⟨0x3fc02000, ⟨0x3fc02000, 12⟩⟩, ⟨0x3fc01040, ⟨0x3fc01004, 128⟩⟩] :=
    congrArg Lifetime.live (Option.some.inj hrun).symm
  have hsep : Separated s.live := by
    rw [hlive]
    refine ⟨by decide, List.pairwise_pair.mpr fun addr => ?_⟩
    simp only [MemRange.contains, Bool.and_eq_true, decide_eq_true_eq]
    bv_omega
  obtain ⟨ok, ctx, freed, hres, hok, hrow, -⟩ := hunmap hsep 0x3fc01040
  have hget : s.live[1]? = some ⟨0x3fc01040, ⟨0x3fc01004, 128⟩⟩ := by rw [hlive]; rfl
  obtain ⟨rfl, hactual, -⟩ := hrow 1 _ hget rfl
  obtain rfl := hok.mpr ⟨_, List.mem_of_getElem? hget, rfl⟩
  refine ⟨s, hrun, hlive, hsep, ctx, hres, ?_⟩
  rw [hactual, hs.actual, hlive]
  rfl

end BadgeElfloader.Abi
