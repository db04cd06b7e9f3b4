import BadgeElfloader.Abi.Grants
import BadgeElfloader.Abi.Registry
import BadgeElfloader.Transition.Pool

/-!
The memory of all processes.

All contexts draw on one allocator. The ledger keeps every block that it has
given and not got back, together with the context it was given for, and the
requests that are still to be unmapped. Freeing a block that is not outstanding
has no result here, so that a run which comes to an end has freed every block at
most once.
-/

namespace BadgeElfloader.Abi

open Riscv (Word)
open Transition

structure Ledger where
  registry : Registry
  heap : List (Pid × MemRange)
  requests : Pid → List Grant

inductive LedgerOp
  | newContext
  | map (pid : Pid) (allocator : Allocator) (minLength : Word) (allowWrite allowExec : Bool)
      (minAlign : Word)
  | unmap (pid : Pid) (base : Word)
  | deleteContext (pid : Pid)

namespace Ledger

def initial : Ledger := ⟨.initial, [], fun _ => []⟩

/-- There is no result where an index is out of range, or where the allocator is
given a block that is not outstanding. -/
def exec (s : Ledger) : LedgerOp → Option Ledger
  | .newContext => some { s with registry := s.registry.newContext.2 }
  | .map pid allocator minLength allowWrite allowExec minAlign =>
      match s.registry.getContext pid with
      | none => some s
      | some c =>
          let (base, _, _) := c.map allocator minLength allowWrite allowExec minAlign
          let got := mapBlock allocator minLength allowWrite allowExec minAlign
          some
            { registry := s.registry.apply pid
                (.map allocator minLength allowWrite allowExec minAlign)
              heap := s.heap ++ got.toList.map (pid, ·)
              requests := Function.update s.requests pid (s.requests pid ++
                got.toList.map fun block => ⟨⟨base, block⟩, minLength, minAlign⟩) }
  | .unmap pid base =>
      match s.registry.getContext pid with
      | none => some s
      | some c => do
          let (ok, _, freed) ← c.unmap base
          let heap ← freed.toList.foldlM (takeOut pid) s.heap
          some
            { registry := s.registry.apply pid (.unmap base)
              heap := heap
              requests := Function.update s.requests pid
                (if ok then (s.requests pid).eraseP fun g => base == g.base
                  else s.requests pid) }
  | .deleteContext pid => do
      let (_, registry, freed) := s.registry.deleteContext pid
      let heap ← freed.foldlM (takeOut pid) s.heap
      some ⟨registry, heap, Function.update s.requests pid []⟩

/-- A call of `free`, with any address. Null may be freed freely. -/
def free (s : Ledger) (addr : Word) : Option Ledger :=
  if addr = 0 then some s
  else (s.heap.find? fun b => b.2.base = addr).map fun b => { s with heap := s.heap.erase b }

/-- The allocator of a call keeps off all blocks that are outstanding. -/
def Honoured (s : Ledger) : LedgerOp → Prop
  | .map _ allocator _ _ _ _ => Honours allocator (s.heap.map Prod.snd)
  | _ => True

/-- Calls one after the other, with allocators that keep their promises. -/
inductive HonouredRun : Ledger → List LedgerOp → Option Ledger → Prop
  | nil (s : Ledger) : HonouredRun s [] (some s)
  | failed {s : Ledger} {op : LedgerOp} {ops : List LedgerOp} :
      s.Honoured op → s.exec op = none → HonouredRun s (op :: ops) none
  | cons {s s' : Ledger} {op : LedgerOp} {ops : List LedgerOp} {r : Option Ledger} :
      s.Honoured op → s.exec op = some s' → HonouredRun s' ops r → HonouredRun s (op :: ops) r

/-- The blocks of the context `pid`, if it is there. -/
def blocks (s : Ledger) (pid : Pid) : List MemRange :=
  (s.registry.getContext pid).elim [] Context.actual

/-- Fewer blocks are outstanding than the context has. -/
def Short (s : Ledger) (pid : Pid) : Prop := (owned s.heap pid).length < (s.blocks pid).length

/-- The invariant of the calls. -/
structure Inv (s : Ledger) : Prop where
  books : ∀ pid c, s.registry.contextMap pid = some c → Books c (s.requests pid)
  absent : ∀ pid, s.registry.contextMap pid = none → s.requests pid = []
  outstanding : ∀ pid, (owned s.heap pid).Perm ((s.requests pid).map fun g => g.block)
  disjoint : (s.heap.map Prod.snd).Pairwise MemRange.Disjoint

end Ledger

instance : Std.Symm MemRange.Disjoint :=
  ⟨fun _ _ h a ⟨h₁, h₂, h₃, h₄⟩ => h a ⟨h₃, h₄, h₁, h₂⟩⟩

theorem Context.unmap_length {c c' : Context} {base : Word} {ok : Bool} {freed : Option MemRange}
    (h : c.unmap base = some (ok, c', freed)) :
    c.actual.length = freed.toList.length + c'.actual.length := by
  unfold Context.unmap Context.unmapIdx at h
  split at h
  · rename_i i _
    simp only [Option.bind_eq_bind, Option.bind_eq_some_iff] at h
    obtain ⟨⟨_, _⟩, ⟨mem, hmem, heq⟩, h⟩ := h
    cases heq
    cases h
    obtain ⟨hlt, -⟩ := List.getElem?_eq_some_iff.mp hmem
    rw [List.length_eraseIdx_of_lt hlt, Option.toList_some, List.length_singleton]
    omega
  · cases h
    exact (Nat.zero_add _).symm

section books

variable {c : Context} {gs : List Grant}

theorem Books.actual (h : Books c gs) : c.actual = gs.map fun g => g.block := by
  have hactual := h.exact.actual
  rwa [List.map_map] at hactual

/-- The number of a context is not in its books. -/
theorem Books.renumber (h : Books c gs) (pid : Pid) : Books { c with pid := pid } gs :=
  ⟨⟨h.exact.actual, h.exact.mapped, h.exact.blocks⟩, h.promises, h.sound⟩

end books

namespace Ledger

variable {s s' : Ledger} {pid k : Pid} {c : Context}

theorem Inv.initial : Inv Ledger.initial where
  books _ _ h := by cases h
  absent _ _ := rfl
  outstanding _ := .refl []
  disjoint := List.Pairwise.nil

theorem Inv.blocks_perm (h : Inv s) (pid : Pid) : (owned s.heap pid).Perm (s.blocks pid) := by
  refine (h.outstanding pid).trans (.of_eq ?_)
  rw [blocks, Registry.getContext]
  cases hc : s.registry.contextMap pid with
  | none => simp [h.absent pid hc]
  | some c => exact (h.books pid c hc).actual.symm

theorem Inv.newContext (h : Inv s) : ∃ s', s.exec .newContext = some s' ∧ Inv s' := by
  refine ⟨_, rfl, fun pid c hc => ?_, fun pid hc => ?_, h.outstanding, h.disjoint⟩
  · rw [Registry.newContext_contextMap] at hc
    split at hc
    · rename_i hpid
      obtain rfl := Option.some.inj hc
      rw [hpid]
      cases hold : s.registry.contextMap s.registry.nextPID with
      | none =>
          show Books _ (s.requests _)
          rw [h.absent _ hold]
          exact (Books.empty 0).renumber _
      | some c => exact (h.books _ c hold).renumber _
    · exact h.books pid c hc
  · rw [Registry.newContext_contextMap] at hc
    split at hc
    · cases hc
    · exact h.absent pid hc

/-- A call on the context `pid` leaves all others alone. -/
theorem Inv.use (h : Inv s) (hc : s.registry.contextMap pid = some c) {op : MemOp}
    {heap : List (Pid × MemRange)} {gs : List Grant} (hbooks : Books (c.apply op) gs)
    (hself : (owned heap pid).Perm (gs.map fun g => g.block))
    (hothers : ∀ k, k ≠ pid → (owned heap k).Perm (owned s.heap k))
    (hdisjoint : (heap.map Prod.snd).Pairwise MemRange.Disjoint) :
    Inv ⟨s.registry.apply pid op, heap, Function.update s.requests pid gs⟩ where
  books k c' hc' := by
    rw [Registry.apply_contextMap] at hc'
    show Books c' (Function.update s.requests pid gs k)
    by_cases hk : k = pid
    · subst hk
      rw [if_pos rfl, hc] at hc'
      obtain rfl := Option.some.inj hc'
      rwa [Function.update_self]
    · rw [if_neg hk] at hc'
      rw [Function.update_of_ne hk]
      exact h.books k c' hc'
  absent k hnone := by
    rw [Registry.apply_contextMap] at hnone
    show Function.update s.requests pid gs k = []
    by_cases hk : k = pid
    · rw [if_pos hk, hc] at hnone
      cases hnone
    · rw [if_neg hk] at hnone
      rw [Function.update_of_ne hk]
      exact h.absent k hnone
  outstanding k := by
    show (owned heap k).Perm ((Function.update s.requests pid gs k).map fun g => g.block)
    by_cases hk : k = pid
    · subst hk
      rwa [Function.update_self]
    · rw [Function.update_of_ne hk]
      exact (hothers k hk).trans (h.outstanding k)
  disjoint := hdisjoint

/-- A `map` call on a context that is there. -/
theorem exec_map (hc : s.registry.contextMap pid = some c) (allocator : Allocator)
    (minLength : Word) (allowWrite allowExec : Bool) (minAlign : Word) :
    s.exec (.map pid allocator minLength allowWrite allowExec minAlign) =
      let (base, _, got) := c.map allocator minLength allowWrite allowExec minAlign
      some
        { registry := s.registry.apply pid (.map allocator minLength allowWrite allowExec minAlign)
          heap := s.heap ++ got.toList.map (pid, ·)
          requests := Function.update s.requests pid (s.requests pid ++
            got.toList.map fun block => ⟨⟨base, block⟩, minLength, minAlign⟩) } := by
  simp only [exec, Registry.getContext, hc, ← c.map_block]

theorem Inv.map (h : Inv s) (pid : Pid) {allocator : Allocator} {minLength minAlign : Word}
    {allowWrite allowExec : Bool} (hhonours : Honours allocator (s.heap.map Prod.snd)) :
    ∃ s', s.exec (.map pid allocator minLength allowWrite allowExec minAlign) = some s' ∧
      Inv s' := by
  cases hc : s.registry.contextMap pid with
  | none =>
      simp only [exec, Registry.getContext, hc]
      exact ⟨s, rfl, h⟩
  | some c =>
      have hbooks := h.books pid c hc
      obtain hmap | ⟨base, length, block, hmap⟩ :=
        c.map_cases allocator minLength allowWrite allowExec minAlign
      · rw [exec_map hc, hmap]
        refine ⟨_, rfl, h.use hc ?_ ?_ ?_ ?_⟩
        · simpa [Context.apply, hmap] using hbooks
        · simpa using h.outstanding pid
        · simp
        · simpa using h.disjoint
      · obtain ⟨-, hblock, hbase, -, -⟩ := Context.map_some hmap
        rw [requestBlock_eq] at hblock
        have hapart : ∀ b ∈ s.heap.map Prod.snd, block.Disjoint b :=
          (hblock ▸ hhonours.2 _ allowWrite allowExec).resolve_left hbase
        have hgranted := hbooks.map hhonours.1 hmap
        rw [exec_map hc, hmap]
        refine ⟨_, rfl, h.use hc ?_ ?_ ?_ ?_⟩
        · simpa [Context.apply, hmap] using hgranted
        · rw [owned_append, owned_map_self, List.map_append]
          exact (h.outstanding pid).append_right _
        · intro k hk
          rw [owned_append, owned_map_other _ (Ne.symm hk), List.append_nil]
        · rw [List.map_append, List.pairwise_append]
          refine ⟨h.disjoint, List.pairwise_singleton _ _, fun b hb b' hb' => ?_⟩
          obtain rfl : b' = block := by simpa using hb'
          exact Std.Symm.symm _ _ (hapart b hb)

theorem Inv.unmap (h : Inv s) (pid : Pid) (base : Word) :
    ∃ s', s.exec (.unmap pid base) = some s' ∧ Inv s' := by
  cases hc : s.registry.contextMap pid with
  | none =>
      simp only [exec, Registry.getContext, hc]
      exact ⟨s, rfl, h⟩
  | some c =>
      have hbooks := h.books pid c hc
      have hexact := hbooks.exact
      cases hi : ((s.requests pid).map Grant.toMapping).findIdx? fun m => base == m.base with
      | none =>
          have hunmap : c.unmap base = some (false, c, none) := hexact.unmap_none hi
          simp only [exec, Registry.getContext, hc, hunmap]
          refine ⟨_, rfl, h.use hc ?_ ?_ ?_ ?_⟩
          · simpa [Context.apply, hunmap] using hbooks
          · simpa using h.outstanding pid
          · simp
          · simpa using h.disjoint
      | some i =>
          obtain ⟨m, hm, -, hunmap⟩ := hexact.unmap_some hi
          have hleft := hbooks.unmap hunmap
          have herase : (s.requests pid).eraseP (fun g => base == g.base) =
              (s.requests pid).eraseIdx i := by
            rw [List.findIdx?_map] at hi
            rw [List.eraseP_eq_eraseIdx]
            simp only [Function.comp_def] at hi
            rw [hi]
          have hperm : (owned s.heap pid).Perm
              ([m.block] ++ ((s.requests pid).eraseIdx i).map fun g => g.block) := by
            rw [List.getElem?_map, Option.map_eq_some_iff] at hm
            obtain ⟨g, hg, rfl⟩ := hm
            obtain ⟨hlt, rfl⟩ := List.getElem?_eq_some_iff.mp hg
            exact (h.outstanding pid).trans ((List.getElem_cons_eraseIdx_perm hlt).symm.map _)
          obtain ⟨heap, hheap, hsub, hself, hothers⟩ := takeOut_all hperm
          simp only [exec, Registry.getContext, hc, hunmap, Option.toList_some, Option.bind_eq_bind,
            Option.bind_some, hheap]
          refine ⟨_, rfl, h.use hc ?_ ?_ hothers ?_⟩
          · simpa [Context.apply, hunmap] using hleft
          · rw [if_pos trivial, herase]
            exact hself
          · exact h.disjoint.sublist (hsub.map _)

/-- The destructor frees what the context has. -/
theorem Inv.deleteContext (h : Inv s) (pid : Pid) :
    ∃ s', s.exec (.deleteContext pid) = some s' ∧ Inv s' ∧ owned s'.heap pid = [] ∧
      (∀ k, k ≠ pid → (owned s'.heap k).Perm (owned s.heap k)) ∧
      (∀ k, k ≠ pid → s'.registry.contextMap k = s.registry.contextMap k) := by
  have hblocks := h.blocks_perm pid
  rw [← List.append_nil (s.blocks pid)] at hblocks
  obtain ⟨heap, hheap, hsub, hself, hothers⟩ := takeOut_all hblocks
  have hnone := List.perm_nil.mp hself
  refine ⟨⟨(s.registry.deleteContext pid).2.1, heap, Function.update s.requests pid []⟩, ?_,
    ⟨fun k c hc => ?_, fun k hk => ?_, fun k => ?_, h.disjoint.sublist (hsub.map _)⟩, hnone,
    hothers, fun k hk => ?_⟩
  · show ((s.blocks pid).foldlM (takeOut pid) s.heap).bind _ = _
    rw [hheap]
    rfl
  · rw [Registry.deleteContext_contextMap] at hc
    by_cases hk : k = pid
    · rw [if_pos hk] at hc
      cases hc
    · rw [if_neg hk] at hc
      show Books c (Function.update s.requests pid [] k)
      rw [Function.update_of_ne hk]
      exact h.books k c hc
  · rw [Registry.deleteContext_contextMap] at hk
    show Function.update s.requests pid [] k = []
    by_cases hpid : k = pid
    · rw [hpid, Function.update_self]
    · rw [if_neg hpid] at hk
      rw [Function.update_of_ne hpid]
      exact h.absent k hk
  · show (owned heap k).Perm ((Function.update s.requests pid [] k).map fun g => g.block)
    by_cases hk : k = pid
    · subst hk
      rw [Function.update_self]
      exact hself
    · rw [Function.update_of_ne hk]
      exact (hothers k hk).trans (h.outstanding k)
  · rw [Registry.deleteContext_contextMap, if_neg hk]

/-- No call fails. -/
theorem Inv.exec (h : Inv s) {op : LedgerOp} (hop : s.Honoured op) :
    ∃ s', s.exec op = some s' ∧ Inv s' := by
  cases op with
  | newContext => exact h.newContext
  | map pid allocator minLength allowWrite allowExec minAlign => exact h.map pid hop
  | unmap pid base => exact h.unmap pid base
  | deleteContext pid =>
      obtain ⟨s', hexec, hinv, -⟩ := h.deleteContext pid
      exact ⟨s', hexec, hinv⟩

theorem HonouredRun.inv {ops : List LedgerOp} {r : Option Ledger} (hrun : HonouredRun s ops r)
    (h : Inv s) : ∃ s', r = some s' ∧ Inv s' := by
  induction hrun with
  | nil s => exact ⟨s, rfl, h⟩
  | failed hop hfailed =>
      obtain ⟨s', hexec, -⟩ := h.exec hop
      cases hfailed.symm.trans hexec
  | cons hop hexec _ ih =>
      obtain ⟨s₁, hexec₁, hinv⟩ := h.exec hop
      obtain rfl := Option.some.inj (hexec.symm.trans hexec₁)
      exact ih hinv

theorem Inv.sound (h : Inv s) {g : Grant} (hg : g ∈ s.requests pid) : g.Sound := by
  cases hc : s.registry.contextMap pid with
  | none =>
      rw [h.absent pid hc] at hg
      cases hg
  | some c => exact (h.books pid c hc).sound g hg

theorem Inv.mem_owned (h : Inv s) {g : Grant} (hg : g ∈ s.requests pid) :
    g.block ∈ owned s.heap pid :=
  (h.outstanding pid).symm.subset (List.mem_map_of_mem hg)

/-- Requests of two contexts keep apart. -/
theorem Inv.requests_apart (h : Inv s) (hk : k ≠ pid) {g g' : Grant} (hg : g ∈ s.requests pid)
    (hg' : g' ∈ s.requests k) (hfits : Fits g.minLength g.minAlign)
    (hfits' : Fits g'.minLength g'.minAlign) :
    ¬ Overlaps g.base g.extent g'.base g'.extent := by
  have hdisjoint := rel_of_owned_ne h.disjoint (Ne.symm hk) (h.mem_owned hg) (h.mem_owned hg')
  exact not_overlaps ((h.sound hg).inside hfits) (h.sound hg).bounded
    ((h.sound hg').inside hfits') (h.sound hg').bounded hdisjoint

/-! ### Blocks that are missing -/

theorem Short.context (h : s.Short pid) : (s.registry.contextMap pid).isSome := by
  have hpos : 0 < (s.blocks pid).length := (Nat.zero_le _).trans_lt h
  cases hc : s.registry.contextMap pid with
  | none => simp [blocks, Registry.getContext, hc] at hpos
  | some c => rfl

/-- A context that is short cannot be deleted. -/
theorem Short.deleteContext (h : s.Short pid) : s.exec (.deleteContext pid) = none := by
  cases hexec : s.exec (.deleteContext pid) with
  | none => rfl
  | some s' =>
      obtain ⟨heap, hheap, -⟩ := Option.bind_eq_some_iff.mp hexec
      have hlength : (owned s.heap pid).length = (s.blocks pid).length + (owned heap pid).length :=
        (takeOut_all_length hheap).1
      have hshort : (owned s.heap pid).length < (s.blocks pid).length := h
      omega

/-- What a call on `pid` takes out of the context it takes out of the heap. -/
theorem Short.use (h : s.Short k) (hc : s.registry.contextMap pid = some c) {op : MemOp}
    {heap : List (Pid × MemRange)} {requests : Pid → List Grant}
    (hself : (owned s.heap pid).length + (c.apply op).actual.length =
      (owned heap pid).length + c.actual.length)
    (hothers : ∀ j, j ≠ pid → (owned heap j).Perm (owned s.heap j)) :
    (⟨s.registry.apply pid op, heap, requests⟩ : Ledger).Short k := by
  simp only [Short, blocks, Registry.getContext, Registry.apply_contextMap] at h ⊢
  by_cases hk : k = pid
  · subst hk
    rw [hc] at h
    rw [if_pos rfl, hc]
    simp only [Option.elim_some, Option.map_some] at h ⊢
    omega
  · rw [if_neg hk, (hothers k hk).length_eq]
    exact h

/-- What is missing stays missing. -/
theorem Short.exec (h : s.Short k) {op : LedgerOp} (hexec : s.exec op = some s') : s'.Short k := by
  cases op with
  | newContext =>
      obtain rfl := Option.some.inj hexec
      simp only [Short, blocks, Registry.getContext, Registry.newContext_contextMap] at h ⊢
      split
      · rename_i hk
        rw [hk] at h ⊢
        cases hc : s.registry.contextMap s.registry.nextPID with
        | none =>
            rw [hc] at h
            exact absurd h (Nat.not_lt_zero _)
        | some c => rwa [hc] at h
      · exact h
  | map pid allocator minLength allowWrite allowExec minAlign =>
      cases hc : s.registry.contextMap pid with
      | none =>
          simp only [Ledger.exec, Registry.getContext, hc] at hexec
          obtain rfl := Option.some.inj hexec
          exact h
      | some c =>
          rw [exec_map hc] at hexec
          obtain hmap | ⟨base, length, block, hmap⟩ :=
            c.map_cases allocator minLength allowWrite allowExec minAlign
          · rw [hmap] at hexec
            obtain rfl := Option.some.inj hexec
            refine h.use hc ?_ fun j _ => ?_
            · simp [Context.apply, hmap]
            · rw [Option.toList_none, List.map_nil, List.append_nil]
          · rw [hmap] at hexec
            obtain rfl := Option.some.inj hexec
            refine h.use hc ?_ fun j hj => ?_
            · rw [owned_append, owned_map_self]
              simp only [Context.apply, hmap, List.length_append, Option.toList_some]
              omega
            · rw [owned_append, owned_map_other _ (Ne.symm hj), List.append_nil]
  | unmap pid base =>
      cases hc : s.registry.contextMap pid with
      | none =>
          simp only [Ledger.exec, Registry.getContext, hc] at hexec
          obtain rfl := Option.some.inj hexec
          exact h
      | some c =>
          simp only [Ledger.exec, Registry.getContext, hc, Option.bind_eq_bind,
            Option.bind_eq_some_iff] at hexec
          obtain ⟨⟨ok, c', freed⟩, hunmap, heap, hheap, hs'⟩ := hexec
          obtain rfl := Option.some.inj hs'
          have hlength : (owned s.heap pid).length =
            freed.toList.length + (owned heap pid).length := (takeOut_all_length hheap).1
          refine h.use hc ?_ (takeOut_all_length hheap).2
          have hactual := Context.unmap_length hunmap
          simp only [Context.apply, hunmap, Option.elim_some]
          omega
  | deleteContext pid =>
      by_cases hk : k = pid
      · rw [hk] at h
        rw [h.deleteContext] at hexec
        cases hexec
      · obtain ⟨heap, hheap, hs'⟩ := Option.bind_eq_some_iff.mp hexec
        obtain rfl := Option.some.inj hs'
        have hcontext := s.registry.deleteContext_contextMap pid k
        rw [if_neg hk] at hcontext
        show (owned heap k).length <
          (((s.registry.deleteContext pid).2.1.contextMap k).elim [] Context.actual).length
        rw [hcontext, ((takeOut_all_length hheap).2 k hk).length_eq]
        exact h

theorem Short.free (h : s.Short k) {addr : Word} (hfree : s.free addr = some s') : s'.Short k := by
  unfold Ledger.free at hfree
  split at hfree
  · obtain rfl := Option.some.inj hfree
    exact h
  · obtain ⟨b, -, rfl⟩ := Option.map_eq_some_iff.mp hfree
    have hsub : (owned (s.heap.erase b) k).Sublist (owned s.heap k) :=
      (List.erase_sublist.filter _).map _
    exact hsub.length_le.trans_lt h

/-- A block that is freed behind the back of its context is missing. -/
theorem Inv.free (h : Inv s) {addr : Word} (haddr : addr ≠ 0) (hfree : s.free addr = some s') :
    ∃ k, s'.Short k := by
  rw [Ledger.free, if_neg haddr] at hfree
  obtain ⟨⟨k, b⟩, hfind, rfl⟩ := Option.map_eq_some_iff.mp hfree
  refine ⟨k, ?_⟩
  have hb : b ∈ owned s.heap k := Transition.mem_owned.mpr (List.mem_of_find?_eq_some hfind)
  obtain ⟨heap, hheap, -, hself, -⟩ := takeOut_one (List.perm_cons_erase hb)
  obtain ⟨-, rfl⟩ := takeOut_some hheap
  show (owned (s.heap.erase (k, b)) k).length < (s.blocks k).length
  rw [hself.length_eq, List.length_erase_of_mem hb, ← (h.blocks_perm k).length_eq]
  exact Nat.sub_lt (List.length_pos_of_mem hb) Nat.one_pos

/-- An allocator that gives one block and no other. -/
def oneBlock (block : MemRange) : Allocator := fun length _ _ =>
  if length = block.length then block else ⟨0, 0⟩

theorem oneBlock_honours {block : MemRange} {inUse : List MemRange}
    (hend : block.base.toNat + block.length.toNat ≤ 2 ^ 32) (halign : 4 ∣ block.base.toNat)
    (hdisjoint : ∀ b ∈ inUse, block.Disjoint b) : Honours (oneBlock block) inUse := by
  refine ⟨fun length _ _ => ?_, fun length _ _ => ?_⟩
  · unfold oneBlock
    split
    · rename_i hlength
      exact .inr ⟨hlength ▸ le_refl _, hend, halign⟩
    · exact .inl rfl
  · unfold oneBlock
    split
    · exact .inr hdisjoint
    · exact .inl rfl

/-- Two processes with one block each. -/
def sampleOps : List LedgerOp :=
  [.newContext, .newContext, .map 1 (oneBlock ⟨0x3fc01000, 64⟩) 64 true false 4,
    .map 2 (oneBlock ⟨0x3fc02000, 64⟩) 64 true false 4]

theorem exists_sample_run : ∃ s, HonouredRun .initial sampleOps (some s) ∧
    s.heap = [(1, ⟨0x3fc01000, 64⟩), (2, ⟨0x3fc02000, 64⟩)] ∧
    s.requests 1 = [⟨⟨0x3fc01000, ⟨0x3fc01000, 64⟩⟩, 64, 4⟩] ∧
    s.requests 2 = [⟨⟨0x3fc02000, ⟨0x3fc02000, 64⟩⟩, 64, 4⟩] := by
  refine ⟨_, .cons trivial rfl (.cons trivial rfl (.cons ?_ rfl (.cons ?_ rfl (.nil _)))), rfl,
    rfl, rfl⟩
  · exact oneBlock_honours (by decide) (by decide) nofun
  · refine oneBlock_honours (by decide) (by decide) fun b hb => ?_
    obtain rfl : b = ⟨0x3fc01000, 64⟩ := List.mem_singleton.mp hb
    rintro a ⟨h₁, -, -, h₄⟩
    simp at h₁ h₄
    omega

/-- Whatever processes do with their contexts, no call frees a block that is not
outstanding, the outstanding blocks are those of the contexts that are there,
and deleting a context gives back its own blocks and no others. -/
theorem ledger_exact {ops : List LedgerOp} {r : Option Ledger}
    (hrun : HonouredRun .initial ops r) :
    ∃ s, r = some s ∧ (∀ pid, (owned s.heap pid).Perm (s.blocks pid)) ∧
      ((∀ pid, s.registry.getContext pid = none) → s.heap = []) ∧
      ∀ pid, ∃ s', s.exec (.deleteContext pid) = some s' ∧ owned s'.heap pid = [] ∧
        ∀ k, k ≠ pid → (owned s'.heap k).Perm (owned s.heap k) ∧
          s'.registry.getContext k = s.registry.getContext k := by
  obtain ⟨s, hr, h⟩ := hrun.inv .initial
  refine ⟨s, hr, h.blocks_perm, fun hnone => eq_nil_of_owned fun pid => ?_, fun pid => ?_⟩
  · have hperm := h.blocks_perm pid
    rw [blocks, hnone pid] at hperm
    exact List.perm_nil.mp hperm
  · obtain ⟨s', hexec, -, hself, hothers, hcontexts⟩ := h.deleteContext pid
    exact ⟨s', hexec, hself, fun k hk => ⟨hothers k hk, hcontexts k hk⟩⟩

theorem ledger_exact_sample : ∃ s s', HonouredRun .initial sampleOps (some s) ∧
    s.exec (.deleteContext 1) = some s' ∧ owned s'.heap 1 = [] ∧
    owned s'.heap 2 = [⟨0x3fc02000, 64⟩] := by
  obtain ⟨s, hrun, hheap, -⟩ := exists_sample_run
  obtain ⟨s₁, heq, -, -, hdelete⟩ := ledger_exact hrun
  obtain rfl := Option.some.inj heq
  obtain ⟨s', hexec, hself, hothers⟩ := hdelete 1
  refine ⟨s, s', hrun, hexec, hself, List.perm_singleton.mp ?_⟩
  have hperm := (hothers 2 (by decide)).1
  rw [hheap] at hperm
  exact hperm

/-- What a request that fits is promised is inside of an outstanding block of its
own context, and overlaps no other such request, be it of the same process or of
another. -/
theorem requests_isolated {ops : List LedgerOp} (hrun : HonouredRun .initial ops (some s))
    (pid : Pid) :
    (∀ c, s.registry.getContext pid = some c →
        c.mapped.map MemMapped.promise = (s.requests pid).map Grant.promise) ∧
      (∀ g ∈ s.requests pid, Fits g.minLength g.minAlign →
        g.block ∈ owned s.heap pid ∧ g.block.Covers g.base.toNat g.extent) ∧
      ((s.requests pid).Pairwise fun g g' => Fits g.minLength g.minAlign →
        Fits g'.minLength g'.minAlign → ¬ Overlaps g.base g.extent g'.base g'.extent) ∧
      ∀ k, k ≠ pid → ∀ g ∈ s.requests pid, ∀ g' ∈ s.requests k, Fits g.minLength g.minAlign →
        Fits g'.minLength g'.minAlign → ¬ Overlaps g.base g.extent g'.base g'.extent := by
  obtain ⟨_, heq, h⟩ := hrun.inv .initial
  obtain rfl := Option.some.inj heq
  refine ⟨fun c hc => (h.books pid c hc).promises, fun g hg hfits => ?_, ?_, ?_⟩
  · exact ⟨h.mem_owned hg, (h.sound hg).inside hfits⟩
  · have hblocks : (s.requests pid).Pairwise fun g g' => g.block.Disjoint g'.block := by
      rw [← List.pairwise_map]
      exact (h.outstanding pid).pairwise (owned_pairwise h.disjoint pid) (Std.Symm.symm _ _)
    refine hblocks.imp_of_mem fun {g g'} hg hg' hdisjoint hfits hfits' => ?_
    exact not_overlaps ((h.sound hg).inside hfits) (h.sound hg).bounded
      ((h.sound hg').inside hfits') (h.sound hg').bounded hdisjoint
  · exact fun k hk g hg g' hg' hfits hfits' => h.requests_apart hk hg hg' hfits hfits'

/-- Two blocks of 64 bytes. -/
theorem requests_isolated_sample : ∃ s, HonouredRun .initial sampleOps (some s) ∧
    ∃ g ∈ s.requests 1, ∃ g' ∈ s.requests 2, g.extent = 64 ∧ g'.extent = 64 ∧
      ¬ Overlaps g.base 64 g'.base 64 := by
  obtain ⟨s, hrun, -, h₁, h₂⟩ := exists_sample_run
  have hfits : Fits 64 4 := .inr (.inr ⟨by decide, by decide⟩)
  have hg := h₁.symm ▸ List.mem_singleton_self _
  have hg' := h₂.symm ▸ List.mem_singleton_self _
  exact ⟨s, hrun, _, hg, _, hg', by decide, by decide,
    (requests_isolated hrun 1).2.2.2 2 (by decide) _ hg _ hg' hfits hfits⟩

end Ledger

end BadgeElfloader.Abi
