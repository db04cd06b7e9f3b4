import BadgeElfloader.Abi.Context
import Mathlib.Logic.Function.Basic

/-!
The registry of contexts: the PID map of `abi.cpp` and its four operations.

References into the map stay valid until their entry is erased, so a reference
to a context is modelled by its key. That an entry knows its own key is a field
of the registry.
-/

namespace BadgeElfloader.Abi

open Riscv (Word)

abbrev Pid := BitVec 32

structure Registry where
  contextMap : Pid → Option Context
  nextPID : Pid
  pid_eq : ∀ {pid : Pid} {c : Context}, contextMap pid = some c → c.pid = pid

namespace Registry

def initial : Registry where
  contextMap _ := none
  nextPID := 1
  pid_eq := nofun

/-- Create a new numbered ABI context. A context that is already there under
the next number is taken over. -/
def newContext (r : Registry) : Pid × Registry :=
  let pid := r.nextPID
  let ref := (r.contextMap pid).getD Context.empty
  (pid,
    { contextMap := Function.update r.contextMap pid (some { ref with pid := pid })
      nextPID := r.nextPID + 1
      pid_eq := by
        intro k c h
        by_cases hk : k = pid
        · subst hk
          rw [Function.update_self] at h
          exact (Option.some.inj h) ▸ rfl
        · rw [Function.update_of_ne hk] at h
          exact r.pid_eq h })

/-- Get a context given a PID. -/
def getContext (r : Registry) (pid : Pid) : Option Context := r.contextMap pid

/-- Destroy an ABI context. The list is what its destructor frees. -/
def deleteContext (r : Registry) (pid : Pid) : Bool × Registry × List MemRange :=
  ((r.contextMap pid).isSome,
    { r with
      contextMap := Function.update r.contextMap pid none
      pid_eq := by
        intro k c h
        by_cases hk : k = pid
        · subst hk
          rw [Function.update_self] at h
          cases h
        · rw [Function.update_of_ne hk] at h
          exact r.pid_eq h },
    (r.contextMap pid).elim [] Context.destroy)

/-- A call on the context that a reference leads to. -/
def apply (r : Registry) (pid : Pid) (op : MemOp) : Registry :=
  { r with
    contextMap := Function.update r.contextMap pid ((r.contextMap pid).map (·.apply op))
    pid_eq := by
      intro k c h
      by_cases hk : k = pid
      · subst hk
        rw [Function.update_self] at h
        obtain ⟨c', hc', rfl⟩ := Option.map_eq_some_iff.mp h
        rw [Context.apply_pid, r.pid_eq hc']
      · rw [Function.update_of_ne hk] at h
        exact r.pid_eq h }

theorem newContext_contextMap (r : Registry) (k : Pid) :
    r.newContext.2.contextMap k =
      if k = r.nextPID then
        some { (r.contextMap r.nextPID).getD Context.empty with pid := r.nextPID }
      else r.contextMap k := by
  simp [newContext, Function.update_apply]

@[simp] theorem newContext_pid (r : Registry) : r.newContext.1 = r.nextPID := rfl

@[simp] theorem newContext_nextPID (r : Registry) : r.newContext.2.nextPID = r.nextPID + 1 := rfl

@[simp] theorem deleteContext_contextMap (r : Registry) (pid k : Pid) :
    (r.deleteContext pid).2.1.contextMap k = if k = pid then none else r.contextMap k := by
  simp [deleteContext, Function.update_apply]

@[simp] theorem deleteContext_nextPID (r : Registry) (pid : Pid) :
    (r.deleteContext pid).2.1.nextPID = r.nextPID := rfl

@[simp] theorem apply_contextMap (r : Registry) (pid k : Pid) (op : MemOp) :
    (r.apply pid op).contextMap k =
      if k = pid then (r.contextMap pid).map (·.apply op) else r.contextMap k := by
  simp [apply, Function.update_apply]

@[simp] theorem apply_nextPID (r : Registry) (pid : Pid) (op : MemOp) :
    (r.apply pid op).nextPID = r.nextPID := rfl

theorem apply_isSome (r : Registry) (pid k : Pid) (op : MemOp) :
    ((r.apply pid op).contextMap k).isSome = (r.contextMap k).isSome := by
  rw [apply_contextMap]
  split
  · rename_i h
    rw [h, Option.isSome_map]
  · rfl

/-- `r'` comes from `r` by calls on the context of `pid`. -/
def OnlyUses (pid : Pid) (r r' : Registry) : Prop :=
  ∃ ops : List MemOp, r' = ops.foldl (fun r op => r.apply pid op) r

namespace OnlyUses

theorem refl (pid : Pid) (r : Registry) : OnlyUses pid r r := ⟨[], rfl⟩

theorem trans {pid : Pid} {r r' r'' : Registry} (h : OnlyUses pid r r') (h' : OnlyUses pid r' r'') :
    OnlyUses pid r r'' := by
  obtain ⟨ops, rfl⟩ := h
  obtain ⟨ops', rfl⟩ := h'
  exact ⟨ops ++ ops', by rw [List.foldl_append]⟩

theorem apply (r : Registry) (pid : Pid) (op : MemOp) : OnlyUses pid r (r.apply pid op) :=
  ⟨[op], rfl⟩

variable {pid : Pid} {r r' : Registry}

theorem others (h : OnlyUses pid r r') {k : Pid} (hk : k ≠ pid) :
    r'.contextMap k = r.contextMap k := by
  obtain ⟨ops, rfl⟩ := h
  induction ops generalizing r with
  | nil => rfl
  | cons op ops ih => rw [List.foldl_cons, ih, apply_contextMap, if_neg hk]

theorem isSome (h : OnlyUses pid r r') (k : Pid) :
    (r'.contextMap k).isSome = (r.contextMap k).isSome := by
  obtain ⟨ops, rfl⟩ := h
  induction ops generalizing r with
  | nil => rfl
  | cons op ops ih => rw [List.foldl_cons, ih, apply_isSome]

end OnlyUses

/-- Deleting the context that a free number was given to leaves no trace. -/
theorem OnlyUses.deleteContext {r r' : Registry} (h : OnlyUses r.nextPID r.newContext.2 r')
    (hfree : r.contextMap r.nextPID = none) :
    (r'.deleteContext r.nextPID).2.1.contextMap = r.contextMap := by
  funext k
  rw [deleteContext_contextMap]
  split
  · rename_i hk
    rw [hk, hfree]
  · rename_i hk
    rw [h.others hk, newContext_contextMap, if_neg hk]

end Registry

end BadgeElfloader.Abi
