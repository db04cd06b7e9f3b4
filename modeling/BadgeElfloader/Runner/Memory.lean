import BadgeElfloader.Abi.Ledger
import BadgeElfloader.Runner.Tasks

/-!
The memory of all processes, from `startFD` to the end of `taskCode`.

`System.exec` computes the steps of the system, and a `Runtime` is a system
together with the blocks that its allocator has not got back. `loadLibrary` has a
failure path that frees the memory cookie, which the context still lists. On all
other paths the accounts balance.
-/

namespace BadgeElfloader.Abi

open Riscv (Word)

/-- A call on the context `pid`. -/
def MemOp.on (pid : Pid) : MemOp → LedgerOp
  | .map allocator minLength allowWrite allowExec minAlign =>
      .map pid allocator minLength allowWrite allowExec minAlign
  | .unmap base => .unmap pid base

/-- What a call leaves of the registry. -/
def LedgerOp.registry (r : Registry) : LedgerOp → Registry
  | .newContext => r.newContext.2
  | .map pid allocator minLength allowWrite allowExec minAlign =>
      r.apply pid (.map allocator minLength allowWrite allowExec minAlign)
  | .unmap pid base => r.apply pid (.unmap base)
  | .deleteContext pid => (r.deleteContext pid).2.1

@[simp] theorem MemOp.on_registry (r : Registry) (pid : Pid) (op : MemOp) :
    (op.on pid).registry r = r.apply pid op := by
  cases op <;> rfl

theorem Registry.apply_absent {r : Registry} {pid : Pid} (h : r.contextMap pid = none)
    (op : MemOp) : r.apply pid op = r := by
  have hmap : (r.apply pid op).contextMap = r.contextMap := by
    funext k
    rw [apply_contextMap]
    split
    · rename_i hk
      rw [hk, h]
      rfl
    · rfl
  obtain ⟨contextMap, nextPID, pid_eq⟩ := r
  simp only [apply] at hmap ⊢
  congr

theorem Ledger.exec_registry {s s' : Ledger} {op : LedgerOp} (h : s.exec op = some s') :
    s'.registry = op.registry s.registry := by
  cases op with
  | newContext =>
      obtain rfl := Option.some.inj h
      rfl
  | map pid allocator minLength allowWrite allowExec minAlign =>
      cases hc : s.registry.contextMap pid with
      | none =>
          simp only [exec, Registry.getContext, hc] at h
          obtain rfl := Option.some.inj h
          exact (Registry.apply_absent hc _).symm
      | some c =>
          simp only [exec, Registry.getContext, hc] at h
          obtain rfl := Option.some.inj h
          rfl
  | unmap pid base =>
      cases hc : s.registry.contextMap pid with
      | none =>
          simp only [exec, Registry.getContext, hc] at h
          obtain rfl := Option.some.inj h
          exact (Registry.apply_absent hc _).symm
      | some c =>
          simp only [exec, Registry.getContext, hc, Option.bind_eq_bind,
            Option.bind_eq_some_iff] at h
          obtain ⟨_, -, heap, -, h⟩ := h
          obtain rfl := Option.some.inj h
          rfl
  | deleteContext pid =>
      obtain ⟨heap, -, h⟩ := Option.bind_eq_some_iff.mp h
      obtain rfl := Option.some.inj h
      rfl

end BadgeElfloader.Abi

namespace BadgeElfloader.Runner

open Riscv (Word)
open Abi Loader Transition

/-! ### The steps of the system, computed -/

inductive SystemOp (ι : Type)
  | start (p : ι) (cb : Callback)
  | useContext (p : ι) (op : MemOp)
  /-- `loadLibrary` cannot export the symbols. -/
  | freeCookie (p : ι) (cookie : Word)
  | abandon (p : ι)
  | createTask (p : ι)
  | taskCode (p : ι)
  | noStack (p : ι)
  | call (p : ι) (fn : AbiFn)
  | leave (p : ι) (how : Leave)
  | deleteContext (p : ι)

namespace SystemOp

variable {ι : Type}

def isStart : SystemOp ι → Bool
  | start .. => true
  | _ => false

/-- Something is freed behind the back of the context. -/
def freesCookie : SystemOp ι → Bool
  | freeCookie _ cookie => cookie ≠ 0
  | _ => false

/-- The process is at a stage in which it takes the step. -/
def Possible (kernel : Bool) (s : System ι) : SystemOp ι → Prop
  | start p _ => (s.process p).stage = .unborn
  | useContext p _ => (s.process p).stage = .loading ∨ (s.process p).stage = .created
  | freeCookie p _ | abandon p | createTask p => (s.process p).stage = .loading
  | taskCode p => (s.process p).stage = .created
  | noStack p => kernel = true ∧ (s.process p).stage = .created
  | call p _ => (s.process p).stage = .running
  | leave p how => (s.process p).stage = .running ∧ how.possible kernel
  | deleteContext p => (s.process p).stage = .exited

instance (kernel : Bool) (s : System ι) : (op : SystemOp ι) → Decidable (op.Possible kernel s)
  | start .. | freeCookie .. | abandon _ | createTask _ | taskCode _ | call .. | deleteContext _ =>
      inferInstanceAs (Decidable (_ = _))
  | useContext .. => inferInstanceAs (Decidable (_ ∨ _))
  | noStack _ | leave .. => inferInstanceAs (Decidable (_ ∧ _))

end SystemOp

/-- The call of `map` or `unmap` behind an ABI function. -/
def AbiFn.memOp : AbiFn → Option MemOp
  | memMap allocator len minAlign allowExec => some (.map allocator len true allowExec minAlign)
  | memUnmap addr => some (.unmap addr)
  | exit _ => none

variable {ι : Type} [DecidableEq ι]

/-- The state after a step. -/
def System.after (kernel : Bool) (s : System ι) : SystemOp ι → System ι
  | .start p cb =>
      { s.update p s.registry.newContext.2 ⟨s.registry.newContext.1, cb, 0, 0, .loading⟩ with
        created := s.created + 1 }
  | .useContext p op => s.update p (s.registry.apply (s.process p).actx op) (s.process p)
  | .freeCookie _ _ => s
  | .abandon p | .deleteContext p =>
      s.update p (s.registry.deleteContext (s.process p).actx).2.1
        { s.process p with stage := .finished }
  | .createTask p => s.update p s.registry { s.process p with stage := .created }
  | .taskCode p =>
      s.update p s.registry
        { s.process p with
          threadPID := if kernel then (s.process p).threadPID else (s.process p).actx
          stage := .running }
  | .noStack p => s.update p s.registry { s.process p with ec := -1, stage := .exited }
  | .call p fn =>
      match fn.call s.registry (getContext s.registry (s.process p).threadPID) with
      | some r => s.update p r ((s.process p).afterCall kernel fn)
      | none => { s with halted := true }
  | .leave p how => s.update p s.registry { s.process p with ec := how.ec kernel, stage := .exited }

def System.exec (kernel : Bool) (s : System ι) (op : SystemOp ι) : Option (System ι) :=
  if s.halted = false ∧ op.Possible kernel s then some (s.after kernel op) else none

/-- What a step asks of the contexts. -/
def SystemOp.ledgerOp (s : System ι) : SystemOp ι → Option LedgerOp
  | start .. => some .newContext
  | useContext p op => some (op.on (s.process p).actx)
  | abandon p | deleteContext p => some (.deleteContext (s.process p).actx)
  | call p fn =>
      (getContext s.registry (s.process p).threadPID).bind fun pid => fn.memOp.map (MemOp.on pid)
  | _ => none

/-- A system with the blocks that are outstanding and the requests that have not
been unmapped. -/
structure Runtime (ι : Type) where
  system : System ι
  heap : List (Pid × MemRange)
  requests : Pid → List Grant

namespace Runtime

def initial : Runtime ι := ⟨.initial, [], fun _ => []⟩

def ledger (m : Runtime ι) : Ledger := ⟨m.system.registry, m.heap, m.requests⟩

/-- What a step makes of the memory, if it does not free what is not
outstanding. -/
def memory (m : Runtime ι) (op : SystemOp ι) : Option Ledger :=
  match op with
  | .freeCookie _ cookie => m.ledger.free cookie
  | op => (op.ledgerOp m.system).elim (some m.ledger) m.ledger.exec

end Runtime

/-- Steps with allocators that keep their promises. There is no runtime any more
when something has been freed that is not outstanding. -/
inductive RuntimeStep (kernel : Bool) : Option (Runtime ι) → SystemOp ι → Option (Runtime ι) → Prop
  | step {m : Runtime ι} {op : SystemOp ι} {s : System ι} :
      m.system.exec kernel op = some s →
      (∀ call, op.ledgerOp m.system = some call → m.ledger.Honoured call) →
      RuntimeStep kernel (some m) op ((m.memory op).map fun l => ⟨s, l.heap, l.requests⟩)

section system

variable {kernel : Bool} {s s' : System ι} {op : SystemOp ι} {ev : Event ι} {p : ι}

omit [DecidableEq ι] in
theorem AbiFn.call_eq (fn : AbiFn) (r : Registry) (ref : Option Pid) :
    fn.call r ref = ref.map fun pid => fn.memOp.elim r (r.apply pid) := by
  cases fn <;> rfl

/-- What is computed is a step of the system, or `free` is called. -/
theorem System.exec_step (h : s.exec kernel op = some s') :
    s' = s ∨ ∃ ev, SystemStep kernel s ev s' := by
  unfold exec at h
  split at h
  · rename_i hpossible
    obtain rfl := Option.some.inj h
    obtain ⟨hhalted, hp⟩ := hpossible
    cases op with
    | freeCookie p cookie => exact .inl rfl
    | start p cb => exact .inr ⟨_, .start cb hhalted hp⟩
    | useContext p op => exact .inr ⟨_, .useContext op hhalted hp⟩
    | abandon p => exact .inr ⟨_, .abandon hhalted hp⟩
    | createTask p => exact .inr ⟨_, .createTask hhalted hp⟩
    | taskCode p => exact .inr ⟨_, .taskCode hhalted hp⟩
    | noStack p => exact .inr ⟨_, .noStack hp.1 hhalted hp.2⟩
    | call p fn =>
        rw [after]
        split
        · rename_i hcall
          exact .inr ⟨_, .call fn hhalted hp hcall⟩
        · rename_i hcall
          exact .inr ⟨_, .crash fn hhalted hp hcall⟩
    | leave p how => exact .inr ⟨_, .leave how hhalted hp.1 hp.2⟩
    | deleteContext p => exact .inr ⟨_, .deleteContext hhalted hp⟩
  · cases h

/-- Every step of the system is computed. -/
theorem SystemStep.exists_op (h : SystemStep kernel s ev s') :
    ∃ op, s.exec kernel op = some s' := by
  cases h with
  | start cb hhalted hp => exact ⟨.start _ cb, if_pos ⟨hhalted, hp⟩⟩
  | useContext op hhalted hp => exact ⟨.useContext _ op, if_pos ⟨hhalted, hp⟩⟩
  | abandon hhalted hp => exact ⟨.abandon _, if_pos ⟨hhalted, hp⟩⟩
  | createTask hhalted hp => exact ⟨.createTask _, if_pos ⟨hhalted, hp⟩⟩
  | taskCode hhalted hp => exact ⟨.taskCode _, if_pos ⟨hhalted, hp⟩⟩
  | noStack hkernel hhalted hp => exact ⟨.noStack _, if_pos ⟨hhalted, hkernel, hp⟩⟩
  | call fn hhalted hp hcall =>
      refine ⟨.call _ fn, (if_pos ⟨hhalted, hp⟩).trans ?_⟩
      simp only [System.after, hcall]
  | crash fn hhalted hp hcall =>
      refine ⟨.call _ fn, (if_pos ⟨hhalted, hp⟩).trans ?_⟩
      simp only [System.after, hcall]
  | leave how hhalted hp hhow => exact ⟨.leave _ how, if_pos ⟨hhalted, hp, hhow⟩⟩
  | deleteContext hhalted hp => exact ⟨.deleteContext _, if_pos ⟨hhalted, hp⟩⟩

theorem System.after_registry (kernel : Bool) (s : System ι) (op : SystemOp ι) :
    (s.after kernel op).registry =
      (op.ledgerOp s).elim s.registry (LedgerOp.registry s.registry) := by
  cases op with
  | useContext p op => exact (op.on_registry _ _).symm
  | call p fn =>
      simp only [after, SystemOp.ledgerOp, AbiFn.call_eq]
      cases getContext s.registry (s.process p).threadPID with
      | none => rfl
      | some pid =>
          cases fn.memOp with
          | none => simp [System.update]
          | some op => simp [System.update]
  | _ => rfl

theorem System.after_created (kernel : Bool) (s : System ι) (op : SystemOp ι) :
    (s.after kernel op).created = s.created + if op.isStart then 1 else 0 := by
  cases op with
  | call p fn =>
      rw [after]
      split <;> rfl
  | _ => rfl

/-- `loadLibrary` as steps of its process. -/
theorem loadLibrary_run {Elf File : Type} (l : Linkage Elf) (lib : ElfLib File Elf)
    (allocators : ℕ → Allocator) (filename : String) (fd : File) (hhalted : s.halted = false)
    (hp : (s.process p).stage = .loading) (hpid : l.pid = (s.process p).actx)
    {load : Option (Load Elf)} {l' : Linkage Elf} {r' : Registry} {freed : List Word}
    (hload : l.loadLibrary lib allocators s.registry filename fd = (load, l', r', freed)) :
    ∃ mems : List MemOp, Run (fun s op s' => s.exec kernel op = some s') s
      (mems.map (.useContext p) ++ freed.map (.freeCookie p))
      (s.update p r' (s.process p)) := by
  obtain ⟨mems, hmems⟩ := l.loadLibrary_onlyUses lib allocators s.registry filename fd
  rw [hload, hpid] at hmems
  obtain rfl : r' = _ := hmems
  clear hload hpid
  refine ⟨mems, Run.append (t := s.update p (mems.foldl (fun r op => r.apply (s.process p).actx op)
    s.registry) (s.process p)) ?_ ?_⟩
  · induction mems generalizing s with
    | nil =>
        rw [List.foldl_nil, show s.update p s.registry (s.process p) = s by simp [System.update]]
        exact .nil s
    | cons op mems ih =>
        have hrest := ih (s := s.update p (s.registry.apply (s.process p).actx op) (s.process p))
          hhalted (by rw [System.update_process_self, hp])
        rw [System.update_process_self, System.update_update] at hrest
        exact .cons (if_pos ⟨hhalted, .inl hp⟩) hrest
  · generalize hs : s.update p _ (s.process p) = t
    have ht : t.halted = false ∧ (t.process p).stage = .loading := by
      rw [← hs, System.update_process_self]
      exact ⟨hhalted, hp⟩
    clear hs
    induction freed with
    | nil => exact .nil t
    | cons cookie freed ih => exact .cons (if_pos ht) ih

end system

/-! ### The accounts -/

/-- Every context has a process. -/
def System.Owned (s : System ι) : Prop :=
  ∀ pid, (s.registry.contextMap pid).isSome →
    ∃ p, (s.process p).stage.live ∧ (s.process p).actx = pid

/-- The accounts of a runtime after the steps `ops`: they balance unless a cookie
was freed, and then a context is short of a block. -/
structure Runtime.Sound (kernel : Bool) (ops : List (SystemOp ι)) (m : Runtime ι) : Prop where
  inv : SystemInv kernel m.system
  owned : m.system.Owned
  created : m.system.created = ops.countP SystemOp.isStart
  balanced : (∀ op ∈ ops, op.freesCookie = false) → m.ledger.Inv
  short : (∃ op ∈ ops, op.freesCookie = true) → ∃ k, m.ledger.Short k

section accounts

variable {kernel : Bool} {s s' : System ι} {op : SystemOp ι} {p : ι} {m : Runtime ι}
  {ops : List (SystemOp ι)} {r : Option (Runtime ι)} {l : Ledger}

theorem System.Owned.update (h : s.Owned) {registry : Registry} {pr : Process}
    (hlive : pr.stage.live) (hactx : pr.actx = (s.process p).actx)
    (hdomain : ∀ pid, (registry.contextMap pid).isSome → (s.registry.contextMap pid).isSome) :
    (s.update p registry pr).Owned := by
  intro pid hpid
  obtain ⟨q, hq, hqpid⟩ := h pid (hdomain pid hpid)
  by_cases hqp : q = p
  · refine ⟨p, ?_, ?_⟩
    · simpa [System.update] using hlive
    · rw [hqp] at hqpid
      simpa [System.update, hactx] using hqpid
  · exact ⟨q, by simpa [System.update, hqp] using hq, by simpa [System.update, hqp] using hqpid⟩

theorem System.Owned.finish (h : s.Owned) :
    (s.update p (s.registry.deleteContext (s.process p).actx).2.1
      { s.process p with stage := .finished }).Owned := by
  intro pid hpid
  simp only [System.update, Registry.deleteContext_contextMap] at hpid
  split at hpid
  · cases hpid
  · rename_i hne
    obtain ⟨q, hq, hqpid⟩ := h pid hpid
    have hqp : q ≠ p := by
      rintro rfl
      exact hne hqpid.symm
    exact ⟨q, by simpa [System.update, hqp] using hq, by simpa [System.update, hqp] using hqpid⟩

theorem System.Owned.start (h : s.Owned) (hp : (s.process p).stage = .unborn) (cb : Callback) :
    ({ s.update p s.registry.newContext.2 ⟨s.registry.newContext.1, cb, 0, 0, .loading⟩ with
      created := s.created + 1 } : System ι).Owned := by
  intro pid hpid
  simp only [System.update, Registry.newContext_contextMap] at hpid
  split at hpid
  · rename_i hnew
    exact ⟨p, by simp [System.update, Stage.live], by simp [System.update, hnew]⟩
  · obtain ⟨q, hq, hqpid⟩ := h pid hpid
    have hqp : q ≠ p := by
      rintro rfl
      rw [hp] at hq
      cases hq
    exact ⟨q, by simpa [System.update, hqp] using hq, by simpa [System.update, hqp] using hqpid⟩

theorem System.Owned.exec (h : s.Owned) (hexec : s.exec kernel op = some s') : s'.Owned := by
  unfold System.exec at hexec
  split at hexec
  · rename_i hpossible
    obtain rfl := Option.some.inj hexec
    have hp := hpossible.2
    cases op with
    | start p cb => exact h.start hp cb
    | useContext p op =>
        have hlive : (s.process p).stage.live := by rcases hp with hp | hp <;> rw [hp] <;> rfl
        exact h.update hlive rfl fun pid hpid => by rwa [Registry.apply_isSome] at hpid
    | freeCookie p cookie => exact h
    | abandon p | deleteContext p => exact h.finish
    | createTask p | taskCode p | noStack p | leave p how =>
        exact h.update rfl rfl fun _ hpid => hpid
    | call p fn =>
        rw [System.after]
        split
        · rename_i registry hcall
          rw [AbiFn.call_eq, Option.map_eq_some_iff] at hcall
          obtain ⟨pid, -, rfl⟩ := hcall
          refine h.update ?_ (by simp) fun k hk => ?_
          · cases fn with
            | exit ec => rfl
            | _ => exact (congrArg Stage.live hp).trans rfl
          · cases hop : fn.memOp with
            | none => rwa [hop] at hk
            | some op =>
                rw [hop] at hk
                exact (Registry.apply_isSome _ _ _ _).symm.trans hk
        · exact h
  · cases hexec

theorem SystemInv.exec (h : SystemInv kernel s) (hcount : s.created < 2 ^ 31 - 1)
    (hexec : s.exec kernel op = some s') : SystemInv kernel s' := by
  obtain rfl | ⟨ev, hstep⟩ := System.exec_step hexec
  · exact h
  · exact (hstep.inv h hcount).1

theorem Runtime.memory_registry (h : m.memory op = some l)
    (hexec : m.system.exec kernel op = some s) : l.registry = s.registry := by
  obtain rfl : m.system.after kernel op = s := by
    unfold System.exec at hexec
    split at hexec
    · exact Option.some.inj hexec
    · cases hexec
  unfold Runtime.memory at h
  split at h
  · rename_i p cookie
    unfold Ledger.free at h
    split at h
    · obtain rfl := Option.some.inj h
      rfl
    · obtain ⟨b, -, rfl⟩ := Option.map_eq_some_iff.mp h
      rfl
  · rw [System.after_registry]
    cases hop : op.ledgerOp m.system with
    | none =>
        rw [hop] at h
        obtain rfl := Option.some.inj h
        rfl
    | some call =>
        rw [hop] at h
        exact Ledger.exec_registry h

omit [DecidableEq ι] in
/-- Where the accounts balance, only the cookie is freed that should not be. -/
theorem Runtime.memory_inv (h : m.ledger.Inv) (hop : op.freesCookie = false)
    (hhonoured : ∀ call, op.ledgerOp m.system = some call → m.ledger.Honoured call) :
    ∃ l, m.memory op = some l ∧ l.Inv := by
  unfold Runtime.memory
  split
  · rename_i p cookie
    obtain rfl : cookie = 0 := by simpa [SystemOp.freesCookie] using hop
    exact ⟨m.ledger, if_pos rfl, h⟩
  · cases hcall : op.ledgerOp m.system with
    | none => exact ⟨m.ledger, rfl, h⟩
    | some call => exact h.exec (hhonoured call hcall)

omit [DecidableEq ι] in
theorem Runtime.memory_short {k : Pid} (h : m.ledger.Short k) (hmem : m.memory op = some l) :
    l.Short k := by
  unfold Runtime.memory at hmem
  split at hmem
  · exact h.free hmem
  · cases hcall : op.ledgerOp m.system with
    | none =>
        rw [hcall] at hmem
        obtain rfl := Option.some.inj hmem
        exact h
    | some call =>
        rw [hcall] at hmem
        exact h.exec hmem

omit [DecidableEq ι] in
theorem Runtime.memory_freed (h : m.ledger.Inv) (hop : op.freesCookie = true)
    (hmem : m.memory op = some l) : ∃ k, l.Short k := by
  cases op with
  | freeCookie p cookie => exact h.free (by simpa [SystemOp.freesCookie] using hop) hmem
  | _ => cases hop

/-- Freeing a cookie is the only way out of the balance. -/
theorem Runtime.Sound.step (h : m.Sound kernel ops) (hcount : m.system.created < 2 ^ 31 - 1)
    (hstep : RuntimeStep kernel (some m) op r) :
    (∃ m', r = some m' ∧ m'.Sound kernel (ops ++ [op])) ∨
      r = none ∧ ∃ op' ∈ ops ++ [op], op'.freesCookie = true := by
  cases hstep with
  | step hexec hhonoured =>
      rename_i s
      have hbalanced : (∀ op' ∈ ops ++ [op], op'.freesCookie = false) →
          ∃ l, m.memory op = some l ∧ l.Inv := fun hnone =>
        Runtime.memory_inv (h.balanced fun op' hop' => hnone op' (List.mem_append_left _ hop'))
          (hnone op List.mem_concat_self) hhonoured
      cases hmem : m.memory op with
      | none =>
          refine .inr ⟨rfl, ?_⟩
          by_contra hnone
          obtain ⟨l, hl, -⟩ := hbalanced fun op' hop' => by
            simpa using fun hfree => hnone ⟨op', hop', hfree⟩
          cases hmem.symm.trans hl
      | some l =>
          have hledger : (⟨s, l.heap, l.requests⟩ : Runtime ι).ledger = l := by
            simp only [Runtime.ledger, ← Runtime.memory_registry hmem hexec]
          refine .inl ⟨_, rfl, h.inv.exec hcount hexec, h.owned.exec hexec, ?_, fun hnone => ?_,
            fun hfrees => ?_⟩
          · have hcreated := System.after_created kernel m.system op
            unfold System.exec at hexec
            split at hexec
            · obtain rfl := Option.some.inj hexec
              rw [hcreated, h.created]
              simp [List.countP_append, List.countP_cons]
            · cases hexec
          · obtain ⟨l', hl', hinv⟩ := hbalanced hnone
            obtain rfl := Option.some.inj (hmem.symm.trans hl')
            rwa [hledger]
          · rw [hledger]
            by_cases hbefore : ∃ op' ∈ ops, op'.freesCookie = true
            · obtain ⟨k, hk⟩ := h.short hbefore
              exact ⟨k, Runtime.memory_short hk hmem⟩
            · obtain ⟨op', hop', hfree⟩ := hfrees
              obtain hold | hnew := List.mem_append.mp hop'
              · exact absurd ⟨op', hold, hfree⟩ hbefore
              · obtain rfl := List.mem_singleton.mp hnew
                exact Runtime.memory_freed (h.balanced (by simpa using hbefore)) hfree hmem

omit [DecidableEq ι] in
theorem Runtime.initial_sound (kernel : Bool) : (Runtime.initial : Runtime ι).Sound kernel [] where
  inv := .initial
  owned pid h := by simp [initial, System.initial, Registry.initial] at h
  created := rfl
  balanced _ := .initial
  short := by simp

/-- The accounts after a run of less than 2^31 - 1 starts. -/
theorem RuntimeStep.accounts (hrun : Run (RuntimeStep kernel) (some .initial) ops r)
    (hstarts : ops.countP SystemOp.isStart < 2 ^ 31 - 1) :
    (∃ m, r = some m ∧ m.Sound kernel ops) ∨
      r = none ∧ ∃ op ∈ ops, op.freesCookie = true := by
  refine hrun.history (P := fun ops r => ops.countP SystemOp.isStart < 2 ^ 31 - 1 →
    (∃ m, r = some m ∧ m.Sound kernel ops) ∨
      r = none ∧ ∃ op ∈ ops, op.freesCookie = true) ?_ ?_ hstarts
  · intro ops r op r' ih hstep hcount
    have hbefore : ops.countP SystemOp.isStart < 2 ^ 31 - 1 := by
      rw [List.countP_append] at hcount
      omega
    obtain ⟨m, rfl, hm⟩ | ⟨rfl, -⟩ := ih hbefore
    · exact hm.step (hm.created ▸ hbefore) hstep
    · cases hstep
  · exact fun _ => .inl ⟨_, rfl, Runtime.initial_sound kernel⟩

end accounts

/-- All that is outstanding can still be given back exactly if no cookie was
freed. -/
theorem releasable_iff {kernel : Bool} {ops : List (SystemOp ι)} {r : Option (Runtime ι)}
    (hrun : Run (RuntimeStep kernel) (some .initial) ops r)
    (hstarts : ops.countP SystemOp.isStart < 2 ^ 31 - 1) :
    (∃ m, r = some m ∧ ∀ p, (m.system.process p).stage.live →
        ∃ l, m.ledger.exec (.deleteContext (m.system.process p).actx) = some l ∧
          owned l.heap (m.system.process p).actx = []) ↔
      ∀ op ∈ ops, op.freesCookie = false := by
  obtain ⟨m, rfl, hm⟩ | ⟨rfl, op, hop, hfree⟩ := RuntimeStep.accounts hrun hstarts
  · constructor
    · rintro ⟨_, heq, hrelease⟩ op hop
      obtain rfl := Option.some.inj heq
      by_contra hfree
      obtain ⟨k, hk⟩ := hm.short ⟨op, hop, by simpa using hfree⟩
      obtain ⟨p, hp, rfl⟩ := hm.owned k hk.context
      obtain ⟨l, hl, -⟩ := hrelease p hp
      rw [hk.deleteContext] at hl
      cases hl
    · refine fun hcookies => ⟨m, rfl, fun p _ => ?_⟩
      obtain ⟨l, hl, -, hnone, -⟩ := (hm.balanced hcookies).deleteContext (m.system.process p).actx
      exact ⟨l, hl, hnone⟩
  · constructor
    · rintro ⟨m, hr, -⟩
      cases hr
    · intro hcookies
      rw [hcookies op hop] at hfree
      cases hfree

/-- A load that fails after it has mapped a block. -/
def sampleCookie : List (SystemOp Unit) :=
  [.start () .empty, .useContext () (.map (Ledger.oneBlock ⟨0x3fc01000, 64⟩) 64 true true 4),
    .freeCookie () 0x3fc01000]

/-- The block is then freed a second time with its context. -/
theorem releasable_iff_sample : ∃ m,
    Run (RuntimeStep false) (some .initial) sampleCookie (some m) ∧
      ¬ ∀ p, (m.system.process p).stage.live →
        ∃ l, m.ledger.exec (.deleteContext (m.system.process p).actx) = some l ∧
          owned l.heap (m.system.process p).actx = [] := by
  obtain ⟨m, hrun⟩ : ∃ m, Run (RuntimeStep false) (some .initial) sampleCookie (some m) := by
    refine ⟨_, .cons (.step rfl ?_) (.cons (.step rfl ?_) (.cons (.step rfl ?_) (.nil _)))⟩
    · rintro _ ⟨⟩
      trivial
    · rintro _ ⟨⟩
      exact Ledger.oneBlock_honours (by decide) (by decide) nofun
    · rintro _ ⟨⟩
  refine ⟨m, hrun, fun hrelease => ?_⟩
  have hcookies := (releasable_iff hrun (by decide)).mp ⟨m, rfl, hrelease⟩
  exact absurd hcookies (by decide)

end BadgeElfloader.Runner
