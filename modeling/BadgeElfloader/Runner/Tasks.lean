import BadgeElfloader.Runner.StartFD
import BadgeElfloader.Transition.Run
import Mathlib.Algebra.Group.Nat.Defs

/-!
Processes and the registry of contexts.

The ABI functions that need the context of their caller look it up by a
thread-local PID. `taskCode` sets it in the build without the kernel and leaves
it alone in the build with the kernel, where every lookup therefore fails. The
system below has any number of processes at any stage of their lives, with the
steps of different tasks in any order.
-/

namespace BadgeElfloader.Runner

open Riscv (Word)
open Abi Transition

/-! ### The ABI functions -/

/-- `getContext()`: a reference to the context of the thread, or null. -/
def getContext (r : Registry) (threadPID : Pid) : Option Pid :=
  if (r.getContext threadPID).isSome then some threadPID else none

/-- The ABI functions that work on the context of their caller, with their
arguments. -/
inductive AbiFn
  | memMap (allocator : Allocator) (len minAlign : Word) (allowExec : Bool)
  | memUnmap (addr : Word)
  | exit (ec : Word)

/-- What a call of such a function makes of the registry, when `getContext()`
has returned `ref`. There is no result where the null pointer is dereferenced,
or where `appExited` aborts for the lack of a context. -/
def AbiFn.call (r : Registry) (ref : Option Pid) : AbiFn → Option Registry
  | memMap allocator len minAlign allowExec =>
      ref.map fun pid => r.apply pid (.map allocator len true allowExec minAlign)
  | memUnmap addr => ref.map fun pid => r.apply pid (.unmap addr)
  | exit _ => ref.map fun _ => r

/-! ### The system -/

/-- How far a process is. -/
inductive Stage
  | unborn
  /-- In `startFD`, with a context of its own. -/
  | loading
  /-- Its task has been created. -/
  | created
  /-- In the user code of its task. -/
  | running
  /-- Back in `taskCode`. -/
  | exited
  | finished
  deriving DecidableEq

/-- A process: the `actx` and the `cb` of its `Params`, the `threadPID` and the
`ec` of its task, and its stage. -/
structure Process where
  actx : Pid
  cb : Callback
  threadPID : Pid
  ec : Word
  stage : Stage

/-- `created` counts the contexts made so far. After a `halt` nothing happens
any more. -/
structure System (ι : Type) where
  registry : Registry
  process : ι → Process
  created : ℕ
  halted : Bool

def System.initial {ι : Type} : System ι where
  registry := .initial
  process _ := ⟨0, .empty, 0, 0, .unborn⟩
  created := 0
  halted := false

variable {ι : Type} [DecidableEq ι]

def System.update (s : System ι) (p : ι) (registry : Registry) (process : Process) : System ι :=
  { s with registry := registry, process := Function.update s.process p process }

/-- How a process leaves its user code, other than by `_exit`. -/
inductive Leave
  /-- Its entry function returns. -/
  | ret (c : Word)
  /-- An `ecall` with `SYS_EXIT` and the code in `a1`. -/
  | sysExit (c : Word)
  /-- Any other trap that is not an ABI call. -/
  | killed

/-- An entry function has a caller only in the build without the kernel. -/
def Leave.possible (kernel : Bool) : Leave → Bool
  | ret _ => !kernel
  | sysExit _ | killed => kernel

/-- What `_badgert_jump_to_app` returns when the process ends with code `c`, and
what `runUserCode` returns in its place in the build with the kernel. -/
def obtainedCode (kernel : Bool) (c : Word) : Word := if kernel then -1 else c

def Leave.ec (kernel : Bool) : Leave → Word
  | ret c | sysExit c => obtainedCode kernel c
  | killed => obtainedCode kernel 0

/-- The process after a call, which returns unless it is `_exit`. -/
def Process.afterCall (kernel : Bool) (pr : Process) : AbiFn → Process
  | .exit c => { pr with ec := obtainedCode kernel c, stage := .exited }
  | _ => pr

@[simp] theorem Process.afterCall_actx (kernel : Bool) (pr : Process) (fn : AbiFn) :
    (pr.afterCall kernel fn).actx = pr.actx := by
  cases fn <;> rfl

inductive Event (ι : Type)
  | other
  /-- Process `p`, whose context is `actx`, calls `fn`, for which `getContext()`
  returns `ref`; the registry goes from `before` to `after`. -/
  | call (p : ι) (fn : AbiFn) (actx : Pid) (ref : Option Pid) (before after : Registry)
  | leave (p : ι) (how : Leave)
  /-- `cb(c, ctx)` in the task of `p`. -/
  | callback (p : ι) (c : Word) (ctx : Pid)
  | deleteContext (p : ι) (actx : Pid)

/-- `kernel` is `CONFIG_BADGEABI_ENABLE_KERNEL`. -/
inductive SystemStep (kernel : Bool) : System ι → Event ι → System ι → Prop
  /-- `startFD` begins with a new context. -/
  | start {s : System ι} {p : ι} (cb : Callback) : s.halted = false →
      (s.process p).stage = .unborn →
      SystemStep kernel s .other
        { s.update p s.registry.newContext.2 ⟨s.registry.newContext.1, cb, 0, 0, .loading⟩ with
          created := s.created + 1 }
  /-- Loading and `runUserCode` map memory through their reference. -/
  | useContext {s : System ι} {p : ι} (op : MemOp) : s.halted = false →
      (s.process p).stage = .loading ∨ (s.process p).stage = .created →
      SystemStep kernel s .other
        (s.update p (s.registry.apply (s.process p).actx op) (s.process p))
  | abandon {s : System ι} {p : ι} : s.halted = false → (s.process p).stage = .loading →
      SystemStep kernel s .other
        (s.update p (s.registry.deleteContext (s.process p).actx).2.1
          { s.process p with stage := .finished })
  /-- `xTaskCreate`. -/
  | createTask {s : System ι} {p : ι} : s.halted = false → (s.process p).stage = .loading →
      SystemStep kernel s .other (s.update p s.registry { s.process p with stage := .created })
  /-- `taskCode` up to the user code; `abi::setContext` is only called in the
  build without the kernel. -/
  | taskCode {s : System ι} {p : ι} : s.halted = false → (s.process p).stage = .created →
      SystemStep kernel s .other
        (s.update p s.registry
          { s.process p with
            threadPID := if kernel then (s.process p).threadPID else (s.process p).actx
            stage := .running })
  /-- `runUserCode` finds no memory for the stack. -/
  | noStack {s : System ι} {p : ι} : kernel = true → s.halted = false →
      (s.process p).stage = .created →
      SystemStep kernel s .other
        (s.update p s.registry { s.process p with ec := -1, stage := .exited })
  | call {s : System ι} {p : ι} {r : Registry} (fn : AbiFn) : s.halted = false →
      (s.process p).stage = .running →
      fn.call s.registry (getContext s.registry (s.process p).threadPID) = some r →
      SystemStep kernel s
        (.call p fn (s.process p).actx (getContext s.registry (s.process p).threadPID) s.registry r)
        (s.update p r ((s.process p).afterCall kernel fn))
  /-- A call without a context takes the whole system down. -/
  | crash {s : System ι} {p : ι} (fn : AbiFn) : s.halted = false →
      (s.process p).stage = .running →
      fn.call s.registry (getContext s.registry (s.process p).threadPID) = none →
      SystemStep kernel s
        (.call p fn (s.process p).actx (getContext s.registry (s.process p).threadPID) s.registry
          s.registry)
        { s with halted := true }
  | leave {s : System ι} {p : ι} (how : Leave) : s.halted = false →
      (s.process p).stage = .running → how.possible kernel →
      SystemStep kernel s (.leave p how)
        (s.update p s.registry { s.process p with ec := how.ec kernel, stage := .exited })
  /-- The end of `taskCode`. -/
  | deleteContext {s : System ι} {p : ι} : s.halted = false → (s.process p).stage = .exited →
      SystemStep kernel s (.deleteContext p (s.process p).actx)
        (s.update p (s.registry.deleteContext (s.process p).actx).2.1
          { s.process p with stage := .finished })

/-! ### `startFD` in the system -/

/-- The state that a call of `startFD` leaves, and the stage of its process. -/
def Outcome.result {Elf : Type} : Outcome Elf → Registry × Stage
  | .failed s => (s.registry, .finished)
  | .created s _ => (s.registry, .created)

@[simp] theorem System.update_process_self (s : System ι) (p : ι) (r : Registry) (pr : Process) :
    (s.update p r pr).process p = pr := by simp [System.update]

@[simp] theorem System.update_update (s : System ι) (p : ι) (r r' : Registry) (pr pr' : Process) :
    (s.update p r pr).update p r' pr' = s.update p r' pr' := by
  simp [System.update]

theorem useContext_run (kernel : Bool) {s : System ι} {p : ι} (hhalted : s.halted = false)
    (hp : (s.process p).stage = .loading) (ops : List MemOp) :
    ∃ ls, Run (SystemStep kernel) s ls
      (s.update p (ops.foldl (fun r op => r.apply (s.process p).actx op) s.registry)
        (s.process p)) := by
  induction ops generalizing s with
  | nil =>
      refine ⟨[], ?_⟩
      have hsame : s.update p s.registry (s.process p) = s := by
        simp [System.update]
      rw [List.foldl_nil, hsame]
      exact .nil s
  | cons op ops ih =>
      obtain ⟨ls, hrun⟩ :=
        ih (s := s.update p (s.registry.apply (s.process p).actx op) (s.process p))
        hhalted (by rw [System.update_process_self, hp])
      rw [System.update_process_self, System.update_update] at hrun
      exact ⟨_, .cons (.useContext op hhalted (.inl hp)) hrun⟩

/-- A call of `startFD` is a run of the system. -/
theorem startFD_run {Elf : Type} {kernel : Bool} {s : System ι} {p : ι} (host : Host Elf)
    (filename : String) (fd : FilePtr) (cb : Callback) {out : Outcome Elf}
    (hhalted : s.halted = false) (hp : (s.process p).stage = .unborn)
    (hfree : s.registry.contextMap s.registry.nextPID = none)
    (hstart : startFD host s.registry filename fd cb = some out) :
    ∃ ls, Run (SystemStep kernel) s ls
      { s.update p out.result.1 ⟨s.registry.nextPID, cb, 0, 0, out.result.2⟩ with
        created := s.created + 1 } := by
  obtain ⟨out', hout, haccounted⟩ := startFD_accounted host s.registry filename fd cb hfree
  obtain rfl := Option.some.inj (hout.symm.trans hstart)
  set s₁ : System ι := { s.update p s.registry.newContext.2
    ⟨s.registry.newContext.1, cb, 0, 0, .loading⟩ with created := s.created + 1 } with hs₁
  have hbegin : Run (SystemStep kernel) s [.other] s₁ := .single (.start cb hhalted hp)
  have hself : s₁.process p = ⟨s.registry.nextPID, cb, 0, 0, .loading⟩ := by
    simp [hs₁, System.update]
  have hload := useContext_run kernel (s := s₁) (p := p) hhalted (by rw [hself])
  rw [hself] at hload
  cases out' with
  | failed t =>
      obtain ⟨r', ⟨ops, rfl⟩, ht⟩ := haccounted.registry
      obtain ⟨ls, hrun⟩ := hload ops
      have hend := (hbegin.append hrun).snoc (.abandon (p := p) hhalted (by simp))
      refine ⟨[.other] ++ ls ++ [.other], ?_⟩
      convert hend using 1
      simp [Outcome.result, ht, hs₁, System.update]
  | created t rest =>
      obtain ⟨fds, -, haccounted⟩ := haccounted
      obtain ⟨ops, ht⟩ := haccounted.registry
      obtain ⟨ls, hrun⟩ := hload ops
      have hend := (hbegin.append hrun).snoc (.createTask (p := p) hhalted (by simp))
      refine ⟨[.other] ++ ls ++ [.other], ?_⟩
      convert hend using 1
      simp [Outcome.result, ht, hs₁, System.update]

/-- A call acts on the live context of its caller, and on no other context. -/
def OwnCall : Event ι → Prop
  | .call _ _ actx ref before after =>
      ref = some actx ∧ (before.getContext actx).isSome ∧
        ∀ pid, pid ≠ actx → after.getContext pid = before.getContext pid
  | _ => True

def Event.isCall : Event ι → Bool
  | .call .. => true
  | _ => false

/-! ### The invariant -/

/-- The stages in which a process has a context. -/
def Stage.live : Stage → Bool
  | unborn | finished => false
  | _ => true

/-- What is in the thread-local variable of a process. -/
def ThreadInv (kernel : Bool) (pr : Process) : Prop :=
  match pr.stage with
  | .loading | .created => pr.threadPID = 0
  | .running => pr.threadPID = if kernel then 0 else pr.actx
  | _ => True

structure SystemInv (kernel : Bool) (s : System ι) : Prop where
  nextPID : s.registry.nextPID = BitVec.ofNat 32 (s.created + 1)
  keys : ∀ pid, (s.registry.contextMap pid).isSome → 0 < pid.toNat ∧ pid.toNat ≤ s.created
  live : ∀ p, (s.process p).stage.live → (s.registry.contextMap (s.process p).actx).isSome
  distinct : ∀ p q, p ≠ q → (s.process p).stage.live → (s.process q).stage.live →
    (s.process p).actx ≠ (s.process q).actx
  thread : ∀ p, ThreadInv kernel (s.process p)

variable {kernel : Bool} {s s' : System ι} {p : ι} {ev : Event ι}

omit [DecidableEq ι] in
theorem SystemInv.initial : SystemInv kernel (System.initial : System ι) where
  nextPID := rfl
  keys pid h := by simp [System.initial, Registry.initial] at h
  live p h := by simp [System.initial, Stage.live] at h
  distinct p q _ h := by simp [System.initial, Stage.live] at h
  thread p := trivial

/-- The rule for a step of `p` that makes no context: it must leave the
contexts of all other processes there. -/
theorem SystemInv.update (h : SystemInv kernel s) {r : Registry} {pr : Process}
    (hnext : r.nextPID = s.registry.nextPID)
    (hkeys : ∀ pid, (r.contextMap pid).isSome → (s.registry.contextMap pid).isSome)
    (hothers : ∀ q, q ≠ p → (s.process q).stage.live →
      (r.contextMap (s.process q).actx).isSome)
    (hself : pr.stage.live → pr.actx = (s.process p).actx ∧ (s.process p).stage.live ∧
      (r.contextMap pr.actx).isSome)
    (hthread : ThreadInv kernel pr) : SystemInv kernel (s.update p r pr) where
  nextPID := hnext.trans h.nextPID
  keys pid hpid := h.keys pid (hkeys pid hpid)
  live q hq := by
    by_cases hqp : q = p
    · subst hqp
      simp only [System.update, Function.update_self] at hq ⊢
      exact (hself hq).2.2
    · simp only [System.update, Function.update_of_ne hqp] at hq ⊢
      exact hothers q hqp hq
  distinct q q' hne hq hq' := by
    by_cases hqp : q = p
    · subst hqp
      simp only [System.update, Function.update_self, Function.update_of_ne hne.symm] at hq hq' ⊢
      obtain ⟨hactx, hlive, -⟩ := hself hq
      rw [hactx]
      exact h.distinct q q' hne hlive hq'
    · by_cases hqp' : q' = p
      · subst hqp'
        simp only [System.update, Function.update_self, Function.update_of_ne hne] at hq hq' ⊢
        obtain ⟨hactx, hlive, -⟩ := hself hq'
        rw [hactx]
        exact h.distinct q q' hne hq hlive
      · simp only [System.update, Function.update_of_ne hqp, Function.update_of_ne hqp'] at hq hq' ⊢
        exact h.distinct q q' hne hq hq'
  thread q := by
    by_cases hqp : q = p
    · subst hqp
      simpa only [System.update, Function.update_self] using hthread
    · simpa only [System.update, Function.update_of_ne hqp] using h.thread q

/-- A step of `p` within its own context. -/
theorem SystemInv.keep (h : SystemInv kernel s) (hlive : (s.process p).stage.live) {r : Registry}
    {pr : Process} (hnext : r.nextPID = s.registry.nextPID)
    (hdomain : ∀ pid, (r.contextMap pid).isSome = (s.registry.contextMap pid).isSome)
    (hactx : pr.actx = (s.process p).actx) (hthread : ThreadInv kernel pr) :
    SystemInv kernel (s.update p r pr) := by
  refine h.update hnext (fun pid hpid => ?_) (fun q _ hq => ?_) (fun _ => ⟨hactx, hlive, ?_⟩)
    hthread
  · rwa [hdomain] at hpid
  · rw [hdomain]
    exact h.live q hq
  · rw [hdomain, hactx]
    exact h.live p hlive

/-- A step that deletes the context of `p`. -/
theorem SystemInv.finish (h : SystemInv kernel s) (hlive : (s.process p).stage.live) :
    SystemInv kernel (s.update p (s.registry.deleteContext (s.process p).actx).2.1
      { s.process p with stage := .finished }) := by
  refine h.update rfl (fun pid hpid => ?_) (fun q hne hq => ?_) nofun trivial
  · rw [Registry.deleteContext_contextMap] at hpid
    split at hpid
    · cases hpid
    · exact hpid
  · rw [Registry.deleteContext_contextMap, if_neg (h.distinct q p hne hq hlive)]
    exact h.live q hq

omit [DecidableEq ι] in
/-- A number that has not been given out yet is free. -/
theorem SystemInv.nextPID_free (h : SystemInv kernel s) (hcount : s.created < 2 ^ 31 - 1) :
    s.registry.nextPID.toNat = s.created + 1 ∧
      s.registry.contextMap s.registry.nextPID = none := by
  have hnat : s.registry.nextPID.toNat = s.created + 1 := by
    rw [h.nextPID, BitVec.toNat_ofNat]
    omega
  refine ⟨hnat, ?_⟩
  cases hmap : s.registry.contextMap s.registry.nextPID with
  | none => rfl
  | some c =>
      have hkey := (h.keys s.registry.nextPID (by simp [hmap])).2
      omega

theorem SystemInv.start (h : SystemInv kernel s) (hcount : s.created < 2 ^ 31 - 1) (cb : Callback) :
    SystemInv kernel
      { s.update p s.registry.newContext.2 ⟨s.registry.newContext.1, cb, 0, 0, .loading⟩ with
        created := s.created + 1 } := by
  obtain ⟨hnat, hfree⟩ := h.nextPID_free hcount
  have hother : ∀ q, (s.process q).stage.live → (s.process q).actx ≠ s.registry.nextPID := by
    intro q hq heq
    have hsome := h.live q hq
    rw [heq, hfree] at hsome
    cases hsome
  refine ⟨?_, fun pid hpid => ?_, fun q hq => ?_, fun q q' hne hq hq' => ?_, fun q => ?_⟩
  · simp only [System.update, Registry.newContext_nextPID, h.nextPID]
    exact (BitVec.ofNat_add _ _).symm
  · simp only [System.update, Registry.newContext_contextMap] at hpid
    split at hpid
    · rename_i heq
      simp only [heq, hnat]
      omega
    · have hkey := h.keys pid hpid
      exact ⟨hkey.1, by simp only; omega⟩
  · simp only [System.update, Registry.newContext_contextMap] at hq ⊢
    by_cases hqp : q = p
    · subst hqp
      simp
    · rw [Function.update_of_ne hqp] at hq ⊢
      rw [if_neg (hother q hq)]
      exact h.live q hq
  · simp only [System.update] at hq hq' ⊢
    by_cases hqp : q = p
    · subst hqp
      rw [Function.update_of_ne hne.symm] at hq' ⊢
      rw [Function.update_self]
      exact (hother q' hq').symm
    · by_cases hqp' : q' = p
      · subst hqp'
        rw [Function.update_of_ne hne] at hq ⊢
        rw [Function.update_self]
        exact hother q hq
      · rw [Function.update_of_ne hqp] at hq ⊢
        rw [Function.update_of_ne hqp'] at hq' ⊢
        exact h.distinct q q' hne hq hq'
  · simp only [System.update]
    by_cases hqp : q = p
    · subst hqp
      rw [Function.update_self]
      rfl
    · rw [Function.update_of_ne hqp]
      exact h.thread q

theorem AbiFn.call_some (fn : AbiFn) (r : Registry) (pid : Pid) :
    ∃ r', fn.call r (some pid) = some r' ∧ (r' = r ∨ ∃ op, r' = r.apply pid op) := by
  cases fn with
  | memMap allocator len minAlign allowExec => exact ⟨_, rfl, .inr ⟨_, rfl⟩⟩
  | memUnmap addr => exact ⟨_, rfl, .inr ⟨_, rfl⟩⟩
  | exit ec => exact ⟨r, rfl, .inl rfl⟩

theorem AbiFn.call_none (fn : AbiFn) (r : Registry) : fn.call r none = none := by
  cases fn <;> rfl

omit [DecidableEq ι] in
/-- What `getContext()` returns to running user code. -/
theorem SystemInv.getContext_eq (h : SystemInv kernel s) (hp : (s.process p).stage = .running) :
    getContext s.registry (s.process p).threadPID =
      if kernel then none else some (s.process p).actx := by
  have hthread := h.thread p
  simp only [ThreadInv, hp] at hthread
  rw [hthread]
  cases kernel with
  | false =>
      have hlive := h.live p (by rw [hp]; rfl)
      simp [getContext, Registry.getContext, hlive]
  | true =>
      have hzero : ¬(s.registry.contextMap 0).isSome := fun hsome => by
        simpa using (h.keys 0 hsome).1
      simpa [getContext, Registry.getContext] using hzero

/-- What a call that returns has done to the registry. -/
theorem AbiFn.call_own {fn : AbiFn} {r r' : Registry} {pid : Pid}
    (hcall : fn.call r (some pid) = some r') :
    r'.nextPID = r.nextPID ∧ (∀ k, (r'.contextMap k).isSome = (r.contextMap k).isSome) ∧
      ∀ k, k ≠ pid → r'.getContext k = r.getContext k := by
  obtain ⟨r'', hr'', hcase⟩ := fn.call_some r pid
  obtain rfl := Option.some.inj (hr''.symm.trans hcall)
  obtain rfl | ⟨op, rfl⟩ := hcase
  · exact ⟨rfl, fun _ => rfl, fun _ _ => rfl⟩
  · exact ⟨rfl, fun k => Registry.apply_isSome _ _ _ _,
      fun k hk => by simp [Registry.getContext, hk]⟩

theorem SystemStep.inv (h : SystemInv kernel s) (hcount : s.created < 2 ^ 31 - 1)
    (hstep : SystemStep kernel s ev s') :
    SystemInv kernel s' ∧ (kernel = false → OwnCall ev) ∧
      (kernel = true → ev.isCall → ¬ OwnCall ev) := by
  cases hstep with
  | start cb _ _ => exact ⟨h.start hcount cb, fun _ => trivial, fun _ => nofun⟩
  | @useContext p op _ hp =>
      have hlive : (s.process p).stage.live := by rcases hp with hp | hp <;> rw [hp] <;> rfl
      exact ⟨h.keep hlive rfl (fun pid => Registry.apply_isSome _ _ _ _) rfl (h.thread p),
        fun _ => trivial, fun _ => nofun⟩
  | @createTask p _ hp =>
      have hlive : (s.process p).stage.live := by rw [hp]; rfl
      have hthread := h.thread p
      simp only [ThreadInv, hp] at hthread
      exact ⟨h.keep hlive rfl (fun _ => rfl) rfl hthread, fun _ => trivial, fun _ => nofun⟩
  | @taskCode p _ hp =>
      have hlive : (s.process p).stage.live := by rw [hp]; rfl
      have hthread := h.thread p
      simp only [ThreadInv, hp] at hthread
      refine ⟨h.keep hlive rfl (fun _ => rfl) rfl ?_, fun _ => trivial, fun _ => nofun⟩
      simp [ThreadInv, hthread]
  | @call p r fn _ hp hcall =>
      have hlive : (s.process p).stage.live := by rw [hp]; rfl
      have hsome := h.live p hlive
      rw [h.getContext_eq hp] at hcall ⊢
      cases kernel with
      | true => rw [if_pos rfl, AbiFn.call_none] at hcall; cases hcall
      | false =>
          have hthread := h.thread p
          simp only [ThreadInv, hp] at hthread
          obtain ⟨hnext, hdomain, hsame⟩ := AbiFn.call_own hcall
          refine ⟨h.keep hlive hnext hdomain (by simp) ?_, fun _ => ⟨rfl, hsome, hsame⟩, nofun⟩
          cases fn <;> simp [ThreadInv, Process.afterCall, hp, hthread]
  | @crash p fn _ hp hcall =>
      rw [h.getContext_eq hp] at hcall ⊢
      cases kernel with
      | true =>
          exact ⟨⟨h.nextPID, h.keys, h.live, h.distinct, h.thread⟩, nofun,
            fun _ _ hown => nomatch hown.1⟩
      | false =>
          obtain ⟨r', hr', -⟩ := fn.call_some s.registry (s.process p).actx
          rw [if_neg (by decide), hr'] at hcall
          cases hcall
  | @noStack p _ _ hp | @leave p _ _ hp _ =>
      have hlive : (s.process p).stage.live := by rw [hp]; rfl
      exact ⟨h.keep hlive rfl (fun _ => rfl) rfl trivial, fun _ => trivial, fun _ => nofun⟩
  | @abandon p _ hp | @deleteContext p _ hp =>
      have hlive : (s.process p).stage.live := by rw [hp]; rfl
      exact ⟨h.finish hlive, fun _ => trivial, fun _ => nofun⟩

/-! ### Runs -/

theorem SystemStep.created_le (hstep : SystemStep kernel s ev s') : s.created ≤ s'.created := by
  cases hstep with
  | start _ _ _ => exact Nat.le_succ _
  | _ => exact le_refl _

theorem SystemInv.of_run {ls : List (Event ι)} (hrun : Run (SystemStep kernel) .initial ls s)
    (hcount : s.created < 2 ^ 31 - 1) : SystemInv kernel s :=
  hrun.invariant (P := fun u => u.created < 2 ^ 31 - 1 → SystemInv kernel u)
    (fun _ _ _ hu hstep hlt =>
      (hstep.inv (hu (hstep.created_le.trans_lt hlt)) (hstep.created_le.trans_lt hlt)).1)
    (fun _ => .initial) hcount

/-- What the build makes of every call in a run. -/
theorem ownCall_of_run {ls : List (Event ι)} (hrun : Run (SystemStep kernel) .initial ls s)
    (hcount : s.created < 2 ^ 31 - 1) (hev : ev ∈ ls) :
    (kernel = false → OwnCall ev) ∧ (kernel = true → ev.isCall → ¬ OwnCall ev) := by
  obtain ⟨s₁, s₂, bs, cs, hbs, hstep, hcs⟩ := hrun.exists_step hev
  have hle : s₂.created ≤ s.created :=
    hcs.invariant (P := fun u => s₂.created ≤ u.created)
      (fun _ _ _ hu hstep => hu.trans hstep.created_le) (le_refl _)
  have hcount₁ : s₁.created < 2 ^ 31 - 1 := (hstep.created_le.trans hle).trans_lt hcount
  exact (hstep.inv (.of_run hbs hcount₁) hcount₁).2

/-- Calls act on the context of their caller exactly in the build without the
kernel, unless there are none. -/
theorem own_context_iff (kernel : Bool) (ls : List (Event ι)) (s : System ι)
    (hrun : Run (SystemStep kernel) .initial ls s) (hcount : s.created < 2 ^ 31 - 1) :
    (∀ ev ∈ ls, OwnCall ev) ↔ kernel = false ∨ ∀ ev ∈ ls, ev.isCall = false := by
  refine ⟨fun hown => ?_, fun hcase ev hev => ?_⟩
  · cases hkernel : kernel with
    | false => exact .inl rfl
    | true =>
        refine .inr fun ev hev => ?_
        by_contra hcall
        exact (ownCall_of_run hrun hcount hev).2 hkernel (by simpa using hcall) (hown ev hev)
  · obtain hkernel | hnone := hcase
    · exact (ownCall_of_run hrun hcount hev).1 hkernel
    · have hno := hnone ev hev
      cases ev with
      | call => cases hno
      | _ => trivial

/-- A process, from its start up to its user code. -/
theorem run_to_running (kernel : Bool) {s : System ι} (p : ι) (cb : Callback)
    (hhalted : s.halted = false) (hp : (s.process p).stage = .unborn) :
    Run (SystemStep kernel) s [.other, .other, .other]
      { s.update p s.registry.newContext.2 ⟨s.registry.newContext.1, cb,
          if kernel then 0 else s.registry.newContext.1, 0, .running⟩ with
        created := s.created + 1 } := by
  set s₁ : System ι := { s.update p s.registry.newContext.2
    ⟨s.registry.newContext.1, cb, 0, 0, .loading⟩ with created := s.created + 1 } with hs₁
  set s₂ := s₁.update p s₁.registry { s₁.process p with stage := .created } with hs₂
  have htask : SystemStep kernel s₂ .other _ := .taskCode (p := p) hhalted (by simp [hs₂])
  refine .cons (t := s₁) (.start cb hhalted hp) (.cons (t := s₂) (.createTask hhalted ?_) ?_)
  · simp [hs₁, System.update]
  · convert Run.single htask using 1
    simp [hs₂, hs₁, System.update]

/-- One process, up to its user code. -/
theorem exists_running (kernel : Bool) : ∃ s : System Unit,
    Run (SystemStep kernel) .initial [.other, .other, .other] s ∧ s.halted = false ∧
      s.created = 1 ∧ (s.process ()).stage = .running ∧ (s.process ()).cb = .function :=
  ⟨_, run_to_running kernel () .function rfl rfl, rfl, rfl, rfl, rfl⟩

/-- One process that maps memory. -/
theorem exists_call_run (kernel : Bool) : ∃ ls ev s,
    Run (SystemStep kernel) (System.initial : System Unit) (ls ++ [ev]) s ∧ ev.isCall ∧
      s.created = 1 := by
  obtain ⟨s, hrun, hhalted, hcreated, hstage, -⟩ := exists_running kernel
  set fn : AbiFn := .memMap (fun len _ _ => ⟨0x3fc90000, len⟩) 64 4 false
  cases hcall : fn.call s.registry (getContext s.registry (s.process ()).threadPID) with
  | none => exact ⟨_, _, _, hrun.snoc (.crash fn hhalted hstage hcall), rfl, hcreated⟩
  | some r => exact ⟨_, _, _, hrun.snoc (.call fn hhalted hstage hcall), rfl, hcreated⟩

/-- Two processes, one after the other, up to their user code. -/
def twoRunning : System Bool where
  registry := Registry.initial.newContext.2.newContext.2
  process p := ⟨if p then 2 else 1, .empty, if p then 2 else 1, 0, .running⟩
  created := 2
  halted := false

theorem run_twoRunning : Run (SystemStep false) .initial
    ([.other, .other, .other] ++ [.other, .other, .other]) twoRunning := by
  have hfirst := run_to_running false (s := (.initial : System Bool)) false .empty rfl rfl
  convert hfirst.append (run_to_running false true .empty rfl rfl) using 1
  simp only [twoRunning, System.update, System.mk.injEq]
  refine ⟨rfl, ?_, rfl, rfl⟩
  funext p
  cases p <;> rfl

/-- Two processes map memory, each in its own context. -/
theorem own_context_iff_sample : ∃ (ls : List (Event Bool)) (s : System Bool),
    Run (SystemStep false) .initial ls s ∧ (s.process false).actx = 1 ∧
      (s.process true).actx = 2 ∧ (∀ p, (s.process p).stage = .running) ∧
      (∀ p, ∃ fn r r', .call p fn (s.process p).actx (some (s.process p).actx) r r' ∈ ls) ∧
      ∀ ev ∈ ls, OwnCall ev := by
  set heap : Pid → Allocator := fun pid len _ _ =>
    ⟨if pid = 1 then 0x3fc90000 else 0x3fca0000, len⟩
  set r₁ := twoRunning.registry.apply 1 (.map (heap 1) 64 true false 4)
  set s₁ := twoRunning.update false r₁ (twoRunning.process false)
  set r₂ := r₁.apply 2 (.map (heap 2) 32 true false 4)
  have hfirst : SystemStep false twoRunning
      (.call false (.memMap (heap 1) 64 4 false) 1 (some 1) twoRunning.registry r₁) s₁ :=
    .call (.memMap (heap 1) 64 4 false) rfl rfl rfl
  have hsecond : SystemStep false s₁ (.call true (.memMap (heap 2) 32 4 false) 2 (some 2) r₁ r₂)
      (s₁.update true r₂ (s₁.process true)) :=
    .call (.memMap (heap 2) 32 4 false) rfl rfl rfl
  have hrun := run_twoRunning.append (.cons hfirst (.single hsecond))
  refine ⟨_, _, hrun, rfl, rfl, fun p => ?_, fun p => ?_,
    (own_context_iff false _ _ hrun (by decide)).mpr (.inl rfl)⟩
  · cases p <;> rfl
  · cases p
    · exact ⟨_, _, r₁, List.mem_append_right _ (.head _)⟩
    · exact ⟨_, r₁, r₂, List.mem_append_right _ (.tail _ (.head _))⟩

/-- In the build with the kernel a process that maps memory has no context. -/
theorem kernel_call_without_context : ∃ (ls : List (Event Unit)) (s : System Unit),
    Run (SystemStep true) .initial ls s ∧ s.created < 2 ^ 31 - 1 ∧ ¬ ∀ ev ∈ ls, OwnCall ev := by
  obtain ⟨ls, ev, s, hrun, hcall, hcreated⟩ := exists_call_run true
  have hcount : s.created < 2 ^ 31 - 1 := by
    rw [hcreated]
    decide
  have hev : ev ∈ ls ++ [ev] := by simp
  exact ⟨ls ++ [ev], s, hrun, hcount, fun hown =>
    (ownCall_of_run hrun hcount hev).2 rfl hcall (hown ev hev)⟩

end BadgeElfloader.Runner
