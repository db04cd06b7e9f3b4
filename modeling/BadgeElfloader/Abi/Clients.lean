import BadgeElfloader.Abi.Registry
import BadgeElfloader.Transition.Numbering

/-!
The processes behind the contexts.

`abi.cpp` finds contexts by their PID alone. What the registry is for is a
context of its own for every process, and `Clients` says so: beside the
registry it keeps, for each process, the context as the calls of that process
alone have made it. The two agree as long as the counter of PIDs has not come
round.
-/

namespace BadgeElfloader.Abi

open Transition

/-- A process, with the PID it was given and the context it should have. -/
structure Client where
  pid : Pid
  ctx : Context

/-- The processes are numbered in the order in which they were made. -/
structure Clients where
  registry : Registry
  client : ℕ → Option Client
  created : ℕ

inductive ClientOp
  | newContext
  /-- A call of process `p`, if it is there, on its context. -/
  | use (p : ℕ) (op : MemOp)
  | deleteContext (pid : Pid)

def ClientOp.isNew : ClientOp → Bool
  | newContext => true
  | _ => false

namespace Clients

def initial : Clients := ⟨.initial, fun _ => none, 0⟩

def exec (s : Clients) : ClientOp → Clients
  | .newContext =>
      let (pid, registry) := s.registry.newContext
      ⟨registry,
        Function.update s.client s.created (some ⟨pid, { Context.empty with pid := pid }⟩),
        s.created + 1⟩
  | .use p op =>
      match s.client p with
      | none => s
      | some o =>
          { s with
            registry := s.registry.apply o.pid op
            client := Function.update s.client p (some { o with ctx := o.ctx.apply op }) }
  | .deleteContext pid =>
      { s with
        registry := (s.registry.deleteContext pid).2.1
        client := fun p => (s.client p).filter fun o => o.pid ≠ pid }

/-- Every process has its own context. -/
def Apart (s : Clients) : Prop :=
  ∀ p o, s.client p = some o → s.registry.getContext o.pid = some o.ctx

/-- A new context has no mappings, and a PID that is not 0 and not in use. The
deletion of the context of a process frees the blocks of that process and takes
its context from no other. All others keep the context they have. -/
def FreshCall (s : Clients) (op : ClientOp) : Prop :=
  (s.exec op).Apart ∧
    match op with
    | .newContext =>
        let (pid, registry) := s.registry.newContext
        pid ≠ 0 ∧ s.registry.getContext pid = none ∧
          registry.getContext pid = some { Context.empty with pid := pid }
    | .use _ _ => True
    | .deleteContext pid => ∀ p o, s.client p = some o → o.pid = pid →
        (s.registry.deleteContext pid).2.2 = o.ctx.actual ∧
          ∀ q, q ≠ p → (s.exec op).client q = s.client q

/-- `n` PIDs have been given out. Contexts and processes belong together one to
one. -/
structure Numbered (n : ℕ) (s : Clients) : Prop where
  nextPID : s.registry.nextPID = BitVec.ofNat 32 (n + 1)
  issued : ∀ pid, (s.registry.contextMap pid).isSome → Issued (BitVec.ofNat 32) n pid
  apart : s.Apart
  unique : ∀ p q o o', s.client p = some o → s.client q = some o' → o.pid = o'.pid → p = q

theorem numbered_initial : Numbered 0 initial := by
  refine ⟨rfl, ?_, ?_, ?_⟩ <;> simp [initial, Apart, Registry.initial]

variable {n : ℕ} {s : Clients} {p q : ℕ} {o o' : Client}

theorem client_newContext (s : Clients) (p : ℕ) :
    (s.exec .newContext).client p =
      if p = s.created then
        some ⟨s.registry.nextPID, { Context.empty with pid := s.registry.nextPID }⟩
      else s.client p := by
  simp [exec, Function.update_apply]

theorem client_deleteContext {pid : Pid} :
    (s.exec (.deleteContext pid)).client p = some o ↔ s.client p = some o ∧ o.pid ≠ pid := by
  simp [exec, Option.filter_eq_some_iff]

/-- A call of a process changes no PID. -/
theorem client_use {op : MemOp} (h : (s.exec (.use p op)).client q = some o) :
    ∃ o', s.client q = some o' ∧ o'.pid = o.pid := by
  cases hp : s.client p with
  | none => exact ⟨o, by simpa [exec, hp] using h, rfl⟩
  | some o₀ =>
      by_cases hq : q = p
      · subst hq
        obtain rfl : _ = o := by simpa [exec, hp] using h
        exact ⟨o₀, hp, rfl⟩
      · exact ⟨o, by simpa [exec, hp, hq] using h, rfl⟩

theorem Numbered.live (h : Numbered n s) (ho : s.client p = some o) :
    (s.registry.contextMap o.pid).isSome := by
  rw [← Registry.getContext, h.apart p o ho]
  rfl

/-- Before the counter comes round, the next PID is free. -/
theorem Numbered.free (h : Numbered n s) (hn : n + 1 < 2 ^ 32) :
    s.registry.contextMap s.registry.nextPID = none := by
  by_contra hne
  have hissued := h.issued _ (Option.isSome_iff_ne_none.mpr hne)
  rw [h.nextPID] at hissued
  exact (cyclic_bitVec 32).not_issued hn hissued

theorem Numbered.newContext (h : Numbered n s) (hn : n + 1 < 2 ^ 32) :
    s.FreshCall .newContext ∧ Numbered (n + 1) (s.exec .newContext) := by
  have hfree := h.free hn
  have hzero : s.registry.nextPID ≠ 0 := h.nextPID ▸ (cyclic_bitVec 32).ne_zero hn
  have hnew : ∀ p o, s.client p = some o → o.pid ≠ s.registry.nextPID := by
    intro p o ho heq
    have hlive := h.live ho
    rw [heq, hfree] at hlive
    cases hlive
  have hself : s.registry.newContext.2.getContext s.registry.nextPID =
      some { Context.empty with pid := s.registry.nextPID } := by
    rw [Registry.getContext, Registry.newContext_contextMap, if_pos rfl, hfree, Option.getD_none]
  have hapart : (s.exec .newContext).Apart := by
    intro p o ho
    rw [client_newContext] at ho
    split at ho
    · obtain rfl := Option.some.inj ho
      exact hself
    · simpa [exec, Registry.getContext, Registry.newContext_contextMap, hnew p o ho] using
        h.apart p o ho
  refine ⟨⟨hapart, hzero, hfree, hself⟩, ?_, fun pid hpid => ?_, hapart, ?_⟩
  · rw [BitVec.ofNat_add]
    exact congrArg (· + 1) h.nextPID
  · simp only [exec, Registry.newContext_contextMap] at hpid
    split at hpid
    · rename_i heq
      rw [heq, h.nextPID]
      exact issued_succ _ n
    · exact (h.issued pid hpid).mono n.le_succ
  · intro p q o o' ho ho' heq
    rw [client_newContext] at ho ho'
    split at ho <;> split at ho'
    · rename_i hp hq
      exact hp.trans hq.symm
    · obtain rfl := Option.some.inj ho
      exact absurd heq.symm (hnew q o' ho')
    · obtain rfl := Option.some.inj ho'
      exact absurd heq (hnew p o ho)
    · exact h.unique p q o o' ho ho' heq

theorem Numbered.use (h : Numbered n s) (p : ℕ) (op : MemOp) :
    s.FreshCall (.use p op) ∧ Numbered n (s.exec (.use p op)) := by
  have hpids : (s.exec (.use p op)).registry.nextPID = s.registry.nextPID ∧ ∀ pid,
        ((s.exec (.use p op)).registry.contextMap pid).isSome =
          (s.registry.contextMap pid).isSome := by
    cases hp : s.client p with
    | none => simp [exec, hp]
    | some o => simpa [exec, hp] using fun k => Registry.apply_isSome s.registry o.pid k op
  have hapart : (s.exec (.use p op)).Apart := by
    cases hp : s.client p with
    | none => simpa [exec, hp] using h.apart
    | some o₀ =>
        intro q o ho
        by_cases hq : q = p
        · subst hq
          obtain rfl : _ = o := by simpa [exec, hp] using ho
          have hctx : s.registry.contextMap o₀.pid = some o₀.ctx := h.apart q o₀ hp
          simp [exec, hp, Registry.getContext, hctx]
        · have ho' : s.client q = some o := by simpa [exec, hp, hq] using ho
          have hne : o.pid ≠ o₀.pid := fun heq => hq (h.unique q p o o₀ ho' hp heq)
          simpa [exec, hp, Registry.getContext, hne] using h.apart q o ho'
  obtain ⟨hnext, hdomain⟩ := hpids
  refine ⟨⟨hapart, trivial⟩, hnext.trans h.nextPID, fun pid hpid => ?_, hapart, ?_⟩
  · exact h.issued pid (hdomain pid ▸ hpid)
  · intro q q' o o' ho ho' heq
    obtain ⟨a, ha, hao⟩ := client_use ho
    obtain ⟨b, hb, hbo⟩ := client_use ho'
    exact h.unique q q' a b ha hb (by rw [hao, hbo, heq])

theorem Numbered.deleteContext (h : Numbered n s) (pid : Pid) :
    s.FreshCall (.deleteContext pid) ∧ Numbered n (s.exec (.deleteContext pid)) := by
  have hapart : (s.exec (.deleteContext pid)).Apart := by
    intro q o ho
    obtain ⟨ho, hne⟩ := client_deleteContext.mp ho
    simpa [exec, Registry.getContext, hne] using h.apart q o ho
  refine ⟨⟨hapart, fun p o ho hpid => ⟨?_, fun q hq => ?_⟩⟩, h.nextPID, fun k hk => ?_, hapart, ?_⟩
  · have hctx : s.registry.contextMap o.pid = some o.ctx := h.apart p o ho
    rw [← hpid, Registry.deleteContext, hctx]
    rfl
  · cases hcq : s.client q with
    | none => simp [exec, hcq]
    | some o' =>
        have hne : o'.pid ≠ pid := fun heq => hq (h.unique q p o' o hcq ho (heq.trans hpid.symm))
        exact client_deleteContext.mpr ⟨hcq, hne⟩
  · refine h.issued k ?_
    simp only [exec, Registry.deleteContext_contextMap] at hk
    split at hk
    · cases hk
    · exact hk
  · intro q q' o o' ho ho'
    exact h.unique q q' o o' (client_deleteContext.mp ho).1 (client_deleteContext.mp ho').1

theorem Numbered.exec {op : ClientOp} (h : Numbered n s) (hn : op.isNew → n + 1 < 2 ^ 32) :
    s.FreshCall op ∧ Numbered (n + if op.isNew then 1 else 0) (s.exec op) := by
  cases op with
  | newContext => exact h.newContext (hn rfl)
  | use p op => exact h.use p op
  | deleteContext pid => exact h.deleteContext pid

/-- The context that brings the counter round gets the PID 0. -/
theorem Numbered.round {op : ClientOp} (h : Numbered n s) (hnew : op.isNew)
    (hn : n + 1 = 2 ^ 32) : ¬ s.FreshCall op := by
  cases op with
  | newContext =>
      rintro ⟨-, hzero, -⟩
      rw [h.nextPID, hn] at hzero
      exact hzero (cyclic_bitVec 32).round
  | use p op => cases hnew
  | deleteContext pid => cases hnew

/-- Processes have PIDs and contexts of their own as long as fewer than 2³²
contexts are created. -/
theorem pids_fresh_iff (ops : List ClientOp) :
    EachCall exec FreshCall initial ops ↔ ops.countP ClientOp.isNew < 2 ^ 32 :=
  forall_calls_iff (by decide) (fun _ _ _ h hn => h.exec hn) (fun _ _ _ h => h.round)
    numbered_initial ops

/-- One process after the other, each with its context created and deleted. -/
def oneByOne (n : ℕ) : List ClientOp :=
  (List.range n).flatMap fun k => [.newContext, .deleteContext (BitVec.ofNat 32 (k + 1))]

theorem countP_oneByOne (n : ℕ) : (oneByOne n).countP ClientOp.isNew = n := by
  induction n with
  | zero => rfl
  | succ n ih =>
      rw [oneByOne, List.range_succ, List.flatMap_append, List.countP_append, ← oneByOne, ih]
      rfl

/-- In the end a process is given the PID 0. -/
theorem pid_zero : ¬ EachCall exec FreshCall initial (oneByOne (2 ^ 32)) := by
  have hcount := countP_oneByOne (2 ^ 32)
  generalize oneByOne (2 ^ 32) = ops at hcount
  intro hall
  have hlt := (forall_calls_iff (by decide) (fun _ _ _ h hn => h.exec hn) (fun _ _ _ h => h.round)
    numbered_initial ops).mp hall
  exact hlt.ne hcount

end Clients

end BadgeElfloader.Abi
