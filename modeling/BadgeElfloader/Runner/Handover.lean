import BadgeElfloader.Runner.StartFD
import BadgeElfloader.Transition.Run

/-!
The task that `startFD` creates, and what `startFD` does meanwhile.

From `xTaskCreate` on two threads run: the one that called `startFD`, which has
its files left to close, and the task, which owns the context and `Params`. Any
interleaving of the two is a run of `HandStep`.
-/

namespace BadgeElfloader.Runner

open Riscv (Word)
open Abi Loader Transition

inductive Thread
  | starter
  | task
  deriving DecidableEq

/-- How far `taskCode` is. -/
inductive TaskCode
  | created
  | running
  | exited
  | deleted
  | finished
  deriving DecidableEq

/-- What the two threads share, the actions left to the starter, and the place
of the task. -/
structure Handover (Elf : Type) where
  registry : Registry
  params : Option (Params Elf)
  rest : List (Action Resource)
  task : TaskCode

variable {Elf : Type}

inductive HandStep : Handover Elf → Thread × Action Resource → Handover Elf → Prop
  | starter {s : Handover Elf} {a : Action Resource} {rest : List (Action Resource)} :
      s.rest = a :: rest → HandStep s (.starter, a) { s with rest := rest }
  | garbageCollect {s : Handover Elf} {p : Params Elf} : s.task = .created → s.params = some p →
      HandStep s (.task, .use .params)
        { s with params := some { p with prog := p.prog.garbageCollect }, task := .running }
  /-- `runUserCode` and the process map memory. -/
  | useContext {s : Handover Elf} {p : Params Elf} (op : MemOp) : s.task = .running →
      s.params = some p →
      HandStep s (.task, .use (.context p.actx)) { s with registry := s.registry.apply p.actx op }
  /-- The process ends, and its status is reported. -/
  | report {s : Handover Elf} {p : Params Elf} : s.task = .running → s.params = some p →
      HandStep s (.task, .use (.context p.actx)) { s with task := .exited }
  | deleteContext {s : Handover Elf} {p : Params Elf} : s.task = .exited → s.params = some p →
      HandStep s (.task, .release (.context p.actx))
        { s with registry := (s.registry.deleteContext p.actx).2.1, task := .deleted }
  | deleteParams {s : Handover Elf} {p : Params Elf} : s.task = .deleted → s.params = some p →
      HandStep s (.task, .release .params) { s with params := none, task := .finished }

/-- The task has not deleted its context. -/
def TaskCode.live : TaskCode → Bool
  | created | running | exited => true
  | deleted | finished => false

/-- What the task still owns. -/
def TaskCode.owns (pid : Pid) : TaskCode → Finset Resource
  | created | running | exited => {.params, .context pid}
  | deleted => {.params}
  | finished => ∅

/-- The invariant of the two threads after the labels `ls`, where `log` is what
`startFD` did before. -/
structure Handover.Inv (r : Registry) (log : List (Action Resource))
    (ls : List (Thread × Action Resource)) (s : Handover Elf) : Prop where
  registry : s.task.live → r.newContext.2.OnlyUses r.nextPID s.registry
  deleted : s.task.live = false → s.registry.contextMap = r.contextMap
  params : s.task ≠ .finished → ∃ p, s.params = some p ∧ p.actx = r.nextPID
  files : ∃ xs : List Resource, s.rest = xs.map .release ∧ xs.Nodup ∧
    (∀ x ∈ xs, ∃ fd, x = .file fd) ∧
    Owned (log ++ ls.map Prod.snd) (xs.toFinset ∪ s.task.owns r.nextPID)
  starter : ∀ a, (.starter, a) ∈ ls → ∃ fd, a = .release (.file fd)

theorem TaskCode.owns_of_live {task : TaskCode} (h : task.live) (pid : Pid) :
    task.owns pid = {.params, .context pid} := by
  cases task <;> first | rfl | cases h

theorem TaskCode.file_notMem_owns (task : TaskCode) (pid : Pid) (fd : FilePtr) :
    .file fd ∉ task.owns pid := by
  cases task <;> simp [TaskCode.owns]

theorem concat_map_snd (log : List (Action Resource)) (ls : List (Thread × Action Resource))
    (t : Thread) (a : Action Resource) :
    log ++ (ls ++ [(t, a)]).map Prod.snd = (log ++ ls.map Prod.snd) ++ [a] := by simp

section inv

variable {r : Registry} {log : List (Action Resource)} {ls : List (Thread × Action Resource)}
  {s s' : Handover Elf} {l : Thread × Action Resource}

theorem Handover.Inv.params_eq (h : s.Inv r log ls) {p : Params Elf} (hp : s.params = some p)
    (htask : s.task ≠ .finished) : p.actx = r.nextPID := by
  obtain ⟨q, hq, hactx⟩ := h.params htask
  obtain rfl := Option.some.inj (hp.symm.trans hq)
  exact hactx

/-- A step of the task that uses the context or `Params`. -/
theorem Handover.Inv.use (h : s.Inv r log ls) {x : Resource}
    (hx : x = .params ∨ x = .context r.nextPID) (registry : Registry)
    (huses : s.registry.OnlyUses r.nextPID registry) (params : Params Elf)
    (hparams : params.actx = r.nextPID) (task : TaskCode) (hlive : s.task.live)
    (hlive' : task.live) :
    (⟨registry, some params, s.rest, task⟩ : Handover Elf).Inv r log (ls ++ [(.task, .use x)]) where
  registry _ := (h.registry hlive).trans huses
  deleted hdead := by simp [hlive'] at hdead
  params _ := ⟨params, rfl, hparams⟩
  files := by
    obtain ⟨xs, hrest, hnodup, hfiles, howned⟩ := h.files
    refine ⟨xs, hrest, hnodup, hfiles, ?_⟩
    rw [concat_map_snd, TaskCode.owns_of_live hlive']
    rw [TaskCode.owns_of_live hlive] at howned
    exact howned.use (Finset.mem_union_right _ (by simpa using hx))
  starter a ha := h.starter a (by simpa using ha)

/-- A step of the task that gives back `x`. -/
theorem Handover.Inv.release (h : s.Inv r log ls) {x : Resource} {task : TaskCode}
    (hx : x ∈ s.task.owns r.nextPID)
    (howns : task.owns r.nextPID = (s.task.owns r.nextPID).erase x) :
    ∃ xs : List Resource, s.rest = xs.map .release ∧ xs.Nodup ∧ (∀ x ∈ xs, ∃ fd, x = .file fd) ∧
      Owned (log ++ (ls ++ [(Thread.task, Action.release x)]).map Prod.snd)
        (xs.toFinset ∪ task.owns r.nextPID) := by
  obtain ⟨xs, hrest, hnodup, hfiles, howned⟩ := h.files
  refine ⟨xs, hrest, hnodup, hfiles, ?_⟩
  have hnot : x ∉ xs.toFinset := fun hmem => by
    obtain ⟨fd, rfl⟩ := hfiles x (List.mem_toFinset.mp hmem)
    exact s.task.file_notMem_owns _ _ hx
  have hrelease := howned.release (Finset.mem_union_right _ hx)
  rw [Finset.erase_union_distrib, Finset.erase_eq_of_notMem hnot, ← howns] at hrelease
  rwa [concat_map_snd]

theorem HandStep.inv (hfree : r.contextMap r.nextPID = none) (h : s.Inv r log ls)
    (hstep : HandStep s l s') : s'.Inv r log (ls ++ [l]) := by
  cases hstep with
  | @starter a rest hs =>
      obtain ⟨xs, hrest, hnodup, hfiles, howned⟩ := h.files
      rw [hs] at hrest
      cases xs with
      | nil => cases hrest
      | cons x xs =>
          obtain ⟨rfl, rfl⟩ := List.cons.inj hrest
          obtain ⟨hnot, hnodup'⟩ := List.nodup_cons.mp hnodup
          obtain ⟨⟨fd, rfl⟩, hfiles'⟩ := List.forall_mem_cons.mp hfiles
          refine ⟨h.registry, h.deleted, h.params, ⟨xs, rfl, hnodup', hfiles', ?_⟩, fun a ha => ?_⟩
          · have hrelease := howned.release (x := .file fd) (by simp)
            have hnot' : Resource.file fd ∉ xs.toFinset ∪ s.task.owns r.nextPID := by
              simpa using ⟨hnot, s.task.file_notMem_owns _ _⟩
            rw [List.toFinset_cons, Finset.insert_union, Finset.erase_insert hnot'] at hrelease
            rwa [concat_map_snd]
          · obtain hold | hnew := List.mem_append.mp ha
            · exact h.starter a hold
            · obtain ⟨-, rfl⟩ := Prod.mk.inj (List.mem_singleton.mp hnew)
              exact ⟨fd, rfl⟩
  | @garbageCollect p htask hp =>
      have hactx := h.params_eq hp (by simp [htask])
      exact h.use (.inl rfl) s.registry (.refl _ _) { p with prog := p.prog.garbageCollect } hactx
        .running (by rw [htask]; rfl) rfl
  | @useContext p op htask hp =>
      have hactx := h.params_eq hp (by simp [htask])
      have hinv := h.use (.inr rfl) _ (.apply s.registry r.nextPID op) p hactx .running
        (by rw [htask]; rfl) rfl
      rwa [← hactx, ← hp, ← htask] at hinv
  | @report p htask hp =>
      have hactx := h.params_eq hp (by simp [htask])
      have hinv := h.use (.inr rfl) _ (.refl _ s.registry) p hactx .exited (by rw [htask]; rfl) rfl
      rwa [← hactx, ← hp] at hinv
  | @deleteContext p htask hp =>
      have hactx := h.params_eq hp (by simp [htask])
      rw [hactx]
      refine ⟨nofun, fun _ => ?_, fun _ => ⟨p, hp, hactx⟩, h.release ?_ ?_, fun a ha => ?_⟩
      · exact (h.registry (by rw [htask]; rfl)).deleteContext hfree
      · rw [htask]
        simp [TaskCode.owns]
      · rw [htask, TaskCode.owns, TaskCode.owns, Finset.pair_comm, Finset.erase_insert (by simp)]
      · exact h.starter a (by simpa using ha)
  | @deleteParams p htask hp =>
      refine ⟨nofun, fun _ => h.deleted (by rw [htask]; rfl), fun hfinished => absurd rfl hfinished,
        h.release ?_ ?_, fun a ha => ?_⟩
      · rw [htask]
        exact Finset.mem_singleton_self _
      · rw [htask]
        rfl
      · exact h.starter a (by simpa using ha)

theorem Created.inv {first : FilePtr} {fds : List FilePtr} {cb : Callback} {s : Store Elf}
    (h : Created r first fds cb s) :
    (⟨s.registry, s.params, deleters fds, .created⟩ : Handover Elf).Inv r s.log [] where
  registry _ := h.registry
  deleted := nofun
  params _ := by
    obtain ⟨prog, hprog⟩ := h.params
    exact ⟨_, hprog, rfl⟩
  files := by
    refine ⟨fds.flatMap FilePtr.owns, rfl, h.nodup, fun x hx => ?_, ?_⟩
    · obtain ⟨fd, -, hfd⟩ := List.mem_flatMap.mp hx
      cases fd with
      | null => cases hfd
      | _ => exact ⟨_, List.mem_singleton.mp hfd⟩
    · have hheld :
          insert .params (insert (.context r.nextPID) (fds.flatMap FilePtr.owns).toFinset) =
          (fds.flatMap FilePtr.owns).toFinset ∪ TaskCode.created.owns r.nextPID := by
        ext x
        simp only [TaskCode.owns, Finset.mem_insert, Finset.mem_union, Finset.mem_singleton]
        tauto
      simpa only [List.map_nil, List.append_nil, hheld] using h.owned
  starter := nofun

end inv

/-- An executable that needs one library besides `libc.so`. -/
def Host.sample : Host ℕ where
  elf :=
    { readDyn fd := match fd with | .file n => some n | _ => none
      load _ := .alloc 0 64 4 fun mem => .done (some ⟨mem, mem⟩)
      exportSymbols _ _ symbols := (true, symbols)
      relocate _ _ _ _ := true
      getDynLibs n := if n = 0 then ["libc.so", "libfoo.so"] else ["libm.so"] }
  allocators fd _ len _ _ := if fd = .file 0 then ⟨0x3fc90000, len⟩ else ⟨0x3fca0000, len⟩
  fopen _ _ := true
  fmemopen _ _ _ := true
  registered := [("libfoo.so", ⟨false, "/lib/libfoo.so", 0, 0⟩)]
  cache _ := none
  xTaskCreate := true

end BadgeElfloader.Runner
