import BadgeElfloader.Runner.Tasks

/-!
How the end of a process is reported.

A process ends with a code by one of three routes. `Params` carries a callback
for the end of the process, which `taskCode` never calls; `exit_code` says what
becomes of the code on the way to `taskCode`.
-/

namespace BadgeElfloader.Runner

open Riscv (Word)
open Abi Transition

variable {ι : Type} [DecidableEq ι] {kernel : Bool} {s s' : System ι} {p : ι} {c : Word}
  {ev : Event ι} {ls : List (Event ι)}

/-- The process that an event ends, and the code. -/
def Event.ending : Event ι → Option (ι × Word)
  | .call p (.exit c) .. | .leave p (.ret c) | .leave p (.sysExit c) => some (p, c)
  | _ => none

def Event.isCallback (p : ι) : Event ι → Bool
  | .callback q .. => q = p
  | _ => false

/-- The end of `p` with code `c` leaves the system running and gives `taskCode`
the code, and the callback of `p` is called once, with the code and the context,
before the context is deleted. -/
structure ExitReported (ls : List (Event ι)) (s : System ι) (p : ι) (c : Word) : Prop where
  running : s.halted = false
  code : (s.process p).ec = c
  callback : ∃ pre post, ls = pre ++ .callback p c (s.process p).actx :: post ∧
    (∀ ev ∈ pre ++ post, ev.isCallback p = false) ∧
    .deleteContext p (s.process p).actx ∉ pre

/-! ### The code -/

/-- The process has left its user code. -/
def Stage.past : Stage → Bool
  | exited | finished => true
  | _ => false

/-- What an event that ends `p` leaves of the code. -/
theorem SystemStep.ending (hstep : SystemStep kernel s ev s') (hend : ev.ending = some (p, c)) :
    s'.halted = true ∨ (s'.process p).stage.past ∧ (s'.process p).ec = obtainedCode kernel c := by
  cases hstep with
  | call fn _ _ _ =>
      cases fn with
      | exit d =>
          obtain ⟨rfl, rfl⟩ := Prod.mk.inj (Option.some.inj hend)
          right
          simp [System.update, Process.afterCall, Stage.past]
      | _ => cases hend
  | crash => exact .inl rfl
  | leave how _ _ _ =>
      cases how with
      | killed => cases hend
      | _ =>
          obtain ⟨rfl, rfl⟩ := Prod.mk.inj (Option.some.inj hend)
          right
          simp [System.update, Leave.ec, Stage.past]
  | _ => cases hend

theorem System.update_past (hp : (s.process p).stage.past) {q : ι} (r : Registry) {pr : Process}
    (hq : (s.process q).stage.past → pr.stage.past ∧ pr.ec = (s.process q).ec) :
    ((s.update q r pr).process p).stage.past ∧
      ((s.update q r pr).process p).ec = (s.process p).ec := by
  by_cases hpq : p = q
  · subst hpq
    simpa only [System.update, Function.update_self] using hq hp
  · simp [System.update, Function.update_of_ne hpq, hp]

/-- A process that has left its user code keeps its code. -/
theorem SystemStep.past (hstep : SystemStep kernel s ev s') (hp : (s.process p).stage.past) :
    (s'.process p).stage.past ∧ (s'.process p).ec = (s.process p).ec := by
  cases hstep with
  | start _ _ hq =>
      exact System.update_past hp s.registry.newContext.2 fun hpast => by
        rw [hq] at hpast
        cases hpast
  | abandon _ hq | createTask _ hq | taskCode _ hq | noStack _ _ hq
  | call _ _ hq _ | leave _ _ hq _ =>
      exact System.update_past hp _ fun hpast => by
        rw [hq] at hpast
        cases hpast
  | useContext _ _ _ => exact System.update_past hp _ fun hpast => ⟨hpast, rfl⟩
  | crash => exact ⟨hp, rfl⟩
  | deleteContext _ _ => exact System.update_past hp _ fun _ => ⟨rfl, rfl⟩

theorem SystemStep.running (hstep : SystemStep kernel s ev s') : s.halted = false := by
  cases hstep <;> assumption

/-- In the build without the kernel no call takes the system down. -/
theorem SystemStep.not_halted (h : SystemInv false s) (hstep : SystemStep false s ev s') :
    s'.halted = false := by
  cases hstep with
  | crash fn _ hp hcall =>
      rw [h.getContext_eq hp, if_neg (by decide)] at hcall
      obtain ⟨r', hr', -⟩ := fn.call_some s.registry (s.process _).actx
      cases hcall.symm.trans hr'
  | start _ hhalted _ | useContext _ hhalted _ | abandon hhalted _ | createTask hhalted _
  | taskCode hhalted _ | noStack _ hhalted _ | call _ hhalted _ _ | leave _ hhalted _ _
  | deleteContext hhalted _ => exact hhalted

/-- What becomes of the code `c` of a process. In the build without the kernel
`taskCode` obtains it; in the build with the kernel `taskCode` obtains -1, or
the end of the process is the end of the system. -/
theorem exit_code (hrun : Run (SystemStep kernel) .initial ls s)
    (hcount : s.created < 2 ^ 31 - 1) (hev : ev ∈ ls) (hend : ev.ending = some (p, c)) :
    (kernel = false → s.halted = false ∧ (s.process p).ec = c) ∧
      (kernel = true → s.halted = true ∨ (s.process p).ec = -1) := by
  have hcode : s.halted = true ∨
      (s.process p).stage.past ∧ (s.process p).ec = obtainedCode kernel c := by
    refine hrun.history (P := fun ls s => ev ∈ ls → s.halted = true ∨
      (s.process p).stage.past ∧ (s.process p).ec = obtainedCode kernel c)
      (fun as u a v hu hstep hmem => ?_) nofun hev
    obtain hold | hnew := List.mem_append.mp hmem
    · obtain hhalted | ⟨hpast, hec⟩ := hu hold
      · exact absurd hhalted (by simp [hstep.running])
      · obtain ⟨hpast', hec'⟩ := hstep.past hpast
        exact .inr ⟨hpast', hec'.trans hec⟩
    · obtain rfl := List.mem_singleton.mp hnew
      exact hstep.ending hend
  refine ⟨fun hkernel => ?_, fun hkernel => ?_⟩
  · subst hkernel
    have hrunning : s.halted = false := by
      obtain ⟨-, rfl⟩ | ⟨bs, a, t, -, hbs, hstep⟩ := hrun.eq_nil_or_snoc
      · rfl
      · exact hstep.not_halted (.of_run hbs (hstep.created_le.trans_lt hcount))
    obtain hhalted | ⟨-, hec⟩ := hcode
    · simp [hrunning] at hhalted
    · exact ⟨hrunning, hec⟩
  · subst hkernel
    exact hcode.imp_right And.right

/-! ### The report -/

theorem SystemStep.not_callback (hstep : SystemStep kernel s ev s') (p : ι) :
    ev.isCallback p = false := by
  cases hstep <;> rfl

theorem not_callback_of_run {s₀ : System ι} (hrun : Run (SystemStep kernel) s₀ ls s) (p : ι) :
    ∀ ev ∈ ls, ev.isCallback p = false :=
  (hrun.forall_label (P := fun _ => True) (fun _ _ _ _ hstep => ⟨trivial, hstep.not_callback p⟩)
    trivial).2

theorem ExitReported.callback_mem (h : ExitReported ls s p c) : ∃ ev ∈ ls, ev.isCallback p := by
  obtain ⟨pre, post, rfl, -, -⟩ := h.callback
  exact ⟨.callback p c (s.process p).actx, by simp, by simp [Event.isCallback]⟩

theorem not_reported_of_run {s₀ : System ι} (hrun : Run (SystemStep kernel) s₀ ls s) :
    ¬ ExitReported ls s p c := by
  intro h
  obtain ⟨ev, hev, hcallback⟩ := h.callback_mem
  simp [not_callback_of_run hrun p ev hev] at hcallback

/-- No run reports the end of any process, by whatever route it comes. Without
the kernel it is the callback alone that is missing. -/
theorem exit_never_reported (kernel : Bool) (ls : List (Event ι)) (s : System ι)
    (hrun : Run (SystemStep kernel) .initial ls s) (p : ι) (c : Word) :
    ¬ ExitReported ls s p c ∧
      (s.created < 2 ^ 31 - 1 → ∀ ev ∈ ls, ev.ending = some (p, c) →
        (kernel = false → s.halted = false ∧ (s.process p).ec = c) ∧
        (kernel = true → s.halted = true ∨ (s.process p).ec = -1)) :=
  ⟨not_reported_of_run hrun, fun hcount _ hev hend => exit_code hrun hcount hev hend⟩

/-- The process returns 3 from its entry function, and its context is deleted. -/
theorem exists_exit_run : ∃ (ls : List (Event Unit)) (s : System Unit),
    Run (SystemStep false) .initial ls s ∧ (s.process ()).cb = .function ∧ s.created = 1 ∧
      (∃ ev ∈ ls, ev.ending = some ((), 3)) ∧ (s.process ()).stage = .finished := by
  obtain ⟨s, hrun, hhalted, hcreated, hstage, hcb⟩ := exists_running false
  have hleave := hrun.snoc (.leave (.ret 3) hhalted hstage rfl)
  have hdelete := hleave.snoc (.deleteContext (p := ()) hhalted (by simp [System.update]))
  exact ⟨_, _, hdelete, by simp [System.update, hcb], hcreated, ⟨.leave () (.ret 3), by simp, rfl⟩,
    by simp [System.update]⟩

theorem exit_never_reported_sample : ∃ (ls : List (Event Unit)) (s : System Unit),
    (∃ ev ∈ ls, ev.ending = some ((), 3)) ∧ (s.process ()).stage = .finished ∧
      ¬ ExitReported ls s () 3 ∧ (s.process ()).ec = 3 := by
  obtain ⟨ls, s, hrun, -, hcreated, ⟨ev, hev, hend⟩, hfinished⟩ := exists_exit_run
  obtain ⟨hnot, hcode⟩ := exit_never_reported false ls s hrun () 3
  have hcount : s.created < 2 ^ 31 - 1 := by
    rw [hcreated]
    decide
  exact ⟨ls, s, ⟨ev, hev, hend⟩, hfinished, hnot, ((hcode hcount ev hev hend).1 rfl).2⟩

/-- A process with a callback whose end is not reported. -/
theorem exit_lost : ∃ (ls : List (Event Unit)) (s : System Unit),
    Run (SystemStep false) .initial ls s ∧ (s.process ()).cb = .function ∧
      (∃ ev ∈ ls, ev.ending = some ((), 3)) ∧ (s.process ()).stage = .finished ∧
      ¬ ExitReported ls s () 3 := by
  obtain ⟨ls, s, hrun, hcb, -, hend, hfinished⟩ := exists_exit_run
  exact ⟨ls, s, hrun, hcb, hend, hfinished, not_reported_of_run hrun⟩

end BadgeElfloader.Runner
