import BadgeElfloader.Abi.Links
import BadgeElfloader.Transition.Run

/-!
The I2C host with any number of threads.

`host_cmd` is thread-local, and the driver is not. A `HostM` is a call cut into
the steps between which other threads may run, each with at most one call of the
driver. What a thread sees of the driver is what it would see alone, up to the
numbers of its links.
-/

namespace BadgeElfloader.Abi

open Riscv (Word)
open Transition

/-! ### Calls in steps -/

/-- What is left of a call that returns an `α`. -/
inductive HostM (α : Type)
  | done (a : α)
  | ensureLink (port : Fin 2) (next : HostM α)
  | queueCmd (port : Fin 2) (cmd : I2cCmd) (next : Bool → HostM α)
  | cmdBegin (port : Fin 2) (next : Bool → HostM α)
  /-- The link is deleted, and the slot is null. -/
  | clear (port : Fin 2) (next : HostM α)

namespace HostM

variable {α β : Type}

def bind (f : α → HostM β) : HostM α → HostM β
  | done a => f a
  | ensureLink port next => .ensureLink port (next.bind f)
  | queueCmd port cmd next => .queueCmd port cmd fun b => (next b).bind f
  | cmdBegin port next => .cmdBegin port fun b => (next b).bind f
  | clear port next => .clear port (next.bind f)

/-- `&&` of two calls. -/
def andThen (p q : HostM Bool) : HostM Bool := p.bind fun b => if b then q else .done false

end HostM

/-- The link in a slot is deleted, and the slot is null. -/
def I2c.clear (s : I2c) (port : Fin 2) : I2c :=
  { s.linkDelete (s.hostCmd port) with hostCmd := Function.update s.hostCmd port none }

namespace HostM

variable {α β : Type} (ok : ℕ → Bool)

/-- The next step of a call. -/
def step : HostM α → I2c → Option (HostM α × I2c)
  | done _, _ => none
  | ensureLink port next, s => some (next, s.ensureLink ok port)
  | queueCmd port cmd next, s =>
      let (b, s) := s.queueCmd ok cmd (s.hostCmd port)
      some (next b, s)
  | cmdBegin port next, s =>
      let (b, s) := s.cmdBegin ok port (s.hostCmd port)
      some (next b, s)
  | clear port next, s => some (next, s.clear port)

/-- All steps of a call, without other threads. -/
def run : HostM α → I2c → α × I2c
  | done a, s => (a, s)
  | ensureLink port next, s => next.run (s.ensureLink ok port)
  | queueCmd port cmd next, s =>
      let (b, s) := s.queueCmd ok cmd (s.hostCmd port)
      (next b).run s
  | cmdBegin port next, s =>
      let (b, s) := s.cmdBegin ok port (s.hostCmd port)
      (next b).run s
  | clear port next, s => next.run (s.clear port)

end HostM

/-! ### The functions of `gpio.cpp` in steps -/

def i2cHostQueueM (interface : Word) (cmd : I2cCmd) : HostM Bool :=
  match i2cPort interface with
  | none => .done false
  | some port => .ensureLink port (.queueCmd port cmd .done)

def i2cHostStopM (interface : Word) : HostM Bool :=
  match i2cPort interface with
  | none => .done false
  | some port =>
      .ensureLink port (.queueCmd port .stop fun stopped =>
        .cmdBegin port fun ran => .clear port (.done (stopped && ran)))

def i2cHostWriteAddrM (interface device : Word) (readBit : Bool) : HostM Bool :=
  let bit : Word := if readBit then 1 else 0
  if device &&& ~~~ 0x3ff ≠ 0 then .done false
  else if device &&& 0x380 ≠ 0 then
    -- 10-bit addressing.
    (i2cHostQueueM interface (.writeByte
      ((0xf0 ||| (device.sshiftRight 7 &&& 0x06) ||| bit).setWidth 8) true)).andThen
        (i2cHostQueueM interface (.writeByte (device.setWidth 8) true))
  else
    -- 7-bit addressing.
    i2cHostQueueM interface (.writeByte ((device <<< 1 ||| bit).setWidth 8) true)

/-- `i2c_host_write_to` and `i2c_host_read_from`, which differ in the command
behind the address. -/
def i2cHostTransferM (interface device : Word) (readBit : Bool) (cmd : I2cCmd) : HostM Bool :=
  (((i2cHostQueueM interface .start).andThen (i2cHostWriteAddrM interface device readBit)).andThen
    (i2cHostQueueM interface cmd)).bind fun res =>
      (i2cHostStopM interface).bind fun stop => .done (res && stop)

/-- A call of a thread in steps. -/
def i2cCallM (call : Word × I2cOp) : HostM Bool :=
  match call.2 with
  | .start => i2cHostQueueM call.1 .start
  | .writeAddr device readBit => i2cHostWriteAddrM call.1 device readBit
  | .writeByte sendByte => i2cHostQueueM call.1 (.writeByte sendByte true)
  | .readByte recvByte => i2cHostQueueM call.1 (.readByte recvByte .ack)
  | .writeBytes sendBuf => i2cHostQueueM call.1 (.write sendBuf true)
  | .readBytes recvBuf recvLen => i2cHostQueueM call.1 (.read recvBuf recvLen .ack)
  | .stop => i2cHostStopM call.1
  | .writeTo device sendBuf => i2cHostTransferM call.1 device false (.write sendBuf true)
  | .readFrom device recvBuf recvLen =>
      i2cHostTransferM call.1 device true (.read recvBuf recvLen .ack)

/-- A call of a thread, with what it returns. -/
def I2c.call (ok : ℕ → Bool) (s : I2c) (call : Word × I2cOp) : Bool × I2c :=
  match call.2 with
  | .start => i2cHostStart ok s call.1
  | .writeAddr device readBit => i2cHostWriteAddr ok s call.1 device readBit
  | .writeByte sendByte => i2cHostWriteByte ok s call.1 sendByte
  | .readByte recvByte => i2cHostReadByte ok s call.1 recvByte
  | .writeBytes sendBuf => i2cHostWriteBytes ok s call.1 sendBuf
  | .readBytes recvBuf recvLen => i2cHostReadBytes ok s call.1 recvBuf recvLen
  | .stop => i2cHostStop ok s call.1
  | .writeTo device sendBuf =>
      let (res, s) := i2cHostWriteTo ok s call.1 device sendBuf
      (res ≠ 0, s)
  | .readFrom device recvBuf recvLen => i2cHostReadFrom ok s call.1 device recvBuf recvLen

section refinement

variable {α β : Type} (ok : ℕ → Bool) {s s' : I2c} {interface : Word} {p p' : HostM α}

theorem I2c.call_snd (s : I2c) (call : Word × I2cOp) : (s.call ok call).2 = s.exec ok call := by
  obtain ⟨interface, op⟩ := call
  cases op <;> rfl

theorem HostM.run_bind (f : α → HostM β) (p : HostM α) (s : I2c) :
    (p.bind f).run ok s = (f (p.run ok s).1).run ok (p.run ok s).2 := by
  induction p generalizing s with
  | done a => rfl
  | ensureLink port next ih => exact ih _
  | queueCmd port cmd next ih => exact ih _ _
  | cmdBegin port next ih => exact ih _ _
  | clear port next ih => exact ih _

theorem HostM.run_andThen (p q : HostM Bool) (s : I2c) :
    (p.andThen q).run ok s = I2c.andThen (p.run ok s) (q.run ok) := by
  rw [andThen, run_bind, I2c.andThen]
  obtain ⟨b, t⟩ := p.run ok s
  cases b <;> rfl

theorem HostM.run_step (h : p.step ok s = some (p', s')) : p.run ok s = p'.run ok s' := by
  cases p <;> cases h <;> rfl

theorem run_i2cHostQueueM (s : I2c) (interface : Word) (cmd : I2cCmd) :
    (i2cHostQueueM interface cmd).run ok s = i2cHostQueue ok s interface cmd := by
  unfold i2cHostQueueM i2cHostQueue
  cases i2cPort interface <;> rfl

theorem run_i2cHostStopM (s : I2c) (interface : Word) :
    (i2cHostStopM interface).run ok s = i2cHostStop ok s interface := by
  unfold i2cHostStopM i2cHostStop
  cases i2cPort interface with
  | none => rfl
  | some port =>
      simp only [HostM.run, I2c.finish, I2c.clear]
      cases hslot : (s.ensureLink ok port).hostCmd port with
      | none => simp [I2c.queueCmd, I2c.cmdBegin, I2c.linkDelete, hslot]
      | some l => simp [I2c.queueCmd, I2c.cmdBegin, I2c.linkDelete, hslot]

theorem run_i2cHostWriteAddrM (s : I2c) (interface device : Word) (readBit : Bool) :
    (i2cHostWriteAddrM interface device readBit).run ok s =
      i2cHostWriteAddr ok s interface device readBit := by
  unfold i2cHostWriteAddrM i2cHostWriteAddr
  dsimp only
  split
  · rfl
  · split
    · rw [HostM.run_andThen, run_i2cHostQueueM]
      refine congrArg _ (funext fun t => ?_)
      exact run_i2cHostQueueM ok t interface _
    · exact run_i2cHostQueueM ok s interface _

theorem run_i2cHostTransferM (s : I2c) (interface device : Word) (readBit : Bool) (cmd : I2cCmd) :
    (i2cHostTransferM interface device readBit cmd).run ok s =
      let (res, s) := I2c.andThen
        (I2c.andThen (i2cHostStart ok s interface) fun s =>
          i2cHostWriteAddr ok s interface device readBit)
        fun s => i2cHostQueue ok s interface cmd
      let (stop, s) := i2cHostStop ok s interface
      (res && stop, s) := by
  have haddr : (i2cHostWriteAddrM interface device readBit).run ok = fun s =>
      i2cHostWriteAddr ok s interface device readBit :=
    funext fun t => run_i2cHostWriteAddrM ok t interface device readBit
  have hqueue : (i2cHostQueueM interface cmd).run ok = fun s => i2cHostQueue ok s interface cmd :=
    funext fun t => run_i2cHostQueueM ok t interface cmd
  simp only [i2cHostTransferM, HostM.run_bind, HostM.run_andThen, run_i2cHostQueueM, haddr, hqueue,
    run_i2cHostStopM, HostM.run]
  rfl

/-- The steps of a call add up to the call. -/
theorem run_i2cCallM (s : I2c) (call : Word × I2cOp) :
    (i2cCallM call).run ok s = s.call ok call := by
  obtain ⟨interface, op⟩ := call
  cases op with
  | start => exact run_i2cHostQueueM ok s interface _
  | writeAddr device readBit => exact run_i2cHostWriteAddrM ok s interface device readBit
  | writeByte sendByte => exact run_i2cHostQueueM ok s interface _
  | readByte recvByte => exact run_i2cHostQueueM ok s interface _
  | writeBytes sendBuf => exact run_i2cHostQueueM ok s interface _
  | readBytes recvBuf recvLen => exact run_i2cHostQueueM ok s interface _
  | stop => exact run_i2cHostStopM ok s interface
  | writeTo device sendBuf =>
      have hflag : ∀ b : Bool, b = decide ((if b then (1 : Word) else 0) ≠ 0) := by decide
      exact (run_i2cHostTransferM ok s interface device false _).trans (Prod.ext (hflag _) rfl)
  | readFrom device recvBuf recvLen => exact run_i2cHostTransferM ok s interface device true _

end refinement

/-! ### Threads -/

/-- The slots, the call under way and the events of every thread, and the driver
that they share. `call` is `done` between two calls. -/
structure I2cThreads (ι : Type) where
  hostCmd : ι → Fin 2 → Option ℕ
  call : ι → HostM Bool
  ended : ι → Bool
  log : ι → List I2cEvent
  created : ℕ
  queues : ℕ → List I2cCmd
  calls : ℕ

inductive ThreadEvent (ι : Type)
  | call (t : ι) (call : Word × I2cOp)
  | step (t : ι)
  /-- The task ends. -/
  | exit (t : ι)

namespace I2cThreads

variable {ι : Type}

def initial : I2cThreads ι :=
  ⟨fun _ _ => none, fun _ => .done false, fun _ => false, fun _ => [], 0, fun _ => [], 0⟩

/-- The driver and what thread `t` has done with it. -/
def view (g : I2cThreads ι) (t : ι) : I2c :=
  ⟨g.hostCmd t, g.created, g.queues, g.calls, g.log t⟩

variable [DecidableEq ι]

/-- Thread `t` has taken a step. -/
def put (g : I2cThreads ι) (t : ι) (p : HostM Bool) (v : I2c) : I2cThreads ι where
  hostCmd := Function.update g.hostCmd t v.hostCmd
  call := Function.update g.call t p
  ended := g.ended
  log := Function.update g.log t v.log
  created := v.created
  queues := v.queues
  calls := v.calls

end I2cThreads

/-- The steps of all threads, in any order. -/
inductive ThreadStep {ι : Type} [DecidableEq ι] (ok : ℕ → Bool) :
    I2cThreads ι → ThreadEvent ι → I2cThreads ι → Prop
  | call {g : I2cThreads ι} {t : ι} {b : Bool} (call : Word × I2cOp) : g.call t = .done b →
      g.ended t = false →
      ThreadStep ok g (.call t call) { g with call := Function.update g.call t (i2cCallM call) }
  | step {g : I2cThreads ι} {t : ι} {p : HostM Bool} {v : I2c} :
      (g.call t).step ok (g.view t) = some (p, v) → ThreadStep ok g (.step t) (g.put t p v)
  | exit {g : I2cThreads ι} {t : ι} {b : Bool} : g.call t = .done b → g.ended t = false →
      ThreadStep ok g (.exit t) { g with ended := Function.update g.ended t true }

/-- The calls that a thread has begun. -/
def callsOf {ι : Type} [DecidableEq ι] (t : ι) (ls : List (ThreadEvent ι)) : List (Word × I2cOp) :=
  ls.filterMap fun
    | .call u call => if u = t then some call else none
    | _ => none

/-- Calls of a thread that is alone, and what the last one returned. -/
def I2c.callAll (ok : ℕ → Bool) (calls : List (Word × I2cOp)) : Bool × I2c :=
  calls.foldl (fun r call => r.2.call ok call) (false, .initial)

def I2cEvent.rename (ρ : ℕ → ℕ) : I2cEvent → I2cEvent
  | create l => .create (ρ l)
  | queue l cmd ok => .queue (ρ l) cmd ok
  | run port l cmds ok => .run port (ρ l) cmds ok
  | delete l => .delete (ρ l)

/-- What a thread sees is what it would see alone, where its links have other
numbers. -/
structure I2c.Tracks (ρ : ℕ → ℕ) (s v : I2c) : Prop where
  slots : ∀ port, v.hostCmd port = (s.hostCmd port).map ρ
  queues : ∀ l < s.created, v.queues (ρ l) = s.queues l
  log : v.log = s.log.map (I2cEvent.rename ρ)
  lt : ∀ l < s.created, ρ l < v.created
  inj : ∀ l < s.created, ∀ k < s.created, ρ l = ρ k → l = k

section step

variable {ok : ℕ → Bool} {s s' v v' : I2c} {p p' : HostM Bool} {ρ : ℕ → ℕ} {l k : ℕ}

theorem HostM.step_inv (h : p.step ok s = some (p', s')) (hs : s.Inv) : s'.Inv := by
  cases p with
  | done a => cases h
  | ensureLink port next =>
      cases h
      exact (I2c.ensureLink_builds ok s port).inv hs
  | queueCmd port cmd next =>
      cases h
      exact (I2c.queueCmd_builds ok s port cmd).inv hs
  | cmdBegin port next =>
      cases h
      cases hslot : s.hostCmd port with
      | none => exact hs
      | some l => exact hs.ran hslot _ _ _
  | clear port next =>
      cases h
      unfold I2c.clear
      cases hslot : s.hostCmd port with
      | none =>
          rw [I2c.linkDelete, ← hslot, Function.update_eq_self]
          exact hs
      | some l => exact hs.delete hslot

/-- A step is about links in the slots, or new ones. -/
theorem HostM.step_frame (h : p.step ok s = some (p', s')) :
    s.created ≤ s'.created ∧
      (∀ k < s.created, (∀ port, s.hostCmd port ≠ some k) → s'.queues k = s.queues k) ∧
      ∃ es, s'.log = s.log ++ es ∧
        ∀ e ∈ es, (∃ port, s.hostCmd port = some e.link) ∨ s.created ≤ e.link := by
  cases p with
  | done a => cases h
  | ensureLink port next =>
      cases h
      unfold I2c.ensureLink I2c.linkCreate
      cases hslot : s.hostCmd port with
      | some l => exact ⟨le_rfl, fun _ _ _ => rfl, [], (List.append_nil _).symm, nofun⟩
      | none =>
          dsimp only
          split
          · refine ⟨Nat.le_succ _, fun k hk _ => Function.update_of_ne hk.ne _ _,
              [.create s.created], rfl, fun e he => ?_⟩
            obtain rfl := List.mem_singleton.mp he
            exact .inr le_rfl
          · exact ⟨le_rfl, fun _ _ _ => rfl, [], (List.append_nil _).symm, nofun⟩
  | queueCmd port cmd next =>
      cases h
      cases hslot : s.hostCmd port with
      | none => exact ⟨le_rfl, fun _ _ _ => rfl, [], (List.append_nil _).symm, nofun⟩
      | some l =>
          refine ⟨le_rfl, fun k _ hk => ?_, _, rfl, fun e he => ?_⟩
          · have hne : k ≠ l := by
              rintro rfl
              exact hk port hslot
            dsimp only
            split
            · exact Function.update_of_ne hne _ _
            · rfl
          · obtain rfl := List.mem_singleton.mp he
            exact .inl ⟨port, hslot⟩
  | cmdBegin port next =>
      cases h
      cases hslot : s.hostCmd port with
      | none => exact ⟨le_rfl, fun _ _ _ => rfl, [], (List.append_nil _).symm, nofun⟩
      | some l =>
          refine ⟨le_rfl, fun _ _ _ => rfl, _, rfl, fun e he => ?_⟩
          obtain rfl := List.mem_singleton.mp he
          exact .inl ⟨port, hslot⟩
  | clear port next =>
      cases h
      unfold I2c.clear
      cases hslot : s.hostCmd port with
      | none => exact ⟨le_rfl, fun _ _ _ => rfl, [], (List.append_nil _).symm, nofun⟩
      | some l =>
          refine ⟨le_rfl, fun _ _ _ => rfl, _, rfl, fun e he => ?_⟩
          obtain rfl := List.mem_singleton.mp he
          exact .inl ⟨port, hslot⟩

/-- A step asks the driver once at most. -/
theorem HostM.step_congr (ok' : ℕ → Bool) (h : p.step ok s = some (p', s'))
    (hok : s.calls < s'.calls → ok' s.calls = ok s.calls) :
    p.step ok' s = some (p', s') ∧ s.calls ≤ s'.calls := by
  cases p with
  | done a => cases h
  | ensureLink port next =>
      cases h
      simp only [HostM.step, I2c.ensureLink, I2c.linkCreate] at hok ⊢
      cases hslot : s.hostCmd port with
      | some l => exact ⟨rfl, le_rfl⟩
      | none =>
          rw [hslot] at hok
          have hsame : ok' s.calls = ok s.calls := by
            refine hok ?_
            dsimp only
            split <;> exact Nat.lt_succ_self _
          dsimp only
          rw [hsame]
          split <;> exact ⟨rfl, Nat.le_succ _⟩
  | queueCmd port cmd next =>
      cases h
      simp only [HostM.step] at hok ⊢
      cases hslot : s.hostCmd port with
      | none => exact ⟨rfl, le_rfl⟩
      | some l =>
          rw [hslot] at hok
          simp only [I2c.queueCmd, hok (Nat.lt_succ_self _)]
          exact ⟨trivial, Nat.le_succ _⟩
  | cmdBegin port next =>
      cases h
      simp only [HostM.step] at hok ⊢
      cases hslot : s.hostCmd port with
      | none => exact ⟨rfl, le_rfl⟩
      | some l =>
          rw [hslot] at hok
          simp only [I2c.cmdBegin, hok (Nat.lt_succ_self _)]
          exact ⟨trivial, Nat.le_succ _⟩
  | clear port next =>
      cases h
      refine ⟨rfl, ?_⟩
      unfold I2c.clear
      cases s.hostCmd port <;> exact le_rfl

namespace I2c

theorem Tracks.slot (h : Tracks ρ s v) {port : Fin 2} (hslot : s.hostCmd port = some l) :
    v.hostCmd port = some (ρ l) := by
  rw [h.slots, hslot, Option.map_some]

theorem Tracks.slot_none (h : Tracks ρ s v) {port : Fin 2} (hslot : s.hostCmd port = none) :
    v.hostCmd port = none := by
  rw [h.slots, hslot, Option.map_none]

/-- The number of the driver's calls does not matter. -/
theorem Tracks.called (h : Tracks ρ s v) (calls calls' : ℕ) :
    Tracks ρ { s with calls := calls } { v with calls := calls' } :=
  ⟨h.slots, h.queues, h.log, h.lt, h.inj⟩

theorem rename_congr {ρ' : ℕ → ℕ} {log : List I2cEvent} (h : ∀ e ∈ log, ρ' e.link = ρ e.link) :
    log.map (I2cEvent.rename ρ') = log.map (I2cEvent.rename ρ) := by
  refine List.map_congr_left fun e he => ?_
  have hlink := h e he
  cases e <;> simpa [I2cEvent.rename, I2cEvent.link] using hlink

/-- Both sides create a link. -/
theorem Tracks.create (h : Tracks ρ s v) (hs : s.Inv) (port : Fin 2) (calls calls' : ℕ) :
    Tracks (Function.update ρ s.created v.created)
      ⟨Function.update s.hostCmd port (some s.created), s.created + 1,
        Function.update s.queues s.created [], calls, s.log ++ [.create s.created]⟩
      ⟨Function.update v.hostCmd port (some v.created), v.created + 1,
        Function.update v.queues v.created [], calls', v.log ++ [.create v.created]⟩ where
  slots q := by
    by_cases hq : q = port
    · subst hq
      simp
    · simp only [Function.update_of_ne hq, h.slots]
      cases hslot : s.hostCmd q with
      | none => rfl
      | some l => simp [Function.update_of_ne (hs.lt_created hslot).ne]
  queues l hl := by
    obtain rfl | hlt := Nat.eq_or_lt_of_le (Nat.le_of_lt_succ hl)
    · simp
    · rw [Function.update_of_ne hlt.ne]
      show Function.update v.queues v.created [] (ρ l) = Function.update s.queues s.created [] l
      rw [Function.update_of_ne (h.lt l hlt).ne, Function.update_of_ne hlt.ne, h.queues l hlt]
  log := by
    rw [List.map_append, rename_congr fun e he => Function.update_of_ne (hs.created e he).ne _ _,
      h.log]
    simp [I2cEvent.rename]
  lt l hl := by
    obtain rfl | hlt := Nat.eq_or_lt_of_le (Nat.le_of_lt_succ hl)
    · simp
    · rw [Function.update_of_ne hlt.ne]
      exact Nat.lt_succ_of_lt (h.lt l hlt)
  inj l hl k hk heq := by
    obtain rfl | hlt := Nat.eq_or_lt_of_le (Nat.le_of_lt_succ hl)
    · obtain rfl | hlt' := Nat.eq_or_lt_of_le (Nat.le_of_lt_succ hk)
      · rfl
      · rw [Function.update_self, Function.update_of_ne hlt'.ne] at heq
        exact absurd heq (h.lt k hlt').ne'
    · obtain rfl | hlt' := Nat.eq_or_lt_of_le (Nat.le_of_lt_succ hk)
      · rw [Function.update_self, Function.update_of_ne hlt.ne] at heq
        exact absurd heq (h.lt l hlt).ne
      · rw [Function.update_of_ne hlt.ne, Function.update_of_ne hlt'.ne] at heq
        exact h.inj l hlt k hlt' heq

/-- Both sides queue a command. -/
theorem Tracks.queue (h : Tracks ρ s v) (hl : l < s.created) (cmd : I2cCmd) (q : Bool)
    (calls calls' : ℕ) :
    Tracks ρ
      { s with
        queues := if q then Function.update s.queues l (s.queues l ++ [cmd]) else s.queues
        calls := calls
        log := s.log ++ [.queue l cmd q] }
      { v with
        queues := if q then Function.update v.queues (ρ l) (v.queues (ρ l) ++ [cmd]) else v.queues
        calls := calls'
        log := v.log ++ [.queue (ρ l) cmd q] } where
  slots := h.slots
  queues k hk := by
    cases q with
    | false => exact h.queues k hk
    | true =>
        simp only [if_true]
        by_cases hkl : k = l
        · subst hkl
          rw [Function.update_self, Function.update_self, h.queues k hk]
        · have hne : ρ k ≠ ρ l := fun heq => hkl (h.inj k hk l hl heq)
          rw [Function.update_of_ne hne, Function.update_of_ne hkl, h.queues k hk]
  log := by
    rw [List.map_append, h.log]
    rfl
  lt := h.lt
  inj := h.inj

/-- Both sides do something with a link that only the log tells. -/
theorem Tracks.event (h : Tracks ρ s v) (e : I2cEvent) (calls calls' : ℕ) :
    Tracks ρ { s with calls := calls, log := s.log ++ [e] }
      { v with calls := calls', log := v.log ++ [e.rename ρ] } where
  slots := h.slots
  queues := h.queues
  log := by
    rw [List.map_append, h.log]
    rfl
  lt := h.lt
  inj := h.inj

/-- Both sides null a slot. -/
theorem Tracks.null (h : Tracks ρ s v) (port : Fin 2) :
    Tracks ρ { s with hostCmd := Function.update s.hostCmd port none }
      { v with hostCmd := Function.update v.hostCmd port none } where
  slots q := by
    by_cases hq : q = port
    · subst hq
      simp
    · simp only [Function.update_of_ne hq, h.slots]
  queues := h.queues
  log := h.log
  lt := h.lt
  inj := h.inj

/-- A step of the thread is one that it takes alone. -/
theorem Tracks.step (ok' : ℕ → Bool) (h : Tracks ρ s v) (hs : s.Inv)
    (hstep : p.step ok v = some (p', v')) (hok : ok' s.calls = ok v.calls) :
    ∃ s' ρ', p.step ok' s = some (p', s') ∧ Tracks ρ' s' v' ∧ s.created ≤ s'.created ∧
      (∀ l < s.created, ρ' l = ρ l) ∧ ∀ l, s.created ≤ l → l < s'.created → v.created ≤ ρ' l := by
  have hnone : ∀ l, s.created ≤ l → l < s.created → v.created ≤ ρ l := fun l hl hl' =>
    absurd hl (Nat.not_le.mpr hl')
  cases p with
  | done a => cases hstep
  | ensureLink port next =>
      cases hstep
      cases hslot : s.hostCmd port with
      | some l =>
          refine ⟨s, ρ, ?_, ?_, le_rfl, fun _ _ => rfl, hnone⟩
          · simp only [HostM.step, ensureLink, hslot]
          · simpa only [ensureLink, h.slot hslot] using h
      | none =>
          have hslot' := h.slot_none hslot
          simp only [HostM.step, ensureLink, linkCreate, hslot, hslot', hok]
          cases ok v.calls with
          | true =>
              refine ⟨_, _, rfl, h.create hs port _ _, Nat.le_succ _,
                fun l hl => Function.update_of_ne hl.ne _ _, fun l hl hl' => ?_⟩
              obtain rfl : l = s.created := le_antisymm (Nat.le_of_lt_succ hl') hl
              rw [Function.update_self]
          | false =>
              exact ⟨_, ρ, rfl, (h.called _ _).null port, le_rfl, fun _ _ => rfl, hnone⟩
  | queueCmd port cmd next =>
      cases hstep
      cases hslot : s.hostCmd port with
      | none =>
          refine ⟨s, ρ, ?_, ?_, le_rfl, fun _ _ => rfl, hnone⟩
          · simp only [HostM.step, hslot, h.slot_none hslot, queueCmd]
          · simpa only [h.slot_none hslot, queueCmd] using h
      | some l =>
          simp only [HostM.step, hslot, h.slot hslot, queueCmd, hok]
          exact ⟨_, ρ, rfl, h.queue (hs.lt_created hslot) cmd _ _ _, le_rfl, fun _ _ => rfl, hnone⟩
  | cmdBegin port next =>
      cases hstep
      cases hslot : s.hostCmd port with
      | none =>
          refine ⟨s, ρ, ?_, ?_, le_rfl, fun _ _ => rfl, hnone⟩
          · simp only [HostM.step, hslot, h.slot_none hslot, cmdBegin]
          · simpa only [h.slot_none hslot, cmdBegin] using h
      | some l =>
          simp only [HostM.step, hslot, h.slot hslot, cmdBegin, hok,
            h.queues l (hs.lt_created hslot)]
          exact ⟨_, ρ, rfl, h.event (.run port l (s.queues l) _) _ _, le_rfl, fun _ _ => rfl, hnone⟩
  | clear port next =>
      cases hstep
      refine ⟨_, ρ, rfl, ?_, ?_, fun _ _ => rfl, ?_⟩
      · unfold clear
        cases hslot : s.hostCmd port with
        | none =>
            rw [h.slot_none hslot]
            exact h.null port
        | some l =>
            rw [h.slot hslot]
            exact (h.event (.delete l) _ _).null port
      · unfold clear
        cases s.hostCmd port <;> exact le_rfl
      · unfold clear
        cases s.hostCmd port <;> exact hnone

theorem Tracks.initial (ρ : ℕ → ℕ) : Tracks ρ initial initial :=
  ⟨fun _ => rfl, nofun, rfl, nofun, nofun⟩

end I2c

end step

/-! ### Any number of threads -/

/-- Thread `t` is as it would be alone after `calls`, where `own` says which
thread a link belongs to. -/
structure I2cThreads.Alone {ι : Type} (g : I2cThreads ι) (own : ℕ → ι) (t : ι)
    (calls : List (Word × I2cOp)) (answers : ℕ → Bool) (ρ : ℕ → ℕ) (s : I2c) : Prop where
  run : ∀ ok, (∀ n < s.calls, ok n = answers n) → I2c.callAll ok calls = (g.call t).run ok s
  tracks : I2c.Tracks ρ s (g.view t)
  inv : s.Inv
  links : ∀ l < s.created, own (ρ l) = t

/-- What holds of every thread. -/
structure I2cThreads.Confined {ι : Type} (g : I2cThreads ι) (own : ℕ → ι) (t : ι)
    (calls : List (Word × I2cOp)) : Prop where
  inv : (g.view t).Inv
  events : ∀ e ∈ g.log t, own e.link = t
  alone : ∃ answers ρ s, g.Alone own t calls answers ρ s

section threads

variable {ι : Type} [DecidableEq ι] {ok : ℕ → Bool} {g g' : I2cThreads ι} {own own' : ℕ → ι}
  {t u : ι} {calls : List (Word × I2cOp)} {p : HostM Bool} {v : I2c} {ev : ThreadEvent ι}

open I2cThreads

@[simp] theorem I2cThreads.put_view (g : I2cThreads ι) (t : ι) (p : HostM Bool) (v : I2c) :
    (g.put t p v).view t = v := by simp [view, put]

omit [DecidableEq ι] in
/-- What is in a slot belongs to the thread. -/
theorem I2cThreads.Confined.slot (h : g.Confined own t calls) {port : Fin 2} {l : ℕ}
    (hslot : g.hostCmd t port = some l) : own l = t := by
  have hslot' : (g.view t).hostCmd port = some l := hslot
  exact h.events (.create l) (h.inv.accounted.slots port l hslot').1

/-- A step of another thread. -/
theorem I2cThreads.Confined.other (h : g.Confined own u calls) (hut : u ≠ t)
    (hslots : ∀ port l, g.hostCmd t port = some l → own l = t)
    (hown : ∀ l < g.created, own' l = own l)
    (hstep : (g.call t).step ok (g.view t) = some (p, v)) :
    (g.put t p v).Confined own' u calls := by
  obtain ⟨hcreated, hqueues, -⟩ := HostM.step_frame hstep
  have hcreated' : g.created ≤ v.created := hcreated
  have hview : (g.put t p v).view u = ⟨g.hostCmd u, v.created, v.queues, v.calls, g.log u⟩ := by
    simp [view, put, hut]
  have hcall : (g.put t p v).call u = g.call u := by simp [put, hut]
  have hsame : ∀ k < g.created, own k = u → v.queues k = g.queues k := fun k hk hku =>
    hqueues k hk fun port hport => hut (hku.symm.trans (hslots port k hport))
  obtain ⟨answers, ρ, s, halone⟩ := h.alone
  refine ⟨?_, fun e he => ?_, answers, ρ, s, ?_, ?_, halone.inv, fun l hl => ?_⟩
  · rw [hview]
    refine ⟨h.inv.owned, fun e he => (h.inv.created e he).trans_le hcreated', h.inv.apart,
      fun port l hl => ?_⟩
    exact (hsame l (h.inv.lt_created hl) (h.slot hl)).trans (h.inv.queued port l hl)
  · have he' : e ∈ g.log u := by simpa [put, hut] using he
    exact (hown _ (h.inv.created e he')).trans (h.events e he')
  · rw [hcall]
    exact halone.run
  · rw [hview]
    have htracks := halone.tracks
    exact ⟨htracks.slots, fun l hl =>
      (hsame _ (htracks.lt l hl) (halone.links l hl)).trans (htracks.queues l hl),
      htracks.log, fun l hl => (htracks.lt l hl).trans_le hcreated', htracks.inj⟩
  · exact (hown _ (halone.tracks.lt l hl)).trans (halone.links l hl)

/-- A step of the thread itself. -/
theorem I2cThreads.Confined.step (h : g.Confined own t calls)
    (hold : ∀ l < g.created, own' l = own l) (hnew : ∀ l, g.created ≤ l → own' l = t)
    (hstep : (g.call t).step ok (g.view t) = some (p, v)) :
    (g.put t p v).Confined own' t calls := by
  obtain ⟨hcreated, -, es, hlog, hes⟩ := HostM.step_frame hstep
  obtain ⟨answers, ρ, s, halone⟩ := h.alone
  obtain ⟨s', ρ', hstep', htracks, hle, hρ, hρ'⟩ :=
    I2c.Tracks.step (fun _ => ok g.calls) halone.tracks halone.inv hstep rfl
  have hinv' := HostM.step_inv hstep' halone.inv
  refine ⟨?_, fun e he => ?_, Function.update answers s.calls (ok g.calls), ρ', s', ?_, ?_, hinv',
    fun l hl => ?_⟩
  · rw [put_view]
    exact HostM.step_inv hstep h.inv
  · have he' : e ∈ g.log t ++ es := by
      have hlog' : v.log = g.log t ++ es := hlog
      rw [← hlog']
      simpa [put] using he
    obtain hbefore | hes' := List.mem_append.mp he'
    · exact (hold _ (h.inv.created e hbefore)).trans (h.events e hbefore)
    · obtain ⟨port, hport⟩ | hfresh := hes e hes'
      · exact (hold _ (h.inv.lt_created hport)).trans (h.slot hport)
      · exact hnew _ hfresh
  · intro ok' hok'
    obtain ⟨hsame, hcalls⟩ := HostM.step_congr ok' hstep' fun hlt => by
      rw [hok' _ hlt, Function.update_self]
    have hbefore : ∀ n < s.calls, ok' n = answers n := fun n hn => by
      rw [hok' n (hn.trans_le hcalls), Function.update_of_ne hn.ne]
    rw [halone.run ok' hbefore, HostM.run_step ok' hsame]
    simp [put]
  · rwa [put_view]
  · by_cases hlt : l < s.created
    · rw [hρ l hlt]
      exact (hold _ (halone.tracks.lt l hlt)).trans (halone.links l hlt)
    · exact hnew _ (hρ' l (Nat.not_lt.mp hlt) hl)

omit [DecidableEq ι] in
/-- The next call begins where the last one ended. -/
theorem I2cThreads.Confined.call (h : g.Confined own t calls) {b : Bool} (hb : g.call t = .done b)
    (c : Word × I2cOp) (call : ι → HostM Bool) (hcall : call t = i2cCallM c) :
    ({ g with call := call } : I2cThreads ι).Confined own t (calls ++ [c]) := by
  obtain ⟨answers, ρ, s, halone⟩ := h.alone
  refine ⟨h.inv, h.events, answers, ρ, s, fun ok hok => ?_, halone.tracks, halone.inv, halone.links⟩
  have hbefore := halone.run ok hok
  rw [hb] at hbefore
  show _ = (call t).run ok s
  rw [hcall, run_i2cCallM, I2c.callAll, List.foldl_append, ← I2c.callAll, hbefore]
  rfl

omit [DecidableEq ι] in
/-- Nothing that concerns the thread has changed. -/
theorem I2cThreads.Confined.same (h : g.Confined own t calls) {call : ι → HostM Bool}
    (hcall : call t = g.call t) (ended : ι → Bool) :
    ({ g with call := call, ended := ended } : I2cThreads ι).Confined own t calls := by
  obtain ⟨answers, ρ, s, halone⟩ := h.alone
  refine ⟨h.inv, h.events, answers, ρ, s, fun ok hok => ?_, halone.tracks, halone.inv, halone.links⟩
  exact (halone.run ok hok).trans (by rw [← hcall])

/-- The links of a thread that is alone are those of `I2c.exec`. -/
theorem I2c.callAll_snd (ok : ℕ → Bool) (calls : List (Word × I2cOp)) :
    (I2c.callAll ok calls).2 = calls.foldl (I2c.exec ok) .initial := by
  induction calls using List.reverseRecOn with
  | nil => rfl
  | append_singleton calls call ih =>
      rw [I2c.callAll, List.foldl_append, List.foldl_append, ← ih]
      exact I2c.call_snd ok _ call

theorem callsOf_snoc (t : ι) (ls : List (ThreadEvent ι)) (ev : ThreadEvent ι) :
    callsOf t (ls ++ [ev]) = callsOf t ls ++ callsOf t [ev] := List.filterMap_append

theorem ThreadStep.confined {ls : List (ThreadEvent ι)}
    (h : ∃ own, ∀ t, g.Confined own t (callsOf t ls)) (hstep : ThreadStep ok g ev g') :
    ∃ own, ∀ t, g'.Confined own t (callsOf t (ls ++ [ev])) := by
  obtain ⟨own, h⟩ := h
  simp only [callsOf_snoc]
  cases hstep with
  | @call t b c hb hended =>
      refine ⟨own, fun u => ?_⟩
      by_cases hu : u = t
      · subst hu
        have hcalls : callsOf u [.call u c] = [c] := by simp [callsOf]
        rw [hcalls]
        exact (h u).call hb c _ (Function.update_self ..)
      · have hcalls : callsOf u [.call t c] = [] := by simp [callsOf, Ne.symm hu]
        rw [hcalls, List.append_nil]
        exact (h u).same (Function.update_of_ne hu ..) g.ended
  | @step t p v hstep =>
      refine ⟨fun l => if l < g.created then own l else t, fun u => ?_⟩
      have hcalls : callsOf u [.step t] = [] := rfl
      rw [hcalls, List.append_nil]
      by_cases hu : u = t
      · subst hu
        exact (h u).step (fun l hl => if_pos hl) (fun l hl => if_neg (Nat.not_lt.mpr hl)) hstep
      · exact (h u).other hu (fun port l => (h t).slot) (fun l hl => if_pos hl) hstep
  | @exit t b hb hended =>
      refine ⟨own, fun u => ?_⟩
      have hcalls : callsOf u [.exit t] = [] := rfl
      rw [hcalls, List.append_nil]
      exact (h u).same rfl _

theorem I2cThreads.confined_of_run (t : ι) {ls : List (ThreadEvent ι)}
    (hrun : Run (ThreadStep ok) .initial ls g) :
    ∃ own, ∀ u, g.Confined own u (callsOf u ls) := by
  refine hrun.history (P := fun ls g => ∃ own, ∀ u, g.Confined own u (callsOf u ls))
    (fun _ _ _ _ h hstep => hstep.confined h) ⟨fun _ => t, fun u => ?_⟩
  exact ⟨.initial, nofun, fun _ => false, id, .initial, fun _ _ => rfl, .initial id, .initial,
    nofun⟩

/-- Nobody deletes what is in a slot. -/
theorem I2cThreads.not_deleted {ls : List (ThreadEvent ι)}
    (hrun : Run (ThreadStep ok) .initial ls g) {port : Fin 2} {l : ℕ}
    (hslot : g.hostCmd t port = some l) (u : ι) : .delete l ∉ g.log u := by
  intro hdelete
  obtain ⟨own, h⟩ := confined_of_run t hrun
  obtain rfl : u = t := ((h u).events _ hdelete).symm.trans ((h t).slot hslot)
  exact ((h u).inv.accounted.slots port l hslot).2 hdelete

/-- A thread that has ended does nothing any more. -/
theorem ThreadStep.ended (hstep : ThreadStep ok g ev g')
    (h : g.ended t = true ∧ ∃ b, g.call t = .done b) :
    (g'.ended t = true ∧ ∃ b, g'.call t = .done b) ∧ g'.hostCmd t = g.hostCmd t := by
  obtain ⟨hended, b, hb⟩ := h
  cases hstep with
  | @call u _ c _ hlive =>
      have hu : t ≠ u := by
        rintro rfl
        rw [hended] at hlive
        cases hlive
      exact ⟨⟨hended, b, (Function.update_of_ne hu ..).trans hb⟩, rfl⟩
  | @step u p v hstep =>
      have hu : t ≠ u := by
        rintro rfl
        rw [hb] at hstep
        cases hstep
      exact ⟨⟨hended, b, (Function.update_of_ne hu ..).trans hb⟩, Function.update_of_ne hu ..⟩
  | @exit u _ _ hlive =>
      have hu : t ≠ u := by
        rintro rfl
        rw [hended] at hlive
        cases hlive
      exact ⟨⟨(Function.update_of_ne hu ..).trans hended, b, hb⟩, rfl⟩

/-- Threads end between their calls. -/
theorem I2cThreads.done_of_ended {ls : List (ThreadEvent ι)}
    (hrun : Run (ThreadStep ok) .initial ls g) (hended : g.ended t = true) :
    ∃ b, g.call t = .done b := by
  refine hrun.invariant (P := fun g => g.ended t = true → ∃ b, g.call t = .done b)
    (fun g ev g' h hstep hended => ?_) (fun h => by cases h) hended
  by_cases hbefore : g.ended t = true
  · exact (hstep.ended ⟨hbefore, h hbefore⟩).1.2
  · cases hstep with
    | call c _ _ => exact absurd hended hbefore
    | step _ => exact absurd hended hbefore
    | @exit u b hb _ =>
        have hu : t = u := by
          by_contra hne
          exact hbefore ((Function.update_of_ne hne ..).symm.trans hended)
        exact ⟨b, hu ▸ hb⟩

/-- Whatever the other threads do, a thread has the results, the commands and the
links that it would have alone with some driver, where only the links have other
numbers, and no other thread does anything with its links. -/
theorem i2c_threads_alone {ls : List (ThreadEvent ι)} (hrun : Run (ThreadStep ok) .initial ls g)
    (t : ι) :
    ∃ ok' ρ s, I2c.callAll ok' (callsOf t ls) = (g.call t).run ok' s ∧
      I2c.Tracks ρ s (g.view t) ∧
      ∀ u, u ≠ t → ∀ e ∈ g.log u, ∀ l < s.created, e.link ≠ ρ l := by
  obtain ⟨own, h⟩ := confined_of_run t hrun
  obtain ⟨answers, ρ, s, halone⟩ := (h t).alone
  refine ⟨answers, ρ, s, halone.run answers fun _ _ => rfl, halone.tracks,
    fun u hu e he l hl heq => hu ?_⟩
  rw [← (h u).events e he, heq, halone.links l hl]

/-- Two threads begin a transaction on one interface, and one of them ends. -/
def sampleThreads : List (ThreadEvent Bool) :=
  [.call true (0, .start), .call false (0, .start), .step true, .step false, .step true,
    .step false, .exit true]

theorem exists_sample_threads : ∃ g : I2cThreads Bool,
    Run (ThreadStep fun _ => true) .initial sampleThreads g ∧ g.ended true = true ∧
      g.hostCmd true 0 = some 0 ∧ g.hostCmd false 0 = some 1 ∧ g.call false = .done true :=
  ⟨_, .cons (.call _ rfl rfl) (.cons (.call _ rfl rfl) (.cons (.step rfl) (.cons (.step rfl)
    (.cons (.step rfl) (.cons (.step rfl) (.cons (.exit rfl rfl) (.nil _))))))), rfl, rfl, rfl,
    rfl⟩

/-- The second thread does not notice the first one. -/
theorem i2c_threads_alone_sample : ∃ ok s l,
    I2c.callAll ok [(0, .start)] = (true, s) ∧ s.hostCmd 0 = some l := by
  obtain ⟨g, hrun, -, -, hslot, hdone⟩ := exists_sample_threads
  obtain ⟨ok', ρ, s, hcalls, htracks, -⟩ := i2c_threads_alone hrun false
  rw [hdone] at hcalls
  have hmap : some 1 = (s.hostCmd 0).map ρ := hslot.symm.trans (htracks.slots 0)
  obtain ⟨l, hl, -⟩ := Option.map_eq_some_iff.mp hmap.symm
  exact ⟨ok', s, l, hcalls, hl⟩

/-- The links of all threads are accounted for, and none is in two hands. What is
in a slot has not been deleted, and nobody ever deletes what is in the slot of a
thread that has ended. -/
theorem i2c_links_confined {ls : List (ThreadEvent ι)}
    (hrun : Run (ThreadStep ok) .initial ls g) (t : ι) :
    (g.view t).Accounted ∧
      (∀ u, u ≠ t → ∀ e ∈ g.log t, ∀ e' ∈ g.log u, e.link ≠ e'.link) ∧
      (∀ port l, g.hostCmd t port = some l →
        g.queues l = commands (g.log t) l ∧ ∀ u, .delete l ∉ g.log u) ∧
      ∀ ls' g', Run (ThreadStep ok) g ls' g' → g.ended t = true →
        ∀ port l, g.hostCmd t port = some l → ∀ u, .delete l ∉ g'.log u := by
  obtain ⟨own, h⟩ := confined_of_run t hrun
  refine ⟨(h t).inv.accounted, fun u hu e he e' he' heq => hu ?_, fun port l hslot =>
    ⟨(h t).inv.queued port l hslot, not_deleted hrun hslot⟩,
    fun ls' g' hrun' hended port l hslot => ?_⟩
  · rw [← (h u).events e' he', ← heq, (h t).events e he]
  · have hafter := hrun'.invariant
      (P := fun g' => (g'.ended t = true ∧ ∃ b, g'.call t = .done b) ∧ g'.hostCmd t = g.hostCmd t)
      (fun _ _ _ hg hstep => ⟨(hstep.ended hg.1).1, ((hstep.ended hg.1).2).trans hg.2⟩)
      ⟨⟨hended, done_of_ended hrun hended⟩, rfl⟩
    have hslot' : g'.hostCmd t port = some l := by rw [hafter.2, hslot]
    exact not_deleted (hrun.append hrun') hslot'

/-- The link of the first thread is never deleted. -/
theorem i2c_links_confined_sample : ∃ g : I2cThreads Bool,
    Run (ThreadStep fun _ => true) .initial sampleThreads g ∧
      ∀ ls' g', Run (ThreadStep fun _ => true) g ls' g' → ∀ u, .delete 0 ∉ g'.log u := by
  obtain ⟨g, hrun, hended, hslot, -⟩ := exists_sample_threads
  exact ⟨g, hrun, fun ls' g' hrun' =>
    (i2c_links_confined hrun true).2.2.2 ls' g' hrun' hended 0 0 hslot⟩

end threads

end BadgeElfloader.Abi
