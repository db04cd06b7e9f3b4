import BadgeElfloader.Abi.I2c
import Mathlib.Data.Finset.Option
import Mathlib.Data.Finset.Union

/-!
The command links of the I2C host are accounted for.

A call on a port builds on the link in its slot, and `Builds` composes over the
calls that one call makes. The calls that stop a transaction end in `Flushed`:
one link has been run with what was queued on it, and is gone.
-/

namespace BadgeElfloader.Abi

open Riscv (Word)
open Transition

/-- What an event does to the links. -/
def I2cEvent.action : I2cEvent → Action ℕ
  | create l => .acquire l
  | queue l _ _ | run _ l _ _ => .use l
  | delete l => .release l

def actions (log : List I2cEvent) : List (Action ℕ) := log.map I2cEvent.action

def I2cEvent.link : I2cEvent → ℕ
  | create l | queue l _ _ | run _ l _ _ | delete l => l

/-- The commands that were queued on a link. -/
def commands (log : List I2cEvent) (link : ℕ) : List I2cCmd :=
  log.filterMap fun
    | .queue l cmd true => if l = link then some cmd else none
    | _ => none

/-- The events of building a link. -/
def I2cEvent.Builds (link : ℕ) : I2cEvent → Prop
  | create l | queue l _ _ => l = link
  | _ => False

@[simp] theorem actions_append (log es : List I2cEvent) :
    actions (log ++ es) = actions log ++ actions es := List.map_append

@[simp] theorem actions_singleton (e : I2cEvent) : actions [e] = [e.action] := rfl

theorem count_acquire (log : List I2cEvent) (l : ℕ) :
    (actions log).count (.acquire l) = log.count (.create l) := by
  induction log with
  | nil => rfl
  | cons e log ih =>
      rw [actions, List.map_cons, List.count_cons, List.count_cons, ← actions, ih]
      cases e <;> simp [I2cEvent.action]

theorem count_release (log : List I2cEvent) (l : ℕ) :
    (actions log).count (.release l) = log.count (.delete l) := by
  induction log with
  | nil => rfl
  | cons e log ih =>
      rw [actions, List.map_cons, List.count_cons, List.count_cons, ← actions, ih]
      cases e <;> simp [I2cEvent.action]

@[simp] theorem commands_append (log es : List I2cEvent) (l : ℕ) :
    commands (log ++ es) l = commands log l ++ commands es l := List.filterMap_append

theorem commands_queue (k l : ℕ) (cmd : I2cCmd) (q : Bool) :
    commands [.queue k cmd q] l = if q = true ∧ k = l then [cmd] else [] := by
  by_cases hk : k = l
  · cases q <;> simp [commands, hk]
  · cases q <;> simp [commands, hk]

theorem commands_eq_nil {log : List I2cEvent} {l : ℕ} (h : ∀ e ∈ log, e.link ≠ l) :
    commands log l = [] := by
  refine List.filterMap_eq_nil_iff.mpr fun e he => ?_
  have hne := h e he
  cases e with
  | queue k cmd q => cases q <;> simp_all [I2cEvent.link]
  | _ => rfl

theorem I2cEvent.link_of_acquire {e : I2cEvent} {l : ℕ} (h : e.action = .acquire l) :
    e.link = l := by
  cases e <;> cases h
  rfl

namespace I2c

/-- The links in the slots. -/
def links (s : I2c) : Finset ℕ := Finset.univ.biUnion fun port => (s.hostCmd port).toFinset

structure Inv (s : I2c) : Prop where
  owned : Owned (actions s.log) s.links
  created : ∀ e ∈ s.log, e.link < s.created
  apart : ∀ p q l, s.hostCmd p = some l → s.hostCmd q = some l → p = q
  queued : ∀ p l, s.hostCmd p = some l → s.queues l = commands s.log l

/-- From `s` to `t` the driver was asked for links only, and had none. -/
structure Refused (ok : ℕ → Bool) (s t : I2c) : Prop where
  calls : s.calls ≤ t.calls
  same : t = { s with calls := t.calls }
  refused : ∀ n, s.calls ≤ n → n < t.calls → (linkCreate ok { s with calls := n }).1 = none

/-- What the calls on `port` that led from `s` to `t` have done, short of
stopping: they have built on one link. -/
structure Builds (ok : ℕ → Bool) (port : Fin 2) (s t : I2c) : Prop where
  inv : s.Inv → t.Inv
  others : ∀ p, p ≠ port → t.hostCmd p = s.hostCmd p
  kept : ∀ l, s.hostCmd port = some l → t.hostCmd port = some l
  unlinked : t.hostCmd port = none → Refused ok s t
  linked : ∀ l, t.hostCmd port = some l → ∃ es, t.log = s.log ++ es ∧ (∀ e ∈ es, e.Builds l) ∧
    (s.hostCmd port = some l ∨ .create l ∈ es)

section links

variable {s t u : I2c} {port : Fin 2} {l : ℕ}

theorem mem_links : l ∈ s.links ↔ ∃ port, s.hostCmd port = some l := by
  simp only [links, Finset.mem_biUnion, Finset.mem_univ, true_and, Option.mem_toFinset,
    Option.mem_def]

theorem links_update (s : I2c) (hslot : s.hostCmd port = none) (created calls : ℕ)
    (queues : ℕ → List I2cCmd) (log : List I2cEvent) :
    links ⟨Function.update s.hostCmd port (some l), created, queues, calls, log⟩ =
      insert l s.links := by
  ext k
  simp only [mem_links, Finset.mem_insert, Function.update_apply]
  constructor
  · rintro ⟨p, hp⟩
    split at hp
    · exact .inl (Option.some.inj hp).symm
    · exact .inr ⟨p, hp⟩
  · rintro (rfl | ⟨p, hp⟩)
    · exact ⟨port, if_pos rfl⟩
    · refine ⟨p, ?_⟩
      rw [if_neg, hp]
      rintro rfl
      rw [hslot] at hp
      cases hp

theorem links_clear (s : I2c)
    (happart : ∀ p q l, s.hostCmd p = some l → s.hostCmd q = some l → p = q)
    (hslot : s.hostCmd port = some l) (created calls : ℕ) (queues : ℕ → List I2cCmd)
    (log : List I2cEvent) :
    links ⟨Function.update s.hostCmd port none, created, queues, calls, log⟩ = s.links.erase l := by
  ext k
  simp only [mem_links, Finset.mem_erase, Function.update_apply]
  constructor
  · rintro ⟨p, hp⟩
    split at hp
    · cases hp
    · rename_i hne
      refine ⟨?_, p, hp⟩
      rintro rfl
      exact hne (happart p port k hp hslot)
  · rintro ⟨hne, p, hp⟩
    refine ⟨p, ?_⟩
    rw [if_neg, hp]
    rintro rfl
    exact hne (Option.some.inj (hp.symm.trans hslot))

theorem Inv.initial : initial.Inv where
  owned := Owned.nil
  created := nofun
  apart := nofun
  queued := nofun

/-- No event is about a link that is not there yet. -/
theorem Inv.fresh (h : s.Inv) : .acquire s.created ∉ actions s.log := by
  intro hmem
  obtain ⟨e, he, hacquire⟩ := List.mem_map.mp hmem
  have hlt := h.created e he
  rw [I2cEvent.link_of_acquire hacquire] at hlt
  exact lt_irrefl _ hlt

theorem Inv.lt_created (h : s.Inv) (hslot : s.hostCmd port = some l) : l < s.created := by
  have hacquire := h.owned.acquired (mem_links.mpr ⟨port, hslot⟩)
  obtain ⟨e, he, heq⟩ := List.mem_map.mp hacquire
  rw [← I2cEvent.link_of_acquire heq]
  exact h.created e he

theorem Inv.create (h : s.Inv) (hslot : s.hostCmd port = none) (calls : ℕ) :
    Inv ⟨Function.update s.hostCmd port (some s.created), s.created + 1,
      Function.update s.queues s.created [], calls, s.log ++ [.create s.created]⟩ where
  owned := by
    rw [links_update s hslot]
    simpa [I2cEvent.action] using h.owned.acquire h.fresh
  created e he := by
    obtain hold | hnew := List.mem_append.mp he
    · exact Nat.lt_succ_of_lt (h.created e hold)
    · rw [List.mem_singleton.mp hnew]
      exact Nat.lt_succ_self _
  apart p q l hp hq := by
    simp only [Function.update_apply] at hp hq
    split at hp <;> split at hq
    · rename_i hp' hq'
      rw [hp', hq']
    · cases hp
      exact absurd (h.lt_created hq) (lt_irrefl _)
    · cases hq
      exact absurd (h.lt_created hp) (lt_irrefl _)
    · exact h.apart p q l hp hq
  queued p l hp := by
    simp only [Function.update_apply] at hp ⊢
    rw [commands_append]
    split at hp
    · cases hp
      rw [if_pos rfl, commands_eq_nil fun e he => (h.created e he).ne]
      rfl
    · rw [if_neg (h.lt_created hp).ne, h.queued p l hp]
      simp [commands]

/-- Only the number of calls changes. -/
theorem Inv.called (h : s.Inv) (calls : ℕ) : Inv { s with calls := calls } :=
  ⟨h.owned, h.created, h.apart, h.queued⟩

theorem Inv.queue (h : s.Inv) (hslot : s.hostCmd port = some l) (cmd : I2cCmd) (q : Bool)
    (calls : ℕ) :
    Inv { s with
      queues := if q then Function.update s.queues l (s.queues l ++ [cmd]) else s.queues
      calls := calls
      log := s.log ++ [.queue l cmd q] } where
  owned := by
    rw [actions_append]
    exact h.owned.use (mem_links.mpr ⟨port, hslot⟩)
  created e he := by
    obtain hold | hnew := List.mem_append.mp he
    · exact h.created e hold
    · rw [List.mem_singleton.mp hnew]
      exact h.lt_created hslot
  apart := h.apart
  queued p k hp := by
    simp only at hp ⊢
    rw [commands_append, commands_queue, ← h.queued p k hp]
    by_cases hk : l = k
    · subst hk
      cases q <;> simp
    · cases q <;> simp [hk, Ne.symm hk]

theorem Inv.ran (h : s.Inv) (hslot : s.hostCmd port = some l) (cmds : List I2cCmd) (b : Bool)
    (calls : ℕ) :
    Inv { s with calls := calls, log := s.log ++ [.run port l cmds b] } where
  owned := by
    rw [actions_append]
    exact h.owned.use (mem_links.mpr ⟨port, hslot⟩)
  created e he := by
    obtain hold | hnew := List.mem_append.mp he
    · exact h.created e hold
    · rw [List.mem_singleton.mp hnew]
      exact h.lt_created hslot
  apart := h.apart
  queued p k hp := by
    simp only at hp ⊢
    rw [commands_append, h.queued p k hp]
    simp [commands]

theorem Inv.delete (h : s.Inv) (hslot : s.hostCmd port = some l) :
    Inv { s with
      hostCmd := Function.update s.hostCmd port none
      log := s.log ++ [.delete l] } where
  owned := by
    rw [links_clear s h.apart hslot]
    simpa [I2cEvent.action] using h.owned.release (mem_links.mpr ⟨port, hslot⟩)
  created e he := by
    obtain hold | hnew := List.mem_append.mp he
    · exact h.created e hold
    · rw [List.mem_singleton.mp hnew]
      exact h.lt_created hslot
  apart p q k hp hq := by
    simp only [Function.update_apply] at hp hq
    split at hp
    · cases hp
    · split at hq
      · cases hq
      · exact h.apart p q k hp hq
  queued p k hp := by
    simp only [Function.update_apply] at hp ⊢
    split at hp
    · cases hp
    · rw [commands_append, h.queued p k hp]
      simp [commands]

/-! ### Building on a link -/

variable {ok : ℕ → Bool}

theorem Refused.refl (ok : ℕ → Bool) (s : I2c) : Refused ok s s where
  calls := le_rfl
  same := rfl
  refused _ hle hlt := absurd hle (Nat.not_le_of_lt hlt)

theorem Refused.trans (h : Refused ok s t) (h' : Refused ok t u) : Refused ok s u where
  calls := h.calls.trans h'.calls
  same := by
    have hu := h'.same
    rw [h.same] at hu
    exact hu
  refused n hle hlt := by
    obtain hold | hnew := lt_or_ge n t.calls
    · exact h.refused n hle hold
    · have hn := h'.refused n hnew hlt
      rwa [h.same] at hn

theorem Builds.refl (ok : ℕ → Bool) (port : Fin 2) (s : I2c) : Builds ok port s s where
  inv := id
  others _ _ := rfl
  kept _ := id
  unlinked _ := .refl ok s
  linked _ hl := ⟨[], (List.append_nil _).symm, nofun, .inl hl⟩

theorem Builds.slot_none (h : Builds ok port s t) (ht : t.hostCmd port = none) :
    s.hostCmd port = none := by
  by_contra hne
  obtain ⟨l, hl⟩ := Option.ne_none_iff_exists'.mp hne
  rw [h.kept l hl] at ht
  cases ht

theorem Builds.trans (h : Builds ok port s t) (h' : Builds ok port t u) : Builds ok port s u where
  inv := h'.inv ∘ h.inv
  others p hp := (h'.others p hp).trans (h.others p hp)
  kept l hl := h'.kept l (h.kept l hl)
  unlinked hu := (h.unlinked (h'.slot_none hu)).trans (h'.unlinked hu)
  linked l hl := by
    obtain ⟨es', hlog', hes', hlink'⟩ := h'.linked l hl
    cases ht : t.hostCmd port with
    | none =>
        rw [(h.unlinked ht).same] at hlog'
        exact ⟨es', hlog', hes', .inr (hlink'.resolve_left (by rw [ht]; nofun))⟩
    | some k =>
        obtain rfl := Option.some.inj ((h'.kept k ht).symm.trans hl)
        obtain ⟨es, hlog, hes, hlink⟩ := h.linked k ht
        refine ⟨es ++ es', by rw [hlog', hlog, List.append_assoc], fun e he => ?_, ?_⟩
        · exact (List.mem_append.mp he).elim (hes e) (hes' e)
        · exact hlink.imp_right (List.mem_append_left _)

theorem ensureLink_builds (ok : ℕ → Bool) (s : I2c) (port : Fin 2) :
    Builds ok port s (s.ensureLink ok port) := by
  unfold ensureLink linkCreate
  cases hslot : s.hostCmd port with
  | some l => exact .refl ok port s
  | none =>
      dsimp only
      split
      · refine ⟨fun h => h.create hslot _, fun p hp => Function.update_of_ne hp _ _,
          fun l hl => ?_, fun ht => ?_, fun l hl => ?_⟩
        · rw [hslot] at hl
          cases hl
        · simp at ht
        · obtain rfl : s.created = l := by simpa using hl
          exact ⟨[.create s.created], rfl, by simp [I2cEvent.Builds], .inr (by simp)⟩
      · rename_i hfails
        have hsame : Function.update s.hostCmd port none = s.hostCmd := by
          rw [← hslot, Function.update_eq_self]
        rw [hsame]
        refine ⟨fun h => h.called _, fun _ _ => rfl, fun _ => id, fun _ => ?_,
          fun l hl => ⟨[], (List.append_nil _).symm, nofun, .inl hl⟩⟩
        refine ⟨Nat.le_succ _, rfl, fun n hle hlt => ?_⟩
        obtain rfl : n = s.calls := by
          simp only at hlt
          omega
        rw [linkCreate, if_neg hfails]

/-- Where there is no link behind `ensureLink`, one was asked for. -/
theorem calls_lt_ensureLink (ht : (s.ensureLink ok port).hostCmd port = none) :
    s.calls < (s.ensureLink ok port).calls := by
  unfold ensureLink linkCreate at *
  cases hslot : s.hostCmd port with
  | some l => simp [hslot] at ht
  | none =>
      dsimp only
      split <;> exact Nat.lt_succ_self _

theorem queueCmd_builds (ok : ℕ → Bool) (s : I2c) (port : Fin 2) (cmd : I2cCmd) :
    Builds ok port s (s.queueCmd ok cmd (s.hostCmd port)).2 := by
  cases hslot : s.hostCmd port with
  | none => exact .refl ok port s
  | some l =>
      refine ⟨fun h => h.queue hslot cmd _ _, fun _ _ => rfl, fun _ => id, fun ht => ?_,
        fun k hk => ?_⟩
      · cases hslot.symm.trans ht
      · obtain rfl := Option.some.inj (hslot.symm.trans hk)
        exact ⟨_, rfl, by simp [I2cEvent.Builds], .inl hslot⟩

/-! ### Running a link -/

/-- The calls on `port` that led from `s` to `t` have ended a transaction. If a
link was there or could be created, it has been run with the commands that were
queued on it, and deleted; if not, the last call has asked for one as well. -/
structure Flushed (ok : ℕ → Bool) (port : Fin 2) (s t : I2c) : Prop where
  slot : t.hostCmd port = none
  others : ∀ p, p ≠ port → t.hostCmd p = s.hostCmd p
  ran : (s.hostCmd port = none ∧ s.calls < t.calls ∧ Refused ok s t) ∨
    ∃ l es stopped ran, (∀ e ∈ es, e.Builds l) ∧ (s.hostCmd port = some l ∨ .create l ∈ es) ∧
      t.log = s.log ++ es ++ [.queue l .stop stopped,
        .run port l (commands (s.log ++ es) l ++ if stopped then [.stop] else []) ran, .delete l]

theorem Builds.finish (h : Builds ok port s t) (hs : s.Inv) :
    Flushed ok port s ((t.ensureLink ok port).finish ok port).2 ∧
      ((t.ensureLink ok port).finish ok port).2.Inv := by
  have hu := h.trans (ensureLink_builds ok t port)
  have hinv := hu.inv hs
  unfold I2c.finish
  cases hslot : (t.ensureLink ok port).hostCmd port with
  | none =>
      have hsame : Function.update (t.ensureLink ok port).hostCmd port none =
          (t.ensureLink ok port).hostCmd := by
        rw [← hslot, Function.update_eq_self]
      have hlt : s.calls < (t.ensureLink ok port).calls := by
        have hasked := calls_lt_ensureLink hslot
        have hle := (h.unlinked ((ensureLink_builds ok t port).slot_none hslot)).calls
        omega
      simp only [queueCmd, cmdBegin, linkDelete, hsame]
      exact ⟨⟨hslot, hu.others, .inl ⟨hu.slot_none hslot, hlt, hu.unlinked hslot⟩⟩, hinv⟩
  | some l =>
      generalize t.ensureLink ok port = t at hu hinv hslot ⊢
      obtain ⟨es, hlog, hes, hlink⟩ := hu.linked l hslot
      have hqueue := hinv.queue hslot .stop (ok t.calls) (t.calls + 1)
      have hcmds := hqueue.queued port l hslot
      refine ⟨⟨Function.update_self _ _ _, fun p hp => ?_, .inr ⟨l, es, ok t.calls,
        ok (t.calls + 1), hes, hlink, ?_⟩⟩, ?_⟩
      · exact (Function.update_of_ne hp _ _).trans (hu.others p hp)
      · simp only [queueCmd, cmdBegin, linkDelete] at hcmds ⊢
        rw [hcmds, hlog, commands_append _ [_], commands_queue]
        simp
      · exact (hqueue.ran hslot _ _ _).delete hslot

end links

end I2c

/-! ### The calls -/

section calls

variable {ok : ℕ → Bool} {s t u : I2c} {interface : Word}

/-- `Builds` for the port of an interface. A call on any other interface changes
nothing. -/
def BuildsOn (ok : ℕ → Bool) (interface : Word) (s t : I2c) : Prop :=
  match i2cPort interface with
  | none => t = s
  | some port => I2c.Builds ok port s t

theorem BuildsOn.refl (ok : ℕ → Bool) (interface : Word) (s : I2c) :
    BuildsOn ok interface s s := by
  unfold BuildsOn
  cases i2cPort interface with
  | none => rfl
  | some port => exact .refl ok port s

theorem BuildsOn.trans (h : BuildsOn ok interface s t) (h' : BuildsOn ok interface t u) :
    BuildsOn ok interface s u := by
  unfold BuildsOn at *
  cases hport : i2cPort interface with
  | none =>
      simp only [hport] at h h'
      exact h'.trans h
  | some port =>
      simp only [hport] at h h'
      exact I2c.Builds.trans h h'

theorem BuildsOn.andThen {res : Bool × I2c} {f : I2c → Bool × I2c}
    (h : BuildsOn ok interface s res.2) (hf : ∀ t, BuildsOn ok interface t (f t).2) :
    BuildsOn ok interface s (I2c.andThen res f).2 := by
  unfold I2c.andThen
  split
  · exact h.trans (hf _)
  · exact h

theorem i2cHostQueue_builds (ok : ℕ → Bool) (s : I2c) (interface : Word) (cmd : I2cCmd) :
    BuildsOn ok interface s (i2cHostQueue ok s interface cmd).2 := by
  unfold BuildsOn i2cHostQueue
  cases i2cPort interface with
  | none => rfl
  | some port => exact (I2c.ensureLink_builds ok s port).trans (I2c.queueCmd_builds ok _ port cmd)

theorem i2cHostWriteAddr_builds (ok : ℕ → Bool) (s : I2c) (interface device : Word)
    (readBit : Bool) :
    BuildsOn ok interface s (i2cHostWriteAddr ok s interface device readBit).2 := by
  unfold i2cHostWriteAddr
  dsimp only
  split
  · exact .refl ok interface s
  · split
    · exact (i2cHostQueue_builds ok s interface _).andThen fun t =>
        i2cHostQueue_builds ok t interface _
    · exact i2cHostQueue_builds ok s interface _

/-- `Flushed` for the port of an interface. -/
def FlushedOn (ok : ℕ → Bool) (interface : Word) (s t : I2c) : Prop :=
  match i2cPort interface with
  | none => t = s
  | some port => I2c.Flushed ok port s t ∧ t.Inv

theorem BuildsOn.stop (h : BuildsOn ok interface s t) (hs : s.Inv) :
    FlushedOn ok interface s (i2cHostStop ok t interface).2 := by
  unfold FlushedOn i2cHostStop
  unfold BuildsOn at h
  cases hport : i2cPort interface with
  | none => simpa only [hport] using h
  | some port =>
      simp only [hport] at h
      exact h.finish hs

/-- A call that does not stop the transaction. -/
theorem I2c.exec_builds (ok : ℕ → Bool) (s : I2c) (interface : Word) (op : I2cOp)
    (hop : op.stops = false) : BuildsOn ok interface s (s.exec ok (interface, op)) := by
  cases op with
  | start => exact i2cHostQueue_builds ok s interface _
  | writeAddr device readBit => exact i2cHostWriteAddr_builds ok s interface device readBit
  | writeByte sendByte => exact i2cHostQueue_builds ok s interface _
  | readByte recvByte => exact i2cHostQueue_builds ok s interface _
  | writeBytes sendBuf => exact i2cHostQueue_builds ok s interface _
  | readBytes recvBuf recvLen => exact i2cHostQueue_builds ok s interface _
  | stop => cases hop
  | writeTo device sendBuf => cases hop
  | readFrom device recvBuf recvLen => cases hop

theorem addressed_builds (ok : ℕ → Bool) (s : I2c) (interface device : Word) (readBit : Bool) :
    BuildsOn ok interface s (I2c.andThen (i2cHostStart ok s interface) fun s =>
      i2cHostWriteAddr ok s interface device readBit).2 :=
  (i2cHostQueue_builds ok s interface _).andThen fun t =>
    i2cHostWriteAddr_builds ok t interface device readBit

/-- A call that stops the transaction, whatever it did before. -/
theorem I2c.exec_flushed (ok : ℕ → Bool) (s : I2c) (interface : Word) (op : I2cOp)
    (hop : op.stops = true) (hs : s.Inv) :
    FlushedOn ok interface s (s.exec ok (interface, op)) := by
  cases op with
  | stop => exact (BuildsOn.refl ok interface s).stop hs
  | writeTo device sendBuf =>
      exact ((addressed_builds ok s interface device false).andThen fun t =>
        i2cHostQueue_builds ok t interface _).stop hs
  | readFrom device recvBuf recvLen =>
      exact ((addressed_builds ok s interface device true).andThen fun t =>
        i2cHostQueue_builds ok t interface _).stop hs
  | _ => cases hop

theorem I2c.Inv.exec (hs : s.Inv) (ok : ℕ → Bool) (call : Word × I2cOp) :
    (s.exec ok call).Inv := by
  obtain ⟨interface, op⟩ := call
  cases hop : op.stops with
  | false =>
      have hbuilds := s.exec_builds ok interface op hop
      unfold BuildsOn at hbuilds
      split at hbuilds
      · rwa [hbuilds]
      · exact hbuilds.inv hs
  | true =>
      have hflushed := s.exec_flushed ok interface op hop hs
      unfold FlushedOn at hflushed
      split at hflushed
      · rwa [hflushed]
      · exact hflushed.2

/-- Every link that was created is in one slot, or it has been deleted once; a
link that is deleted or not yet created is never used. -/
structure I2c.Accounted (s : I2c) : Prop where
  legal : ∃ held, Owned (actions s.log) held
  slots : ∀ port l, s.hostCmd port = some l → .create l ∈ s.log ∧ .delete l ∉ s.log
  apart : ∀ p q l, s.hostCmd p = some l → s.hostCmd q = some l → p = q
  created : ∀ l, s.log.count (.create l) ≤ 1
  once : ∀ l, .create l ∈ s.log → (∀ port, s.hostCmd port ≠ some l) → s.log.count (.delete l) = 1

/-- What a call that led from `s` to `t` may do to the slots, and what it does if
it stops the transaction. -/
structure I2c.Contained (ok : ℕ → Bool) (call : Word × I2cOp) (s t : I2c) : Prop where
  invalid : call.1 ≠ 0 → call.1 ≠ 1 → t = s
  others : ∀ port, i2cPort call.1 ≠ some port → t.hostCmd port = s.hostCmd port
  flushes : call.2.stops → ∀ port, i2cPort call.1 = some port → I2c.Flushed ok port s t

theorem I2c.Inv.accounted (h : s.Inv) : s.Accounted where
  legal := ⟨s.links, h.owned⟩
  slots port l hslot := by
    have hmem := mem_links.mpr ⟨port, hslot⟩
    have hcreate := h.owned.acquired hmem
    have hdelete := h.owned.count_release hcreate
    rw [if_pos hmem, count_release, List.count_eq_zero] at hdelete
    rw [← List.count_pos_iff, count_acquire, List.count_pos_iff] at hcreate
    exact ⟨hcreate, hdelete⟩
  apart := h.apart
  created l := by
    rw [← count_acquire]
    exact h.owned.count_acquire_le l
  once l hcreate hslots := by
    rw [← List.count_pos_iff, ← count_acquire, List.count_pos_iff] at hcreate
    have hmem : l ∉ s.links := fun hmem =>
      have ⟨port, hslot⟩ := mem_links.mp hmem
      hslots port hslot
    rw [← count_release, h.owned.count_release hcreate, if_neg hmem]

theorem i2cPort_eq_none (h0 : interface ≠ 0) (h1 : interface ≠ 1) : i2cPort interface = none := by
  rw [i2cPort, if_neg h0, if_neg h1]

theorem I2c.Inv.contained (h : s.Inv) (ok : ℕ → Bool) (call : Word × I2cOp) :
    Contained ok call s (s.exec ok call) := by
  obtain ⟨interface, op⟩ := call
  cases hop : op.stops with
  | false =>
      have hbuilds := s.exec_builds ok interface op hop
      unfold BuildsOn at hbuilds
      refine ⟨fun h0 h1 => ?_, fun port hport => ?_, fun hstops => ?_⟩
      · rwa [i2cPort_eq_none h0 h1] at hbuilds
      · split at hbuilds
        · rw [hbuilds]
        · rename_i p hp
          exact hbuilds.others port fun heq => hport (heq ▸ hp)
      · rw [hop] at hstops
        cases hstops
  | true =>
      have hflushed := s.exec_flushed ok interface op hop h
      unfold FlushedOn at hflushed
      refine ⟨fun h0 h1 => ?_, fun port hport => ?_, fun _ port hport => ?_⟩
      · rwa [i2cPort_eq_none h0 h1] at hflushed
      · split at hflushed
        · rw [hflushed]
        · rename_i p hp
          exact hflushed.1.others port fun heq => hport (heq ▸ hp)
      · rw [hport] at hflushed
        exact hflushed.1

theorem I2c.Inv.calls (h : s.Inv) (ok : ℕ → Bool) (calls : List (Word × I2cOp)) :
    (calls.foldl (I2c.exec ok) s).Inv := by
  induction calls generalizing s with
  | nil => exact h
  | cons call calls ih => exact ih (h.exec ok call)

/-- After any calls the links are accounted for, and so they are in the next. -/
theorem i2c_links_accounted (ok : ℕ → Bool) (calls : List (Word × I2cOp)) :
    (calls.foldl (I2c.exec ok) .initial).Accounted ∧
      ∀ call, I2c.Contained ok call (calls.foldl (I2c.exec ok) .initial)
        ((calls.foldl (I2c.exec ok) .initial).exec ok call) := by
  have hinv := I2c.Inv.initial.calls ok calls
  exact ⟨hinv.accounted, hinv.contained ok⟩

end calls

end BadgeElfloader.Abi
