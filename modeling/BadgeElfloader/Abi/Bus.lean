import BadgeElfloader.Abi.Links

/-!
What the commands of a link do on the bus, and which commands a call puts there.

A call that queues commands is described by `Queued`, which composes as the
calls do. It counts the calls of the driver, and so says exactly which of them
have to succeed.
-/

namespace BadgeElfloader.Abi

open Riscv (Word)

/-! ### The bus -/

/-- What the host does on the bus. A byte that it receives is acknowledged or not. -/
inductive BusEvent
  | start
  | stop
  | sent (byte : BitVec 8)
  | received (acked : Bool)
  deriving DecidableEq

/-- How `n` bytes are acknowledged. -/
def I2cAck.acks (n : ℕ) : I2cAck → List Bool
  | ack => List.replicate n true
  | nack => List.replicate n false
  | lastNack => List.replicate (n - 1) true ++ List.replicate (min n 1) false

/-- What the driver does for a command. -/
def I2cCmd.bus : I2cCmd → List BusEvent
  | start => [.start]
  | stop => [.stop]
  | writeByte data _ => [.sent data]
  | write data _ => data.map .sent
  | readByte _ ackType => (ackType.acks 1).map .received
  | read _ len ackType => (ackType.acks len.toNat).map .received

/-- A start condition begins a new list of bytes. -/
def BusEvent.collect (bytes : List (BitVec 8)) : BusEvent → List (BitVec 8)
  | start => []
  | sent byte => bytes ++ [byte]
  | _ => bytes

/-- The bytes that are sent behind the last start condition. -/
def sentBytes (es : List BusEvent) : List (BitVec 8) := es.foldl BusEvent.collect []

/-- How the bytes that are received are acknowledged. -/
def receivedAcks (es : List BusEvent) : List Bool :=
  es.filterMap fun
    | .received acked => some acked
    | _ => none

/-- Where a master is in a transaction. -/
inductive BusPhase
  | idle
  | address
  | sending
  | receiving
  deriving DecidableEq

/-- The first byte behind a start condition is an address, and its R/W bit says
who sends from there on. -/
def BusPhase.next : BusPhase → BusEvent → Option BusPhase
  | _, .start => some .address
  | _, .stop => some .idle
  | address, .sent byte => some (if byte.getLsbD 0 then receiving else sending)
  | sending, .sent _ => some sending
  | receiving, .received _ => some receiving
  | _, _ => none

def BusPhase.run (p : BusPhase) (es : List BusEvent) : Option BusPhase := es.foldlM next p

/-- A transaction that reads `n > 0` bytes: the bus has one sender at a time, and
only the last byte is not acknowledged. -/
structure LegalRead (n : ℕ) (es : List BusEvent) : Prop where
  phases : BusPhase.idle.run es = some .idle
  acks : receivedAcks es = List.replicate (n - 1) true ++ [false]

theorem BusPhase.run_append (p : BusPhase) (es es' : List BusEvent) :
    p.run (es ++ es') = (p.run es).bind fun q => q.run es' := List.foldlM_append

theorem BusPhase.receiving_run (acks : List Bool) :
    receiving.run (acks.map .received) = some receiving := by
  induction acks with
  | nil => rfl
  | cons acked acks ih => exact ih

theorem receivedAcks_append (es es' : List BusEvent) :
    receivedAcks (es ++ es') = receivedAcks es ++ receivedAcks es' := List.filterMap_append

theorem receivedAcks_map_received (acks : List Bool) :
    receivedAcks (acks.map .received) = acks := by
  induction acks with
  | nil => rfl
  | cons acked acks ih => exact congrArg (acked :: ·) ih

theorem receivedAcks_map_sent (bytes : List (BitVec 8)) : receivedAcks (bytes.map .sent) = [] := by
  induction bytes with
  | nil => rfl
  | cons byte bytes ih => exact ih

theorem foldl_collect_sent (bytes sent : List (BitVec 8)) :
    (bytes.map .sent).foldl BusEvent.collect sent = sent ++ bytes := by
  induction bytes generalizing sent with
  | nil => exact (List.append_nil sent).symm
  | cons byte bytes ih =>
      rw [List.map_cons, List.foldl_cons, ih, BusEvent.collect, List.append_assoc]
      rfl

/-- What was on the bus before the start condition does not matter. -/
theorem sentBytes_start (es : List BusEvent) (bytes : List (BitVec 8)) :
    sentBytes (es ++ .start :: bytes.map .sent ++ [.stop]) = bytes := by
  rw [sentBytes, List.foldl_append, List.foldl_append]
  show (bytes.map .sent).foldl BusEvent.collect [] = bytes
  rw [foldl_collect_sent, List.nil_append]

/-! ### What is queued and run -/

namespace I2c

/-- The commands that wait on a port. -/
def pending (s : I2c) (port : Fin 2) : List I2cCmd := (s.hostCmd port).elim [] s.queues

/-- The calls of the driver that create the context of a port. -/
def opening (s : I2c) (port : Fin 2) : ℕ := if s.hostCmd port = none then 1 else 0

/-- The next `n` calls of the driver succeed. -/
def Succeeds (ok : ℕ → Bool) (s : I2c) (n : ℕ) : Prop := ∀ i < n, ok (s.calls + i) = true

instance (ok : ℕ → Bool) (s : I2c) (n : ℕ) : Decidable (s.Succeeds ok n) :=
  inferInstanceAs (Decidable (∀ i < n, _))

/-- The commands that were run last. -/
def lastRun (s : I2c) : List I2cCmd :=
  (s.log.filterMap fun
    | .run _ _ cmds _ => some cmds
    | _ => none).getLast?.getD []

/-- What the last run did on the bus. -/
def lastBus (s : I2c) : List BusEvent := s.lastRun.flatMap I2cCmd.bus

/-- A call at `s` has queued `cmds` on the link of `port` if all it asked of the
driver has succeeded, and else it has failed. -/
structure Queued (ok : ℕ → Bool) (port : Fin 2) (s : I2c) (cmds : List I2cCmd)
    (res : Bool × I2c) : Prop where
  succeeds : res.1 = true ↔ s.Succeeds ok (s.opening port + cmds.length)
  linked : res.1 = true → (res.2.hostCmd port).isSome
  calls : res.1 = true → res.2.calls = s.calls + s.opening port + cmds.length
  pending : res.1 = true → res.2.pending port = s.pending port ++ cmds

section queued

variable {ok : ℕ → Bool} {port : Fin 2} {s : I2c}

theorem succeeds_one : s.Succeeds ok 1 ↔ ok s.calls = true := by
  simp [Succeeds]

/-- Calls in a row. -/
theorem succeeds_add {t : I2c} {m n : ℕ} (ht : t.calls = s.calls + m) :
    s.Succeeds ok (m + n) ↔ s.Succeeds ok m ∧ t.Succeeds ok n := by
  unfold Succeeds
  rw [ht]
  constructor
  · intro h
    refine ⟨fun i hi => h i (by omega), fun i hi => ?_⟩
    rw [Nat.add_assoc]
    exact h (m + i) (by omega)
  · rintro ⟨hm, hn⟩ i hi
    by_cases him : i < m
    · exact hm i him
    · have hlast := hn (i - m) (by omega)
      rwa [show s.calls + m + (i - m) = s.calls + i by omega] at hlast

theorem opening_of_isSome (h : (s.hostCmd port).isSome) : s.opening port = 0 := by
  rw [opening, if_neg (Option.isSome_iff_ne_none.mp h)]

theorem ensureLink_of_isSome (h : (s.hostCmd port).isSome) : s.ensureLink ok port = s := by
  obtain ⟨l, hl⟩ := Option.isSome_iff_exists.mp h
  rw [ensureLink, hl]

theorem Queued.failed {cmds : List I2cCmd} {res : Bool × I2c} (hres : res.1 = false)
    (hfail : ¬ s.Succeeds ok (s.opening port + cmds.length)) : Queued ok port s cmds res := by
  have hne : ¬ res.1 = true := by simp [hres]
  exact ⟨iff_of_false hne hfail, fun h => absurd h hne, fun h => absurd h hne,
    fun h => absurd h hne⟩

/-- Nothing is queued yet by the creation of the context. -/
theorem ensureLink_queued (ok : ℕ → Bool) (s : I2c) (port : Fin 2) :
    Queued ok port s []
      (((s.ensureLink ok port).hostCmd port).isSome, s.ensureLink ok port) := by
  cases hslot : s.hostCmd port with
  | some l =>
      have hsome : (s.hostCmd port).isSome := by simp [hslot]
      rw [ensureLink_of_isSome hsome]
      refine ⟨?_, id, fun _ => ?_, fun _ => (List.append_nil _).symm⟩
      · simp [opening_of_isSome hsome, Succeeds, hslot]
      · simp [opening_of_isSome hsome]
  | none =>
      have hopening : s.opening port = 1 := by simp [opening, hslot]
      cases hok : ok s.calls with
      | true =>
          have hens : s.ensureLink ok port =
              { s with
                hostCmd := Function.update s.hostCmd port (some s.created)
                created := s.created + 1
                queues := Function.update s.queues s.created []
                calls := s.calls + 1
                log := s.log ++ [.create s.created] } := by
            simp [ensureLink, linkCreate, hslot, hok]
          rw [hens]
          refine ⟨?_, id, fun _ => ?_, fun _ => ?_⟩
          · simp [hopening, succeeds_one, hok]
          · simp [hopening]
          · simp [I2c.pending, hslot]
      | false =>
          refine .failed (by simp [ensureLink, linkCreate, hslot, hok]) ?_
          simp [hopening, succeeds_one, hok]

theorem queueCmd_queued (h : (s.hostCmd port).isSome) (cmd : I2cCmd) :
    Queued ok port s [cmd] (s.queueCmd ok cmd (s.hostCmd port)) := by
  obtain ⟨l, hl⟩ := Option.isSome_iff_exists.mp h
  have hopening := opening_of_isSome h
  rw [hl, queueCmd]
  refine ⟨?_, fun _ => h, fun _ => by simp [hopening], fun hok => ?_⟩
  · simp [hopening, succeeds_one]
  · have hok : ok s.calls = true := hok
    simp [I2c.pending, hl, hok]

/-- Calls that are joined by `&&`. -/
theorem Queued.andThen {cmds cmds' : List I2cCmd} {res : Bool × I2c} {f : I2c → Bool × I2c}
    (h : Queued ok port s cmds res)
    (hf : (res.2.hostCmd port).isSome → Queued ok port res.2 cmds' (f res.2)) :
    Queued ok port s (cmds ++ cmds') (I2c.andThen res f) := by
  unfold I2c.andThen
  cases hres : res.1 with
  | true =>
      rw [if_pos rfl]
      have hsome := h.linked hres
      have h' := hf hsome
      have hopening := opening_of_isSome hsome
      have hcalls : res.2.calls = s.calls + (s.opening port + cmds.length) := by
        rw [h.calls hres, Nat.add_assoc]
      refine ⟨?_, h'.linked, fun hf => ?_, fun hf => ?_⟩
      · rw [h'.succeeds, hopening, Nat.zero_add, List.length_append, ← Nat.add_assoc,
          succeeds_add hcalls, ← h.succeeds]
        simp [hres]
      · rw [h'.calls hf, hopening, h.calls hres, List.length_append]
        omega
      · rw [h'.pending hf, h.pending hres, List.append_assoc]
  | false =>
      rw [if_neg Bool.false_ne_true]
      refine .failed hres fun hall => ?_
      have hshort : s.Succeeds ok (s.opening port + cmds.length) := fun i hi =>
        hall i (by rw [List.length_append]; omega)
      rw [h.succeeds.mpr hshort] at hres
      cases hres

end queued

end I2c

end BadgeElfloader.Abi
