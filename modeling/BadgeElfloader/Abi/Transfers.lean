import BadgeElfloader.Abi.Bus
import Mathlib.Tactic.IntervalCases

/-!
Whole transfers of the I2C host: `i2c_host_write_to` and `i2c_host_read_from`.

Both queue a start, an address, the data and a stop, and run them. `addrBytes`
says what the address looks like on the bus.
-/

namespace BadgeElfloader.Abi

open Riscv (Word)

/-- The bytes of an address. -/
def addrBytes (device : Word) (readBit : Bool) : List (BitVec 8) :=
  let bit : Word := if readBit then 1 else 0
  if device &&& 0x380 ≠ 0 then
    [(0xf0 ||| (device.sshiftRight 7 &&& 0x06) ||| bit).setWidth 8, device.setWidth 8]
  else [(device <<< 1 ||| bit).setWidth 8]

def addrCmds (device : Word) (readBit : Bool) : List I2cCmd :=
  (addrBytes device readBit).map (.writeByte · true)

def writeCmds (device : Word) (sendBuf : List (BitVec 8)) : List I2cCmd :=
  .start :: addrCmds device false ++ [.write sendBuf true]

def readCmds (device recvBuf recvLen : Word) : List I2cCmd :=
  .start :: addrCmds device true ++ [.read recvBuf recvLen .ack]

/-- The calls of `i2c_host_write_to` in front of the stop. -/
def writeCalls (ok : ℕ → Bool) (s : I2c) (interface device : Word) (sendBuf : List (BitVec 8)) :
    Bool × I2c :=
  I2c.andThen
    (I2c.andThen (i2cHostStart ok s interface) fun s =>
      i2cHostWriteAddr ok s interface device false)
    fun s => i2cHostWriteBytes ok s interface sendBuf

/-- The calls of `i2c_host_read_from` in front of the stop. -/
def readCalls (ok : ℕ → Bool) (s : I2c) (interface device recvBuf recvLen : Word) : Bool × I2c :=
  I2c.andThen
    (I2c.andThen (i2cHostStart ok s interface) fun s => i2cHostWriteAddr ok s interface device true)
    fun s => i2cHostReadBytes ok s interface recvBuf recvLen

/-- A valid interface and device, and the calls of the driver succeed: those that
queue the start and the address, and `n` more. -/
def I2c.Addresses (ok : ℕ → Bool) (s : I2c) (interface device : Word) (n : ℕ) : Prop :=
  ∃ port, i2cPort interface = some port ∧ device &&& ~~~ 0x3ff = 0 ∧
    s.Succeeds ok (s.opening port + 1 + (addrBytes device false).length + n)

instance (ok : ℕ → Bool) (s : I2c) (interface device : Word) (n : ℕ) :
    Decidable (s.Addresses ok interface device n) :=
  inferInstanceAs (Decidable (∃ _, _ ∧ _ ∧ _))

/-- The data and the stop are queued, too. -/
def I2c.Accepts (ok : ℕ → Bool) (s : I2c) (interface device : Word) : Prop :=
  s.Addresses ok interface device 2

/-- And the commands run. -/
def I2c.Completes (ok : ℕ → Bool) (s : I2c) (interface device : Word) : Prop :=
  s.Addresses ok interface device 3

section transfers

variable {ok : ℕ → Bool} {s : I2c} {port : Fin 2} {interface device : Word}

open I2c

theorem length_addrCmds (device : Word) (readBit : Bool) :
    (addrCmds device readBit).length = (addrBytes device false).length := by
  unfold addrCmds addrBytes
  dsimp only
  split <;> rfl

theorem i2cHostQueue_queued (hport : i2cPort interface = some port) (cmd : I2cCmd) :
    Queued ok port s [cmd] (i2cHostQueue ok s interface cmd) := by
  have heq : i2cHostQueue ok s interface cmd =
      I2c.andThen (((s.ensureLink ok port).hostCmd port).isSome, s.ensureLink ok port)
        fun t => t.queueCmd ok cmd (t.hostCmd port) := by
    simp only [i2cHostQueue, hport, I2c.andThen]
    cases hslot : (s.ensureLink ok port).hostCmd port with
    | none => rfl
    | some l => rfl
  rw [heq]
  exact (ensureLink_queued ok s port).andThen fun h => queueCmd_queued h cmd

theorem i2cHostWriteAddr_queued (hport : i2cPort interface = some port)
    (hdevice : device &&& ~~~ 0x3ff = 0) (readBit : Bool) :
    Queued ok port s (addrCmds device readBit)
      (i2cHostWriteAddr ok s interface device readBit) := by
  simp only [i2cHostWriteAddr, addrCmds, addrBytes, hdevice, ne_eq, not_true, if_false]
  by_cases hwide : device &&& 0x380 = 0
  · rw [if_neg (not_not.mpr hwide), if_neg (not_not.mpr hwide)]
    exact i2cHostQueue_queued hport _
  · rw [if_pos hwide, if_pos hwide]
    exact (i2cHostQueue_queued hport _).andThen fun _ => i2cHostQueue_queued hport _

theorem writeCalls_queued (hport : i2cPort interface = some port)
    (hdevice : device &&& ~~~ 0x3ff = 0) (sendBuf : List (BitVec 8)) :
    Queued ok port s (writeCmds device sendBuf) (writeCalls ok s interface device sendBuf) :=
  ((i2cHostQueue_queued hport _).andThen fun _ =>
    i2cHostWriteAddr_queued hport hdevice false).andThen fun _ => i2cHostQueue_queued hport _

theorem readCalls_queued (hport : i2cPort interface = some port)
    (hdevice : device &&& ~~~ 0x3ff = 0) (recvBuf recvLen : Word) :
    Queued ok port s (readCmds device recvBuf recvLen)
      (readCalls ok s interface device recvBuf recvLen) :=
  ((i2cHostQueue_queued hport _).andThen fun _ =>
    i2cHostWriteAddr_queued hport hdevice true).andThen fun _ => i2cHostQueue_queued hport _

theorem finish_result (hsome : (s.hostCmd port).isSome) :
    (s.finish ok port).1 = true ↔ s.Succeeds ok 2 := by
  obtain ⟨l, hl⟩ := Option.isSome_iff_exists.mp hsome
  simp only [I2c.finish, hl, queueCmd, cmdBegin, Bool.and_eq_true, Succeeds]
  constructor
  · rintro ⟨h0, h1⟩ i hi
    have hcases : i = 0 ∨ i = 1 := by omega
    rcases hcases with rfl | rfl
    · exact h0
    · exact h1
  · intro h
    exact ⟨h 0 (by omega), h 1 (by omega)⟩

theorem finish_lastRun (hsome : (s.hostCmd port).isSome) (hok : ok s.calls = true) :
    (s.finish ok port).2.lastRun = s.pending port ++ [.stop] := by
  obtain ⟨l, hl⟩ := Option.isSome_iff_exists.mp hsome
  simp [I2c.finish, hl, queueCmd, cmdBegin, linkDelete, lastRun, I2c.pending, hok]

theorem i2cHostStop_eq (hport : i2cPort interface = some port)
    (hsome : (s.hostCmd port).isSome) : i2cHostStop ok s interface = s.finish ok port := by
  rw [i2cHostStop, hport]
  exact congrArg (fun t : I2c => t.finish ok port) (ensureLink_of_isSome hsome)

/-- A transfer succeeds if all calls of the driver do. -/
theorem I2c.Queued.stop_result {cmds : List I2cCmd} {res : Bool × I2c} {n : ℕ}
    (h : Queued ok port s cmds res) (hport : i2cPort interface = some port)
    (hn : n = s.opening port + cmds.length + 2) :
    (res.1 && (i2cHostStop ok res.2 interface).1) = true ↔ s.Succeeds ok n := by
  subst hn
  cases hres : res.1 with
  | true =>
      have hsome := h.linked hres
      have hcalls : res.2.calls = s.calls + (s.opening port + cmds.length) := by
        rw [h.calls hres, Nat.add_assoc]
      rw [i2cHostStop_eq hport hsome, Bool.true_and, finish_result hsome, succeeds_add hcalls,
        ← h.succeeds]
      simp [hres]
  | false =>
      refine iff_of_false (by simp) fun hall => ?_
      rw [h.succeeds.mpr fun i hi => hall i (by omega)] at hres
      cases hres

/-- What is run if everything was queued. -/
theorem I2c.Queued.stop_lastRun {cmds : List I2cCmd} {res : Bool × I2c} {n : ℕ}
    (h : Queued ok port s cmds res) (hport : i2cPort interface = some port)
    (hn : n = s.opening port + cmds.length + 1) (hall : s.Succeeds ok n) :
    (i2cHostStop ok res.2 interface).2.lastRun = s.pending port ++ cmds ++ [.stop] := by
  have hres := h.succeeds.mpr fun i hi => hall i (by omega)
  have hsome := h.linked hres
  have hlast : ok res.2.calls = true := by
    rw [h.calls hres, Nat.add_assoc]
    exact hall _ (by omega)
  rw [i2cHostStop_eq hport hsome, finish_lastRun hsome hlast, h.pending hres]

theorem length_writeCmds (device : Word) (sendBuf : List (BitVec 8)) :
    (writeCmds device sendBuf).length = 2 + (addrBytes device false).length := by
  rw [writeCmds, List.length_append, List.length_cons, length_addrCmds, List.length_singleton]
  omega

theorem length_readCmds (device recvBuf recvLen : Word) :
    (readCmds device recvBuf recvLen).length = 2 + (addrBytes device false).length := by
  rw [readCmds, List.length_append, List.length_cons, length_addrCmds, List.length_singleton]
  omega

theorem bus_addrCmds (device : Word) (readBit : Bool) :
    (addrCmds device readBit).flatMap I2cCmd.bus = (addrBytes device readBit).map .sent := by
  rw [addrCmds, List.flatMap_map, List.map_eq_flatMap]
  rfl

/-! ### The result of a write -/

theorem writeTo_eq (sendBuf : List (BitVec 8)) :
    i2cHostWriteTo ok s interface device sendBuf =
      (if (writeCalls ok s interface device sendBuf).1 &&
          (i2cHostStop ok (writeCalls ok s interface device sendBuf).2 interface).1 then 1 else 0,
        (i2cHostStop ok (writeCalls ok s interface device sendBuf).2 interface).2) := rfl

/-- An interface or a device that is not valid. -/
theorem writeCalls_invalid (sendBuf : List (BitVec 8))
    (h : i2cPort interface = none ∨ device &&& ~~~ 0x3ff ≠ 0) :
    (writeCalls ok s interface device sendBuf).1 = false := by
  unfold writeCalls
  obtain hport | hdevice := h
  · have hstart : i2cHostStart ok s interface = (false, s) := by
      rw [i2cHostStart, i2cHostQueue, hport]
    rw [hstart]
    rfl
  · have haddr : ∀ t : I2c, i2cHostWriteAddr ok t interface device false = (false, t) :=
      fun t => if_pos hdevice
    simp only [I2c.andThen, haddr]
    split
    · rfl
    · simp_all

theorem writeTo_eq_one_iff (ok : ℕ → Bool) (s : I2c) (interface device : Word)
    (sendBuf : List (BitVec 8)) :
    (i2cHostWriteTo ok s interface device sendBuf).1 = 1 ↔ s.Completes ok interface device := by
  have hite : ∀ b : Bool, (if b then 1 else 0 : Word) = 1 ↔ b = true := by decide
  rw [writeTo_eq, hite]
  constructor
  · intro h
    have hvalid : ¬ (i2cPort interface = none ∨ device &&& ~~~ 0x3ff ≠ 0) := by
      intro hinvalid
      rw [writeCalls_invalid sendBuf hinvalid, Bool.false_and] at h
      cases h
    rw [not_or, not_not, ← ne_eq, Option.ne_none_iff_exists'] at hvalid
    obtain ⟨⟨port, hport⟩, hdevice⟩ := hvalid
    refine ⟨port, hport, hdevice, ?_⟩
    refine ((writeCalls_queued hport hdevice sendBuf).stop_result hport ?_).mp h
    rw [length_writeCmds]
    omega
  · rintro ⟨port, hport, hdevice, h⟩
    refine ((writeCalls_queued hport hdevice sendBuf).stop_result hport ?_).mpr h
    rw [length_writeCmds]
    omega

/-- The documented result: the number of acknowledged data bytes, or -1 on failure. -/
structure I2c.WriteDocumented (ok : ℕ → Bool) (s : I2c) (interface device : Word)
    (sendBuf : List (BitVec 8)) : Prop where
  success : s.Completes ok interface device →
    (i2cHostWriteTo ok s interface device sendBuf).1.toInt = sendBuf.length
  failure : ¬ s.Completes ok interface device →
    (i2cHostWriteTo ok s interface device sendBuf).1.toInt = -1

/-- The result is as documented for one byte that is written with success, and
for nothing else. -/
theorem writeTo_documented_iff (ok : ℕ → Bool) (s : I2c) (interface device : Word)
    (sendBuf : List (BitVec 8)) :
    s.WriteDocumented ok interface device sendBuf ↔
      s.Completes ok interface device ∧ sendBuf.length = 1 := by
  have hone := writeTo_eq_one_iff ok s interface device sendBuf
  constructor
  · intro h
    by_cases hcompletes : s.Completes ok interface device
    · have hresult := h.success hcompletes
      rw [hone.mpr hcompletes] at hresult
      exact ⟨hcompletes, by exact_mod_cast (show (sendBuf.length : ℤ) = 1 from hresult.symm)⟩
    · have hresult := h.failure hcompletes
      have hzero : (i2cHostWriteTo ok s interface device sendBuf).1 = 0 :=
        (ite_eq_or_eq _ 1 0).resolve_left (mt hone.mp hcompletes)
      rw [hzero] at hresult
      cases hresult
  · rintro ⟨hcompletes, hlength⟩
    refine ⟨fun _ => ?_, fun hfail => absurd hcompletes hfail⟩
    rw [hone.mpr hcompletes, hlength]
    rfl

/-- Two bytes are written and acknowledged, and the result is 1. -/
theorem writeTo_two_bytes : I2c.initial.Completes (fun _ => true) 0 0x50 ∧
    (i2cHostWriteTo (fun _ => true) .initial 0 0x50 [1, 2]).1 = 1 ∧
    ¬ I2c.initial.WriteDocumented (fun _ => true) 0 0x50 [1, 2] := by
  have hcompletes : I2c.initial.Completes (fun _ => true) 0 0x50 :=
    ⟨0, rfl, rfl, fun _ _ => rfl⟩
  have hresult : (i2cHostWriteTo (fun _ => true) .initial 0 0x50 [1, 2]).1 = 1 := by decide
  refine ⟨hcompletes, hresult, fun h => ?_⟩
  have hdocumented := h.success hcompletes
  rw [hresult] at hdocumented
  exact absurd hdocumented (by decide)

/-! ### The bytes of a write -/

theorem sentBytes_writeCmds (cmds : List I2cCmd) (device : Word) (sendBuf : List (BitVec 8)) :
    sentBytes ((cmds ++ writeCmds device sendBuf ++ [I2cCmd.stop]).flatMap I2cCmd.bus) =
      addrBytes device false ++ sendBuf := by
  have hbus : (cmds ++ writeCmds device sendBuf ++ [I2cCmd.stop]).flatMap I2cCmd.bus =
      cmds.flatMap I2cCmd.bus ++
        .start :: (addrBytes device false ++ sendBuf).map .sent ++ [.stop] := by
    simp [writeCmds, bus_addrCmds, I2cCmd.bus]
  rw [hbus, sentBytes_start]

/-- Whatever waits on the port, the address and the data follow the start. -/
theorem writeTo_sentBytes (sendBuf : List (BitVec 8)) (h : s.Accepts ok interface device) :
    sentBytes (i2cHostWriteTo ok s interface device sendBuf).2.lastBus =
      addrBytes device false ++ sendBuf := by
  obtain ⟨port, hport, hdevice, hall⟩ := h
  rw [← sentBytes_writeCmds (s.pending port), writeTo_eq, lastBus,
    (writeCalls_queued hport hdevice sendBuf).stop_lastRun hport ?_ hall]
  rw [length_writeCmds]
  omega

/-- The address byte of a device from 0x78 to 0x7b is the first of a 10-bit
address, and the data go on with the second. -/
def AddrClash (device : Word) (sendBuf : List (BitVec 8)) (device' : Word)
    (sendBuf' : List (BitVec 8)) : Prop :=
  device &&& 0x380 = 0 ∧ device' &&& 0x380 ≠ 0 ∧ device = 0x78 ||| device' >>> 8 ∧
    sendBuf = device'.setWidth 8 :: sendBuf'

theorem getLsbD_of_device (hdevice : device &&& ~~~ 0x3ff = 0) {i : ℕ} (hi : 10 ≤ i) :
    device.getLsbD i = false := by
  by_cases hlt : i < 32
  · have hmask : (~~~ 0x3ff : Word).getLsbD i = true := by interval_cases i <;> rfl
    have hbit := congrArg (fun w : Word => w.getLsbD i) hdevice
    rw [BitVec.getLsbD_and, hmask, Bool.and_true] at hbit
    exact hbit.trans BitVec.getLsbD_zero
  · exact BitVec.getLsbD_of_ge device i (by omega)

theorem getLsbD_of_narrow (hdevice : device &&& ~~~ 0x3ff = 0) (hnarrow : device &&& 0x380 = 0)
    {i : ℕ} (hi : 7 ≤ i) : device.getLsbD i = false := by
  by_cases hlt : i < 10
  · have hmask : (0x380 : Word).getLsbD i = true := by interval_cases i <;> rfl
    have hbit := congrArg (fun w : Word => w.getLsbD i) hnarrow
    rw [BitVec.getLsbD_and, hmask, Bool.and_true] at hbit
    exact hbit.trans BitVec.getLsbD_zero
  · exact getLsbD_of_device hdevice (by omega)

/-- The only byte of a 7-bit address. -/
def narrowByte (device : Word) : BitVec 8 := (device <<< 1 ||| 0).setWidth 8

/-- The first byte of a 10-bit address. -/
def wideByte (device : Word) : BitVec 8 :=
  (0xf0 ||| (device.sshiftRight 7 &&& 0x06) ||| 0).setWidth 8

theorem getLsbD_narrowByte (device : Word) {i : ℕ} (hi : i < 8) :
    (narrowByte device).getLsbD i = (decide (0 < i) && device.getLsbD (i - 1)) := by
  unfold narrowByte
  interval_cases i <;> simp

theorem getLsbD_wideByte (device : Word) {i : ℕ} (hi : i < 8) :
    (wideByte device).getLsbD i =
      (decide (4 ≤ i) || (decide (i = 1) && device.getLsbD 8 ||
        decide (i = 2) && device.getLsbD 9)) := by
  unfold wideByte
  interval_cases i <;> simp [BitVec.getElem_sshiftRight]

theorem addrBytes_narrow (hnarrow : device &&& 0x380 = 0) :
    addrBytes device false = [narrowByte device] := if_neg (not_not.mpr hnarrow)

theorem addrBytes_wide (hwide : device &&& 0x380 ≠ 0) :
    addrBytes device false = [wideByte device, device.setWidth 8] := if_pos hwide

section clash

variable {device' : Word} (hdevice : device &&& ~~~ 0x3ff = 0)
  (hdevice' : device' &&& ~~~ 0x3ff = 0)

include hdevice hdevice'

theorem narrowByte_inj (hnarrow : device &&& 0x380 = 0) (hnarrow' : device' &&& 0x380 = 0)
    (h : narrowByte device = narrowByte device') : device = device' := by
  refine BitVec.eq_of_getLsbD_eq fun i _ => ?_
  by_cases hi : i < 7
  · have hbit := congrArg (fun b : BitVec 8 => b.getLsbD (i + 1)) h
    simpa [getLsbD_narrowByte _ (show i + 1 < 8 by omega)] using hbit
  · rw [getLsbD_of_narrow hdevice hnarrow (by omega),
      getLsbD_of_narrow hdevice' hnarrow' (by omega)]

theorem wideByte_inj (h : wideByte device = wideByte device')
    (hlow : device.setWidth 8 = device'.setWidth 8) : device = device' := by
  refine BitVec.eq_of_getLsbD_eq fun i _ => ?_
  by_cases hi : i < 8
  · have hbit := congrArg (fun b : BitVec 8 => b.getLsbD i) hlow
    simpa [hi] using hbit
  · by_cases hten : 10 ≤ i
    · rw [getLsbD_of_device hdevice hten, getLsbD_of_device hdevice' hten]
    · have hbit := congrArg (fun b : BitVec 8 => b.getLsbD (i - 7)) h
      have hcases : i = 8 ∨ i = 9 := by omega
      rw [getLsbD_wideByte _ (by omega), getLsbD_wideByte _ (by omega)] at hbit
      rcases hcases with rfl | rfl
      · simpa using hbit
      · simpa using hbit

theorem narrowByte_eq_wideByte_iff (hnarrow : device &&& 0x380 = 0) :
    narrowByte device = wideByte device' ↔ device = 0x78 ||| device' >>> 8 := by
  have hlow : ∀ i, device'.getLsbD (10 + i) = false := fun i =>
    getLsbD_of_device hdevice' (by omega)
  have hten := hlow 0
  constructor
  · intro h
    refine BitVec.eq_of_getLsbD_eq fun i _ => ?_
    by_cases hi : i < 7
    · have hbit := congrArg (fun b : BitVec 8 => b.getLsbD (i + 1)) h
      rw [getLsbD_narrowByte _ (by omega), getLsbD_wideByte _ (by omega)] at hbit
      interval_cases i <;> simp_all
    · rw [getLsbD_of_narrow hdevice hnarrow (by omega), BitVec.getLsbD_or,
        BitVec.getLsbD_ushiftRight, show 8 + i = 10 + (i - 2) by omega, hlow]
      interval_cases i <;> rfl
  · rintro rfl
    refine BitVec.eq_of_getLsbD_eq fun i hi => ?_
    rw [getLsbD_narrowByte _ hi, getLsbD_wideByte _ hi]
    interval_cases i <;> simp_all

/-- Address and data can be told apart unless one pair clashes with the other. -/
theorem addrBytes_append_eq_iff (sendBuf sendBuf' : List (BitVec 8)) :
    addrBytes device false ++ sendBuf = addrBytes device' false ++ sendBuf' ↔
      device = device' ∧ sendBuf = sendBuf' ∨ AddrClash device sendBuf device' sendBuf' ∨
        AddrClash device' sendBuf' device sendBuf := by
  unfold AddrClash
  by_cases hnarrow : device &&& 0x380 = 0 <;> by_cases hnarrow' : device' &&& 0x380 = 0
  · rw [addrBytes_narrow hnarrow, addrBytes_narrow hnarrow']
    have hinj := narrowByte_inj hdevice hdevice' hnarrow hnarrow'
    simp only [List.cons_append, List.nil_append, List.cons.injEq, hnarrow, hnarrow']
    constructor
    · exact fun h => .inl ⟨hinj h.1, h.2⟩
    · rintro (⟨rfl, hbuf⟩ | h | h)
      · exact ⟨rfl, hbuf⟩
      · exact absurd rfl h.2.1
      · exact absurd rfl h.2.1
  · rw [addrBytes_narrow hnarrow, addrBytes_wide hnarrow', ← narrowByte_eq_wideByte_iff
      hdevice hdevice' hnarrow]
    simp only [List.cons_append, List.nil_append, List.cons.injEq]
    constructor
    · exact fun h => .inr (.inl ⟨hnarrow, hnarrow', h⟩)
    · rintro (⟨rfl, -⟩ | h | h)
      · exact absurd hnarrow hnarrow'
      · exact h.2.2
      · exact absurd h.1 hnarrow'
  · rw [addrBytes_wide hnarrow, addrBytes_narrow hnarrow', ← narrowByte_eq_wideByte_iff
      hdevice' hdevice hnarrow']
    simp only [List.cons_append, List.nil_append, List.cons.injEq]
    constructor
    · exact fun h => .inr (.inr ⟨hnarrow', hnarrow, h.1.symm, h.2.symm⟩)
    · rintro (⟨rfl, -⟩ | h | h)
      · exact absurd hnarrow' hnarrow
      · exact absurd h.1 hnarrow
      · exact ⟨h.2.2.1.symm, h.2.2.2.symm⟩
  · rw [addrBytes_wide hnarrow, addrBytes_wide hnarrow']
    have hinj := wideByte_inj hdevice hdevice'
    simp only [List.cons_append, List.nil_append, List.cons.injEq, hnarrow, hnarrow']
    constructor
    · exact fun h => .inl ⟨hinj h.1 h.2.1, h.2.2⟩
    · rintro (⟨rfl, hbuf⟩ | h | h)
      · exact ⟨rfl, rfl, hbuf⟩
      · exact h.1.elim
      · exact h.1.elim

end clash

/-- Two writes that look the same on the bus are the same, but for those whose
addresses clash. -/
theorem writeTo_decodable_iff {ok ok' : ℕ → Bool} {s s' : I2c}
    {interface interface' device device' : Word} {sendBuf sendBuf' : List (BitVec 8)}
    (h : s.Accepts ok interface device) (h' : s'.Accepts ok' interface' device') :
    (sentBytes (i2cHostWriteTo ok s interface device sendBuf).2.lastBus =
        sentBytes (i2cHostWriteTo ok' s' interface' device' sendBuf').2.lastBus →
      device = device' ∧ sendBuf = sendBuf') ↔
    ¬ AddrClash device sendBuf device' sendBuf' ∧ ¬ AddrClash device' sendBuf' device sendBuf := by
  have hdevice : device &&& ~~~ 0x3ff = 0 := h.choose_spec.2.1
  have hdevice' : device' &&& ~~~ 0x3ff = 0 := h'.choose_spec.2.1
  rw [writeTo_sentBytes sendBuf h, writeTo_sentBytes sendBuf' h',
    addrBytes_append_eq_iff hdevice hdevice', ← not_or]
  have hne : AddrClash device sendBuf device' sendBuf' ∨ AddrClash device' sendBuf' device sendBuf →
      device ≠ device' := by
    rintro (hclash | hclash) rfl
    · exact hclash.2.1 hclash.1
    · exact hclash.2.1 hclash.1
  constructor
  · exact fun himp hclash => hne hclash (himp (.inr hclash)).1
  · exact fun hclash heq => heq.resolve_right hclash

theorem writeTo_decodable_iff_initial :
    (sentBytes (i2cHostWriteTo (fun _ => true) .initial 0 0x50 [1]).2.lastBus =
        sentBytes (i2cHostWriteTo (fun _ => true) .initial 1 0x150 [2]).2.lastBus →
      (0x50 : Word) = 0x150 ∧ [1] = [(2 : BitVec 8)]) ↔
    ¬ AddrClash 0x50 [1] 0x150 [2] ∧ ¬ AddrClash 0x150 [2] 0x50 [1] :=
  writeTo_decodable_iff ⟨0, rfl, rfl, fun _ _ => rfl⟩ ⟨1, rfl, rfl, fun _ _ => rfl⟩

/-- Device 0x78 with the data 0x80, 1 and device 0x80 with the data 1. -/
theorem writeTo_same_bytes : ∃ (device device' : Word) (sendBuf sendBuf' : List (BitVec 8)),
    I2c.initial.Accepts (fun _ => true) 0 device ∧
    I2c.initial.Accepts (fun _ => true) 0 device' ∧
    sentBytes (i2cHostWriteTo (fun _ => true) .initial 0 device sendBuf).2.lastBus =
      sentBytes (i2cHostWriteTo (fun _ => true) .initial 0 device' sendBuf').2.lastBus ∧
    ¬ (device = device' ∧ sendBuf = sendBuf') := by
  have h78 : I2c.initial.Accepts (fun _ => true) 0 0x78 := ⟨0, rfl, rfl, fun _ _ => rfl⟩
  have h80 : I2c.initial.Accepts (fun _ => true) 0 0x80 := ⟨0, rfl, rfl, fun _ _ => rfl⟩
  refine ⟨0x78, 0x80, [0x80, 1], [1], h78, h80, ?_, by decide⟩
  rw [writeTo_sentBytes _ h78, writeTo_sentBytes _ h80]
  decide

/-! ### The transaction of a read -/

theorem readFrom_lastRun (recvBuf recvLen : Word) (hport : i2cPort interface = some port)
    (h : s.Accepts ok interface device) :
    (i2cHostReadFrom ok s interface device recvBuf recvLen).2.lastRun =
      s.pending port ++ readCmds device recvBuf recvLen ++ [.stop] := by
  obtain ⟨port', hport', hdevice, hall⟩ := h
  obtain rfl := Option.some.inj (hport.symm.trans hport')
  refine (readCalls_queued hport hdevice recvBuf recvLen).stop_lastRun hport ?_ hall
  rw [length_readCmds]
  omega

theorem bus_readCmds (device recvBuf recvLen : Word) :
    (readCmds device recvBuf recvLen ++ [I2cCmd.stop]).flatMap I2cCmd.bus =
      .start :: (addrBytes device true).map .sent ++
        (List.replicate recvLen.toNat true).map .received ++ [.stop] := by
  simp [readCmds, bus_addrCmds, I2cCmd.bus, I2cAck.acks]

/-- All bytes are acknowledged. -/
theorem receivedAcks_readCmds (device recvBuf recvLen : Word) :
    receivedAcks ((readCmds device recvBuf recvLen ++ [I2cCmd.stop]).flatMap I2cCmd.bus) =
      List.replicate recvLen.toNat true := by
  rw [bus_readCmds, receivedAcks_append, receivedAcks_append, receivedAcks_map_received]
  show receivedAcks ((addrBytes device true).map .sent) ++ _ ++ [] = _
  rw [receivedAcks_map_sent, List.nil_append, List.append_nil]

/-- The second byte of a 10-bit address is sent when the device should send. -/
theorem run_readCmds_iff (device recvBuf recvLen : Word) :
    BusPhase.idle.run ((readCmds device recvBuf recvLen ++ [I2cCmd.stop]).flatMap I2cCmd.bus) =
      some .idle ↔ device &&& 0x380 = 0 := by
  rw [bus_readCmds]
  by_cases hnarrow : device &&& 0x380 = 0
  · have haddr : addrBytes device true = [(device <<< 1 ||| 1).setWidth 8] :=
      if_neg (not_not.mpr hnarrow)
    rw [BusPhase.run_append, BusPhase.run_append, haddr]
    have hstart : BusPhase.idle.run
        (.start :: [BusEvent.sent ((device <<< 1 ||| 1).setWidth 8)]) = some .receiving := by
      simp [BusPhase.run, BusPhase.next]
    refine iff_of_true ?_ hnarrow
    rw [List.map_singleton, hstart, Option.bind_some, BusPhase.receiving_run]
    rfl
  · have haddr : addrBytes device true =
        [(0xf0 ||| (device.sshiftRight 7 &&& 0x06) ||| 1).setWidth 8, device.setWidth 8] :=
      if_pos hnarrow
    refine iff_of_false ?_ hnarrow
    rw [haddr]
    simp [BusPhase.run, BusPhase.next]

/-- A read never ends as it should, since its last byte is acknowledged; and with
a 10-bit address it does not begin as it should either. -/
theorem readFrom_never_legal {recvBuf recvLen : Word} (hport : i2cPort interface = some port)
    (hpending : s.pending port = []) (h : s.Accepts ok interface device) :
    (BusPhase.idle.run (i2cHostReadFrom ok s interface device recvBuf recvLen).2.lastBus =
        some .idle ↔ device &&& 0x380 = 0) ∧
      ¬ LegalRead recvLen.toNat
        (i2cHostReadFrom ok s interface device recvBuf recvLen).2.lastBus := by
  rw [lastBus, readFrom_lastRun recvBuf recvLen hport h, hpending, List.nil_append]
  refine ⟨run_readCmds_iff device recvBuf recvLen, fun hlegal => ?_⟩
  have hacks := hlegal.acks
  rw [receivedAcks_readCmds] at hacks
  have hmem : false ∈ List.replicate recvLen.toNat true := by
    rw [hacks]
    exact List.mem_append_right _ (List.mem_singleton_self _)
  exact Bool.false_ne_true (List.eq_of_mem_replicate hmem)

theorem readFrom_never_legal_initial :
    (BusPhase.idle.run (i2cHostReadFrom (fun _ => true) .initial 0 0x50 0x3fc90000 2).2.lastBus =
        some .idle ↔ (0x50 : Word) &&& 0x380 = 0) ∧
      ¬ LegalRead 2 (i2cHostReadFrom (fun _ => true) .initial 0 0x50 0x3fc90000 2).2.lastBus :=
  readFrom_never_legal (show i2cPort 0 = some 0 from rfl) rfl ⟨0, rfl, rfl, fun _ _ => rfl⟩

/-- One byte is read from device 0x50 and acknowledged. -/
theorem readFrom_acknowledges_last :
    I2c.initial.Accepts (fun _ => true) 0 0x50 ∧ I2c.initial.pending 0 = [] ∧
      ¬ LegalRead 1 (i2cHostReadFrom (fun _ => true) .initial 0 0x50 0x3fc90000 1).2.lastBus := by
  refine ⟨⟨0, rfl, rfl, fun _ _ => rfl⟩, rfl, fun h => ?_⟩
  exact absurd h.acks (by decide)

end transfers

end BadgeElfloader.Abi
