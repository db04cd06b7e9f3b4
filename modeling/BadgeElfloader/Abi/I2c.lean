import BadgeElfloader.Riscv.Machine
import BadgeElfloader.Transition.Ownership
import Mathlib.Data.Fintype.Card

/-!
The I2C host of the ABI, as one thread sees it.

A command link is a handle of the driver that a thread keeps in `host_cmd`. It
is created by the first call that finds its slot null, collects commands, and is
run and deleted by `i2c_host_stop`. What the driver answers is decided by
`ok`, which is asked once for every call of it. The log says what the driver did
with the links.
-/

namespace BadgeElfloader.Abi

open Riscv (Word)
open Transition

/-- `i2c_ack_type_t` -/
inductive I2cAck
  | ack
  | nack
  | lastNack
  deriving DecidableEq

/-- A command on a link. Bytes that are read go to `recv`. -/
inductive I2cCmd
  | start
  | stop
  | writeByte (data : BitVec 8) (checkAck : Bool)
  | write (data : List (BitVec 8)) (checkAck : Bool)
  | readByte (recv : Word) (ackType : I2cAck)
  | read (recv len : Word) (ackType : I2cAck)
  deriving DecidableEq

/-- What the driver has done, where a `Bool` says whether it succeeded. Links
are numbered in the order in which they are created. -/
inductive I2cEvent
  | create (link : ℕ)
  | queue (link : ℕ) (cmd : I2cCmd) (ok : Bool)
  | run (port : Fin 2) (link : ℕ) (cmds : List I2cCmd) (ok : Bool)
  | delete (link : ℕ)
  deriving DecidableEq

/-- The slots of the thread, and the driver. -/
structure I2c where
  hostCmd : Fin 2 → Option ℕ
  created : ℕ
  queues : ℕ → List I2cCmd
  calls : ℕ
  log : List I2cEvent

def I2c.initial : I2c := ⟨fun _ => none, 0, fun _ => [], 0, []⟩

/-! ### The driver -/

section driver

variable (ok : ℕ → Bool)

def I2c.linkCreate (s : I2c) : Option ℕ × I2c :=
  if ok s.calls then
    (some s.created,
      { s with
        created := s.created + 1
        queues := Function.update s.queues s.created []
        calls := s.calls + 1
        log := s.log ++ [.create s.created] })
  else (none, { s with calls := s.calls + 1 })

/-- `i2c_master_start` and its siblings, which refuse a null handle. -/
def I2c.queueCmd (s : I2c) (cmd : I2cCmd) : Option ℕ → Bool × I2c
  | none => (false, s)
  | some l =>
      (ok s.calls,
        { s with
          queues :=
            if ok s.calls then Function.update s.queues l (s.queues l ++ [cmd]) else s.queues
          calls := s.calls + 1
          log := s.log ++ [.queue l cmd (ok s.calls)] })

def I2c.cmdBegin (s : I2c) (port : Fin 2) : Option ℕ → Bool × I2c
  | none => (false, s)
  | some l =>
      (ok s.calls,
        { s with
          calls := s.calls + 1
          log := s.log ++ [.run port l (s.queues l) (ok s.calls)] })

def I2c.linkDelete (s : I2c) : Option ℕ → I2c
  | none => s
  | some l => { s with log := s.log ++ [.delete l] }

end driver

/-! ### The functions of `gpio.cpp` -/

section host

variable (ok : ℕ → Bool)

/-- The slot of an interface. -/
def i2cPort (interface : Word) : Option (Fin 2) :=
  if interface = 0 then some 0 else if interface = 1 then some 1 else none

/-- Create the context. -/
def I2c.ensureLink (s : I2c) (port : Fin 2) : I2c :=
  match s.hostCmd port with
  | some _ => s
  | none =>
      let (link, s) := s.linkCreate ok
      { s with hostCmd := Function.update s.hostCmd port link }

/-- The functions that queue one command. -/
def i2cHostQueue (s : I2c) (interface : Word) (cmd : I2cCmd) : Bool × I2c :=
  match i2cPort interface with
  | none => (false, s)
  | some port =>
      let s := s.ensureLink ok port
      s.queueCmd ok cmd (s.hostCmd port)

/-- Start an I2C transaction. -/
def i2cHostStart (s : I2c) (interface : Word) : Bool × I2c :=
  i2cHostQueue ok s interface .start

/-- Write an I2C byte. -/
def i2cHostWriteByte (s : I2c) (interface : Word) (sendByte : BitVec 8) : Bool × I2c :=
  i2cHostQueue ok s interface (.writeByte sendByte true)

/-- Read an I2C byte and acknowledge it. -/
def i2cHostReadByte (s : I2c) (interface : Word) (recvByte : Word) : Bool × I2c :=
  i2cHostQueue ok s interface (.readByte recvByte .ack)

def i2cHostWriteBytes (s : I2c) (interface : Word) (sendBuf : List (BitVec 8)) : Bool × I2c :=
  i2cHostQueue ok s interface (.write sendBuf true)

def i2cHostReadBytes (s : I2c) (interface : Word) (recvBuf recvLen : Word) : Bool × I2c :=
  i2cHostQueue ok s interface (.read recvBuf recvLen .ack)

/-- The part of `i2c_host_stop` behind the creation of the context. -/
def I2c.finish (s : I2c) (port : Fin 2) : Bool × I2c :=
  let link := s.hostCmd port
  -- Add stop command to queue.
  let (stopped, s) := s.queueCmd ok .stop link
  -- Perform the actions.
  let (ran, s) := s.cmdBegin ok port link
  -- Clean up.
  let s := s.linkDelete link
  (stopped && ran, { s with hostCmd := Function.update s.hostCmd port none })

/-- Stop an I2C transaction. -/
def i2cHostStop (s : I2c) (interface : Word) : Bool × I2c :=
  match i2cPort interface with
  | none => (false, s)
  | some port => (s.ensureLink ok port).finish ok port

/-- `&&` of two calls. -/
def I2c.andThen (res : Bool × I2c) (f : I2c → Bool × I2c) : Bool × I2c :=
  if res.1 then f res.2 else res

/-- Write an I2C address (either 7-bit or 10-bit). -/
def i2cHostWriteAddr (s : I2c) (interface device : Word) (readBit : Bool) : Bool × I2c :=
  let bit : Word := if readBit then 1 else 0
  if device &&& ~~~ 0x3ff ≠ 0 then (false, s)
  else if device &&& 0x380 ≠ 0 then
    -- 10-bit addressing.
    I2c.andThen
      (i2cHostWriteByte ok s interface
        ((0xf0 ||| (device.sshiftRight 7 &&& 0x06) ||| bit).setWidth 8))
      fun s => i2cHostWriteByte ok s interface (device.setWidth 8)
  else
    -- 7-bit addressing.
    i2cHostWriteByte ok s interface ((device <<< 1 ||| bit).setWidth 8)

/-- Write to an I2C device at a certain address. -/
def i2cHostWriteTo (s : I2c) (interface device : Word) (sendBuf : List (BitVec 8)) : Word × I2c :=
  let (res, s) := I2c.andThen
    (I2c.andThen (i2cHostStart ok s interface) fun s =>
      i2cHostWriteAddr ok s interface device false)
    fun s => i2cHostWriteBytes ok s interface sendBuf
  let (stop, s) := i2cHostStop ok s interface
  (if res && stop then 1 else 0, s)

/-- Read from an I2C device at a certain address. -/
def i2cHostReadFrom (s : I2c) (interface device : Word) (recvBuf recvLen : Word) : Bool × I2c :=
  let (res, s) := I2c.andThen
    (I2c.andThen (i2cHostStart ok s interface) fun s => i2cHostWriteAddr ok s interface device true)
    fun s => i2cHostReadBytes ok s interface recvBuf recvLen
  let (stop, s) := i2cHostStop ok s interface
  (res && stop, s)

end host

/-- A call of the thread. -/
inductive I2cOp
  | start
  | writeAddr (device : Word) (readBit : Bool)
  | writeByte (sendByte : BitVec 8)
  | readByte (recvByte : Word)
  | writeBytes (sendBuf : List (BitVec 8))
  | readBytes (recvBuf recvLen : Word)
  | stop
  | writeTo (device : Word) (sendBuf : List (BitVec 8))
  | readFrom (device : Word) (recvBuf recvLen : Word)

/-- The calls that end a transaction. -/
def I2cOp.stops : I2cOp → Bool
  | stop | writeTo .. | readFrom .. => true
  | _ => false

def I2c.exec (ok : ℕ → Bool) (s : I2c) (call : Word × I2cOp) : I2c :=
  match call.2 with
  | .start => (i2cHostStart ok s call.1).2
  | .writeAddr device readBit => (i2cHostWriteAddr ok s call.1 device readBit).2
  | .writeByte sendByte => (i2cHostWriteByte ok s call.1 sendByte).2
  | .readByte recvByte => (i2cHostReadByte ok s call.1 recvByte).2
  | .writeBytes sendBuf => (i2cHostWriteBytes ok s call.1 sendBuf).2
  | .readBytes recvBuf recvLen => (i2cHostReadBytes ok s call.1 recvBuf recvLen).2
  | .stop => (i2cHostStop ok s call.1).2
  | .writeTo device sendBuf => (i2cHostWriteTo ok s call.1 device sendBuf).2
  | .readFrom device recvBuf recvLen => (i2cHostReadFrom ok s call.1 device recvBuf recvLen).2

end BadgeElfloader.Abi
