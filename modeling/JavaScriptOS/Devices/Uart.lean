import Mathlib.Data.BitVec
import Mathlib.Tactic.Common

/-!
# The serial port driver

The functions of `uart.c` and the 8250 that they talk to. The driver and the device take turns in any order: a
step of the driver is at most one access to a register, and the device moves a byte on whenever it likes. A
character that is written while the one before it is still held replaces it, and so does a byte that is
received while the one before it has not been read. The device has no other registers than those the driver
uses, and no error bits.
-/

namespace JavaScriptOS.Devices

/-! ## Registers -/

namespace Offset

def data : Nat := 0
def interruptEnable : Nat := 1
def divisorLsb : Nat := 0
def divisorMsb : Nat := 1
def fifoControl : Nat := 2
def lineControl : Nat := 3
def modemControl : Nat := 4
def lineStatus : Nat := 5

end Offset

/-- `interrupt_enable`. -/
structure InterruptEnable where
  dataAvailable : BitVec 1 := 0
  transmitterEmpty : BitVec 1 := 0
  receiverLineStatus : BitVec 1 := 0
  modemStatus : BitVec 1 := 0

def InterruptEnable.raw (r : InterruptEnable) : BitVec 8 :=
  0#4 ++ r.modemStatus ++ r.receiverLineStatus ++ r.transmitterEmpty ++ r.dataAvailable

/-- `line_control`. -/
structure LineControl where
  dataBits : BitVec 2 := 0
  stopBits : BitVec 1 := 0
  parity : BitVec 3 := 0
  breakEnable : BitVec 1 := 0
  dlab : BitVec 1 := 0

def LineControl.raw (r : LineControl) : BitVec 8 :=
  r.dlab ++ r.breakEnable ++ r.parity ++ r.stopBits ++ r.dataBits

/-- `fifo_control`. -/
structure FifoControl where
  en : BitVec 1 := 0
  clearReceiveFifo : BitVec 1 := 0
  clearTransmitFifo : BitVec 1 := 0
  dmaModeSelect : BitVec 1 := 0
  interruptTriggerLevel : BitVec 2 := 0

def FifoControl.raw (r : FifoControl) : BitVec 8 :=
  r.interruptTriggerLevel ++ 0#2 ++ r.dmaModeSelect ++ r.clearTransmitFifo ++ r.clearReceiveFifo ++ r.en

/-- `modem_control`. -/
structure ModemControl where
  dataTerminalReady : BitVec 1 := 0
  requestToSend : BitVec 1 := 0
  out1 : BitVec 1 := 0
  out2 : BitVec 1 := 0
  loopbackEnable : BitVec 1 := 0

def ModemControl.raw (r : ModemControl) : BitVec 8 :=
  0#3 ++ r.loopbackEnable ++ r.out2 ++ r.out1 ++ r.requestToSend ++ r.dataTerminalReady

/-- `line_status`, without its error bits. -/
structure LineStatus where
  dataReady : Bool
  transmitterBufferEmpty : Bool
  transmitterEmpty : Bool

def LineStatus.raw (r : LineStatus) : BitVec 8 :=
  0#1 ++ BitVec.ofBool r.transmitterEmpty ++ BitVec.ofBool r.transmitterBufferEmpty ++ 0#4 ++ BitVec.ofBool r.dataReady

/-! ## The device -/

structure Uart where
  divisorLsb : BitVec 8
  divisorMsb : BitVec 8
  interruptEnable : BitVec 8
  fifoControl : BitVec 8
  lineControl : BitVec 8
  modemControl : BitVec 8
  received : BitVec 8
  dataReady : Bool
  overruns : Nat
  holding : Option (BitVec 8)
  shifting : Option (BitVec 8)
  line : List (BitVec 8)
  deriving DecidableEq

namespace Uart

def dlab (d : Uart) : Bool := d.lineControl.getLsbD 7

def loopback (d : Uart) : Bool := d.modemControl.getLsbD 4

def lineStatus (d : Uart) : BitVec 8 :=
  LineStatus.raw ⟨d.dataReady, d.holding.isNone, d.holding.isNone && d.shifting.isNone⟩

def write (d : Uart) (offset : Nat) (v : BitVec 8) : Uart :=
  match offset with
  | 0 => if d.dlab then { d with divisorLsb := v } else { d with holding := some v }
  | 1 => if d.dlab then { d with divisorMsb := v } else { d with interruptEnable := v }
  | 2 => { d with fifoControl := v }
  | 3 => { d with lineControl := v }
  | 4 => { d with modemControl := v }
  | _ => d

def read (d : Uart) (offset : Nat) : BitVec 8 × Uart :=
  match offset with
  | 0 => if d.dlab then (d.divisorLsb, d) else (d.received, { d with dataReady := false })
  | 1 => (if d.dlab then d.divisorMsb else d.interruptEnable, d)
  | 3 => (d.lineControl, d)
  | 4 => (d.modemControl, d)
  | 5 => (d.lineStatus, d)
  | _ => (0, d)

/-- A byte has come in. -/
def receive (d : Uart) (b : BitVec 8) : Uart :=
  { d with received := b, dataReady := true, overruns := d.overruns + d.dataReady.toNat }

end Uart

/-- What the device does by itself: it takes over the held character, it has sent the last bit of the one it
shifts out, or a byte has come over the line. -/
inductive LineEvent where
  | shift
  | finish
  | arrive (b : BitVec 8)
  deriving DecidableEq

/-- While the loopback is on, the output goes to the input and the line is cut off. -/
def Uart.event (d : Uart) : LineEvent → Uart
  | .shift =>
    match d.shifting, d.holding with
    | none, some b => { d with shifting := some b, holding := none }
    | _, _ => d
  | .finish =>
    match d.shifting with
    | none => d
    | some b =>
      if d.loopback then { d with shifting := none }.receive b
      else { d with shifting := none, line := d.line ++ [b] }
  | .arrive b => if d.loopback then d else d.receive b

/-! ## The driver -/

inductive Call where
  | initUart
  | putc (c : BitVec 8)
  | getc
  deriving DecidableEq

/-- The next access to a register. -/
inductive Pc where
  | next                                         -- between two calls
  | init (writes : List (Nat × BitVec 8))        -- `init_uart` up to the loopback test, which is at the end
  | found                                        -- `uart_write_reg(MODEM_CONTROL, 0)`
  | poll (c : BitVec 8)                          -- the loop of `uart_putc`
  | write (c : BitVec 8)                         -- `uart_write_reg(DATA, c)`
  | status                                       -- the test of `uart_getc`
  | fetch                                        -- `uart_read_reg(DATA)`
  deriving DecidableEq

def baudRateMax : Nat := 115200

def baudRateDesired : Nat := 9600

def testByte : BitVec 8 := 0xAE

/-- The writes of `init_uart` in front of the loopback test. -/
def initWrites : List (Nat × BitVec 8) :=
  [(Offset.fifoControl, FifoControl.raw { en := 0 }),
    (Offset.lineControl, LineControl.raw { dlab := 1 }),
    (Offset.divisorLsb, BitVec.ofNat 8 (baudRateMax / baudRateDesired)),
    (Offset.divisorMsb, BitVec.ofNat 8 ((baudRateMax / baudRateDesired) >>> 8)),
    (Offset.lineControl, LineControl.raw { dataBits := 3, stopBits := 0, parity := 0, breakEnable := 0, dlab := 0 }),
    (Offset.interruptEnable, InterruptEnable.raw { dataAvailable := 1 }),
    (Offset.modemControl, ModemControl.raw { requestToSend := 1, out1 := 1, out2 := 1, loopbackEnable := 1 }),
    (Offset.data, testByte)]

def message : List (BitVec 8) := "UART initialized\n".toList.map fun c => BitVec.ofNat 8 c.toNat

/-- The driver and its device. The results are those of `uart_getc`, the errors are counted, and `routed` says
whether `ioapic_route` has been called. -/
structure Com1 where
  dev : Uart
  present : Bool
  pc : Pc
  calls : List Call
  results : List Int
  errors : Nat
  routed : Bool
  deriving DecidableEq

namespace Com1

/-- The begin of a call. -/
def enter (s : Com1) : Call → Com1
  | .initUart => { s with pc := .init initWrites }
  | .putc c => if s.present then { s with pc := .poll c } else s
  | .getc => if s.present then { s with pc := .status } else { s with results := s.results ++ [-1] }

/-- The driver goes on up to its next access. -/
def cpu (s : Com1) : Com1 :=
  match s.pc with
  | .next =>
    match s.calls with
    | [] => s
    | c :: calls => { s with calls := calls }.enter c
  | .init ((offset, v) :: writes) => { s with dev := s.dev.write offset v, pc := .init writes }
  | .init [] =>
    let (v, dev) := s.dev.read Offset.data
    if v ≠ testByte then { s with dev := dev, pc := .next, errors := s.errors + 1 }
    else { s with dev := dev, pc := .found, present := true }
  | .found =>
    { s with dev := s.dev.write Offset.modemControl 0, pc := .next, routed := true,
             calls := message.map Call.putc ++ s.calls }
  | .poll c =>
    let (v, dev) := s.dev.read Offset.lineStatus
    if v.getLsbD 5 then { s with dev := dev, pc := .write c } else { s with dev := dev }
  | .write c => { s with dev := s.dev.write Offset.data c, pc := .next }
  | .status =>
    let (v, dev) := s.dev.read Offset.lineStatus
    if v.getLsbD 0 then { s with dev := dev, pc := .fetch }
    else { s with dev := dev, pc := .next, results := s.results ++ [-1] }
  | .fetch =>
    let (v, dev) := s.dev.read Offset.data
    { s with dev := dev, pc := .next, results := s.results ++ [(v.toNat : Int)] }

end Com1

inductive Event where
  | cpu
  | dev (e : LineEvent)
  deriving DecidableEq

def Com1.step (s : Com1) : Event → Com1
  | .cpu => s.cpu
  | .dev e => { s with dev := s.dev.event e }

def Com1.run (s : Com1) (es : List Event) : Com1 := es.foldl Com1.step s

end JavaScriptOS.Devices
