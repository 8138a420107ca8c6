import AxiDma.Firmware.UartReadWrite
import AxiDma.Rtl.CsrRing
import AxiDma.Rtl.MemAccessCtrl

/-! # The firmware on the board

MicroBlaze runs the firmware and is the only master of the AXI4-Lite bus to the CSR block
and to `mem_access_ctrl`.  An access holds the program until its response; the delays of
every channel, of the serial line and between accesses are inputs.  The interconnect is a
parameter: only the two register windows of `protocol.h` are known of it.
-/

namespace AxiDma.Firmware

open AxiDma.Lib AxiDma.Rtl

inductive Target where
  | csr
  | memAccessCtrl
  | other
  deriving DecidableEq, Repr

/-- The address map of the bus. -/
structure Interconnect where
  route : Word → Target
  route_csr : ∀ reg : BitVec 8, route (csrAccessBase + reg.setWidth 32) = .csr
  route_memAccessCtrl :
    ∀ reg : BitVec 8, route (memAccessCtrlBase + reg.setWidth 32) = .memAccessCtrl

/-- The command loop: it waits for a packet, or processes one. -/
inductive Thread where
  | receive (parser : Parser)
  | execute (prog : Prog Unit)

structure Board (maxInflight : Nat) where
  sys : CsrRing.State maxInflight
  mac : MemAccessCtrl.State
  thread : Thread

namespace Board

variable {maxInflight : Nat}

structure In where
  /-- A byte from the host. -/
  rx : Option Byte
  /-- Room for a byte to the host. -/
  tx : Bool
  /-- The channels MicroBlaze is active on, if it has an access. -/
  aw : Bool
  w : Bool
  b : Bool
  ar : Bool
  r : Bool
  /-- What other targets return. -/
  otherData : Word
  fetchReqReady : Bool
  asDone : Bool
  dfError : Bool
  bramInitDout : Word
  memInitRdata : Word
  deriving DecidableEq, Repr

/-- After `rst_n` the firmware reports and waits for a packet. -/
def start (maxInflight : Nat) : Board maxInflight :=
  { sys := CsrRing.resetState maxInflight
    mac := MemAccessCtrl.resetState
    thread := .execute (xilPrintf "MicroBlaze DMA Validation Firmware Ready.\r\n" []) }

/-! ## The bus -/

/-- The signals of a 32-bit access. -/
def accessBus (op : Op) (i : In) : AxiLiteMaster :=
  match op with
  | .out32 addr data =>
    { Csr.busIdle with awaddr := addr, awvalid := i.aw, wdata := data, wstrb := 15,
                       wvalid := i.w, bready := i.b }
  | .in32 addr => { Csr.busIdle with araddr := addr, arvalid := i.ar, rready := i.r }
  | _ => Csr.busIdle

/-- The target of the access the program waits for. -/
def accessTarget (interconnect : Interconnect) : Thread → Option (Target × Op)
  | .execute (.act (.out32 addr data) _) => some (interconnect.route addr, .out32 addr data)
  | .execute (.act (.in32 addr) _) => some (interconnect.route addr, .in32 addr)
  | _ => none

/-- What a target sees of the bus. -/
def busOf (interconnect : Interconnect) (t : Thread) (target : Target) (i : In) : AxiLiteMaster :=
  match accessTarget interconnect t with
  | some (target', op) => if target' = target then accessBus op i else Csr.busIdle
  | none => Csr.busIdle

def sysIn (interconnect : Interconnect) (b : Board maxInflight) (i : In) : CsrRing.In :=
  { rstN := true, bus := busOf interconnect b.thread .csr i, fetchReqReady := i.fetchReqReady,
    asDone := i.asDone, dfError := i.dfError }

def macIn (interconnect : Interconnect) (b : Board maxInflight) (i : In) : MemAccessCtrl.In :=
  { bus := busOf interconnect b.thread .memAccessCtrl i, bramInitDout := i.bramInitDout,
    memInitRdata := i.memInitRdata }

/-- The B handshake of the target. -/
def writeResponds (b : Board maxInflight) (target : Target) (i : In) : Bool :=
  match target with
  | .csr => b.sys.csr.bvalid && i.b
  | .memAccessCtrl => b.mac.bvalid && i.b
  | .other => i.b

/-- The R handshake of the target, with its data. -/
def readResponds (b : Board maxInflight) (target : Target) (i : In) : Option Word :=
  match target with
  | .csr => if b.sys.csr.rvalid && i.r then some b.sys.csr.rdata else none
  | .memAccessCtrl => if b.mac.rvalid && i.r then some b.mac.rdata else none
  | .other => if i.r then some i.otherData else none

/-! ## One cycle -/

def threadNext (interconnect : Interconnect) (b : Board maxInflight) (i : In) : Thread :=
  match b.thread with
  | .receive parser =>
    match i.rx with
    | none => .receive parser
    | some byte =>
      match parser.feed byte with
      | .inl parser => .receive parser
      | .inr packet => .execute (process packet)
  | .execute (.done ()) => .receive .start
  | .execute (.act (.out32 addr data) next) =>
    if writeResponds b (interconnect.route addr) i then .execute (next ())
    else .execute (.act (.out32 addr data) next)
  | .execute (.act (.in32 addr) next) =>
    match readResponds b (interconnect.route addr) i with
    | some data => .execute (next data)
    | none => .execute (.act (.in32 addr) next)
  | .execute (.act (.uartWriteByte data) next) =>
    if i.tx then .execute (next ()) else .execute (.act (.uartWriteByte data) next)
  | .execute (.act (.xilPrintf format args) next) =>
    if i.tx then .execute (next ()) else .execute (.act (.xilPrintf format args) next)

def step (interconnect : Interconnect) (b : Board maxInflight) (i : In) : Board maxInflight :=
  { sys := CsrRing.step b.sys (sysIn interconnect b i)
    mac := MemAccessCtrl.step b.mac (macIn interconnect b i)
    thread := threadNext interconnect b i }

def fetchHs (interconnect : Interconnect) (b : Board maxInflight) (i : In) : Bool :=
  CsrRing.fetchHs b.sys (sysIn interconnect b i)

end Board

end AxiDma.Firmware
