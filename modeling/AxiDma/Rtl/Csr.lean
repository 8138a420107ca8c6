import AxiDma.Rtl.RingManager

/-! # CSR block (`csr.sv`)

The next-state block of the source assigns the `_c` copies from top to bottom and
the last assignment wins.  Here each paragraph of that block is one function
`State → State` from the copies before it to the copies after it, and `next`
composes them in the order of the source.
-/

namespace AxiDma.Rtl

/-! ## AXI4-Lite (`csr_soc_bus_if`)

`awprot` and `arprot` are left out: nothing reads them. -/

structure AxiLiteMaster where
  awaddr : Word
  awvalid : Bool
  wdata : Word
  wstrb : BitVec 4
  wvalid : Bool
  bready : Bool
  araddr : Word
  arvalid : Bool
  rready : Bool
  deriving DecidableEq, Repr

/-- `apply_wstrb`: the bytes of `new` that the strobe selects over those of `old`. -/
def applyWstrb (old new : Word) (wstrb : BitVec 4) : Word :=
  let byte (n : Nat) : BitVec 8 :=
    if wstrb.getLsbD n then new.extractLsb' (8 * n) 8 else old.extractLsb' (8 * n) 8
  byte 3 ++ byte 2 ++ byte 1 ++ byte 0

namespace Csr

/-! ## Register offsets -/

def regBaseaddr : BitVec 8 := 0x00
def regRinglen : BitVec 8 := 0x04
def regHead : BitVec 8 := 0x08
def regTail : BitVec 8 := 0x0C
def regCtrl : BitVec 8 := 0x10
def regStatus : BitVec 8 := 0x14
def regIrqStatus : BitVec 8 := 0x18
def regIrqClear : BitVec 8 := 0x2C

def axiRespOkay : BitVec 2 := 0
def axiRespSlverr : BitVec 2 := 2

def busIdle : AxiLiteMaster :=
  { awaddr := 0, awvalid := false, wdata := 0, wstrb := 0, wvalid := false, bready := false,
    araddr := 0, arvalid := false, rready := false }

/-! ## State -/

structure State where
  baseaddr : Word
  ringlen : Word
  tail : Word
  ctrl : Word
  statusError : Bool
  irqEmpty : Bool
  irqError : Bool
  awPending : Bool
  awaddr : Word
  wPending : Bool
  wdata : Word
  wstrb : BitVec 4
  bvalid : Bool
  bresp : BitVec 2
  rdata : Word
  rvalid : Bool
  ringMgrErrorClear : Bool
  irqClearErrorPending : Bool
  ctrlReadbackPending : Bool
  ctrlReadbackData : Word
  deriving DecidableEq, Repr

def resetState : State :=
  { baseaddr := 0, ringlen := 0, tail := 0, ctrl := 0, statusError := false,
    irqEmpty := false, irqError := false, awPending := false, awaddr := 0,
    wPending := false, wdata := 0, wstrb := 0, bvalid := false, bresp := axiRespOkay,
    rdata := 0, rvalid := false, ringMgrErrorClear := false, irqClearErrorPending := false,
    ctrlReadbackPending := false, ctrlReadbackData := 0 }

/-- What the ring manager drives into the CSR block. -/
structure RingIn where
  head : Word
  busy : Bool
  ringEmpty : Bool
  irqEmptySet : Bool
  errorSet : Bool
  deriving DecidableEq, Repr

structure In where
  rstN : Bool
  bus : AxiLiteMaster
  ring : RingIn
  deriving DecidableEq, Repr

/-! ## Read mux -/

def statusWord (s : State) (ring : RingIn) : Word :=
  BitVec.ofBool s.statusError ++ BitVec.ofBool ring.ringEmpty ++ BitVec.ofBool ring.busy
    |>.setWidth 32

def irqStatusWord (s : State) : Word :=
  BitVec.ofBool s.irqError ++ BitVec.ofBool s.irqEmpty |>.setWidth 32

/-- `{reg_ctrl[31:2], 1'b0, reg_ctrl[0]}`, or the one-shot view left by a RESET write. -/
def ctrlView (s : State) : Word :=
  if s.ctrlReadbackPending then s.ctrlReadbackData else s.ctrl &&& ~~~2

def readData (s : State) (ring : RingIn) (rdAddrLsb : BitVec 8) : Word :=
  if rdAddrLsb = regBaseaddr then s.baseaddr
  else if rdAddrLsb = regRinglen then s.ringlen
  else if rdAddrLsb = regHead then ring.head
  else if rdAddrLsb = regTail then s.tail
  else if rdAddrLsb = regCtrl then ctrlView s
  else if rdAddrLsb = regStatus then statusWord s ring
  else if rdAddrLsb = regIrqStatus then irqStatusWord s
  else 0

/-! ## Handshakes and outputs -/

def awready (s : State) : Bool := !s.awPending && !s.bvalid
def wready (s : State) : Bool := !s.wPending && !s.bvalid
def arready (s : State) : Bool := !s.rvalid

def awHs (s : State) (i : In) : Bool := i.bus.awvalid && awready s
def wHs (s : State) (i : In) : Bool := i.bus.wvalid && wready s
def arHs (s : State) (i : In) : Bool := i.bus.arvalid && arready s

def wrAddrLsb (s : State) : BitVec 8 := s.awaddr.setWidth 8

/-- Both halves of a write are captured and no response is pending. -/
def commits (s : State) : Bool := !s.bvalid && s.awPending && s.wPending

def commitsTo (s : State) (reg : BitVec 8) : Bool := commits s && wrAddrLsb s == reg

def writeDataMasked (s : State) : Word := applyWstrb 0 s.wdata s.wstrb

def ctrlWriteData (s : State) : Word := applyWstrb s.ctrl s.wdata s.wstrb

/-- What the CSR block drives into the ring manager. -/
def toRing (s : State) : RingManager.CsrIn :=
  { baseaddr := s.baseaddr, ringlen := s.ringlen, tail := s.tail,
    enable := s.ctrl.getLsbD 0, reset := s.ctrl.getLsbD 1, irqEn := s.ctrl.getLsbD 2,
    errorClear := s.ringMgrErrorClear }

def irqClearPulseEmpty (s : State) : Bool :=
  commitsTo s regIrqClear && (writeDataMasked s).getLsbD 0

def irqClearPulseError (s : State) : Bool :=
  commitsTo s regIrqClear && (writeDataMasked s).getLsbD 1

/-- `soc_bus.irq_empty`. -/
def irqEmpty (s : State) : Bool := s.ctrl.getLsbD 2 && s.irqEmpty

/-- `soc_bus.irq_error`. -/
def irqError (s : State) : Bool := s.ctrl.getLsbD 2 && s.irqError

/-- `soc_bus.irq`. -/
def irq (s : State) : Bool := irqEmpty s || irqError s

/-! ## Next state -/

def captureAw (s : State) (i : In) (c : State) : State :=
  if awHs s i then { c with awPending := true, awaddr := i.bus.awaddr } else c

def captureW (s : State) (i : In) (c : State) : State :=
  if wHs s i then { c with wPending := true, wdata := i.bus.wdata, wstrb := i.bus.wstrb } else c

/-- The register update of a committing write; HEAD, STATUS, IRQ_STATUS and unmapped
    offsets are ignored. -/
def writeReg (s : State) (c : State) : State :=
  if wrAddrLsb s = regBaseaddr then { c with baseaddr := applyWstrb s.baseaddr s.wdata s.wstrb }
  else if wrAddrLsb s = regRinglen then { c with ringlen := applyWstrb s.ringlen s.wdata s.wstrb }
  else if wrAddrLsb s = regTail then { c with tail := applyWstrb s.tail s.wdata s.wstrb }
  else if wrAddrLsb s = regCtrl then
    let data := ctrlWriteData s
    let c := { c with ctrl := data &&& 7 }
    if data.getLsbD 1 then
      -- one masked readback survives a RESET write
      { c with ctrlReadbackPending := true, ctrlReadbackData := data &&& 5 }
    else c
  else if wrAddrLsb s = regIrqClear then
    let c := if (writeDataMasked s).getLsbD 0 then { c with irqEmpty := false } else c
    if (writeDataMasked s).getLsbD 1 then
      -- the clear for the ring manager waits for the response handshake
      { c with irqError := false, statusError := false, irqClearErrorPending := true }
    else c
  else c

/-- Write commit, else the write response handshake, which emits the delayed
    `error_clear` pulse. -/
def commitOrRespond (s : State) (i : In) (c : State) : State :=
  if commits s then
    let c := { writeReg s c with awPending := false, wPending := false, bvalid := true }
    if c.bresp ≠ axiRespSlverr then { c with bresp := axiRespOkay } else c
  else if s.bvalid && i.bus.bready then
    let c := { c with bvalid := false }
    if s.irqClearErrorPending then
      { c with ringMgrErrorClear := true, irqClearErrorPending := false }
    else c
  else c

/-- Read: latch on the AR handshake, else the R handshake. -/
def readChannel (s : State) (i : In) (c : State) : State :=
  if arHs s i then
    -- a read of any register uses up the masked view of CTRL
    { c with rvalid := true, rdata := readData s i.ring (i.bus.araddr.setWidth 8),
             ctrlReadbackPending := false }
  else if s.rvalid && i.bus.rready then { c with rvalid := false }
  else c

/-- Hardware events: they win over an IRQ_CLEAR that commits in the same cycle. -/
def events (i : In) (c : State) : State :=
  let c := if i.ring.irqEmptySet then { c with irqEmpty := true } else c
  if i.ring.errorSet then { c with statusError := true, irqError := true } else c

/-- The soft reset waits for the B, AR and R channels to be quiet. -/
def softResets (s : State) (i : In) : Bool :=
  s.ctrl.getLsbD 1 && !s.bvalid && !i.bus.arvalid && !s.rvalid

def softReset (s : State) (i : In) (c : State) : State :=
  if softResets s i then
    -- the masked view of CTRL and captured halves of a write stay
    { c with baseaddr := 0, ringlen := 0, tail := 0, ctrl := 0, statusError := false,
             irqEmpty := false, irqError := false, ringMgrErrorClear := true }
  else c

/-- The `_c` values: hold, AXI transactions, hardware events, soft reset. -/
def next (s : State) (i : In) : State :=
  let c := { s with ringMgrErrorClear := false }
  softReset s i <| events i <| readChannel s i <| commitOrRespond s i <|
    captureW s i <| captureAw s i c

def step (s : State) (i : In) : State := if !i.rstN then resetState else next s i

end Csr

end AxiDma.Rtl
