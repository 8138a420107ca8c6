import AxiDma.Rtl.Csr

/-! # Memory access controller (`mem_access_ctrl.sv`)

The AXI4-Lite slave between MicroBlaze and the init ports of the BRAM and the system
memory.  `bresp` and `rresp` are always OKAY and left out.
-/

namespace AxiDma.Rtl.MemAccessCtrl

/-! ## Register offsets -/

def regInitAddr : BitVec 8 := 0x00
def regInitData : BitVec 8 := 0x04
def regSramWr : BitVec 8 := 0x08
def regSramRd : BitVec 8 := 0x0C
def regMemWr : BitVec 8 := 0x10
def regMemRd : BitVec 8 := 0x14
def regRdata : BitVec 8 := 0x18
def regInitDone : BitVec 8 := 0x1C

structure State where
  initAddr : Word
  initData : Word
  regRdata : Word
  initDone : Bool
  awPending : Bool
  awAddr : Word
  wPending : Bool
  wdData : Word
  wdStrb : BitVec 4
  bvalid : Bool
  rdata : Word
  rvalid : Bool
  deriving DecidableEq, Repr

structure In where
  bus : AxiLiteMaster
  bramInitDout : Word
  memInitRdata : Word
  deriving DecidableEq, Repr

def resetState : State :=
  { initAddr := 0, initData := 0, regRdata := 0, initDone := false, awPending := false,
    awAddr := 0, wPending := false, wdData := 0, wdStrb := 0, bvalid := false, rdata := 0,
    rvalid := false }

/-! ## Handshakes and outputs -/

def awready (s : State) : Bool := !s.awPending && !s.bvalid
def wready (s : State) : Bool := !s.wPending && !s.bvalid
def arready (s : State) : Bool := !s.rvalid

def awHs (s : State) (i : In) : Bool := i.bus.awvalid && awready s
def wHs (s : State) (i : In) : Bool := i.bus.wvalid && wready s
def arHs (s : State) (i : In) : Bool := i.bus.arvalid && arready s

def wrAddrLsb (s : State) : BitVec 8 := s.awAddr.setWidth 8

def commits (s : State) : Bool := !s.bvalid && s.awPending && s.wPending

/-- The one-cycle pulses: a commit to `reg` with bit 0 set. -/
def pulse (s : State) (reg : BitVec 8) : Bool :=
  commits s && wrAddrLsb s == reg && s.wdData.getLsbD 0

def sramWrPulse (s : State) : Bool := pulse s regSramWr
def sramRdPulse (s : State) : Bool := pulse s regSramRd
def memWrPulse (s : State) : Bool := pulse s regMemWr
def memRdPulse (s : State) : Bool := pulse s regMemRd

/-- `reg_init_addr[$clog2(BRAM_SIZE)+1:2]`. -/
def bramInitAddr (addrWidth : Nat) (s : State) : BitVec addrWidth := s.initAddr.extractLsb' 2 addrWidth

/-- Write-only strobes and unmapped offsets read 0. -/
def readData (s : State) (rdAddrLsb : BitVec 8) : Word :=
  if rdAddrLsb = regInitAddr then s.initAddr
  else if rdAddrLsb = regInitData then s.initData
  else if rdAddrLsb = regRdata then s.regRdata
  else if rdAddrLsb = regInitDone then (BitVec.ofBool s.initDone).setWidth 32
  else 0

/-! ## Next state

The paragraphs of the sequential block; the last assignment wins. -/

def captureAw (s : State) (i : In) (c : State) : State :=
  if awHs s i then { c with awPending := true, awAddr := i.bus.awaddr } else c

def captureW (s : State) (i : In) (c : State) : State :=
  if wHs s i then { c with wPending := true, wdData := i.bus.wdata, wdStrb := i.bus.wstrb } else c

def writeReg (s : State) (c : State) : State :=
  if wrAddrLsb s = regInitAddr then
    { c with initAddr := applyWstrb s.initAddr s.wdData s.wdStrb }
  else if wrAddrLsb s = regInitData then
    { c with initData := applyWstrb s.initData s.wdData s.wdStrb }
  -- one bit, taken without the strobes
  else if wrAddrLsb s = regInitDone then { c with initDone := s.wdData.getLsbD 0 }
  else c

/-- Readback on the RD strobes. -/
def latchReadback (s : State) (i : In) (c : State) : State :=
  -- the memories show the word of the address that stood in the cycle before
  let c := if wrAddrLsb s = regSramRd ∧ s.wdData.getLsbD 0 then
    { c with regRdata := i.bramInitDout } else c
  if wrAddrLsb s = regMemRd ∧ s.wdData.getLsbD 0 then
    { c with regRdata := i.memInitRdata } else c

def commit (s : State) (i : In) (c : State) : State :=
  if commits s then
    { latchReadback s i (writeReg s c) with awPending := false, wPending := false, bvalid := true }
  else c

def respond (s : State) (i : In) (c : State) : State :=
  if s.bvalid && i.bus.bready then { c with bvalid := false } else c

def readChannel (s : State) (i : In) (c : State) : State :=
  if arHs s i then
    { c with rvalid := true, rdata := readData s (i.bus.araddr.setWidth 8) }
  else if s.rvalid && i.bus.rready then { c with rvalid := false }
  else c

/-- The clock edge with `rst_n` high. -/
def step (s : State) (i : In) : State :=
  readChannel s i <| respond s i <| commit s i <| captureW s i <| captureAw s i s

end AxiDma.Rtl.MemAccessCtrl
