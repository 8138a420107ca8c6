import AxiDma.Rtl.MemAccessCtrl
import AxiDma.Rtl.MovementTop
import AxiDma.Rtl.SysMem

/-! # Both memories on the board (`vivado_config.sv`)

`mem_access_ctrl`, `movement_top` and `sys_mem`, wired as `vivado_config` wires them: the
init ports of both memories belong to the access controller, and `axi_sys` joins the AXI
master to the system memory.  The fetch requests of the ring manager and the AXI4-Lite
port 1 are inputs.
-/

namespace AxiDma.Rtl.VivadoConfig

structure State (k addrWidth : Nat) where
  memInit : MemAccessCtrl.State
  dma : MovementTop.State k addrWidth
  sysMem : SysMem.State

structure In where
  /-- `s_axil_init`. -/
  bus : AxiLiteMaster
  rmDfAddr : Word
  rmDfValid : Bool
  deriving DecidableEq, Repr

variable {k addrWidth : Nat}

/-- After `rst_n`; both memories keep their contents. -/
def reset (s : State k addrWidth) : State k addrWidth :=
  { memInit := MemAccessCtrl.resetState, dma := MovementTop.reset s.dma,
    sysMem := SysMem.reset s.sysMem }

/-! ## Wiring -/

def bramInit (s : State k addrWidth) : Engines.BramInit addrWidth :=
  { initDone := s.memInit.initDone, addr := MemAccessCtrl.bramInitAddr addrWidth s.memInit,
    wrEn := MemAccessCtrl.sramWrPulse s.memInit, din := s.memInit.initData }

def memInitPort (s : State k addrWidth) : SysMem.Init :=
  { wrEn := MemAccessCtrl.memWrPulse s.memInit, addr := s.memInit.initAddr,
    wdata := s.memInit.initData }

def dmaIn (memWords : Nat) (s : State k addrWidth) (i : In) : MovementTop.In addrWidth :=
  { rmDfAddr := i.rmDfAddr, rmDfValid := i.rmDfValid, axi := SysMem.out memWords s.sysMem,
    init := bramInit s }

/-- What `u_dma_top` drives on `axi_sys`. -/
def axiSys (memWords : Nat) (s : State k addrWidth) (i : In) : Axi4Master :=
  (MovementTop.axiOut s.dma (dmaIn memWords s i)).axi

/-- `bram_init_dout` is the BRAM's output register. -/
def memInitIn (s : State k addrWidth) (i : In) : MemAccessCtrl.In :=
  { bus := i.bus, bramInitDout := s.dma.engines.bram.dout, memInitRdata := SysMem.initRdata s.sysMem }

def step (memWords : Nat) (s : State k addrWidth) (i : In) : State k addrWidth :=
  { memInit := MemAccessCtrl.step s.memInit (memInitIn s i)
    dma := MovementTop.step s.dma (dmaIn memWords s i)
    sysMem := SysMem.step memWords s.sysMem (axiSys memWords s i) (memInitPort s) }

end AxiDma.Rtl.VivadoConfig
