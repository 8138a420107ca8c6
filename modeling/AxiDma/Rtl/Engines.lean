import AxiDma.Rtl.AxiMaster
import AxiDma.Rtl.Fifo
import AxiDma.Rtl.SramController

/-! # The transfer engines around the MID FIFO (`movement_top.sv`, `u_axi`, `u_sram`,
`u_bram`, `u_mid_fifo`)

The back half of `movement_top`: the AXI master and the SRAM controller with the
FIFO they share in both directions and the BRAM behind its init mux.  The FIFOs
that feed the two engines are inputs here.
-/

namespace AxiDma.Rtl.Engines

/-- MID holds `2 ^ k` words. -/
structure State (k addrWidth : Nat) where
  axi : AxiMaster.State
  sram : SramController.State
  mid : Fifo k Word
  bram : Bram addrWidth

/-- The BRAM init port and the mux select. -/
structure BramInit (addrWidth : Nat) where
  initDone : Bool
  addr : BitVec addrWidth
  wrEn : Bool
  din : Word
  deriving DecidableEq, Repr

structure In (addrWidth : Nat) where
  dfInEmpty : Bool
  dfInDout : Handle
  dfOutFull : Bool
  dmInEmptyAxi : Bool
  dmInDoutAxi : Instr
  dmInEmptySram : Bool
  dmInDoutSram : Instr
  axi : Axi4Slave
  init : BramInit addrWidth
  deriving DecidableEq, Repr

variable {k addrWidth : Nat}

/-- All modules after reset; MID's buffer and `dout` and the BRAM are not reset. -/
def reset (s : State k addrWidth) : State k addrWidth :=
  { s with axi := AxiMaster.resetState, sram := SramController.resetState, mid := s.mid.reset }

/-! ## Wiring -/

def axiIn (s : State k addrWidth) (i : In addrWidth) : AxiMaster.In :=
  { dfInEmpty := i.dfInEmpty, dfInDout := i.dfInDout, dfOutFull := i.dfOutFull,
    dmInEmpty := i.dmInEmptyAxi, dmInDout := i.dmInDoutAxi,
    midFull := s.mid.full, midEmpty := s.mid.empty, midDout := s.mid.dout,
    sramDone := SramController.sramDone s.sram, axi := i.axi }

def sramIn (s : State k addrWidth) (i : In addrWidth) : SramController.In :=
  { dout := s.bram.dout, axi4masterDone := AxiMaster.axiDone s.axi,
    midFull := s.mid.full, midEmpty := s.mid.empty, midDout := s.mid.dout,
    dmInEmpty := i.dmInEmptySram, dmInDout := i.dmInDoutSram }

def axiOut (s : State k addrWidth) (i : In addrWidth) : AxiMaster.Out :=
  AxiMaster.out s.axi (axiIn s i)

def sramOut (s : State k addrWidth) (i : In addrWidth) : SramController.Out addrWidth :=
  SramController.out addrWidth s.sram (sramIn s i)

def midIn (s : State k addrWidth) (i : In addrWidth) : Fifo.In Word :=
  -- one engine writes MID and the other reads it; the mux prefers the AXI side
  { wrEn := (axiOut s i).midWrEn || (sramOut s i).midWrEn
    din := if (axiOut s i).midWrEn then (axiOut s i).midDin else (sramOut s i).midDin
    rdEn := (axiOut s i).midRdEn || (sramOut s i).midRdEn }

/-- The init mux: MicroBlaze owns the BRAM while `init_done` is low. -/
def bramIn (s : State k addrWidth) (i : In addrWidth) : Bram.In addrWidth :=
  { rdAddr := if i.init.initDone then (sramOut s i).readAddr else i.init.addr
    wrAddr := if i.init.initDone then (sramOut s i).writeAddr else i.init.addr
    wrEn := if i.init.initDone then (sramOut s i).wrEn else i.init.wrEn
    din := if i.init.initDone then (sramOut s i).din else i.init.din }

def step (s : State k addrWidth) (i : In addrWidth) : State k addrWidth :=
  { axi := AxiMaster.next s.axi (axiIn s i)
    sram := SramController.next addrWidth s.sram (sramIn s i)
    mid := s.mid.step (midIn s i)
    bram := s.bram.step (bramIn s i) }

/-- `handshake_done`: both engines wait for each other. -/
def handshakeDone (s : State k addrWidth) : Bool :=
  SramController.sramDone s.sram && AxiMaster.axiDone s.axi

end AxiDma.Rtl.Engines
