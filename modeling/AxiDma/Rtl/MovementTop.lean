import AxiDma.Rtl.DataMover
import AxiDma.Rtl.DescriptorFetcher
import AxiDma.Rtl.Engines
import AxiDma.Rtl.RingManager

/-! # Movement top (`movement_top.sv`)

The descriptor path in front of the engines, with the FIFO depths of `dma_pkg`,
and the ring manager wired to it.
-/

namespace AxiDma.Rtl

namespace MovementTop

structure State (k addrWidth : Nat) where
  df : DescriptorFetcher.State
  dfInFifo : Fifo dfInFifoLog Handle
  dfOutFifo : Fifo dfOutFifoLog Desc
  descToDmFifo : Fifo dmFifoLog Desc
  dataMover : DataMover.State
  dmFifoAxi : Fifo dmFifoLog InstrWide
  dmFifoSram : Fifo dmFifoLog InstrWide
  engines : Engines.State k addrWidth
  handshakeDoneD : Bool
  dmDone : Bool

structure In (addrWidth : Nat) where
  rmDfAddr : Word
  rmDfValid : Bool
  axi : Axi4Slave
  init : Engines.BramInit addrWidth
  deriving DecidableEq, Repr

variable {k addrWidth : Nat}

/-- The state after `rst_n`; FIFO buffers, FIFO `dout` and the BRAM keep their contents. -/
def reset (s : State k addrWidth) : State k addrWidth :=
  { df := DescriptorFetcher.resetState
    dfInFifo := s.dfInFifo.reset
    dfOutFifo := s.dfOutFifo.reset
    descToDmFifo := s.descToDmFifo.reset
    dataMover := DataMover.resetState
    dmFifoAxi := s.dmFifoAxi.reset
    dmFifoSram := s.dmFifoSram.reset
    engines := Engines.reset s.engines
    handshakeDoneD := false
    dmDone := false }

/-! ## Wiring -/

/-- The narrowing from 65 to 41 bits: `{rw, len[7:0], addr}`. -/
def narrow (w : InstrWide) : Instr := { addr := w.addr, len := w.len.setWidth 8, rw := w.rw }

def dfIn (s : State k addrWidth) (i : In addrWidth) : DescriptorFetcher.In :=
  { dfInFull := s.dfInFifo.full, dfOutEmpty := s.dfOutFifo.empty, dfOutDout := s.dfOutFifo.dout,
    dmInFull := s.descToDmFifo.full, fetchReqValid := i.rmDfValid, rmDfAddr := i.rmDfAddr }

def dmIn (s : State k addrWidth) : DataMover.In :=
  { dfDmInEmpty := s.descToDmFifo.empty, dfDmInDout := s.descToDmFifo.dout,
    dmSramOutFull := s.dmFifoSram.full, dmAxiOutFull := s.dmFifoAxi.full }

def enginesIn (s : State k addrWidth) (i : In addrWidth) : Engines.In addrWidth :=
  { dfInEmpty := s.dfInFifo.empty, dfInDout := s.dfInFifo.dout, dfOutFull := s.dfOutFifo.full,
    dmInEmptyAxi := s.dmFifoAxi.empty, dmInDoutAxi := narrow s.dmFifoAxi.dout,
    dmInEmptySram := s.dmFifoSram.empty, dmInDoutSram := narrow s.dmFifoSram.dout,
    axi := i.axi, init := i.init }

def axiOut (s : State k addrWidth) (i : In addrWidth) : AxiMaster.Out :=
  Engines.axiOut s.engines (enginesIn s i)

def sramOut (s : State k addrWidth) (i : In addrWidth) : SramController.Out addrWidth :=
  Engines.sramOut s.engines (enginesIn s i)

def dfInFifoIn (s : State k addrWidth) (i : In addrWidth) : Fifo.In Handle :=
  { wrEn := s.df.dfInWrEn, din := s.df.dfInDin, rdEn := (axiOut s i).dfInRdEn }

def dfOutFifoIn (s : State k addrWidth) (i : In addrWidth) : Fifo.In Desc :=
  { wrEn := (axiOut s i).dfOutWrEn, din := (axiOut s i).dfOutDin,
    rdEn := DescriptorFetcher.dfOutRdEn (dfIn s i) }

def descToDmFifoIn (s : State k addrWidth) : Fifo.In Desc :=
  { wrEn := s.df.dmInWrEn, din := s.df.dmInDin,
    rdEn := DataMover.dfDmInRdEn s.dataMover (dmIn s) }

def dmFifoAxiIn (s : State k addrWidth) (i : In addrWidth) : Fifo.In InstrWide :=
  { wrEn := DataMover.wrEn s.dataMover (dmIn s), din := s.dataMover.instrAxi,
    rdEn := (axiOut s i).dmInRdEn }

def dmFifoSramIn (s : State k addrWidth) (i : In addrWidth) : Fifo.In InstrWide :=
  { wrEn := DataMover.wrEn s.dataMover (dmIn s), din := s.dataMover.instrSram,
    rdEn := (sramOut s i).dmInRdEn }

/-! ## Outputs and next state -/

def dfReady (s : State k addrWidth) : Bool := !s.dfInFifo.full

def dfError (s : State k addrWidth) (i : In addrWidth) : Bool :=
  DescriptorFetcher.dfError (dfIn s i)

def step (s : State k addrWidth) (i : In addrWidth) : State k addrWidth :=
  { df := DescriptorFetcher.next s.df (dfIn s i)
    dfInFifo := s.dfInFifo.step (dfInFifoIn s i)
    dfOutFifo := s.dfOutFifo.step (dfOutFifoIn s i)
    descToDmFifo := s.descToDmFifo.step (descToDmFifoIn s)
    dataMover := DataMover.next s.dataMover (dmIn s)
    dmFifoAxi := s.dmFifoAxi.step (dmFifoAxiIn s i)
    dmFifoSram := s.dmFifoSram.step (dmFifoSramIn s i)
    engines := Engines.step s.engines (enginesIn s i)
    -- `dm_done` is the rising edge of the handshake, one cycle late
    handshakeDoneD := Engines.handshakeDone s.engines
    dmDone := Engines.handshakeDone s.engines && !s.handshakeDoneD }

end MovementTop

/-! ## Ring manager and movement top -/

namespace DmaCore

/-- `ring_manager` (`MAX_INFLIGHT = 4`) with `movement_top`. -/
structure State (k addrWidth : Nat) where
  rm : RingManager.State maxInflight
  mt : MovementTop.State k addrWidth

/-- The CSR side of the ring manager, the AXI slave and the BRAM init port. -/
structure In (addrWidth : Nat) where
  csr : RingManager.CsrIn
  axi : Axi4Slave
  init : Engines.BramInit addrWidth
  deriving DecidableEq, Repr

variable {k addrWidth : Nat}

def reset (s : State k addrWidth) : State k addrWidth :=
  { rm := RingManager.resetState maxInflight, mt := MovementTop.reset s.mt }

def mtIn (s : State k addrWidth) (i : In addrWidth) : MovementTop.In addrWidth :=
  { rmDfAddr := RingManager.rmDfAddr s.rm i.csr
    rmDfValid := RingManager.fetchReqValid s.rm i.csr
    axi := i.axi, init := i.init }

def dfError (s : State k addrWidth) (i : In addrWidth) : Bool :=
  MovementTop.dfError s.mt (mtIn s i)

def rmIn (s : State k addrWidth) (i : In addrWidth) : RingManager.In :=
  { rstN := true, csr := i.csr, fetchReqReady := MovementTop.dfReady s.mt,
    dfError := dfError s i, asDone := s.mt.dmDone }

def step (s : State k addrWidth) (i : In addrWidth) : State k addrWidth :=
  { rm := RingManager.step s.rm (rmIn s i), mt := MovementTop.step s.mt (mtIn s i) }

def fetchHs (s : State k addrWidth) (i : In addrWidth) : Bool := RingManager.fetchHs s.rm (rmIn s i)

end DmaCore

end AxiDma.Rtl
