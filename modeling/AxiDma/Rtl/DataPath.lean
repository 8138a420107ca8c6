import AxiDma.Rtl.MovementTop

/-! # The data path (`movement_top.sv`, `u_data_mover` to `dm_done`)

`movement_top` behind its descriptor FIFOs: the data mover, the two instruction FIFOs,
the engines and the done pulse.  What the descriptor side drives is an input.
-/

namespace AxiDma.Rtl.DataPath

structure State (k addrWidth : Nat) where
  dataMover : DataMover.State
  dmFifoAxi : Fifo dmFifoLog InstrWide
  dmFifoSram : Fifo dmFifoLog InstrWide
  engines : Engines.State k addrWidth
  handshakeDoneD : Bool
  dmDone : Bool

structure In (addrWidth : Nat) where
  dfDmInEmpty : Bool
  dfDmInDout : Desc
  dfInEmpty : Bool
  dfInDout : Handle
  dfOutFull : Bool
  axi : Axi4Slave
  init : Engines.BramInit addrWidth
  deriving DecidableEq, Repr

variable {k addrWidth : Nat}

def reset (s : State k addrWidth) : State k addrWidth :=
  { dataMover := DataMover.resetState
    dmFifoAxi := s.dmFifoAxi.reset
    dmFifoSram := s.dmFifoSram.reset
    engines := Engines.reset s.engines
    handshakeDoneD := false
    dmDone := false }

def dmIn (s : State k addrWidth) (i : In addrWidth) : DataMover.In :=
  { dfDmInEmpty := i.dfDmInEmpty, dfDmInDout := i.dfDmInDout,
    dmSramOutFull := s.dmFifoSram.full, dmAxiOutFull := s.dmFifoAxi.full }

def enginesIn (s : State k addrWidth) (i : In addrWidth) : Engines.In addrWidth :=
  { dfInEmpty := i.dfInEmpty, dfInDout := i.dfInDout, dfOutFull := i.dfOutFull,
    dmInEmptyAxi := s.dmFifoAxi.empty, dmInDoutAxi := MovementTop.narrow s.dmFifoAxi.dout,
    dmInEmptySram := s.dmFifoSram.empty, dmInDoutSram := MovementTop.narrow s.dmFifoSram.dout,
    axi := i.axi, init := i.init }

def axiOut (s : State k addrWidth) (i : In addrWidth) : AxiMaster.Out :=
  Engines.axiOut s.engines (enginesIn s i)

def sramOut (s : State k addrWidth) (i : In addrWidth) : SramController.Out addrWidth :=
  Engines.sramOut s.engines (enginesIn s i)

def dmFifoAxiIn (s : State k addrWidth) (i : In addrWidth) : Fifo.In InstrWide :=
  { wrEn := DataMover.wrEn s.dataMover (dmIn s i), din := s.dataMover.instrAxi,
    rdEn := (axiOut s i).dmInRdEn }

def dmFifoSramIn (s : State k addrWidth) (i : In addrWidth) : Fifo.In InstrWide :=
  { wrEn := DataMover.wrEn s.dataMover (dmIn s i), din := s.dataMover.instrSram,
    rdEn := (sramOut s i).dmInRdEn }

def step (s : State k addrWidth) (i : In addrWidth) : State k addrWidth :=
  { dataMover := DataMover.next s.dataMover (dmIn s i)
    dmFifoAxi := s.dmFifoAxi.step (dmFifoAxiIn s i)
    dmFifoSram := s.dmFifoSram.step (dmFifoSramIn s i)
    engines := Engines.step s.engines (enginesIn s i)
    handshakeDoneD := Engines.handshakeDone s.engines
    dmDone := Engines.handshakeDone s.engines && !s.handshakeDoneD }

/-! ## In `movement_top` -/

def ofMovementTop (s : MovementTop.State k addrWidth) : State k addrWidth :=
  { dataMover := s.dataMover, dmFifoAxi := s.dmFifoAxi, dmFifoSram := s.dmFifoSram,
    engines := s.engines, handshakeDoneD := s.handshakeDoneD, dmDone := s.dmDone }

def inOfMovementTop (s : MovementTop.State k addrWidth) (i : MovementTop.In addrWidth) :
    In addrWidth :=
  { dfDmInEmpty := s.descToDmFifo.empty, dfDmInDout := s.descToDmFifo.dout,
    dfInEmpty := s.dfInFifo.empty, dfInDout := s.dfInFifo.dout, dfOutFull := s.dfOutFifo.full,
    axi := i.axi, init := i.init }

/-- `movement_top` runs the data path on what its descriptor FIFOs show. -/
theorem ofMovementTop_step (s : MovementTop.State k addrWidth) (i : MovementTop.In addrWidth) :
    ofMovementTop (MovementTop.step s i) = step (ofMovementTop s) (inOfMovementTop s i) := rfl

end AxiDma.Rtl.DataPath
