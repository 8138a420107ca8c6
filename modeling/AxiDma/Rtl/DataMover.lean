import AxiDma.Rtl.DmaPkg

/-! # Data mover (`data_mover.sv`)

Splits a descriptor into the instruction for the AXI master and the one for the
SRAM controller, and writes both FIFOs in the same cycle.
-/

namespace AxiDma.Rtl.DataMover

inductive Fsm where
  | getData
  | decode
  | sendInstr
  deriving DecidableEq, Repr

structure State where
  state : Fsm
  inputData : Desc
  instrAxi : InstrWide
  instrSram : InstrWide
  deriving DecidableEq, Repr

structure In where
  dfDmInEmpty : Bool
  dfDmInDout : Desc
  dmSramOutFull : Bool
  dmAxiOutFull : Bool
  deriving DecidableEq, Repr

def resetState : State :=
  { state := .getData, inputData := ⟨0, 0, 0, 0⟩, instrAxi := ⟨0, 0, false⟩,
    instrSram := ⟨0, 0, false⟩ }

/-- DIR = 1 reads system memory at SRC, DIR = 0 writes it at DST. -/
def decodeAxi (d : Desc) : InstrWide :=
  if d.dir then { addr := d.w0, len := d.w2, rw := false }
  else { addr := d.w1, len := d.w2, rw := true }

/-- DIR = 1 writes SRAM at DST, DIR = 0 reads it at SRC. -/
def decodeSram (d : Desc) : InstrWide :=
  if d.dir then { addr := d.w1, len := d.w2, rw := true }
  else { addr := d.w0, len := d.w2, rw := false }

def dfDmInRdEn (s : State) (i : In) : Bool := s.state == .getData && !i.dfDmInEmpty

/-- `axi_wr_en` and `sram_wr_en` are the same signal. -/
def wrEn (s : State) (i : In) : Bool :=
  s.state == .sendInstr && !i.dmSramOutFull && !i.dmAxiOutFull

def next (s : State) (i : In) : State :=
  match s.state with
  | .getData =>
    if !i.dfDmInEmpty then { s with state := .decode, inputData := i.dfDmInDout } else s
  | .decode =>
    -- both words are registered and go out from the next cycle on
    { s with state := .sendInstr, instrAxi := decodeAxi s.inputData,
             instrSram := decodeSram s.inputData }
  | .sendInstr =>
    -- both FIFOs or neither
    if !i.dmSramOutFull && !i.dmAxiOutFull then { s with state := .getData } else s

end AxiDma.Rtl.DataMover
