import AxiDma.Rtl.DmaPkg

/-! # SRAM controller and BRAM (`sram_controller.sv`, `bram.sv`)

`BRAM_DATA_WIDTH = DATA_WIDTH = 32`; the BRAM address width is
`$clog2(BRAM_SIZE)` and word addresses are truncated to it.
-/

namespace AxiDma.Rtl

/-! ## BRAM -/

/-- `mem` and the registered read output. -/
structure Bram (addrWidth : Nat) where
  mem : BitVec addrWidth → Word
  dout : Word

namespace Bram

structure In (addrWidth : Nat) where
  rdAddr : BitVec addrWidth
  wrAddr : BitVec addrWidth
  wrEn : Bool
  din : Word
  deriving DecidableEq, Repr

/-- Both ports sample the memory before the edge. -/
def step {addrWidth : Nat} (b : Bram addrWidth) (i : In addrWidth) : Bram addrWidth :=
  { mem := if i.wrEn then Function.update b.mem i.wrAddr i.din else b.mem
    dout := b.mem i.rdAddr }

end Bram

/-! ## SRAM controller -/

namespace SramController

inductive Fsm where
  | idle
  | dmGet
  | writing
  | reading
  | waitAxi4master
  deriving DecidableEq, Repr

structure State where
  state : Fsm
  curAddr : Word
  curLen : BitVec 8
  curWrite : Bool
  beatIdx : BitVec 8
  deriving DecidableEq, Repr

structure In where
  dout : Word
  axi4masterDone : Bool
  midFull : Bool
  midEmpty : Bool
  midDout : Word
  dmInEmpty : Bool
  dmInDout : Instr
  deriving DecidableEq, Repr

structure Out (addrWidth : Nat) where
  readAddr : BitVec addrWidth
  writeAddr : BitVec addrWidth
  wrEn : Bool
  din : Word
  midWrEn : Bool
  midDin : Word
  midRdEn : Bool
  dmInRdEn : Bool
  deriving DecidableEq, Repr

def resetState : State :=
  { state := .idle, curAddr := 0, curLen := 0, curWrite := false, beatIdx := 0 }

/-- `sram_done`: the SRAM side of the current transaction is finished. -/
def sramDone (s : State) : Bool := s.state == .waitAxi4master

/-- The outputs every state starts from; `read_addr` defaults to 0. -/
def defaultOut (addrWidth : Nat) (s : State) : Out addrWidth :=
  { readAddr := 0, writeAddr := s.curAddr.setWidth addrWidth, wrEn := false, din := 0,
    midWrEn := false, midDin := 0, midRdEn := false, dmInRdEn := false }

/-- The end-of-burst test of both loops. -/
def lastBeat (s : State) : Bool := s.beatIdx == s.curLen - 1 || s.curLen == 0

def comb (addrWidth : Nat) (s : State) (i : In) : Out addrWidth × State :=
  let o := defaultOut addrWidth s
  match s.state with
  | .idle => (o, if !i.dmInEmpty then { s with state := .dmGet } else s)
  | .dmGet =>
    let word := i.dmInDout.addr >>> 2
    let s := { s with curLen := i.dmInDout.len, curWrite := i.dmInDout.rw, beatIdx := 0 }
    if i.dmInDout.rw then ({ o with dmInRdEn := true }, { s with curAddr := word, state := .writing })
    else
      -- the first read address is presented one cycle ahead of the data
      ({ o with dmInRdEn := true, readAddr := word.setWidth addrWidth },
        { s with curAddr := word + 1, state := .reading })
  | .writing =>
    if !i.midEmpty then
      -- taken from MID and written in one cycle, whatever `init_done` is
      ({ o with midRdEn := true, wrEn := true, din := i.midDout },
        { s with curAddr := s.curAddr + 1, beatIdx := s.beatIdx + 1,
                 state := if lastBeat s then .waitAxi4master else .writing })
    else (o, s)
  | .reading =>
    if !i.midFull then
      -- `dout` is the word of the address presented in the cycle before
      ({ o with midWrEn := true, midDin := i.dout, readAddr := s.curAddr.setWidth addrWidth },
        { s with curAddr := s.curAddr + 1, beatIdx := s.beatIdx + 1,
                 state := if lastBeat s then .waitAxi4master else .reading })
    else (o, s)
  | .waitAxi4master => (o, if i.axi4masterDone then { s with state := .idle } else s)

def out (addrWidth : Nat) (s : State) (i : In) : Out addrWidth := (comb addrWidth s i).1

def next (addrWidth : Nat) (s : State) (i : In) : State := (comb addrWidth s i).2

end SramController

end AxiDma.Rtl
