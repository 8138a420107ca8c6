import Mathlib.Data.BitVec
import Mathlib.Logic.Function.Basic

/-! # FIFO (`fifo.sv`)

One clock (`wr_clk = rd_clk`, as every instance of the repository is wired) and
two-valued data, for which `to01` is the identity.  `FIFO_BUFFER_SIZE = 2 ^ k`, so
`FIFO_ADDR_WIDTH = k + 1`.  `empty` and `dout` are registers computed from the
next read pointer and the old write pointer and buffer: a word can be in the
FIFO for a cycle before `empty` falls.
-/

namespace AxiDma.Rtl

structure Fifo (k : Nat) (α : Type) where
  fifoBuf : BitVec k → α
  wrAddr : BitVec (k + 1)
  rdAddr : BitVec (k + 1)
  dout : α
  empty : Bool

namespace Fifo

structure In (α : Type) where
  wrEn : Bool
  din : α
  rdEn : Bool

variable {k : Nat} {α : Type}

/-- The asynchronous reset: pointers and `empty`; the buffer and `dout` keep what
    they held. -/
def reset (f : Fifo k α) : Fifo k α := { f with wrAddr := 0, rdAddr := 0, empty := true }

def emptyT (f : Fifo k α) : Bool := f.wrAddr == f.rdAddr

def full (f : Fifo k α) : Bool :=
  f.wrAddr.setWidth k == f.rdAddr.setWidth k && f.wrAddr.msb != f.rdAddr.msb

def rdAddrT (f : Fifo k α) (i : In α) : BitVec (k + 1) :=
  if i.rdEn && !f.emptyT then f.rdAddr + 1 else f.rdAddr

def wrAddrT (f : Fifo k α) (i : In α) : BitVec (k + 1) :=
  if i.wrEn && !f.full then f.wrAddr + 1 else f.wrAddr

/-- The clock edge with `reset` low. -/
def step (f : Fifo k α) (i : In α) : Fifo k α :=
  { fifoBuf :=
      if i.wrEn && !f.full then Function.update f.fifoBuf (f.wrAddr.setWidth k) i.din
      else f.fifoBuf
    wrAddr := f.wrAddrT i
    rdAddr := f.rdAddrT i
    -- the old buffer and the old write pointer: a word written now shows one cycle later
    dout := f.fifoBuf ((f.rdAddrT i).setWidth k)
    empty := f.wrAddr == f.rdAddrT i }

end Fifo

end AxiDma.Rtl
