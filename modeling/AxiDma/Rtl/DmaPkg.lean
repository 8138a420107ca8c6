import Mathlib.Algebra.Group.Nat.Defs
import Mathlib.Data.Nat.Log

/-! # Shared constants and packed words (`dma_pkg.sv`, `axi_4_if.sv`)

The packed vectors that travel through the FIFOs are structures with one field
for each slice the RTL reads or writes, least significant slice first.
-/

namespace AxiDma.Rtl

/-- `logic [31:0]`: addresses and data. -/
abbrev Word := BitVec 32

/-! ## Constants

The FIFO depths are all powers of two and stand as exponents, because `fifo`
derives both pointer widths from `$clog2` of the depth. -/

/-- `DF_IN_FIFO_Q = 2 ^ 6`. -/
abbrev dfInFifoLog : Nat := 6
/-- `DF_OUT_FIFO_Q = 2 ^ 6`. -/
abbrev dfOutFifoLog : Nat := 6
/-- `DM_FIFO_Q = 2 ^ 4`. -/
abbrev dmFifoLog : Nat := 4

/-- Bytes of a descriptor; also `ring_manager`'s `DESCRIPTOR_SIZE`. -/
def descriptorSize : Word := 16
def maxInflight : Nat := 4
/-- The bound in `descriptor_fetcher`. -/
def maxSramAddr : Nat := 2 ^ 16 - 1
def bramSize : Nat := 1024

abbrev clog2 (n : Nat) : Nat := Nat.clog 2 n

/-! ## Packed words -/

/-- A descriptor, `logic [127:0]`: `w0 = SRC`, `w1 = DST`, `w2 = LEN`, `w3 = FLAGS`
    in ascending 32-bit slices. -/
structure Desc where
  w0 : Word
  w1 : Word
  w2 : Word
  w3 : Word
  deriving DecidableEq, Repr

/-- `LEN[7:0]`, bits `[71:64]`: the beat count. -/
def Desc.lenBeats (d : Desc) : BitVec 8 := d.w2.setWidth 8

/-- `DIR = FLAGS[0]`, bit 96: `true` moves system memory to SRAM. -/
def Desc.dir (d : Desc) : Bool := d.w3.getLsbD 0

/-- `desc[idx*32 +: 32] = w`; a part select past bit 127 writes nothing. -/
def Desc.setWord (d : Desc) (idx : BitVec 8) (w : Word) : Desc :=
  match idx.toNat with
  | 0 => { d with w0 := w }
  | 1 => { d with w1 := w }
  | 2 => { d with w2 := w }
  | 3 => { d with w3 := w }
  | _ => d

/-- A handle, `logic [39:0]`: `[31:0]` address, `[39:32]` length in beats. -/
structure Handle where
  addr : Word
  len : BitVec 8
  deriving DecidableEq, Repr

/-- `data_mover`'s instruction, 65 bits: `[31:0]` address, `[63:32]` length, `[64]` rw. -/
structure InstrWide where
  addr : Word
  len : Word
  rw : Bool
  deriving DecidableEq, Repr

/-- The engines' instruction, 41 bits: `[31:0]` address, `[39:32]` length, `[40]` rw. -/
structure Instr where
  addr : Word
  len : BitVec 8
  rw : Bool
  deriving DecidableEq, Repr

/-! ## AXI4 (`axi_4_if`)

`bresp` and `rresp` are left out: no module of the engine reads them. -/

/-- The signals of modport `master`. -/
structure Axi4Master where
  awvalid : Bool
  awaddr : Word
  awlen : BitVec 8
  wvalid : Bool
  wdata : Word
  wlast : Bool
  bready : Bool
  arvalid : Bool
  araddr : Word
  arlen : BitVec 8
  rready : Bool
  deriving DecidableEq, Repr

/-- The signals of modport `slave`. -/
structure Axi4Slave where
  awready : Bool
  wready : Bool
  bvalid : Bool
  arready : Bool
  rvalid : Bool
  rdata : Word
  rlast : Bool
  deriving DecidableEq, Repr

end AxiDma.Rtl
