import AxiDma.Lib.Raise
import Mathlib.Data.Nat.Bitwise
import Mathlib.Logic.Function.Basic

/-! # The objects of the golden model (`source/*.py`)

Python integers are `Nat`, or `Int` where a row of the scenario can make them negative.
The models share their objects by reference: `World` holds each object once, and every
method is a function of it.
-/

namespace AxiDma.Golden

open AxiDma.Lib

inductive PyError where
  | valueError (msg : String)
  | runtimeError (msg : String)
  | overflowError (msg : String)
  | indexError
  | zeroDivisionError
  deriving DecidableEq, Repr

abbrev Py := Except PyError

def mask32 : Nat := 0xFFFFFFFF

/-- `x & 0xFFFFFFFF` on an integer of either sign. -/
def maskInt (x : Int) : Nat := (x % 2 ^ 32).toNat

/-- `%0*x`. -/
def hex (width n : Nat) : String :=
  let digits := String.ofList (Nat.toDigits 16 n)
  "".pushn '0' (width - digits.length) ++ digits

/-! ## Lists -/

/-- The position a list index means; a negative one counts from the end. -/
def pyIndex (length : Nat) (i : Int) : Option Nat :=
  if 0 ≤ i then if i < length then some i.toNat else none
  else if -length ≤ i then some (i + length).toNat else none

/-- `mem[i]`. -/
def load (mem : List Nat) (i : Nat) : Py Nat :=
  match mem[i]? with
  | some v => pure v
  | none => throw .indexError

/-- `mem[i] = v`. -/
def store (mem : List Nat) (i : Int) (v : Nat) : Py (List Nat) :=
  match pyIndex mem.length i with
  | some n => pure (mem.set n v)
  | none => throw .indexError

/-! ## `fifo_queue.py` -/

structure FIFOQueue where
  id : String
  queueLength : Nat
  buffer : List Nat
  deriving DecidableEq, Repr

namespace FIFOQueue

def init (id : String) (queueLength : Nat) : Py FIFOQueue := do
  raiseIf (queueLength = 0) (.valueError "FIFO queue_length must be positive")
  pure { id, queueLength, buffer := [] }

def isEmpty (q : FIFOQueue) : Bool := q.buffer.length == 0

def isFull (q : FIFOQueue) : Bool := q.buffer.length == q.queueLength

def enqueue (q : FIFOQueue) (value : Nat) : Py FIFOQueue := do
  raiseIf (q.isFull = true) (.runtimeError (q.id ++ " FIFO overflow"))
  pure { q with buffer := q.buffer ++ [value] }

def dequeue (q : FIFOQueue) : Py (Nat × FIFOQueue) :=
  match q.buffer with
  | [] => throw (.runtimeError (q.id ++ " FIFO empty"))
  | value :: rest => pure (value, { q with buffer := rest })

/-- `len(q)`. -/
def len (q : FIFOQueue) : Nat := q.buffer.length

end FIFOQueue

/-! ## `memory.py` and `sram.py` -/

structure SystemMemory where
  size : Nat
  mem : List Nat
  deriving DecidableEq, Repr

def SystemMemory.init (size : Nat) : Py SystemMemory := do
  raiseIf (size = 0) (.valueError "SystemMemory size must be positive")
  pure { size, mem := List.replicate size 0 }

structure SRAM where
  size : Nat
  mem : List Nat
  deriving DecidableEq, Repr

def SRAM.init (size : Nat) : Py SRAM := do
  raiseIf (size = 0) (.valueError "SRAM size must be positive")
  pure { size, mem := List.replicate size 0 }

/-! ## `descriptor.py` -/

def descWords : Nat := 4

structure Descriptor where
  w0 : Nat
  w1 : Nat
  w2 : Nat
  w3 : Nat
  deriving DecidableEq, Repr

namespace Descriptor

def init (word0 word1 word2 word3 : Nat) : Descriptor :=
  { w0 := word0 &&& mask32, w1 := word1 &&& mask32, w2 := word2 &&& mask32, w3 := word3 &&& mask32 }

def fromPacked (packed : Nat) : Descriptor :=
  let p := packed &&& (1 <<< 128 - 1)
  init (p &&& mask32) ((p >>> 32) &&& mask32) ((p >>> 64) &&& mask32) ((p >>> 96) &&& mask32)

def pack (d : Descriptor) : Nat :=
  (d.w0 ||| d.w1 <<< 32 ||| d.w2 <<< 64 ||| d.w3 <<< 96) &&& (1 <<< 128 - 1)

end Descriptor

/-! ## `csr.py` -/

/-- `_regs`, with 0 for an offset that is not in it. -/
structure CSR where
  regs : Nat → Nat

namespace CSR

def regBaseaddr : Nat := 0x00
def regRinglen : Nat := 0x04
def regHead : Nat := 0x08
def regTail : Nat := 0x0C
def regCtrl : Nat := 0x10
def regStatus : Nat := 0x14
def regIrqStatus : Nat := 0x18
def regIrqClear : Nat := 0x2C

def enableBit : Nat := 0
def irqEnBit : Nat := 2
def errorBit : Nat := 2
def irqEmptyBit : Nat := 0
def irqErrorBit : Nat := 1

def init : CSR := { regs := fun _ => 0 }

def read (c : CSR) (offset : Nat) : Nat := c.regs offset

def set (c : CSR) (offset value : Nat) : CSR := { regs := Function.update c.regs offset value }

/-- `self._regs[offset] &= ~(1 << bit)`. -/
def clearBit (c : CSR) (offset bit : Nat) : CSR :=
  if (c.read offset).testBit bit then c.set offset (c.read offset - 1 <<< bit) else c

def dataBit (data : Int) (bit : Nat) : Bool := data / 2 ^ bit % 2 == 1

def write (c : CSR) (offset : Nat) (data : Int) : CSR :=
  if offset = regHead ∨ offset = regStatus then c
  else if offset = regIrqClear then
    let c := if dataBit data irqEmptyBit then c.clearBit regIrqStatus irqEmptyBit else c
    if dataBit data irqErrorBit then
      (c.clearBit regIrqStatus irqErrorBit).clearBit regStatus errorBit
    else c
  else if offset = regCtrl then c.set regCtrl (data % 8).toNat
  else c.set offset (maskInt data)

def hwSetHead (c : CSR) (head : Nat) : CSR := c.set regHead (head &&& mask32)

def isEnabled (c : CSR) : Bool := c.read regCtrl &&& 1 <<< enableBit != 0

def baseaddr (c : CSR) : Nat := c.read regBaseaddr

def ringlen (c : CSR) : Nat := c.read regRinglen

end CSR

/-! ## The wiring of `run_scenario` -/

structure World where
  sysmem : SystemMemory
  sram : SRAM
  csr : CSR
  dfIn : FIFOQueue
  dfOut : FIFOQueue
  dmAxi : FIFOQueue
  dmSram : FIFOQueue
  mid : FIFOQueue

end AxiDma.Golden
