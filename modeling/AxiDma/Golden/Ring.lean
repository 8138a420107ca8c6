import AxiDma.Golden.Engines

/-! # The golden ring (`descriptor_fetcher.py`, `ringManager.py`)

The descriptors lie in the system memory; HEAD and TAIL are registers of the CSR model.
-/

namespace AxiDma.Golden

open AxiDma.Lib

namespace DescriptorFetcher

def submitHandle (w : World) (byteAddr lenBeats : Nat) : Py World := do
  let dfIn ← w.dfIn.enqueue (packHandle byteAddr lenBeats)
  pure { w with dfIn }

def hasDescriptor (w : World) : Bool := !w.dfOut.isEmpty

def takeDescriptor (w : World) : Py (Descriptor × World) := do
  let (packed, dfOut) ← w.dfOut.dequeue
  pure (Descriptor.fromPacked packed, { w with dfOut })

end DescriptorFetcher

def descriptorSizeBytes : Nat := 16

namespace RingManager

def head (w : World) : Nat := w.csr.read CSR.regHead &&& mask32

def tail (w : World) : Nat := w.csr.read CSR.regTail &&& mask32

def ringlen (w : World) : Py Nat := do
  let r := w.csr.ringlen &&& mask32
  raiseIf (r = 0) (.valueError "CSR REG_RINGLEN must be non-zero before ring operations")
  pure r

def base (w : World) : Nat := w.csr.baseaddr &&& mask32

def slotByteAddr (w : World) (slotIndex : Nat) : Py Nat := do
  let rlen ← ringlen w
  pure (base w + slotIndex % rlen * descriptorSizeBytes)

def writeDescToMem (w : World) (byteAddr : Nat) (desc : Descriptor) : Py World := do
  let w0 := (byteAddr >>> 2) &&& mask32
  raiseIf (w.sysmem.size < w0 + descWords)
    (.valueError "Descriptor write out of bounds of SystemMemory")
  let mem ← store w.sysmem.mem ↑(w0 + 0) desc.w0
  let mem ← store mem ↑(w0 + 1) desc.w1
  let mem ← store mem ↑(w0 + 2) desc.w2
  let mem ← store mem ↑(w0 + 3) desc.w3
  pure { w with sysmem := { w.sysmem with mem } }

/-! ## Status -/

def isEmpty (w : World) : Bool := head w == tail w

def isFull (w : World) : Py Bool := do
  let rlen ← ringlen w
  let hi := head w % rlen
  let ti := tail w % rlen
  pure ((ti + 1) % rlen == hi)

def pendingCount (w : World) : Py Nat := do
  let rlen ← ringlen w
  let hi := head w % rlen
  let ti := tail w % rlen
  let count : Int := (ti - hi) % rlen
  pure count.toNat

/-! ## Producer -/

def enqueue (w : World) (desc : Descriptor) : Py World := do
  let rlen ← ringlen w
  let full ← isFull w
  raiseIf (full = true) (.overflowError "Descriptor ring is full")
  let tail := tail w
  let ti := tail % rlen
  let addr ← slotByteAddr w ti
  let w ← writeDescToMem w addr desc
  let newTail := (tail + 1) % rlen
  pure { w with csr := w.csr.write CSR.regTail newTail }

/-! ## Consumer -/

/-- `while not self.df.has_descriptor()`, with `left` of `max_steps` steps to go. -/
def awaitDescriptor : Nat → World → Py World
  | left, w =>
    if DescriptorFetcher.hasDescriptor w then pure w
    else do
      let (ran, w) ← AXI4MasterGolden.processOne w
      raiseIf (ran = false)
        (.runtimeError "AXI4MasterGolden could not make progress (empty queues / deadlock?)")
      match left with
      | 0 => throw (.runtimeError "fetch_next_descriptor: exceeded max_steps")
      | left + 1 => awaitDescriptor left w

def fetchNextDescriptor (w : World) : Py (Option Descriptor × World) :=
  if isEmpty w then pure (none, w)
  else do
    let head := head w
    let rlen ← ringlen w
    let ti := head % rlen
    let byteAddr ← slotByteAddr w ti
    let w ← DescriptorFetcher.submitHandle w byteAddr descWords
    let w ← awaitDescriptor 256 w
    let (desc, w) ← DescriptorFetcher.takeDescriptor w
    pure (some desc, w)

def complete (w : World) : Py World := do
  raiseIf (isEmpty w = true) (.runtimeError "No pending descriptor to complete")
  let head := head w
  let rlen ← ringlen w
  let hi := head % rlen
  let newHead := (hi + 1) % rlen
  pure { w with csr := w.csr.hwSetHead newHead }

end RingManager

end AxiDma.Golden
