import AxiDma.Golden.Objects

/-! # The golden engines (`axi_4_master.py`, `sram_controller.py`)

One call of `process_one` completes one handle or one instruction.  The loops of the source
are recursions here; a loop that raises loses its partial effect with the whole run.
-/

namespace AxiDma.Golden

open AxiDma.Lib

def lenLsb : Nat := 32
def rwBit : Nat := 40

/-! ## `axi_4_master.py` -/

def packHandle (addr lenBeats : Nat) : Nat :=
  (addr &&& mask32) ||| (lenBeats &&& 0xFF) <<< 32

def wordIndex (byteAddr : Nat) : Py Nat := do
  raiseIf (byteAddr &&& 0x3 ≠ 0)
    (.valueError ("AXI address must be 4-byte aligned, got 0x" ++ hex 8 byteAddr))
  pure ((byteAddr >>> 2) &&& mask32)

/-- The loop runs over the first `DESC_WORDS` words. -/
def packDescriptorWords (words : List Nat) : Nat :=
  (words.take descWords).zipIdx.foldl (fun p (w, i) => p ||| (w &&& mask32) <<< (32 * i)) 0 &&&
    (1 <<< 128 - 1)

/-- `mem[a] = w & 0xFFFFFFFF` for the words in turn. -/
def storeWords : List Nat → Nat → List Nat → List Nat
  | mem, _, [] => mem
  | mem, a, w :: ws => storeWords (mem.set a (w &&& mask32)) (a + 1) ws

/-- `[mid.dequeue() & 0xFFFFFFFF for _ in range(n)]`. -/
def dequeueWords : Nat → FIFOQueue → Py (List Nat × FIFOQueue)
  | 0, q => pure ([], q)
  | n + 1, q => do
    let (w, q) ← q.dequeue
    let (ws, q) ← dequeueWords n q
    pure ((w &&& mask32) :: ws, q)

namespace AXI4MasterGolden

def idle (w : World) : Bool := w.dfIn.isEmpty && w.dmAxi.isEmpty

def memReadWords (w : World) (byteAddr numBeats : Nat) : Py (List Nat) := do
  let w0 ← wordIndex byteAddr
  if numBeats = 0 then pure []
  else do
    raiseIf (w.sysmem.mem.length < w0 + numBeats) (.valueError "read burst out of bounds")
    -- the test keeps every index inside the list
    pure ((List.range numBeats).map fun i => (w.sysmem.mem[w0 + i]?).getD 0 &&& mask32)

def memWriteWords (w : World) (byteAddr : Nat) (words : List Nat) : Py World := do
  let w0 ← wordIndex byteAddr
  raiseIf (w.sysmem.mem.length < w0 + words.length) (.valueError "write burst out of bounds")
  pure { w with sysmem := { w.sysmem with mem := storeWords w.sysmem.mem w0 words } }

def doDescriptorFetch (w : World) : Py World := do
  let (handle, dfIn) ← w.dfIn.dequeue
  let byteAddr := handle &&& mask32
  let numBeats := (handle >>> lenLsb) &&& 0xFF
  raiseIf (descWords < numBeats)
    (.valueError ("functional golden: descriptor fetch len=" ++ toString numBeats ++ " exceeds " ++
      toString descWords ++ " words"))
  let words ← memReadWords w byteAddr numBeats
  raiseIf (w.dfOut.isFull = true) (.runtimeError "df_out FIFO full (backpressure)")
  let dfOut ← w.dfOut.enqueue (packDescriptorWords words)
  pure { w with dfIn, dfOut }

def doInstruction (w : World) : Py World := do
  let (instr, dmAxi) ← w.dmAxi.dequeue
  let w := { w with dmAxi }
  let byteAddr := instr &&& mask32
  let numBeats := (instr >>> lenLsb) &&& 0xFF
  let isWrite := (instr >>> rwBit) &&& 1 != 0
  -- an empty instruction is popped and does nothing
  if numBeats = 0 then pure w
  else if isWrite then do
    raiseIf (w.mid.len < numBeats)
      (.valueError ("write instruction needs " ++ toString numBeats ++ " MID words, have " ++
        toString w.mid.len))
    let (words, mid) ← dequeueWords numBeats w.mid
    memWriteWords { w with mid } byteAddr words
  else do
    let free := w.mid.queueLength - w.mid.len
    raiseIf (free < numBeats)
      (.runtimeError ("MID FIFO cannot accept " ++ toString numBeats ++ " beats (only " ++
        toString free ++ " free)"))
    let words ← memReadWords w byteAddr numBeats
    let mid ← words.foldlM FIFOQueue.enqueue w.mid
    pure { w with mid }

/-- Handles have priority over instructions. -/
def processOne (w : World) : Py (Bool × World) :=
  if !w.dfIn.isEmpty then do
    let w ← doDescriptorFetch w
    pure (true, w)
  else if !w.dmAxi.isEmpty then do
    let w ← doInstruction w
    pure (true, w)
  else pure (false, w)

end AXI4MasterGolden

/-! ## `sram_controller.py` -/

namespace SRAMController

def idle (w : World) : Bool := w.dmSram.isEmpty

/-- `sram[a + i] = mid.dequeue() & 0xFFFFFFFF` for `i` in `range(n)`. -/
def writeWords : Nat → Nat → World → Py World
  | 0, _, w => pure w
  | n + 1, a, w => do
    let (data, mid) ← w.mid.dequeue
    let mem ← store w.sram.mem a (data &&& mask32)
    writeWords n (a + 1) { w with mid, sram := { w.sram with mem } }

/-- `mid.enqueue(sram[a + i] & 0xFFFFFFFF)` for `i` in `range(n)`. -/
def readWords : Nat → Nat → World → Py World
  | 0, _, w => pure w
  | n + 1, a, w => do
    let data ← load w.sram.mem a
    let mid ← w.mid.enqueue (data &&& mask32)
    readWords n (a + 1) { w with mid }

def processOne (w : World) : Py (Bool × World) :=
  if w.dmSram.isEmpty then pure (false, w)
  else do
    let (instr, dmSram) ← w.dmSram.dequeue
    let w := { w with dmSram }
    let byteAddr := instr &&& mask32
    let numBeats := (instr >>> lenLsb) &&& 0xFF
    let isWrite := (instr >>> rwBit) &&& 1 != 0
    let wordIdx := byteAddr >>> 2
    let w ← (if isWrite then writeWords numBeats wordIdx w else readWords numBeats wordIdx w)
    pure (true, w)

end SRAMController

end AxiDma.Golden
