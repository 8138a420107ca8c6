import AxiDma.Golden.Ring

/-! # The golden driver (`run_golden.py`)

`runScenario` takes the rows of a scenario after `int()` has read their fields: the setup
phase writes the memories, the ring and the registers and records the stimulus lines, and
the event loop drains the ring.
-/

namespace AxiDma.Golden

open AxiDma.Lib

def smemWordsDefault : Nat := 1024
def sramWordsDefault : Nat := 1024
def fifoDepth : Nat := 64
def dmDepth : Nat := 16
def midDepth : Nat := 128

/-! ## Instructions -/

/-- The 65-bit word of `data_mover`: `{rw, len32, addr}`. -/
def build65 (addr len32 rw : Nat) : Nat :=
  (addr &&& 0xFFFFFFFF) ||| (len32 &&& 0xFFFFFFFF) <<< 32 ||| (rw &&& 1) <<< 64

def narrow65To41 (w65 : Nat) : Nat :=
  (w65 &&& 0xFFFFFFFF) ||| ((w65 >>> 32) &&& 0xFF) <<< lenLsb ||| ((w65 >>> 64) &&& 1) <<< rwBit

def descToInstrPair (desc : Descriptor) : Nat × Nat :=
  let src := desc.w0 &&& mask32
  let dst := desc.w1 &&& mask32
  let len32 := desc.w2 &&& mask32
  let dirBit := desc.w3 &&& 1
  if dirBit ≠ 0 then
    -- system memory to SRAM
    (narrow65To41 (build65 src len32 0), narrow65To41 (build65 dst len32 1))
  else (narrow65To41 (build65 dst len32 1), narrow65To41 (build65 src len32 0))

/-- `while not idle: process_one()`, with `left` of `max_steps` steps to go. -/
def drain (idle : World → Bool) (processOne : World → Py (Bool × World)) (stalled : PyError) :
    Nat → World → Py World
  | left, w =>
    if idle w then pure w
    else do
      let (ran, w) ← processOne w
      if ran = false then pure w
      else
        match left with
        | 0 => throw stalled
        | left + 1 => drain idle processOne stalled left w

def drainAxiDm (w : World) (instrAxi : Nat) : Py World :=
  drain AXI4MasterGolden.idle AXI4MasterGolden.processOne
    (.runtimeError ("AXI golden DM path stalled (instr=0x" ++ hex 9 instrAxi ++ ")")) 512 w

def drainSramDm (w : World) (instrSram : Nat) : Py World :=
  drain SRAMController.idle SRAMController.processOne
    (.runtimeError ("SRAM controller DM path stalled (instr=0x" ++ hex 9 instrSram ++ ")")) 512 w

/-! ## Setup -/

/-- A row of the scenario. -/
inductive Row where
  | smem (wi data : Int)
  | sram (wi data : Int)
  | csrBaseaddr (addr : Int)
  | csrRinglen (rlen : Int)
  | desc (src dst len flags : Int)
  | enable
  | other (op : String)
  deriving DecidableEq, Repr

/-- A line of `stim.txt`. -/
inductive Stim where
  | sysmemWrite (addr : Int) (data : Nat)
  | sramWrite (addr : Int) (data : Nat)
  | csrWrite (offset : Nat) (data : Int)
  deriving DecidableEq, Repr

structure Setup where
  world : World
  stim : List Stim

def Setup.emit (s : Setup) (world : World) (lines : List Stim) : Setup :=
  { world, stim := s.stim ++ lines }

/-- `%`, which raises on a zero divisor. -/
def pyMod (a b : Nat) : Py Nat := do
  raiseIf (b = 0) .zeroDivisionError
  pure (a % b)

def setupRow (s : Setup) (row : Row) : Py Setup :=
  let w := s.world
  match row with
  | .smem wi data => do
    raiseIf (w.sysmem.size ≤ wi)
      (.valueError ("smem word index " ++ toString wi ++ " out of range (size=" ++
        toString w.sysmem.size ++ ")"))
    let mem ← store w.sysmem.mem wi (maskInt data)
    pure (s.emit { w with sysmem := { w.sysmem with mem } } [.sysmemWrite (wi * 4) (maskInt data)])
  | .sram wi data => do
    raiseIf (w.sram.size ≤ wi)
      (.valueError ("sram word index " ++ toString wi ++ " out of range (size=" ++
        toString w.sram.size ++ ")"))
    let mem ← store w.sram.mem wi (maskInt data)
    pure (s.emit { w with sram := { w.sram with mem } } [.sramWrite (wi * 4) (maskInt data)])
  | .csrBaseaddr addr =>
    let addr := maskInt addr
    pure (s.emit { w with csr := w.csr.write CSR.regBaseaddr addr }
      [.csrWrite CSR.regBaseaddr addr])
  | .csrRinglen rlen =>
    pure (s.emit { w with csr := w.csr.write CSR.regRinglen rlen } [.csrWrite CSR.regRinglen rlen])
  | .desc src dst len flags => do
    let w0 := maskInt src
    let w1 := maskInt dst
    let w2 := maskInt len
    let w3 := maskInt flags
    let desc := Descriptor.init w0 w1 w2 w3
    -- the slot is computed again, for the stimulus lines
    let rlen := w.csr.ringlen &&& mask32
    let base := w.csr.baseaddr &&& mask32
    let ti ← pyMod (w.csr.read CSR.regTail) rlen
    let slot := base + ti * 16
    let w ← RingManager.enqueue w desc
    let tail := w.csr.read CSR.regTail
    pure (s.emit w
      [.sysmemWrite ↑(slot + 0) w0, .sysmemWrite ↑(slot + 4) w1, .sysmemWrite ↑(slot + 8) w2,
        .sysmemWrite ↑(slot + 12) w3, .csrWrite CSR.regTail tail])
  | .enable =>
    let ctrl := w.csr.read CSR.regCtrl ||| 1 <<< CSR.enableBit ||| 1 <<< CSR.irqEnBit
    -- no stimulus line: CMD_RUN_DMA sets ENABLE
    pure { s with world := { w with csr := w.csr.write CSR.regCtrl ctrl } }
  | .other op => throw (.valueError ("unknown CSV op: '" ++ op ++ "'"))

def buildWorld (smemWords sramWords : Nat) : Py World := do
  let sysmem ← SystemMemory.init smemWords
  let sram ← SRAM.init sramWords
  let dfIn ← FIFOQueue.init "df_in" fifoDepth
  let dfOut ← FIFOQueue.init "df_out" fifoDepth
  let dmAxi ← FIFOQueue.init "dm_axi" dmDepth
  let dmSram ← FIFOQueue.init "dm_sram" dmDepth
  let mid ← FIFOQueue.init "mid" midDepth
  pure { sysmem, sram, csr := CSR.init, dfIn, dfOut, dmAxi, dmSram, mid }

/-! ## Event loop -/

/-- What one iteration does with the descriptor it fetched. -/
def moveDescriptor (w : World) (desc : Descriptor) : Py World := do
  let (instrAxi, instrSram) := descToInstrPair desc
  let dmAxi ← w.dmAxi.enqueue instrAxi
  let dmSram ← w.dmSram.enqueue instrSram
  let w := { w with dmAxi, dmSram }
  let dirBit := desc.w3 &&& 1
  let w ← (if dirBit ≠ 0 then do
      let w ← drainAxiDm w instrAxi
      drainSramDm w instrSram
    else do
      let w ← drainSramDm w instrSram
      drainAxiDm w instrAxi)
  RingManager.complete w

/-- `for _ in range(MAX_ITERS)`, with `left` iterations to go; only a `break` returns. -/
def eventLoop : Nat → World → List Nat → Py (World × List Nat)
  | 0, _, _ => throw (.runtimeError "run_scenario: exceeded MAX_ITERS without draining ring")
  | left + 1, w, descsFetched =>
    if RingManager.isEmpty w then pure (w, descsFetched)
    else do
      let (desc, w) ← RingManager.fetchNextDescriptor w
      match desc with
      | none => pure (w, descsFetched)
      | some desc => do
        let w ← moveDescriptor w desc
        eventLoop left w (descsFetched ++ [desc.pack])

def maxIters : Nat := 1000

structure Result where
  stimLines : List Stim
  initialSmem : List Nat
  finalSmem : List Nat
  initialSram : List Nat
  finalSram : List Nat
  descsFetched : List Nat
  deriving DecidableEq, Repr

def runScenario (rows : List Row) (smemWords sramWords : Nat) : Py Result := do
  let world ← buildWorld smemWords sramWords
  let s ← rows.foldlM setupRow { world, stim := [] }
  let w := s.world
  if w.csr.isEnabled = false then
    pure { stimLines := s.stim, initialSmem := w.sysmem.mem, finalSmem := w.sysmem.mem,
           initialSram := w.sram.mem, finalSram := w.sram.mem, descsFetched := [] }
  else do
    let (final, descsFetched) ← eventLoop maxIters w []
    pure { stimLines := s.stim, initialSmem := w.sysmem.mem, finalSmem := final.sysmem.mem,
           initialSram := w.sram.mem, finalSram := final.sram.mem, descsFetched }

end AxiDma.Golden
