import AxiDma.Firmware.UartReadWrite

/-! # The test suite (`test2.c`)

Every test lays out a ring, starts the DMA on it, polls STATUS and compares the memories.  The
memory accessors are those of `uart_read_write.c`; here is what the tests do with the CSR block.
-/

namespace AxiDma.Firmware

open AxiDma.Lib AxiDma.Rtl

def ctrlIrqEn : Word := 4

def dirSramToSysmem : Word := 0

def irqEmptyBit : Word := 1
def irqErrorBit : Word := 2

def csrWrite (offset data : Word) : Prog Unit := out32 (csrAccessBase + offset) data
def csrRead (offset : Word) : Prog Word := in32 (csrAccessBase + offset)

def resetDma : Prog Unit := do
  csrWrite csrRegCtrl ctrlReset
  csrWrite csrRegCtrl 0

/-- `wait_for_dma_done`: at most `timeout` polls of STATUS. -/
def waitForDmaDone : Nat → Prog Bool
  | 0 => do
    xilPrintf "  TIMEOUT waiting for DMA done\r\n" []
    return false
  | timeout + 1 => do
    let status ← csrRead csrRegStatus
    if status &&& statusError ≠ 0 then
      let irqStatus ← csrRead csrRegIrqStatus
      xilPrintf "  DMA ERROR: STATUS=0x%08X IRQ_STATUS=0x%08X\r\n" [status, irqStatus]
      return false
    else if status &&& statusEmpty ≠ 0 ∧ status &&& statusBusy = 0 then return true
    else waitForDmaDone timeout

/-- "Configure and start DMA": the writes each test makes once its ring is laid out. -/
def configureAndStart (ringBase ringLen tail : Word) : Prog Unit := do
  csrWrite csrRegIrqClear (irqEmptyBit ||| irqErrorBit)
  csrWrite csrRegBaseaddr ringBase
  csrWrite csrRegRinglen ringLen
  csrWrite csrRegTail tail
  csrWrite csrRegCtrl (ctrlEnable ||| ctrlIrqEn)

/-- The part the tests have in common. -/
def runRing (ringBase ringLen tail : Word) (timeout : Nat) : Prog Bool := do
  configureAndStart ringBase ringLen tail
  waitForDmaDone timeout

/-! ## `test_status_and_irq` -/

/-- A check that reports its failure. -/
def check (passes : Bool) (format : String) (args : List Word) : Prog Bool :=
  if passes then return true
  else do
    xilPrintf format args
    return false

/-- "Check final status". -/
def finalStatus : Prog Bool := do
  let statusAfter ← csrRead csrRegStatus
  let irqStatus ← csrRead csrRegIrqStatus
  let head ← csrRead csrRegHead
  let tail ← csrRead csrRegTail
  xilPrintf "  Final status: 0x%08X, IRQ_STATUS: 0x%08X\r\n" [statusAfter, irqStatus]
  xilPrintf "  HEAD: %u, TAIL: %u\r\n" [head, tail]
  let empty ← check (statusAfter &&& statusEmpty != 0)
    "  FAIL: Ring should be empty after completion\r\n" []
  let noError ← check (statusAfter &&& statusError == 0) "  FAIL: Error bit should not be set\r\n" []
  let irqEmpty ← check (irqStatus &&& irqEmptyBit != 0) "  FAIL: IRQ_EMPTY should be set\r\n" []
  let same ← check (head == tail)
    "  FAIL: HEAD should equal TAIL when ring is empty (HEAD=%u, TAIL=%u)\r\n" [head, tail]
  if empty && noError && irqEmpty && same then
    xilPrintf "  PASS: Status and IRQ verified\r\n" []
    return true
  else return false

/-- From "Configure DMA with IRQ enabled" on. -/
def statusAndIrq (ringBase ringLen tail : Word) (timeout : Nat) : Prog Bool := do
  csrWrite csrRegIrqClear (irqEmptyBit ||| irqErrorBit)
  csrWrite csrRegBaseaddr ringBase
  csrWrite csrRegRinglen ringLen
  -- RING_EMPTY is read before TAIL is written, so it says HEAD = 0 = TAIL
  let statusBefore ← csrRead csrRegStatus
  xilPrintf "  Initial status: 0x%08X\r\n" [statusBefore]
  if statusBefore &&& statusEmpty = 0 then
    xilPrintf "  FAIL: Ring should be empty initially\r\n" []
    return false
  else
    csrWrite csrRegTail tail
    csrWrite csrRegCtrl (ctrlEnable ||| ctrlIrqEn)
    let statusDuring ← csrRead csrRegStatus
    xilPrintf "  Status during: 0x%08X\r\n" [statusDuring]
    let done ← waitForDmaDone timeout
    if done then finalStatus else return false

namespace StatusAndIrq

def ringBase : Word := 0xA00
def descSrc : Word := 0xB00
def descDst : Word := 0xB10
def ringLen : Word := 2
def data : Word := 0xABCDEF00

end StatusAndIrq

open StatusAndIrq in
def testStatusAndIrq : Prog Bool := do
  xilPrintf "\n=== TEST 7: Status and IRQ Verification ===\r\n" []
  resetDma
  sramWrite descSrc data
  sysmemWrite (ringBase + 0x00) descSrc
  sysmemWrite (ringBase + 0x04) descDst
  sysmemWrite (ringBase + 0x08) 1
  sysmemWrite (ringBase + 0x0C) dirSramToSysmem
  regWrite regInitDone 1
  statusAndIrq ringBase ringLen 1 1000000

end AxiDma.Firmware
