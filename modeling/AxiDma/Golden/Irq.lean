import AxiDma.Golden.Objects

/-! # Interrupts of the golden model (`csr.py`, `irq.py`)

The hooks of the CSR model through which the hardware side sets its bits, and the interrupt
outputs computed from them.
-/

namespace AxiDma.Golden

namespace CSR

def busyBit : Nat := 0
def ringEmptyBit : Nat := 1

/-- `self._regs[offset] |= (1 << bit)`. -/
def setBit (c : CSR) (offset bit : Nat) : CSR := c.set offset (c.read offset ||| 1 <<< bit)

def hwSetBusy (c : CSR) (busy : Bool) : CSR :=
  if busy then c.setBit regStatus busyBit else c.clearBit regStatus busyBit

def hwSetRingEmpty (c : CSR) (empty : Bool) : CSR :=
  if empty then c.setBit regStatus ringEmptyBit else c.clearBit regStatus ringEmptyBit

def hwSetError (c : CSR) : CSR := (c.setBit regStatus errorBit).setBit regIrqStatus irqErrorBit

def hwSetEmptyIrq (c : CSR) : CSR := c.setBit regIrqStatus irqEmptyBit

def irqEn (c : CSR) : Bool := c.read regCtrl &&& 1 <<< irqEnBit != 0

end CSR

namespace IRQ

/-- It asks for ENABLE, its sibling for IRQ_EN. -/
def isIrqEmpty (csr : CSR) : Bool :=
  let status := csr.read CSR.regIrqStatus
  (status >>> CSR.irqEmptyBit) &&& 1 != 0 && csr.isEnabled

def isIrqError (csr : CSR) : Bool :=
  let status := csr.read CSR.regIrqStatus
  (status >>> CSR.irqErrorBit) &&& 1 != 0 && csr.irqEn

def anyPending (csr : CSR) : Bool := isIrqEmpty csr || isIrqError csr

end IRQ

end AxiDma.Golden
