import AxiDma.Rtl.CsrRing

/-! # Interrupt block (`IRQ.sv`)

The block latches the two events once more and drives the interrupt pin.
-/

namespace AxiDma.Rtl.Irq

structure State where
  statusEmpty : Bool
  statusError : Bool
  deriving DecidableEq, Repr

structure In where
  rstN : Bool
  emptyEvent : Bool
  errorEvent : Bool
  irqEn : Bool
  irqClear : BitVec 2
  deriving DecidableEq, Repr

def resetState : State := { statusEmpty := false, statusError := false }

/-! ## Outputs -/

def irqStatus (s : State) : BitVec 2 := BitVec.ofBool s.statusError ++ BitVec.ofBool s.statusEmpty

def irq (s : State) (i : In) : Bool := (s.statusError || s.statusEmpty) && i.irqEn

/-! ## Next state: the event wins over the clear -/

def nextStatusEmpty (s : State) (i : In) : Bool :=
  if i.emptyEvent then true else if i.irqClear.getLsbD 0 then false else s.statusEmpty

def nextStatusError (s : State) (i : In) : Bool :=
  if i.errorEvent then true else if i.irqClear.getLsbD 1 then false else s.statusError

def step (s : State) (i : In) : State :=
  if !i.rstN then resetState
  else { statusEmpty := nextStatusEmpty s i, statusError := nextStatusError s i }

end AxiDma.Rtl.Irq

/-! # With the CSR block and the ring manager

The events are the ring manager's `irq_empty` and `irq_error`, which it has gated by
CTRL.IRQ_EN; the clears are the pulses of the CSR block.  `dma_top` is not in the
repository, so the wiring is that of the port comments. -/

namespace AxiDma.Rtl.CsrRingIrq

structure State (maxInflight : Nat) where
  sys : CsrRing.State maxInflight
  irq : Irq.State
  deriving DecidableEq

variable {maxInflight : Nat}

def resetState (maxInflight : Nat) : State maxInflight :=
  { sys := CsrRing.resetState maxInflight, irq := Irq.resetState }

def irqIn (s : State maxInflight) (i : CsrRing.In) : Irq.In :=
  { rstN := i.rstN
    emptyEvent := RingManager.irqEmpty s.sys.rm (Csr.toRing s.sys.csr)
    errorEvent := RingManager.irqError (CsrRing.rmIn s.sys i)
    irqEn := (Csr.toRing s.sys.csr).irqEn
    irqClear := BitVec.ofBool (Csr.irqClearPulseError s.sys.csr) ++
      BitVec.ofBool (Csr.irqClearPulseEmpty s.sys.csr) }

def step (s : State maxInflight) (i : CsrRing.In) : State maxInflight :=
  { sys := CsrRing.step s.sys i, irq := Irq.step s.irq (irqIn s i) }

end AxiDma.Rtl.CsrRingIrq
