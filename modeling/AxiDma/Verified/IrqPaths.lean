import AxiDma.Lib.Run
import AxiDma.Rtl.Irq
import AxiDma.Verified.CsrFields

/-! # The two interrupt paths

The CSR block latches every event and gates its interrupt outputs by CTRL.IRQ_EN.  The
interrupt block latches events that IRQ_EN has gated already, and only the hard reset
clears it.  `paths_agree_iff` says which cycles keep the two in step.
-/

namespace AxiDma.Verified

open AxiDma.Lib AxiDma.Rtl

namespace IrqPaths

variable {maxInflight : Nat}

/-- `irq_status` shows the IRQ_STATUS bits, and both blocks drive the same interrupt. -/
structure Agree (s : CsrRingIrq.State maxInflight) : Prop where
  status : Irq.irqStatus s.irq =
    BitVec.ofBool s.sys.csr.irqError ++ BitVec.ofBool s.sys.csr.irqEmpty
  irq : ∀ i, Irq.irq s.irq (CsrRingIrq.irqIn s i) = Csr.irq s.sys.csr

/-- A cycle keeps one bit in step: under the soft reset of the CSR block the bit falls in
    the interrupt block too; else an event that IRQ_EN hides finds the bit set to stay. -/
def InStep (softReset irqEn event clear bit : Bool) : Prop :=
  (softReset = true → (irqEn && event) = false ∧ (clear = true ∨ bit = false)) ∧
    (softReset = false → event = true → irqEn = false → clear = false ∧ bit = true)

/-- Outside a hard reset, the cycle keeps both bits in step. -/
def CycleInStep (s : CsrRingIrq.State maxInflight) (i : CsrRing.In) : Prop :=
  let csr := s.sys.csr
  let softReset := Csr.softResets csr (CsrRing.csrIn s.sys i)
  let irqEn := (Csr.toRing csr).irqEn
  i.rstN = true →
    InStep softReset irqEn (RingManager.irqEmptySet s.sys.rm (Csr.toRing csr))
      (Csr.irqClearPulseEmpty csr) csr.irqEmpty ∧
    InStep softReset irqEn (RingManager.errorSet (CsrRing.rmIn s.sys i))
      (Csr.irqClearPulseError csr) csr.irqError

/-! ## One bit -/

/-- The next value of a bit in the CSR block. -/
def csrBit (softReset event clear bit : Bool) : Bool :=
  if softReset then false else if event then true else if clear then false else bit

/-- Its next value in the interrupt block. -/
def irqBit (irqEn event clear bit : Bool) : Bool :=
  if irqEn && event then true else if clear then false else bit

theorem irqBit_eq_csrBit_iff (softReset irqEn event clear bit : Bool) :
    irqBit irqEn event clear bit = csrBit softReset event clear bit ↔
      InStep softReset irqEn event clear bit := by
  -- the two differ only in the soft reset and in the gate on the event
  unfold irqBit csrBit InStep
  cases softReset <;> cases irqEn <;> cases event <;> cases clear <;> cases bit <;> simp

/-! ## Two bits as one vector -/

theorem low_of_pair (high low : Bool) :
    (BitVec.ofBool high ++ BitVec.ofBool low).getLsbD 0 = low := by
  cases high <;> cases low <;> rfl

theorem high_of_pair (high low : Bool) :
    (BitVec.ofBool high ++ BitVec.ofBool low).getLsbD 1 = high := by
  cases high <;> cases low <;> rfl

/-! ## One cycle -/

variable {s : CsrRingIrq.State maxInflight} {i : CsrRing.In}

theorem agree_iff :
    Agree s ↔ s.irq.statusEmpty = s.sys.csr.irqEmpty ∧ s.irq.statusError = s.sys.csr.irqError := by
  constructor
  · rintro ⟨status, -⟩
    rw [Irq.irqStatus] at status
    constructor
    · rw [← low_of_pair s.irq.statusError s.irq.statusEmpty, status, low_of_pair]
    · rw [← high_of_pair s.irq.statusError s.irq.statusEmpty, status, high_of_pair]
  · rintro ⟨empty, error⟩
    refine ⟨by rw [Irq.irqStatus, empty, error], fun i => ?_⟩
    rw [Irq.irq, empty, error, Csr.irq, Csr.irqEmpty, Csr.irqError, ← Bool.and_or_distrib_left,
      Bool.and_comm, Bool.or_comm]
    rfl

theorem statusEmpty_step (rstN : i.rstN = true) :
    (CsrRingIrq.step s i).irq.statusEmpty =
      irqBit (Csr.toRing s.sys.csr).irqEn (RingManager.irqEmptySet s.sys.rm (Csr.toRing s.sys.csr))
        (Csr.irqClearPulseEmpty s.sys.csr) s.irq.statusEmpty := by
  have clear : (CsrRingIrq.irqIn s i).irqClear.getLsbD 0 = Csr.irqClearPulseEmpty s.sys.csr :=
    low_of_pair ..
  have runs : (CsrRingIrq.irqIn s i).rstN = true := rstN
  show (Irq.step s.irq (CsrRingIrq.irqIn s i)).statusEmpty = _
  simp only [Irq.step, runs, Bool.not_true, Bool.false_eq_true, if_false, Irq.nextStatusEmpty, clear]
  rfl

theorem statusError_step (rstN : i.rstN = true) :
    (CsrRingIrq.step s i).irq.statusError =
      irqBit (Csr.toRing s.sys.csr).irqEn (RingManager.errorSet (CsrRing.rmIn s.sys i))
        (Csr.irqClearPulseError s.sys.csr) s.irq.statusError := by
  have clear : (CsrRingIrq.irqIn s i).irqClear.getLsbD 1 = Csr.irqClearPulseError s.sys.csr :=
    high_of_pair ..
  have runs : (CsrRingIrq.irqIn s i).rstN = true := rstN
  show (Irq.step s.irq (CsrRingIrq.irqIn s i)).statusError = _
  simp only [Irq.step, runs, Bool.not_true, Bool.false_eq_true, if_false, Irq.nextStatusError, clear]
  rfl

theorem agree_step_iff (s : CsrRingIrq.State maxInflight) (i : CsrRing.In) (agree : Agree s) :
    Agree (CsrRingIrq.step s i) ↔ CycleInStep s i := by
  cases rstN : i.rstN with
  | false =>
    have both : (CsrRingIrq.step s i).irq = Irq.resetState ∧
        (CsrRingIrq.step s i).sys.csr = Csr.resetState := by
      simp [CsrRingIrq.step, Irq.step, CsrRingIrq.irqIn, CsrRing.step, Csr.step, CsrRing.csrIn, rstN]
    simp [agree_iff, both, Irq.resetState, Csr.resetState, CycleInStep, rstN]
  | true =>
    obtain ⟨empty, error⟩ := agree_iff.mp agree
    have csr : (CsrRingIrq.step s i).sys.csr = Csr.next s.sys.csr (CsrRing.csrIn s.sys i) :=
      CsrRing.csr_step_of_run rstN
    rw [agree_iff, statusEmpty_step rstN, statusError_step rstN, csr, Csr.next_irqEmpty,
      Csr.next_irqError, empty, error]
    -- each of the two bits has its own event and its own clear
    simp only [CycleInStep, rstN, forall_const]
    exact and_congr (irqBit_eq_csrBit_iff ..) (irqBit_eq_csrBit_iff ..)

end IrqPaths

/-- They agree in every cycle of a run from the
    hard reset exactly if every cycle keeps both bits in step. -/
theorem paths_agree_iff {maxInflight : Nat} (is : List CsrRing.In) :
    (∀ pre, pre <+: is →
      IrqPaths.Agree (run CsrRingIrq.step (CsrRingIrq.resetState maxInflight) pre)) ↔
    LegalRun CsrRingIrq.step IrqPaths.CycleInStep (CsrRingIrq.resetState maxInflight) is :=
  (legalRun_iff_always IrqPaths.agree_step_iff (IrqPaths.agree_iff.mpr ⟨rfl, rfl⟩)).symm

namespace IrqPaths

/-- A cycle of the bus with a fetcher that is always ready. -/
def cycle (bus : AxiLiteMaster) : CsrRing.In :=
  { rstN := true, bus := bus, fetchReqReady := true, asDone := false, dfError := false }

/-- RINGLEN 4, TAIL 1 and ENABLE without IRQ_EN, until the ring is empty again. -/
def emptiedWithoutEnable : List CsrRing.In :=
  (Csr.writeCycles Csr.regRinglen 4 ++ Csr.writeCycles Csr.regTail 1 ++
    Csr.writeCycles Csr.regCtrl 1 ++ [Csr.busIdle, Csr.busIdle]).map cycle

set_option maxRecDepth 100000 in
/-- The empty event of a ring with IRQ_EN clear is in IRQ_STATUS only. -/
theorem gated_event_only_in_csr :
    let s := run CsrRingIrq.step (CsrRingIrq.resetState 4) emptiedWithoutEnable
    s.sys.csr.irqEmpty = true ∧ Irq.irqStatus s.irq = 0 ∧ ¬ Agree s := by
  refine ⟨by decide, by decide, fun agree => ?_⟩
  exact absurd agree.status (by decide)

end IrqPaths

end AxiDma.Verified
