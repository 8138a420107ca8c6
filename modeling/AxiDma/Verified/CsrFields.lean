import AxiDma.Rtl.Csr
import Mathlib.Tactic.SplitIfs

/-! # What one cycle does to each CSR register

`next` composes seven overriding paragraphs, and one of them, `writeReg`, decides by the
offset.  Each theorem here reads one field off that composition; the users of the CSR block
cite these and do not unfold it.
-/

namespace AxiDma.Rtl.Csr

/-! ## The register update

What a committing write does to each register, by its offset.
-/

section WriteReg

variable (s c : State)

theorem writeReg_baseaddr :
    (writeReg s c).baseaddr =
      if wrAddrLsb s = regBaseaddr then applyWstrb s.baseaddr s.wdata s.wstrb else c.baseaddr := by
  by_cases here : wrAddrLsb s = regBaseaddr
  · simp +decide [writeReg, here]
  · simp [writeReg, here, apply_ite State.baseaddr]

theorem writeReg_ringlen :
    (writeReg s c).ringlen =
      if wrAddrLsb s = regRinglen then applyWstrb s.ringlen s.wdata s.wstrb else c.ringlen := by
  by_cases here : wrAddrLsb s = regRinglen
  · simp +decide [writeReg, here]
  · simp [writeReg, here, apply_ite State.ringlen]

theorem writeReg_tail :
    (writeReg s c).tail =
      if wrAddrLsb s = regTail then applyWstrb s.tail s.wdata s.wstrb else c.tail := by
  by_cases here : wrAddrLsb s = regTail
  · simp +decide [writeReg, here]
  · simp [writeReg, here, apply_ite State.tail]

theorem writeReg_ctrl :
    (writeReg s c).ctrl = if wrAddrLsb s = regCtrl then ctrlWriteData s &&& 7 else c.ctrl := by
  by_cases here : wrAddrLsb s = regCtrl
  · simp +decide [writeReg, here, apply_ite State.ctrl]
  · simp [writeReg, here, apply_ite State.ctrl]

theorem writeReg_ctrlReadbackPending :
    (writeReg s c).ctrlReadbackPending =
      if wrAddrLsb s = regCtrl ∧ (ctrlWriteData s).getLsbD 1 = true then true
      else c.ctrlReadbackPending := by
  by_cases here : wrAddrLsb s = regCtrl
  · simp +decide [writeReg, here, apply_ite State.ctrlReadbackPending]
  · simp [writeReg, here, apply_ite State.ctrlReadbackPending]

theorem writeReg_ctrlReadbackData :
    (writeReg s c).ctrlReadbackData =
      if wrAddrLsb s = regCtrl ∧ (ctrlWriteData s).getLsbD 1 = true then ctrlWriteData s &&& 5
      else c.ctrlReadbackData := by
  by_cases here : wrAddrLsb s = regCtrl
  · simp +decide [writeReg, here, apply_ite State.ctrlReadbackData]
  · simp [writeReg, here, apply_ite State.ctrlReadbackData]

theorem writeReg_irqEmpty :
    (writeReg s c).irqEmpty =
      if wrAddrLsb s = regIrqClear ∧ (writeDataMasked s).getLsbD 0 = true then false
      else c.irqEmpty := by
  by_cases here : wrAddrLsb s = regIrqClear
  · simp +decide [writeReg, here, apply_ite State.irqEmpty]
  · simp [writeReg, here, apply_ite State.irqEmpty]

theorem writeReg_irqError :
    (writeReg s c).irqError =
      if wrAddrLsb s = regIrqClear ∧ (writeDataMasked s).getLsbD 1 = true then false
      else c.irqError := by
  by_cases here : wrAddrLsb s = regIrqClear
  · simp +decide [writeReg, here, apply_ite State.irqError]
  · simp [writeReg, here, apply_ite State.irqError]

theorem writeReg_statusError :
    (writeReg s c).statusError =
      if wrAddrLsb s = regIrqClear ∧ (writeDataMasked s).getLsbD 1 = true then false
      else c.statusError := by
  by_cases here : wrAddrLsb s = regIrqClear
  · simp +decide [writeReg, here, apply_ite State.statusError]
  · simp [writeReg, here, apply_ite State.statusError]

theorem writeReg_irqClearErrorPending :
    (writeReg s c).irqClearErrorPending =
      if wrAddrLsb s = regIrqClear ∧ (writeDataMasked s).getLsbD 1 = true then true
      else c.irqClearErrorPending := by
  by_cases here : wrAddrLsb s = regIrqClear
  · simp +decide [writeReg, here, apply_ite State.irqClearErrorPending]
  · simp [writeReg, here, apply_ite State.irqClearErrorPending]

end WriteReg

/-! ## Configuration registers -/

theorem next_baseaddr (s : State) (i : In) :
    (next s i).baseaddr =
      if softResets s i then 0
      else if commitsTo s regBaseaddr then applyWstrb s.baseaddr s.wdata s.wstrb
      else s.baseaddr := by
  simp only [next, softReset, events, readChannel, commitOrRespond, captureW, captureAw,
    apply_ite State.baseaddr, writeReg_baseaddr, ite_self, commitsTo, Bool.and_eq_true, beq_iff_eq,
    ite_and]

theorem next_ringlen (s : State) (i : In) :
    (next s i).ringlen =
      if softResets s i then 0
      else if commitsTo s regRinglen then applyWstrb s.ringlen s.wdata s.wstrb
      else s.ringlen := by
  simp only [next, softReset, events, readChannel, commitOrRespond, captureW, captureAw,
    apply_ite State.ringlen, writeReg_ringlen, ite_self, commitsTo, Bool.and_eq_true, beq_iff_eq,
    ite_and]

theorem next_tail (s : State) (i : In) :
    (next s i).tail =
      if softResets s i then 0
      else if commitsTo s regTail then applyWstrb s.tail s.wdata s.wstrb
      else s.tail := by
  simp only [next, softReset, events, readChannel, commitOrRespond, captureW, captureAw,
    apply_ite State.tail, writeReg_tail, ite_self, commitsTo, Bool.and_eq_true, beq_iff_eq,
    ite_and]

/-- Only CTRL's three low bits are kept. -/
theorem next_ctrl (s : State) (i : In) :
    (next s i).ctrl =
      if softResets s i then 0
      else if commitsTo s regCtrl then ctrlWriteData s &&& 7
      else s.ctrl := by
  simp only [next, softReset, events, readChannel, commitOrRespond, captureW, captureAw,
    apply_ite State.ctrl, writeReg_ctrl, ite_self, commitsTo, Bool.and_eq_true, beq_iff_eq,
    ite_and]

theorem softResets_of_noReset {s : State} {i : In} (noReset : s.ctrl.getLsbD 1 = false) :
    softResets s i = false := by
  rw [softResets, noReset]
  rfl

/-- RESET stays clear until a write sets it. -/
theorem noReset_next {s : State} {i : In} (noReset : s.ctrl.getLsbD 1 = false)
    (write : (commitsTo s regCtrl && (ctrlWriteData s).getLsbD 1) = false) :
    (next s i).ctrl.getLsbD 1 = false := by
  rw [next_ctrl, softResets_of_noReset noReset, if_neg Bool.false_ne_true]
  cases commits : commitsTo s regCtrl with
  | false => simpa using noReset
  | true =>
    rw [commits, Bool.true_and] at write
    rw [if_pos rfl, BitVec.getLsbD_and, write, Bool.false_and]

/-! ## Sticky bits -/

/-- An error of the cycle wins over an IRQ_CLEAR that commits in it. -/
theorem next_statusError (s : State) (i : In) :
    (next s i).statusError =
      if softResets s i then false
      else if i.ring.errorSet then true
      else if irqClearPulseError s then false
      else s.statusError := by
  simp only [next, softReset, events, readChannel, commitOrRespond, captureW, captureAw,
    apply_ite State.statusError, writeReg_statusError, ite_self, commitsTo, irqClearPulseError,
    Bool.and_eq_true, beq_iff_eq, ite_and]

/-- An empty event of the cycle wins over an IRQ_CLEAR that commits in it. -/
theorem next_irqEmpty (s : State) (i : In) :
    (next s i).irqEmpty =
      if softResets s i then false
      else if i.ring.irqEmptySet then true
      else if irqClearPulseEmpty s then false
      else s.irqEmpty := by
  simp only [next, softReset, events, readChannel, commitOrRespond, captureW, captureAw,
    apply_ite State.irqEmpty, writeReg_irqEmpty, ite_self, commitsTo, irqClearPulseEmpty,
    Bool.and_eq_true, beq_iff_eq, ite_and]

theorem next_irqError (s : State) (i : In) :
    (next s i).irqError =
      if softResets s i then false
      else if i.ring.errorSet then true
      else if irqClearPulseError s then false
      else s.irqError := by
  simp only [next, softReset, events, readChannel, commitOrRespond, captureW, captureAw,
    apply_ite State.irqError, writeReg_irqError, ite_self, commitsTo, irqClearPulseError,
    Bool.and_eq_true, beq_iff_eq, ite_and]

/-! ## The clear pulse for the ring manager -/

theorem bvalid_of_commits {s : State} (commits : commits s = true) : s.bvalid = false := by
  simp only [Csr.commits, Bool.and_eq_true, Bool.not_eq_true'] at commits
  exact commits.1.1

/-- Every response is OKAY: nothing assigns SLVERR. -/
theorem next_bresp {s : State} (okay : s.bresp = axiRespOkay) (i : In) :
    (next s i).bresp = axiRespOkay := by
  simp only [next, softReset, events, readChannel, commitOrRespond, writeReg, captureW, captureAw,
    apply_ite State.bresp, ite_self, okay]

/-- An IRQ_CLEAR[1] that has committed waits for its B handshake. -/
theorem next_irqClearErrorPending (s : State) (i : In) :
    (next s i).irqClearErrorPending =
      (irqClearPulseError s || s.irqClearErrorPending && !(s.bvalid && i.bus.bready)) := by
  simp only [next, softReset, events, readChannel, commitOrRespond, captureW, captureAw,
    apply_ite State.irqClearErrorPending, writeReg_irqClearErrorPending, ite_self, commitsTo,
    irqClearPulseError, Bool.and_eq_true]
  cases committing : commits s with
  | true =>
    have noAnswer := bvalid_of_commits committing
    split_ifs <;> simp_all
  | false => cases s.bvalid <;> cases i.bus.bready <;> simp

/-- `error_clear` follows that handshake, or a soft reset. -/
theorem next_ringMgrErrorClear (s : State) (i : In) :
    (next s i).ringMgrErrorClear =
      (softResets s i || s.bvalid && i.bus.bready && s.irqClearErrorPending) := by
  simp only [next, softReset, events, readChannel, commitOrRespond, writeReg, captureW, captureAw,
    apply_ite State.ringMgrErrorClear, ite_self, Bool.and_eq_true]
  cases committing : commits s with
  | true => simp [bvalid_of_commits committing]
  | false => split_ifs <;> simp_all

/-! ## Read channel -/

theorem next_rdata (s : State) (i : In) :
    (next s i).rdata =
      if arHs s i then readData s i.ring (i.bus.araddr.setWidth 8) else s.rdata := by
  simp only [next, softReset, events, readChannel, commitOrRespond, writeReg, captureW, captureAw,
    apply_ite State.rdata, ite_self]

theorem next_rvalid (s : State) (i : In) :
    (next s i).rvalid = (arHs s i || s.rvalid && !i.bus.rready) := by
  simp only [next, softReset, events, readChannel, commitOrRespond, writeReg, captureW, captureAw,
    apply_ite State.rvalid, ite_self, Bool.and_eq_true]
  cases arHs s i <;> cases s.rvalid <;> cases i.bus.rready <;> rfl

/-- A RESET write leaves one readback of CTRL, for the next read of any address. -/
theorem next_ctrlReadbackPending (s : State) (i : In) :
    (next s i).ctrlReadbackPending =
      (!arHs s i &&
        (commitsTo s regCtrl && (ctrlWriteData s).getLsbD 1 || s.ctrlReadbackPending)) := by
  simp only [next, softReset, events, readChannel, commitOrRespond, captureW, captureAw,
    apply_ite State.ctrlReadbackPending, writeReg_ctrlReadbackPending, ite_self, commitsTo,
    Bool.and_eq_true]
  cases arHs s i <;> split_ifs <;> simp_all

/-- The readback that survives a RESET write. -/
theorem next_ctrlReadbackData (s : State) (i : In) :
    (next s i).ctrlReadbackData =
      if commitsTo s regCtrl && (ctrlWriteData s).getLsbD 1 then ctrlWriteData s &&& 5
      else s.ctrlReadbackData := by
  simp only [next, softReset, events, readChannel, commitOrRespond, captureW, captureAw,
    apply_ite State.ctrlReadbackData, writeReg_ctrlReadbackData, ite_self, commitsTo,
    Bool.and_eq_true, beq_iff_eq, ite_and]

/-- A read of CTRL finds RESET clear if the surviving readback does. -/
theorem readData_ctrl_reset {s : State} (ring : RingIn)
    (readback : s.ctrlReadbackData.getLsbD 1 = false) :
    (readData s ring regCtrl).getLsbD 1 = false := by
  have view : readData s ring regCtrl = ctrlView s := by
    simp [readData, regBaseaddr, regRinglen, regHead, regTail, regCtrl]
  rw [view, ctrlView]
  split
  · exact readback
  · simp

/-! ## STATUS -/

theorem statusWord_busy (s : State) (ring : RingIn) :
    (statusWord s ring).getLsbD 0 = ring.busy := by
  unfold statusWord
  cases ring.busy <;> cases ring.ringEmpty <;> cases s.statusError <;> rfl

theorem statusWord_ringEmpty (s : State) (ring : RingIn) :
    (statusWord s ring).getLsbD 1 = ring.ringEmpty := by
  unfold statusWord
  cases ring.busy <;> cases ring.ringEmpty <;> cases s.statusError <;> rfl

theorem statusWord_error (s : State) (ring : RingIn) :
    (statusWord s ring).getLsbD 2 = s.statusError := by
  unfold statusWord
  cases ring.busy <;> cases ring.ringEmpty <;> cases s.statusError <;> rfl

theorem readData_status (s : State) (ring : RingIn) :
    readData s ring regStatus = statusWord s ring := by
  simp [readData, regBaseaddr, regRinglen, regHead, regTail, regCtrl, regStatus]

/-! ## Bus cycles

The shortest writes and reads, for runs on fixed inputs. -/

/-- Capture of both halves, commit, response. -/
def writeCycles (reg : BitVec 8) (data : Word) : List AxiLiteMaster :=
  [{ busIdle with awaddr := reg.setWidth 32, awvalid := true, wdata := data, wstrb := 15,
                  wvalid := true },
   busIdle, { busIdle with bready := true }]

def besideIdleRing (bus : AxiLiteMaster) : In :=
  { rstN := true, bus := bus
    ring := { head := 0, busy := false, ringEmpty := true, irqEmptySet := false,
              errorSet := false } }

def readCycle (reg : BitVec 8) : AxiLiteMaster :=
  { busIdle with araddr := reg.setWidth 32, arvalid := true }

end AxiDma.Rtl.Csr
