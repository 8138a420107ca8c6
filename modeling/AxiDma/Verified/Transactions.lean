import AxiDma.Verified.CsrTraffic
import AxiDma.Verified.InFlight
import AxiDma.Verified.Ownership

/-! # The CSR block as whole accesses see it

`Block` is what the accesses of a command know of the CSR block: its registers, how far a
RESET has come, and whether the readback that it leaves may be waiting.  While the DMA is
idle the board follows `Block` access by access, whatever the delays on the bus are, up to
the write that sets ENABLE (`Follows.step`).
-/

namespace AxiDma.Verified

open AxiDma.Lib AxiDma.Rtl AxiDma.Firmware

namespace Board

open AxiDma.Firmware.Board

variable {maxInflight : Nat}

/-! ## Whole accesses -/

inductive Stage where
  /-- As the command finds it; a RESET from before may still be due. -/
  | found
  /-- RESET is written, and no write has followed it. -/
  | resetting
  | cleared
  deriving DecidableEq, Repr

structure Block where
  regs : Csr.Regs
  stage : Stage
  /-- The readback of CTRL may be waiting. -/
  armed : Bool
  deriving DecidableEq, Repr

namespace Block

def write (k : Block) (addr data : Word) : Block :=
  if addr.setWidth 8 = Csr.regCtrl ∧ data.getLsbD 1 = true then
    { regs := .zero, stage := .resetting, armed := true }
  else
    { k with regs := k.regs.write (addr, data, 15)
             stage := if k.stage = .resetting then .cleared else k.stage }

/-- HEAD is read after a RESET only. -/
def read (k : Block) (addr : Word) : Word :=
  let offset : BitVec 8 := addr.setWidth 8
  if offset = Csr.regBaseaddr then k.regs.baseaddr
  else if offset = Csr.regRinglen then k.regs.ringlen
  else if offset = Csr.regTail then k.regs.tail
  else if offset = Csr.regCtrl then k.regs.ctrl
  else 0

def answer (interconnect : Interconnect) (k : Block) : (op : Op) → Answer op × Block
  | .out32 addr data => ((), if interconnect.route addr = .csr then k.write addr data else k)
  | .in32 addr => (k.read addr, { k with armed := false })
  | .uartWriteByte _ | .xilPrintf _ _ => ((), k)

/-- What the RESET that was due takes away. -/
def lost (k : Block) : Block := { k with regs := .zero }

/-- What time does to the block. -/
def Waits (k k' : Block) : Prop := k' = k ∨ k.stage = .found ∧ k' = k.lost

def Can (interconnect : Interconnect) (k : Block) (op : Op) (answer : Answer op) (k' : Block) : Prop :=
  ∃ between, Waits k between ∧ (answer, k') = between.answer interconnect op

theorem Waits.refl (k : Block) : Waits k k := .inl rfl

theorem Waits.trans {k k' k'' : Block} (first : Waits k k') (second : Waits k' k'') :
    Waits k k'' := by
  rcases first with rfl | ⟨found, rfl⟩
  · exact second
  · rcases second with rfl | ⟨-, rfl⟩
    · exact .inr ⟨found, rfl⟩
    · exact .inr ⟨found, rfl⟩

end Block

/-- The write that sets ENABLE. -/
def Enables (interconnect : Interconnect) : Op → Prop
  | .out32 addr data => interconnect.route addr = .csr ∧ addr.setWidth 8 = Csr.regCtrl ∧
      data.getLsbD 0 = true
  | _ => False

/-- Reads of the configuration registers, and of HEAD and CTRL when they are settled. -/
def Readable (k : Block) (offset : BitVec 8) : Prop :=
  offset = Csr.regBaseaddr ∨ offset = Csr.regRinglen ∨ offset = Csr.regTail ∨
    k.stage = .cleared ∧ (offset = Csr.regHead ∨ offset = Csr.regCtrl ∧ k.armed = false)

/-- The operations for which `Block` accounts.  ENABLE is set where `final` allows it. -/
def Accounted (interconnect : Interconnect) (final : Block → Word → Prop) (k : Block) : Op → Prop
  | .out32 addr data =>
    match interconnect.route addr with
    | .csr =>
      if addr.setWidth 8 = Csr.regCtrl ∧ data.getLsbD 0 = true then k.stage = .cleared ∧ final k data
      else if k.stage = .found then addr.setWidth 8 = Csr.regCtrl ∧ data = ctrlReset
      else addr.setWidth 8 = Csr.regCtrl → data.getLsbD 1 = false
    | .memAccessCtrl => k.stage = .cleared
    | .other => False
  | .in32 addr => interconnect.route addr = .csr ∧ k.stage ≠ .resetting ∧
      Readable k (addr.setWidth 8)
  | .uartWriteByte _ | .xilPrintf _ _ => k.stage = .cleared

/-! ## The board and the block -/

/-- No request can be accepted, and nothing makes one possible. -/
def Still (b : Board maxInflight) : Prop :=
  enable b = false ∨ b.sys.csr.ringlen = 0 ∨
    reset b = false ∧ (b.sys.rm.head = b.sys.csr.tail ∨
      b.sys.rm.intStatusError = true ∧ b.sys.csr.ringMgrErrorClear = false)

instance (b : Board maxInflight) : Decidable (Still b) := inferInstanceAs (Decidable (_ ∨ _ ∨ _))

structure Found (b : Board maxInflight) (regs : Csr.Regs) : Prop where
  regs : Csr.regs b.sys.csr = regs
  noAnswer : b.sys.csr.bvalid = false
  still : Still b
  /-- A RESET that is due comes before the next write is captured. -/
  due : reset b = true → (Csr.writePort b.sys.csr).Clean

/-- The soft reset comes when the response of the RESET write is taken. -/
def Resetting (b : Board maxInflight) : Prop :=
  b.sys.csr.ctrl = ctrlReset ∧ (b.sys.csr.bvalid = true ∨ (Csr.writePort b.sys.csr).Clean)

structure Cleared (b : Board maxInflight) (regs : Csr.Regs) : Prop where
  regs : Csr.regs b.sys.csr = regs
  noEnable : enable b = false
  noReset : reset b = false
  head : b.sys.rm.head = 0
  intStatusError : b.sys.rm.intStatusError = false
  statusError : b.sys.csr.statusError = false
  irqError : b.sys.csr.irqError = false

def AtStage (b : Board maxInflight) (k : Block) : Prop :=
  match k.stage with
  | .found => Found b k.regs
  | .resetting => k.regs = .zero ∧ (Resetting b ∨ Cleared b .zero)
  | .cleared => Cleared b k.regs

structure Shows (b : Board maxInflight) (k : Block) : Prop where
  stage : AtStage b k
  armed : k.armed = false → b.sys.csr.ctrlReadbackPending = false
  /-- Read data that wait to be taken. -/
  data : b.sys.csr.rvalid = true → b.sys.csr.ctrlReadbackPending = false ∧
    ∃ addr next, b.thread = .execute (.act (.in32 addr) next) ∧ b.sys.csr.rdata = k.read addr

variable {interconnect : Interconnect} {b : Board maxInflight} {i : In} {k : Block}
  {regs : Csr.Regs}

/-! ### Requests -/

theorem Still.noFetch (still : Still b) : fetchHs interconnect b i = false := by
  rcases still with disabled | none | ⟨-, empty | ⟨halted, -⟩⟩
  · exact fetchHs_eq_false (.inl disabled)
  · exact fetchHs_eq_false (.inr (.inr none))
  · exact fetchHs_eq_false (.inr (.inl empty))
  · by_contra accepts
    rw [Bool.not_eq_false] at accepts
    obtain ⟨-, -, -, -, running, -⟩ := RingManager.fetchHs_iff.mp accepts
    exact Bool.false_ne_true (running.symm.trans halted)

theorem Cleared.still (cleared : Cleared b regs) : Still b := .inl cleared.noEnable

theorem Resetting.noEnable (resetting : Resetting b) : enable b = false := by
  rw [enable, resetting.1]
  rfl

theorem Shows.noFetch (shows' : Shows b k) : fetchHs interconnect b i = false := by
  have stage := shows'.stage
  unfold AtStage at stage
  split at stage
  · exact stage.still.noFetch
  · rcases stage with ⟨-, resetting | cleared⟩
    · exact fetchHs_eq_false (.inl resetting.noEnable)
    · exact cleared.still.noFetch
  · exact stage.still.noFetch

/-! ### One cycle -/

/-- The soft reset of the cycle. -/
def softResets (interconnect : Interconnect) (b : Board maxInflight) (i : In) : Bool :=
  Csr.softResets b.sys.csr (CsrRing.csrIn b.sys (sysIn interconnect b i))

theorem regs_step (interconnect : Interconnect) (b : Board maxInflight) (i : In) :
    Csr.regs (step interconnect b i).sys.csr =
      if softResets interconnect b i then Csr.Regs.zero
      else if Csr.commits b.sys.csr then
        (Csr.regs b.sys.csr).write (b.sys.csr.awaddr, b.sys.csr.wdata, b.sys.csr.wstrb)
      else Csr.regs b.sys.csr := Csr.regs_next ..

/-- A cycle in which the rest of the DMA answers nothing. -/
structure Unanswered (i : In) : Prop where
  asDone : i.asDone = false
  dfError : i.dfError = false

/-- The ring manager rests while it is not asked. -/
theorem rm_step (interconnect : Interconnect) (noReset : reset b = false) (noFetch : fetchHs interconnect b i = false)
    (idle : Unanswered i) :
    (step interconnect b i).sys.rm.head = b.sys.rm.head ∧
      (step interconnect b i).sys.rm.intStatusError =
        (b.sys.rm.intStatusError && !b.sys.csr.ringMgrErrorClear) := by
  have running : (step interconnect b i).sys.rm = _ :=
    RingManager.step_of_run (i := CsrRing.rmIn b.sys (sysIn interconnect b i)) rfl noReset
  have noRequest : RingManager.fetchHs b.sys.rm (CsrRing.rmIn b.sys (sysIn interconnect b i)) = false :=
    noFetch
  rw [running]
  constructor
  · simp [RingManager.headPtrNext, noRequest]
  · cases clear : b.sys.csr.ringMgrErrorClear <;>
      simp [RingManager.intStatusErrorNext, CsrRing.rmIn, Csr.toRing, sysIn, idle.dfError, clear]

theorem rm_step_of_reset (interconnect : Interconnect) (i : In) (resets : reset b = true) :
    (step interconnect b i).sys.rm = RingManager.resetState maxInflight :=
  RingManager.step_of_reset resets

/-- Without an error no sticky error bit rises. -/
theorem sticky_step (interconnect : Interconnect) (b : Board maxInflight) (idle : Unanswered i) :
    (b.sys.csr.statusError = false → (step interconnect b i).sys.csr.statusError = false) ∧
      (b.sys.csr.irqError = false → (step interconnect b i).sys.csr.irqError = false) := by
  have noError : (CsrRing.csrIn b.sys (sysIn interconnect b i)).ring.errorSet = false := idle.dfError
  constructor
  · intro clear
    change (Csr.next b.sys.csr _).statusError = false
    rw [Csr.next_statusError, noError, clear]
    simp
  · intro clear
    change (Csr.next b.sys.csr _).irqError = false
    rw [Csr.next_irqError, noError, clear]
    simp

/-! ### Stages -/

theorem Cleared.next (cleared : Cleared b regs) (idle : Unanswered i) {regs' : Csr.Regs}
    (moves : Csr.regs (step interconnect b i).sys.csr = regs')
    (noEnable : regs'.ctrl.getLsbD 0 = false) (noReset : regs'.ctrl.getLsbD 1 = false) :
    Cleared (step interconnect b i) regs' := by
  obtain ⟨head, intStatusError⟩ := rm_step interconnect cleared.noReset cleared.still.noFetch idle
  obtain ⟨statusError, irqError⟩ := sticky_step interconnect b idle
  refine ⟨moves, ?_, ?_, head.trans cleared.head, ?_, statusError cleared.statusError,
    irqError cleared.irqError⟩
  · rw [← moves] at noEnable
    exact noEnable
  · rw [← moves] at noReset
    exact noReset
  · rw [intStatusError, cleared.intStatusError, Bool.false_and]

theorem Cleared.stays (cleared : Cleared b regs) (idle : Unanswered i)
    (noCommit : Csr.commits b.sys.csr = false) : Cleared (step interconnect b i) regs := by
  have noEnable := cleared.noEnable
  have noReset := cleared.noReset
  refine cleared.next idle ?_ ?_ ?_
  · rw [regs_step, softResets, softResets_eq_false noReset, noCommit]
    exact cleared.regs
  · rw [← cleared.regs]
    exact noEnable
  · rw [← cleared.regs]
    exact noReset

theorem softResets_of_quiet (resets : reset b = true) (noAnswer : b.sys.csr.bvalid = false)
    (noRead : (busOf interconnect b.thread .csr i).arvalid = false)
    (noData : b.sys.csr.rvalid = false) : softResets interconnect b i = true := by
  have noRequest : (CsrRing.csrIn b.sys (sysIn interconnect b i)).bus.arvalid = false := noRead
  rw [softResets, Csr.softResets, noAnswer, noRequest, noData, show b.sys.csr.ctrl.getLsbD 1 = true from resets]
  rfl

/-- The soft reset clears the block, and the ring manager with it. -/
theorem cleared_of_softResets (fires : softResets interconnect b i = true) :
    Cleared (step interconnect b i) .zero := by
  have regs : Csr.regs (step interconnect b i).sys.csr = .zero := by
    rw [regs_step, fires, if_pos rfl]
  have ctrl : (step interconnect b i).sys.csr.ctrl = 0 := congrArg Csr.Regs.ctrl regs
  have resets : reset b = true := by
    simp only [softResets, Csr.softResets, Bool.and_eq_true] at fires
    exact fires.1.1.1
  have rm := rm_step_of_reset interconnect i resets
  refine ⟨regs, ?_, ?_, ?_, ?_, ?_, ?_⟩
  · rw [enable, ctrl]
    rfl
  · rw [reset, ctrl]
    rfl
  · rw [rm]
    rfl
  · rw [rm]
    rfl
  · change (Csr.next b.sys.csr _).statusError = false
    rw [Csr.next_statusError]
    exact if_pos fires
  · change (Csr.next b.sys.csr _).irqError = false
    rw [Csr.next_irqError]
    exact if_pos fires

/-- The RESET write is answered first, and then takes effect. -/
theorem Resetting.next (resetting : Resetting b) (clear : (Csr.writePort b.sys.csr).Clear)
    (noRead : (busOf interconnect b.thread .csr i).arvalid = false)
    (noData : b.sys.csr.rvalid = false) :
    Resetting (step interconnect b i) ∨ Cleared (step interconnect b i) .zero := by
  obtain ⟨ctrl, answers | ⟨-, -, noAnswer⟩⟩ := resetting
  · left
    have waits : softResets interconnect b i = false := by
      simp [softResets, Csr.softResets, answers]
    have noCommit : Csr.commits b.sys.csr = false := by
      simp [Csr.commits, answers]
    have same : Csr.regs (step interconnect b i).sys.csr = Csr.regs b.sys.csr := by
      rw [regs_step, waits, noCommit]
      rfl
    refine ⟨(congrArg Csr.Regs.ctrl same).trans ctrl, ?_⟩
    have port : Csr.writePort (step interconnect b i).sys.csr = _ :=
      Csr.writePort_next b.sys.csr (CsrRing.csrIn b.sys (sysIn interconnect b i))
    cases ready : (busOf interconnect b.thread .csr i).bready with
    | true =>
      right
      rw [port]
      exact clear.clean_next answers ready
    | false =>
      left
      have ready : (CsrRing.csrIn b.sys (sysIn interconnect b i)).bus.bready = false := ready
      change (Csr.next b.sys.csr _).bvalid = true
      rw [Csr.next_bvalid, answers, ready]
      simp
  · right
    have resets : reset b = true := by
      rw [reset, ctrl]
      rfl
    exact cleared_of_softResets (softResets_of_quiet resets noAnswer noRead noData)

theorem Still.next (still : Still b) (idle : Unanswered i) (noAnswer : b.sys.csr.bvalid = false)
    (waits : softResets interconnect b i = false)
    (same : Csr.regs (step interconnect b i).sys.csr = Csr.regs b.sys.csr) :
    Still (step interconnect b i) := by
  have ctrl : (step interconnect b i).sys.csr.ctrl = b.sys.csr.ctrl := congrArg Csr.Regs.ctrl same
  have ringlen : (step interconnect b i).sys.csr.ringlen = b.sys.csr.ringlen :=
    congrArg Csr.Regs.ringlen same
  have tail : (step interconnect b i).sys.csr.tail = b.sys.csr.tail := congrArg Csr.Regs.tail same
  have noFetch : fetchHs interconnect b i = false := still.noFetch
  unfold Still at still ⊢
  rw [enable, reset, ctrl, ringlen, tail]
  refine still.imp_right (.imp_right ?_)
  rintro ⟨noReset, quiet⟩
  obtain ⟨head, intStatusError⟩ := rm_step interconnect noReset noFetch idle
  refine ⟨noReset, quiet.imp head.trans ?_⟩
  rintro ⟨halted, noClear⟩
  refine ⟨by rw [intStatusError, halted, noClear]; rfl, ?_⟩
  -- without a response no clear pulse starts
  change (Csr.next b.sys.csr _).ringMgrErrorClear = false
  rw [Csr.next_ringMgrErrorClear, noAnswer, Bool.false_and, Bool.false_and, Bool.or_false]
  exact waits

theorem Found.next (interconnect : Interconnect) (found : Found b regs) (idle : Unanswered i)
    (noCommit : Csr.commits b.sys.csr = false)
    (reading : b.sys.csr.rvalid = true →
      ∃ addr next, b.thread = .execute (.act (.in32 addr) next)) :
    Found (step interconnect b i) (if softResets interconnect b i then .zero else regs) := by
  have noAnswer : (step interconnect b i).sys.csr.bvalid = false := by
    change (Csr.next b.sys.csr _).bvalid = false
    rw [Csr.next_bvalid, noCommit, found.noAnswer]
    rfl
  cases fires : softResets interconnect b i with
  | true =>
    have cleared := cleared_of_softResets fires
    refine ⟨cleared.regs, noAnswer, cleared.still, fun resets => ?_⟩
    exact absurd (cleared.noReset.symm.trans resets) (by decide)
  | false =>
    have same : Csr.regs (step interconnect b i).sys.csr = Csr.regs b.sys.csr := by
      rw [regs_step, fires, noCommit]
      rfl
    refine ⟨same.trans found.regs, noAnswer, found.still.next idle found.noAnswer fires same, ?_⟩
    intro resets
    have resets : reset b = true := by
      rw [← resets, reset, reset, show (step interconnect b i).sys.csr.ctrl = b.sys.csr.ctrl from
        congrArg Csr.Regs.ctrl same]
    -- the soft reset waits for a read only, and a read captures no write
    have read : ∃ addr next, b.thread = .execute (.act (.in32 addr) next) := by
      by_contra noRead
      have noData : b.sys.csr.rvalid = false := by
        by_contra data
        exact noRead (reading (Bool.not_eq_false _ ▸ data))
      have noRequest : (busOf interconnect b.thread .csr i).arvalid = false := by
        by_contra request
        obtain ⟨addr, next, thread, -⟩ := thread_of_arvalid (Bool.not_eq_false _ ▸ request)
        exact noRead ⟨addr, next, thread⟩
      have fired := softResets_of_quiet resets found.noAnswer noRequest noData
      exact Bool.false_ne_true (fires.symm.trans fired)
    obtain ⟨addr, next, thread⟩ := read
    have idleBus : (busOf interconnect b.thread .csr i).awvalid = false ∧
        (busOf interconnect b.thread .csr i).wvalid = false :=
      busOf_none (by rw [thread]; rfl)
    have port : Csr.writePort (step interconnect b i).sys.csr = _ :=
      Csr.writePort_next b.sys.csr (CsrRing.csrIn b.sys (sysIn interconnect b i))
    rw [port]
    exact (found.due resets).next idleBus.1 idleBus.2

/-! ### The block follows -/

variable {final : Block → Word → Prop}

theorem Accounted.waits {k' : Block} {op : Op} (accounted : Accounted interconnect final k op)
    (waits : k.Waits k') : Accounted interconnect final k' op := by
  rcases waits with rfl | ⟨found, rfl⟩
  · exact accounted
  -- before the RESET nothing depends on the registers
  cases op with
  | out32 addr data =>
    simp only [Accounted, found, Block.lost] at accounted ⊢
    split at accounted
    · rename_i csr
      split at accounted
      · exact absurd accounted.1 (by decide)
      · rename_i other
        rw [if_neg other]
        exact accounted
    · exact accounted
    · exact accounted
  | in32 addr => exact accounted
  | uartWriteByte data => exact accounted
  | xilPrintf format args => exact accounted

/-- The next operation of the command is accounted for. -/
def NextAccounted (interconnect : Interconnect) (final : Block → Word → Prop)
    (b : Board maxInflight) (k : Block) : Prop :=
  ∀ op next, rest interconnect b = .act op next → Accounted interconnect final k op

theorem rest_of_in32 {addr : Word} {next : Word → Prog Unit}
    (thread : b.thread = .execute (.act (.in32 addr) next)) :
    rest interconnect b = .act (.in32 addr) next :=
  rest_act thread fun _ _ => by simp

theorem AtStage.stays (interconnect : Interconnect) (stage : AtStage b k) (idle : Unanswered i)
    (noCommit : Csr.commits b.sys.csr = false) (clear : (Csr.writePort b.sys.csr).Clear)
    (reading : b.sys.csr.rvalid = true →
      ∃ addr next, b.thread = .execute (.act (.in32 addr) next))
    (accounted : NextAccounted interconnect final b k) :
    AtStage (step interconnect b i) k ∨
      k.stage = .found ∧ softResets interconnect b i = true ∧
        AtStage (step interconnect b i) k.lost := by
  unfold AtStage at stage
  split at stage
  · rename_i found
    have next := stage.next interconnect idle noCommit reading
    cases fires : softResets interconnect b i with
    | true =>
      rw [fires, if_pos rfl] at next
      refine .inr ⟨found, rfl, ?_⟩
      simp only [AtStage, Block.lost, found]
      exact next
    | false =>
      rw [fires, if_neg (by decide)] at next
      left
      simp only [AtStage, found]
      exact next
  · rename_i resetting
    obtain ⟨zero, stage⟩ := stage
    have noRead : ∀ addr next, b.thread ≠ .execute (.act (.in32 addr) next) := by
      intro addr next thread
      exact (accounted _ _ (rest_of_in32 thread)).2.1 resetting
    left
    simp only [AtStage, resetting]
    refine ⟨zero, ?_⟩
    rcases stage with resets | cleared
    · refine resets.next clear ?_ ?_
      · by_contra request
        obtain ⟨addr, next, thread, -⟩ := thread_of_arvalid (Bool.not_eq_false _ ▸ request)
        exact noRead addr next thread
      · by_contra data
        obtain ⟨addr, next, thread⟩ := reading (Bool.not_eq_false _ ▸ data)
        exact noRead addr next thread
    · exact .inr (cleared.stays idle noCommit)
  · rename_i done
    left
    simp only [AtStage, done]
    exact stage.stays idle noCommit

/-- A read that is accepted shows the word of the block. -/
theorem AtStage.read {addr : Word} (stage : AtStage b k)
    (armed : k.armed = false → b.sys.csr.ctrlReadbackPending = false)
    (accounted : Accounted interconnect final k (.in32 addr)) :
    Csr.readData b.sys.csr (CsrRing.csrIn b.sys (sysIn interconnect b i)).ring
      (addr.setWidth 8) = k.read addr := by
  obtain ⟨-, notResetting, readable⟩ := accounted
  have regs : Csr.regs b.sys.csr = k.regs := by
    unfold AtStage at stage
    split at stage
    · exact stage.regs
    · rename_i resetting
      exact absurd resetting notResetting
    · exact stage.regs
  rcases readable with offset | offset | offset | ⟨cleared, readable⟩
  · simp [Csr.readData, Block.read, offset, ← regs, Csr.regs]
  · simp +decide [Csr.readData, Block.read, offset, ← regs, Csr.regs]
  · simp +decide [Csr.readData, Block.read, offset, ← regs, Csr.regs]
  · simp only [AtStage, cleared] at stage
    rcases readable with offset | ⟨offset, unarmed⟩
    · simp +decide [Csr.readData, Block.read, offset, CsrRing.csrIn, stage.head]
    · have word := Csr.Traffic.readData_eq_registerWord stage.noReset (armed unarmed)
        (CsrRing.csrIn b.sys (sysIn interconnect b i)).ring (addr.setWidth 8)
      rw [word]
      simp +decide [Csr.registerWord, Block.read, offset, ← regs, Csr.regs]

theorem Shows.disarm (shows' : Shows b k) (taken : b.sys.csr.ctrlReadbackPending = false) :
    Shows b { k with armed := false } where
  stage := shows'.stage
  armed := fun _ => taken
  data := shows'.data

theorem Shows.stays (interconnect : Interconnect) (shows' : Shows b k) (idle : Unanswered i) (ports : PortsOk interconnect b)
    (noCommit : Csr.commits b.sys.csr = false) (accounted : NextAccounted interconnect final b k) :
    ∃ k', k.Waits k' ∧ Shows (step interconnect b i) k' := by
  have reading (data : b.sys.csr.rvalid = true) :
      ∃ addr next, b.thread = .execute (.act (.in32 addr) next) := by
    obtain ⟨-, addr, next, thread, -⟩ := shows'.data data
    exact ⟨addr, next, thread⟩
  have pending : (step interconnect b i).sys.csr.ctrlReadbackPending =
      (!Csr.arHs b.sys.csr (CsrRing.csrIn b.sys (sysIn interconnect b i)) &&
        b.sys.csr.ctrlReadbackPending) := by
    change (Csr.next b.sys.csr _).ctrlReadbackPending = _
    rw [Csr.next_ctrlReadbackPending, commitsTo_eq_false noCommit, Bool.false_and, Bool.false_or]
  have armed (unarmed : k.armed = false) :
      (step interconnect b i).sys.csr.ctrlReadbackPending = false := by
    rw [pending, shows'.armed unarmed, Bool.and_false]
  have valid : (step interconnect b i).sys.csr.rvalid =
      (Csr.arHs b.sys.csr (CsrRing.csrIn b.sys (sysIn interconnect b i)) ||
        b.sys.csr.rvalid && !(busOf interconnect b.thread .csr i).rready) := Csr.next_rvalid ..
  have rdata : (step interconnect b i).sys.csr.rdata = _ := Csr.next_rdata b.sys.csr
    (CsrRing.csrIn b.sys (sysIn interconnect b i))
  rcases shows'.stage.stays interconnect idle noCommit (ports .csr).clear reading
    accounted with stage | ⟨found, fires, stage⟩
  · refine ⟨k, .refl k, stage, armed, fun data => ?_⟩
    rw [valid, Bool.or_eq_true] at data
    rcases data with handshake | held
    · -- the read is accepted
      obtain ⟨request, ready⟩ := Bool.and_eq_true_iff.mp handshake
      obtain ⟨addr, next, thread, here, araddr⟩ := thread_of_arvalid request
      have noData : b.sys.csr.rvalid = false := by simpa [Csr.arready] using ready
      refine ⟨by rw [pending, handshake]; rfl, addr, next, ?_, ?_⟩
      · simp [step, threadNext, thread, here, readResponds, noData]
      · rw [rdata, if_pos handshake]
        change Csr.readData b.sys.csr _ ((busOf interconnect b.thread .csr i).araddr.setWidth 8) = _
        rw [araddr]
        exact shows'.stage.read shows'.armed (accounted _ _ (rest_of_in32 thread))
    · -- its data wait
      obtain ⟨data, notReady⟩ := Bool.and_eq_true_iff.mp held
      obtain ⟨taken, addr, next, thread, word⟩ := shows'.data data
      have here : interconnect.route addr = .csr := (accounted _ _ (rest_of_in32 thread)).1
      have notTaken : i.r = false := by
        simpa [busOf, accessTarget, accessBus, thread, here] using notReady
      refine ⟨by rw [pending, taken, Bool.and_false], addr, next, ?_, ?_⟩
      · simp [step, threadNext, thread, here, readResponds, notTaken]
      · rw [rdata, if_neg (by simp [Csr.arHs, Csr.arready, data])]
        exact word
  · refine ⟨k.lost, .inr ⟨found, rfl⟩, stage, armed, fun data => ?_⟩
    -- the soft reset waits for reads
    simp only [softResets, Csr.softResets, Bool.and_eq_true, Bool.not_eq_true'] at fires
    rw [valid, fires.2, Csr.arHs, fires.1.2] at data
    cases data

/-! ### Writes -/

/-- A RESET that is due or under way lets no write commit. -/
theorem AtStage.noReset (stage : AtStage b k) (commits : Csr.commits b.sys.csr = true) :
    reset b = false := by
  have noClean : ¬ (Csr.writePort b.sys.csr).Clean := by
    intro clean
    exact absurd (commits.symm.trans clean.commits) (by decide)
  unfold AtStage at stage
  split at stage
  · by_contra resets
    exact noClean (stage.due (Bool.not_eq_false _ ▸ resets))
  · rcases stage with ⟨-, ⟨-, answers | clean⟩ | cleared⟩
    · exact absurd (answers.symm.trans (Csr.bvalid_of_commits commits)) (by decide)
    · exact absurd clean noClean
    · exact cleared.noReset
  · exact stage.noReset

theorem AtStage.write {addr data : Word} (stage : AtStage b k) (idle : Unanswered i)
    (commits : Csr.commits b.sys.csr = true) (serves : (Csr.writePort b.sys.csr).Serves addr data)
    (here : interconnect.route addr = .csr)
    (accounted : Accounted interconnect final k (.out32 addr data))
    (others : ¬ Enables interconnect (.out32 addr data)) :
    AtStage (step interconnect b i) (k.write addr data) := by
  obtain ⟨awaddr, wdata, wstrb⟩ := serves.of_commits commits
  simp only [Csr.writePort] at awaddr wdata wstrb
  have moves : Csr.regs (step interconnect b i).sys.csr =
      (Csr.regs b.sys.csr).write (addr, data, 15) := by
    rw [regs_step, softResets, softResets_eq_false (stage.noReset commits), if_neg (by decide),
      if_pos commits, awaddr, wdata, wstrb]
  have noEnable (ctrl : addr.setWidth 8 = Csr.regCtrl) : data.getLsbD 0 = false := by
    by_contra enables
    exact others ⟨here, ctrl, Bool.not_eq_false _ ▸ enables⟩
  simp only [Accounted, here] at accounted
  rw [if_neg fun enables => others ⟨here, enables⟩] at accounted
  -- after the RESET CTRL stays clear
  have after {regs : Csr.Regs} (cleared : Cleared b regs)
      (noReset : addr.setWidth 8 = Csr.regCtrl → data.getLsbD 1 = false) :
      Cleared (step interconnect b i) (regs.write (addr, data, 15)) := by
    obtain rfl := cleared.regs
    exact cleared.next idle moves (Csr.Regs.write_ctrl_clear cleared.noEnable noEnable)
      (Csr.Regs.write_ctrl_clear cleared.noReset noReset)
  unfold AtStage at stage
  split at stage
  · rename_i found
    rw [if_pos found] at accounted
    obtain ⟨ctrl, rfl⟩ := accounted
    have written : (step interconnect b i).sys.csr.ctrl = ctrlReset := by
      refine (congrArg Csr.Regs.ctrl moves).trans ?_
      rw [Csr.Regs.write_of_ctrl _ ctrlReset ctrl]
      rfl
    have answers : (step interconnect b i).sys.csr.bvalid = true := by
      change (Csr.next b.sys.csr _).bvalid = true
      rw [Csr.next_bvalid, commits, Bool.true_or]
    rw [Block.write, if_pos ⟨ctrl, by decide⟩]
    exact ⟨rfl, .inl ⟨written, .inl answers⟩⟩
  · rename_i resetting
    rw [if_neg (by rw [resetting]; decide)] at accounted
    rw [Block.write, if_neg (by rintro ⟨ctrl, resets⟩; exact absurd (accounted ctrl) (by simp [resets]))]
    obtain ⟨zero, ⟨-, answers | clean⟩ | cleared⟩ := stage
    · exact absurd (answers.symm.trans (Csr.bvalid_of_commits commits)) (by decide)
    · exact absurd (commits.symm.trans clean.commits) (by decide)
    · simp only [AtStage, resetting, zero, if_true]
      exact after cleared accounted
  · rename_i done
    rw [if_neg (by rw [done]; decide)] at accounted
    rw [Block.write, if_neg (by rintro ⟨ctrl, resets⟩; exact absurd (accounted ctrl) (by simp [resets]))]
    simp only [AtStage, done]
    exact after stage accounted

theorem Shows.write {addr data : Word} {next : Unit → Prog Unit} (shows' : Shows b k)
    (idle : Unanswered i) (commits : Csr.commits b.sys.csr = true)
    (serves : (Csr.writePort b.sys.csr).Serves addr data)
    (thread : b.thread = .execute (.act (.out32 addr data) next))
    (here : interconnect.route addr = .csr)
    (accounted : Accounted interconnect final k (.out32 addr data))
    (others : ¬ Enables interconnect (.out32 addr data)) :
    Shows (step interconnect b i) (k.write addr data) where
  stage := shows'.stage.write idle commits serves here accounted others
  armed := by
    intro unarmed
    obtain ⟨awaddr, wdata, wstrb⟩ := serves.of_commits commits
    simp only [Csr.writePort] at awaddr wdata wstrb
    unfold Block.write at unarmed
    split at unarmed
    · cases unarmed
    · rename_i noReset
      have pending := shows'.armed unarmed
      have plain : (Csr.commitsTo b.sys.csr Csr.regCtrl &&
          (Csr.ctrlWriteData b.sys.csr).getLsbD 1) = false := by
        rw [Csr.ctrlWriteData, wdata, wstrb, applyWstrb_full, Csr.commitsTo, Csr.wrAddrLsb, awaddr]
        simpa [commits] using noReset
      change (Csr.next b.sys.csr _).ctrlReadbackPending = false
      rw [Csr.next_ctrlReadbackPending, plain, pending]
      simp
  data := by
    -- the firmware waits for the write
    have noData : b.sys.csr.rvalid = false := by
      by_contra data
      obtain ⟨-, addr', next', thread', -⟩ := shows'.data (Bool.not_eq_false _ ▸ data)
      rw [thread] at thread'
      cases thread'
    have noRequest : (busOf interconnect b.thread .csr i).arvalid = false := by
      by_contra request
      obtain ⟨addr', next', thread', -⟩ := thread_of_arvalid (Bool.not_eq_false _ ▸ request)
      rw [thread] at thread'
      cases thread'
    intro data
    change (Csr.next b.sys.csr (CsrRing.csrIn b.sys (sysIn interconnect b i))).rvalid = true at data
    have noHs : Csr.arHs b.sys.csr (CsrRing.csrIn b.sys (sysIn interconnect b i)) = false := by
      simp [Csr.arHs, CsrRing.csrIn, sysIn, noRequest]
    rw [Csr.next_rvalid, noHs, noData] at data
    cases data

/-! ## Runs of a command -/

/-- The board is at an operation of the command that the block accounts for. -/
structure Underway (interconnect : Interconnect) (final : Block → Word → Prop)
    (b : Board maxInflight) : Prop where
  ports : PortsOk interconnect b
  block : ∃ k k', Program.Upto (Block.Can interconnect) (Enables interconnect)
      (Accounted interconnect final) k (rest interconnect b) ∧ k.Waits k' ∧ Shows b k'

/-- The write that sets ENABLE commits. -/
def enables (b : Board maxInflight) : Bool :=
  Csr.commitsTo b.sys.csr Csr.regCtrl && (Csr.ctrlWriteData b.sys.csr).getLsbD 0

def executing (b : Board maxInflight) : Bool :=
  match b.thread with
  | .receive _ => false
  | .execute _ => true

theorem enables_iff {addr data : Word} (commits : Csr.commits b.sys.csr = true)
    (serves : (Csr.writePort b.sys.csr).Serves addr data) (here : interconnect.route addr = .csr) :
    enables b = true ↔ Enables interconnect (.out32 addr data) := by
  obtain ⟨awaddr, wdata, wstrb⟩ := serves.of_commits commits
  simp only [Csr.writePort] at awaddr wdata wstrb
  simp only [enables, Enables, here, true_and, Bool.and_eq_true, Csr.commitsTo, commits,
    Csr.wrAddrLsb, awaddr, beq_iff_eq, Csr.ctrlWriteData, wdata, wstrb, applyWstrb_full]

theorem dispatched_of_executing (running : executing b = true) : dispatched b i = none := by
  unfold executing at running
  split at running
  · cases running
  · rename_i thread
    simp [dispatched, thread]

theorem Underway.noFetch (underway : Underway interconnect final b) :
    fetchHs interconnect b i = false := by
  obtain ⟨k, k', -, -, shows'⟩ := underway.block
  exact shows'.noFetch

theorem nextAccounted_of_upto {k k' : Block} (upto : Program.Upto (Block.Can interconnect)
    (Enables interconnect) (Accounted interconnect final) k (rest interconnect b))
    (waits : k.Waits k') : NextAccounted interconnect final b k' := by
  intro op next before
  rw [before] at upto
  exact upto.1.waits waits

theorem Underway.next_csr (underway : Underway interconnect final b) (idle : Unanswered i)
    (notYet : enables b = false) (commits : Csr.commits b.sys.csr = true) :
    Underway interconnect final (step interconnect b i) where
  ports := PortsOk.next underway.ports
  block := by
    obtain ⟨k, k', upto, waits, shows'⟩ := underway.block
    obtain ⟨addr, data, next, here, awaited, serves, before, after⟩ :=
      underway.ports.rest_of_commits .csr i commits
    obtain ⟨_, thread, -⟩ := thread_of_writeTo awaited
    have others : ¬ Enables interconnect (.out32 addr data) := by
      rw [← enables_iff commits serves here, notYet]
      decide
    have accounted := nextAccounted_of_upto upto waits _ _ before
    rw [before] at upto
    refine ⟨k'.write addr data, _, ?_, .refl _,
      shows'.write idle commits serves thread here accounted others⟩
    rw [after]
    refine upto.2 others () _ ⟨k', waits, ?_⟩
    rw [Block.answer, if_pos here]

theorem Underway.next_memAccessCtrl (underway : Underway interconnect final b) (idle : Unanswered i)
    (noCommit : Csr.commits b.sys.csr = false) (commits : MemAccessCtrl.commits b.mac = true) :
    Underway interconnect final (step interconnect b i) where
  ports := PortsOk.next underway.ports
  block := by
    obtain ⟨k, k', upto, waits, shows'⟩ := underway.block
    obtain ⟨addr, data, next, here, -, -, before, after⟩ :=
      underway.ports.rest_of_commits .memAccessCtrl i commits
    obtain ⟨k'', later, shows''⟩ := shows'.stays interconnect idle underway.ports
      noCommit (nextAccounted_of_upto upto waits)
    have elsewhere : interconnect.route addr ≠ .csr := by
      rw [here]
      decide
    rw [before] at upto
    refine ⟨k', k'', ?_, later, shows''⟩
    rw [after]
    refine upto.2 (fun enables => elsewhere enables.1) () _ ⟨k', waits, ?_⟩
    rw [Block.answer, if_neg elsewhere]

/-- The data of a read are those of the block. -/
theorem Shows.answered {addr data : Word} {next : Word → Prog Unit} (shows' : Shows b k)
    (thread : b.thread = .execute (.act (.in32 addr) next)) (here : interconnect.route addr = .csr)
    (responds : readResponds b (interconnect.route addr) i = some data) :
    data = k.read addr ∧ b.sys.csr.ctrlReadbackPending = false := by
  rw [here, readResponds] at responds
  split at responds
  · rename_i valid
    obtain rfl := Option.some.inj responds
    obtain ⟨taken, addr', next', thread', word⟩ := shows'.data (Bool.and_eq_true_iff.mp valid).1
    rw [thread] at thread'
    cases thread'
    exact ⟨word, taken⟩
  · cases responds

theorem Underway.next_no_commit (underway : Underway interconnect final b) (idle : Unanswered i)
    (running : executing b = true) (noCsr : Csr.commits b.sys.csr = false)
    (noMac : MemAccessCtrl.commits b.mac = false) :
    Underway interconnect final (step interconnect b i) where
  ports := PortsOk.next underway.ports
  block := by
    obtain ⟨k, k', upto, waits, shows'⟩ := underway.block
    have accounted := nextAccounted_of_upto upto waits
    obtain ⟨k'', later, shows''⟩ := shows'.stays interconnect idle underway.ports
      noCsr accounted
    have noCommit : ∀ target, (port b target).commits = false := by
      intro target
      cases target with
      | csr => exact noCsr
      | memAccessCtrl => exact noMac
      | other => rfl
    rcases underway.ports.rest_step noCommit (dispatched_of_executing running) with
      stays | ⟨op, next, answer, thread, responds, before, after⟩
    · rw [stays]
      exact ⟨k, k'', upto, waits.trans later, shows''⟩
    have accounted := accounted _ _ before
    rw [before] at upto
    rw [after]
    cases op with
    | out32 addr data =>
      have other : interconnect.route addr = .other := responds
      simp only [Accounted, other] at accounted
    | in32 addr =>
      obtain ⟨word, taken⟩ := shows'.answered thread accounted.1 responds
      have disarmed : (step interconnect b i).sys.csr.ctrlReadbackPending = false := by
        change (Csr.next b.sys.csr _).ctrlReadbackPending = false
        rw [Csr.next_ctrlReadbackPending, commitsTo_eq_false noCsr, taken]
        simp
      refine ⟨{ k' with armed := false }, { k'' with armed := false }, ?_, ?_, shows''.disarm disarmed⟩
      · refine upto.2 (fun enables => enables) answer _ ⟨k', waits, ?_⟩
        rw [Block.answer, word]
      · rcases later with rfl | ⟨found, rfl⟩
        · exact .refl _
        · exact .inr ⟨found, rfl⟩
    | uartWriteByte data =>
      exact ⟨k', k'', upto.2 (fun enables => enables) answer _ ⟨k', waits, rfl⟩, later, shows''⟩
    | xilPrintf format args =>
      exact ⟨k', k'', upto.2 (fun enables => enables) answer _ ⟨k', waits, rfl⟩, later, shows''⟩

/-- The board follows the block, up to the write that sets ENABLE. -/
theorem Underway.next (underway : Underway interconnect final b) (idle : Unanswered i)
    (running : executing b = true) (notYet : enables b = false) :
    Underway interconnect final (step interconnect b i) := by
  cases csr : Csr.commits b.sys.csr with
  | true => exact underway.next_csr idle notYet csr
  | false =>
    cases mac : MemAccessCtrl.commits b.mac with
    | true => exact underway.next_memAccessCtrl idle csr mac
    | false => exact underway.next_no_commit idle running csr mac

/-- When ENABLE is set, the block is as `final` allows it. -/
theorem Underway.of_enables (underway : Underway interconnect final b) (now : enables b = true) :
    ∃ k data, final k data ∧ Cleared b k.regs ∧
      Csr.regs (step interconnect b i).sys.csr = { k.regs with ctrl := data &&& 7 } := by
  obtain ⟨k, k', upto, waits, shows'⟩ := underway.block
  have commits : Csr.commits b.sys.csr = true := by
    simp only [enables, Csr.commitsTo, Bool.and_eq_true] at now
    exact now.1.1
  obtain ⟨addr, data, next, here, -, serves, before, -⟩ :=
    underway.ports.rest_of_commits .csr i commits
  have accounted := nextAccounted_of_upto upto waits _ _ before
  obtain ⟨-, ctrl, enable⟩ := (enables_iff commits serves here).mp now
  simp only [Accounted, here] at accounted
  rw [if_pos ⟨ctrl, enable⟩] at accounted
  obtain ⟨stage, allowed⟩ := accounted
  have cleared : Cleared b k'.regs := by
    have atStage := shows'.stage
    simp only [AtStage, stage] at atStage
    exact atStage
  refine ⟨k', data, allowed, cleared, ?_⟩
  obtain ⟨awaddr, wdata, wstrb⟩ := WritePort.Serves.of_commits serves commits
  simp only [port, Csr.writePort] at awaddr wdata wstrb
  rw [regs_step, softResets, softResets_eq_false cleared.noReset, if_neg (by decide), if_pos commits,
    awaddr, wdata, wstrb, cleared.regs]
  exact Csr.Regs.write_of_ctrl k'.regs data ctrl

end Board

end AxiDma.Verified
