import AxiDma.Verified.Transactions

/-! # What CMD_RUN_DMA keeps of the configuration

The command saves BASEADDR, RINGLEN and TAIL, resets the CSR block, writes the three back
and sets ENABLE in the CTRL that it reads then.  The reset has cleared CTRL, so IRQ_EN is
lost (`irqEn_lost`); everything else is kept (`config_kept_iff`).
-/

namespace AxiDma.Verified

open AxiDma.Lib AxiDma.Rtl AxiDma.Firmware

namespace Board

open AxiDma.Firmware.Board

variable {maxInflight : Nat} {interconnect : Interconnect}

/-! ## The command on the block -/

/-- From the RESET write to the end. -/
def restoreAndRun (savedBaseaddr savedRinglen savedTail : Word) : Prog Unit := do
  out32 (csrAccessBase + csrRegCtrl) ctrlReset
  out32 (csrAccessBase + csrRegCtrl) 0
  out32 (csrAccessBase + csrRegIrqClear) 3
  out32 (csrAccessBase + csrRegBaseaddr) savedBaseaddr
  out32 (csrAccessBase + csrRegRinglen) savedRinglen
  out32 (csrAccessBase + csrRegTail) savedTail
  let headPre ← in32 (csrAccessBase + csrRegHead)
  let tailPre ← in32 (csrAccessBase + csrRegTail)
  xilPrintf "Triggering DMA... HEAD=%d TAIL=%d\r\n" [headPre, tailPre]
  if tailPre = 0 then
    xilPrintf "DMA ring empty (TAIL=0), nothing to do.\r\n" []
    sendAck cmdNack
  else startAndWait

theorem runDma_eq_restoreAndRun :
    runDma = (do
      let savedBaseaddr ← in32 (csrAccessBase + csrRegBaseaddr)
      let savedRinglen ← in32 (csrAccessBase + csrRegRinglen)
      let savedTail ← in32 (csrAccessBase + csrRegTail)
      restoreAndRun savedBaseaddr savedRinglen savedTail) := rfl

/-- ENABLE is set alone, over the saved registers. -/
def Restored (saved : Csr.Regs) (k : Block) (data : Word) : Prop :=
  k.regs = { saved with ctrl := 0 } ∧ data = ctrlEnable

/-- The program keeps to the block up to the write that sets ENABLE. -/
abbrev OnBlock (interconnect : Interconnect) (saved : Csr.Regs) (k : Block) (prog : Prog Unit) : Prop :=
  Program.Upto (Block.Can interconnect) (Enables interconnect)
    (Accounted interconnect (Restored saved)) k prog

variable {saved : Csr.Regs} {k : Block}

theorem Block.Waits.stage {k' : Block} (waits : k.Waits k') : k'.stage = k.stage := by
  rcases waits with rfl | ⟨-, rfl⟩ <;> rfl

theorem Block.Waits.regs {k' : Block} (waits : k.Waits k') (tail : k'.regs.tail ≠ 0) :
    k'.regs = k.regs := by
  rcases waits with rfl | ⟨-, rfl⟩
  · rfl
  · exact absurd rfl tail

theorem Block.Waits.eq_of_ne {k' : Block} (waits : k.Waits k') (later : k.stage ≠ .found) :
    k' = k := by
  rcases waits with rfl | ⟨found, -⟩
  · rfl
  · exact absurd found later

theorem onBlock_in32 (reg : BitVec 8) {next : Word → Prog Unit} (notResetting : k.stage ≠ .resetting)
    (readable : Readable k reg)
    (rest : ∀ k', k.Waits k' → OnBlock interconnect saved { k' with armed := false }
      (next (k'.read (csrAccessBase + reg.setWidth 32)))) :
    OnBlock interconnect saved k (in32 (csrAccessBase + reg.setWidth 32) >>= next) := by
  refine ⟨⟨interconnect.route_csr reg, notResetting, ?_⟩, fun _ => ?_⟩
  · rw [csrAddr_lsb]
    exact readable
  · rintro answer k' ⟨between, waits, found⟩
    obtain ⟨rfl, rfl⟩ := Prod.mk.inj found
    exact rest between waits

/-- A write after the RESET. -/
theorem onBlock_out32 (reg : BitVec 8) {regs regs' : Csr.Regs} {stage : Stage} {armed : Bool}
    {data : Word} {next : Unit → Prog Unit} (later : stage ≠ .found)
    (plain : reg = Csr.regCtrl → data = 0)
    (moves : regs.write (csrAccessBase + reg.setWidth 32, data, 15) = regs')
    (rest : OnBlock interconnect saved ⟨regs', .cleared, armed⟩ (next ())) :
    OnBlock interconnect saved ⟨regs, stage, armed⟩
      (out32 (csrAccessBase + reg.setWidth 32) data >>= next) := by
  have here : interconnect.route (csrAccessBase + reg.setWidth 32) = .csr :=
    interconnect.route_csr reg
  have noBit (n : Nat) : ¬ (reg = Csr.regCtrl ∧ data.getLsbD n = true) := by
    rintro ⟨ctrl, bit⟩
    rw [plain ctrl] at bit
    exact absurd (bit.symm.trans BitVec.getLsbD_zero) (by decide)
  refine ⟨?_, fun _ => ?_⟩
  · simp only [Accounted, here, csrAddr_lsb]
    rw [if_neg (noBit 0), if_neg later]
    exact fun ctrl => Bool.not_eq_true _ ▸ fun resets => noBit 1 ⟨ctrl, resets⟩
  · rintro answer k' ⟨between, waits, found⟩
    obtain rfl := waits.eq_of_ne later
    obtain ⟨-, rfl⟩ := Prod.mk.inj found
    have cleared : (if stage = .resetting then .cleared else stage) = Stage.cleared := by
      cases stage with
      | found => exact absurd rfl later
      | resetting => rfl
      | cleared => rfl
    rw [if_pos here, Block.write, csrAddr_lsb, cleared, if_neg (noBit 1), moves]
    exact rest

theorem onBlock_serial {op : Op} {next : Answer op → Prog Unit} (cleared : k.stage = .cleared)
    (serial : (∃ data, op = .uartWriteByte data) ∨ ∃ format args, op = .xilPrintf format args)
    (rest : ∀ answer, OnBlock interconnect saved k (next answer)) :
    OnBlock interconnect saved k (.act op next) := by
  have later : k.stage ≠ .found := by
    rw [cleared]
    decide
  rcases serial with ⟨data, rfl⟩ | ⟨format, args, rfl⟩
  · refine ⟨cleared, fun _ => ?_⟩
    rintro answer k' ⟨between, waits, same⟩
    obtain rfl := waits.eq_of_ne later
    obtain ⟨-, rfl⟩ := Prod.mk.inj same
    exact rest answer
  · refine ⟨cleared, fun _ => ?_⟩
    rintro answer k' ⟨between, waits, same⟩
    obtain rfl := waits.eq_of_ne later
    obtain ⟨-, rfl⟩ := Prod.mk.inj same
    exact rest answer

theorem onBlock_xilPrintf {format : String} {args : List Word} {next : Unit → Prog Unit}
    (cleared : k.stage = .cleared) (rest : OnBlock interconnect saved k (next ())) :
    OnBlock interconnect saved k (xilPrintf format args >>= next) :=
  onBlock_serial cleared (.inr ⟨format, args, rfl⟩) fun _ => rest

theorem onBlock_sendAck (cleared : k.stage = .cleared) (ackType : Byte) :
    OnBlock interconnect saved k (sendAck ackType) := by
  have byte {next : Unit → Prog Unit} (data : Byte) (rest : OnBlock interconnect saved k (next ())) :
      OnBlock interconnect saved k (.act (.uartWriteByte data) next) :=
    onBlock_serial cleared (.inl ⟨data, rfl⟩) fun _ => rest
  exact byte _ (byte _ (byte _ (byte _ (byte _ trivial))))

theorem Stage.cleared_ne_found : Stage.cleared ≠ .found := by
  decide

theorem Stage.cleared_ne_resetting : Stage.cleared ≠ .resetting := by
  decide

theorem onBlock_startAndWait {baseaddr ringlen tail : Word}
    (same : { saved with ctrl := 0 } = Csr.Regs.mk baseaddr ringlen tail 0) :
    OnBlock interconnect saved ⟨⟨baseaddr, ringlen, tail, 0⟩, .cleared, false⟩ startAndWait := by
  -- the memory is handed over; the block does not see it
  have away : interconnect.route (memAccessCtrlBase + regInitDone) = .memAccessCtrl :=
    interconnect.route_memAccessCtrl 0x1C
  refine ⟨?_, fun _ => ?_⟩
  · simp only [Accounted, away]
  rintro answer k' ⟨between, waits, found⟩
  obtain rfl := waits.eq_of_ne Stage.cleared_ne_found
  obtain ⟨-, rfl⟩ := Prod.mk.inj found
  rw [if_neg (by rw [away]; decide)]
  refine onBlock_in32 0x10 Stage.cleared_ne_resetting (.inr (.inr (.inr ⟨rfl, .inr ⟨rfl, rfl⟩⟩))) ?_
  intro k' waits
  obtain rfl := waits.eq_of_ne Stage.cleared_ne_found
  have zero : Block.read ⟨⟨baseaddr, ringlen, tail, 0⟩, .cleared, false⟩
      (csrAccessBase + (0x10 : BitVec 8).setWidth 32) = 0 := by
    simp only [Block.read, csrAddr_lsb]
    rfl
  rw [zero]
  have here : interconnect.route (csrAccessBase + csrRegCtrl) = .csr := interconnect.route_csr 0x10
  have enables : Enables interconnect (.out32 (csrAccessBase + csrRegCtrl) (0 ||| ctrlEnable)) :=
    ⟨here, by decide, by decide⟩
  refine ⟨?_, fun others => absurd enables others⟩
  simp only [Accounted, here]
  rw [if_pos enables.2]
  exact ⟨trivial, same.symm, by decide⟩

/-- With the saved words, or without a TAIL, the restoring half brings back what was saved. -/
theorem onBlock_restoreAndRun (found : k.stage = .found) {baseaddr ringlen tail : Word}
    (same : tail ≠ 0 → { saved with ctrl := 0 } = Csr.Regs.mk baseaddr ringlen tail 0) :
    OnBlock interconnect saved k (restoreAndRun baseaddr ringlen tail) := by
  have here : interconnect.route (csrAccessBase + csrRegCtrl) = .csr := interconnect.route_csr 0x10
  refine ⟨?_, fun _ => ?_⟩
  · simp only [Accounted, here]
    rw [if_neg (by decide), if_pos found]
    exact ⟨by decide, trivial⟩
  rintro answer k' ⟨between, -, reset⟩
  obtain ⟨-, rfl⟩ := Prod.mk.inj reset
  rw [if_pos here, Block.write, if_pos (by decide)]
  refine onBlock_out32 0x10 (by decide) (fun _ => rfl) (Csr.Regs.write_of_ctrl _ _ (csrAddr_lsb 0x10)) ?_
  refine onBlock_out32 0x2C Stage.cleared_ne_found (fun ctrl => absurd ctrl (by decide))
    (Csr.Regs.write_of_irqClear _ _ (csrAddr_lsb 0x2C)) ?_
  refine onBlock_out32 0x00 Stage.cleared_ne_found (fun ctrl => absurd ctrl (by decide))
    (Csr.Regs.write_of_baseaddr _ _ (csrAddr_lsb 0x00)) ?_
  refine onBlock_out32 0x04 Stage.cleared_ne_found (fun ctrl => absurd ctrl (by decide))
    (Csr.Regs.write_of_ringlen _ _ (csrAddr_lsb 0x04)) ?_
  refine onBlock_out32 0x0C Stage.cleared_ne_found (fun ctrl => absurd ctrl (by decide))
    (Csr.Regs.write_of_tail _ _ (csrAddr_lsb 0x0C)) ?_
  -- HEAD takes the readback away, and TAIL reads as written
  refine onBlock_in32 0x08 Stage.cleared_ne_resetting (.inr (.inr (.inr ⟨rfl, .inl rfl⟩))) ?_
  intro k' waits
  obtain rfl := waits.eq_of_ne Stage.cleared_ne_found
  refine onBlock_in32 0x0C Stage.cleared_ne_resetting (.inr (.inr (.inl rfl))) ?_
  intro k' waits
  obtain rfl := waits.eq_of_ne Stage.cleared_ne_found
  refine onBlock_xilPrintf rfl ?_
  split
  · exact onBlock_xilPrintf rfl (onBlock_sendAck rfl cmdNack)
  · rename_i some
    exact onBlock_startAndWait (same some)

/-- CMD_RUN_DMA on the block: if a RESET from before takes the registers away while they are
    saved, TAIL is among those taken, and nothing is run. -/
theorem onBlock_runDma (found : k.stage = .found) : OnBlock interconnect k.regs k runDma := by
  have offResetting {k' : Block} (stage : k'.stage = k.stage) : k'.stage ≠ .resetting := by
    rw [stage, found]
    decide
  rw [runDma_eq_restoreAndRun]
  refine onBlock_in32 0x00 (offResetting rfl) (.inl rfl) fun k₁ first => ?_
  have stage₁ : k₁.stage = k.stage := first.stage
  refine onBlock_in32 0x04 (offResetting stage₁) (.inr (.inl rfl)) fun k₂ second => ?_
  have stage₂ : k₂.stage = k.stage := second.stage.trans stage₁
  refine onBlock_in32 0x0C (offResetting stage₂) (.inr (.inr (.inl rfl))) fun k₃ third => ?_
  have stage₃ : k₃.stage = k.stage := third.stage.trans stage₂
  have read₁ : k₁.read (csrAccessBase + (0x00 : BitVec 8).setWidth 32) = k₁.regs.baseaddr := by
    simp only [Block.read, csrAddr_lsb]
    rfl
  have read₂ : k₂.read (csrAccessBase + (0x04 : BitVec 8).setWidth 32) = k₂.regs.ringlen := by
    simp only [Block.read, csrAddr_lsb]
    rfl
  have read₃ : k₃.read (csrAccessBase + (0x0C : BitVec 8).setWidth 32) = k₃.regs.tail := by
    simp only [Block.read, csrAddr_lsb]
    rfl
  rw [read₁, read₂, read₃]
  refine onBlock_restoreAndRun (k := { k₃ with armed := false }) (stage₃.trans found) fun some => ?_
  have same₃ : k₃.regs = k₂.regs := third.regs some
  have same₂ : k₂.regs = k₁.regs := second.regs (by rwa [← same₃])
  have same₁ : k₁.regs = k.regs := first.regs (by rwa [← same₂, ← same₃])
  rw [same₃, same₂, same₁]

/-! ## Runs -/

/-- The board with the requests and answers so far. -/
structure Tallied (maxInflight : Nat) where
  board : Board maxInflight
  tally : Tally

namespace Tallied

def step (interconnect : Interconnect) (c : Tallied maxInflight) (i : In) : Tallied maxInflight :=
  { board := Firmware.Board.step interconnect c.board i
    tally := c.tally.record (fetchHs interconnect c.board i) i.asDone i.dfError }

/-- Every answer is to a request of an earlier cycle. -/
def Environment (c : Tallied maxInflight) (i : In) : Prop :=
  c.tally.answered + i.asDone.toNat + i.dfError.toNat ≤ c.tally.accepted

instance (c : Tallied maxInflight) (i : In) : Decidable (Environment c i) :=
  inferInstanceAs (Decidable (_ ≤ _))

/-- CMD_RUN_DMA begins: the accesses before it are complete, and the DMA is idle.  The
    registers, a RESET and a readback that are due, and the ring manager are free. -/
structure Ready (c : Tallied maxInflight) : Prop where
  thread : c.board.thread = .execute runDma
  ports : ∀ target, (port c.board target).Clean
  noData : c.board.sys.csr.rvalid = false
  answered : c.tally.answered = c.tally.accepted
  still : Still c.board

/-- The cycles of the command before ENABLE is set. -/
def Before (c : Tallied maxInflight) (i : In) : Prop :=
  Environment c i ∧ executing c.board = true ∧ enables c.board = false

instance (c : Tallied maxInflight) (i : In) : Decidable (Before c i) :=
  inferInstanceAs (Decidable (_ ∧ _ ∧ _))

end Tallied

/-- What the command keeps: `b'` has the configuration of `b` with ENABLE added, and the run
    starts afresh. -/
structure Kept (b b' : Board maxInflight) : Prop where
  baseaddr : b'.sys.csr.baseaddr = b.sys.csr.baseaddr
  ringlen : b'.sys.csr.ringlen = b.sys.csr.ringlen
  tail : b'.sys.csr.tail = b.sys.csr.tail
  ctrl : b'.sys.csr.ctrl = b.sys.csr.ctrl &&& 5 ||| ctrlEnable
  head : b'.sys.rm.head = 0
  statusError : b'.sys.csr.statusError = false
  irqError : b'.sys.csr.irqError = false
  intStatusError : b'.sys.rm.intStatusError = false

def irqEn (b : Board maxInflight) : Bool := b.sys.csr.ctrl.getLsbD 2

/-! ### The invariant -/

namespace Tallied

structure Inv (interconnect : Interconnect) (saved : Csr.Regs) (c : Tallied maxInflight) : Prop where
  underway : Underway interconnect (Restored saved) c.board
  answered : c.tally.answered = c.tally.accepted

variable {c : Tallied maxInflight} {i : In}

/-- An idle DMA has nothing to answer. -/
theorem unanswered (answered : c.tally.answered = c.tally.accepted) (env : Environment c i) :
    Unanswered i := by
  unfold Environment at env
  constructor
  · cases done : i.asDone with
    | false => rfl
    | true =>
      rw [done, Bool.toNat_true] at env
      omega
  · cases bad : i.dfError with
    | false => rfl
    | true =>
      rw [bad, Bool.toNat_true] at env
      omega

theorem Ready.inv (ready : Ready c) : Inv interconnect (Csr.regs c.board.sys.csr) c where
  underway := by
    have command : rest interconnect c.board = runDma := rest_of_clean ready.thread ready.ports
    obtain ⟨aw, w, noAnswer⟩ := ready.ports .csr
    refine ⟨fun target => .of_clean (ready.ports target) _,
      ⟨Csr.regs c.board.sys.csr, .found, true⟩, _, ?_, .refl _, ?_⟩
    · rw [command]
      exact onBlock_runDma rfl
    · refine ⟨⟨rfl, noAnswer, ready.still, fun _ => ready.ports .csr⟩, nofun, fun data => ?_⟩
      exact absurd (ready.noData.symm.trans data) (by decide)
  answered := ready.answered

theorem Inv.step (inv : Inv interconnect saved c) (before : Before c i) :
    Inv interconnect saved (step interconnect c i) := by
  obtain ⟨env, running, notYet⟩ := before
  have idle := unanswered inv.answered env
  refine ⟨inv.underway.next idle running notYet, ?_⟩
  simp only [Tallied.step, Tally.record, inv.underway.noFetch, idle.asDone, idle.dfError, inv.answered]
  rfl

end Tallied

/-- ENABLE alone is what CTRL held, with ENABLE added, exactly if IRQ_EN was clear. -/
theorem enable_alone_iff (ctrl : Word) :
    ctrlEnable = ctrl &&& 5 ||| ctrlEnable ↔ ctrl.getLsbD 2 = false := by
  constructor
  · intro alone
    have bit := congrArg (·.getLsbD 2) alone
    simpa [ctrlEnable] using bit
  · intro clear
    apply BitVec.eq_of_getLsbD_eq
    intro j bound
    by_cases place : j = 2
    · rw [place, BitVec.getLsbD_or, BitVec.getLsbD_and, clear]
      rfl
    · have others : (5 : Word).getLsbD j = (1 : Word).getLsbD j := by
        revert j
        decide
      rw [BitVec.getLsbD_or, BitVec.getLsbD_and, others, ctrlEnable]
      cases (1 : Word).getLsbD j <;> simp

/-- The state in which ENABLE has been written. -/
theorem Underway.kept {b₀ b : Board maxInflight} {i : In}
    (underway : Underway interconnect (Restored (Csr.regs b₀.sys.csr)) b) (idle : Unanswered i)
    (now : enables b = true) : Kept b₀ (step interconnect b i) ↔ irqEn b₀ = false := by
  obtain ⟨k, data, ⟨restored, rfl⟩, cleared, written⟩ := underway.of_enables (i := i) now
  rw [restored] at written
  obtain ⟨head, intStatusError⟩ := rm_step interconnect cleared.noReset cleared.still.noFetch idle
  obtain ⟨statusError, irqError⟩ := sticky_step interconnect b idle
  have ctrl : (step interconnect b i).sys.csr.ctrl = ctrlEnable := congrArg Csr.Regs.ctrl written
  constructor
  · intro kept
    exact (enable_alone_iff _).mp (ctrl.symm.trans kept.ctrl)
  · intro clear
    exact {
      baseaddr := congrArg Csr.Regs.baseaddr written
      ringlen := congrArg Csr.Regs.ringlen written
      tail := congrArg Csr.Regs.tail written
      ctrl := ctrl.trans ((enable_alone_iff _).mpr clear)
      head := head.trans cleared.head
      statusError := statusError cleared.statusError
      irqError := irqError cleared.irqError
      intStatusError := by rw [intStatusError, cleared.intStatusError, Bool.false_and] }

/-- CMD_RUN_DMA keeps the configuration exactly if IRQ_EN is clear, whatever the state it
    finds and the delays it meets, in the state in which it has written ENABLE. -/
theorem config_kept_iff {c : Tallied maxInflight} (ready : Tallied.Ready c) {is : List In} {i : In}
    (before : LegalRun (Tallied.step interconnect) Tallied.Before c is)
    (env : Tallied.Environment (run (Tallied.step interconnect) c is) i)
    (now : enables (run (Tallied.step interconnect) c is).board = true) :
    Kept c.board (run (Tallied.step interconnect) c (is ++ [i])).board ↔ irqEn c.board = false := by
  have inv : Tallied.Inv interconnect (Csr.regs c.board.sys.csr)
      (run (Tallied.step interconnect) c is) :=
    before.invariant (fun _ _ inv before => inv.step before) ready.inv
  rw [run_snoc]
  exact inv.underway.kept (Tallied.unanswered inv.answered env) now

/-! ### Two runs without delays -/

/-- An error has stopped a ring of 4 at its second descriptor, and the command begins. -/
def halted (ctrl : Word) : Tallied 4 :=
  { board :=
      { sys :=
          { csr := { Csr.resetState with baseaddr := 0x40, ringlen := 4, tail := 3, ctrl := ctrl,
                                         statusError := true, irqError := true }
            rm := { RingManager.resetState 4 with head := 1, intStatusError := true } }
        mac := MemAccessCtrl.resetState
        thread := .execute runDma }
    tally := ⟨1, 1⟩ }

theorem ready_halted {ctrl : Word} (noReset : ctrl.getLsbD 1 = false) : (halted ctrl).Ready where
  thread := rfl
  ports target := by cases target <;> exact ⟨rfl, rfl, rfl⟩
  noData := rfl
  answered := rfl
  still := .inr (.inr ⟨noReset, .inr ⟨rfl, rfl⟩⟩)

set_option maxRecDepth 100000 in
theorem config_kept_of_enabled :
    Kept (halted 1).board
      (run (Tallied.step addressMap) (halted 1) (List.replicate 35 ready ++ [ready])).board :=
  (config_kept_iff (ready_halted (by decide)) (by decide) (by decide) (by decide)).mpr (by decide)

set_option maxRecDepth 100000 in
/-- IRQ_EN is lost: CTRL held ENABLE and IRQ_EN, and holds ENABLE alone when the run starts. -/
theorem irqEn_lost :
    let c := run (Tallied.step addressMap) (halted 5) (List.replicate 35 ready)
    let c' := run (Tallied.step addressMap) (halted 5) (List.replicate 35 ready ++ [ready])
    Tallied.Ready (halted 5) ∧
      LegalRun (Tallied.step addressMap) Tallied.Before (halted 5) (List.replicate 35 ready) ∧
      Tallied.Environment c ready ∧ enables c.board = true ∧ c'.board.sys.csr.tail = 3 ∧ c'.board.sys.csr.ctrl = 1 ∧
      ¬ Kept (halted 5).board c'.board := by
  refine ⟨ready_halted (by decide), by decide, by decide, by decide, by decide, by decide,
    fun kept => ?_⟩
  exact absurd kept.ctrl (by decide)

end Board

end AxiDma.Verified
