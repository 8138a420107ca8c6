import AxiDma.Verified.FirmwareModes
import AxiDma.Verified.InitOwnership
import AxiDma.Verified.Panel
import AxiDma.Verified.RingRun

/-! # The core behind the registers

While INIT_DONE is set, the CSR block and the DMA of the FPGA run as `CsrCore` does (`Mirrors`), and
an access to the CSR block is one to it (`simulates`): what a program ensures on the core it ensures
on the FPGA.
-/

namespace AxiDma.Verified

open AxiDma.Lib AxiDma.Rtl AxiDma.Firmware
open CsrCore (Delays bus)

/-! ## What the init ports do not reach -/

/-- Two system memories that differ past the last word and in the init address at most. -/
structure SameMem (memWords : Nat) (a b : Rtl.SysMem.State) : Prop where
  fsm : b = { a with ram := b.ram, initWordAddr := b.initWordAddr }
  ram : ∀ n < memWords, b.ram n = a.ram n

section SameMem

variable {memWords : Nat} {a b : Rtl.SysMem.State} {m : Axi4Master} {i j : Rtl.SysMem.Init}

theorem SameMem.out (same : SameMem memWords a b) : SysMem.out memWords b = SysMem.out memWords a := by
  obtain ⟨fsm, ram⟩ := same
  have word : SysMem.rdata memWords b = SysMem.rdata memWords a := by
    unfold SysMem.rdata
    rw [fsm]
    split
    · exact ram _ ‹_›
    · rfl
  rw [SysMem.out, word, fsm]
  rfl

theorem readNext_frame (words : Nat → Word) (word : Nat) :
    SysMem.readNext m { a with ram := words, initWordAddr := word } =
      { SysMem.readNext m a with ram := words, initWordAddr := word } := by
  cases state : a.rState with
  | idle =>
    simp only [SysMem.readNext, state]
    split
    · rfl
    · rw [← state]
  | issue =>
    simp only [SysMem.readNext, state]
    split
    · split
      · rfl
      · rw [← state]
    · rw [← state]

theorem writeNext_frame (words : Nat → Word) (word : Nat) : ∃ words',
    SysMem.writeNext memWords m { a with ram := words, initWordAddr := word } =
      { SysMem.writeNext memWords m a with ram := words', initWordAddr := word } := by
  cases state : a.wState with
  | idle =>
    refine ⟨words, ?_⟩
    simp only [SysMem.writeNext, state]
    split <;> rfl
  | data =>
    simp only [SysMem.writeNext, state]
    split
    · split
      · split
        · exact ⟨_, rfl⟩
        · exact ⟨_, rfl⟩
      · split
        · exact ⟨_, rfl⟩
        · exact ⟨_, rfl⟩
    · exact ⟨_, rfl⟩
  | resp =>
    refine ⟨words, ?_⟩
    simp only [SysMem.writeNext, state]
    split <;> rfl

theorem SameMem.step (same : SameMem memWords a b) (noInit : i.wrEn = false) (noInit' : j.wrEn = false) :
    SameMem memWords (SysMem.step memWords a m i) (SysMem.step memWords b m j) := by
  obtain ⟨fsm, ram⟩ := same
  constructor
  · obtain ⟨words, writes⟩ := @writeNext_frame memWords (SysMem.readNext m a) m b.ram b.initWordAddr
    rw [fsm, SysMem.step, readNext_frame, writes]
    rfl
  · intro n less
    rw [SysMem.ram_step noInit, SysMem.ram_step noInit', fsm]
    simp only
    split
    · rw [Function.update_apply, Function.update_apply, ram n less]
    · exact ram n less

end SameMem

/-- With INIT_DONE set the init port of the BRAM is cut off. -/
theorem movementTop_step_owned {k addrWidth : Nat} {s : MovementTop.State k addrWidth}
    {i j : MovementTop.In addrWidth} (addr : i.rmDfAddr = j.rmDfAddr) (valid : i.rmDfValid = j.rmDfValid)
    (axi : i.axi = j.axi) (owned : i.init.initDone = true) (owned' : j.init.initDone = true) :
    MovementTop.step s i = MovementTop.step s j := by
  obtain ⟨rmDfAddr, rmDfValid, slave, init⟩ := i
  obtain ⟨rmDfAddr', rmDfValid', slave', init'⟩ := j
  obtain rfl := addr
  obtain rfl := valid
  obtain rfl := axi
  -- only the mux in front of the BRAM looks at the init port
  have mux : Engines.bramIn s.engines (MovementTop.enginesIn s ⟨rmDfAddr, rmDfValid, slave, init⟩) =
      Engines.bramIn s.engines (MovementTop.enginesIn s ⟨rmDfAddr, rmDfValid, slave, init'⟩) := by
    have owned : init.initDone = true := owned
    have owned' : init'.initDone = true := owned'
    simp only [Engines.bramIn, MovementTop.enginesIn, owned, owned']
    rfl
  have engines : Engines.step s.engines (MovementTop.enginesIn s ⟨rmDfAddr, rmDfValid, slave, init⟩) =
      Engines.step s.engines (MovementTop.enginesIn s ⟨rmDfAddr, rmDfValid, slave, init'⟩) := by
    simp only [Engines.step, mux]
    rfl
  simp only [MovementTop.step, engines]
  rfl

theorem axiOut_of_axi {k addrWidth : Nat} {s : MovementTop.State k addrWidth} {i j : MovementTop.In addrWidth}
    (axi : i.axi = j.axi) : MovementTop.axiOut s i = MovementTop.axiOut s j := by
  simp only [MovementTop.axiOut, Engines.axiOut, Engines.axiIn, MovementTop.enginesIn, axi]

/-- The ring manager moves by its pointer, its count and its error flag. -/
theorem ringManager_step_same {n : Nat} {a b : RingManager.State n} {i : RingManager.In} (head : a.head = b.head)
    (inflight : a.inflightCount = b.inflightCount) (status : a.intStatusError = b.intStatusError) :
    (RingManager.step a i).head = (RingManager.step b i).head ∧
      (RingManager.step a i).inflightCount = (RingManager.step b i).inflightCount ∧
        (RingManager.step a i).intStatusError = (RingManager.step b i).intStatusError ∧
          (RingManager.step a i).wasEmpty = (RingManager.step b i).wasEmpty := by
  unfold RingManager.step
  split
  · exact ⟨rfl, rfl, rfl, rfl⟩
  · simp only [RingManager.headPtrNext, RingManager.inflightCountNext, RingManager.intStatusErrorNext,
      RingManager.fetchHs, RingManager.fetchReqValid, RingManager.ringEmpty, head, inflight, status]
    simp

namespace Fpga

variable {k addrWidth memWords log : Nat} {interconnect : Interconnect}
  {p : Panel} {s : Fpga k addrWidth} {c : CsrCore k addrWidth} {i : In} {op : Option Op} {addr data : Word}

/-! ## The core behind the registers -/

/-- `CsrCore` in the state of the FPGA.  Its ring manager may remember another ring before the
    first descriptor; of its own two registers nothing reads `swRstEnable`. -/
structure Mirrors (memWords : Nat) (c : CsrCore k addrWidth) (s : Fpga k addrWidth) : Prop where
  csr : c.csr = s.csr
  dma : c.core.pipe.core.mt = s.board.dma
  head : c.core.pipe.core.rm.head = s.rm.head
  inflight : c.core.pipe.core.rm.inflightCount = s.rm.inflightCount
  status : c.core.pipe.core.rm.intStatusError = s.rm.intStatusError
  wasEmpty : c.core.pipe.core.rm.wasEmpty = s.rm.wasEmpty ∨
    RingManager.ringEmpty s.rm (Csr.toRing s.csr) = false
  sysMem : SameMem memWords c.core.mem s.board.sysMem

namespace Mirrors

theorem fetchReqValid (mirrors : Mirrors memWords c s) (csr : RingManager.CsrIn) :
    RingManager.fetchReqValid c.core.pipe.core.rm csr = RingManager.fetchReqValid s.rm csr := by
  simp only [RingManager.fetchReqValid, RingManager.ringEmpty, mirrors.head, mirrors.inflight, mirrors.status]

theorem rmIn (mirrors : Mirrors memWords c s) :
    DmaCore.rmIn c.core.pipe.core (c.core.coreIn memWords (Csr.toRing c.csr)) =
      DmaCore.rmIn s.core (s.coreIn memWords) := by
  have error : DmaCore.dfError c.core.pipe.core (c.core.coreIn memWords (Csr.toRing c.csr)) =
      DmaCore.dfError s.core (s.coreIn memWords) := by
    change DescriptorFetcher.dfError _ = DescriptorFetcher.dfError _
    simp only [MovementTop.dfIn, DmaCore.mtIn, ClosedCore.coreIn, coreIn, core, mirrors.csr, mirrors.dma,
      mirrors.fetchReqValid, RingManager.rmDfAddr, mirrors.head]
  rw [DmaCore.rmIn, DmaCore.rmIn, error]
  simp only [ClosedCore.coreIn, coreIn, core, mirrors.csr, mirrors.dma]

theorem csrIn (mirrors : Mirrors memWords c s) (bus : AxiLiteMaster) :
    c.csrIn memWords bus = s.csrIn memWords bus := by
  have empty : RingManager.ringEmpty c.core.pipe.core.rm (Csr.toRing c.csr) =
      RingManager.ringEmpty s.rm (Csr.toRing s.csr) := by
    rw [RingManager.ringEmpty, RingManager.ringEmpty, mirrors.head, mirrors.csr]
  have raised : RingManager.irqEmptySet c.core.pipe.core.rm (Csr.toRing c.csr) =
      RingManager.irqEmptySet s.rm (Csr.toRing s.csr) := by
    rw [RingManager.irqEmptySet, RingManager.irqEmptySet, empty]
    cases mirrors.wasEmpty with
    | inl same => rw [same]
    -- a ring with descriptors in it raises no empty pulse, whatever was remembered
    | inr filled => simp [filled]
  rw [CsrCore.csrIn, Fpga.csrIn, mirrors.rmIn, empty, raised, mirrors.head, RingManager.busy, RingManager.busy,
    mirrors.inflight]

theorem rm_step (mirrors : Mirrors memWords c s) :
    let next := RingManager.step c.core.pipe.core.rm
      (DmaCore.rmIn c.core.pipe.core (c.core.coreIn memWords (Csr.toRing c.csr)))
    let next' := RingManager.step s.rm (DmaCore.rmIn s.core (s.coreIn memWords))
    next.head = next'.head ∧ next.inflightCount = next'.inflightCount ∧
      next.intStatusError = next'.intStatusError ∧ next.wasEmpty = next'.wasEmpty := by
  intro next next'
  simp only [next, next', mirrors.rmIn]
  exact ringManager_step_same mirrors.head mirrors.inflight mirrors.status

/-- One cycle, as long as MicroBlaze leaves the memories to the DMA. -/
theorem step (mirrors : Mirrors memWords c s) (initDone : s.board.memInit.initDone = true)
    (noPulse : MemAccessCtrl.memWrPulse s.board.memInit = false) :
    Mirrors memWords (CsrCore.step memWords c i.delays (asked (window interconnect .csr) op))
      (Fpga.step memWords interconnect s i op) where
  csr := by
    rw [CsrCore.csr_step, csr_step, mirrors.csrIn, mirrors.csr]
    rfl
  dma := by
    change MovementTop.step c.core.pipe.core.mt
        (DmaCore.mtIn c.core.pipe.core (c.core.coreIn memWords (Csr.toRing c.csr))) =
      MovementTop.step s.board.dma (DmaCore.mtIn s.core (s.coreIn memWords))
    rw [mirrors.dma]
    refine movementTop_step_owned ?_ ?_ ?_ rfl initDone
    · simp only [DmaCore.mtIn, ClosedCore.coreIn, coreIn, RingManager.rmDfAddr, mirrors.csr, mirrors.head]
      rfl
    · simp only [DmaCore.mtIn, ClosedCore.coreIn, coreIn, mirrors.csr, mirrors.fetchReqValid]
      rfl
    · exact mirrors.sysMem.out.symm
  head := mirrors.rm_step.1
  inflight := mirrors.rm_step.2.1
  status := mirrors.rm_step.2.2.1
  wasEmpty := .inl mirrors.rm_step.2.2.2
  sysMem := by
    have out : (c.core.axiOut memWords (Csr.toRing c.csr)).axi =
        (MovementTop.axiOut s.board.dma (DmaCore.mtIn s.core (s.coreIn memWords))).axi := by
      rw [ClosedCore.axiOut, mirrors.dma]
      exact congrArg AxiMaster.Out.axi (axiOut_of_axi mirrors.sysMem.out.symm)
    change SameMem memWords (SysMem.step memWords c.core.mem (c.core.axiOut memWords (Csr.toRing c.csr)).axi _)
      (SysMem.step memWords s.board.sysMem
        (MovementTop.axiOut s.board.dma (DmaCore.mtIn s.core (s.coreIn memWords))).axi _)
    rw [out]
    exact mirrors.sysMem.step rfl noPulse

end Mirrors

/-- The FPGA while MicroBlaze leaves both memories to the DMA; the registers of the shim wait. -/
structure Follows (memWords : Nat) (p : Panel) (c : CsrCore k addrWidth) (s : Fpga k addrWidth) : Prop where
  mirrors : Mirrors memWords c s
  initDone : s.board.memInit.initDone = true
  initAddr : s.board.memInit.initAddr = p.shim.initAddr
  initData : s.board.memInit.initData = p.shim.initData
  rdata : s.board.memInit.regRdata = p.shim.rdata
  sent : s.sent = p.sent

theorem Follows.step (follows : Follows memWords p c s) (noWrite : MemAccessCtrl.commits s.board.memInit = false)
    (silent : output i op = []) :
    Follows memWords p (CsrCore.step memWords c i.delays (asked (window interconnect .csr) op))
      (Fpga.step memWords interconnect s i op) where
  mirrors := follows.mirrors.step follows.initDone (pulse_of_no_commit noWrite _)
  initDone := by
    rw [memInit_step, MemAccessCtrl.initDone_step, noWrite]
    exact follows.initDone
  initAddr := by
    rw [memInit_step, MemAccessCtrl.initAddr_step, noWrite]
    exact follows.initAddr
  initData := by
    rw [memInit_step, MemAccessCtrl.initData_step, noWrite]
    exact follows.initData
  rdata := by
    rw [memInit_step, MemAccessCtrl.regRdata_step, MemAccessCtrl.sramRdPulse, MemAccessCtrl.memRdPulse,
      pulse_of_no_commit noWrite, pulse_of_no_commit noWrite]
    exact follows.rdata
  sent := by
    rw [sent_step, silent, List.append_nil]
    exact follows.sent

/-- An access to the CSR block, or a report. -/
def ToCsr (interconnect : Interconnect) : Op → Prop
  | .out32 addr _ => window interconnect .csr addr = true
  | .in32 addr => window interconnect .csr addr = true
  | .xilPrintf _ _ => True
  | .uartWriteByte _ => False

theorem asked_of_toCsr (only : ∀ o, op = some o → ToCsr interconnect o) :
    bus i.delays (asked (window interconnect .csr) op) = bus i.delays op ∧
      asked (window interconnect .memAccessCtrl) op = none ∧ output i op = [] := by
  cases op with
  | none => exact ⟨rfl, rfl, rfl⟩
  | some op =>
    have here := only op rfl
    cases op with
    | out32 addr data => exact ⟨congrArg (bus i.delays) (if_pos here), asked_out_apart (by decide) here, rfl⟩
    | in32 addr => exact ⟨congrArg (bus i.delays) (if_pos here), asked_in_apart (by decide) here, rfl⟩
    | uartWriteByte byte => exact here.elim
    | xilPrintf format args => exact ⟨rfl, rfl, rfl⟩

/-- The FPGA follows the core through every access to the CSR block. -/
theorem simulates (p : Panel) : Simulates (CsrCore.device k addrWidth memWords)
    (device k addrWidth memWords interconnect) (ToCsr interconnect) In.delays
    (fun c s => Follows memWords p c s ∧ (initSlave k addrWidth memWords interconnect).Rest s) where
  step c s i op only related := by
    obtain ⟨follows, init⟩ := related
    obtain ⟨here, elsewhere, silent⟩ := asked_of_toCsr (i := i) only
    have next := @Follows.step k addrWidth memWords interconnect p s c i op follows (init_noCommit init.port) silent
    -- the CSR block of the FPGA sees every access of such a program
    have same : CsrCore.step memWords c i.delays (asked (window interconnect .csr) op) =
        CsrCore.step memWords c i.delays op := by rw [CsrCore.step, here, CsrCore.step]
    rw [same] at next
    exact ⟨next, init.step elsewhere⟩
  answer c s i op here related := by
    have csr := related.1.mirrors.csr
    cases op with
    | out32 addr data =>
      rw [(csrSlave k addrWidth memWords interconnect).answer_out s i addr data here]
      simp only [CsrCore.device, csr]
      rfl
    | in32 addr =>
      rw [(csrSlave k addrWidth memWords interconnect).answer_in s i addr here]
      simp only [CsrCore.device, csr]
      rfl
    | uartWriteByte byte => exact here.elim
    | xilPrintf format args => rfl
  prompt i all := all

end Fpga

end AxiDma.Verified
