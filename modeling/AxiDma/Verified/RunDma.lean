import AxiDma.Verified.CoreOnFpga
import AxiDma.Verified.Ownership
import AxiDma.Verified.ResetAtRest
import AxiDma.Verified.StartWait

/-! # `CMD_RUN_DMA` on the FPGA

INIT_DONE leads from the panel to the core behind the registers, and back to a panel with the memories
as the descriptors have left them.
-/

namespace AxiDma.Verified

open AxiDma.Lib AxiDma.Rtl AxiDma.Firmware
open CsrCore (Delays bus)

namespace Panel

/-- The ring in the system memory. -/
def ring (memWords : Nat) (p : Panel) (pos : 0 < p.regs.ringlen.toNat) : PostedRing :=
  { memWords, baseaddr := p.regs.baseaddr, ringlen := p.regs.ringlen, ram := p.shim.mem .sysmem, pos }

def bram (addrWidth : Nat) (p : Panel) (a : BitVec addrWidth) : Word := p.shim.mem .sram a.toNat

/-- The words of both memories within their depths. -/
def words {addrWidth : Nat} (memWords : Nat) (m : Memories addrWidth) : Memory → Nat → Word
  | .sram, n => if n < 2 ^ addrWidth then m.bram (BitVec.ofNat addrWidth n) else 0
  | .sysmem, n => if n < memWords then m.ram n else 0

/-- After a transfer: ENABLE is left set, and HEAD is at TAIL. -/
def ran {addrWidth : Nat} (memWords : Nat) (p : Panel) (m : Memories addrWidth) : Panel :=
  { regs := { p.regs with ctrl := ctrlEnable }, head := p.regs.tail
    shim := { p.shim with mem := words memWords m }, sent := p.sent }

end Panel

theorem CsrCore.Posted.regs_eq {ring : PostedRing} {tail ctrl : Word} {r : Csr.Regs} (posted : Posted ring tail r)
    (value : r.ctrl = ctrl) : r = { baseaddr := ring.baseaddr, ringlen := ring.ringlen, tail, ctrl } := by
  obtain ⟨base, length, tail', -⟩ := posted
  rw [← base, ← length, ← tail', ← value]

namespace Fpga

variable {k addrWidth memWords log : Nat} {interconnect : Interconnect}
  {p : Panel} {s : Fpga k addrWidth} {c : CsrCore k addrWidth} {i : In} {op : Option Op}

/-! ## The core in a state of the FPGA -/

theorem Asleep.mirrors (asleep : Asleep s) (was : s.csr.tail = 0 → s.rm.wasEmpty = true) {words : Nat → Word}
    (loaded : ∀ n < memWords, words n = s.board.sysMem.ram n) :
    Mirrors memWords ⟨s.csr, ClosedCore.start s.core { s.board.sysMem with ram := words }⟩ s where
  csr := rfl
  dma := asleep.dma
  head := asleep.head.symm
  inflight := asleep.none.symm
  status := asleep.clear.symm
  wasEmpty := by
    by_cases unposted : s.csr.tail = 0
    · exact .inl (was unposted).symm
    · right
      have apart : (0 : Word) ≠ s.csr.tail := fun same => unposted same.symm
      rw [RingManager.ringEmpty, asleep.head]
      exact beq_eq_false_iff_ne.mpr apart
  sysMem := by
    constructor
    · calc s.board.sysMem = SysMem.reset s.board.sysMem := asleep.sysMem.symm
        _ = _ := rfl
    · exact fun n less => (loaded n less).symm

/-- Behind the registers is a core with `K`. -/
def Behind (memWords : Nat) (p : Panel) (K : CsrCore k addrWidth → Prop) (s : Fpga k addrWidth) : Prop :=
  ∃ c, Follows memWords p c s ∧ K c

theorem Behind.step {K : CsrCore k addrWidth → Prop} (behind : Behind memWords p K s)
    (kept : ∀ c i, K c → K (CsrCore.step memWords c i none))
    (noWrite : MemAccessCtrl.commits s.board.memInit = false)
    (elsewhere : asked (window interconnect .csr) op = none) (silent : output i op = []) :
    Behind memWords p K (Fpga.step memWords interconnect s i op) := by
  obtain ⟨c, follows, holds⟩ := behind
  have next := @Follows.step k addrWidth memWords interconnect p s c i op follows noWrite silent
  rw [elsewhere] at next
  exact ⟨_, next, kept c i.delays holds⟩

/-! ## INIT_DONE -/

/-- A core that has not been used, with the memories of a panel and its registers, has `K`. -/
def Begins (p : Panel) (K : CsrCore k addrWidth → Prop) : Prop :=
  ∀ (csr : Csr.State) (core : DmaCore.State k addrWidth) (mem : Rtl.SysMem.State), Csr.regs csr = p.regs →
    csr.ctrlReadbackData = 0 → CsrCore.Unwritten csr → csr.rvalid = false → csr.statusError = false →
      core.mt.engines.bram.mem = p.bram addrWidth → mem.ram = p.shim.mem .sysmem →
        K ⟨csr, ClosedCore.start core mem⟩

/-- The DMA gets the memories, before its first descriptor. -/
theorem behind_of_asleep {K : CsrCore k addrWidth → Prop} (begins : Begins p K)
    (regs : Csr.regs s.csr = p.regs) (asleep : Asleep s) (shim : shimOf memWords s.board = p.shim)
    (sent : s.sent = p.sent) (initDone : s.board.memInit.initDone = true) (noError : s.csr.statusError = false)
    (noClear : s.csr.irqClearErrorPending = false) (was : s.csr.tail = 0 → s.rm.wasEmpty = true)
    (rest : (csrSlave k addrWidth memWords interconnect).Rest s) : Behind memWords p K s := by
  have mem : contents memWords s.board = p.shim.mem := congrArg Shim.mem shim
  have loaded : ∀ n < memWords, p.shim.mem .sysmem n = s.board.sysMem.ram n := by
    intro n less
    rw [← mem, contents, if_pos less]
  have bram : s.board.dma.engines.bram.mem = p.bram addrWidth := by
    funext a
    rw [Panel.bram, ← mem, contents, if_pos a.isLt, BitVec.ofNat_toNat, BitVec.setWidth_eq]
  exact ⟨_, ⟨asleep.mirrors was loaded, initDone, congrArg Shim.initAddr shim, congrArg Shim.initData shim,
    congrArg Shim.rdata shim, sent⟩,
    begins s.csr s.core _ regs asleep.noReadback ⟨rest.port, noClear⟩ rest.noData noError bram rfl⟩

/-- INIT_DONE at 1. -/
theorem Shows.handsOver {K : CsrCore k addrWidth → Prop} (shows' : Shows (2 ^ log) Asleep p s)
    (begins : Begins p K) (csr : (csrSlave k addrWidth (2 ^ log) interconnect).Rest s)
    (commits : MemAccessCtrl.commits s.board.memInit = true)
    (toAddr : MemAccessCtrl.wrAddrLsb s.board.memInit = MemAccessCtrl.regInitDone)
    (toData : s.board.memInit.wdData = 1) (full : s.board.memInit.wdStrb = 15)
    (elsewhere : asked (window interconnect .csr) op = none) (silent : output i op = []) :
    Behind (2 ^ log) p K (Fpga.step (2 ^ log) interconnect s i op) := by
  have noSet : Csr.commits s.csr = false := csr_noCommit csr.port
  have quiet := shows'.undisturbed (@still_asleep k addrWidth (2 ^ log) interconnect)
    (s.boardIn (busOf interconnect .memAccessCtrl i op))
  have regs : Csr.regs (Fpga.step (2 ^ log) interconnect s i op).csr = p.regs := by
    rw [csr_step, Csr.regs_next, Csr.softResets_of_noReset shows'.noReset, noSet]
    exact shows'.regs
  have asleep : Asleep (Fpga.step (2 ^ log) interconnect s i op) :=
    still_asleep.step s i op shows'.still shows'.noRequest (readback_of_noCommit noSet)
  have shim : shimOf (2 ^ log) (Fpga.step (2 ^ log) interconnect s i op).board = p.shim := by
    rw [board_step, shimOf_step quiet shows'.settled fun _ => full, commits, toAddr]
    exact shows'.shim
  have sent : (Fpga.step (2 ^ log) interconnect s i op).sent = p.sent := by
    rw [sent_step, silent, List.append_nil]
    exact shows'.sent
  have initDone : (Fpga.step (2 ^ log) interconnect s i op).board.memInit.initDone = true := by
    rw [memInit_step, MemAccessCtrl.initDone_step, commits, toAddr, toData]
    rfl
  have noError : (Fpga.step (2 ^ log) interconnect s i op).csr.statusError = false := by
    have noDfError : (s.csrIn (2 ^ log) (busOf interconnect .csr i op)).ring.errorSet = false :=
      shows'.still.dormant.noError _
    rw [csr_step, Csr.next_statusError, Csr.softResets_of_noReset shows'.noReset, noDfError, shows'.noError]
    simp
  have noClear : (Fpga.step (2 ^ log) interconnect s i op).csr.irqClearErrorPending = false := by
    have before : s.csr.irqClearErrorPending = false := by
      by_contra pending
      exact absurd (csr.port.2.2.symm.trans (shows'.noClear (by simpa using pending))) (by decide)
    rw [csr_step, Csr.next_irqClearErrorPending, noPulse_of_noCommit noSet, before]
    rfl
  have was : (Fpga.step (2 ^ log) interconnect s i op).csr.tail = 0 →
      (Fpga.step (2 ^ log) interconnect s i op).rm.wasEmpty = true := by
    intro unposted
    have tail : s.csr.tail = 0 :=
      ((congrArg Csr.Regs.tail shows'.regs).trans (congrArg Csr.Regs.tail regs).symm).trans unposted
    have empty : RingManager.ringEmpty s.rm (Csr.toRing s.csr) = true := by
      rw [RingManager.ringEmpty, shows'.still.head, Csr.toRing, tail]
      rfl
    rw [rm_step, RingManager.step_of_run rfl shows'.noReset]
    exact empty
  exact behind_of_asleep begins regs asleep shim sent initDone noError noClear was (csr.step elsewhere)

theorem ensures_handOver {K : CsrCore k addrWidth → Prop} (begins : Begins p K)
    (kept : ∀ c i, K c → K (CsrCore.step (2 ^ log) c i none)) (at' : At (2 ^ log) interconnect Asleep p s) :
    Ensures (device k addrWidth (2 ^ log) interconnect)
      (fun _ s => (Behind (2 ^ log) p K s ∧ (csrSlave k addrWidth (2 ^ log) interconnect).Rest s) ∧
        (initSlave k addrWidth (2 ^ log) interconnect).Rest s) 3
      ⟨s, regWrite Firmware.regInitDone 1⟩ := by
  have here : window interconnect .memAccessCtrl (memAccessCtrlBase + Firmware.regInitDone) = true :=
    memAccessCtrl_window MemAccessCtrl.regInitDone
  have apart {data : Word} : asked (window interconnect .csr)
      (some (.out32 (memAccessCtrlBase + Firmware.regInitDone) data)) = none := asked_out_apart (by decide) here
  suffices writes : (initSlave k addrWidth (2 ^ log) interconnect).Writes
      (memAccessCtrlBase + Firmware.regInitDone) 1
      (fun s => Shows (2 ^ log) Asleep p s ∧ (csrSlave k addrWidth (2 ^ log) interconnect).Rest s)
      (fun s => Behind (2 ^ log) p K s ∧ (csrSlave k addrWidth (2 ^ log) interconnect).Rest s) by
    exact Slave.ensures_out32 here writes ⟨at'.shows', at'.csr⟩ at'.init
  constructor
  · intro s i noCommit noData before
    obtain ⟨shows', csr⟩ := before
    exact ⟨shows'.stay still_asleep (csr_noCommit csr.port) noCommit rfl, csr.step apart⟩
  · intro s i commits toAddr toData full noData before
    obtain ⟨shows', csr⟩ := before
    have toAddr : MemAccessCtrl.wrAddrLsb s.board.memInit = MemAccessCtrl.regInitDone :=
      congrArg (BitVec.setWidth 8) toAddr
    exact ⟨shows'.handsOver begins csr commits toAddr toData full apart rfl, csr.step apart⟩
  · intro s i answer noData after
    obtain ⟨behind, csr⟩ := after
    exact ⟨behind.step kept (init_noCommit_of_answer answer) apart rfl, csr.step apart⟩
  · intro s i rest after
    obtain ⟨behind, csr⟩ := after
    exact ⟨behind.step kept (init_noCommit rest.port) rfl rfl, csr.step rfl⟩

theorem contents_of_finished {ring : PostedRing} {bram : BitVec addrWidth → Word} {tail ctrl : Word}
    (offers : Offers k addrWidth ring tail) (mirrors : Mirrors memWords c s)
    (finished : CsrCore.Finished ring bram tail ctrl c) :
    contents memWords s.board = Panel.words memWords (ClosedCore.copies ring bram tail.toNat) := by
  obtain ⟨ram, bram, -, -⟩ := finished.memories offers
  funext m n
  cases m with
  | sram => rw [contents, Panel.words, ← mirrors.dma, bram]
  | sysmem =>
    rw [contents, Panel.words, ← ram]
    exact if_ctx_congr Iff.rfl (fun less => mirrors.sysMem.ram n less) (fun _ => rfl)

section Running

variable {pos : 0 < p.regs.ringlen.toNat}

open CsrCore (Armed Finished Sound Posted)

/-- A ring that is posted before ENABLE. -/
theorem begins_armed (offers : Offers k addrWidth (p.ring (2 ^ log) pos) p.regs.tail) (zero : p.regs.ctrl = 0) :
    Begins (k := k) p (Armed (p.ring (2 ^ log) pos) (p.bram addrWidth) p.regs.tail) := by
  intro csr core mem regs noReadback unwritten noData noError bram loaded
  have all : Csr.regs csr =
      { baseaddr := p.regs.baseaddr, ringlen := p.regs.ringlen, tail := p.regs.tail, ctrl := 0 } := by
    rw [regs, ← zero]
  have posted : Posted (p.ring (2 ^ log) pos) p.regs.tail
      { baseaddr := p.regs.baseaddr, ringlen := p.regs.ringlen, tail := p.regs.tail, ctrl := 0 } :=
    ⟨rfl, rfl, rfl, BitVec.getLsbD_zero⟩
  have ready := @ClosedCore.ready_start k addrWidth (p.ring (2 ^ log) pos) core mem loaded
  rw [bram] at ready
  refine ⟨⟨?_, unwritten⟩, noReadback⟩
  exact
    { regs := all
      stage := .inr ⟨posted, ready.held (posted.postsRing all) offers.room offers.good⟩
      noError := noError
      announced := fun _ empty => by
        have tail : csr.tail = p.regs.tail := congrArg Csr.Regs.tail regs
        exact absurd ((beq_iff_eq.mp empty).trans tail).symm offers.pos }
/-- The panel that a core has left once it is done. -/
theorem shows_of_finished (offers : Offers k addrWidth (p.ring (2 ^ log) pos) p.regs.tail)
    (mirrors : Mirrors (2 ^ log) c s)
    (finished : Finished (p.ring (2 ^ log) pos) (p.bram addrWidth) p.regs.tail ctrlEnable c)
    (initAddr : s.board.memInit.initAddr = p.shim.initAddr) (initData : s.board.memInit.initData = p.shim.initData)
    (rdata : s.board.memInit.regRdata = p.shim.rdata) (sent : s.sent = p.sent)
    (initDone : s.board.memInit.initDone = false) (noWrite : MemAccessCtrl.commits s.board.memInit = false) :
    Shows (2 ^ log) AtRest
      (p.ran (2 ^ log) (ClosedCore.copies (p.ring (2 ^ log) pos) (p.bram addrWidth) p.regs.tail.toNat)) s := by
  have posted := finished.waits.posted
  have held := finished.waits.sound.held offers posted
  have head : s.rm.head = p.regs.tail := mirrors.head.symm.trans finished.head
  constructor
  case regs =>
    rw [← mirrors.csr, Panel.ran]
    exact posted.regs_eq finished.waits.started
  case head => exact head
  case shim =>
    rw [shimOf, initAddr, initData, rdata, contents_of_finished offers mirrors finished]
    rfl
  case sent => exact sent
  case still =>
    have dormant := held.runs.inv.pipe.dormant held.runs.inv.beside finished.waits.idle.2
    rwa [mirrors.dma] at dormant
  case idles => exact .inr ⟨rfl, rfl⟩
  case initDone => exact initDone
  case settled => exact fun commits => absurd (noWrite.symm.trans commits) (by decide)
  case noError =>
    rw [← mirrors.csr]
    exact finished.waits.sound.noError
  case noClear =>
    intro pending
    rw [← mirrors.csr, finished.waits.unwritten.noClear] at pending
    exact absurd pending Bool.false_ne_true

/-- INIT_DONE at 0. -/
theorem Follows.takesBack (follows : Follows (2 ^ log) p c s)
    (offers : Offers k addrWidth (p.ring (2 ^ log) pos) p.regs.tail)
    (finished : Finished (p.ring (2 ^ log) pos) (p.bram addrWidth) p.regs.tail ctrlEnable c)
    (commits : MemAccessCtrl.commits s.board.memInit = true)
    (toAddr : MemAccessCtrl.wrAddrLsb s.board.memInit = MemAccessCtrl.regInitDone)
    (toData : s.board.memInit.wdData = 0)
    (elsewhere : asked (window interconnect .csr) op = none) (silent : output i op = []) :
    Shows (2 ^ log) AtRest
      (p.ran (2 ^ log) (ClosedCore.copies (p.ring (2 ^ log) pos) (p.bram addrWidth) p.regs.tail.toNat))
      (Fpga.step (2 ^ log) interconnect s i op) := by
  have noPulse {reg : BitVec 8} (other : MemAccessCtrl.regInitDone ≠ reg) :
      MemAccessCtrl.pulse s.board.memInit reg = false := by
    rw [MemAccessCtrl.pulse, toAddr, beq_false_of_ne other, Bool.and_false, Bool.false_and]
  have mirrors := @Mirrors.step k addrWidth (2 ^ log) interconnect s c i op follows.mirrors follows.initDone
    (noPulse (by decide))
  rw [elsewhere] at mirrors
  refine shows_of_finished offers mirrors (finished.step offers (show CsrCore.Reads none from trivial))
    ?_ ?_ ?_ ?_ ?_ ?_
  · rw [memInit_step, MemAccessCtrl.initAddr_step, toAddr, commits]
    exact follows.initAddr
  · rw [memInit_step, MemAccessCtrl.initData_step, toAddr, commits]
    exact follows.initData
  · rw [memInit_step, MemAccessCtrl.regRdata_step, MemAccessCtrl.sramRdPulse, MemAccessCtrl.memRdPulse,
      noPulse (by decide), noPulse (by decide)]
    exact follows.rdata
  · rw [sent_step, silent, List.append_nil]
    exact follows.sent
  · rw [memInit_step, MemAccessCtrl.initDone_step, toAddr, commits, toData]
    rfl
  · exact noCommit_after commits

theorem ensures_takeBack (offers : Offers k addrWidth (p.ring (2 ^ log) pos) p.regs.tail)
    (behind : Behind (2 ^ log) p (Finished (p.ring (2 ^ log) pos) (p.bram addrWidth) p.regs.tail ctrlEnable) s)
    (csr : (csrSlave k addrWidth (2 ^ log) interconnect).Rest s)
    (init : (initSlave k addrWidth (2 ^ log) interconnect).Rest s) :
    Ensures (device k addrWidth (2 ^ log) interconnect)
      (fun _ => At (2 ^ log) interconnect AtRest
        (p.ran (2 ^ log) (ClosedCore.copies (p.ring (2 ^ log) pos) (p.bram addrWidth) p.regs.tail.toNat))) 3
      ⟨s, regWrite Firmware.regInitDone 0⟩ := by
  have here : window interconnect .memAccessCtrl (memAccessCtrlBase + Firmware.regInitDone) = true :=
    memAccessCtrl_window MemAccessCtrl.regInitDone
  have apart {data : Word} : asked (window interconnect .csr)
      (some (.out32 (memAccessCtrlBase + Firmware.regInitDone) data)) = none := asked_out_apart (by decide) here
  have kept (c : CsrCore k addrWidth) (i : Delays)
      (finished : Finished (p.ring (2 ^ log) pos) (p.bram addrWidth) p.regs.tail ctrlEnable c) :
      Finished (p.ring (2 ^ log) pos) (p.bram addrWidth) p.regs.tail ctrlEnable (CsrCore.step (2 ^ log) c i none) :=
    finished.step offers (show CsrCore.Reads none from trivial)
  suffices writes : (initSlave k addrWidth (2 ^ log) interconnect).Writes
      (memAccessCtrlBase + Firmware.regInitDone) 0
      (fun s => Behind (2 ^ log) p
          (Finished (p.ring (2 ^ log) pos) (p.bram addrWidth) p.regs.tail ctrlEnable) s ∧
        (csrSlave k addrWidth (2 ^ log) interconnect).Rest s)
      (fun s => Shows (2 ^ log) AtRest
          (p.ran (2 ^ log) (ClosedCore.copies (p.ring (2 ^ log) pos) (p.bram addrWidth) p.regs.tail.toNat)) s ∧
        (csrSlave k addrWidth (2 ^ log) interconnect).Rest s) by
    exact (Slave.ensures_out32 here writes ⟨behind, csr⟩ init).mono
      (fun _ s after => ⟨after.1.1, after.1.2, after.2⟩) (Nat.le_refl 3)
  constructor
  · intro s i noCommit noData before
    obtain ⟨behind, csr⟩ := before
    exact ⟨behind.step kept noCommit apart rfl, csr.step apart⟩
  · intro s i commits toAddr toData full noData before
    obtain ⟨⟨c, follows, finished⟩, csr⟩ := before
    have toAddr : MemAccessCtrl.wrAddrLsb s.board.memInit = MemAccessCtrl.regInitDone :=
      congrArg (BitVec.setWidth 8) toAddr
    exact ⟨follows.takesBack offers finished commits toAddr toData apart rfl, csr.step apart⟩
  · intro s i answer noData after
    obtain ⟨shows', csr⟩ := after
    exact ⟨shows'.stay still_atRest (csr_noCommit csr.port) (init_noCommit_of_answer answer) rfl, csr.step apart⟩
  · intro s i rest after
    obtain ⟨shows', csr⟩ := after
    exact ⟨shows'.stay still_atRest (csr_noCommit csr.port) (init_noCommit rest.port) rfl, csr.step rfl⟩

/-! ## The loops on the FPGA -/

theorem only_waitBusy (turns : Nat) (status : Word) : (waitBusy turns status).Only (ToCsr interconnect) := by
  induction turns generalizing status with
  | zero => trivial
  | succ turns ih =>
    refine ⟨csr_window Csr.regStatus, fun status => ?_⟩
    change Program.Only _ (if _ then _ else _)
    split
    · trivial
    · exact ih status

theorem only_waitDone (turns : Nat) (status : Word) : (waitDone turns status).Only (ToCsr interconnect) := by
  induction turns generalizing status with
  | zero => trivial
  | succ turns ih =>
    refine ⟨csr_window Csr.regStatus, fun status => ?_⟩
    change Program.Only _ (if _ then _ else _)
    split
    · trivial
    · change Program.Only _ (if _ then _ else _)
      split
      · trivial
      · exact ih status

theorem only_enableAndWait : CsrCore.enableAndWait.Only (ToCsr interconnect) := by
  have loops : (waitBusy 10000 0 >>= fun status => waitDone 10000000 status).Only (ToCsr interconnect) :=
    (only_waitBusy 10000 0).bind (only_waitDone 10000000)
  exact ⟨csr_window Csr.regCtrl, fun _ => ⟨csr_window Csr.regCtrl, fun _ => loops⟩⟩

/-- Start and wait on the FPGA, for a ring that is through before the second loop gives up. -/
theorem ensures_enableAndWait (offers : Offers k addrWidth (p.ring (2 ^ log) pos) p.regs.tail)
    (soon : ClosedCore.drains p.regs.tail.toNat < 10000000)
    (behind : Behind (2 ^ log) p (Armed (p.ring (2 ^ log) pos) (p.bram addrWidth) p.regs.tail) s)
    (csr : (csrSlave k addrWidth (2 ^ log) interconnect).Rest s)
    (init : (initSlave k addrWidth (2 ^ log) interconnect).Rest s) :
    Ensures (device k addrWidth (2 ^ log) interconnect)
      (fun out s => (out.1 ≠ 0 ∧ out.2 &&& statusError = 0) ∧
        Behind (2 ^ log) p (Finished (p.ring (2 ^ log) pos) (p.bram addrWidth) p.regs.tail ctrlEnable) s ∧
          (csrSlave k addrWidth (2 ^ log) interconnect).Rest s ∧
            (initSlave k addrWidth (2 ^ log) interconnect).Rest s)
      (2 * ClosedCore.drains p.regs.tail.toNat + 20007) ⟨s, CsrCore.enableAndWait⟩ := by
  obtain ⟨c, follows, armed⟩ := behind
  have noData : c.csr.rvalid = false := (congrArg Csr.State.rvalid follows.mirrors.csr).trans csr.noData
  have core := CsrCore.ensures_enableAndWait offers armed noData
  have whole := Ensures.transfer (simulates p) only_enableAndWait ⟨follows, init⟩ core
  refine whole.mono (fun out s after => ?_) (Nat.le_refl _)
  obtain ⟨c, ⟨follows, init⟩, noData, noError, ends⟩ := after
  cases ends with
  | inl finished =>
    have port := finished.2.waits.unwritten.port
    rw [follows.mirrors.csr] at port noData
    exact ⟨⟨finished.1, noError⟩, ⟨c, follows, finished.2⟩, ⟨port, noData⟩, init⟩
  | inr gone =>
    have late : 10000000 ≤ ClosedCore.drains p.regs.tail.toNat := gone.2
    omega

/-! ## The command -/

theorem startAndWait_eq_enableAndWait : startAndWait = (do
    regWrite Firmware.regInitDone 1
    let out ← CsrCore.enableAndWait
    regWrite Firmware.regInitDone 0
    if out.2 &&& statusError ≠ 0 ∨ out.1 = 0 then
      xilPrintf "DMA failed: status=0x%08x\r\n" [out.2]
      sendAck cmdNack
    else
      xilPrintf "DMA done: status=0x%08x\r\n" [out.2]
      sendAck cmdAck) := by
  simp only [startAndWait, CsrCore.enableAndWait, Program.bind_assoc]

theorem ensures_startAndWait (offers : Offers k addrWidth (p.ring (2 ^ log) pos) p.regs.tail)
    (soon : ClosedCore.drains p.regs.tail.toNat < 10000000) (zero : p.regs.ctrl = 0)
    (at' : At (2 ^ log) interconnect Asleep p s) :
    let last := p.ran (2 ^ log) (ClosedCore.copies (p.ring (2 ^ log) pos) (p.bram addrWidth) p.regs.tail.toNat)
    Ensures (device k addrWidth (2 ^ log) interconnect)
      (fun _ => At (2 ^ log) interconnect AtRest { last with sent := last.sent ++ answerBytes cmdAck })
      (2 * ClosedCore.drains p.regs.tail.toNat + 20019) ⟨s, startAndWait⟩ := by
  intro last
  rw [startAndWait_eq_enableAndWait]
  have kept (c : CsrCore k addrWidth) (i : Delays)
      (armed : Armed (p.ring (2 ^ log) pos) (p.bram addrWidth) p.regs.tail c) :
      Armed (p.ring (2 ^ log) pos) (p.bram addrWidth) p.regs.tail (CsrCore.step (2 ^ log) c i none) :=
    armed.step offers (show CsrCore.Reads none from trivial)
  refine ((ensures_handOver (begins_armed offers zero) kept at').bind (n := 2 * ClosedCore.drains p.regs.tail.toNat + 20016)
    fun _ s handed => ?_).within (by omega)
  obtain ⟨⟨behind, csr⟩, init⟩ := handed
  have runs := ensures_enableAndWait offers soon behind csr init
  refine (runs.bind (n := 9) fun out s after => ?_).within (by omega)
  obtain ⟨⟨left, noError⟩, behind, csr, init⟩ := after
  refine (ensures_takeBack offers behind csr init).bind (n := 6) fun _ s at' => ?_
  rw [if_neg (by simp [left, noError])]
  refine (ensures_xilPrintf (sends_at (p := last) still_atRest) at' _ _).bind (n := 5) fun _ s at' => ?_
  exact ensures_sendAck (sends_at (p := last) still_atRest) at' _

/-- One of the writes behind the RESET. -/
theorem ensures_setTo {r r' : Csr.Regs} (reg : BitVec 8) {data : Word} (other : reg ≠ Csr.regCtrl)
    (moves : r.write (csrAccessBase + reg.setWidth 32, data, 15) = r') (clear : r.ctrl = 0)
    (at' : At (2 ^ log) interconnect Asleep { p with regs := r } s) :
    Ensures (device k addrWidth (2 ^ log) interconnect)
      (fun _ => At (2 ^ log) interconnect Asleep { p with regs := r' }) 3
      ⟨s, out32 (csrAccessBase + reg.setWidth 32) data⟩ := by
  have elsewhere : (csrAccessBase + reg.setWidth 32).setWidth 8 ≠ Csr.regCtrl := by
    rw [csrAddr_lsb]
    exact other
  have sets := ensures_setRegister still_asleep (csr_window reg) clear elsewhere data at'
  rwa [moves] at sets

/-- A read of a ring register before the transfer. -/
theorem ensures_get (reg : BitVec 8) (readable : reg ∈ Panel.ringRegs)
    (at' : At (2 ^ log) interconnect Asleep p s) :
    Ensures (device k addrWidth (2 ^ log) interconnect)
      (fun w s => w = p.readRing reg ∧ At (2 ^ log) interconnect Asleep p s) 2
      ⟨s, in32 (csrAccessBase + reg.setWidth 32)⟩ := by
  have gets := @ensures_getRegister k addrWidth log interconnect Asleep p s _ still_asleep (csr_window reg)
  rw [csrAddr_lsb] at gets
  exact gets readable at'

theorem restored_eq (zero : p.regs.ctrl = 0) (head : p.head = 0) :
    { cleared p with regs :=
      { baseaddr := p.regs.baseaddr, ringlen := p.regs.ringlen, tail := p.regs.tail, ctrl := 0 } } = p := by
  obtain ⟨⟨baseaddr, ringlen, tail, ctrl⟩, head', shim, sent⟩ := p
  obtain rfl : ctrl = 0 := zero
  obtain rfl : head' = 0 := head
  rfl

/-- The writes behind the RESET bring the panel back. -/
theorem ensures_restore {β : Type} {post : β → Fpga k addrWidth → Prop} {n : Nat} {next : Prog β}
    (zero : p.regs.ctrl = 0) (head : p.head = 0) (at' : At (2 ^ log) interconnect Asleep (cleared p) s)
    (continues : ∀ s, At (2 ^ log) interconnect Asleep p s →
      Ensures (device k addrWidth (2 ^ log) interconnect) post n ⟨s, next⟩) :
    Ensures (device k addrWidth (2 ^ log) interconnect) post (12 + n) ⟨s, do
      out32 (csrAccessBase + csrRegIrqClear) 3
      out32 (csrAccessBase + csrRegBaseaddr) p.regs.baseaddr
      out32 (csrAccessBase + csrRegRinglen) p.regs.ringlen
      out32 (csrAccessBase + csrRegTail) p.regs.tail
      next⟩ := by
  refine ((ensures_setTo (p := cleared p) Csr.regIrqClear (by decide)
    (Csr.Regs.write_of_irqClear _ _ (csrAddr_lsb _)) rfl at').bind (n := 9 + n)
    fun _ s at' => ?_).within (by omega)
  refine ((ensures_setTo (p := cleared p) Csr.regBaseaddr (by decide)
    (Csr.Regs.write_of_baseaddr _ _ (csrAddr_lsb _)) rfl at').bind (n := 6 + n)
    fun _ s at' => ?_).within (by omega)
  refine ((ensures_setTo (p := cleared p) Csr.regRinglen (by decide)
    (Csr.Regs.write_of_ringlen _ _ (csrAddr_lsb _)) rfl at').bind (n := 3 + n)
    fun _ s at' => ?_).within (by omega)
  refine (ensures_setTo (p := cleared p) Csr.regTail (by decide)
    (Csr.Regs.write_of_tail _ _ (csrAddr_lsb _)) rfl at').bind fun _ s at' => continues s ?_
  exact (restored_eq zero head) ▸ at'

/-- The command, from the panel to the panel it leaves. -/
theorem ensures_runDma (offers : Offers k addrWidth (p.ring (2 ^ log) pos) p.regs.tail)
    (soon : ClosedCore.drains p.regs.tail.toNat < 10000000) (zero : p.regs.ctrl = 0)
    (at' : At (2 ^ log) interconnect Asleep p s) :
    let last := p.ran (2 ^ log) (ClosedCore.copies (p.ring (2 ^ log) pos) (p.bram addrWidth) p.regs.tail.toNat)
    Ensures (device k addrWidth (2 ^ log) interconnect)
      (fun _ => At (2 ^ log) interconnect AtRest { last with sent := last.sent ++ answerBytes cmdAck })
      (2 * ClosedCore.drains p.regs.tail.toNat + 20048) ⟨s, runDma⟩ := by
  intro last
  have head : p.head = 0 := at'.shows'.head.symm.trans at'.shows'.still.head
  -- the registers are saved
  refine ((ensures_get Csr.regBaseaddr (by decide) at').bind
    (n := 2 * ClosedCore.drains p.regs.tail.toNat + 20046) fun base s after => ?_).within (by omega)
  obtain ⟨savedBase, at'⟩ := after
  refine ((ensures_get Csr.regRinglen (by decide) at').bind
    (n := 2 * ClosedCore.drains p.regs.tail.toNat + 20044) fun length s after => ?_).within (by omega)
  obtain ⟨savedLength, at'⟩ := after
  refine ((ensures_get Csr.regTail (by decide) at').bind
    (n := 2 * ClosedCore.drains p.regs.tail.toNat + 20042) fun tail s after => ?_).within (by omega)
  obtain ⟨savedTail, at'⟩ := after
  obtain rfl : base = p.regs.baseaddr := savedBase
  obtain rfl : length = p.regs.ringlen := savedLength
  obtain rfl : tail = p.regs.tail := savedTail
  -- RESET and its release
  refine ((ensures_reset at').bind
    (n := 2 * ClosedCore.drains p.regs.tail.toNat + 20039) fun _ s after => ?_).within (by omega)
  obtain ⟨⟨resetting, init⟩, csr⟩ := after
  refine ((ensures_release resetting init csr).bind
    (n := 2 * ClosedCore.drains p.regs.tail.toNat + 20036) fun _ s at' => ?_).within (by omega)
  refine (ensures_restore (n := 2 * ClosedCore.drains p.regs.tail.toNat + 20024) zero head at'
    fun s at' => ?_).within (by omega)
  -- HEAD and TAIL are reported
  refine ((ensures_get Csr.regHead (by decide) at').bind
    (n := 2 * ClosedCore.drains p.regs.tail.toNat + 20022) fun headPre s after => ?_).within (by omega)
  obtain ⟨-, at'⟩ := after
  refine ((ensures_get Csr.regTail (by decide) at').bind
    (n := 2 * ClosedCore.drains p.regs.tail.toNat + 20020) fun tailPre s after => ?_).within (by omega)
  obtain ⟨found, at'⟩ := after
  obtain rfl : tailPre = p.regs.tail := found
  refine ((ensures_xilPrintf (sends_at (p := p) still_asleep) at' _ _).bind
    (n := 2 * ClosedCore.drains p.regs.tail.toNat + 20019) fun _ s at' => ?_).within (by omega)
  rw [if_neg offers.pos]
  exact ensures_startAndWait offers soon zero at'

end Running

end Fpga

open Fpga

/-- INIT_DONE is 0, the DMA has not been used since reset, CTRL is 0, TAIL is neither 0 nor past the ring, the
    slots below it hold good descriptors, and the DMA needs fewer cycles than the second loop has turns: under
    any delays the command returns within the given number of prompt cycles, and sends an ACK beside the text
    of `xil_printf`.  Then both memories are as the descriptors leave them one after the other, HEAD is at
    TAIL, ENABLE is left set, the other registers are as before, and the DMA is at rest. -/
theorem runDma_ensures {k addrWidth log : Nat} {interconnect : Interconnect} {p : Panel}
    {pos : 0 < p.regs.ringlen.toNat} (offers : Offers k addrWidth (p.ring (2 ^ log) pos) p.regs.tail)
    (soon : ClosedCore.drains p.regs.tail.toNat < 10000000) (zero : p.regs.ctrl = 0) {s : Fpga k addrWidth}
    (at' : At (2 ^ log) interconnect Asleep p s) :
    let copied := ClosedCore.copies (p.ring (2 ^ log) pos) (p.bram addrWidth) p.regs.tail.toNat
    Ensures (device k addrWidth (2 ^ log) interconnect)
      (fun _ s => s.sent = p.sent ++ answerBytes cmdAck ∧
        contents (2 ^ log) s.board = Panel.words (2 ^ log) copied ∧
        At (2 ^ log) interconnect AtRest
          { p.ran (2 ^ log) copied with sent := p.sent ++ answerBytes cmdAck } s)
      (2 * ClosedCore.drains p.regs.tail.toNat + 20048) ⟨s, runDma⟩ := by
  intro copied
  refine (ensures_runDma offers soon zero at').mono (fun _ s at' => ?_) (Nat.le_refl _)
  exact ⟨at'.shows'.sent, congrArg Shim.mem at'.shows'.shim, at'⟩

/-- The descriptors of `thereAndBack` in the system memory of a board, and zeros elsewhere. -/
def thereAndBackBoard : VivadoConfig.State 6 3 :=
  { memInit := MemAccessCtrl.resetState, dma := (zeroed 6 3).mt
    sysMem := ClosedCore.handedOver ClosedCore.thereAndBack }

/-- The ring of `thereAndBack`, from reset. -/
def postAndRun : Prog Unit := do
  out32 (csrAccessBase + csrRegBaseaddr) 64
  out32 (csrAccessBase + csrRegRinglen) 4
  out32 (csrAccessBase + csrRegTail) 2
  runDma

theorem runDma_there_and_back : ClosedCore.drains 2 < 10000000 ∧
    Ensures (device 6 3 (2 ^ 5) Board.addressMap)
      (fun _ s => s.sent = answerBytes cmdAck ∧ s.board.sysMem.ram 2 = 7 ∧ Dormant s.board.dma)
      (2 * ClosedCore.drains 2 + 20057) ⟨reset thereAndBackBoard, postAndRun⟩ := by
  have soon : ClosedCore.drains 2 < 10000000 := by decide
  refine ⟨soon, ?_⟩
  refine ((ensures_setTo (p := panelOf (2 ^ 5) thereAndBackBoard) Csr.regBaseaddr (by decide)
    (Csr.Regs.write_of_baseaddr _ _ (csrAddr_lsb _)) rfl (at_reset thereAndBackBoard)).bind
    (n := 2 * ClosedCore.drains 2 + 20054) fun _ s at' => ?_).within (by omega)
  refine ((ensures_setTo (p := panelOf (2 ^ 5) thereAndBackBoard) Csr.regRinglen (by decide)
    (Csr.Regs.write_of_ringlen _ _ (csrAddr_lsb _)) rfl at').bind
    (n := 2 * ClosedCore.drains 2 + 20051) fun _ s at' => ?_).within (by omega)
  refine ((ensures_setTo (p := panelOf (2 ^ 5) thereAndBackBoard) Csr.regTail (by decide)
    (Csr.Regs.write_of_tail _ _ (csrAddr_lsb _)) rfl at').bind
    (n := 2 * ClosedCore.drains 2 + 20048) fun _ s at' => ?_).within (by omega)
  let p : Panel := { panelOf (2 ^ 5) thereAndBackBoard with
    regs := { baseaddr := 64, ringlen := 4, tail := 2, ctrl := 0 } }
  have offers : Offers 6 3 (p.ring (2 ^ 5) (by decide)) p.regs.tail :=
    { deep := by decide, small := by decide, some := by decide, pos := by decide, room := by decide
      good := by decide +kernel }
  have runs := @runDma_ensures 6 3 5 Board.addressMap p (by decide) offers soon rfl s at'
  refine runs.mono (fun _ s after => ?_) (Nat.le_refl _)
  obtain ⟨sent, copied, at'⟩ := after
  have word : s.board.sysMem.ram 2 = Panel.words (2 ^ 5)
      (ClosedCore.copies (p.ring (2 ^ 5) (by decide)) (p.bram 3) p.regs.tail.toNat) .sysmem 2 :=
    congrFun (congrFun copied .sysmem) 2
  exact ⟨sent, word.trans (by decide +kernel), at'.shows'.still⟩

end AxiDma.Verified
