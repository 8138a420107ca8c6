import AxiDma.Verified.Dormant
import AxiDma.Verified.Fpga

/-! # The FPGA between two transfers

While the DMA is at rest, what the firmware can reach is a `Panel`: the four registers, HEAD, and
the memories behind the shim.  `Shows` relates it to the FPGA in every cycle, and each access of the
firmware takes effect at once (`ensures_access`), so a program runs on the FPGA as on its panel
(`ensures_exec`).
-/

namespace AxiDma.Verified

open AxiDma.Lib AxiDma.Rtl AxiDma.Firmware
open CsrCore (Delays bus)

structure Panel where
  regs : Csr.Regs
  head : Word
  shim : Shim
  /-- What has been sent to the host. -/
  sent : List Byte

namespace Panel

/-- A read of one of the ring registers. -/
def readRing (p : Panel) (reg : BitVec 8) : Word :=
  if reg = Csr.regBaseaddr then p.regs.baseaddr
  else if reg = Csr.regRinglen then p.regs.ringlen
  else if reg = Csr.regHead then p.head
  else p.regs.tail

/-- An access, at once. -/
def access (interconnect : Interconnect) (depth : Memory → Nat) (p : Panel) : (op : Op) → Answer op × Panel
  | .out32 addr data =>
    ((), match interconnect.route addr with
      | .csr => { p with regs := p.regs.write (addr, data, 15) }
      | .memAccessCtrl => { p with shim := p.shim.write depth (addr.setWidth 8) data }
      | .other => p)
  | .in32 addr =>
    (match interconnect.route addr with
      | .csr => p.readRing (addr.setWidth 8)
      | .memAccessCtrl => p.shim.read (addr.setWidth 8)
      | .other => 0, p)
  | .uartWriteByte byte => ((), { p with sent := p.sent ++ [byte] })
  | .xilPrintf _ _ => ((), p)

def ringRegs : List (BitVec 8) := [Csr.regBaseaddr, Csr.regRinglen, Csr.regHead, Csr.regTail]

/-- No access that starts the DMA: CTRL and INIT_DONE are not written, and the other registers only
    while CTRL is 0. -/
def Allowed (interconnect : Interconnect) (p : Panel) : Op → Prop
  | .out32 addr _ =>
    interconnect.route addr = .csr ∧ p.regs.ctrl = 0 ∧ addr.setWidth 8 ≠ Csr.regCtrl ∨
      interconnect.route addr = .memAccessCtrl ∧ addr.setWidth 8 ≠ MemAccessCtrl.regInitDone
  | .in32 addr =>
    interconnect.route addr = .csr ∧ addr.setWidth 8 ∈ ringRegs ∨ interconnect.route addr = .memAccessCtrl
  | _ => True

/-- CTRL is 0, or ENABLE alone with an empty ring. -/
def Idles (p : Panel) : Prop := p.regs.ctrl = 0 ∨ p.regs.ctrl = ctrlEnable ∧ p.head = p.regs.tail

end Panel

namespace Fpga

variable {k addrWidth memWords log : Nat} {interconnect : Interconnect} {Q : Fpga k addrWidth → Prop}
  {p : Panel} {s : Fpga k addrWidth} {i : In} {op : Option Op} {addr data : Word}

/-! ## The DMA at rest -/

/-- States in which the DMA is at rest, and from which it stays so by itself. -/
structure Still (memWords : Nat) (interconnect : Interconnect) (Q : Fpga k addrWidth → Prop) : Prop where
  dormant : ∀ s, Q s → Dormant s.board.dma
  step : ∀ s i op, Q s → RingManager.fetchReqValid s.rm (Csr.toRing s.csr) = false →
    (step memWords interconnect s i op).csr.ctrlReadbackData = s.csr.ctrlReadbackData →
      Q (step memWords interconnect s i op)

/-- The DMA has not been used since reset. -/
structure Asleep (s : Fpga k addrWidth) : Prop where
  dma : MovementTop.reset s.board.dma = s.board.dma
  sysMem : SysMem.reset s.board.sysMem = s.board.sysMem
  head : s.rm.head = 0
  none : s.rm.inflightCount = 0
  clear : s.rm.intStatusError = false
  noReadback : s.csr.ctrlReadbackData = 0

theorem Asleep.dormant (asleep : Asleep s) : Dormant s.board.dma := asleep.dma ▸ dormant_reset s.board.dma

def AtRest (s : Fpga k addrWidth) : Prop := Dormant s.board.dma

theorem reset_sysMem_step {mem : SysMem.State} {m : Axi4Master} {init : SysMem.Init} (same : SysMem.reset mem = mem)
    (noAw : m.awvalid = false) (noAr : m.arvalid = false) :
    SysMem.reset (SysMem.step memWords mem m init) = SysMem.step memWords mem m init := by
  rw [← same]
  simp [SysMem.step, SysMem.readNext, SysMem.writeNext, SysMem.initNext, SysMem.reset, noAw, noAr]

theorem rm_step : (step memWords interconnect s i op).rm =
    RingManager.step s.rm (DmaCore.rmIn s.core (s.coreIn memWords)) := rfl

theorem still_atRest : Still (k := k) memWords interconnect (@AtRest k addrWidth) where
  dormant _ dormant := dormant
  step _ _ _ dormant noRequest _ := dormant.step noRequest

/-- Without a request and without an answer the ring manager keeps its place. -/
theorem rm_still (dormant : Dormant s.board.dma)
    (noRequest : RingManager.fetchReqValid s.rm (Csr.toRing s.csr) = false)
    (noReset : s.csr.ctrl.getLsbD 1 = false) :
    (step memWords interconnect s i op).rm.head = s.rm.head ∧
      (step memWords interconnect s i op).rm.inflightCount = s.rm.inflightCount ∧
        (s.rm.intStatusError = false → (step memWords interconnect s i op).rm.intStatusError = false) := by
  have noHs : RingManager.fetchHs s.rm (DmaCore.rmIn s.core (s.coreIn memWords)) = false := by
    rw [RingManager.fetchHs, Bool.and_eq_false_iff]
    exact .inl noRequest
  have noDone : (DmaCore.rmIn s.core (s.coreIn memWords)).asDone = false := dormant.noDone
  have noError : (DmaCore.rmIn s.core (s.coreIn memWords)).dfError = false := dormant.noError _
  rw [rm_step, RingManager.step_of_run rfl noReset]
  refine ⟨?_, ?_, fun clear => ?_⟩
  · simp only [RingManager.headPtrNext, noHs, Bool.false_eq_true, if_false]
  · simp [RingManager.inflightCountNext, noHs, noDone, noError]
  · simp [RingManager.intStatusErrorNext, noError, clear]

theorem still_asleep : Still (k := k) memWords interconnect (@Asleep k addrWidth) where
  dormant _ asleep := asleep.dormant
  step s i op asleep noRequest same := by
    have noReadback := same.trans asleep.noReadback
    have dormant := asleep.dormant
    have out := dormant.axiOut (DmaCore.mtIn s.core (s.coreIn memWords))
    have dma : MovementTop.reset (step memWords interconnect s i op).board.dma =
        (step memWords interconnect s i op).board.dma := reset_step asleep.dma noRequest
    have sysMem : SysMem.reset (step memWords interconnect s i op).board.sysMem =
        (step memWords interconnect s i op).board.sysMem := by
      rw [sysMem_step, out]
      exact reset_sysMem_step asleep.sysMem rfl rfl
    cases resets : s.csr.ctrl.getLsbD 1 with
    | true =>
      have rm : (step memWords interconnect s i op).rm = RingManager.resetState maxInflight :=
        RingManager.step_of_reset resets
      exact ⟨dma, sysMem, by rw [rm]; rfl, by rw [rm]; rfl, by rw [rm]; rfl, noReadback⟩
    | false =>
      obtain ⟨head, none, clear⟩ :=
        @rm_still k addrWidth memWords interconnect s i op dormant noRequest resets
      exact ⟨dma, sysMem, head.trans asleep.head, none.trans asleep.none, clear asleep.clear, noReadback⟩

/-- After a commit the next cycle has none. -/
theorem noCommit_after (commits : MemAccessCtrl.commits s.board.memInit = true) :
    MemAccessCtrl.commits (step memWords interconnect s i op).board.memInit = false := by
  have port := congrArg WritePort.bvalid (MemAccessCtrl.writePort_step s.board.memInit
    (VivadoConfig.memInitIn s.board (s.boardIn (busOf interconnect .memAccessCtrl i op))))
  have here : (MemAccessCtrl.writePort s.board.memInit).commits = true := commits
  rw [WritePort.next, here] at port
  have answers : (step memWords interconnect s i op).board.memInit.bvalid = true := port
  simp [MemAccessCtrl.commits, answers]

/-! ## One cycle -/

/-- The panel of the FPGA, in any cycle. -/
structure Shows (memWords : Nat) (Q : Fpga k addrWidth → Prop) (p : Panel) (s : Fpga k addrWidth) : Prop where
  regs : Csr.regs s.csr = p.regs
  head : s.rm.head = p.head
  shim : shimOf memWords s.board = p.shim
  sent : s.sent = p.sent
  still : Q s
  idles : p.Idles
  initDone : s.board.memInit.initDone = false
  /-- A response stands between two commits. -/
  settled : MemAccessCtrl.commits s.board.memInit = true → Settled memWords s.board
  noError : s.csr.statusError = false
  noClear : s.csr.irqClearErrorPending = true → s.csr.bvalid = true

@[simp] theorem output_out32 (i : In) (addr data : Word) : output i (some (.out32 addr data)) = [] := rfl

theorem Idles.noReset (idles : p.Idles) : p.regs.ctrl.getLsbD 1 = false := by
  rcases idles with ctrl | ⟨ctrl, -⟩ <;> rw [ctrl] <;> rfl

namespace Shows

theorem ctrl (shows' : Shows memWords Q p s) : s.csr.ctrl = p.regs.ctrl := congrArg Csr.Regs.ctrl shows'.regs

theorem noReset (shows' : Shows memWords Q p s) : s.csr.ctrl.getLsbD 1 = false := by
  rw [shows'.ctrl]
  exact Idles.noReset shows'.idles

theorem noRequest (shows' : Shows memWords Q p s) :
    RingManager.fetchReqValid s.rm (Csr.toRing s.csr) = false := by
  rcases shows'.idles with ctrl | ⟨-, empty⟩
  · apply ClosedCore.fetchReqValid_of_disabled
    change s.csr.ctrl.getLsbD 0 = false
    rw [shows'.ctrl, ctrl]
    rfl
  · have same : s.rm.head = s.csr.tail :=
      (shows'.head.trans empty).trans (congrArg Csr.Regs.tail shows'.regs).symm
    simp [RingManager.fetchReqValid, RingManager.ringEmpty, Csr.toRing, same]

theorem undisturbed (still : Still memWords interconnect Q) (shows' : Shows memWords Q p s)
    (i : VivadoConfig.In) : Undisturbed memWords s.board i where
  initDone := shows'.initDone
  noBeat := by
    rw [VivadoConfig.axiSys, (still.dormant s shows'.still).axiOut]
    rfl

/-- One cycle: both registers files move by what commits in it. -/
theorem step (still : Still (2 ^ log) interconnect Q) (shows' : Shows (2 ^ log) Q p s) (i : In)
    (op : Option Op)
    (sets : Csr.commits s.csr = true → p.regs.ctrl = 0 ∧
      (s.csr.awaddr.setWidth 8 ≠ Csr.regCtrl ∨ s.csr.wdata = 0 ∧ s.csr.wstrb = 15))
    (writes : MemAccessCtrl.commits s.board.memInit = true →
      MemAccessCtrl.wrAddrLsb s.board.memInit ≠ MemAccessCtrl.regInitDone ∧ s.board.memInit.wdStrb = 15) :
    Shows (2 ^ log) Q
      { regs := if Csr.commits s.csr then p.regs.write (s.csr.awaddr, s.csr.wdata, s.csr.wstrb) else p.regs
        head := p.head
        shim := if MemAccessCtrl.commits s.board.memInit then
            p.shim.write (depths addrWidth (2 ^ log)) (MemAccessCtrl.wrAddrLsb s.board.memInit) s.board.memInit.wdData
          else p.shim
        sent := p.sent ++ output i op } (Fpga.step (2 ^ log) interconnect s i op) := by
  have dormant := still.dormant s shows'.still
  have quiet := shows'.undisturbed still (s.boardIn (busOf interconnect .memAccessCtrl i op))
  have noSoftReset := Csr.softResets_of_noReset
    (i := s.csrIn (2 ^ log) (busOf interconnect .csr i op)) shows'.noReset
  have noDfError : (s.csrIn (2 ^ log) (busOf interconnect .csr i op)).ring.errorSet = false := dormant.noError _
  constructor
  case regs =>
    rw [csr_step, Csr.regs_next, noSoftReset, shows'.regs]
    rfl
  case head => exact (rm_still dormant shows'.noRequest shows'.noReset).1.trans shows'.head
  case shim =>
    rw [board_step, shimOf_step quiet shows'.settled fun commits => (writes commits).2, shows'.shim]
  case sent => rw [sent_step, shows'.sent]
  case still =>
    refine still.step s i op shows'.still shows'.noRequest ?_
    have other : (Csr.commitsTo s.csr Csr.regCtrl && (Csr.ctrlWriteData s.csr).getLsbD 1) = false := by
      cases commits : Csr.commits s.csr with
      | false => simp [Csr.commitsTo, commits]
      | true =>
        cases (sets commits).2 with
        | inl other => simp [Csr.commitsTo, Csr.wrAddrLsb, other]
        | inr clears =>
          rw [Csr.ctrlWriteData, clears.1, clears.2, applyWstrb_full]
          simp
    rw [csr_step, Csr.next_ctrlReadbackData, other]
    rfl
  case idles =>
    cases commits : Csr.commits s.csr with
    | false => exact shows'.idles
    | true =>
      obtain ⟨zero, other⟩ := sets commits
      left
      rw [if_pos rfl]
      cases other with
      | inl other =>
        simp only [Csr.Regs.write, if_neg other, apply_ite Csr.Regs.ctrl, ite_self]
        exact zero
      | inr clears =>
        simp only [Csr.Regs.write, clears.1, clears.2, Csr.merge_full, apply_ite Csr.Regs.ctrl, zero]
        simp
  case initDone =>
    rw [memInit_step, MemAccessCtrl.initDone_step, shows'.initDone]
    cases commits : MemAccessCtrl.commits s.board.memInit with
    | false => rfl
    | true => simp [(writes commits).1]
  case settled =>
    intro commits'
    refine settled_step quiet ?_
    by_contra commits
    have after : MemAccessCtrl.commits (Fpga.step (2 ^ log) interconnect s i op).board.memInit = false :=
      noCommit_after (by simpa using commits)
    exact absurd (after.symm.trans commits') (by decide)
  case noError =>
    rw [csr_step, Csr.next_statusError, noSoftReset, noDfError, shows'.noError]
    simp
  case noClear =>
    intro pending
    rw [csr_step, Csr.next_irqClearErrorPending, Bool.or_eq_true, Bool.and_eq_true] at pending
    rw [csr_step, Csr.next_bvalid]
    rcases pending with clears | ⟨pending, waits⟩
    · simp only [Csr.irqClearPulseError, Csr.commitsTo, Bool.and_eq_true] at clears
      simp [clears.1.1]
    · have answers := shows'.noClear pending
      simp_all

/-- A cycle in which nothing commits. -/
theorem keep (still : Still (2 ^ log) interconnect Q) (shows' : Shows (2 ^ log) Q p s)
    (noSet : Csr.commits s.csr = false) (noWrite : MemAccessCtrl.commits s.board.memInit = false) (i : In)
    (op : Option Op) :
    Shows (2 ^ log) Q { p with sent := p.sent ++ output i op } (Fpga.step (2 ^ log) interconnect s i op) := by
  have next := shows'.step (p := p) still i op (fun commits => absurd (noSet.symm.trans commits) (by decide))
    (fun commits => absurd (noWrite.symm.trans commits) (by decide))
  rwa [noSet, noWrite] at next

theorem stay (still : Still (2 ^ log) interconnect Q) (shows' : Shows (2 ^ log) Q p s)
    (noSet : Csr.commits s.csr = false) (noWrite : MemAccessCtrl.commits s.board.memInit = false)
    (silent : output i op = []) : Shows (2 ^ log) Q p (Fpga.step (2 ^ log) interconnect s i op) := by
  have next := shows'.keep still noSet noWrite i op
  rwa [silent, List.append_nil] at next

end Shows

/-- Between two accesses. -/
structure At (memWords : Nat) (interconnect : Interconnect) (Q : Fpga k addrWidth → Prop) (p : Panel)
    (s : Fpga k addrWidth) : Prop where
  shows' : Shows memWords Q p s
  csr : (csrSlave k addrWidth memWords interconnect).Rest s
  init : (initSlave k addrWidth memWords interconnect).Rest s

theorem csr_noCommit (clean : ((csrSlave k addrWidth memWords interconnect).port s).Clean) :
    Csr.commits s.csr = false := WritePort.Clean.commits clean

theorem init_noCommit (clean : ((initSlave k addrWidth memWords interconnect).port s).Clean) :
    MemAccessCtrl.commits s.board.memInit = false := WritePort.Clean.commits clean

theorem csr_noCommit_of_answer (answer : ((csrSlave k addrWidth memWords interconnect).port s).bvalid = true) :
    Csr.commits s.csr = false := by
  have answer : s.csr.bvalid = true := answer
  simp [Csr.commits, answer]

theorem init_noCommit_of_answer (answer : ((initSlave k addrWidth memWords interconnect).port s).bvalid = true) :
    MemAccessCtrl.commits s.board.memInit = false := by
  have answer : s.board.memInit.bvalid = true := answer
  simp [MemAccessCtrl.commits, answer]

/-! ## The accesses -/

section Accesses

variable (still : Still (2 ^ log) interconnect Q)

include still

theorem ensures_setRegister (here : window interconnect .csr addr = true) (zero : p.regs.ctrl = 0)
    (other : addr.setWidth 8 ≠ Csr.regCtrl) (data : Word) (at' : At (2 ^ log) interconnect Q p s) :
    Ensures (device k addrWidth (2 ^ log) interconnect)
      (fun _ => At (2 ^ log) interconnect Q { p with regs := p.regs.write (addr, data, 15) }) 3
      ⟨s, out32 addr data⟩ := by
  have apart : asked (window interconnect .memAccessCtrl) (some (.out32 addr data)) = none :=
    asked_out_apart (by decide) here
  suffices writes : (csrSlave k addrWidth (2 ^ log) interconnect).Writes addr data
      (fun s => Shows (2 ^ log) Q p s ∧ (initSlave k addrWidth (2 ^ log) interconnect).Rest s)
      (fun s => Shows (2 ^ log) Q { p with regs := p.regs.write (addr, data, 15) } s ∧
        (initSlave k addrWidth (2 ^ log) interconnect).Rest s) by
    exact (Slave.ensures_out32 here writes ⟨at'.shows', at'.init⟩ at'.csr).mono
      (fun _ s after => ⟨after.1.1, after.2, after.1.2⟩) (Nat.le_refl 3)
  constructor
  · intro s i noCommit noData before
    obtain ⟨shows', init⟩ := before
    exact ⟨shows'.stay still noCommit (init_noCommit init.port) rfl, init.step apart⟩
  · intro s i commits toAddr toData full noData before
    obtain ⟨shows', init⟩ := before
    have commits : Csr.commits s.csr = true := commits
    have toAddr : s.csr.awaddr = addr := toAddr
    have toData : s.csr.wdata = data := toData
    have full : s.csr.wstrb = 15 := full
    have next := shows'.step still i (some (.out32 addr data))
      (fun _ => ⟨zero, .inl (by rw [toAddr]; exact other)⟩)
      (fun commits => absurd ((init_noCommit init.port).symm.trans commits) (by decide))
    rw [commits, init_noCommit init.port, toAddr, toData, full, output_out32, List.append_nil] at next
    exact ⟨next, init.step apart⟩
  · intro s i answer noData after
    obtain ⟨shows', init⟩ := after
    exact ⟨shows'.stay still (csr_noCommit_of_answer answer) (init_noCommit init.port) rfl, init.step apart⟩
  · intro s i rest after
    obtain ⟨shows', init⟩ := after
    exact ⟨shows'.stay still (csr_noCommit rest.port) (init_noCommit init.port) rfl, init.step rfl⟩

theorem ensures_setShim (here : window interconnect .memAccessCtrl addr = true)
    (other : addr.setWidth 8 ≠ MemAccessCtrl.regInitDone) (data : Word)
    (at' : At (2 ^ log) interconnect Q p s) :
    Ensures (device k addrWidth (2 ^ log) interconnect)
      (fun _ => At (2 ^ log) interconnect Q
        { p with shim := p.shim.write (depths addrWidth (2 ^ log)) (addr.setWidth 8) data }) 3
      ⟨s, out32 addr data⟩ := by
  have apart : asked (window interconnect .csr) (some (.out32 addr data)) = none :=
    asked_out_apart (by decide) here
  suffices writes : (initSlave k addrWidth (2 ^ log) interconnect).Writes addr data
      (fun s => Shows (2 ^ log) Q p s ∧ (csrSlave k addrWidth (2 ^ log) interconnect).Rest s)
      (fun s => Shows (2 ^ log) Q
          { p with shim := p.shim.write (depths addrWidth (2 ^ log)) (addr.setWidth 8) data } s ∧
        (csrSlave k addrWidth (2 ^ log) interconnect).Rest s) by
    exact (Slave.ensures_out32 here writes ⟨at'.shows', at'.csr⟩ at'.init).mono
      (fun _ s after => ⟨after.1.1, after.1.2, after.2⟩) (Nat.le_refl 3)
  constructor
  · intro s i noCommit noData before
    obtain ⟨shows', csr⟩ := before
    exact ⟨shows'.stay still (csr_noCommit csr.port) noCommit rfl, csr.step apart⟩
  · intro s i commits toAddr toData full noData before
    obtain ⟨shows', csr⟩ := before
    have commits : MemAccessCtrl.commits s.board.memInit = true := commits
    have toAddr : MemAccessCtrl.wrAddrLsb s.board.memInit = addr.setWidth 8 := congrArg (BitVec.setWidth 8) toAddr
    have toData : s.board.memInit.wdData = data := toData
    have next := shows'.step still i (some (.out32 addr data))
      (fun commits => absurd ((csr_noCommit csr.port).symm.trans commits) (by decide))
      (fun _ => ⟨by rw [toAddr]; exact other, full⟩)
    rw [commits, csr_noCommit csr.port, toAddr, toData, output_out32, List.append_nil] at next
    exact ⟨next, csr.step apart⟩
  · intro s i answer noData after
    obtain ⟨shows', csr⟩ := after
    exact ⟨shows'.stay still (csr_noCommit csr.port) (init_noCommit_of_answer answer) rfl, csr.step apart⟩
  · intro s i rest after
    obtain ⟨shows', csr⟩ := after
    exact ⟨shows'.stay still (csr_noCommit csr.port) (init_noCommit rest.port) rfl, csr.step rfl⟩

theorem ensures_getRegister (here : window interconnect .csr addr = true)
    (reg : addr.setWidth 8 ∈ Panel.ringRegs) (at' : At (2 ^ log) interconnect Q p s) :
    Ensures (device k addrWidth (2 ^ log) interconnect)
      (fun w s => w = p.readRing (addr.setWidth 8) ∧ At (2 ^ log) interconnect Q p s) 2 ⟨s, in32 addr⟩ := by
  have apart : asked (window interconnect .memAccessCtrl) (some (.in32 addr)) = none :=
    asked_in_apart (by decide) here
  refine (Slave.ensures_in32 (v := csrSlave k addrWidth (2 ^ log) interconnect)
    (K := fun s => Shows (2 ^ log) Q p s ∧ (initSlave k addrWidth (2 ^ log) interconnect).Rest s)
    (V := fun w _ => w = p.readRing (addr.setWidth 8)) here ?_ ⟨at'.shows', at'.init⟩ at'.csr).mono
    (fun _ s after => ⟨after.1.2, after.1.1.1, after.2, after.1.1.2⟩) (Nat.le_refl 2)
  constructor
  · intro s i op reads clean before
    obtain ⟨shows', init⟩ := before
    cases reads with
    | inl reads =>
      subst reads
      exact ⟨shows'.stay still (csr_noCommit clean) (init_noCommit init.port) rfl, init.step apart⟩
    | inr none =>
      subst none
      exact ⟨shows'.stay still (csr_noCommit clean) (init_noCommit init.port) rfl, init.step rfl⟩
  · intro s i clean before
    obtain ⟨shows', -⟩ := before
    have regs := shows'.regs
    have head := shows'.head
    change Csr.readData s.csr (s.csrIn (2 ^ log) Csr.busIdle).ring (addr.setWidth 8) = _
    simp only [Panel.ringRegs, List.mem_cons, List.not_mem_nil, or_false] at reg
    rcases reg with reg | reg | reg | reg <;> rw [reg, Panel.readRing, ← regs, ← head] <;> rfl
  · exact fun _ _ _ _ _ _ _ known => known

theorem ensures_getShim (here : window interconnect .memAccessCtrl addr = true)
    (at' : At (2 ^ log) interconnect Q p s) :
    Ensures (device k addrWidth (2 ^ log) interconnect)
      (fun w s => w = p.shim.read (addr.setWidth 8) ∧ At (2 ^ log) interconnect Q p s) 2 ⟨s, in32 addr⟩ := by
  have apart : asked (window interconnect .csr) (some (.in32 addr)) = none :=
    asked_in_apart (by decide) here
  refine (Slave.ensures_in32 (v := initSlave k addrWidth (2 ^ log) interconnect)
    (K := fun s => Shows (2 ^ log) Q p s ∧ (csrSlave k addrWidth (2 ^ log) interconnect).Rest s)
    (V := fun w _ => w = p.shim.read (addr.setWidth 8)) here ?_ ⟨at'.shows', at'.csr⟩ at'.init).mono
    (fun _ s after => ⟨after.1.2, after.1.1.1, after.1.1.2, after.2⟩) (Nat.le_refl 2)
  constructor
  · intro s i op reads clean before
    obtain ⟨shows', csr⟩ := before
    cases reads with
    | inl reads =>
      subst reads
      exact ⟨shows'.stay still (csr_noCommit csr.port) (init_noCommit clean) rfl, csr.step apart⟩
    | inr none =>
      subst none
      exact ⟨shows'.stay still (csr_noCommit csr.port) (init_noCommit clean) rfl, csr.step rfl⟩
  · intro s i clean before
    obtain ⟨shows', -⟩ := before
    change MemAccessCtrl.readData s.board.memInit _ = _
    rw [← shows'.shim, MemAccessCtrl.readData, shows'.initDone, Shim.read]
    -- INIT_DONE reads 0, as a strobe does
    simp [shimOf]
  · exact fun _ _ _ _ _ _ _ known => known

theorem sends_at : Sends (2 ^ log) interconnect
    fun sent => At (2 ^ log) interconnect Q { p with sent := sent } := by
  intro sent s i op elsewhere at'
  exact
    { shows' := at'.shows'.keep still (csr_noCommit at'.csr.port) (init_noCommit at'.init.port) i op
      csr := at'.csr.step elsewhere.1
      init := at'.init.step elsewhere.2 }

/-- Prompt cycles of an access. -/
def cost : Op → Nat
  | .out32 _ _ => 3
  | .in32 _ => 2
  | _ => 1

/-- An access takes effect at once. -/
theorem ensures_access {op : Op} (allowed : p.Allowed interconnect op)
    (at' : At (2 ^ log) interconnect Q p s) :
    Ensures (device k addrWidth (2 ^ log) interconnect)
      (fun answer s => answer = (p.access interconnect (depths addrWidth (2 ^ log)) op).1 ∧
        At (2 ^ log) interconnect Q (p.access interconnect (depths addrWidth (2 ^ log)) op).2 s)
      (cost op) ⟨s, .call op⟩ := by
  cases op with
  | out32 addr data =>
    rcases allowed with ⟨here, zero, other⟩ | ⟨here, other⟩
    · refine (ensures_setRegister still (beq_iff_eq.mpr here) zero other data at').mono
        (fun _ s next => ?_) (Nat.le_refl 3)
      rw [Panel.access, here]
      exact ⟨rfl, next⟩
    · refine (ensures_setShim still (beq_iff_eq.mpr here) other data at').mono (fun _ s next => ?_) (Nat.le_refl 3)
      rw [Panel.access, here]
      exact ⟨rfl, next⟩
  | in32 addr =>
    rcases allowed with ⟨here, reg⟩ | here
    · refine (ensures_getRegister still (beq_iff_eq.mpr here) reg at').mono (fun w s next => ?_) (Nat.le_refl 2)
      rw [Panel.access, here]
      exact next
    · refine (ensures_getShim still (beq_iff_eq.mpr here) at').mono (fun w s next => ?_) (Nat.le_refl 2)
      rw [Panel.access, here]
      exact next
  | uartWriteByte byte =>
    exact (ensures_uartWriteByte (sends_at still) at' byte).mono (fun _ s next => ⟨rfl, next⟩) (Nat.le_refl 1)
  | xilPrintf format args =>
    exact (ensures_xilPrintf (sends_at still) at' format args).mono (fun _ s next => ⟨rfl, next⟩) (Nat.le_refl 1)

theorem At.rest (at' : At (2 ^ log) interconnect Q p s) (i : In) :
    At (2 ^ log) interconnect Q p ((device k addrWidth (2 ^ log) interconnect).step s i none) := by
  have next := sends_at still p.sent s i none ⟨rfl, rfl⟩ at'
  have silent : output i none = [] := rfl
  rwa [silent, List.append_nil] at next

/-- A program runs on the FPGA as on its panel, whatever the delays. -/
theorem ensures_exec {α : Type} {prog : Prog α}
    (along : prog.Along (Panel.access interconnect (depths addrWidth (2 ^ log))) (Panel.Allowed interconnect) p)
    (at' : At (2 ^ log) interconnect Q p s) :
    Ensures (device k addrWidth (2 ^ log) interconnect)
      (fun a s => a = (prog.exec (Panel.access interconnect (depths addrWidth (2 ^ log))) p).1 ∧
        At (2 ^ log) interconnect Q (prog.exec (Panel.access interconnect (depths addrWidth (2 ^ log))) p).2 s)
      (prog.total (Panel.access interconnect (depths addrWidth (2 ^ log))) cost p) ⟨s, prog⟩ :=
  Ensures.exec (fun _ _ _ allowed at' => ensures_access still allowed at') (fun _ _ i at' => at'.rest still i)
    along at'

end Accesses

/-! ## After reset -/

theorem clean_reset {board : VivadoConfig.State k addrWidth} :
    (csrSlave k addrWidth memWords interconnect).Rest (reset board) ∧
      (initSlave k addrWidth memWords interconnect).Rest (reset board) :=
  ⟨⟨⟨rfl, rfl, rfl⟩, rfl⟩, ⟨⟨rfl, rfl, rfl⟩, rfl⟩⟩

theorem asleep_reset (board : VivadoConfig.State k addrWidth) : Asleep (reset board) :=
  ⟨rfl, rfl, rfl, rfl, rfl, rfl⟩

/-- The memories as they were, and all else at 0. -/
def panelOf (memWords : Nat) (board : VivadoConfig.State k addrWidth) : Panel :=
  { regs := Csr.Regs.zero, head := 0, shim := shimOf memWords (VivadoConfig.reset board), sent := [] }

theorem at_reset (board : VivadoConfig.State k addrWidth) :
    At memWords interconnect Asleep (panelOf memWords board) (reset board) where
  shows' :=
    { regs := rfl
      head := rfl
      shim := rfl
      sent := rfl
      still := asleep_reset board
      idles := .inl rfl
      initDone := rfl
      settled := fun commits => absurd commits Bool.false_ne_true
      noError := rfl
      noClear := fun pending => absurd pending Bool.false_ne_true }
  csr := clean_reset.1
  init := clean_reset.2

end Fpga

end AxiDma.Verified
