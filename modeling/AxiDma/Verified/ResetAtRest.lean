import AxiDma.Verified.FirmwareModes
import AxiDma.Verified.Panel

/-! # RESET between two transfers

RESET clears the registers in the first quiet cycle after its response, which is before the next write
commits.  The DMA has not been used, so nothing else changes.
-/

namespace AxiDma.Verified

open AxiDma.Lib AxiDma.Rtl AxiDma.Firmware
open CsrCore (Delays bus)

namespace Fpga

variable {k addrWidth memWords log : Nat} {interconnect : Interconnect}
  {p : Panel} {s : Fpga k addrWidth} {i : In} {op : Option Op} {addr data : Word}

/-! ## RESET -/

/-- What a RESET leaves alone. -/
structure Kept (memWords : Nat) (p : Panel) (s : Fpga k addrWidth) : Prop where
  shim : shimOf memWords s.board = p.shim
  sent : s.sent = p.sent
  asleep : Asleep s
  initDone : s.board.memInit.initDone = false
  settled : MemAccessCtrl.commits s.board.memInit = true → Settled memWords s.board
  noClear : s.csr.irqClearErrorPending = false

/-- RESET is set, and the registers are still to be cleared. -/
structure Clearing (memWords : Nat) (p : Panel) (s : Fpga k addrWidth) : Prop where
  kept : Kept memWords p s
  ctrl : s.csr.ctrl = ctrlReset

/-- The panel after the soft reset. -/
def cleared (p : Panel) : Panel := { p with regs := Csr.Regs.zero, head := 0 }

theorem Kept.step (kept : Kept (2 ^ log) p s)
    (noRequest : RingManager.fetchReqValid s.rm (Csr.toRing s.csr) = false)
    (noWrite : MemAccessCtrl.commits s.board.memInit = false) (silent : output i op = [])
    (same : (step (2 ^ log) interconnect s i op).csr.ctrlReadbackData = s.csr.ctrlReadbackData)
    (noClear : Csr.irqClearPulseError s.csr = false) :
    Kept (2 ^ log) p (step (2 ^ log) interconnect s i op) := by
  have quiet : Undisturbed (2 ^ log) s.board (s.boardIn (busOf interconnect .memAccessCtrl i op)) :=
    { initDone := kept.initDone
      noBeat := by
        rw [VivadoConfig.axiSys, kept.asleep.dormant.axiOut]
        rfl }
  constructor
  case shim =>
    rw [board_step, shimOf_step quiet kept.settled (fun commits => absurd (noWrite.symm.trans commits) (by decide)),
      noWrite]
    exact kept.shim
  case sent =>
    rw [sent_step, silent, List.append_nil]
    exact kept.sent
  case asleep => exact still_asleep.step s i op kept.asleep noRequest same
  case initDone =>
    rw [memInit_step, MemAccessCtrl.initDone_step, noWrite]
    exact kept.initDone
  case settled => exact fun _ => settled_step quiet noWrite
  case noClear =>
    rw [csr_step, Csr.next_irqClearErrorPending, noClear, kept.noClear]
    rfl

theorem Shows.kept (shows' : Shows (2 ^ log) Asleep p s)
    (noClear : s.csr.irqClearErrorPending = false) : Kept (2 ^ log) p s where
  shim := shows'.shim
  sent := shows'.sent
  asleep := shows'.still
  initDone := shows'.initDone
  settled := shows'.settled
  noClear := noClear

theorem Clearing.noRequest (clearing : Clearing memWords p s) :
    RingManager.fetchReqValid s.rm (Csr.toRing s.csr) = false := by
  apply ClosedCore.fetchReqValid_of_disabled
  change s.csr.ctrl.getLsbD 0 = false
  rw [clearing.ctrl]
  rfl

/-- A cycle without a commit leaves the one-shot view of CTRL and the error clear alone. -/
theorem readback_of_noCommit (noSet : Csr.commits s.csr = false) :
    (step memWords interconnect s i op).csr.ctrlReadbackData = s.csr.ctrlReadbackData := by
  rw [csr_step, Csr.next_ctrlReadbackData, Csr.commitsTo, noSet]
  rfl

theorem noPulse_of_noCommit (noSet : Csr.commits s.csr = false) : Csr.irqClearPulseError s.csr = false := by
  rw [Csr.irqClearPulseError, Csr.commitsTo, noSet]
  rfl

theorem Clearing.kept_step (clearing : Clearing (2 ^ log) p s) (noSet : Csr.commits s.csr = false)
    (noWrite : MemAccessCtrl.commits s.board.memInit = false) (silent : output i op = []) :
    Kept (2 ^ log) p (step (2 ^ log) interconnect s i op) :=
  clearing.kept.step clearing.noRequest noWrite silent
    (readback_of_noCommit noSet) (noPulse_of_noCommit noSet)

/-- While the response is pending the reset waits. -/
theorem Clearing.stay (clearing : Clearing (2 ^ log) p s) (noSet : Csr.commits s.csr = false)
    (noWrite : MemAccessCtrl.commits s.board.memInit = false) (silent : output i op = [])
    (answers : s.csr.bvalid = true) : Clearing (2 ^ log) p (step (2 ^ log) interconnect s i op) where
  kept := clearing.kept_step noSet noWrite silent
  ctrl := by
    -- the soft reset looks at BVALID
    have waits : Csr.softResets s.csr (s.csrIn (2 ^ log) (busOf interconnect .csr i op)) = false := by
      simp [Csr.softResets, answers]
    rw [csr_step, Csr.next_ctrl, waits, Csr.commitsTo, noSet]
    exact clearing.ctrl

/-- The soft reset, in a cycle in which the channels are quiet. -/
theorem Clearing.clears (clearing : Clearing (2 ^ log) p s) (noSet : Csr.commits s.csr = false)
    (noWrite : MemAccessCtrl.commits s.board.memInit = false) (silent : output i op = [])
    (noAnswer : s.csr.bvalid = false) (noData : s.csr.rvalid = false)
    (noRead : (busOf interconnect .csr i op).arvalid = false) :
    Shows (2 ^ log) Asleep (cleared p) (step (2 ^ log) interconnect s i op) := by
  have next : Kept (2 ^ log) p (step (2 ^ log) interconnect s i op) := clearing.kept_step noSet noWrite silent
  have resets : Csr.softResets s.csr (s.csrIn (2 ^ log) (busOf interconnect .csr i op)) = true := by
    have reset : s.csr.ctrl.getLsbD 1 = true := by
      rw [clearing.ctrl]
      rfl
    simp [Csr.softResets, reset, noAnswer, noData, csrIn, noRead]
  exact
    { regs := by
        rw [csr_step, Csr.regs_next, resets]
        rfl
      head := next.asleep.head
      shim := next.shim
      sent := next.sent
      still := next.asleep
      idles := .inl rfl
      initDone := next.initDone
      settled := next.settled
      noError := by
        rw [csr_step, Csr.next_statusError, resets]
        rfl
      noClear := fun pending => absurd (next.noClear.symm.trans pending) (by decide) }

/-- The commit of a RESET. -/
theorem Shows.resets (shows' : Shows (2 ^ log) Asleep p s) (commits : Csr.commits s.csr = true)
    (toCtrl : s.csr.awaddr.setWidth 8 = Csr.regCtrl) (toData : s.csr.wdata = ctrlReset) (full : s.csr.wstrb = 15)
    (noWrite : MemAccessCtrl.commits s.board.memInit = false) (silent : output i op = []) :
    Clearing (2 ^ log) p (Fpga.step (2 ^ log) interconnect s i op) := by
  have here : Csr.commitsTo s.csr Csr.regCtrl = true := by
    simp [Csr.commitsTo, commits, Csr.wrAddrLsb, toCtrl]
  have data : Csr.ctrlWriteData s.csr = ctrlReset := by
    rw [Csr.ctrlWriteData, toData, full, applyWstrb_full]
  have noAnswer : s.csr.bvalid = false := by
    by_contra answers
    simp [Csr.commits, answers] at commits
  have noClear : s.csr.irqClearErrorPending = false := by
    by_contra pending
    exact absurd (noAnswer.symm.trans (shows'.noClear (by simpa using pending))) (by decide)
  constructor
  case kept =>
    -- the commit sets the one-shot view of CTRL, to the 0 that it was, and no error clear
    refine (shows'.kept noClear).step shows'.noRequest noWrite silent ?_ ?_
    · rw [csr_step, Csr.next_ctrlReadbackData, here, data, shows'.still.noReadback]
      rfl
    · simp [Csr.irqClearPulseError, Csr.commitsTo, Csr.wrAddrLsb, toCtrl, Csr.regCtrl, Csr.regIrqClear]
  case ctrl =>
    rw [csr_step, Csr.next_ctrl, Csr.softResets_of_noReset shows'.noReset, here, data]
    rfl

/-- RESET is under way or over. -/
def Resetting (memWords : Nat) (p : Panel) (s : Fpga k addrWidth) : Prop :=
  Clearing memWords p s ∨ Shows memWords Asleep (cleared p) s

theorem csr_window (reg : BitVec 8) :
    window interconnect .csr (csrAccessBase + reg.setWidth 32) = true :=
  beq_iff_eq.mpr (interconnect.route_csr reg)

theorem memAccessCtrl_window (reg : BitVec 8) :
    window interconnect .memAccessCtrl (memAccessCtrlBase + reg.setWidth 32) = true :=
  beq_iff_eq.mpr (interconnect.route_memAccessCtrl reg)

theorem ensures_reset (at' : At (2 ^ log) interconnect Asleep p s) :
    Ensures (device k addrWidth (2 ^ log) interconnect)
      (fun _ s => (Resetting (2 ^ log) p s ∧ (initSlave k addrWidth (2 ^ log) interconnect).Rest s) ∧
        (csrSlave k addrWidth (2 ^ log) interconnect).Rest s) 3
      ⟨s, out32 (csrAccessBase + csrRegCtrl) ctrlReset⟩ := by
  have here : window interconnect .csr (csrAccessBase + csrRegCtrl) = true := csr_window Csr.regCtrl
  have apart {data : Word} : asked (window interconnect .memAccessCtrl)
      (some (.out32 (csrAccessBase + csrRegCtrl) data)) = none := asked_out_apart (by decide) here
  suffices writes : (csrSlave k addrWidth (2 ^ log) interconnect).Writes (csrAccessBase + csrRegCtrl) ctrlReset
      (fun s => Shows (2 ^ log) Asleep p s ∧ (initSlave k addrWidth (2 ^ log) interconnect).Rest s)
      (fun s => Resetting (2 ^ log) p s ∧ (initSlave k addrWidth (2 ^ log) interconnect).Rest s) by
    exact Slave.ensures_out32 here writes ⟨at'.shows', at'.init⟩ at'.csr
  constructor
  · intro s i noCommit noData before
    obtain ⟨shows', init⟩ := before
    exact ⟨shows'.stay still_asleep noCommit (init_noCommit init.port) rfl, init.step apart⟩
  · intro s i commits toAddr toData full noData before
    obtain ⟨shows', init⟩ := before
    have toCtrl : s.csr.awaddr.setWidth 8 = Csr.regCtrl := congrArg (BitVec.setWidth 8) toAddr
    exact ⟨.inl (shows'.resets commits toCtrl toData full (init_noCommit init.port) rfl), init.step apart⟩
  · intro s i answer noData after
    obtain ⟨resetting, init⟩ := after
    have noSet := csr_noCommit_of_answer answer
    refine ⟨?_, init.step apart⟩
    cases resetting with
    | inl clearing => exact .inl (clearing.stay noSet (init_noCommit init.port) rfl answer)
    | inr shows' => exact .inr (shows'.stay still_asleep noSet (init_noCommit init.port) rfl)
  · intro s i rest after
    obtain ⟨resetting, init⟩ := after
    refine ⟨.inr ?_, init.step rfl⟩
    cases resetting with
    | inl clearing =>
      -- after the response nothing is on the channels
      exact clearing.clears (csr_noCommit rest.port) (init_noCommit init.port) rfl rest.port.2.2 rest.noData rfl
    | inr shows' => exact shows'.stay still_asleep (csr_noCommit rest.port) (init_noCommit init.port) rfl

/-- CTRL is written again at the earliest in the cycle after the soft reset. -/
theorem ensures_release (resetting : Resetting (2 ^ log) p s)
    (init : (initSlave k addrWidth (2 ^ log) interconnect).Rest s)
    (csr : (csrSlave k addrWidth (2 ^ log) interconnect).Rest s) :
    Ensures (device k addrWidth (2 ^ log) interconnect) (fun _ => At (2 ^ log) interconnect Asleep (cleared p)) 3
      ⟨s, out32 (csrAccessBase + csrRegCtrl) 0⟩ := by
  have here : window interconnect .csr (csrAccessBase + csrRegCtrl) = true := csr_window Csr.regCtrl
  have apart {data : Word} : asked (window interconnect .memAccessCtrl)
      (some (.out32 (csrAccessBase + csrRegCtrl) data)) = none := asked_out_apart (by decide) here
  suffices writes : (csrSlave k addrWidth (2 ^ log) interconnect).Writes (csrAccessBase + csrRegCtrl) 0
      (fun s => (Clearing (2 ^ log) p s ∧ (csrSlave k addrWidth (2 ^ log) interconnect).Rest s ∨
        Shows (2 ^ log) Asleep (cleared p) s) ∧ (initSlave k addrWidth (2 ^ log) interconnect).Rest s)
      (fun s => Shows (2 ^ log) Asleep (cleared p) s ∧
        (initSlave k addrWidth (2 ^ log) interconnect).Rest s) by
    exact (Slave.ensures_out32 here writes ⟨resetting.imp (fun clearing => ⟨clearing, csr⟩) id, init⟩ csr).mono
      (fun _ s after => ⟨after.1.1, after.2, after.1.2⟩) (Nat.le_refl 3)
  constructor
  · intro s i noCommit noData before
    obtain ⟨resetting, init⟩ := before
    refine ⟨.inr ?_, init.step apart⟩
    cases resetting with
    | inl clearing =>
      obtain ⟨clearing, rest⟩ := clearing
      -- the next write raises no ARVALID, so it cannot hold the reset back
      refine clearing.clears noCommit (init_noCommit init.port) rfl rest.port.2.2 noData ?_
      rw [busOf, asked, if_pos here]
      rfl
    | inr shows' => exact shows'.stay still_asleep noCommit (init_noCommit init.port) rfl
  · intro s i commits toAddr toData full noData before
    obtain ⟨resetting, init⟩ := before
    have commits : Csr.commits s.csr = true := commits
    have toAddr : s.csr.awaddr = csrAccessBase + csrRegCtrl := toAddr
    have toData : s.csr.wdata = 0 := toData
    have full : s.csr.wstrb = 15 := full
    cases resetting with
    | inl clearing => exact absurd ((csr_noCommit clearing.2.port).symm.trans commits) (by decide)
    | inr shows' =>
      have next := shows'.step (@still_asleep k addrWidth (2 ^ log) interconnect) i
        (some (.out32 (csrAccessBase + csrRegCtrl) 0))
        (fun _ => ⟨rfl, .inr ⟨toData, full⟩⟩)
        (fun commits => absurd ((init_noCommit init.port).symm.trans commits) (by decide))
      have same : Csr.Regs.write (cleared p).regs (csrAccessBase + csrRegCtrl, 0, 15) = (cleared p).regs :=
        Csr.Regs.write_of_ctrl _ _ (csrAddr_lsb Csr.regCtrl)
      rw [commits, init_noCommit init.port, toAddr, toData, full, output_out32, List.append_nil, if_pos rfl,
        same] at next
      exact ⟨next, init.step apart⟩
  · intro s i answer noData after
    obtain ⟨shows', init⟩ := after
    exact ⟨shows'.stay still_asleep (csr_noCommit_of_answer answer) (init_noCommit init.port) rfl, init.step apart⟩
  · intro s i rest after
    obtain ⟨shows', init⟩ := after
    exact ⟨shows'.stay still_asleep (csr_noCommit rest.port) (init_noCommit init.port) rfl, init.step rfl⟩

end Fpga

end AxiDma.Verified
