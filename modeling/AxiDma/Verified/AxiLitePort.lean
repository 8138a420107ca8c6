import AxiDma.Rtl.MemAccessCtrl
import Mathlib.Tactic.SplitIfs

/-! # The write channels of the AXI4-Lite slaves

`csr` and `mem_access_ctrl` capture AW and W independently, commit when both are there
and answer on B.  `WritePort` is this part of their state; both modules step it alike.
-/

namespace AxiDma.Verified

open AxiDma.Rtl

structure WritePort where
  awPending : Bool
  awaddr : Word
  wPending : Bool
  wdata : Word
  wstrb : BitVec 4
  bvalid : Bool
  deriving DecidableEq

namespace WritePort

def commits (p : WritePort) : Bool := !p.bvalid && p.awPending && p.wPending

def awHs (p : WritePort) (bus : AxiLiteMaster) : Bool := bus.awvalid && (!p.awPending && !p.bvalid)
def wHs (p : WritePort) (bus : AxiLiteMaster) : Bool := bus.wvalid && (!p.wPending && !p.bvalid)

def next (p : WritePort) (bus : AxiLiteMaster) : WritePort :=
  { awPending := !p.commits && (p.awHs bus || p.awPending)
    awaddr := if p.awHs bus then bus.awaddr else p.awaddr
    wPending := !p.commits && (p.wHs bus || p.wPending)
    wdata := if p.wHs bus then bus.wdata else p.wdata
    wstrb := if p.wHs bus then bus.wstrb else p.wstrb
    bvalid := p.commits || p.bvalid && !bus.bready }

def idle : WritePort :=
  { awPending := false, awaddr := 0, wPending := false, wdata := 0, wstrb := 0, bvalid := false }

/-- Nothing is captured and nothing is to be answered. -/
def Clean (p : WritePort) : Prop := p.awPending = false ∧ p.wPending = false ∧ p.bvalid = false

/-- Nothing is captured behind a response. -/
def Clear (p : WritePort) : Prop := p.bvalid = true → p.awPending = false ∧ p.wPending = false

/-- What is captured or answered belongs to the write of `data` to `addr`. -/
structure Serves (p : WritePort) (addr data : Word) : Prop where
  aw : p.awPending = true → p.awaddr = addr
  w : p.wPending = true → p.wdata = data ∧ p.wstrb = 15
  b : p.Clear

variable {p : WritePort} {bus : AxiLiteMaster} {addr data : Word}

theorem clean_idle : idle.Clean := ⟨rfl, rfl, rfl⟩

theorem Clean.serves (clean : p.Clean) : p.Serves addr data := by
  obtain ⟨aw, w, b⟩ := clean
  constructor <;> simp [Clear, aw, w, b]

/-- A bus without valid signals leaves a clean port clean. -/
theorem Clean.next (clean : p.Clean) (noAw : bus.awvalid = false) (noW : bus.wvalid = false) :
    (p.next bus).Clean := by
  obtain ⟨aw, w, b⟩ := clean
  simp [Clean, WritePort.next, awHs, wHs, commits, aw, w, b, noAw, noW]

/-- The places are freed by the commit that raises the response, and stay free under it. -/
theorem Clear.next (clear : p.Clear) : (p.next bus).Clear := by
  intro answers
  cases commits : p.commits with
  | true => simp [WritePort.next, commits]
  | false =>
    simp only [WritePort.next, commits, Bool.false_or, Bool.and_eq_true] at answers
    obtain ⟨noAw, noW⟩ := clear answers.1
    simp [WritePort.next, awHs, wHs, noAw, noW, answers.1]

theorem Serves.next (serves : p.Serves addr data) (awaddr : bus.awaddr = addr)
    (wdata : bus.wdata = data) (wstrb : bus.wstrb = 15) : (p.next bus).Serves addr data := by
  obtain ⟨aw, w, b⟩ := serves
  constructor
  · intro captured
    cases hs : p.awHs bus with
    | true => simpa [WritePort.next, hs] using awaddr
    | false =>
      simp only [WritePort.next, hs, Bool.false_or, Bool.and_eq_true] at captured
      simpa [WritePort.next, hs] using aw captured.2
  · intro captured
    cases hs : p.wHs bus with
    | true => simpa [WritePort.next, hs] using ⟨wdata, wstrb⟩
    | false =>
      simp only [WritePort.next, hs, Bool.false_or, Bool.and_eq_true] at captured
      simpa [WritePort.next, hs] using w captured.2
  · exact Clear.next b

theorem Clear.clean_next (clear : p.Clear) (answers : p.bvalid = true) (ready : bus.bready = true) :
    (p.next bus).Clean := by
  obtain ⟨noAw, noW⟩ := clear answers
  simp [Clean, WritePort.next, awHs, wHs, commits, noAw, noW, answers, ready]

theorem Serves.clean_next (serves : p.Serves addr data) (answers : p.bvalid = true)
    (ready : bus.bready = true) : (p.next bus).Clean := serves.b.clean_next answers ready

theorem Serves.of_commits (serves : p.Serves addr data) (commits : p.commits = true) :
    p.awaddr = addr ∧ p.wdata = data ∧ p.wstrb = 15 := by
  obtain ⟨⟨-, aw⟩, w⟩ : (p.bvalid = false ∧ p.awPending = true) ∧ p.wPending = true := by
    simpa [WritePort.commits] using commits
  exact ⟨serves.aw aw, serves.w w⟩

theorem Clean.commits (clean : p.Clean) : p.commits = false := by
  obtain ⟨aw, -, -⟩ := clean
  simp [WritePort.commits, aw]

end WritePort

/-! ## The two slaves -/

theorem applyWstrb_full (old new : Word) : applyWstrb old new 15 = new := by
  have selected : ∀ n < 4, (15 : BitVec 4).getLsbD n = true := by decide
  simp only [applyWstrb, selected 0 (by decide), selected 1 (by decide), selected 2 (by decide),
    selected 3 (by decide), if_true]
  apply BitVec.eq_of_getLsbD_eq
  intro i bound
  simp only [BitVec.getLsbD_append, BitVec.getLsbD_extractLsb']
  split_ifs <;> grind

namespace Csr

open AxiDma.Rtl.Csr

def writePort (s : State) : WritePort :=
  { awPending := s.awPending, awaddr := s.awaddr, wPending := s.wPending, wdata := s.wdata,
    wstrb := s.wstrb, bvalid := s.bvalid }

theorem writePort_next (s : State) (i : In) : writePort (next s i) = (writePort s).next i.bus := by
  simp only [writePort, WritePort.next, WritePort.mk.injEq, next, softReset, events, readChannel,
    commitOrRespond, writeReg, captureW, captureAw, apply_ite State.awPending,
    apply_ite State.awaddr, apply_ite State.wPending, apply_ite State.wdata,
    apply_ite State.wstrb, apply_ite State.bvalid, ite_self]
  simp only [WritePort.awHs, WritePort.wHs, WritePort.commits, Rtl.Csr.awHs, Rtl.Csr.wHs,
    commits, awready, wready]
  rcases Bool.eq_false_or_eq_true s.awPending with aw | aw <;>
    rcases Bool.eq_false_or_eq_true s.wPending with w | w <;>
      rcases Bool.eq_false_or_eq_true s.bvalid with b | b <;> simp [aw, w, b]

variable (s : State) (i : In)

theorem next_awPending :
    (next s i).awPending = (!commits s && (Rtl.Csr.awHs s i || s.awPending)) :=
  congrArg WritePort.awPending (writePort_next s i)

theorem next_awaddr :
    (next s i).awaddr = if Rtl.Csr.awHs s i then i.bus.awaddr else s.awaddr :=
  congrArg WritePort.awaddr (writePort_next s i)

theorem next_wPending :
    (next s i).wPending = (!commits s && (Rtl.Csr.wHs s i || s.wPending)) :=
  congrArg WritePort.wPending (writePort_next s i)

theorem next_wdata : (next s i).wdata = if Rtl.Csr.wHs s i then i.bus.wdata else s.wdata :=
  congrArg WritePort.wdata (writePort_next s i)

theorem next_wstrb : (next s i).wstrb = if Rtl.Csr.wHs s i then i.bus.wstrb else s.wstrb :=
  congrArg WritePort.wstrb (writePort_next s i)

theorem next_bvalid : (next s i).bvalid = (commits s || s.bvalid && !i.bus.bready) :=
  congrArg WritePort.bvalid (writePort_next s i)

end Csr

namespace MemAccessCtrl

open AxiDma.Rtl.MemAccessCtrl

def writePort (s : State) : WritePort :=
  { awPending := s.awPending, awaddr := s.awAddr, wPending := s.wPending, wdata := s.wdData,
    wstrb := s.wdStrb, bvalid := s.bvalid }

theorem writePort_step (s : State) (i : In) : writePort (step s i) = (writePort s).next i.bus := by
  simp only [writePort, WritePort.next, WritePort.mk.injEq, step, readChannel, respond, commit,
    latchReadback, writeReg, captureW, captureAw, apply_ite State.awPending,
    apply_ite State.awAddr, apply_ite State.wPending, apply_ite State.wdData,
    apply_ite State.wdStrb, apply_ite State.bvalid, ite_self]
  simp only [WritePort.awHs, WritePort.wHs, WritePort.commits, Rtl.MemAccessCtrl.awHs,
    Rtl.MemAccessCtrl.wHs, commits, awready, wready]
  rcases Bool.eq_false_or_eq_true s.awPending with aw | aw <;>
    rcases Bool.eq_false_or_eq_true s.wPending with w | w <;>
      rcases Bool.eq_false_or_eq_true s.bvalid with b | b <;> simp [aw, w, b]

theorem initDone_step (s : State) (i : In) :
    (step s i).initDone =
      if commits s && wrAddrLsb s == regInitDone then s.wdData.getLsbD 0 else s.initDone := by
  simp only [step, readChannel, respond, commit, latchReadback, writeReg, captureW, captureAw,
    apply_ite State.initDone, ite_self, Bool.and_eq_true, beq_iff_eq]
  split_ifs <;> simp_all [regInitAddr, regInitData, regInitDone]

theorem initAddr_step (s : State) (i : In) :
    (step s i).initAddr =
      if commits s && wrAddrLsb s == regInitAddr then applyWstrb s.initAddr s.wdData s.wdStrb
      else s.initAddr := by
  simp only [step, readChannel, respond, commit, latchReadback, writeReg, captureW, captureAw,
    apply_ite State.initAddr, ite_self, Bool.and_eq_true, beq_iff_eq]
  split_ifs <;> simp_all

theorem initData_step (s : State) (i : In) :
    (step s i).initData =
      if commits s && wrAddrLsb s == regInitData then applyWstrb s.initData s.wdData s.wdStrb
      else s.initData := by
  simp only [step, readChannel, respond, commit, latchReadback, writeReg, captureW, captureAw,
    apply_ite State.initData, ite_self, Bool.and_eq_true, beq_iff_eq]
  split_ifs <;> simp_all [regInitAddr, regInitData]

/-- The readback register takes what the strobed memory shows. -/
theorem regRdata_step (s : State) (i : In) :
    (step s i).regRdata =
      if sramRdPulse s then i.bramInitDout else if memRdPulse s then i.memInitRdata
      else s.regRdata := by
  simp only [step, readChannel, respond, commit, latchReadback, writeReg, captureW, captureAw,
    apply_ite State.regRdata, ite_self, sramRdPulse, memRdPulse, pulse, Bool.and_eq_true, beq_iff_eq]
  split_ifs <;> simp_all [regSramRd, regMemRd]

theorem rvalid_step (s : State) (i : In) :
    (step s i).rvalid = (Rtl.MemAccessCtrl.arHs s i || s.rvalid && !i.bus.rready) := by
  simp only [step, readChannel, respond, commit, latchReadback, writeReg, captureW, captureAw,
    apply_ite State.rvalid, ite_self, Bool.and_eq_true]
  cases Rtl.MemAccessCtrl.arHs s i <;> cases s.rvalid <;> cases i.bus.rready <;> rfl

theorem rdata_step (s : State) (i : In) :
    (step s i).rdata =
      if Rtl.MemAccessCtrl.arHs s i then readData s (i.bus.araddr.setWidth 8) else s.rdata := by
  simp only [step, readChannel, respond, commit, latchReadback, writeReg, captureW, captureAw,
    apply_ite State.rdata, ite_self]

end MemAccessCtrl

end AxiDma.Verified
