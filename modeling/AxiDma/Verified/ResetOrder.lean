import AxiDma.Lib.Run
import AxiDma.Verified.AxiLitePort
import AxiDma.Verified.CsrFields

/-! # The soft reset and the writes that follow it

A RESET write is answered before its soft reset happens: the reset waits until no read is
requested or answered.  A read in between lets the next write commit first, and the reset
then takes back what that write was told is stored (`write_undone_by_reset`).
`config_write_survives` holds for runs in which no read gets in between.
-/

namespace AxiDma.Verified

open AxiDma.Lib AxiDma.Rtl

namespace Csr

open AxiDma.Rtl.Csr

/-! ## The configuration registers -/

inductive ConfigReg where
  | baseaddr
  | ringlen
  | tail
  | ctrl
  deriving DecidableEq, Repr

namespace ConfigReg

def offset : ConfigReg → BitVec 8
  | baseaddr => regBaseaddr
  | ringlen => regRinglen
  | tail => regTail
  | ctrl => regCtrl

def value (s : State) : ConfigReg → Word
  | baseaddr => s.baseaddr
  | ringlen => s.ringlen
  | tail => s.tail
  | ctrl => s.ctrl

/-- What a committing write to the register stores. -/
def written (s : State) (r : ConfigReg) : Word :=
  match r with
  | ctrl => ctrlWriteData s &&& 7
  | r => applyWstrb (r.value s) s.wdata s.wstrb

theorem value_next (r : ConfigReg) (s : State) (i : In) :
    r.value (next s i) =
      if softResets s i then 0
      else if commitsTo s r.offset then r.written s
      else r.value s := by
  cases r with
  | baseaddr => exact next_baseaddr s i
  | ringlen => exact next_ringlen s i
  | tail => exact next_tail s i
  | ctrl => exact next_ctrl s i

end ConfigReg

def configOffset (offset : BitVec 8) : Bool :=
  [regBaseaddr, regRinglen, regTail, regCtrl].contains offset

theorem configOffset_offset (r : ConfigReg) : configOffset r.offset = true := by
  cases r <;> decide

/-! ## When a write becomes complete -/

/-- The second half of a write to a configuration register is accepted. -/
def completesConfig (s : State) (i : In) : Bool :=
  !commits s && (Rtl.Csr.awHs s i || s.awPending) && (Rtl.Csr.wHs s i || s.wPending) &&
    configOffset ((if Rtl.Csr.awHs s i then i.bus.awaddr else s.awaddr).setWidth 8)

/-- With RESET set, no read is requested or answered in a cycle that completes a write to a
    configuration register. -/
def Timely (s : State) (i : In) : Prop :=
  i.rstN = true ∧ (s.ctrl.getLsbD 1 = true → completesConfig s i = true →
    i.bus.arvalid = false ∧ s.rvalid = false)

instance (s : State) (i : In) : Decidable (Timely s i) := inferInstanceAs (Decidable (_ ∧ _))

/-- Neither a write to `r` nor a RESET write commits. -/
def Untouched (r : ConfigReg) (s : State) (_ : In) : Prop :=
  commitsTo s r.offset = false ∧ (commitsTo s regCtrl && (ctrlWriteData s).getLsbD 1) = false

instance (r : ConfigReg) (s : State) (i : In) : Decidable (Untouched r s i) :=
  inferInstanceAs (Decidable (_ ∧ _))

/-- A complete write to a configuration register does not meet RESET any more. -/
structure Ordered (s : State) : Prop where
  clear : (writePort s).Clear
  resetFirst : s.awPending = true → s.wPending = true → configOffset (wrAddrLsb s) = true →
    s.ctrl.getLsbD 1 = false

variable {s : State} {i : In} {r : ConfigReg}

theorem step_of_run (rstN : i.rstN = true) : Rtl.Csr.step s i = next s i := by
  simp [Rtl.Csr.step, rstN]

theorem ordered_resetState : Ordered resetState := by
  constructor <;> simp [resetState, writePort, WritePort.Clear]

theorem Ordered.step (ordered : Ordered s) (timely : Timely s i) :
    Ordered (Rtl.Csr.step s i) where
  clear := by
    rw [step_of_run timely.1, writePort_next]
    exact ordered.clear.next
  resetFirst := by
    rw [step_of_run timely.1]
    intro aw w config
    rw [next_awPending, Bool.and_eq_true, Bool.not_eq_true'] at aw
    rw [next_wPending, Bool.and_eq_true] at w
    rw [wrAddrLsb, next_awaddr] at config
    obtain ⟨noCommit, aw⟩ := aw
    have stays : (commitsTo s regCtrl && (ctrlWriteData s).getLsbD 1) = false := by
      simp [commitsTo, noCommit]
    cases reset : s.ctrl.getLsbD 1 with
    | false => exact noReset_next reset stays
    | true =>
      -- nothing is accepted behind a response, so the soft reset happens now
      have completes : completesConfig s i = true := by
        simp [completesConfig, noCommit, aw, w.2, config]
      obtain ⟨noAr, noR⟩ := timely.2 reset completes
      have noB : s.bvalid = false := by
        by_contra answers
        rw [Bool.not_eq_false] at answers
        have noAw : s.awPending = false := (ordered.clear answers).1
        simp [Rtl.Csr.awHs, awready, answers, noAw] at aw
      have resets : softResets s i = true := by simp [softResets, reset, noB, noAr, noR]
      rw [next_ctrl, if_pos resets]
      simp

/-- At the commit of a write to a configuration register the soft reset is over. -/
theorem Ordered.noReset_of_commitsTo (ordered : Ordered s) (writes : commitsTo s r.offset = true) :
    s.ctrl.getLsbD 1 = false := by
  simp only [commitsTo, commits, Bool.and_eq_true, beq_iff_eq] at writes
  obtain ⟨⟨⟨-, aw⟩, w⟩, offset⟩ := writes
  exact ordered.resetFirst aw w (offset ▸ configOffset_offset r)

/-- The register holds `v`, and no soft reset is to come. -/
def Stored (r : ConfigReg) (v : Word) (s : State) : Prop :=
  r.value s = v ∧ s.ctrl.getLsbD 1 = false

theorem stored_of_commitsTo (rstN : i.rstN = true) (noReset : s.ctrl.getLsbD 1 = false)
    (writes : commitsTo s r.offset = true)
    (plain : (commitsTo s regCtrl && (ctrlWriteData s).getLsbD 1) = false) :
    Stored r (r.written s) (Rtl.Csr.step s i) := by
  rw [step_of_run rstN]
  refine ⟨?_, noReset_next noReset plain⟩
  rw [r.value_next, softResets_of_noReset noReset, if_neg Bool.false_ne_true, if_pos writes]

theorem Stored.step {v : Word} (stored : Stored r v s) (rstN : i.rstN = true)
    (untouched : Untouched r s i) : Stored r v (Rtl.Csr.step s i) := by
  rw [step_of_run rstN]
  refine ⟨?_, noReset_next stored.2 untouched.2⟩
  rw [r.value_next, softResets_of_noReset stored.2, untouched.1, if_neg Bool.false_ne_true,
    if_neg Bool.false_ne_true]
  exact stored.1

end Csr

open Rtl.Csr in
/-- A configuration write is not undone by an earlier reset.  In every run in which no
    read delays a soft reset past the next configuration write: when a write to a
    configuration register commits, the soft reset has happened, and the value stays until
    the register is written again or a RESET write commits. -/
theorem config_write_survives {is js : List In} {i : In} {r : Csr.ConfigReg}
    (runs : LegalRun step Csr.Timely resetState (is ++ i :: js))
    (writes : commitsTo (run step resetState is) r.offset = true)
    (plain : (commitsTo (run step resetState is) regCtrl &&
      (ctrlWriteData (run step resetState is)).getLsbD 1) = false)
    (untouched : LegalRun step (Csr.Untouched r) (run step resetState (is ++ [i])) js) :
    (run step resetState is).ctrl.getLsbD 1 = false ∧
      r.value (run step resetState (is ++ i :: js)) = r.written (run step resetState is) := by
  obtain ⟨before, timely, after⟩ := legalRun_append.mp runs
  have ordered := before.invariant (P := Csr.Ordered) (fun _ _ ordered timely => ordered.step timely)
    Csr.ordered_resetState
  have noReset := ordered.noReset_of_commitsTo writes
  have stored := Csr.stored_of_commitsTo timely.1 noReset writes plain
  rw [run_snoc] at untouched
  have kept := (after.and untouched).invariant (P := Csr.Stored r (r.written (run step resetState is)))
    (fun _ _ stored both => stored.step both.1.1 both.2) stored
  refine ⟨noReset, ?_⟩
  rw [run_append]
  exact kept.1

namespace Csr

open AxiDma.Rtl.Csr

/-- RESET is written and answered. -/
def resetWritten : List In := (writeCycles regCtrl 2).map besideIdleRing

/-- TAIL is written right after the response. -/
theorem tail_survives :
    let is := resetWritten ++ ((writeCycles regTail 5).take 1).map besideIdleRing
    let js := [besideIdleRing { busIdle with bready := true }, besideIdleRing (readCycle regTail)]
    (run Rtl.Csr.step resetState (is ++ besideIdleRing busIdle :: js)).tail = 5 :=
  (config_write_survives (r := .tail) (by decide) (by decide) (by decide) (by decide)).2.trans
    (by decide)

/-- Both halves of a write of TAIL are accepted in the cycle after the response of the RESET
    write, together with a read of STATUS. -/
def writtenBesideRead : List In :=
  resetWritten ++ [besideIdleRing
    { busIdle with awaddr := 0x0C, awvalid := true, wdata := 5, wstrb := 15, wvalid := true,
                   araddr := 0x14, arvalid := true }]

/-- The read is taken while the write of TAIL commits, the write is answered with OKAY, and
    then the soft reset clears TAIL. -/
theorem write_undone_by_reset :
    let s := run Rtl.Csr.step resetState writtenBesideRead
    let commit := besideIdleRing { busIdle with rready := true }
    let answer := besideIdleRing { busIdle with bready := true }
    let js := [answer, besideIdleRing busIdle]
    commitsTo s regTail = true ∧ ConfigReg.tail.written s = 5 ∧
      (run Rtl.Csr.step s [commit]).tail = 5 ∧ (run Rtl.Csr.step s [commit]).bvalid = true ∧
      (run Rtl.Csr.step s [commit]).bresp = axiRespOkay ∧
      LegalRun Rtl.Csr.step (Untouched .tail) (run Rtl.Csr.step s [commit]) js ∧
      (run Rtl.Csr.step s (commit :: js)).tail = 0 := by decide

end Csr

end AxiDma.Verified
