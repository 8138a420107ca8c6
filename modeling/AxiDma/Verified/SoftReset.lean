import AxiDma.Rtl.CsrRing
import AxiDma.Verified.CsrFields
import AxiDma.Verified.InFlight
import AxiDma.Verified.RingPointers

/-! # CTRL.RESET and the requests in flight

CTRL.RESET clears HEAD and the in-flight counter in the ring manager but not the
movement side, and it does not hold `fetch_req_valid` low.  So a request accepted
before the reset may be answered after it, and one accepted while RESET is set is
forgotten at once.  The two theorems say when neither happens.
-/

namespace AxiDma.Verified

open AxiDma.Lib AxiDma.Rtl

def resetting {maxInflight : Nat} (s : CsrRing.State maxInflight) : Bool := s.csr.ctrl.getLsbD 1

/-! ## Answers that come after a reset -/

/-- CSR block and ring manager with the tally of requests and answers. -/
structure Answering (maxInflight : Nat) where
  sys : CsrRing.State maxInflight
  tally : Tally
  deriving DecidableEq

namespace Answering

variable {maxInflight : Nat}

def start (maxInflight : Nat) : Answering maxInflight :=
  { sys := CsrRing.resetState maxInflight, tally := .zero }

def step (b : Answering maxInflight) (i : CsrRing.In) : Answering maxInflight :=
  { sys := CsrRing.step b.sys i
    tally := b.tally.record (CsrRing.fetchHs b.sys i) i.asDone i.dfError }

/-- Every answer is to a request of an earlier cycle; software may do anything. -/
def Environment (b : Answering maxInflight) (i : CsrRing.In) : Prop :=
  i.rstN = true ∧ b.tally.answered + i.asDone.toNat + i.dfError.toNat ≤ b.tally.accepted

instance (b : Answering maxInflight) (i : CsrRing.In) : Decidable (Environment b i) :=
  inferInstanceAs (Decidable (_ ∧ _))

/-- RESET does not fall while an accepted request is unanswered. -/
def DrainsReset (b : Answering maxInflight) (i : CsrRing.In) : Prop :=
  resetting b.sys = true → resetting (step b i).sys = false →
    (step b i).tally.answered = (step b i).tally.accepted

instance (b : Answering maxInflight) (i : CsrRing.In) : Decidable (DrainsReset b i) :=
  inferInstanceAs (Decidable (_ → _ → _))

/-- Outside a reset the counter covers the outstanding requests. -/
structure Inv (b : Answering maxInflight) : Prop where
  low : resetting b.sys = false → b.tally.accepted ≤ b.tally.answered + b.sys.rm.inflightCount.toNat
  high : b.sys.rm.inflightCount.toNat ≤ maxInflight
  asked : b.tally.answered ≤ b.tally.accepted

theorem inv_start : Inv (start maxInflight) where
  low := fun _ => Nat.zero_le _
  high := by simp [start, CsrRing.resetState, RingManager.resetState]
  asked := Nat.le_refl 0

theorem inv_step {b : Answering maxInflight} {i : CsrRing.In} (inv : Inv b)
    (env : Environment b i) (drains : DrainsReset b i) : Inv (step b i) := by
  obtain ⟨rstN, asked⟩ := env
  have askedNext : (step b i).tally.answered ≤ (step b i).tally.accepted := by
    simp only [step, Tally.record]
    omega
  cases reset : resetting b.sys with
  | true =>
    have cleared : (step b i).sys.rm = RingManager.resetState maxInflight :=
      RingManager.step_of_reset reset
    refine ⟨fun released => ?_, ?_, askedNext⟩
    · rw [drains reset released]
      exact Nat.le_add_right ..
    · simp [cleared, RingManager.resetState]
  | false =>
    have countNext : (step b i).sys.rm.inflightCount =
        RingManager.inflightCountNext b.sys.rm (CsrRing.rmIn b.sys i) :=
      congrArg RingManager.State.inflightCount (RingManager.step_of_run rstN reset)
    have counter := RingManager.count_step (i := CsrRing.rmIn b.sys i) (inv.low reset) inv.high
      (by simp only [CsrRing.rmIn]; omega)
    rw [← countNext] at counter
    exact ⟨fun _ => counter.1, counter.2, askedNext⟩

/-- The counter is not taken below zero in a cycle of the environment. -/
theorem Inv.pos_of_retires {b : Answering maxInflight} {i : CsrRing.In} (inv : Inv b)
    (env : Environment b i) (running : resetting b.sys = false)
    (retires : RingManager.retires b.sys.rm (CsrRing.rmIn b.sys i) = true) :
    0 < b.sys.rm.inflightCount.toNat := by
  have low := inv.low running
  have asked := env.2
  have answers : 1 ≤ i.asDone.toNat + i.dfError.toNat := by
    cases done : i.asDone <;> cases bad : i.dfError <;>
      simp [RingManager.retires, CsrRing.rmIn, done, bad] at retires ⊢
  omega

end Answering

/-- A soft reset keeps the counter in its window in every run in which RESET falls
    only when all accepted requests are answered: the counter stays at or below
    `MAX_INFLIGHT` and no cycle takes it below zero. -/
theorem count_le_of_drained_resets {maxInflight : Nat} {is : List CsrRing.In}
    (runs : LegalRun Answering.step
      (fun b i => Answering.Environment b i ∧ Answering.DrainsReset b i)
      (Answering.start maxInflight) is) :
    let b := run Answering.step (Answering.start maxInflight) is
    b.sys.rm.inflightCount.toNat ≤ maxInflight ∧
      ∀ i, Answering.Environment b i → resetting b.sys = false →
        RingManager.retires b.sys.rm (CsrRing.rmIn b.sys i) = true →
          0 < b.sys.rm.inflightCount.toNat := by
  intro b
  have inv : Answering.Inv b :=
    runs.invariant (fun b i inv legal => Answering.inv_step inv legal.1 legal.2)
      Answering.inv_start
  exact ⟨inv.high, fun i => inv.pos_of_retires⟩

/-- A cycle with the fetch side ready. -/
def readyCycle (bus : AxiLiteMaster) (asDone : Bool) : CsrRing.In :=
  { rstN := true, bus := bus, fetchReqReady := true, asDone := asDone, dfError := false }

/-- Software posts two descriptors in a ring of 4 and starts the ring. -/
def startTwo : List CsrRing.In :=
  (Csr.writeCycles Csr.regRinglen 4 ++ Csr.writeCycles Csr.regTail 2 ++
    Csr.writeCycles Csr.regCtrl 1).map (readyCycle · false)

def resetWrite : List CsrRing.In := (Csr.writeCycles Csr.regCtrl 2).map (readyCycle · false)

/-- Both requests are answered before software resets. -/
theorem count_le_of_drained_resets_startTwo :
    let is := startTwo ++ [readyCycle Csr.busIdle false, readyCycle Csr.busIdle true,
      readyCycle Csr.busIdle true] ++ resetWrite ++ [readyCycle Csr.busIdle false]
    let b := run Answering.step (Answering.start 4) is
    (b.sys.rm.inflightCount.toNat ≤ 4 ∧
      ∀ i, Answering.Environment b i → resetting b.sys = false →
        RingManager.retires b.sys.rm (CsrRing.rmIn b.sys i) = true →
          0 < b.sys.rm.inflightCount.toNat) ∧ b.tally = ⟨2, 2⟩ :=
  ⟨count_le_of_drained_resets (by decide), by decide⟩

/-- Two requests are outstanding when software resets; the first late answer takes the
    counter from 0 to 7. -/
theorem late_answer_wraps_count :
    let is := startTwo ++ resetWrite ++ [readyCycle Csr.busIdle false, readyCycle Csr.busIdle true]
    LegalRun Answering.step Answering.Environment (Answering.start 4) is ∧
      ¬ (run Answering.step (Answering.start 4) is).sys.rm.inflightCount.toNat ≤ 4 := by decide

/-! ## Requests accepted while RESET is set -/

namespace CsrRingFetcher

variable {maxInflight : Nat}

open AxiDma.Rtl.CsrRingFetcher

/-- Nothing can be issued: the ring is empty or has no length, the window is full, the
    error flag is up or the handle FIFO has no room. -/
def NothingToIssue (s : State maxInflight) (i : In) : Prop :=
  s.sys.rm.head = s.sys.csr.tail ∨ s.sys.csr.ringlen = 0 ∨
    maxInflight ≤ s.sys.rm.inflightCount.toNat ∨ s.sys.rm.intStatusError = true ∨
      i.dfInFull = true

instance (s : State maxInflight) (i : In) : Decidable (NothingToIssue s i) :=
  inferInstanceAs (Decidable (_ ∨ _))

/-- RINGLEN is not written to a length that HEAD, with the request of the cycle, is
    already past. -/
def KeepsHeadInRing (s : State maxInflight) (i : In) : Prop :=
  Csr.commitsTo s.sys.csr Csr.regRinglen = true → resetting s.sys = false →
    let ringlen := applyWstrb s.sys.csr.ringlen s.sys.csr.wdata s.sys.csr.wstrb
    ringlen = 0 ∨
      if fetchHs s i then
        s.sys.rm.head.toNat + 1 = s.sys.csr.ringlen.toNat ∨
          s.sys.rm.head.toNat + 1 < ringlen.toNat
      else s.sys.rm.head.toNat < ringlen.toNat

instance (s : State maxInflight) (i : In) : Decidable (KeepsHeadInRing s i) :=
  inferInstanceAs (Decidable (_ → _ → (_ ∨ _)))

/-- A write of CTRL that sets RESET leaves ENABLE clear. -/
def ResetsAlone (s : State maxInflight) : Prop :=
  Csr.commitsTo s.sys.csr Csr.regCtrl = true → (Csr.ctrlWriteData s.sys.csr).getLsbD 1 = true →
    (Csr.ctrlWriteData s.sys.csr).getLsbD 0 = false

instance (s : State maxInflight) : Decidable (ResetsAlone s) :=
  inferInstanceAs (Decidable (_ → _ → _))

/-- No hard reset, and software keeps to the two rules. -/
def Legal (s : State maxInflight) (i : In) : Prop :=
  i.rstN = true ∧ ResetsAlone s ∧ KeepsHeadInRing s i

instance (s : State maxInflight) (i : In) : Decidable (Legal s i) :=
  inferInstanceAs (Decidable (_ ∧ _ ∧ _))

def ResetAlone (s : State maxInflight) : Prop :=
  resetting s.sys = true → s.sys.csr.ctrl.getLsbD 0 = false

def HeadInRing (s : State maxInflight) : Prop :=
  s.sys.csr.ringlen = 0 ∨ s.sys.rm.head.toNat < s.sys.csr.ringlen.toNat

theorem fetchHs_iff {s : State maxInflight} {i : In} :
    fetchHs s i = true ↔ ¬ NothingToIssue s i ∧ s.sys.csr.ctrl.getLsbD 0 = true := by
  have positive : 0 < s.sys.csr.ringlen ↔ s.sys.csr.ringlen ≠ 0 := by
    rw [BitVec.lt_def, ne_eq, ← BitVec.toNat_inj]
    exact Nat.pos_iff_ne_zero
  refine RingManager.fetchHs_iff.trans ?_
  simp only [CsrRing.rmIn, Csr.toRing, sysIn, DescriptorFetcher.fetchReqReady, dfIn, positive,
    NothingToIssue, not_or, Nat.not_le, Bool.not_eq_true, Bool.not_eq_true']
  tauto

theorem HeadInRing.lt_of_fetchHs {s : State maxInflight} {i : In} (inRing : HeadInRing s)
    (hs : fetchHs s i = true) : s.sys.rm.head.toNat < s.sys.csr.ringlen.toNat :=
  inRing.resolve_left fun none => (fetchHs_iff.mp hs).1 (.inr (.inl none))

theorem head_step {s : State maxInflight} {i : In} (rstN : i.rstN = true)
    (running : resetting s.sys = false) :
    (step s i).sys.rm.head = RingManager.headPtrNext s.sys.rm (CsrRing.rmIn s.sys (sysIn s i)) :=
  congrArg RingManager.State.head (RingManager.step_of_run rstN running)

theorem head_step_of_fetchHs {s : State maxInflight} {i : In} (inRing : HeadInRing s)
    (rstN : i.rstN = true) (running : resetting s.sys = false) (hs : fetchHs s i = true) :
    (step s i).sys.rm.head.toNat = nextSlot s.sys.csr.ringlen.toNat s.sys.rm.head.toNat := by
  rw [head_step rstN running]
  exact RingManager.toNat_headPtrNext_of_fetchHs hs (inRing.lt_of_fetchHs hs)

theorem head_step_of_idle {s : State maxInflight} {i : In} (rstN : i.rstN = true)
    (running : resetting s.sys = false) (idle : fetchHs s i = false) :
    (step s i).sys.rm.head = s.sys.rm.head := by
  rw [head_step rstN running]
  exact if_neg (Bool.not_eq_true _ ▸ idle)

theorem headInRing_step {s : State maxInflight} {i : In} (inRing : HeadInRing s)
    (legal : Legal s i) : HeadInRing (step s i) := by
  obtain ⟨rstN, -, keeps⟩ := legal
  have ringlenNext : (step s i).sys.csr.ringlen =
      if Csr.softResets s.sys.csr (CsrRing.csrIn s.sys (sysIn s i)) then 0
      else if Csr.commitsTo s.sys.csr Csr.regRinglen then
        applyWstrb s.sys.csr.ringlen s.sys.csr.wdata s.sys.csr.wstrb
      else s.sys.csr.ringlen := by
    rw [← Csr.next_ringlen, ← CsrRing.csr_step_of_run (show (sysIn s i).rstN = true from rstN)]
    rfl
  cases reset : resetting s.sys with
  | true =>
    have cleared : (step s i).sys.rm = RingManager.resetState maxInflight :=
      RingManager.step_of_reset reset
    by_cases none : (step s i).sys.csr.ringlen = 0
    · exact .inl none
    · -- HEAD is 0, below any length
      refine .inr ?_
      rw [cleared]
      exact Nat.pos_of_ne_zero fun zero => none (BitVec.eq_of_toNat_eq zero)
  | false =>
    have quiet : Csr.softResets s.sys.csr (CsrRing.csrIn s.sys (sysIn s i)) = false :=
      Csr.softResets_of_noReset reset
    rw [HeadInRing, ringlenNext, quiet, if_neg (by decide)]
    by_cases writes : Csr.commitsTo s.sys.csr Csr.regRinglen = true
    · rw [if_pos writes]
      have room := keeps writes reset
      by_cases none : applyWstrb s.sys.csr.ringlen s.sys.csr.wdata s.sys.csr.wstrb = 0
      · exact .inl none
      · -- the new length leaves room for HEAD, also after the request of this cycle
        have positive := Nat.pos_of_ne_zero fun zero => none (BitVec.eq_of_toNat_eq zero)
        refine .inr ?_
        have fits := room.resolve_left none
        cases hs : fetchHs s i with
        | true =>
          rw [hs, if_pos rfl] at fits
          rw [head_step_of_fetchHs inRing rstN reset hs, nextSlot]
          split <;> omega
        | false =>
          rw [hs, if_neg (by decide)] at fits
          rw [head_step_of_idle rstN reset hs]
          exact fits
    · rw [if_neg writes]
      cases hs : fetchHs s i with
      | true =>
        have bound := inRing.lt_of_fetchHs hs
        rw [head_step_of_fetchHs inRing rstN reset hs, nextSlot_of_lt bound]
        exact .inr (Nat.mod_lt _ (Nat.zero_lt_of_lt bound))
      | false =>
        rw [head_step_of_idle rstN reset hs]
        exact inRing

/-- RESET and ENABLE are never set together. -/
theorem resetAlone_start : ResetAlone (resetState maxInflight) := fun _ => BitVec.getLsbD_zero

theorem resetAlone_step {s : State maxInflight} {i : In} (alone : ResetAlone s)
    (legal : Legal s i) : ResetAlone (step s i) := by
  obtain ⟨rstN, writes, -⟩ := legal
  have ctrlNext : (step s i).sys.csr.ctrl =
      if Csr.softResets s.sys.csr (CsrRing.csrIn s.sys (sysIn s i)) then 0
      else if Csr.commitsTo s.sys.csr Csr.regCtrl then Csr.ctrlWriteData s.sys.csr &&& 7
      else s.sys.csr.ctrl := by
    rw [← Csr.next_ctrl, ← CsrRing.csr_step_of_run (show (sysIn s i).rstN = true from rstN)]
    rfl
  unfold ResetAlone resetting
  rw [ctrlNext]
  intro reset
  split at reset
  · exact absurd reset (by decide)
  · rename_i notReset
    rw [if_neg notReset]
    split at reset
    · rename_i commits
      -- the write decides both bits
      rw [if_pos commits, BitVec.getLsbD_and] at *
      rw [writes commits (Bool.and_eq_true_iff.mp reset).1, Bool.false_and]
    · rename_i quiet
      rw [if_neg quiet]
      exact alone reset

/-- An accepted request moves the counter up by one, less the completion of the cycle. -/
theorem count_step_of_fetchHs {s : State maxInflight} {i : In} (rstN : i.rstN = true)
    (running : resetting s.sys = false) (hs : fetchHs s i = true) :
    (step s i).sys.rm.inflightCount.toNat + i.asDone.toNat =
      s.sys.rm.inflightCount.toNat + 1 := by
  have issue : RingManager.fetchHs s.sys.rm (CsrRing.rmIn s.sys (sysIn s i)) = true := hs
  have balance := RingManager.inflightCountNext_balance (s := s.sys.rm)
    (i := CsrRing.rmIn s.sys (sysIn s i)) (by simp [issue])
  have countNext : (step s i).sys.rm.inflightCount =
      RingManager.inflightCountNext s.sys.rm (CsrRing.rmIn s.sys (sysIn s i)) :=
    congrArg RingManager.State.inflightCount (RingManager.step_of_run rstN running)
  rw [issue, RingManager.retires, if_pos issue] at balance
  rw [countNext]
  exact balance

/-- No request escapes accounting in a run in which no write of CTRL sets RESET together with
    ENABLE and RINGLEN is not written to a length that HEAD is past: a request is accepted
    with RESET clear, and HEAD and the counter follow it. -/
theorem request_accounted {is : List In} {i : In}
    (runs : LegalRun step Legal (resetState maxInflight) (is ++ [i])) :
    let s := run step (resetState maxInflight) is
    fetchHs s i = true →
      resetting s.sys = false ∧
      (step s i).sys.rm.head.toNat = (s.sys.rm.head.toNat + 1) % s.sys.csr.ringlen.toNat ∧
      (step s i).sys.rm.inflightCount.toNat + i.asDone.toNat =
        s.sys.rm.inflightCount.toNat + 1 := by
  intro s hs
  obtain ⟨before, last⟩ := legalRun_snoc.mp runs
  have inRing : HeadInRing s :=
    before.invariant (fun s i => headInRing_step) (.inl rfl)
  have alone : ResetAlone s :=
    before.invariant (P := ResetAlone) (fun _ _ => resetAlone_step) resetAlone_start
  obtain ⟨rstN, -, -⟩ := last
  obtain ⟨-, enable⟩ := fetchHs_iff.mp hs
  have running : resetting s.sys = false := by
    cases reset : resetting s.sys with
    | false => rfl
    | true => exact absurd ((alone reset).symm.trans enable) (by decide)
  refine ⟨running, ?_, count_step_of_fetchHs rstN running hs⟩
  rw [head_step_of_fetchHs inRing rstN running hs, nextSlot_of_lt (inRing.lt_of_fetchHs hs)]

/-- A cycle with room in the handle FIFO and no descriptor read back. -/
def issueCycle (bus : AxiLiteMaster) : In :=
  { rstN := true, bus := bus, asDone := false, dfInFull := false, dfOutEmpty := true,
    dfOutDout := ⟨0, 0, 0, 0⟩, dmInFull := false }

/-- RINGLEN, TAIL and CTRL are written up to the commit of CTRL. -/
def ctrlWritten (ctrl : Word) : List In :=
  (Csr.writeCycles Csr.regRinglen 4 ++ Csr.writeCycles Csr.regTail 2 ++
    (Csr.writeCycles Csr.regCtrl ctrl).take 2).map issueCycle

/-- One request is accepted before a soft reset and one after it, each in the response cycle
    of a write of ENABLE. -/
theorem request_accounted_around_reset :
    let respond := issueCycle { Csr.busIdle with bready := true }
    let before := ctrlWritten 1 ++ [respond]
    let reset := before ++ (Csr.writeCycles Csr.regCtrl 2).map issueCycle
    let is := reset ++ [issueCycle Csr.busIdle] ++ ctrlWritten 1
    let s := run step (resetState 4) is
    (fetchHs s respond = true →
      resetting s.sys = false ∧
      (step s respond).sys.rm.head.toNat = (s.sys.rm.head.toNat + 1) % s.sys.csr.ringlen.toNat ∧
      (step s respond).sys.rm.inflightCount.toNat + respond.asDone.toNat =
        s.sys.rm.inflightCount.toNat + 1) ∧
      (run step (resetState 4) before).sys.rm.head = 1 ∧
      resetting (run step (resetState 4) reset).sys = true ∧ fetchHs s respond = true :=
  ⟨request_accounted (by decide +kernel), by decide +kernel⟩

/-- With RESET and ENABLE in one write, a request is accepted while RESET is set, and
    neither HEAD nor the counter moves. -/
theorem request_lost_in_reset :
    let s := run step (resetState 4) (ctrlWritten 3)
    let i := issueCycle { Csr.busIdle with bready := true }
    fetchHs s i = true ∧ resetting s.sys = true ∧ (step s i).sys.rm.head = 0 ∧
      (step s i).sys.rm.inflightCount = 0 := by decide

end CsrRingFetcher

end AxiDma.Verified
