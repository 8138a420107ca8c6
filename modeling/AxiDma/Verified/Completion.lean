import AxiDma.Rtl.CsrRing
import AxiDma.Verified.CsrFields
import AxiDma.Verified.InFlight
import AxiDma.Verified.RingPointers

/-! # What an idle STATUS word says

Software takes a scenario for finished when STATUS shows RING_EMPTY and not BUSY.
`Observed` adds to the CSR block and the ring manager what such a word is about: the
number of posted descriptors, the tally of requests and answers, and the answers by
`df_error` since software last cleared the error.
-/

namespace AxiDma.Verified

open AxiDma.Lib AxiDma.Rtl

/-! ## CSR block and ring manager, observed -/

structure Observed (maxInflight : Nat) where
  sys : CsrRing.State maxInflight
  /-- Slots that TAIL has passed. -/
  posted : Nat
  tally : Tally
  /-- `df_error` answers since the last committed IRQ_CLEAR[1]. -/
  errors : Nat

namespace Observed

variable {maxInflight : Nat}

def start (maxInflight : Nat) : Observed maxInflight :=
  { sys := CsrRing.resetState maxInflight, posted := 0, tally := .zero, errors := 0 }

def head (b : Observed maxInflight) : Word := b.sys.rm.head
def tail (b : Observed maxInflight) : Word := b.sys.csr.tail

def tailNext (b : Observed maxInflight) (i : CsrRing.In) : Word := (CsrRing.step b.sys i).csr.tail

def step (L : Nat) (b : Observed maxInflight) (i : CsrRing.In) : Observed maxInflight :=
  { sys := CsrRing.step b.sys i
    posted := b.posted + slotDistance L b.tail.toNat (b.tailNext i).toNat
    tally := b.tally.record (CsrRing.fetchHs b.sys i) i.asDone i.dfError
    errors := (if Csr.irqClearPulseError b.sys.csr then 0 else b.errors) + i.dfError.toNat }

/-- What software and the movement side keep to: no reset, RINGLEN only ever written as
    `ringlen`, TAIL moved within the room of the ring, and no answer that was not asked
    for in an earlier cycle. -/
structure Legal (ringlen : Word) (b : Observed maxInflight) (i : CsrRing.In) : Prop where
  rstN : i.rstN = true
  noReset : b.sys.csr.ctrl.getLsbD 1 = false
  ringlenFixed : Csr.commitsTo b.sys.csr Csr.regRinglen = true →
    applyWstrb b.sys.csr.ringlen b.sys.csr.wdata b.sys.csr.wstrb = ringlen
  tailMove : TailMove ringlen.toNat b.head b.tail (b.tailNext i)
  asked : b.tally.answered + i.asDone.toNat + i.dfError.toNat ≤ b.tally.accepted

instance (ringlen : Word) (b : Observed maxInflight) (i : CsrRing.In) :
    Decidable (Legal ringlen b i) :=
  decidable_of_iff
    (i.rstN = true ∧ b.sys.csr.ctrl.getLsbD 1 = false ∧
      (Csr.commitsTo b.sys.csr Csr.regRinglen = true →
        applyWstrb b.sys.csr.ringlen b.sys.csr.wdata b.sys.csr.wstrb = ringlen) ∧
      TailMove ringlen.toNat b.head b.tail (b.tailNext i) ∧
      b.tally.answered + i.asDone.toNat + i.dfError.toNat ≤ b.tally.accepted)
    ⟨fun ⟨rstN, noReset, fixed, move, asked⟩ => ⟨rstN, noReset, fixed, move, asked⟩,
      fun legal => ⟨legal.rstN, legal.noReset, legal.ringlenFixed, legal.tailMove, legal.asked⟩⟩

/-- The pointers are a view of the counts, the counter covers what is outstanding, and
    an error that software has not cleared is still shown. -/
structure Inv (ringlen : Word) (b : Observed maxInflight) : Prop where
  ringlenEq : b.sys.csr.ringlen = 0 ∨ b.sys.csr.ringlen = ringlen
  view : RingView ringlen.toNat b.head b.tail b.tally.accepted b.posted
  low : b.tally.accepted ≤ b.tally.answered + b.sys.rm.inflightCount.toNat
  high : b.sys.rm.inflightCount.toNat ≤ maxInflight
  asked : b.tally.answered ≤ b.tally.accepted
  shown : b.sys.csr.statusError = false → b.errors = 0

/-! ## One cycle -/

theorem inv_start {ringlen : Word} (long : 2 ≤ ringlen.toNat) : Inv ringlen (start maxInflight) := by
  have zero : (0 : Word).toNat = 0 % ringlen.toNat := by simp
  exact
    { ringlenEq := .inl rfl
      view := ⟨zero, zero, Nat.le_refl 0, by change 0 < 0 + ringlen.toNat; omega⟩
      low := Nat.zero_le _
      high := by simp [start, CsrRing.resetState, RingManager.resetState]
      asked := Nat.le_refl 0
      shown := fun _ => rfl }

theorem inv_step {ringlen : Word} {b : Observed maxInflight} {i : CsrRing.In}
    (inv : Inv ringlen b) (legal : Legal ringlen b i) : Inv ringlen (step ringlen.toNat b i) := by
  obtain ⟨rstN, noReset, fixed, move, asked⟩ := legal
  have quiet : Csr.softResets b.sys.csr (CsrRing.csrIn b.sys i) = false :=
    Csr.softResets_of_noReset noReset
  have csrStep := CsrRing.csr_step_of_run (s := b.sys) rstN
  have rmStep := RingManager.step_of_run (s := b.sys.rm) (i := CsrRing.rmIn b.sys i) rstN noReset
  have headNext : (step ringlen.toNat b i).head =
      RingManager.headPtrNext b.sys.rm (CsrRing.rmIn b.sys i) :=
    congrArg RingManager.State.head rmStep
  have countNext : (step ringlen.toNat b i).sys.rm.inflightCount =
      RingManager.inflightCountNext b.sys.rm (CsrRing.rmIn b.sys i) :=
    congrArg RingManager.State.inflightCount rmStep
  -- a request needs a length, and the only one ever written is `ringlen`
  have ringLength : CsrRing.fetchHs b.sys i = true → b.sys.csr.ringlen.toNat = ringlen.toNat := by
    intro hs
    have positive : 0 < b.sys.csr.ringlen := (RingManager.fetchHs_iff.mp hs).2.2.1
    rcases inv.ringlenEq with none | written
    · rw [none] at positive
      exact absurd positive (by decide)
    · rw [written]
  have counter := RingManager.count_step (i := CsrRing.rmIn b.sys i) inv.low inv.high
    (by simp only [CsrRing.rmIn]; omega)
  refine ⟨?_, ?_, ?_, ?_, ?_, ?_⟩
  · simp only [step, csrStep, Csr.next_ringlen, quiet]
    by_cases writes : Csr.commitsTo b.sys.csr Csr.regRinglen = true
    · exact .inr (by rw [if_pos writes]; exact fixed writes)
    · rw [if_neg writes]
      exact inv.ringlenEq
  · rw [headNext]
    exact RingManager.ringView_step (i := CsrRing.rmIn b.sys i) inv.view ringLength move
  · rw [countNext]
    exact counter.1
  · rw [countNext]
    exact counter.2
  · simp only [step, Tally.record]
    omega
  · -- with STATUS.ERROR clear after the cycle no error came in it
    simp only [step, csrStep, Csr.next_statusError, quiet]
    intro noError
    by_cases bad : i.dfError = true
    · simp [CsrRing.csrIn, RingManager.errorSet, CsrRing.rmIn, bad] at noError
    · by_cases clears : Csr.irqClearPulseError b.sys.csr = true
      · simp [clears, bad]
      · have before : b.sys.csr.statusError = false := by
          simpa [CsrRing.csrIn, RingManager.errorSet, CsrRing.rmIn, bad, clears] using noError
        simp [clears, bad, inv.shown before]

/-- An idle STATUS word in a state that meets the invariant. -/
theorem Inv.of_idle {ringlen : Word} {b : Observed maxInflight} (inv : Inv ringlen b)
    {i : CsrRing.In} (ringEmpty : (CsrRing.status b.sys i).getLsbD 1 = true)
    (idle : (CsrRing.status b.sys i).getLsbD 0 = false) :
    b.tally.accepted = b.posted ∧ b.tally.answered = b.posted := by
  rw [CsrRing.status, Csr.statusWord_ringEmpty] at ringEmpty
  rw [CsrRing.status, Csr.statusWord_busy] at idle
  have issued : b.posted = b.tally.accepted :=
    inv.view.head_eq_tail_iff.mp (beq_iff_eq.mp ringEmpty)
  have none : b.sys.rm.inflightCount.toNat = 0 := by
    simpa [CsrRing.csrIn, RingManager.busy, BitVec.lt_def] using idle
  have low := inv.low
  have asked := inv.asked
  omega

end Observed

/-! ## The completion test -/

/-- An idle STATUS word is sound.  In the last cycle of a run the CSR block accepts
    a read of STATUS.  If the word it latches shows RING_EMPTY and not BUSY, everything
    posted before that cycle was issued and answered; if it shows no ERROR either, no
    answer since the last IRQ_CLEAR[1] was a `df_error`. -/
theorem idle_status_sound {maxInflight : Nat} {ringlen : Word} {is : List CsrRing.In}
    {i : CsrRing.In} (long : 2 ≤ ringlen.toNat)
    (runs : LegalRun (Observed.step ringlen.toNat) (Observed.Legal ringlen)
      (Observed.start maxInflight) (is ++ [i]))
    (reads : Csr.arHs (run (Observed.step ringlen.toNat) (Observed.start maxInflight) is).sys.csr
      (CsrRing.csrIn (run (Observed.step ringlen.toNat) (Observed.start maxInflight) is).sys i)
        = true)
    (addr : i.bus.araddr.setWidth 8 = Csr.regStatus) :
    let b := run (Observed.step ringlen.toNat) (Observed.start maxInflight) is
    let w := (Observed.step ringlen.toNat b i).sys.csr.rdata
    w.getLsbD 1 = true → w.getLsbD 0 = false →
      (b.tally.accepted = b.posted ∧ b.tally.answered = b.posted) ∧
        (w.getLsbD 2 = false → b.errors = 0) := by
  intro b w ringEmpty idle
  obtain ⟨before, last⟩ := legalRun_snoc.mp runs
  have inv : Observed.Inv ringlen b :=
    before.invariant (fun b i => Observed.inv_step) (Observed.inv_start long)
  have word : w = CsrRing.status b.sys i := by
    simp only [w, Observed.step, CsrRing.csr_step_of_run last.rstN, Csr.next_rdata]
    rw [if_pos reads]
    exact (congrArg _ addr).trans (Csr.readData_status ..)
  rw [word] at ringEmpty idle ⊢
  refine ⟨inv.of_idle ringEmpty idle, ?_⟩
  intro noError
  rw [CsrRing.status, Csr.statusWord_error] at noError
  exact inv.shown noError

/-- The bus cycles of software that posts one descriptor in a ring of 4, with a movement
    side that is always ready and answers it by `as_done`. -/
def oneDescriptor : List CsrRing.In :=
  let cycle (bus : AxiLiteMaster) : CsrRing.In :=
    { rstN := true, bus := bus, fetchReqReady := true, asDone := false, dfError := false }
  (Csr.writeCycles Csr.regRinglen 4 ++ Csr.writeCycles Csr.regTail 1 ++
    Csr.writeCycles Csr.regCtrl 1).map cycle ++ [{ cycle Csr.busIdle with asDone := true }]

/-- The word read after it is idle and shows no error. -/
theorem idle_status_sound_oneDescriptor :
    let b := run (Observed.step 4) (Observed.start 4) oneDescriptor
    (b.tally.accepted = b.posted ∧ b.tally.answered = b.posted) ∧ b.errors = 0 ∧ b.posted = 1 := by
  have sound := @idle_status_sound 4 4 oneDescriptor
    { rstN := true, bus := Csr.readCycle Csr.regStatus, fetchReqReady := true, asDone := false,
      dfError := false }
    (by decide) (by decide) (by decide) (by decide) (by decide) (by decide)
  exact ⟨sound.1, sound.2 (by decide), by decide⟩

end AxiDma.Verified
