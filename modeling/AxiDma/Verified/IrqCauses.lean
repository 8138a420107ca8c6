import AxiDma.Lib.Latch
import AxiDma.Rtl.CsrRing
import AxiDma.Verified.CsrFields

/-! # Where the interrupt bits come from

`was_empty` turns HEAD = TAIL into a pulse on its rising edge, and the CSR block latches
that pulse and the error pulse in sticky bits.  `interrupt_causes` reads both off the
history of the run: no pulse without an edge, and no bit without a pulse that neither a
clear nor a reset has taken back.
-/

namespace AxiDma.Verified

open AxiDma.Lib AxiDma.Rtl

namespace IrqCauses

variable {maxInflight : Nat}

/-- Neither reset takes the CSR flags down in this cycle. -/
def Running (s : CsrRing.State maxInflight) (i : CsrRing.In) : Prop :=
  i.rstN = true ∧ Csr.softResets s.csr (CsrRing.csrIn s i) = false

/-- HEAD = TAIL. -/
def HeadAtTail (s : CsrRing.State maxInflight) : Prop := s.rm.head = s.csr.tail

def irqEmptySet (s : CsrRing.State maxInflight) : Bool :=
  RingManager.irqEmptySet s.rm (Csr.toRing s.csr)

/-- HEAD = TAIL after `is`, not before its last cycle, and that was no reset cycle. -/
def EmptyEdge (start : CsrRing.State maxInflight) (is : List CsrRing.In) : Prop :=
  ∃ before i, is = before ++ [i] ∧
    HeadAtTail (run CsrRing.step start (before ++ [i])) ∧
      ¬ HeadAtTail (run CsrRing.step start before) ∧
        i.rstN = true ∧ (run CsrRing.step start before).csr.ctrl.getLsbD 1 = false

/-- An empty pulse of a cycle without a reset. -/
def EmptyPulse (s : CsrRing.State maxInflight) (i : CsrRing.In) : Prop :=
  irqEmptySet s = true ∧ Running s i

/-- A `df_error` pulse of a cycle without a reset. -/
def ErrorPulse (s : CsrRing.State maxInflight) (i : CsrRing.In) : Prop :=
  i.dfError = true ∧ Running s i

/-- No IRQ_CLEAR[0] commits, and no reset happens. -/
def EmptyKept (s : CsrRing.State maxInflight) (i : CsrRing.In) : Prop :=
  Csr.irqClearPulseEmpty s.csr = false ∧ Running s i

/-- No IRQ_CLEAR[1] commits, and no reset happens. -/
def ErrorKept (s : CsrRing.State maxInflight) (i : CsrRing.In) : Prop :=
  Csr.irqClearPulseError s.csr = false ∧ Running s i

/-! ## The edge detector -/

theorem ringEmpty_iff (s : CsrRing.State maxInflight) :
    RingManager.ringEmpty s.rm (Csr.toRing s.csr) = true ↔ HeadAtTail s := beq_iff_eq

theorem wasEmpty_step (s : CsrRing.State maxInflight) (i : CsrRing.In) :
    (CsrRing.step s i).rm.wasEmpty = false ↔
      ¬ HeadAtTail s ∧ i.rstN = true ∧ s.csr.ctrl.getLsbD 1 = false := by
  change (RingManager.step s.rm (CsrRing.rmIn s i)).wasEmpty = false ↔ _
  cases rstN : i.rstN with
  | false => simp [RingManager.step, CsrRing.rmIn, rstN, RingManager.resetState]
  | true =>
    cases reset : s.csr.ctrl.getLsbD 1 with
    | true => simp [RingManager.step_of_reset, CsrRing.rmIn, Csr.toRing, reset, RingManager.resetState]
    | false =>
      rw [RingManager.step_of_run (by exact rstN) (by exact reset)]
      simp [← ringEmpty_iff, CsrRing.rmIn]

theorem irqEmptySet_iff (is : List CsrRing.In) :
    irqEmptySet (run CsrRing.step (CsrRing.resetState maxInflight) is) = true ↔
      EmptyEdge (CsrRing.resetState maxInflight) is := by
  induction is using List.reverseRecOn with
  | nil => simp [irqEmptySet, RingManager.irqEmptySet, CsrRing.resetState, RingManager.resetState,
      EmptyEdge]
  | append_singleton before i _ =>
    have edge : EmptyEdge (CsrRing.resetState maxInflight) (before ++ [i]) ↔
        HeadAtTail (run CsrRing.step (CsrRing.resetState maxInflight) (before ++ [i])) ∧
          ¬ HeadAtTail (run CsrRing.step (CsrRing.resetState maxInflight) before) ∧
            i.rstN = true ∧
              (run CsrRing.step (CsrRing.resetState maxInflight) before).csr.ctrl.getLsbD 1
                = false := by
      constructor
      · rintro ⟨before', i', split, edge⟩
        obtain ⟨rfl, rfl⟩ : before = before' ∧ i = i' := by simpa using split
        exact edge
      · exact fun edge => ⟨before, i, rfl, edge⟩
    rw [edge, run_snoc, ← ringEmpty_iff, ← wasEmpty_step]
    simp only [irqEmptySet, RingManager.irqEmptySet, Bool.and_eq_true, Bool.not_eq_true']
    exact and_comm

/-! ## The sticky bits -/

/-- The shape shared by the sticky bits of the CSR block: reset, else event, else clear. -/
theorem latch_of_next {event : Csr.RingIn → Bool} {clear bit : Csr.State → Bool}
    (low : bit Csr.resetState = false)
    (next : ∀ s i, bit (Csr.next s i) =
      if Csr.softResets s i then false
      else if event i.ring then true
      else if clear s then false
      else bit s) :
    IsLatch CsrRing.step
      (fun (s : CsrRing.State maxInflight) i =>
        event (CsrRing.csrIn s i).ring = true ∧ Running s i)
      (fun s i => clear s.csr = false ∧ Running s i)
      (fun s => bit s.csr) := by
  intro s i
  show bit (CsrRing.step s i).csr = true ↔ _
  cases rstN : i.rstN with
  | false =>
    have held : (CsrRing.step s i).csr = Csr.resetState := by
      simp [CsrRing.step, Csr.step, CsrRing.csrIn, rstN]
    simp [held, low, Running, rstN]
  | true =>
    rw [CsrRing.csr_step_of_run rstN, next]
    cases quiet : Csr.softResets s.csr (CsrRing.csrIn s i) with
    | true => simp [Running, quiet]
    | false => cases pulse : event (CsrRing.csrIn s i).ring <;> simp [Running, rstN, quiet, pulse]

theorem irqEmpty_latch :
    IsLatch CsrRing.step EmptyPulse EmptyKept
      (fun s : CsrRing.State maxInflight => s.csr.irqEmpty) :=
  latch_of_next rfl Csr.next_irqEmpty

theorem irqError_latch :
    IsLatch CsrRing.step ErrorPulse ErrorKept
      (fun s : CsrRing.State maxInflight => s.csr.irqError) :=
  latch_of_next rfl Csr.next_irqError

theorem statusError_latch :
    IsLatch CsrRing.step ErrorPulse ErrorKept
      (fun s : CsrRing.State maxInflight => s.csr.statusError) :=
  latch_of_next rfl Csr.next_statusError

end IrqCauses

open IrqCauses in
/-- No interrupt cause is lost or invented.  After any run: the empty pulse is up
    exactly at an edge of HEAD = TAIL outside the resets, and each sticky bit exactly if a
    pulse came at or after the last clear of its bit and after the last reset. -/
theorem interrupt_causes {maxInflight : Nat} (is : List CsrRing.In) :
    let start := CsrRing.resetState maxInflight
    let s := run CsrRing.step start is
    (RingManager.irqEmptySet s.rm (Csr.toRing s.csr) = true ↔ EmptyEdge start is) ∧
      (s.csr.irqEmpty = true ↔ HeldSince CsrRing.step EmptyPulse EmptyKept start is) ∧
        (s.csr.irqError = true ↔ HeldSince CsrRing.step ErrorPulse ErrorKept start is) ∧
          (s.csr.statusError = true ↔ HeldSince CsrRing.step ErrorPulse ErrorKept start is) :=
  ⟨irqEmptySet_iff is, irqEmpty_latch.run_iff rfl is, irqError_latch.run_iff rfl is,
    statusError_latch.run_iff rfl is⟩

end AxiDma.Verified
