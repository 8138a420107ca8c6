import AxiDma.Lib.Run
import AxiDma.Rtl.CsrRing
import AxiDma.Verified.CsrFields

/-! # A reported error halts the engine

IRQ_CLEAR[1] clears STATUS.ERROR when it commits, but the ring manager's flag only in the
cycle after the B handshake, by `error_clear`, which wins over a `df_error` there.  So an
error that comes in between is shown by STATUS and halts nothing
(`resumes_with_error`).  An error at any other time halts the engine until software
clears it (`halted_until_cleared`).
-/

namespace AxiDma.Verified

open AxiDma.Lib AxiDma.Rtl

namespace ErrorHalt

variable {maxInflight : Nat}

/-- No reset of either kind. -/
def Legal (s : CsrRing.State maxInflight) (i : CsrRing.In) : Prop :=
  i.rstN = true ∧ s.csr.ctrl.getLsbD 1 = false

instance (s : CsrRing.State maxInflight) (i : CsrRing.In) : Decidable (Legal s i) :=
  inferInstanceAs (Decidable (_ ∧ _))

/-- An IRQ_CLEAR[1] commits, or its `error_clear` has not passed the ring manager yet. -/
def clearing (s : CsrRing.State maxInflight) : Bool :=
  Csr.irqClearPulseError s.csr || s.csr.irqClearErrorPending || s.csr.ringMgrErrorClear

/-- No IRQ_CLEAR[1] commits. -/
def Uncleared (s : CsrRing.State maxInflight) (_ : CsrRing.In) : Prop :=
  Csr.irqClearPulseError s.csr = false

instance (s : CsrRing.State maxInflight) (i : CsrRing.In) : Decidable (Uncleared s i) :=
  inferInstanceAs (Decidable (_ = _))

/-- The ring manager's flag is up and nothing is on its way to take it down. -/
structure Halted (s : CsrRing.State maxInflight) : Prop where
  flag : s.rm.intStatusError = true
  noPending : s.csr.irqClearErrorPending = false
  noClear : s.csr.ringMgrErrorClear = false

variable {s : CsrRing.State maxInflight} {i : CsrRing.In}

theorem Halted.fetchReqValid (halted : Halted s) :
    RingManager.fetchReqValid s.rm (Csr.toRing s.csr) = false := by
  simp [RingManager.fetchReqValid, halted.flag]

/-- Without an IRQ_CLEAR[1] on its way, none is on its way after the cycle. -/
theorem no_clear_step (legal : Legal s i) (noPending : s.csr.irqClearErrorPending = false)
    (uncleared : Csr.irqClearPulseError s.csr = false) :
    (CsrRing.step s i).csr.irqClearErrorPending = false ∧
      (CsrRing.step s i).csr.ringMgrErrorClear = false := by
  obtain ⟨rstN, noReset⟩ := legal
  have quiet : Csr.softResets s.csr (CsrRing.csrIn s i) = false :=
    Csr.softResets_of_noReset noReset
  rw [CsrRing.csr_step_of_run rstN, Csr.next_irqClearErrorPending, Csr.next_ringMgrErrorClear,
    noPending, uncleared, quiet]
  simp

theorem flag_step (legal : Legal s i) :
    (CsrRing.step s i).rm.intStatusError =
      RingManager.intStatusErrorNext s.rm (CsrRing.rmIn s i) :=
  congrArg RingManager.State.intStatusError (RingManager.step_of_run legal.1 legal.2)

/-- An error outside the gap of a clear halts the engine. -/
theorem halted_of_error (legal : Legal s i) (error : i.dfError = true)
    (apart : clearing s = false) : Halted (CsrRing.step s i) := by
  simp only [clearing, Bool.or_eq_false_iff] at apart
  obtain ⟨⟨uncleared, noPending⟩, noClear⟩ := apart
  -- `error_clear` would win over `df_error` in the same cycle, but none is on its way
  obtain ⟨pendingNext, clearNext⟩ := no_clear_step legal noPending uncleared
  refine ⟨?_, pendingNext, clearNext⟩
  rw [flag_step legal]
  simp [RingManager.intStatusErrorNext, CsrRing.rmIn, Csr.toRing, noClear, error]

/-- It stays halted until an IRQ_CLEAR[1] commits. -/
theorem Halted.step (halted : Halted s) (legal : Legal s i) (uncleared : Uncleared s i) :
    Halted (CsrRing.step s i) := by
  obtain ⟨pendingNext, clearNext⟩ := no_clear_step legal halted.noPending uncleared
  refine ⟨?_, pendingNext, clearNext⟩
  rw [flag_step legal]
  simp [RingManager.intStatusErrorNext, CsrRing.rmIn, Csr.toRing, halted.noClear, halted.flag]

end ErrorHalt

/-- An error halts the engine until it is cleared.  In every run without a reset: if a
    `df_error` pulse comes while no IRQ_CLEAR[1] is under way, no fetch request is valid
    in any later cycle up to the one in which the next IRQ_CLEAR[1] commits. -/
theorem halted_until_cleared {maxInflight : Nat} {is js : List CsrRing.In} {i : CsrRing.In}
    (runs : LegalRun CsrRing.step ErrorHalt.Legal (CsrRing.resetState maxInflight)
      (is ++ i :: js))
    (error : i.dfError = true)
    (apart : ErrorHalt.clearing (run CsrRing.step (CsrRing.resetState maxInflight) is) = false)
    (uncleared : LegalRun CsrRing.step ErrorHalt.Uncleared
      (run CsrRing.step (CsrRing.resetState maxInflight) (is ++ [i])) js) :
    let s := run CsrRing.step (CsrRing.resetState maxInflight) (is ++ i :: js)
    RingManager.fetchReqValid s.rm (Csr.toRing s.csr) = false := by
  -- the pulse sets the flag, and the cycles after it keep it
  obtain ⟨-, pulse, after⟩ := legalRun_append.mp runs
  have start := ErrorHalt.halted_of_error pulse error apart
  rw [run_snoc] at uncleared
  have halted := (after.and uncleared).invariant (P := ErrorHalt.Halted)
    (fun _ _ halted both => halted.step both.1 both.2) start
  intro s
  have reached : s = run CsrRing.step
      (CsrRing.step (run CsrRing.step (CsrRing.resetState maxInflight) is) i) js :=
    run_append _ is (i :: js)
  rw [reached]
  exact halted.fetchReqValid

/-! ## An error in the gap -/

namespace ErrorHalt

/-- A cycle of the bus with a fetcher that is ready only if `ready`. -/
def cycle (ready dfError : Bool) (bus : AxiLiteMaster) : CsrRing.In :=
  { rstN := true, bus := bus, fetchReqReady := ready, asDone := false, dfError := dfError }

/-- RINGLEN 8, TAIL 4 and ENABLE, until two requests are accepted. -/
def twoAccepted : List CsrRing.In :=
  (Csr.writeCycles Csr.regRinglen 8 ++ Csr.writeCycles Csr.regTail 4 ++
    Csr.writeCycles Csr.regCtrl 1).map (cycle true false) ++ [cycle true false Csr.busIdle]

/-- The first request fails, and nothing is cleared for two cycles. -/
theorem halted_after_error :
    let s := run CsrRing.step (CsrRing.resetState 4)
      (twoAccepted ++ cycle true true Csr.busIdle :: [cycle true false Csr.busIdle])
    RingManager.fetchReqValid s.rm (Csr.toRing s.csr) = false :=
  halted_until_cleared (by decide) (by decide) (by decide) (by decide)

/-- The first request fails, software writes IRQ_CLEAR[1], and the write commits. -/
def clearCommitted : List CsrRing.In :=
  twoAccepted ++ [cycle false true Csr.busIdle] ++
    ((Csr.writeCycles Csr.regIrqClear 2).take 2).map (cycle false false)

/-- The second request fails before the B handshake of the clear: STATUS shows the error,
    and the engine goes on without another clear. -/
theorem resumes_with_error :
    let is := clearCommitted
    let i := cycle false true Csr.busIdle
    let js := [cycle false false { Csr.busIdle with bready := true }, cycle false false Csr.busIdle]
    let s := run CsrRing.step (CsrRing.resetState 4) (is ++ i :: js)
    LegalRun CsrRing.step Legal (CsrRing.resetState 4) (is ++ i :: js) ∧
      LegalRun CsrRing.step Uncleared (run CsrRing.step (CsrRing.resetState 4) (is ++ [i])) js ∧
        i.dfError = true ∧ s.csr.statusError = true ∧
          RingManager.fetchReqValid s.rm (Csr.toRing s.csr) = true := by decide

end ErrorHalt

end AxiDma.Verified
