import AxiDma.Verified.RingRun

/-! # Start and wait

The part of `CMD_RUN_DMA` that the DMA works under, on the CSR block and its core: ENABLE is written
over CTRL, the first loop polls for BUSY and the second for the end.  A descriptor that is done before
the first poll costs the first loop all its turns, and nothing else.
-/

namespace AxiDma.Verified

open AxiDma.Lib AxiDma.Rtl AxiDma.Firmware

namespace CsrCore

variable {k addrWidth : Nat} {ring : PostedRing} {bram : BitVec addrWidth → Word}
  {tail ctrl : Word} {s : CsrCore k addrWidth} {r r' : Csr.Regs} {i : Delays} {op : Option Op} {d : Nat}

/-! ## The loops of `CMD_RUN_DMA` -/

/-- The first loop ends by itself, whether or not BUSY shows. -/
theorem ensures_waitBusy (offers : Offers k addrWidth ring tail) (turns : Nat) {status : Word}
    (noError : status &&& statusError = 0) (waits : Waits ring bram tail ctrl d s) (noData : s.csr.rvalid = false) :
    Ensures (device k addrWidth ring.memWords)
      (fun status s => (Waits ring bram tail ctrl d s ∧ s.csr.rvalid = false) ∧ status &&& statusError = 0)
      (2 * turns) ⟨s, waitBusy turns status⟩ := by
  have kept (status : Word) (s : CsrCore k addrWidth) (i : Delays)
      (holds : (Waits ring bram tail ctrl d s ∧ s.csr.rvalid = false) ∧ status &&& statusError = 0) :
      (Waits ring bram tail ctrl d (CsrCore.step ring.memWords s i none) ∧
        (CsrCore.step ring.memWords s i none).csr.rvalid = false) ∧ status &&& statusError = 0 :=
    ⟨⟨(holds.1.1.step offers (show Reads none from trivial)).mono (Nat.sub_le d 1),
      rvalid_step holds.1.2 (by simp)⟩, holds.2⟩
  induction turns generalizing s status with
  | zero => exact Ensures.done (kept _) ⟨⟨waits, noData⟩, noError⟩
  | succ turns ih =>
    refine ((ensures_status offers waits noData).bind (n := 2 * turns) fun v s after => ?_).within (by omega)
    obtain ⟨waits, polled, noData⟩ := after
    split
    · exact Ensures.done (kept _) ⟨⟨waits, noData⟩, polled.noError⟩
    · exact ih polled.noError waits noData

/-- What the second loop ends with: it runs out only if the DMA may take that many cycles. -/
def Ended (ring : PostedRing) (bram : BitVec addrWidth → Word) (tail ctrl : Word) (turns d : Nat)
    (out : Nat × Word) (s : CsrCore k addrWidth) : Prop :=
  s.csr.rvalid = false ∧ out.2 &&& statusError = 0 ∧
    (out.1 ≠ 0 ∧ Finished ring bram tail ctrl s ∨ out.1 = 0 ∧ turns ≤ d)

theorem Ended.step {turns : Nat} {out : Nat × Word} (ended : Ended ring bram tail ctrl turns d out s)
    (offers : Offers k addrWidth ring tail) (i : Delays) :
    Ended ring bram tail ctrl turns d out (CsrCore.step ring.memWords s i none) := by
  obtain ⟨noData, noError, ends⟩ := ended
  refine ⟨rvalid_step noData (by simp), noError, ?_⟩
  cases ends with
  | inl finished => exact .inl ⟨finished.1, finished.2.step offers trivial⟩
  | inr gone => exact .inr gone

/-- By induction on the polls that are left, as `wait_for_dma_done`. -/
theorem ensures_waitDone (offers : Offers k addrWidth ring tail) (turns : Nat) {status : Word}
    (noError : status &&& statusError = 0) (waits : Waits ring bram tail ctrl d s) (noData : s.csr.rvalid = false) :
    Ensures (device k addrWidth ring.memWords) (Ended ring bram tail ctrl turns d) (2 * d + 2)
      ⟨s, waitDone turns status⟩ := by
  -- one poll uses up a turn and, if the core is still busy, one of its prompt cycles
  induction turns generalizing d s status with
  | zero =>
    exact Ensures.done (fun s i ended => ended.step offers i) ⟨noData, noError, .inr ⟨rfl, Nat.zero_le d⟩⟩
  | succ turns ih =>
    refine ((ensures_status offers waits noData).bind (n := 2 * d) fun v s after => ?_).within (by omega)
    obtain ⟨-, polled, noData⟩ := after
    rw [if_neg (not_not.mpr polled.noError)]
    by_cases shows' : v &&& statusEmpty ≠ 0 ∧ v &&& statusBusy = 0
    · rw [if_pos shows']
      exact Ensures.done (fun s i ended => ended.step offers i)
        ⟨noData, polled.noError, .inl ⟨Nat.succ_ne_zero turns, polled.idle shows'⟩⟩
    · rw [if_neg shows']
      obtain ⟨d', less, waits⟩ := polled.busy shows'
      refine (ih polled.noError waits noData).mono (fun out s ended => ?_) (by omega)
      exact ⟨ended.1, ended.2.1, ended.2.2.imp id fun gone => ⟨gone.1, by omega⟩⟩

/-! ## Start and wait -/

/-- The ring is posted, and CTRL is 0 and reads 0. -/
structure Armed (ring : PostedRing) (bram : BitVec addrWidth → Word) (tail : Word) (s : CsrCore k addrWidth) :
    Prop where
  between : Between ring bram tail { baseaddr := ring.baseaddr, ringlen := ring.ringlen, tail, ctrl := 0 } s
  noReadback : s.csr.ctrlReadbackData = 0

theorem Armed.step (armed : Armed ring bram tail s) (offers : Offers k addrWidth ring tail) (reads : Reads op) :
    Armed ring bram tail (step ring.memWords s i op) where
  between := armed.between.step offers reads
  noReadback := by
    rw [csr_step, Csr.next_ctrlReadbackData, Csr.commitsTo, armed.between.unwritten.commits]
    exact armed.noReadback

theorem Armed.ctrlView (armed : Armed ring bram tail s) (ringIn : Csr.RingIn) :
    Csr.readData s.csr ringIn Csr.regCtrl = 0 := by
  have ctrl : s.csr.ctrl = 0 := congrArg Csr.Regs.ctrl armed.between.sound.regs
  change Csr.ctrlView s.csr = 0
  rw [Csr.ctrlView, armed.noReadback, ctrl]
  split <;> rfl

/-- ENABLE over what CTRL holds, then both loops. -/
def enableAndWait : Prog (Nat × Word) := do
  let ctrl ← in32 (csrAccessBase + csrRegCtrl)
  out32 (csrAccessBase + csrRegCtrl) (ctrl ||| ctrlEnable)
  let status ← waitBusy 10000 0
  waitDone 10000000 status

theorem ensures_enableAndWait (offers : Offers k addrWidth ring tail) (armed : Armed ring bram tail s)
    (noData : s.csr.rvalid = false) :
    Ensures (device k addrWidth ring.memWords)
      (Ended ring bram tail ctrlEnable 10000000 (ClosedCore.drains tail.toNat))
      (2 * ClosedCore.drains tail.toNat + 20007) ⟨s, enableAndWait⟩ := by
  -- the read of CTRL answers 0, so the write is ENABLE alone
  have offset : (csrAccessBase + csrRegCtrl).setWidth 8 = Csr.regCtrl := by decide
  have read : Ensures (device k addrWidth ring.memWords)
      (fun v s => Armed ring bram tail s ∧ v = 0 ∧ s.csr.rvalid = false) 2
      ⟨s, in32 (csrAccessBase + csrRegCtrl)⟩ := by
    refine ensures_in32 (fun s i op reads armed => armed.step offers reads) (fun s i armed => ?_)
      (fun _ _ _ _ _ _ known => known) armed noData
    rw [offset]
    exact armed.ctrlView _
  refine (read.bind (n := 2 * ClosedCore.drains tail.toNat + 20005) fun v s after => ?_).within (by omega)
  obtain ⟨armed, rfl, noData⟩ := after
  have written : Csr.Regs.write { baseaddr := ring.baseaddr, ringlen := ring.ringlen, tail, ctrl := 0 }
      (csrAccessBase + csrRegCtrl, 0 ||| ctrlEnable, 15) =
        { baseaddr := ring.baseaddr, ringlen := ring.ringlen, tail, ctrl := ctrlEnable } :=
    Csr.Regs.write_of_ctrl _ _ offset
  have posted : Posted ring tail { baseaddr := ring.baseaddr, ringlen := ring.ringlen, tail, ctrl := 0 } :=
    ⟨rfl, rfl, rfl, BitVec.getLsbD_zero⟩
  have started : Posted ring tail { baseaddr := ring.baseaddr, ringlen := ring.ringlen, tail, ctrl := ctrlEnable } :=
    ⟨rfl, rfl, rfl, show ctrlEnable.getLsbD 1 = false by decide⟩
  have allowed : Allowed ring tail { baseaddr := ring.baseaddr, ringlen := ring.ringlen, tail, ctrl := 0 }
      (csrAccessBase + csrRegCtrl) (0 ||| ctrlEnable) := by
    refine ⟨fun other => absurd other (by decide), .inr ⟨posted, ?_⟩⟩
    rw [written]
    exact started
  refine ((ensures_csrWrite offers allowed written armed.between noData).bind
    (n := 2 * ClosedCore.drains tail.toNat + 20002) fun _ s w => ?_).within (by omega)
  -- from here on nothing is written any more, and the core only drains
  have waits := w.waits offers started (show ctrlEnable.getLsbD 0 = true by decide) (by decide)
  refine ((ensures_waitBusy offers 10000 (by decide) waits w.noData).bind
    (n := 2 * ClosedCore.drains tail.toNat + 2) fun status s after => ?_).within (by omega)
  obtain ⟨⟨waits, noData⟩, noError⟩ := after
  exact ensures_waitDone offers 10000000 noError waits noData

end CsrCore

end AxiDma.Verified
