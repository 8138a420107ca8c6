import AxiDma.Verified.CsrCore

/-! # A TAIL past the end of the ring

HEAD wraps at RINGLEN, so it never comes to a TAIL that is not an index of the ring, and the ring
never shows empty.  A test that posts all slots of its ring in this way waits in vain, whatever the
memories hold and however long it waits.
-/

namespace AxiDma.Verified

open AxiDma.Lib AxiDma.Rtl AxiDma.Firmware

namespace CsrCore

variable {k addrWidth memWords : Nat} {ringLen tail : Word} {s : CsrCore k addrWidth} {r : Csr.Regs}
  {i : Delays} {op : Option Op}

/-- Once ENABLE is set RINGLEN and TAIL have their values; no RESET. -/
structure SetUp (ringLen tail : Word) (r : Csr.Regs) : Prop where
  noReset : r.ctrl.getLsbD 1 = false
  enabled : r.ctrl.getLsbD 0 = true → r.ringlen = ringLen ∧ r.tail = tail

/-- HEAD is an index of the ring. -/
structure InRing (ringLen tail : Word) (r : Csr.Regs) (s : CsrCore k addrWidth) : Prop where
  regs : Csr.regs s.csr = r
  setUp : SetUp ringLen tail r
  head : s.core.pipe.core.rm.head = 0 ∨ s.core.pipe.core.rm.head < ringLen

theorem InRing.noReset (inRing : InRing ringLen tail r s) : s.csr.ctrl.getLsbD 1 = false := by
  have ctrl : s.csr.ctrl = r.ctrl := congrArg Csr.Regs.ctrl inRing.regs
  rw [ctrl]
  exact inRing.setUp.noReset

theorem next_lt {head len : Word} (some : 0 < len) (inRing : head = 0 ∨ head < len) (inside : head ≠ len - 1) :
    head + 1 < len := by
  rcases inRing with rfl | less <;> bv_omega

theorem InRing.head_step (inRing : InRing ringLen tail r s) :
    (step memWords s i op).core.pipe.core.rm.head = 0 ∨
      (step memWords s i op).core.pipe.core.rm.head < ringLen := by
  have noReset : (Csr.toRing s.csr).reset = false := inRing.noReset
  have next : (step memWords s i op).core.pipe.core.rm = RingManager.step s.core.pipe.core.rm
      (DmaCore.rmIn s.core.pipe.core (s.core.coreIn memWords (Csr.toRing s.csr))) := rfl
  rw [next, RingManager.step_of_run rfl noReset]
  change RingManager.headPtrNext _ _ = 0 ∨ RingManager.headPtrNext _ _ < ringLen
  unfold RingManager.headPtrNext
  split
  · rename_i asks
    obtain ⟨-, enable, some, -⟩ := RingManager.fetchHs_iff.mp asks
    have enabled : r.ctrl.getLsbD 0 = true := by
      rw [← congrArg Csr.Regs.ctrl inRing.regs]
      exact enable
    have length : s.csr.ringlen = ringLen :=
      (congrArg Csr.Regs.ringlen inRing.regs).trans (inRing.setUp.enabled enabled).1
    have same : (DmaCore.rmIn s.core.pipe.core (s.core.coreIn memWords (Csr.toRing s.csr))).csr.ringlen =
        ringLen := length
    rw [same] at some ⊢
    split
    · exact .inl rfl
    · rename_i inside
      exact .inr (next_lt some inRing.head inside)
  · exact inRing.head

/-- The writes of a set-up. -/
def Sets (ringLen tail : Word) (r : Csr.Regs) (addr data : Word) : Prop :=
  SetUp ringLen tail (r.write (addr, data, 15))

theorem family_inRing :
    Family memWords (Sets ringLen tail) (@InRing k addrWidth ringLen tail) where
  holds r s i op noCommit inRing :=
    { regs := by
        rw [csr_step, Csr.regs_next, Csr.softResets_of_noReset inRing.noReset, noCommit, inRing.regs]
        rfl
      setUp := inRing.setUp
      head := inRing.head_step }
  writes r s i op addr data commits toAddr toData full sets inRing :=
    { regs := by
        rw [csr_step, Csr.regs_next, Csr.softResets_of_noReset inRing.noReset, commits, inRing.regs, toAddr,
          toData, full]
        rfl
      setUp := sets
      head := inRing.head_step }
  noReset _ _ inRing := inRing.noReset

/-! ## The wait -/

/-- The DMA works on the ring, and only reads come over the bus. -/
structure Circles (ringLen tail : Word) (r : Csr.Regs) (s : CsrCore k addrWidth) : Prop where
  inRing : InRing ringLen tail r s
  unwritten : Unwritten s.csr

theorem Circles.step (circles : Circles ringLen tail r s) (reads : Reads op) :
    Circles ringLen tail r (step memWords s i op) :=
  ⟨family_inRing.holds r s i op circles.unwritten.commits circles.inRing, circles.unwritten.step reads⟩

theorem Circles.notEmpty (circles : Circles ringLen tail r s) (enabled : r.ctrl.getLsbD 0 = true)
    (pos : tail ≠ 0) (past : ringLen ≤ tail) :
    RingManager.ringEmpty s.core.pipe.core.rm (Csr.toRing s.csr) = false := by
  have same : (Csr.toRing s.csr).tail = tail :=
    (congrArg Csr.Regs.tail circles.inRing.regs).trans (circles.inRing.setUp.enabled enabled).2
  rw [RingManager.ringEmpty, same, beq_eq_false_iff_ne]
  rcases circles.inRing.head with head | head
  · rw [head]
    exact pos.symm
  · rintro rfl
    exact absurd (BitVec.lt_def.mp head) (Nat.not_lt.mpr (BitVec.le_def.mp past))

theorem ensures_never (enabled : r.ctrl.getLsbD 0 = true) (pos : tail ≠ 0) (past : ringLen ≤ tail)
    (timeout : Nat) (circles : Circles ringLen tail r s) (noData : s.csr.rvalid = false) :
    Ensures (device k addrWidth memWords) (fun done _ => done = false) (2 * timeout + 4)
      ⟨s, waitForDmaDone timeout⟩ := by
  have kept (s : CsrCore k addrWidth) (i : Delays) (op : Option Op) (reads : Reads op)
      (circles : Circles ringLen tail r s) : Circles ringLen tail r (step memWords s i op) :=
    circles.step reads
  have gives {s : CsrCore k addrWidth} {n : Nat} :
      Ensures (device k addrWidth memWords) (fun done _ => done = false) n ⟨s, pure false⟩ :=
    Ensures.done (fun _ _ known => known) rfl
  induction timeout generalizing s with
  | zero =>
    exact ((ensures_xilPrintf kept circles noData _ _).bind (n := 3) fun _ _ _ => gives).within (Nat.le_refl 4)
  | succ timeout ih =>
    have polled : Ensures (device k addrWidth memWords)
        (fun v s => Circles ringLen tail r s ∧ v &&& statusEmpty = 0 ∧ s.csr.rvalid = false) 2
        ⟨s, csrRead csrRegStatus⟩ :=
      ensures_in32 kept (fun s i circles => by
        have offset : (csrAccessBase + csrRegStatus).setWidth 8 = Csr.regStatus := by decide
        have bit := Csr.statusWord_ringEmpty s.csr
          (s.csrIn memWords (bus i (some (.in32 (csrAccessBase + csrRegStatus))))).ring
        rw [offset, Csr.readData_status, show statusEmpty = BitVec.twoPow 32 1 from rfl,
          and_bit_eq_zero _ (by decide), bit]
        exact circles.notEmpty enabled pos past)
      (fun _ _ _ _ _ _ known => known) circles noData
    refine (polled.bind (n := 2 * timeout + 4) fun v s after => ?_).within (by omega)
    obtain ⟨circles, full, noData⟩ := after
    split
    · -- an error ends the wait as well
      refine ((ensures_in32 (V := fun _ _ => True) kept (fun _ _ _ => trivial) (fun _ _ _ _ _ _ _ => trivial)
        circles noData).bind (n := 1) fun irq s after => ?_).within (by omega)
      exact ((ensures_xilPrintf kept after.1 after.2.2 _ _).bind (n := 0) fun _ _ _ => gives)
    · rw [if_neg fun shows' => shows'.1 full]
      exact ih circles noData

/-! ## The set-up -/

theorem Written.circles {addr : Word} (written : Written (InRing ringLen tail) r addr s) :
    Circles ringLen tail r s := ⟨written.holds, written.unwritten⟩

theorem ensures_set {offset data : Word} {r' : Csr.Regs}
    (written : r.write (csrAccessBase + offset, data, 15) = r') (sets : SetUp ringLen tail r')
    (circles : Circles ringLen tail r s) (noData : s.csr.rvalid = false) :
    Ensures (device k addrWidth memWords)
      (fun _ => Written (InRing ringLen tail) r' (csrAccessBase + offset)) 3 ⟨s, csrWrite offset data⟩ := by
  subst written
  exact ensures_out32 family_inRing sets circles.inRing circles.unwritten noData

end CsrCore

open CsrCore

/-- A TAIL past the ring never drains.  From any state between two accesses with CTRL 0 and HEAD an index
    of the ring, or 0, a test that sets TAIL to RINGLEN or above and not to 0, so to post every slot of its
    ring, reports a failure: whatever the memories and the descriptors are and whatever the delays, after
    as many polls as it allows. -/
theorem tail_past_ring {k addrWidth memWords : Nat} {ringBase ringLen tail : Word} (pos : tail ≠ 0)
    (past : ringLen ≤ tail) {s : CsrCore k addrWidth} (zero : s.csr.ctrl = 0)
    (head : s.core.pipe.core.rm.head = 0 ∨ s.core.pipe.core.rm.head < ringLen) (unwritten : Unwritten s.csr)
    (noData : s.csr.rvalid = false) (timeout : Nat) :
    Ensures (device k addrWidth memWords) (fun done _ => done = false) (2 * timeout + 19)
      ⟨s, runRing ringBase ringLen tail timeout⟩ := by
  obtain ⟨baseaddr, length', tail', ctrl', regs⟩ :
      ∃ baseaddr length tail ctrl, Csr.regs s.csr = ⟨baseaddr, length, tail, ctrl⟩ := ⟨_, _, _, _, rfl⟩
  obtain rfl : ctrl' = 0 := (congrArg Csr.Regs.ctrl regs).symm.trans zero
  have clear : Csr.Regs.write ⟨baseaddr, length', tail', 0⟩
      (csrAccessBase + csrRegIrqClear, irqEmptyBit ||| irqErrorBit, 15) = ⟨baseaddr, length', tail', 0⟩ :=
    Csr.Regs.write_of_irqClear _ _ (by decide)
  have base : Csr.Regs.write ⟨baseaddr, length', tail', 0⟩ (csrAccessBase + csrRegBaseaddr, ringBase, 15) =
      ⟨ringBase, length', tail', 0⟩ := Csr.Regs.write_of_baseaddr _ _ (by decide)
  have length : Csr.Regs.write ⟨ringBase, length', tail', 0⟩ (csrAccessBase + csrRegRinglen, ringLen, 15) =
      ⟨ringBase, ringLen, tail', 0⟩ := Csr.Regs.write_of_ringlen _ _ (by decide)
  have post : Csr.Regs.write ⟨ringBase, ringLen, tail', 0⟩ (csrAccessBase + csrRegTail, tail, 15) =
      ⟨ringBase, ringLen, tail, 0⟩ := Csr.Regs.write_of_tail _ _ (by decide)
  have ctrl : Csr.Regs.write ⟨ringBase, ringLen, tail, 0⟩
      (csrAccessBase + csrRegCtrl, ctrlEnable ||| ctrlIrqEn, 15) =
        ⟨ringBase, ringLen, tail, ctrlEnable ||| ctrlIrqEn⟩ := Csr.Regs.write_of_ctrl _ _ (by decide)
  have off {r : Csr.Regs} (zero : r.ctrl = 0) : SetUp ringLen tail r := by
    constructor <;> rw [zero]
    · rfl
    · intro one
      exact absurd one (by decide)
  have running : SetUp ringLen tail ⟨ringBase, ringLen, tail, ctrlEnable ||| ctrlIrqEn⟩ :=
    ⟨show (ctrlEnable ||| ctrlIrqEn).getLsbD 1 = false by decide, fun _ => ⟨rfl, rfl⟩⟩
  have begun : Circles ringLen tail ⟨baseaddr, length', tail', 0⟩ s := ⟨⟨regs, off rfl, head⟩, unwritten⟩
  refine ((ensures_set clear (off rfl) begun noData).bind (n := 2 * timeout + 16) fun _ s w => ?_).within (by omega)
  refine ((ensures_set base (off rfl) w.circles w.noData).bind (n := 2 * timeout + 13) fun _ s w => ?_).within (by omega)
  refine ((ensures_set length (off rfl) w.circles w.noData).bind (n := 2 * timeout + 10) fun _ s w => ?_).within (by omega)
  refine ((ensures_set post (off rfl) w.circles w.noData).bind (n := 2 * timeout + 7) fun _ s w => ?_).within (by omega)
  refine ((ensures_set ctrl running w.circles w.noData).bind (n := 2 * timeout + 4)
    fun _ s w => ?_).within (by omega)
  have enabled : (ctrlEnable ||| ctrlIrqEn).getLsbD 0 = true := by decide
  exact ensures_never enabled pos past timeout w.circles w.noData

/-- After hard reset: the ring of `test_data_patterns` has five slots, and TAIL is 5. -/
theorem tail_past_ring_data_patterns : (5 : Word) ≠ 0 ∧
    Ensures (device 6 3 32) (fun done _ => done = false) (2 * 1000000 + 19)
      ⟨⟨Csr.resetState, ClosedCore.start (zeroed 6 3) (ClosedCore.handedOver ClosedCore.thereAndBack)⟩,
        runRing 0x800 5 5 1000000⟩ :=
  ⟨by decide, tail_past_ring (by decide) (by decide) rfl (.inl rfl) ⟨⟨rfl, rfl, rfl⟩, rfl⟩ rfl 1000000⟩

end AxiDma.Verified
