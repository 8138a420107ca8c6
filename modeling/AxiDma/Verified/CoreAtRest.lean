import AxiDma.Verified.CoreDrains

/-! # The core before the first request and after the last

Before ENABLE the core waits, whatever BASEADDR and RINGLEN hold (`Ready`).  While the CSR side is at
rest the ring gets empty once and stays so, which is one completion interrupt.
-/

namespace AxiDma.Verified

open AxiDma.Lib AxiDma.Rtl

namespace ClosedCore

variable {k addrWidth memWords : Nat} {ring : PostedRing} {bram : BitVec addrWidth → Word}
  {r : ClosedCore k addrWidth} {csr : RingManager.CsrIn} {target : Nat}

/-! ## Without ENABLE -/

theorem fetchReqValid_of_disabled {n : Nat} (rm : RingManager.State n) (disabled : csr.enable = false) :
    RingManager.fetchReqValid rm csr = false := by
  simp [RingManager.fetchReqValid, disabled]

theorem df_next_of_no_request {s : DescriptorFetcher.State} {i : DescriptorFetcher.In}
    (none : i.fetchReqValid = false) (a : Word) :
    DescriptorFetcher.next s { i with rmDfAddr := a } = DescriptorFetcher.next s i := by
  have idle : DescriptorFetcher.takesReq i = false := by simp [DescriptorFetcher.takesReq, none]
  have idle' : DescriptorFetcher.takesReq { i with rmDfAddr := a } = false := idle
  simp only [DescriptorFetcher.next, idle, idle', Bool.false_eq_true, if_false]
  rfl

theorem fetchHs_of_disabled {n : Nat} (rm : RingManager.State n) {i : RingManager.In}
    (disabled : i.csr.enable = false) : RingManager.fetchHs rm i = false := by
  rw [RingManager.fetchHs, fetchReqValid_of_disabled rm disabled, Bool.false_and]

/-- The ring manager looks at BASEADDR and RINGLEN for a request only. -/
theorem rm_step_of_disabled {n : Nat} (rm : RingManager.State n) {i : RingManager.In}
    (disabled : i.csr.enable = false) (baseaddr ringlen : Word) :
    RingManager.step rm { i with csr := { i.csr with baseaddr := baseaddr, ringlen := ringlen } } =
      RingManager.step rm i := by
  have none := fetchHs_of_disabled rm disabled
  have none' := fetchHs_of_disabled rm
    (i := { i with csr := { i.csr with baseaddr := baseaddr, ringlen := ringlen } }) disabled
  simp only [RingManager.step, RingManager.headPtrNext, RingManager.inflightCountNext, none, none']
  rfl

/-- While ENABLE is clear, what BASEADDR and RINGLEN hold is of no consequence. -/
theorem step_of_disabled (disabled : csr.enable = false) (same : csr.tail = r.posting.tail)
    (baseaddr ringlen : Word) :
    r.step memWords { csr with baseaddr := baseaddr, ringlen := ringlen } = r.step memWords csr := by
  obtain ⟨csr', eq⟩ : ∃ csr', csr' = { csr with baseaddr := baseaddr, ringlen := ringlen } := ⟨_, rfl⟩
  rw [← eq]
  have disabled' : csr'.enable = false := by rw [eq]; exact disabled
  have same' : csr'.tail = r.posting.tail := by rw [eq]; exact same
  have rm {n : Nat} (s : RingManager.State n) : RingManager.step s (DmaCore.rmIn r.pipe.core (r.coreIn memWords csr')) =
      RingManager.step s (DmaCore.rmIn r.pipe.core (r.coreIn memWords csr)) := by
    rw [eq]
    exact rm_step_of_disabled s (i := DmaCore.rmIn r.pipe.core (r.coreIn memWords csr)) disabled baseaddr ringlen
  have mt : MovementTop.step r.pipe.core.mt (DmaCore.mtIn r.pipe.core (r.coreIn memWords csr')) =
      MovementTop.step r.pipe.core.mt (DmaCore.mtIn r.pipe.core (r.coreIn memWords csr)) := by
    have valid' := fetchReqValid_of_disabled r.pipe.core.rm disabled'
    have valid := fetchReqValid_of_disabled r.pipe.core.rm disabled
    have df := df_next_of_no_request (s := r.pipe.core.mt.df)
      (i := MovementTop.dfIn r.pipe.core.mt (DmaCore.mtIn r.pipe.core (r.coreIn memWords csr)))
      valid (RingManager.rmDfAddr r.pipe.core.rm csr')
    have input : MovementTop.dfIn r.pipe.core.mt (DmaCore.mtIn r.pipe.core (r.coreIn memWords csr')) =
        { MovementTop.dfIn r.pipe.core.mt (DmaCore.mtIn r.pipe.core (r.coreIn memWords csr)) with
          rmDfAddr := RingManager.rmDfAddr r.pipe.core.rm csr' } := by
      simp only [MovementTop.dfIn, DmaCore.mtIn, coreIn, valid, valid']
    rw [← input] at df
    rw [MovementTop.step, df]
    rfl
  have hs : DmaCore.fetchHs r.pipe.core (r.coreIn memWords csr) = false := fetchHs_of_disabled _ disabled
  have hs' : DmaCore.fetchHs r.pipe.core (r.coreIn memWords csr') = false := fetchHs_of_disabled _ disabled'
  have pipe : r.pipe.step (r.coreIn memWords csr') = r.pipe.step (r.coreIn memWords csr) := by
    simp only [Pipeline.step, DmaCore.step, rm, mt, hs, hs', Bool.false_eq_true, if_false]
    rfl
  have posting : r.posting.step (DmaCore.rmIn r.pipe.core (r.coreIn memWords csr')) =
      r.posting.step (DmaCore.rmIn r.pipe.core (r.coreIn memWords csr)) := by
    have posted (csr : RingManager.CsrIn) (same : csr.tail = r.posting.tail) :
        r.posting.postedNow (DmaCore.rmIn r.pipe.core (r.coreIn memWords csr)) = r.posting.posted := by
      change r.posting.posted + slotDistance _ _ csr.tail.toNat = _
      rw [same, slotDistance_self, Nat.add_zero]
    have off := fetchHs_of_disabled r.posting.rm (i := DmaCore.rmIn r.pipe.core (r.coreIn memWords csr)) disabled
    have off' := fetchHs_of_disabled r.posting.rm (i := DmaCore.rmIn r.pipe.core (r.coreIn memWords csr')) disabled'
    have tail : csr'.tail = csr.tail := by rw [same', same]
    simp only [Posting.step, rm, posted csr same, posted csr' same', off, off', Bool.false_eq_true, if_false]
    rw [Posting.mk.injEq]
    exact ⟨rfl, tail, rfl, rfl⟩
  rw [ClosedCore.step, pipe, posting]
  rfl

/-- Nothing is posted yet. -/
structure Ready (ring : PostedRing) (bram : BitVec addrWidth → Word) (r : ClosedCore k addrWidth) : Prop where
  runs : Runs ring bram r
  exact : Exact r
  tail : r.posting.tail = 0
  posted : r.posting.posted = 0

theorem ready_start (s : DmaCore.State k addrWidth) {mem : Rtl.SysMem.State} (loaded : mem.ram = ring.ram) :
    Ready ring s.mt.engines.bram.mem (start s mem) :=
  ⟨runs_start s loaded, exact_start s mem, rfl, rfl⟩

theorem Ready.head (ready : Ready ring bram r) : r.pipe.core.rm.head = 0 := by
  have view := ready.runs.inv.posting.view
  have le := view.le
  have head := view.head_eq
  rw [ready.posted] at le
  rw [Nat.le_zero.mp le, Nat.zero_mod, ready.runs.inv.views.rm] at head
  exact BitVec.eq_of_toNat_eq head

theorem Ready.postedNow (ready : Ready ring bram r) (tail : csr.tail = 0) : r.postedNow csr = 0 := by
  rw [ClosedCore.postedNow, ready.posted, ready.tail, tail, slotDistance_self]

theorem Ready.step (ready : Ready ring bram r) (small : addrWidth ≤ 16) (some : 0 < ring.memWords)
    (deep : 6 ≤ k) (disabled : csr.enable = false) (tail : csr.tail = 0) (noReset : csr.reset = false) :
    Ready ring bram (r.step ring.memWords csr) := by
  have same : csr.tail = r.posting.tail := tail.trans ready.tail.symm
  have configured : r.step ring.memWords { csr with baseaddr := ring.baseaddr, ringlen := ring.ringlen } =
      r.step ring.memWords csr := step_of_disabled disabled same _ _
  obtain ⟨csr', eq⟩ : ∃ csr', csr' = { csr with baseaddr := ring.baseaddr, ringlen := ring.ringlen } :=
    ⟨_, rfl⟩
  rw [← eq] at configured
  have none : r.postedNow csr' = 0 := ready.postedNow (by rw [eq]; exact tail)
  have legal : Legal ring r csr' :=
    { noReset := by rw [eq]; exact noReset
      base := by rw [eq]
      length := by rw [eq]
      tailMove := .inl (by rw [eq]; exact same)
      good := by rw [none]; exact fun n less => absurd less (Nat.not_lt_zero n) }
  have runs := ready.runs.step small some deep legal
  rw [← configured]
  exact
    { runs := runs
      exact := ready.exact.step ready.runs.inv legal (runs.none small)
      tail := by
        have next : (r.step ring.memWords csr').posting.tail = csr'.tail := rfl
        rw [next, eq]
        exact tail
      posted := none }

/-- What a CSR side asks for that posts the first `n` slots of the ring. -/
structure PostsRing (ring : PostedRing) (n : Nat) (csr : RingManager.CsrIn) : Prop where
  base : csr.baseaddr = ring.baseaddr
  length : csr.ringlen = ring.ringlen
  tail : csr.tail.toNat = n
  noReset : csr.reset = false

theorem Ready.held {n : Nat} (ready : Ready ring bram r) (posts : PostsRing ring n csr)
    (room : n < ring.ringlen.toNat) (good : ring.AllGood addrWidth n) : Held ring bram csr n r := by
  have zero : r.posting.tail.toNat = 0 := by
    rw [ready.tail]
    rfl
  have distance : slotDistance ring.ringlen.toNat 0 csr.tail.toNat = n := by
    rw [slotDistance, Nat.sub_zero, Nat.add_mod_right, posts.tail, Nat.mod_eq_of_lt room]
  have now : r.postedNow csr = n := by
    rw [ClosedCore.postedNow, ready.posted, zero, posts.length, distance, Nat.zero_add]
  have head : r.posting.rm.head.toNat = 0 := by
    rw [ready.runs.inv.views.rm, ready.head]
    rfl
  exact
    { runs := ready.runs
      exact := ready.exact
      legal :=
        { noReset := posts.noReset
          base := posts.base
          length := posts.length
          tailMove := .inr ⟨by rwa [posts.tail], by rwa [head, zero, slotDistance_self, Nat.zero_add, distance]⟩
          good := by rwa [now] }
      target := now }

/-! ## At rest -/

/-- ENABLE, the interrupt enable and the error clear may change. -/
theorem Held.congr {csr' : RingManager.CsrIn} (held : Held ring bram csr target r)
    (base : csr'.baseaddr = csr.baseaddr) (length : csr'.ringlen = csr.ringlen)
    (tail : csr'.tail = csr.tail) (noReset : csr'.reset = false) : Held ring bram csr' target r := by
  have now : r.postedNow csr' = r.postedNow csr := by
    rw [ClosedCore.postedNow, ClosedCore.postedNow, length, tail]
  exact
    { runs := held.runs
      exact := held.exact
      legal :=
        { noReset := noReset
          base := base.trans held.legal.base
          length := length.trans held.legal.length
          tailMove := tail ▸ held.legal.tailMove
          good := now ▸ held.legal.good }
      target := now.trans held.target }

theorem rm_step (noReset : csr.reset = false) : (r.step memWords csr).pipe.core.rm =
    { head := RingManager.headPtrNext r.pipe.core.rm (DmaCore.rmIn r.pipe.core (r.coreIn memWords csr))
      inflightCount :=
        RingManager.inflightCountNext r.pipe.core.rm (DmaCore.rmIn r.pipe.core (r.coreIn memWords csr))
      wasEmpty := RingManager.ringEmpty r.pipe.core.rm csr
      intStatusError :=
        RingManager.intStatusErrorNext r.pipe.core.rm (DmaCore.rmIn r.pipe.core (r.coreIn memWords csr))
      swRstEnable :=
        RingManager.swRstEnableNext r.pipe.core.rm (DmaCore.rmIn r.pipe.core (r.coreIn memWords csr)) } :=
  RingManager.step_of_run rfl noReset

theorem fetchHs_of_empty (empty : RingManager.ringEmpty r.pipe.core.rm csr = true) :
    DmaCore.fetchHs r.pipe.core (r.coreIn memWords csr) = false := by
  rw [DmaCore.fetchHs, RingManager.fetchHs]
  simp [RingManager.fetchReqValid, DmaCore.rmIn, coreIn, empty]

/-- Without a new TAIL an empty ring stays empty. -/
theorem ringEmpty_step (noReset : csr.reset = false) (empty : RingManager.ringEmpty r.pipe.core.rm csr = true) :
    RingManager.ringEmpty (r.step memWords csr).pipe.core.rm csr = true := by
  have none : RingManager.fetchHs r.pipe.core.rm (DmaCore.rmIn r.pipe.core (r.coreIn memWords csr)) = false :=
    fetchHs_of_empty empty
  rw [RingManager.ringEmpty, rm_step noReset, RingManager.headPtrNext, none]
  exact empty

theorem Held.noError (held : Held ring bram csr target r) (small : addrWidth ≤ 16) (some : 0 < ring.memWords)
    (deep : 6 ≤ k) : DmaCore.dfError r.pipe.core (r.coreIn ring.memWords csr) = false :=
  dfError_of_none ((held.step small some deep).runs.none small)

theorem Held.idle_step (held : Held ring bram csr target r) (small : addrWidth ≤ 16) (some : 0 < ring.memWords)
    (deep : 6 ≤ k) (idle : Idle r csr) : Idle (r.step ring.memWords csr) csr := by
  refine ⟨ringEmpty_step held.legal.noReset idle.1, ?_⟩
  -- nothing is accepted, so nothing is left to answer
  have next := held.step small some deep
  have zero : r.pipe.core.rm.inflightCount.toNat = 0 := by
    have quiet := idle.2
    simpa [RingManager.busy, BitVec.lt_def] using quiet
  have before := held.exact.count
  have count := next.exact.count
  have low := next.runs.inv.pipe.low
  have accepted : (r.step ring.memWords csr).pipe.tally.accepted = r.pipe.tally.accepted +
      (DmaCore.fetchHs r.pipe.core (r.coreIn ring.memWords csr)).toNat := rfl
  have answered : (r.step ring.memWords csr).pipe.tally.answered = r.pipe.tally.answered +
      r.pipe.core.mt.dmDone.toNat +
        (DmaCore.dfError r.pipe.core (r.coreIn ring.memWords csr)).toNat := rfl
  rw [fetchHs_of_empty idle.1, Bool.toNat_false] at accepted
  have none : (r.step ring.memWords csr).pipe.core.rm.inflightCount.toNat = 0 := by omega
  simpa [RingManager.busy, BitVec.lt_def] using none

/-! ## The completion interrupt -/

/-- The ring gets empty in the cycle after its last request, whose handle has not gone further
    than the fetcher by then. -/
theorem Held.early (held : Held ring bram csr target r) (small : addrWidth ≤ 16) (some : 0 < ring.memWords)
    (deep : 6 ≤ k) (waits : RingManager.ringEmpty r.pipe.core.rm csr = false)
    (empty : RingManager.ringEmpty (r.step ring.memWords csr).pipe.core.rm csr = true) :
    (r.step ring.memWords csr).pipe.finished < target := by
  have next := held.step small some deep
  have asks : DmaCore.fetchHs r.pipe.core (r.coreIn ring.memWords csr) = true := by
    by_contra none
    rw [Bool.not_eq_true] at none
    have none : RingManager.fetchHs r.pipe.core.rm
        (DmaCore.rmIn r.pipe.core (r.coreIn ring.memWords csr)) = false := none
    rw [RingManager.ringEmpty, rm_step held.legal.noReset, RingManager.headPtrNext, none] at empty
    exact Bool.false_ne_true (waits.symm.trans empty)
  have fetcher : (r.step ring.memWords csr).pipe.core.mt.df.dfInWrEn = true :=
    Pipeline.takesReq_eq.trans asks
  have handles := congrArg List.length next.runs.inv.pipe.handles
  have counts := next.runs.inv.counts (next.runs.none small)
  have one : (DescriptorFetcher.heldHandle (r.step ring.memWords csr).pipe.core.mt.df).length = 1 := by
    rw [DescriptorFetcher.heldHandle, if_pos fetcher]
    rfl
  rw [List.length_map, List.length_append, one] at handles
  have posted : (r.step ring.memWords csr).posting.posted ≤ (r.step ring.memWords csr).postedNow csr :=
    Nat.le_add_right ..
  rw [next.target] at posted
  omega

end ClosedCore

/-- The completion interrupt comes once, and early.  From any state that a legal run on good descriptors
    reaches with something to fetch, hold the CSR side with ENABLE and IRQ_EN set: `irq_rm_empty` is raised
    in exactly one cycle, which is among the first `drains`; a descriptor is still unfinished then; and
    `irq_rm_error` is never raised. -/
theorem completes_once {k addrWidth : Nat} (deep : 6 ≤ k) (small : addrWidth ≤ 16) {ring : PostedRing}
    (some : 0 < ring.memWords) (s : DmaCore.State k addrWidth) {mem : Rtl.SysMem.State}
    (loaded : mem.ram = ring.ram) {is : List RingManager.CsrIn} {csr : RingManager.CsrIn}
    (legal : LegalRun (ClosedCore.step ring.memWords) (ClosedCore.Legal ring) (ClosedCore.start s mem)
      (is ++ [csr])) (enabled : csr.enable = true) (irqEn : csr.irqEn = true)
    (waits : RingManager.ringEmpty
      (run (ClosedCore.step ring.memWords) (ClosedCore.start s mem) is).pipe.core.rm csr = false) :
    let r := run (ClosedCore.step ring.memWords) (ClosedCore.start s mem) is
    let at' := fun n => (fun r => r.step ring.memWords csr)^[n] r
    (∃ n ≤ ClosedCore.drains (r.postedNow csr - r.pipe.finished),
      (∀ m, RingManager.irqEmpty (at' m).pipe.core.rm csr = true ↔ m = n) ∧
        (at' n).pipe.finished < r.postedNow csr) ∧
      ∀ m, RingManager.irqError (DmaCore.rmIn (at' m).pipe.core ((at' m).coreIn ring.memWords csr)) = false := by
  intro r at'
  obtain ⟨before, last⟩ := legalRun_snoc.mp legal
  have reached := before.invariant
    (P := fun r => ClosedCore.Runs ring s.mt.engines.bram.mem r ∧ ClosedCore.Exact r)
    (fun r csr both legal => ⟨both.1.step small some deep legal,
      both.2.step both.1.inv legal ((both.1.step small some deep legal).none small)⟩)
    ⟨ClosedCore.runs_start s loaded, ClosedCore.exact_start s mem⟩
  have held : ClosedCore.Held ring s.mt.engines.bram.mem csr (r.postedNow csr) r :=
    ⟨reached.1, reached.2, last, rfl⟩
  have always (n : Nat) : ClosedCore.Held ring s.mt.engines.bram.mem csr (r.postedNow csr) (at' n) :=
    iterate_invariant (fun r (held : ClosedCore.Held ring _ csr _ r) => held.step small some deep) held n
  have next (n : Nat) : at' (n + 1) = (at' n).step ring.memWords csr := Function.iterate_succ_apply' ..
  have noReset : csr.reset = false := last.noReset
  obtain ⟨m, within, idle, -⟩ := held.drains small some deep enabled
  have stays (n : Nat) (empty : RingManager.ringEmpty (at' n).pipe.core.rm csr = true) :
      RingManager.ringEmpty (at' (n + 1)).pipe.core.rm csr = true := by
    rw [next]
    exact ClosedCore.ringEmpty_step noReset empty
  obtain ⟨n, less, low, high, only⟩ := exists_rise stays waits idle.1
  constructor
  · refine ⟨n + 1, by omega, fun m => ?_, ?_⟩
    · rw [RingManager.irqEmpty, irqEn, Bool.true_and, RingManager.irqEmptySet]
      cases m with
      | zero =>
        have clear : RingManager.ringEmpty (at' 0).pipe.core.rm csr = false := waits
        rw [clear]
        simp
      | succ m =>
        have was : (at' (m + 1)).pipe.core.rm.wasEmpty = RingManager.ringEmpty (at' m).pipe.core.rm csr := by
          rw [next, ClosedCore.rm_step noReset]
        rw [was, Bool.and_eq_true, Bool.not_eq_true']
        constructor
        · intro rises
          rw [only m rises.1 rises.2]
        · intro same
          obtain rfl : m = n := by omega
          exact ⟨low, high⟩
    · rw [next]
      refine (always n).early small some deep low ?_
      rwa [← next]
  · intro m
    have none := (always m).noError small some deep
    rw [RingManager.irqError, RingManager.errorSet]
    simp [DmaCore.rmIn, none]

namespace ClosedCore

def bothWithIrq : RingManager.CsrIn := { bothPosted with irqEn := true }

theorem completes_once_there_and_back :
    bothWithIrq.irqEn = true ∧ ∃ n ≤ drains 2, ∀ m,
      RingManager.irqEmpty ((fun r => r.step 32 bothWithIrq)^[m]
        (start (zeroed 6 3) (handedOver thereAndBack))).pipe.core.rm bothWithIrq = true ↔ m = n := by
  have legal : LegalRun (step thereAndBack.memWords) (Legal thereAndBack)
      (start (zeroed 6 3) (handedOver thereAndBack)) ([] ++ [bothWithIrq]) := by decide +kernel
  obtain ⟨⟨n, within, once, -⟩, -⟩ := completes_once (by decide) (by decide) (by decide) (zeroed 6 3)
    rfl legal rfl rfl (by decide)
  exact ⟨rfl, n, within, once⟩

end ClosedCore

end AxiDma.Verified
