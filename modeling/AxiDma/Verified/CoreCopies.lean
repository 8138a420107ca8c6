import AxiDma.Verified.MidRoom
import AxiDma.Verified.ReplayCopy

/-! # What the core copies

The memories are at every moment the copies of the finished descriptors, one after the other
in the order they were posted, and the part of the next one that is done.  Descriptors fetched
ahead do not change that, as no copy hits a slot in use.
-/

namespace AxiDma.Verified

open AxiDma.Lib AxiDma.Rtl
open Pipeline (axiBusy sramBusy)
open Replay (copyAll)

/-! ## Off the destination -/

section Frame

variable {addrWidth : Nat} {p : Pair} {m : Memories addrWidth}

theorem copyPair_ram {i : Nat} (off : ¬ WritesRam p i) : (copyPair p m).ram i = m.ram i := by
  unfold copyPair
  cases dir : p.toSram with
  | true => rfl
  | false =>
    apply overlayNat_outside
    rw [List.length_map, List.length_range]
    by_contra within
    exact off ⟨dir, by omega, by omega⟩

theorem copyAll_ram {ds : List Desc} {i : Nat} (off : ∀ d ∈ ds, ¬ WritesRam (pairOf d) i) :
    (copyAll ds m).ram i = m.ram i := by
  induction ds generalizing m with
  | nil => rfl
  | cons d ds ih =>
    have rest := ih (m := copyPair (pairOf d) m) fun e member => off e (List.mem_cons_of_mem d member)
    exact rest.trans (copyPair_ram (off d List.mem_cons_self))

variable {k : Nat} {t : Transfer k addrWidth} {mem : Rtl.SysMem.State}

theorem Job.Copying.ram (copying : Job.Copying p m t mem) (flow : Transfer.Flow p t) {i : Nat} (off : ¬ WritesRam p i) :
    mem.ram i = m.ram i := by
  unfold Job.Copying at copying
  cases dir : p.toSram with
  | true =>
    simp only [dir, if_true] at copying
    rw [copying.2.ram_eq]
  | false =>
    simp only [dir, Bool.false_eq_true, if_false] at copying
    have pushed := Job.pushed_le flow
    have taken := Job.taken_le_pushed flow
    rw [copying.2.2.ram_eq]
    apply overlayNat_outside
    by_contra within
    exact off ⟨dir, by omega, by omega⟩

theorem Job.Copying.bram (copying : Job.Copying p m t mem) (flow : Transfer.Flow p t)
    {a : BitVec addrWidth} (off : ¬ WritesBram p a.toNat) : t.eng.bram.mem a = m.bram a := by
  unfold Job.Copying at copying
  cases dir : p.toSram with
  | true =>
    simp only [dir, if_true] at copying
    have pushed := Job.pushed_le flow
    have taken := Job.taken_le_pushed flow
    rw [copying.1]
    apply overlay_outside
    by_contra within
    exact off ⟨dir, by omega, by omega⟩
  | false =>
    simp only [dir, Bool.false_eq_true, if_false] at copying
    rw [copying.1]

end Frame

/-! ## A cycle without a word on the AXI side -/

/-- The master waits for an instruction or serves a descriptor fetch. -/
def AxiApart (s : AxiMaster.State) : Prop :=
  s.state = .idle ∨ s.state = .dfGet ∨ s.state = .dfAr ∨ s.state = .dfR ∨ s.state = .dfPush

theorem AxiApart.out {s : AxiMaster.State} {i : AxiMaster.In} (apart : AxiApart s) :
    (AxiMaster.out s i).midWrEn = false ∧ (AxiMaster.out s i).midRdEn = false ∧
      (AxiMaster.out s i).axi.wvalid = false := by
  rw [AxiMaster.midWrEn_eq, AxiMaster.midRdEn_eq, AxiMaster.wvalid_eq]
  rcases apart with state | state | state | state | state <;> simp [state]

theorem AxiApart.next {s : AxiMaster.State} {i : AxiMaster.In} (apart : AxiApart s) :
    (AxiMaster.next s i).state ≠ .dmRdR ∧ (AxiMaster.next s i).state ≠ .dmWrW := by
  rw [AxiMaster.next_state]
  rcases apart with state | state | state | state | state <;> rw [state] <;> grind

theorem AxiApart.count {s : AxiMaster.State} {instr : Instr} {bursts : List AxiMaster.Burst} {n rLeft : Nat}
    (apart : AxiApart s) (side : AxiMaster.AxiSide instr s bursts n rLeft) : n = 0 := by
  rcases apart with state | state | state | state | state <;>
    simp only [AxiMaster.AxiSide, state] at side <;> exact side.2

/-- Only the SRAM controller works on the job. -/
theorem Job.Copying.step_apart {k addrWidth memWords : Nat} {p : Pair} {m : Memories addrWidth}
    {t : Transfer k addrWidth} {mem : Rtl.SysMem.State} {i : Engines.In addrWidth}
    (copying : Job.Copying p m t mem) (flow : Transfer.Flow p t) (legal : Transfer.Legal p t i)
    (apart : AxiApart t.eng.axi) (fits : Fits memWords addrWidth p)
    (keeps : ¬ Transfer.LosesWord p t) (init : Rtl.SysMem.Init) (noInit : init.wrEn = false) :
    Job.Copying p m (t.step i) (SysMem.step memWords mem (Engines.axiOut t.eng i).axi init) := by
  obtain ⟨noPush, noTake, noBeat⟩ := apart.out (i := Engines.axiIn t.eng i)
  obtain ⟨noRead, noWrite⟩ := apart.next (i := Engines.axiIn t.eng i)
  have ram : (SysMem.step memWords mem (Engines.axiOut t.eng i).axi init).ram = mem.ram := by
    rw [SysMem.ram_step noInit, Engines.axiOut, noBeat]
    simp
  have count := apart.count flow.axi
  unfold Job.Copying at *
  cases dir : p.toSram with
  | true =>
    simp only [dir, if_true] at copying count ⊢
    obtain ⟨written, reads⟩ := copying
    obtain ⟨wrEn, -⟩ := flow.midIn_of_toSram dir i
    have pushed : (t.step i).pushed = [] := by
      rw [Transfer.step, Fifo.written, wrEn, Engines.axiOut, noPush, List.length_eq_zero_iff.mp count]
      rfl
    refine ⟨Transfer.written_step flow legal dir fits.bram written, ram.trans reads.ram_eq, ?_, ?_⟩
    · rw [pushed]
      rfl
    · exact fun state => absurd state noRead
  | false =>
    simp only [dir, Bool.false_eq_true, if_false] at copying count ⊢
    obtain ⟨same, faithful, writes⟩ := copying
    obtain ⟨-, rdEn, -⟩ := flow.midIn_of_fromSram dir i
    have taken : (t.step i).taken = t.taken := by
      rw [Transfer.step, Fifo.taken, rdEn, Engines.axiOut, noTake]
      exact List.append_nil _
    refine ⟨(Transfer.mem_step flow legal dir).trans same,
      Transfer.faithful_step flow legal dir same faithful keeps, ?_, ?_⟩
    · rw [taken, ram]
      exact writes.ram_eq
    · exact fun state => absurd state noWrite

/-- Outside `idle` the master does not look at the fetch FIFO. -/
theorem comb_of_not_idle {s : AxiMaster.State} (works : s.state ≠ .idle) (i : AxiMaster.In) :
    AxiMaster.comb s { i with dfInEmpty := true } = AxiMaster.comb s i := by
  cases state : s.state with
  | idle => exact absurd state works
  | _ => simp [AxiMaster.comb, AxiMaster.defaultOut, state]

theorem Engines.step_of_not_idle {k addrWidth : Nat} {eng : Engines.State k addrWidth}
    (works : eng.axi.state ≠ .idle) (i : Engines.In addrWidth) :
    Engines.axiOut eng { i with dfInEmpty := true } = Engines.axiOut eng i ∧
      Engines.step eng { i with dfInEmpty := true } = Engines.step eng i := by
  have comb := comb_of_not_idle works (Engines.axiIn eng i)
  have out : Engines.axiOut eng { i with dfInEmpty := true } = Engines.axiOut eng i :=
    congrArg Prod.fst comb
  have next : AxiMaster.next eng.axi (Engines.axiIn eng { i with dfInEmpty := true }) =
      AxiMaster.next eng.axi (Engines.axiIn eng i) := congrArg Prod.snd comb
  refine ⟨out, ?_⟩
  rw [Engines.step, next, Engines.midIn, out]
  rfl

theorem Transfer.step_of_not_idle {k addrWidth : Nat} {t : Transfer k addrWidth}
    (works : t.eng.axi.state ≠ .idle) (i : Engines.In addrWidth) :
    t.step { i with dfInEmpty := true } = t.step i := by
  obtain ⟨out, next⟩ := Engines.step_of_not_idle works i
  have mid : Engines.midIn t.eng { i with dfInEmpty := true } = Engines.midIn t.eng i := by
    rw [Engines.midIn, out]
    rfl
  rw [Transfer.step, Transfer.step, out, next, mid]

namespace ClosedCore

variable {k addrWidth : Nat} {ring : PostedRing} {r : ClosedCore k addrWidth}
  {csr : RingManager.CsrIn} {bram : BitVec addrWidth → Word}

/-- The copies of the first `n` descriptors. -/
def copies (ring : PostedRing) (bram : BitVec addrWidth → Word) (n : Nat) : Memories addrWidth :=
  copyAll (ring.descs n) ⟨ring.ram, bram⟩

/-- The finished descriptors are copied, and the next one is under way. -/
def Copied (ring : PostedRing) (bram : BitVec addrWidth → Word) (r : ClosedCore k addrWidth) : Prop :=
  ∀ p, Chain.Current r.chain p → Fits ring.memWords addrWidth p →
    Job.Copying p (copies ring bram r.chain.finished) r.chain.job r.mem

/-- All that the closed core keeps, from reset on. -/
structure Runs (ring : PostedRing) (bram : BitVec addrWidth → Word) (r : ClosedCore k addrWidth) :
    Prop where
  inv : Inv ring r
  good : ring.AllGood addrWidth r.posting.posted
  fetched : Fetched ring r
  visible : Visible r
  room : Room r
  copied : Copied ring bram r

/-! ## The job in progress -/

theorem Runs.none (runs : Runs ring bram r) (small : addrWidth ≤ 16) : r.pipe.errors = [] :=
  runs.fetched.errors runs.inv small runs.good

/-- Descriptor `n` of those sent is the one of slot `n`. -/
theorem Runs.sent (runs : Runs ring bram r) (small : addrWidth ≤ 16) {n : Nat} {d : Desc}
    (known : r.chain.sent[n]? = some d) : d = ring.slotDesc n ∧ n < r.posting.posted := by
  obtain ⟨paired, le⟩ := runs.fetched.paired runs.inv small runs.good
  rw [runs.inv.views.sent] at known
  have less := (List.getElem?_eq_some_iff.mp known).1
  rw [paired, PostedRing.getElem?_descs less] at known
  exact ⟨(Option.some.inj known).symm, by omega⟩

theorem fits_one {memWords : Nat} (toSram : Bool) (some : 0 < memWords) :
    Fits memWords addrWidth ⟨toSram, 0, 0, 1⟩ where
  mem := by
    have one : Job.memBase ⟨toSram, 0, 0, 1⟩ + beats 1 = 1 := by cases toSram <;> rfl
    exact Nat.le_trans (Nat.le_of_eq one) some
  bram := by
    have one : Transfer.firstWord ⟨toSram, 0, 0, 1⟩ + beats 1 = 1 := by cases toSram <;> rfl
    exact Nat.le_trans (Nat.le_of_eq one) Nat.one_le_two_pow
  some := by simp

/-- The pair of the job in progress, if there is one, and a pair of either direction if not. -/
theorem Runs.exists_fitting (runs : Runs ring bram r) (small : addrWidth ≤ 16)
    (some : 0 < ring.memWords) (toSram : Bool) :
    ∃ p, Chain.Current r.chain p ∧ Fits ring.memWords addrWidth p ∧
      (p.toSram = toSram ∨ ∃ d, r.chain.sent[r.chain.finished]? = .some d ∧ p = pairOf d) := by
  cases known : r.chain.sent[r.chain.finished]? with
  | none =>
    refine ⟨⟨toSram, 0, 0, 1⟩, fun d sent => ?_, fits_one toSram some, .inl rfl⟩
    rw [known] at sent
    cases sent
  | some d =>
    obtain ⟨rfl, posted⟩ := runs.sent small known
    refine ⟨pairOf (ring.slotDesc r.chain.finished), fun e sent => ?_, (runs.good _ posted).fits,
      .inr ⟨_, rfl, rfl⟩⟩
    rw [Option.some.inj (known.symm.trans sent)]

/-- Off the block of the descriptor in progress the system memory holds the copies. -/
theorem Runs.ram (runs : Runs ring bram r) (small : addrWidth ≤ 16) (some : 0 < ring.memWords)
    {i : Nat} (off : ∀ d, r.chain.sent[r.chain.finished]? = .some d → ¬ WritesRam (pairOf d) i) :
    r.mem.ram i = (copies ring bram r.chain.finished).ram i := by
  obtain ⟨p, current, fits, known⟩ := runs.exists_fitting small some true
  refine (runs.copied p current fits).ram (runs.inv.chain.flow p current) fun writes => ?_
  rcases known with dir | ⟨d, sent, rfl⟩
  · rw [WritesRam, dir] at writes
    cases writes.1
  · exact off d sent writes

/-- And so does the BRAM. -/
theorem Runs.sram (runs : Runs ring bram r) (small : addrWidth ≤ 16) (some : 0 < ring.memWords)
    {a : BitVec addrWidth}
    (off : ∀ d, r.chain.sent[r.chain.finished]? = .some d → ¬ WritesBram (pairOf d) a.toNat) :
    r.chain.job.eng.bram.mem a = (copies ring bram r.chain.finished).bram a := by
  obtain ⟨p, current, fits, known⟩ := runs.exists_fitting small some false
  refine (runs.copied p current fits).bram (runs.inv.chain.flow p current) fun writes => ?_
  rcases known with dir | ⟨d, sent, rfl⟩
  · rw [WritesBram, dir] at writes
    cases writes.1
  · exact off d sent writes

theorem Runs.finished_le (runs : Runs ring bram r) : r.chain.finished ≤ r.posting.posted := by
  have reads := runs.inv.finished_le
  have accepted := runs.inv.pipe.reads_initial.length_le
  have posted := runs.inv.accepted_le
  rw [List.length_map] at accepted
  rw [runs.inv.views.finished]
  omega

/-- No copy hits a slot in use. -/
theorem Runs.kept (runs : Runs ring bram r) (small : addrWidth ≤ 16) (some : 0 < ring.memWords) :
    Kept ring r := by
  intro n posted j within
  rw [runs.ram small some fun d sent => ?_]
  · apply copyAll_ram
    intro d member
    obtain ⟨m, less, rfl⟩ := PostedRing.mem_descs.mp member
    have le := runs.finished_le
    exact (runs.good m (by omega)).apart n posted j within
  · obtain ⟨rfl, known⟩ := runs.sent small sent
    exact (runs.good _ known).apart n posted j within

/-! ## One cycle -/

theorem Inv.transferLegal (inv : Inv ring r) (running : r.chain.done = false) {p : Pair}
    (current : Chain.Current r.chain p) (memWords : Nat) (csr : RingManager.CsrIn) :
    Transfer.Legal p r.chain.job (DataPath.enginesIn r.chain.path (r.pathIn memWords csr)) where
  running := inv.chain.same ▸ running
  initDone := rfl
  axi := fun gets => inv.chain.fed.axi_presented current (inv.chain.same ▸ gets)
  sram := fun gets => inv.chain.fed.sram_presented current (inv.chain.same ▸ gets)
  slave := inv.chainLegal memWords csr

theorem Inv.axiOut_eq (inv : Inv ring r) (memWords : Nat) : r.axiOut memWords csr =
    Engines.axiOut r.chain.job.eng (DataPath.enginesIn r.chain.path (r.pathIn memWords csr)) := by
  rw [inv.eng, inv.views.path]
  rfl

theorem mem_step (inv : Inv ring r) (memWords : Nat) : (r.step memWords csr).mem =
    SysMem.step memWords r.mem (Engines.axiOut r.chain.job.eng
      (DataPath.enginesIn r.chain.path (r.pathIn memWords csr))).axi
      { wrEn := false, addr := 0, wdata := 0 } := by
  rw [← inv.axiOut_eq]
  rfl

theorem job_of_running (running : r.chain.done = false) (memWords : Nat) (csr : RingManager.CsrIn) :
    (r.step memWords csr).chain.job =
        r.chain.job.step (DataPath.enginesIn r.chain.path (r.pathIn memWords csr)) ∧
      (r.step memWords csr).chain.finished = r.chain.finished := by
  simp [step, Chain.step, running]

/-- With an instruction taken, the memory serves the job. -/
theorem Inv.served (inv : Inv ring r) {p : Pair} (current : Chain.Current r.chain p)
    (works : ¬ AxiApart r.chain.job.eng.axi) : Job.Served p r.chain.job r.mem where
  flow := inv.chain.flow p current
  inBurst := inv.chain.same ▸ inv.chain.inBurst
  owes := inv.views.rLeft ▸ inv.owes
  follows := by
    have follows := inv.follows
    rw [inv.eng] at works ⊢
    unfold Follows at follows
    unfold AxiApart at works
    unfold Job.WriteFollows
    cases state : r.pipe.core.mt.engines.axi.state <;> simp_all

theorem Copied.step_running (copied : Copied ring bram r) (inv : Inv ring r)
    (running : r.chain.done = false) {p : Pair} (current : Chain.Current r.chain p)
    (fits : Fits ring.memWords addrWidth p) (keeps : ¬ Transfer.LosesWord p r.chain.job) :
    Job.Copying p (copies ring bram r.chain.finished) (r.step ring.memWords csr).chain.job
      (r.step ring.memWords csr).mem := by
  have legal := inv.transferLegal running current ring.memWords csr
  rw [(job_of_running running ring.memWords csr).1, mem_step inv]
  by_cases apart : AxiApart r.chain.job.eng.axi
  · exact (copied p current fits).step_apart (inv.chain.flow p current) legal apart fits keeps _ rfl
  · -- a cycle in which the fetch FIFO might as well be empty
    have works : r.chain.job.eng.axi.state ≠ .idle := fun idle => apart (.inl idle)
    have cycle : Job.Cycle ring.memWords p r.chain.job r.mem
        { DataPath.enginesIn r.chain.path (r.pathIn ring.memWords csr) with dfInEmpty := true } :=
      ⟨⟨legal.running, legal.initDone, legal.axi, legal.sram, legal.slave⟩, rfl, rfl⟩
    have next := (copied p current fits).step (inv.served current apart) cycle fits keeps
      { wrEn := false, addr := 0, wdata := 0 } rfl
    rwa [Transfer.step_of_not_idle works, (Engines.step_of_not_idle works _).1] at next

/-- The memories stay as they are in the cycle of a handshake. -/
theorem memories_of_done (inv : Inv ring r) (done : r.chain.done = true) (memWords : Nat) (csr : RingManager.CsrIn) :
    (r.step memWords csr).mem.ram = r.mem.ram ∧
      (r.step memWords csr).chain.job.eng.bram.mem = r.chain.job.eng.bram.mem := by
  obtain ⟨axiState, sramState⟩ := Chain.waits_of_done done
  rw [inv.chain.same.symm] at axiState sramState
  constructor
  · rw [mem_step inv, SysMem.ram_step rfl, Engines.axiOut, AxiMaster.wvalid_eq, axiState]
    simp
  · have quiet : (Engines.sramOut r.chain.job.eng
        (DataPath.enginesIn r.chain.path (r.pathIn memWords csr))).wrEn = false := by
      rw [Engines.sramOut, SramController.wrEn_eq, SramController.midRdEn_eq, sramState]
      rfl
    have noWrite : (Engines.bramIn r.chain.job.eng
        (DataPath.enginesIn r.chain.path (r.pathIn memWords csr))).wrEn = false := quiet
    change (Chain.step _ _).job.eng.bram.mem = _
    rw [Chain.eng_step]
    change (if (Engines.bramIn r.chain.job.eng
      (DataPath.enginesIn r.chain.path (r.pathIn memWords csr))).wrEn then _ else _) = _
    rw [if_neg (by simp [noWrite])]

theorem copies_succ (ring : PostedRing) (bram : BitVec addrWidth → Word) (n : Nat) :
    copies ring bram (n + 1) = copyPair (pairOf (ring.slotDesc n)) (copies ring bram n) := by
  rw [copies, PostedRing.descs, List.range_succ, List.map_append, copyAll, List.foldl_append]
  rfl

theorem Runs.copied_step (runs : Runs ring bram r) (small : addrWidth ≤ 16) (deep : 6 ≤ k) :
    Copied ring bram (r.step ring.memWords csr) := by
  intro p current fits
  have inv := runs.inv
  cases done : r.chain.done with
  | false =>
    have before := Chain.current_of_step done current
    have finished := (job_of_running done ring.memWords csr).2
    rw [finished]
    exact runs.copied.step_running inv done before fits (runs.room.keeps inv deep p)
  | true =>
    -- the handshake: the finished copy joins the list, and the next job starts afresh
    obtain ⟨d, known, count, all, -⟩ := inv.chain.whole done
    obtain ⟨rfl, posted⟩ := runs.sent small known
    have here : Chain.Current r.chain (pairOf (ring.slotDesc r.chain.finished)) := by
      intro e sent
      rw [Option.some.inj (known.symm.trans sent)]
    have whole := (runs.copied _ here (runs.good _ posted).fits).whole all
      (by rw [pairOf_len, count])
    obtain ⟨ram, bramEq⟩ := memories_of_done inv done ring.memWords csr
    obtain ⟨axi, sram⟩ := Chain.idle_of_done (i := r.pathIn ring.memWords csr) done
    have finished : (r.step ring.memWords csr).chain.finished = r.chain.finished + 1 := by
      simp [step, Chain.step, done]
    have same : (r.step ring.memWords csr).chain.job.eng = (r.step ring.memWords csr).chain.path.engines :=
      inv.chain.same_step
    have fresh : (r.step ring.memWords csr).chain.job.pushed = [] ∧
        (r.step ring.memWords csr).chain.job.taken = [] := by
      simp [step, Chain.step, done, Chain.fresh]
    rw [finished, copies_succ]
    refine Job.copying_of_fresh ?_ ?_ fresh.1 fresh.2 (ram.trans whole.1) (bramEq.trans whole.2)
    · rw [same]
      exact axi
    · rw [same]
      exact sram

theorem runs_start (s : DmaCore.State k addrWidth) {mem : Rtl.SysMem.State} (loaded : mem.ram = ring.ram) :
    Runs ring s.mt.engines.bram.mem (start s mem) where
  inv := inv_start ring s mem
  good := fun n none => absurd none (Nat.not_lt_zero n)
  fetched := fetched_start ring s mem
  visible := visible_start s mem
  room := room_start s mem
  copied := fun _ _ _ => Job.copying_of_fresh rfl rfl rfl rfl loaded rfl

theorem Runs.step (runs : Runs ring bram r) (small : addrWidth ≤ 16) (some : 0 < ring.memWords)
    (deep : 6 ≤ k) (legal : Legal ring r csr) : Runs ring bram (r.step ring.memWords csr) where
  inv := runs.inv.step legal ring.memWords
  good := legal.good
  fetched := runs.fetched.step runs.inv (runs.kept small some) csr
  visible := runs.inv.visible_step ring.memWords
  room := runs.room.step runs.inv legal (runs.none small) runs.visible ring.memWords
  copied := runs.copied_step small deep

/-! ## The idle status -/

/-- HEAD has reached TAIL and nothing is in flight. -/
def Idle (r : ClosedCore k addrWidth) (csr : RingManager.CsrIn) : Prop :=
  RingManager.ringEmpty r.pipe.core.rm csr = true ∧ RingManager.busy r.pipe.core.rm = false

instance (r : ClosedCore k addrWidth) (csr : RingManager.CsrIn) : Decidable (Idle r csr) :=
  inferInstanceAs (Decidable (_ ∧ _))

/-- An idle status is sound: everything posted has been executed. -/
theorem Runs.all_of_idle (runs : Runs ring bram r) (small : addrWidth ≤ 16)
    (legal : Legal ring r csr) (idle : Idle r csr) : r.chain.finished = r.postedNow csr := by
  obtain ⟨empty, quiet⟩ := idle
  have inv := runs.inv
  have now := inv.posting.viewNow (@Legal.posting _ _ _ _ _ ring.memWords legal)
  have issued : r.postedNow csr = r.pipe.accepted.length := by
    rw [← inv.views.requests]
    refine now.head_eq_tail_iff.mp ?_
    rw [inv.views.rm]
    exact beq_iff_eq.mp empty
  have zero : r.pipe.core.rm.inflightCount.toNat = 0 := by
    simpa [RingManager.busy, BitVec.lt_def] using quiet
  have low := inv.pipe.low
  have balance := inv.pipe.accepted_eq
  have answered := inv.pipe.answered
  have counted := inv.pipe.counted
  rw [runs.none small, List.length_nil] at answered
  rw [inv.views.finished]
  omega

/-- When everything posted is finished, no job is in progress. -/
theorem Runs.memories (runs : Runs ring bram r) (small : addrWidth ≤ 16) (some : 0 < ring.memWords)
    (all : r.chain.finished = r.posting.posted) :
    r.mem.ram = (copies ring bram r.chain.finished).ram ∧
      r.pipe.core.mt.engines.bram.mem = (copies ring bram r.chain.finished).bram := by
  have inv := runs.inv
  obtain ⟨-, le⟩ := runs.fetched.paired inv small runs.good
  have none : r.chain.sent[r.chain.finished]? = .none := by
    rw [List.getElem?_eq_none_iff, inv.views.sent]
    omega
  rw [← inv.eng]
  constructor
  · funext i
    exact runs.ram small some fun d sent => by rw [none] at sent; cases sent
  · funext a
    exact runs.sram small some fun d sent => by rw [none] at sent; cases sent

/-- What a run of the closed core says at one point, in the terms of the posted descriptors. -/
structure InOrder (ring : PostedRing) (bram : BitVec addrWidth → Word) (r : ClosedCore k addrWidth)
    (csr : RingManager.CsrIn) : Prop where
  noError : r.pipe.errors = []
  /-- The pairs sent to the engines are those of the first descriptors posted. -/
  pairs : r.pipe.paired = ring.descs r.pipe.paired.length
  /-- Off the block of the descriptor in progress both memories hold the copies of the finished
      ones. -/
  ram : ∀ i, (∀ d, r.pipe.paired[r.pipe.finished]? = some d → ¬ WritesRam (pairOf d) i) →
    r.mem.ram i = (copies ring bram r.pipe.finished).ram i
  sram : ∀ a, (∀ d, r.pipe.paired[r.pipe.finished]? = some d → ¬ WritesBram (pairOf d) a.toNat) →
    r.pipe.core.mt.engines.bram.mem a = (copies ring bram r.pipe.finished).bram a
  /-- An idle status says that all that was posted is copied. -/
  idle : Idle r csr → r.pipe.finished = r.postedNow csr ∧
    r.mem.ram = (copies ring bram (r.postedNow csr)).ram ∧
    r.pipe.core.mt.engines.bram.mem = (copies ring bram (r.postedNow csr)).bram

theorem Runs.inOrder (runs : Runs ring bram r) (small : addrWidth ≤ 16) (some : 0 < ring.memWords)
    (legal : Legal ring r csr) : InOrder ring bram r csr where
  noError := runs.none small
  pairs := (runs.fetched.paired runs.inv small runs.good).1
  ram i off := by
    rw [← runs.inv.views.finished, ← runs.inv.views.sent] at *
    exact runs.ram small some off
  sram a off := by
    rw [← runs.inv.views.finished, ← runs.inv.views.sent, ← runs.inv.eng] at *
    exact runs.sram small some off
  idle idle := by
    have all := runs.all_of_idle small legal idle
    have le := runs.finished_le
    have now : r.posting.posted ≤ r.postedNow csr := Nat.le_add_right ..
    have memories := runs.memories small some (by omega)
    rw [all] at memories
    exact ⟨runs.inv.views.finished.symm.trans all, memories⟩

theorem Runs.run (runs : Runs ring bram r) (small : addrWidth ≤ 16) (some : 0 < ring.memWords)
    (deep : 6 ≤ k) {is : List RingManager.CsrIn}
    (legal : LegalRun (ClosedCore.step ring.memWords) (Legal ring) r is) :
    Runs ring bram (run (ClosedCore.step ring.memWords) r is) :=
  legal.invariant (P := Runs ring bram) (fun _ _ runs legal => runs.step small some deep legal) runs

end ClosedCore

/-- The core executes what is posted, in order.  In every cycle of every run of the core on
    its system memory, with MID of its depth, a BRAM of up to `2 ^ 16` words and good descriptors
    in the slots: no `df_error`, the memories are the copies of the finished descriptors beside the one in
    progress, and an idle status means all that was posted. -/
theorem core_in_order {k addrWidth : Nat} (deep : 6 ≤ k) (small : addrWidth ≤ 16) {ring : PostedRing}
    (some : 0 < ring.memWords) (s : DmaCore.State k addrWidth) {mem : Rtl.SysMem.State}
    (loaded : mem.ram = ring.ram) {is : List RingManager.CsrIn} {csr : RingManager.CsrIn}
    (legal : LegalRun (ClosedCore.step ring.memWords) (ClosedCore.Legal ring) (ClosedCore.start s mem)
      (is ++ [csr])) :
    ClosedCore.InOrder ring s.mt.engines.bram.mem
      (run (ClosedCore.step ring.memWords) (ClosedCore.start s mem) is) csr := by
  obtain ⟨before, last⟩ := legalRun_snoc.mp legal
  exact ((ClosedCore.runs_start s loaded).run small some deep before).inOrder small some last

namespace ClosedCore

/-- Word 1 goes to the SRAM, and from there to word 2. -/
def thereAndBack : PostedRing :=
  { memWords := 32, baseaddr := 64, ringlen := 4
    ram := fun i => ([0, 7] ++ List.replicate 14 0 ++ [4, 0, 1, 1, 0, 8, 1, 0]).getD i 0
    pos := by decide }

def handedOver (ring : PostedRing) : Rtl.SysMem.State :=
  { ram := ring.ram, initWordAddr := 0, rState := .idle, rAddr := 0, rLastBeat := 0, rBeat := 0,
    wState := .idle, wAddr := 0, wLastBeat := 0, wBeat := 0, bvalid := false }

/-- Both descriptors posted, and ENABLE. -/
def bothPosted : RingManager.CsrIn :=
  { baseaddr := 64, ringlen := 4, tail := 2, enable := true, reset := false, irqEn := false,
    errorClear := false }

theorem core_in_order_there_and_back :
    (run (step 32) (start (zeroed 6 3) (handedOver thereAndBack))
        (List.replicate 60 bothPosted)).pipe.finished = 2 ∧
      InOrder thereAndBack (fun _ => 0) (run (step 32) (start (zeroed 6 3) (handedOver thereAndBack))
        (List.replicate 60 bothPosted)) bothPosted := by
  have legal : LegalRun (step 32) (Legal thereAndBack) (start (zeroed 6 3) (handedOver thereAndBack))
      (List.replicate 60 bothPosted ++ [bothPosted]) := by decide +kernel
  exact ⟨by decide +kernel, core_in_order (by decide) (by decide) (by decide) (zeroed 6 3) rfl legal⟩

end ClosedCore

end AxiDma.Verified
