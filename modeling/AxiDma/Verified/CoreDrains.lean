import AxiDma.Verified.CoreCopies

/-! # The core drains

With ENABLE set and TAIL at rest a cycle moves a descriptor on to its next place, or else a
word of a burst moves, an FSM gets nearer to its end or a late `empty` flag falls.  So every
posted descriptor is executed, within a number of cycles that `drains` counts.
-/

namespace AxiDma.Verified

open AxiDma.Lib AxiDma.Rtl
open Pipeline (axiBusy sramBusy)

/-! ## A FIFO at rest -/

theorem Logged.length_into_step {k : Nat} {α : Type} (l : Logged α) (f : Fifo k α) (i : Fifo.In α) :
    (l.step f i).into.length = l.into.length + i.wrEn.toNat := by
  rw [step, List.length_append, Fifo.length_written]

/-- Words that the flag does not show yet. -/
def Late {k : Nat} {α : Type} (f : Fifo k α) : Prop := f.empty = true ∧ f.contents ≠ []

/-- Without a read the flag only falls, and it falls when it is late. -/
theorem Fifo.empty_step_le {k : Nat} {α : Type} {f : Fifo k α} (ok : f.Ok) {i : Fifo.In α}
    (idle : i.rdEn = false) :
    (f.step i).empty.toNat ≤ f.empty.toNat ∧ (Late f → (f.step i).empty.toNat < f.empty.toNat) := by
  rw [Fifo.empty_step, Fifo.remaining_of_idle idle]
  cases empty : f.empty with
  | true =>
    refine ⟨Bool.toNat_le _, fun late => ?_⟩
    rw [List.isEmpty_eq_false_iff.mpr late.2]
    exact Nat.zero_lt_one
  | false =>
    rw [ok.contents_eq_cons empty]
    exact ⟨Nat.le_refl 0, fun late => absurd late.1 (by simp [empty])⟩

theorem Fifo.contents_of_not_late {k : Nat} {α : Type} {f : Fifo k α} (shown : ¬ Late f)
    (empty : f.empty = true) : f.contents = [] := by
  by_contra some
  exact shown ⟨empty, some⟩

namespace ClosedCore

variable {k addrWidth : Nat} {ring : PostedRing} {r : ClosedCore k addrWidth}
  {csr : RingManager.CsrIn} {bram : BitVec addrWidth → Word} {memWords : Nat}

/-! ## Events -/

def mtIn (memWords : Nat) (r : ClosedCore k addrWidth) (csr : RingManager.CsrIn) :
    MovementTop.In addrWidth := DmaCore.mtIn r.pipe.core (r.coreIn memWords csr)

/-- How often a descriptor has come to its next place. -/
def events (r : ClosedCore k addrWidth) : Nat :=
  r.pipe.accepted.length + r.pipe.dfIn.into.length + r.pipe.dfIn.outOf.length +
    r.pipe.dfOut.into.length + r.pipe.dfOut.outOf.length + r.pipe.descToDm.into.length +
    r.pipe.descToDm.outOf.length + r.pipe.paired.length + r.pipe.dmAxi.outOf.length +
    r.pipe.dmSram.outOf.length + r.pipe.finished + r.pipe.tally.answered

/-- No descriptor comes to its next place. -/
structure Quiet (memWords : Nat) (r : ClosedCore k addrWidth) (csr : RingManager.CsrIn) : Prop where
  fetchHs : DmaCore.fetchHs r.pipe.core (r.coreIn memWords csr) = false
  dfInWrEn : r.pipe.core.mt.df.dfInWrEn = false
  dfInRdEn : (r.axiOut memWords csr).dfInRdEn = false
  dfOutWrEn : (r.axiOut memWords csr).dfOutWrEn = false
  dfOutRdEn : DescriptorFetcher.dfOutRdEn (MovementTop.dfIn r.pipe.core.mt (r.mtIn memWords csr)) = false
  dmInWrEn : r.pipe.core.mt.df.dmInWrEn = false
  dfDmInRdEn : DataMover.dfDmInRdEn r.pipe.core.mt.dataMover (MovementTop.dmIn r.pipe.core.mt) = false
  wrEn : DataMover.wrEn r.pipe.core.mt.dataMover (MovementTop.dmIn r.pipe.core.mt) = false
  axiRdEn : (r.axiOut memWords csr).dmInRdEn = false
  sramRdEn : (MovementTop.sramOut r.pipe.core.mt (r.mtIn memWords csr)).dmInRdEn = false
  handshakeDone : Engines.handshakeDone r.pipe.core.mt.engines = false
  dmDone : r.pipe.core.mt.dmDone = false

theorem length_ite {α : Type} (b : Bool) (a : α) : (if b then [a] else []).length = b.toNat := by
  cases b <;> rfl

/-- A cycle has an event or is quiet. -/
theorem events_step (noError : DmaCore.dfError r.pipe.core (r.coreIn memWords csr) = false) :
    r.events < (r.step memWords csr).events ∨
      (r.step memWords csr).events = r.events ∧ Quiet memWords r csr := by
  have accepted : (r.step memWords csr).pipe.accepted.length = r.pipe.accepted.length +
      (DmaCore.fetchHs r.pipe.core (r.coreIn memWords csr)).toNat :=
    List.length_append.trans (congrArg _ (length_ite ..))
  have paired : (r.step memWords csr).pipe.paired.length = r.pipe.paired.length +
      (DataMover.wrEn r.pipe.core.mt.dataMover (MovementTop.dmIn r.pipe.core.mt)).toNat :=
    List.length_append.trans (congrArg _ (length_ite ..))
  have dfInInto : (r.step memWords csr).pipe.dfIn.into.length = r.pipe.dfIn.into.length +
      r.pipe.core.mt.df.dfInWrEn.toNat := Logged.length_into_step ..
  have dfInOut : (r.step memWords csr).pipe.dfIn.outOf.length = r.pipe.dfIn.outOf.length +
      (r.axiOut memWords csr).dfInRdEn.toNat := Logged.length_outOf_step ..
  have dfOutInto : (r.step memWords csr).pipe.dfOut.into.length = r.pipe.dfOut.into.length +
      (r.axiOut memWords csr).dfOutWrEn.toNat := Logged.length_into_step ..
  have dfOutOut : (r.step memWords csr).pipe.dfOut.outOf.length = r.pipe.dfOut.outOf.length +
      (DescriptorFetcher.dfOutRdEn (MovementTop.dfIn r.pipe.core.mt (r.mtIn memWords csr))).toNat :=
    Logged.length_outOf_step ..
  have descInto : (r.step memWords csr).pipe.descToDm.into.length = r.pipe.descToDm.into.length +
      r.pipe.core.mt.df.dmInWrEn.toNat := Logged.length_into_step ..
  have descOut : (r.step memWords csr).pipe.descToDm.outOf.length = r.pipe.descToDm.outOf.length +
      (DataMover.dfDmInRdEn r.pipe.core.mt.dataMover (MovementTop.dmIn r.pipe.core.mt)).toNat :=
    Logged.length_outOf_step ..
  have axi : (r.step memWords csr).pipe.dmAxi.outOf.length = r.pipe.dmAxi.outOf.length +
      (r.axiOut memWords csr).dmInRdEn.toNat := Logged.length_outOf_step ..
  have sram : (r.step memWords csr).pipe.dmSram.outOf.length = r.pipe.dmSram.outOf.length +
      (MovementTop.sramOut r.pipe.core.mt (r.mtIn memWords csr)).dmInRdEn.toNat :=
    Logged.length_outOf_step ..
  have finished : (r.step memWords csr).pipe.finished =
      r.pipe.finished + (Engines.handshakeDone r.pipe.core.mt.engines).toNat := rfl
  have answered : (r.step memWords csr).pipe.tally.answered = r.pipe.tally.answered +
      r.pipe.core.mt.dmDone.toNat + (DmaCore.dfError r.pipe.core (r.coreIn memWords csr)).toNat := rfl
  rw [noError, Bool.toNat_false, Nat.add_zero] at answered
  by_cases same : (r.step memWords csr).events = r.events
  · refine .inr ⟨same, ?_⟩
    unfold events at same
    constructor <;> apply Bool.toNat_eq_zero.mp <;> omega
  · unfold events at same ⊢
    omega

/-! ## How many there can be -/

/-- The places of the path, from its end to its beginning. -/
theorem Inv.counts (inv : Inv ring r) (none : r.pipe.errors = []) :
    r.pipe.finished ≤ r.pipe.tally.answered + 1 ∧ r.pipe.tally.answered ≤ r.pipe.finished ∧
      r.pipe.finished ≤ r.pipe.dmAxi.outOf.length ∧ r.pipe.dmAxi.outOf.length ≤ r.pipe.paired.length ∧
      r.pipe.finished ≤ r.pipe.dmSram.outOf.length ∧ r.pipe.dmSram.outOf.length ≤ r.pipe.paired.length ∧
      r.pipe.paired.length ≤ r.pipe.descToDm.outOf.length ∧
      r.pipe.descToDm.outOf.length ≤ r.pipe.descToDm.into.length ∧
      r.pipe.descToDm.into.length ≤ r.pipe.dfOut.outOf.length ∧
      r.pipe.dfOut.outOf.length ≤ r.pipe.dfOut.into.length ∧
      r.pipe.dfOut.into.length ≤ r.pipe.dfIn.outOf.length ∧
      r.pipe.dfIn.outOf.length ≤ r.pipe.dfIn.into.length ∧
      r.pipe.dfIn.into.length ≤ r.pipe.accepted.length ∧
      r.pipe.accepted.length ≤ r.posting.posted := by
  have pipe := inv.pipe
  have answered := pipe.answered
  have pulse := Bool.toNat_le r.pipe.core.mt.dmDone
  rw [none, List.length_nil] at answered
  have axi := pipe.dmAxiHolds.length
  have sram := pipe.dmSramHolds.length
  rw [pipe.axiPairs, List.length_map] at axi
  rw [pipe.sramPairs, List.length_map] at sram
  have axiStarted := pipe.axiStarted
  have sramStarted := pipe.sramStarted
  have moved := congrArg List.length pipe.moved
  have descToDm := pipe.descToDmHolds.length
  have goods := congrArg List.length pipe.goods
  have some : (r.pipe.popped.filter (!DescriptorFetcher.outOfRange ·)).length ≤
      r.pipe.dfOut.outOf.length := List.length_filter_le ..
  have dfOut := pipe.dfOutHolds.length
  have descs := congrArg List.length pipe.fetches.descs
  have addrs := congrArg List.length pipe.fetches.addrs
  have dfIn := pipe.dfInHolds.length
  have handles := congrArg List.length pipe.handles
  have posted := inv.accepted_le
  simp only [List.length_append, List.length_map] at moved goods descs addrs handles
  refine ⟨?_, ?_, ?_, ?_, ?_, ?_, ?_, ?_, ?_, ?_, ?_, ?_, ?_, posted⟩ <;> omega

theorem Inv.events_le (inv : Inv ring r) (none : r.pipe.errors = []) :
    r.events ≤ 12 * r.posting.posted := by
  have counts := inv.counts none
  unfold events
  omega

theorem Inv.le_events (inv : Inv ring r) (none : r.pipe.errors = []) :
    12 * r.pipe.finished ≤ r.events + 1 := by
  have counts := inv.counts none
  unfold events
  omega

/-! ## What else moves -/

/-- Late flags between the modules. -/
def flags (r : ClosedCore k addrWidth) : Nat :=
  r.pipe.core.mt.dfInFifo.empty.toNat + r.pipe.core.mt.dfOutFifo.empty.toNat +
    r.pipe.core.mt.descToDmFifo.empty.toNat + r.pipe.core.mt.dmFifoAxi.empty.toNat +
    r.pipe.core.mt.dmFifoSram.empty.toNat

def AnyLate (r : ClosedCore k addrWidth) : Prop :=
  Late r.pipe.core.mt.dfInFifo ∨ Late r.pipe.core.mt.dfOutFifo ∨ Late r.pipe.core.mt.descToDmFifo ∨
    Late r.pipe.core.mt.dmFifoAxi ∨ Late r.pipe.core.mt.dmFifoSram

theorem Inv.flags_step (inv : Inv ring r) (quiet : Quiet memWords r csr) :
    (r.step memWords csr).flags ≤ r.flags ∧ (r.AnyLate → (r.step memWords csr).flags < r.flags) := by
  have dfIn := Fifo.empty_step_le inv.pipe.dfInHolds.ok
    (i := MovementTop.dfInFifoIn r.pipe.core.mt (r.mtIn memWords csr)) quiet.dfInRdEn
  have dfOut := Fifo.empty_step_le inv.pipe.dfOutHolds.ok
    (i := MovementTop.dfOutFifoIn r.pipe.core.mt (r.mtIn memWords csr)) quiet.dfOutRdEn
  have descToDm := Fifo.empty_step_le inv.pipe.descToDmHolds.ok
    (i := MovementTop.descToDmFifoIn r.pipe.core.mt) quiet.dfDmInRdEn
  have axi := Fifo.empty_step_le inv.pipe.dmAxiHolds.ok
    (i := MovementTop.dmFifoAxiIn r.pipe.core.mt (r.mtIn memWords csr)) quiet.axiRdEn
  have sram := Fifo.empty_step_le inv.pipe.dmSramHolds.ok
    (i := MovementTop.dmFifoSramIn r.pipe.core.mt (r.mtIn memWords csr)) quiet.sramRdEn
  have next : (r.step memWords csr).flags =
      (r.pipe.core.mt.dfInFifo.step (MovementTop.dfInFifoIn r.pipe.core.mt (r.mtIn memWords csr))).empty.toNat +
      (r.pipe.core.mt.dfOutFifo.step (MovementTop.dfOutFifoIn r.pipe.core.mt (r.mtIn memWords csr))).empty.toNat +
      (r.pipe.core.mt.descToDmFifo.step (MovementTop.descToDmFifoIn r.pipe.core.mt)).empty.toNat +
      (r.pipe.core.mt.dmFifoAxi.step (MovementTop.dmFifoAxiIn r.pipe.core.mt (r.mtIn memWords csr))).empty.toNat +
      (r.pipe.core.mt.dmFifoSram.step
        (MovementTop.dmFifoSramIn r.pipe.core.mt (r.mtIn memWords csr))).empty.toNat := rfl
  rw [next, flags]
  refine ⟨by omega, fun late => ?_⟩
  rcases late with late | late | late | late | late
  · have := dfIn.2 late
    omega
  · have := dfOut.2 late
    omega
  · have := descToDm.2 late
    omega
  · have := axi.2 late
    omega
  · have := sram.2 late
    omega

def moverLeft (r : ClosedCore k addrWidth) : Nat :=
  if r.pipe.core.mt.dataMover.state = .decode then 1 else 0

theorem moverLeft_step (quiet : Quiet memWords r csr) :
    (r.step memWords csr).moverLeft ≤ r.moverLeft ∧
      (r.pipe.core.mt.dataMover.state = .decode →
        (r.step memWords csr).moverLeft < r.moverLeft) := by
  have noRead := quiet.dfDmInRdEn
  have next : (r.step memWords csr).pipe.core.mt.dataMover =
      DataMover.next r.pipe.core.mt.dataMover (MovementTop.dmIn r.pipe.core.mt) := rfl
  unfold moverLeft
  rw [next]
  unfold DataMover.dfDmInRdEn at noRead
  cases state : r.pipe.core.mt.dataMover.state with
  | getData =>
    rw [state] at noRead
    have empty : (MovementTop.dmIn r.pipe.core.mt).dfDmInEmpty = true := by simpa using noRead
    simp [DataMover.next, state, empty]
  | decode => simp [DataMover.next, state]
  | sendInstr =>
    unfold DataMover.next
    simp only [state]
    split <;> simp [state]

/-- Cycles the master is from its end, beside the beats of a burst. -/
def axiLeft (r : ClosedCore k addrWidth) : Nat :=
  match r.pipe.core.mt.engines.axi.state with
  | .dfGet | .dfAr => 5
  | .dfR => r.pipe.rLeft
  | .dfPush => 0
  | _ => Job.axiStage r.pipe.core.mt.engines.axi r.mem.bvalid

/-- The master sees neither a handle nor an instruction. -/
def AxiRests (r : ClosedCore k addrWidth) : Prop :=
  r.pipe.core.mt.engines.axi.state = .idle ∧ r.pipe.core.mt.dfInFifo.empty = true ∧
    r.pipe.core.mt.dmFifoAxi.empty = true

theorem Inv.engines_step (inv : Inv ring r) (memWords : Nat) :
    (r.step memWords csr).pipe.core.mt.engines =
      (r.chain.job.step (DataPath.enginesIn r.chain.path (r.pathIn memWords csr))).eng := by
  rw [Transfer.step, inv.eng, inv.views.path]
  rfl

theorem not_apart_of_busy {s : AxiMaster.State} (busy : axiBusy s = true) : ¬ AxiApart s := by
  unfold axiBusy at busy
  unfold AxiApart
  cases state : s.state <;> simp_all

/-- Without an event the master keeps its instruction, or goes on without one. -/
theorem axiBusy_of_quiet (quiet : Quiet memWords r csr) :
    axiBusy (r.step memWords csr).pipe.core.mt.engines.axi =
      axiBusy r.pipe.core.mt.engines.axi := by
  have next := Pipeline.axiBusy_next r.pipe.core.mt.engines.axi (Engines.axiIn r.pipe.core.mt.engines
    (MovementTop.enginesIn r.pipe.core.mt (r.mtIn memWords csr)))
  have none : (AxiMaster.out r.pipe.core.mt.engines.axi (Engines.axiIn r.pipe.core.mt.engines
      (MovementTop.enginesIn r.pipe.core.mt (r.mtIn memWords csr)))).dmInRdEn = false := quiet.axiRdEn
  have running : ((Engines.axiIn r.pipe.core.mt.engines (MovementTop.enginesIn r.pipe.core.mt
      (r.mtIn memWords csr))).sramDone && AxiMaster.axiDone r.pipe.core.mt.engines.axi) = false :=
    quiet.handshakeDone
  rw [none, running] at next
  rw [Bool.eq_iff_iff, ← Bool.toNat_eq_one, ← Bool.toNat_eq_one]
  exact Eq.to_iff (congrArg (· = 1) next)

theorem axiLeft_of_busy (busy : axiBusy r.pipe.core.mt.engines.axi = true) :
    r.axiLeft = Job.axiStage r.pipe.core.mt.engines.axi r.mem.bvalid := by
  unfold axiBusy at busy
  cases state : r.pipe.core.mt.engines.axi.state <;> simp_all [axiLeft]

theorem Inv.running (inv : Inv ring r) (quiet : Quiet memWords r csr) : r.chain.done = false := by
  rw [Chain.done, inv.views.path]
  exact quiet.handshakeDone

/-- A cycle of the job in progress, once the master has its instruction. -/
theorem Inv.cycle (inv : Inv ring r) (quiet : Quiet memWords r csr) {p : Pair}
    (current : Chain.Current r.chain p) :
    Job.Cycle memWords p r.chain.job r.mem
      { DataPath.enginesIn r.chain.path (r.pathIn memWords csr) with dfInEmpty := true } := by
  have running := inv.running quiet
  have legal := inv.transferLegal running current memWords csr
  exact ⟨⟨legal.running, legal.initDone, legal.axi, legal.sram, legal.slave⟩, rfl, rfl⟩

theorem Inv.axiLeft_step (inv : Inv ring r) (quiet : Quiet memWords r csr) {p : Pair}
    (current : Chain.Current r.chain p) :
    (r.step memWords csr).axiLeft ≤ r.axiLeft ∧
      (¬ Job.AxiMoves r.pipe.core.mt.engines.axi → ¬ AxiRests r →
        (r.step memWords csr).axiLeft < r.axiLeft) := by
  have keeps := axiBusy_of_quiet quiet
  have axi := congrArg AxiMaster.State.state (axi_step r csr memWords)
  rw [AxiMaster.next_state] at axi
  cases state : r.pipe.core.mt.engines.axi.state with
  | idle =>
    rw [state] at axi
    simp only [Engines.axiIn, MovementTop.enginesIn] at axi
    cases fetch : r.pipe.core.mt.dfInFifo.empty with
    | false => simp [axiLeft, state, axi, fetch, Job.axiStage]
    | true =>
      cases instr : r.pipe.core.mt.dmFifoAxi.empty with
      | false => simp [axiLeft, state, axi, fetch, instr, Job.axiStage]
      | true => simp [axiLeft, AxiRests, state, axi, fetch, instr, Job.axiStage]
  | dfGet =>
    have takes := quiet.dfInRdEn
    rw [axiOut, MovementTop.axiOut, Engines.axiOut, AxiMaster.dfInRdEn_eq, state] at takes
    cases takes
  | dfAr =>
    simp only [axiLeft, state, axi_of_dfAr inv state memWords csr,
      rLeft_of_dfAr inv state memWords csr]
    omega
  | dfR =>
    obtain ⟨-, -, left⟩ := inv.issues (.inl state)
    have next := axi_of_dfR inv state memWords csr
    have count := rLeft_of_dfR inv state memWords csr
    by_cases last : r.pipe.rLeft = 1
    · rw [if_pos last] at next
      simp only [axiLeft, state, next]
      omega
    · rw [if_neg last] at next
      simp only [axiLeft, state, next, count]
      omega
  | dfPush =>
    have pushes := quiet.dfOutWrEn
    have room : r.pipe.core.mt.dfOutFifo.full = false := inv.room_dfOut
    rw [axiOut, MovementTop.axiOut, Engines.axiOut, AxiMaster.dfOutWrEn_eq, state] at pushes
    simp [Engines.axiIn, MovementTop.enginesIn, room] at pushes
  | dmGet =>
    have takes := quiet.axiRdEn
    rw [axiOut, MovementTop.axiOut, Engines.axiOut, AxiMaster.dmInRdEn_eq, state] at takes
    cases takes
  | dmRdAr | dmRdR | dmWrAw | dmWrW | dmWrB | waitSram =>
    -- the master has an instruction: `axiStage`, whatever the fetch FIFO shows
    have busy : axiBusy r.pipe.core.mt.engines.axi = true := by simp [axiBusy, state]
    have apart : ¬ AxiApart r.chain.job.eng.axi := inv.eng ▸ not_apart_of_busy busy
    have works : r.chain.job.eng.axi.state ≠ .idle := fun idle => apart (.inl idle)
    have stage := Job.axiStage_step (inv.served current apart) (inv.cycle quiet current)
      { wrEn := false, addr := 0, wdata := 0 }
    rw [Transfer.step_of_not_idle works, (Engines.step_of_not_idle works _).1, ← inv.engines_step,
      ← mem_step inv] at stage
    rw [axiLeft_of_busy busy, axiLeft_of_busy (keeps.trans busy), ← inv.eng]
    exact ⟨stage.1, fun moves _ => stage.2 moves fun idle => absurd idle works⟩

/-- What the words of the job in progress still take. -/
def jobLeft (r : ClosedCore k addrWidth) : Nat :=
  match r.chain.sent[r.chain.finished]? with
  | some d => Job.wordsLeft (pairOf d) r.chain.job
  | none => 0

theorem Inv.known_step (inv : Inv ring r) (quiet : Quiet memWords r csr) :
    (r.step memWords csr).chain.sent[(r.step memWords csr).chain.finished]? =
      r.chain.sent[r.chain.finished]? := by
  have sent : (r.step memWords csr).chain.sent = r.chain.sent ++
      if DataMover.wrEn r.chain.path.dataMover (DataPath.dmIn r.chain.path (r.pathIn memWords csr)) then
        [r.chain.path.dataMover.inputData] else [] := rfl
  have none : DataMover.wrEn r.chain.path.dataMover
      (DataPath.dmIn r.chain.path (r.pathIn memWords csr)) = false := by
    rw [inv.views.path]
    exact quiet.wrEn
  rw [sent, none, (job_of_running (inv.running quiet) memWords csr).2]
  simp

theorem Inv.jobLeft_step (inv : Inv ring r) (quiet : Quiet memWords r csr) :
    (r.step memWords csr).jobLeft ≤ r.jobLeft ∧
      ∀ d, r.chain.sent[r.chain.finished]? = some d →
        Job.WordMoves r.chain.job (DataPath.enginesIn r.chain.path (r.pathIn memWords csr)) →
          (r.step memWords csr).jobLeft < r.jobLeft := by
  have running := inv.running quiet
  unfold jobLeft
  rw [inv.known_step quiet]
  cases known : r.chain.sent[r.chain.finished]? with
  | none => simp
  | some d =>
    have current : Chain.Current r.chain (pairOf d) := by
      intro e sent
      rw [Option.some.inj (known.symm.trans sent)]
    have words := Job.wordsLeft_step (inv.chain.flow _ current)
      (inv.transferLegal running current memWords csr)
    rw [(job_of_running running memWords csr).1]
    exact ⟨words.1, fun _ _ moves => words.2 moves⟩

/-- What is left to do before the next event. -/
def detail (r : ClosedCore k addrWidth) : Nat :=
  r.flags + r.moverLeft + r.axiLeft + Job.sramStage r.pipe.core.mt.engines.sram + r.jobLeft

theorem Inv.detail_le (inv : Inv ring r) : r.detail ≤ 1291 := by
  have flags : r.flags ≤ 5 := by
    have late (b : Bool) : b.toNat ≤ 1 := Bool.toNat_le b
    have dfIn := late r.pipe.core.mt.dfInFifo.empty
    have dfOut := late r.pipe.core.mt.dfOutFifo.empty
    have descToDm := late r.pipe.core.mt.descToDmFifo.empty
    have axi := late r.pipe.core.mt.dmFifoAxi.empty
    have sram := late r.pipe.core.mt.dmFifoSram.empty
    unfold ClosedCore.flags
    omega
  have mover : r.moverLeft ≤ 1 := by
    unfold moverLeft
    split <;> decide
  have axi : r.axiLeft ≤ 6 := by
    cases state : r.pipe.core.mt.engines.axi.state with
    | dfR =>
      obtain ⟨-, -, four⟩ := inv.fetching state
      simp only [axiLeft, state]
      omega
    | dmWrB =>
      simp only [axiLeft, Job.axiStage, state]
      split <;> decide
    | _ => simp [axiLeft, Job.axiStage, state]
  have sram : Job.sramStage r.pipe.core.mt.engines.sram ≤ 3 := by
    cases state : r.pipe.core.mt.engines.sram.state <;> simp [Job.sramStage, state]
  have job : r.jobLeft ≤ 1276 := by
    unfold jobLeft
    split
    · rename_i d _
      have count := beats_le (pairOf d).len
      have flag := Bool.toNat_le r.chain.job.eng.mid.empty
      unfold Job.wordsLeft
      omega
    · exact Nat.zero_le _
  unfold detail
  omega

/-- Nothing moves that `detail` counts. -/
structure Stuck (memWords : Nat) (r : ClosedCore k addrWidth) (csr : RingManager.CsrIn) : Prop where
  flags : ¬ AnyLate r
  mover : r.pipe.core.mt.dataMover.state ≠ .decode
  axi : Job.AxiMoves r.pipe.core.mt.engines.axi ∨ AxiRests r
  sram : Job.SramMoves r.pipe.core.mt.engines.sram ∨
    r.pipe.core.mt.engines.sram.state = .idle ∧ r.pipe.core.mt.dmFifoSram.empty = true
  words : ∀ d, r.chain.sent[r.chain.finished]? = some d →
    ¬ Job.WordMoves r.chain.job (DataPath.enginesIn r.chain.path (r.pathIn memWords csr))

theorem Inv.sramStage_step (inv : Inv ring r) (quiet : Quiet memWords r csr) :
    Job.sramStage (r.step memWords csr).pipe.core.mt.engines.sram ≤
        Job.sramStage r.pipe.core.mt.engines.sram ∧
      (¬ Job.SramMoves r.pipe.core.mt.engines.sram →
        ¬ (r.pipe.core.mt.engines.sram.state = .idle ∧ r.pipe.core.mt.dmFifoSram.empty = true) →
          Job.sramStage (r.step memWords csr).pipe.core.mt.engines.sram <
            Job.sramStage r.pipe.core.mt.engines.sram) := by
  obtain ⟨p, current⟩ := Chain.exists_current r.chain
  have stage := Job.sramStage_step (inv.transferLegal (inv.running quiet) current memWords csr)
  rw [← inv.engines_step, inv.eng] at stage
  refine ⟨stage.1, fun moves rests => stage.2 moves fun idle => ?_⟩
  have shown : (DataPath.enginesIn r.chain.path (r.pathIn memWords csr)).dmInEmptySram =
      r.pipe.core.mt.dmFifoSram.empty := by
    rw [inv.views.path]
    rfl
  rw [shown]
  exact Bool.eq_false_of_not_eq_true fun empty => rests ⟨idle, empty⟩

/-- A quiet cycle that is not stuck leaves less. -/
theorem Inv.detail_step (inv : Inv ring r) (quiet : Quiet memWords r csr)
    (moves : ¬ Stuck memWords r csr) : (r.step memWords csr).detail < r.detail := by
  obtain ⟨p, current⟩ := Chain.exists_current r.chain
  have flags := inv.flags_step quiet
  have mover := moverLeft_step quiet
  have axi := inv.axiLeft_step quiet current
  have sram := inv.sramStage_step quiet
  have words := inv.jobLeft_step quiet
  by_contra least
  unfold detail at least
  refine moves ⟨fun late => ?_, fun decode => ?_, ?_, ?_, fun d known wordMoves => ?_⟩
  · have := flags.2 late
    omega
  · have := mover.2 decode
    omega
  · by_contra none
    rw [not_or] at none
    have := axi.2 none.1 none.2
    omega
  · by_contra none
    rw [not_or] at none
    have := sram.2 none.1 none.2
    omega
  · have := words.2 d known wordMoves
    omega

/-! ## Nothing stands still -/

/-- A master that waits for a word gets one: both engines have the pair of the job. -/
theorem Runs.not_moves (runs : Runs ring bram r) (small : addrWidth ≤ 16)
    (quiet : Quiet memWords r csr) (stuck : Stuck memWords r csr) :
    ¬ Job.AxiMoves r.pipe.core.mt.engines.axi := by
  intro axiMoves
  have inv := runs.inv
  have busy : axiBusy r.pipe.core.mt.engines.axi = true := by
    rcases axiMoves with state | state | state <;> simp [axiBusy, state]
  have axi := inv.pipe.dmAxiHolds.length
  have sram := inv.pipe.dmSramHolds.length
  have axiStarted := inv.pipe.axiStarted
  rw [inv.pipe.axiPairs, List.length_map] at axi
  rw [inv.pipe.sramPairs, List.length_map] at sram
  rw [busy, Bool.toNat_true] at axiStarted
  -- the SRAM controller has its half as well
  have sramMoves : Job.SramMoves r.pipe.core.mt.engines.sram := by
    apply stuck.sram.resolve_right
    intro rests
    obtain ⟨idle, empty⟩ := rests
    have late : ¬ Late r.pipe.core.mt.dmFifoSram := fun late =>
      stuck.flags (.inr (.inr (.inr (.inr late))))
    have none := congrArg List.length (Fifo.contents_of_not_late late empty)
    have sramStarted := inv.pipe.sramStarted
    have free : sramBusy r.pipe.core.mt.engines.sram = false := by simp [sramBusy, idle]
    rw [free, Bool.toNat_false] at sramStarted
    rw [List.length_nil] at none
    omega
  have less : r.chain.finished < r.chain.sent.length := by
    rw [inv.views.finished, inv.views.sent]
    omega
  have known := List.getElem?_eq_getElem less
  obtain ⟨slot, posted⟩ := runs.sent small known
  have current : Chain.Current r.chain (pairOf (r.chain.sent[r.chain.finished])) := by
    intro e sent
    rw [Option.some.inj (known.symm.trans sent)]
  have apart : ¬ AxiApart r.chain.job.eng.axi := inv.eng ▸ not_apart_of_busy busy
  have served := inv.served current apart
  have cycle := inv.cycle quiet current
  rw [← inv.eng] at axiMoves sramMoves
  have wordMoves := by
    cases dir : (pairOf (r.chain.sent[r.chain.finished])).toSram with
    | true => exact Job.wordMoves_toSram served cycle dir axiMoves sramMoves
    | false =>
      have fits := (runs.good _ posted).fits
      rw [← slot] at fits
      exact Job.wordMoves_fromSram served cycle dir (fits.some dir) axiMoves sramMoves
  -- the same word, whatever the fetch FIFO shows
  have same : Engines.midIn r.chain.job.eng
      { DataPath.enginesIn r.chain.path (r.pathIn memWords csr) with dfInEmpty := true } =
        Engines.midIn r.chain.job.eng (DataPath.enginesIn r.chain.path (r.pathIn memWords csr)) := by
    rw [Engines.midIn, (Engines.step_of_not_idle (fun idle => apart (.inl idle)) _).1]
    rfl
  rw [Job.WordMoves, same] at wordMoves
  exact stuck.words _ known wordMoves

/-- The counter is exact and no error is pending. -/
structure Exact (r : ClosedCore k addrWidth) : Prop where
  count : r.pipe.tally.accepted = r.pipe.tally.answered + r.pipe.core.rm.inflightCount.toNat
  clear : r.pipe.core.rm.intStatusError = false

theorem exact_start (s : DmaCore.State k addrWidth) (mem : Rtl.SysMem.State) :
    Exact (start s mem) := ⟨rfl, rfl⟩

theorem dfError_of_none (none : (r.step memWords csr).pipe.errors = []) :
    DmaCore.dfError r.pipe.core (r.coreIn memWords csr) = false := by
  have errors : (r.step memWords csr).pipe.errors = r.pipe.errors ++
      if DmaCore.dfError r.pipe.core (r.coreIn memWords csr) then [r.pipe.core.mt.dfOutFifo.dout]
        else [] := rfl
  rw [errors] at none
  have last := (List.append_eq_nil_iff.mp none).2
  cases error : DmaCore.dfError r.pipe.core (r.coreIn memWords csr) with
  | false => rfl
  | true => simp [error] at last

theorem Exact.step (exact : Exact r) (inv : Inv ring r) (legal : Legal ring r csr)
    (none : (r.step memWords csr).pipe.errors = []) : Exact (r.step memWords csr) := by
  have noError := dfError_of_none none
  have next : (r.step memWords csr).pipe.core.rm = RingManager.step r.pipe.core.rm
      (DmaCore.rmIn r.pipe.core (r.coreIn memWords csr)) := rfl
  rw [RingManager.step_of_run rfl legal.noReset] at next
  constructor
  · have asked := inv.pipe.asked (i := r.coreIn memWords csr)
    have alone : RingManager.ErrorAlone r.pipe.core.rm
        (DmaCore.rmIn r.pipe.core (r.coreIn memWords csr)) := fun error =>
      absurd (noError.symm.trans error) Bool.false_ne_true
    rw [next]
    exact RingManager.count_step_eq (i := DmaCore.rmIn r.pipe.core (r.coreIn memWords csr)) exact.count
      (Nat.le_trans asked (Nat.le_add_right ..)) alone
  · have error : (DmaCore.rmIn r.pipe.core (r.coreIn memWords csr)).dfError = false := noError
    rw [next]
    simp [RingManager.intStatusErrorNext, error, exact.clear]

/-- A master at rest is where everything in front of it is empty as well. -/
theorem Inv.inside_of_rests (inv : Inv ring r) (quiet : Quiet memWords r csr)
    (stuck : Stuck memWords r csr) (rests : AxiRests r) : Pipeline.inside r.pipe = 0 := by
  obtain ⟨idle, noHandle, noInstr⟩ := rests
  have few := inv.pipe.inside_le
  have dfIn := Fifo.contents_of_not_late (fun late => stuck.flags (.inl late)) noHandle
  have axi := Fifo.contents_of_not_late
    (fun late => stuck.flags (.inr (.inr (.inr (.inl late))))) noInstr
  have descRoom : r.pipe.core.mt.descToDmFifo.full = false := by
    apply Fifo.full_eq_false_of_lt
    unfold Pipeline.inside at few
    change _ < 16
    omega
  have dfOut : r.pipe.core.mt.dfOutFifo.contents = [] := by
    apply Fifo.contents_of_not_late fun late => stuck.flags (.inr (.inl late))
    have pops := quiet.dfOutRdEn
    unfold DescriptorFetcher.dfOutRdEn at pops
    simpa [MovementTop.dfIn, descRoom] using pops
  have axiRoom : r.pipe.core.mt.dmFifoAxi.full = false := by
    apply Fifo.full_eq_false_of_lt
    rw [axi]
    exact Nat.two_pow_pos _
  have sramRoom : r.pipe.core.mt.dmFifoSram.full = false := by
    apply Fifo.full_eq_false_of_lt
    have axiLength := inv.pipe.dmAxiHolds.length
    have sramLength := inv.pipe.dmSramHolds.length
    have axiStarted := inv.pipe.axiStarted
    have sramStarted := inv.pipe.sramStarted
    rw [inv.pipe.axiPairs, List.length_map, axi] at axiLength
    rw [inv.pipe.sramPairs, List.length_map] at sramLength
    have one := Bool.toNat_le (axiBusy r.pipe.core.mt.engines.axi)
    change _ < 16
    rw [List.length_nil] at axiLength
    omega
  have mover : r.pipe.core.mt.dataMover.state = .getData := by
    have sends := quiet.wrEn
    unfold DataMover.wrEn at sends
    cases state : r.pipe.core.mt.dataMover.state with
    | getData => rfl
    | decode => exact absurd state stuck.mover
    | sendInstr => simp [MovementTop.dmIn, state, axiRoom, sramRoom] at sends
  have descToDm : r.pipe.core.mt.descToDmFifo.contents = [] := by
    apply Fifo.contents_of_not_late fun late => stuck.flags (.inr (.inr (.inl late)))
    have takes := quiet.dfDmInRdEn
    unfold DataMover.dfDmInRdEn at takes
    simpa [MovementTop.dmIn, mover] using takes
  have held : (DescriptorFetcher.heldHandle r.pipe.core.mt.df).length = 0 ∧
      (DescriptorFetcher.heldDesc r.pipe.core.mt.df).length = 0 := by
    simp [DescriptorFetcher.heldHandle, DescriptorFetcher.heldDesc, quiet.dfInWrEn, quiet.dmInWrEn]
  simp [Pipeline.inside, held, dfIn, axi, dfOut, descToDm, DataMover.held, mover, AxiMaster.heldAddr,
    AxiMaster.heldDesc, idle, axiBusy]

/-- With nothing inside, a descriptor that is posted is asked for. -/
theorem Inv.idle_of_empty (inv : Inv ring r) (exact : Exact r) (legal : Legal ring r csr)
    (enabled : csr.enable = true) (quiet : Quiet memWords r csr) (none : Pipeline.inside r.pipe = 0) :
    Idle r csr := by
  have balance := inv.pipe.accepted_eq
  have count := exact.count
  rw [quiet.dmDone, none, Bool.toNat_false] at balance
  have zero : r.pipe.core.rm.inflightCount.toNat = 0 := by omega
  have room : r.pipe.core.mt.dfInFifo.full = false := by
    apply Fifo.full_eq_false_of_lt
    unfold Pipeline.inside at none
    change _ < 64
    omega
  constructor
  · by_contra some
    have asks : DmaCore.fetchHs r.pipe.core (r.coreIn memWords csr) = true := by
      refine RingManager.fetchHs_iff.mpr ⟨fun same => some ?_, enabled, ?_, ?_, exact.clear, ?_⟩
      · exact beq_iff_eq.mpr same
      · change 0 < csr.ringlen
        rw [legal.length, BitVec.lt_def]
        exact ring.pos
      · rw [zero]
        decide
      · change (!r.pipe.core.mt.dfInFifo.full) = true
        rw [room]
        rfl
    exact absurd (quiet.fetchHs.symm.trans asks) Bool.false_ne_true
  · simpa [RingManager.busy, BitVec.lt_def] using zero

/-- Unless the status is idle, a cycle has an event or leaves less to do before
    the next one. -/
theorem Runs.progress (runs : Runs ring bram r) (small : addrWidth ≤ 16) (exact : Exact r)
    (legal : Legal ring r csr) (enabled : csr.enable = true)
    (noError : DmaCore.dfError r.pipe.core (r.coreIn memWords csr) = false) (works : ¬ Idle r csr) :
    r.events < (r.step memWords csr).events ∨
      (r.step memWords csr).events = r.events ∧ (r.step memWords csr).detail < r.detail := by
  rcases events_step noError with event | ⟨same, quiet⟩
  · exact .inl event
  · refine .inr ⟨same, runs.inv.detail_step quiet fun stuck => works ?_⟩
    have rests := stuck.axi.resolve_left (runs.not_moves small quiet stuck)
    exact runs.inv.idle_of_empty exact legal enabled quiet
      (runs.inv.inside_of_rests quiet stuck rests)

/-! ## The CSR side at rest -/

/-- What holds while the CSR block keeps driving `csr`. -/
structure Held (ring : PostedRing) (bram : BitVec addrWidth → Word) (csr : RingManager.CsrIn)
    (target : Nat) (r : ClosedCore k addrWidth) : Prop where
  runs : Runs ring bram r
  exact : Exact r
  legal : Legal ring r csr
  target : r.postedNow csr = target

theorem postedNow_step (r : ClosedCore k addrWidth) (csr : RingManager.CsrIn) (memWords : Nat) :
    (r.step memWords csr).postedNow csr = r.postedNow csr := by
  have same : slotDistance csr.ringlen.toNat csr.tail.toNat csr.tail.toNat = 0 := slotDistance_self _ _
  change r.postedNow csr + slotDistance csr.ringlen.toNat csr.tail.toNat csr.tail.toNat = _
  rw [same, Nat.add_zero]

theorem Held.step {target : Nat} (held : Held ring bram csr target r) (small : addrWidth ≤ 16)
    (some : 0 < ring.memWords) (deep : 6 ≤ k) :
    Held ring bram csr target (r.step ring.memWords csr) where
  runs := held.runs.step small some deep held.legal
  exact := held.exact.step held.runs.inv held.legal
    ((held.runs.step small some deep held.legal).none small)
  legal :=
    { noReset := held.legal.noReset
      base := held.legal.base
      length := held.legal.length
      tailMove := .inl rfl
      good := by
        rw [postedNow_step]
        exact held.legal.good }
  target := (postedNow_step r csr ring.memWords).trans held.target

/-- The cycles that `n` outstanding descriptors take at most: twelve places each, and what
    is in between. -/
def drains (n : Nat) : Nat := 1292 * (12 * n + 1) + 1291

theorem Held.drains {target : Nat} (held : Held ring bram csr target r) (small : addrWidth ≤ 16)
    (some : 0 < ring.memWords) (deep : 6 ≤ k) (enabled : csr.enable = true) :
    ∃ n ≤ drains (target - r.pipe.finished),
      let last := (fun r => r.step ring.memWords csr)^[n] r
      Idle last csr ∧ Held ring bram csr target last := by
  have few (r : ClosedCore k addrWidth) (held : Held ring bram csr target r) :
      r.events ≤ 12 * target := by
    have le := held.runs.inv.events_le (held.runs.none small)
    have now : r.posting.posted ≤ r.postedNow csr := Nat.le_add_right ..
    rw [held.target] at now
    omega
  obtain ⟨n, within, reached⟩ := exists_iterate_le_of_events (fun r => Idle r csr) events detail few
    (fun r held => held.runs.inv.detail_le) (fun r held => held.step small some deep)
    (fun r held works => held.runs.progress small held.exact held.legal enabled
      (dfError_of_none ((held.step small some deep).runs.none small)) works) held
  have begun := held.runs.inv.le_events (held.runs.none small)
  refine ⟨n, Nat.le_trans within ?_, reached⟩
  have left : 12 * target - r.events ≤ 12 * (target - r.pipe.finished) + 1 := by omega
  unfold ClosedCore.drains
  omega

end ClosedCore

/-- The core drains.  From any state that a legal run reaches, hold the CSR side with ENABLE
    set: within `drains` of what is outstanding the status is idle, and then the memories are the copies of
    everything that is posted. -/
theorem core_drains {k addrWidth : Nat} (deep : 6 ≤ k) (small : addrWidth ≤ 16) {ring : PostedRing}
    (some : 0 < ring.memWords) (s : DmaCore.State k addrWidth) {mem : Rtl.SysMem.State}
    (loaded : mem.ram = ring.ram) {is : List RingManager.CsrIn} {csr : RingManager.CsrIn}
    (legal : LegalRun (ClosedCore.step ring.memWords) (ClosedCore.Legal ring) (ClosedCore.start s mem)
      (is ++ [csr])) (enabled : csr.enable = true) :
    let r := run (ClosedCore.step ring.memWords) (ClosedCore.start s mem) is
    ∃ n ≤ ClosedCore.drains (r.postedNow csr - r.pipe.finished),
      let last := (fun r => r.step ring.memWords csr)^[n] r
      let all := ClosedCore.copies ring s.mt.engines.bram.mem (r.postedNow csr)
      ClosedCore.Idle last csr ∧ last.pipe.finished = r.postedNow csr ∧ last.pipe.errors = [] ∧
        last.mem.ram = all.ram ∧ last.pipe.core.mt.engines.bram.mem = all.bram := by
  obtain ⟨before, last⟩ := legalRun_snoc.mp legal
  have reached := before.invariant
    (P := fun r => ClosedCore.Runs ring s.mt.engines.bram.mem r ∧ ClosedCore.Exact r)
    (fun r csr both legal => ⟨both.1.step small some deep legal,
      both.2.step both.1.inv legal ((both.1.step small some deep legal).none small)⟩)
    ⟨ClosedCore.runs_start s loaded, ClosedCore.exact_start s mem⟩
  intro r
  obtain ⟨n, within, idle, held⟩ :=
    (⟨reached.1, reached.2, last, rfl⟩ : ClosedCore.Held ring _ csr (r.postedNow csr) r).drains
      small some deep enabled
  refine ⟨n, within, idle, ?_⟩
  have order := held.runs.inOrder small some held.legal
  have all := order.idle idle
  rw [held.target] at all
  exact ⟨all.1, order.noError, all.2⟩

namespace ClosedCore

theorem core_drains_there_and_back :
    bothPosted.enable = true ∧ ∃ n ≤ drains 2,
      ((fun r => r.step 32 bothPosted)^[n]
        (start (zeroed 6 3) (handedOver thereAndBack))).mem.ram 2 = 7 := by
  have legal : LegalRun (step thereAndBack.memWords) (Legal thereAndBack)
      (start (zeroed 6 3) (handedOver thereAndBack)) ([] ++ [bothPosted]) := by decide +kernel
  obtain ⟨n, within, -, -, -, ram, -⟩ :=
    core_drains (by decide) (by decide) (by decide) (zeroed 6 3) rfl legal rfl
  exact ⟨rfl, n, within, (congrFun ram 2).trans (by decide +kernel)⟩

end ClosedCore

end AxiDma.Verified
