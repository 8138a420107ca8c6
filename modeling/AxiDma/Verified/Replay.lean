import AxiDma.Verified.Chain

/-! # A list of descriptors through the closed data path

`Replay` closes the data path: the data mover takes its descriptors from a list, `sys_mem`
is the slave, no descriptor is fetched and `init_done` is set.  Every descriptor finishes
unless one of them is a write whose 8-bit length is 0, and that one stops the engines.
-/

namespace AxiDma.Verified

open AxiDma.Lib AxiDma.Rtl
open Pipeline (axiBusy sramBusy)

structure Replay (k addrWidth : Nat) where
  /-- Descriptors the data mover has not taken. -/
  queue : List Desc
  chain : Chain k addrWidth
  mem : Rtl.SysMem.State

namespace Replay

variable {k addrWidth : Nat}

def inputs (memWords : Nat) (r : Replay k addrWidth) : DataPath.In addrWidth :=
  { dfDmInEmpty := r.queue.isEmpty, dfDmInDout := r.queue.headD ⟨0, 0, 0, 0⟩
    dfInEmpty := true, dfInDout := ⟨0, 0⟩, dfOutFull := false
    axi := SysMem.out memWords r.mem
    init := { initDone := true, addr := 0, wrEn := false, din := 0 } }

def enginesIn (memWords : Nat) (r : Replay k addrWidth) : Engines.In addrWidth :=
  DataPath.enginesIn r.chain.path (r.inputs memWords)

/-- The data mover takes the head of the list. -/
def takes (memWords : Nat) (r : Replay k addrWidth) : Bool :=
  DataMover.dfDmInRdEn r.chain.path.dataMover (DataPath.dmIn r.chain.path (r.inputs memWords))

def step (memWords : Nat) (r : Replay k addrWidth) : Replay k addrWidth :=
  { queue := if r.takes memWords then r.queue.tail else r.queue
    chain := r.chain.step (r.inputs memWords)
    mem := SysMem.step memWords r.mem (Engines.axiOut r.chain.path.engines (r.enginesIn memWords)).axi
      { wrEn := false, addr := 0, wdata := 0 } }

/-- All modules after reset, with `ds` to run. -/
def start (ds : List Desc) (path : DataPath.State k addrWidth) (mem : Rtl.SysMem.State) :
    Replay k addrWidth :=
  { queue := ds, chain := Chain.start path, mem := Rtl.SysMem.reset mem }

/-! ## The invariant -/

/-- What the modules hold of the list `ds`, and where the memory is. -/
structure Inv (ds : List Desc) (r : Replay k addrWidth) : Prop where
  chain : Chain.Inv r.chain
  owes : SysMem.ReadOwes r.mem r.chain.job.rLeft
  follows : Job.WriteFollows r.chain.path.engines.axi r.mem
  rests : r.chain.path.engines.axi.state = .waitSram → r.mem.wState = .idle
  stream : ds = r.chain.sent ++ DataMover.held r.chain.path.dataMover ++ r.queue

variable {ds : List Desc} {r : Replay k addrWidth} {memWords : Nat}

theorem inv_start (ds : List Desc) (path : DataPath.State k addrWidth) (mem : Rtl.SysMem.State) :
    Inv ds (start ds path mem) where
  chain := Chain.inv_start path
  owes := rfl
  follows := rfl
  rests := fun _ => rfl
  stream := rfl

theorem Inv.legal (inv : Inv ds r) (memWords : Nat) : Chain.Legal r.chain (r.inputs memWords) :=
  SysMem.slaveLegal_out inv.owes

theorem Inv.stream_step (inv : Inv ds r) (memWords : Nat) :
    ds = (r.step memWords).chain.sent ++
      DataMover.held (r.step memWords).chain.path.dataMover ++ (r.step memWords).queue := by
  have flow := DataMover.held_next r.chain.path.dataMover
    (DataPath.dmIn r.chain.path (r.inputs memWords))
  have queue : r.queue = (if r.takes memWords then [r.queue.headD ⟨0, 0, 0, 0⟩] else []) ++
      (r.step memWords).queue := by
    rw [step]
    cases takes : r.takes memWords with
    | false => rfl
    | true =>
      have some := (Bool.and_eq_true_iff.mp takes).2
      cases queue : r.queue with
      | nil => simp [DataPath.dmIn, inputs, queue] at some
      | cons d rest => rfl
  have sent : (r.step memWords).chain.sent = r.chain.sent ++
      if DataMover.wrEn r.chain.path.dataMover (DataPath.dmIn r.chain.path (r.inputs memWords)) then
        [r.chain.path.dataMover.inputData] else [] := rfl
  have held : DataMover.held (r.step memWords).chain.path.dataMover = DataMover.held
      (DataMover.next r.chain.path.dataMover (DataPath.dmIn r.chain.path (r.inputs memWords))) := rfl
  rw [sent, held, List.append_assoc r.chain.sent, ← flow, ← List.append_assoc, List.append_assoc _ _
    (r.step memWords).queue]
  exact inv.stream.trans (congrArg (_ ++ ·) queue)

/-- The write FSM is back in `W_IDLE` when the master waits for the handshake. -/
theorem rests_step {s : AxiMaster.State} {i : AxiMaster.In} {mem : Rtl.SysMem.State}
    {init : Rtl.SysMem.Init} (follows : Job.WriteFollows s mem)
    (rests : s.state = .waitSram → mem.wState = .idle) (waits : (AxiMaster.next s i).state = .waitSram) :
    (SysMem.step memWords mem (AxiMaster.out s i).axi init).wState = .idle := by
  rw [SysMem.wState_step]
  unfold Job.WriteFollows at follows
  cases state : s.state <;>
    grind [AxiMaster.next_state, AxiMaster.out_eq]

theorem follows_step {s : AxiMaster.State} {i : AxiMaster.In} {mem : Rtl.SysMem.State}
    {init : Rtl.SysMem.Init} (follows : Job.WriteFollows s mem)
    (rests : s.state = .waitSram → mem.wState = .idle) (noFetch : i.dfInEmpty = true)
    (slave : i.axi = SysMem.out memWords mem) :
    Job.WriteFollows (AxiMaster.next s i)
      (SysMem.step memWords mem (AxiMaster.out s i).axi init) := by
  by_cases handshake : s.state = .waitSram ∧ i.sramDone = true
  · obtain ⟨state, done⟩ := handshake
    have idle : (AxiMaster.next s i).state = .idle := by
      simp [AxiMaster.next, AxiMaster.comb, state, done]
    simp [Job.WriteFollows, idle, SysMem.wState_step, rests state, AxiMaster.out, AxiMaster.comb,
      AxiMaster.defaultOut, state]
  · exact Job.writeFollows_step follows noFetch slave fun state =>
      Bool.eq_false_of_not_eq_true fun done => handshake ⟨state, done⟩

theorem Inv.step (inv : Inv ds r) (memWords : Nat) : Inv ds (r.step memWords) where
  chain := inv.chain.step (inv.legal memWords)
  owes := by
    have owes := SysMem.readOwes_step memWords
      (Engines.axiOut r.chain.path.engines (r.enginesIn memWords)).axi
      { wrEn := false, addr := 0, wdata := 0 } inv.owes
    rw [Replay.step, Chain.rLeft_step, Transfer.step, inv.chain.same]
    exact owes
  follows := follows_step (i := Engines.axiIn r.chain.path.engines (r.enginesIn memWords))
    inv.follows inv.rests rfl rfl
  rests := rests_step (i := Engines.axiIn r.chain.path.engines (r.enginesIn memWords))
    inv.follows inv.rests
  stream := inv.stream_step memWords

/-! ## Progress -/

def dmStage (s : DataMover.State) : Nat :=
  match s.state with
  | .getData => 3
  | .decode => 2
  | .sendInstr => 1

/-- An idle engine does not see its instruction yet. -/
def late (idle empty : Bool) : Nat := (idle && empty).toNat

def jobLeft (d : Desc) (r : Replay k addrWidth) : Nat :=
  Job.wordsLeft (pairOf d) r.chain.job +
    (Job.axiStage r.chain.path.engines.axi r.mem.bvalid +
      late (r.chain.path.engines.axi.state == .idle) r.chain.path.dmFifoAxi.empty) +
    (Job.sramStage r.chain.path.engines.sram +
      late (r.chain.path.engines.sram.state == .idle) r.chain.path.dmFifoSram.empty)

/-- What is left before the next handshake; 1300 is more than any job takes. -/
def nextLeft (r : Replay k addrWidth) : Nat :=
  match r.chain.sent[r.chain.finished]? with
  | some d => jobLeft d r
  | none => 1300 + dmStage r.chain.path.dataMover

def left (ds : List Desc) (r : Replay k addrWidth) : Nat :=
  2000 * (ds.length - r.chain.finished) + nextLeft r

theorem jobLeft_lt (d : Desc) (r : Replay k addrWidth) : jobLeft d r < 1300 := by
  have small := beats_le (pairOf d).len
  have flag := Bool.toNat_le r.chain.job.eng.mid.empty
  have axi : Job.axiStage r.chain.path.engines.axi r.mem.bvalid ≤ 8 := by
    unfold Job.axiStage
    repeat' split
    all_goals omega
  have sram : Job.sramStage r.chain.path.engines.sram ≤ 3 := by
    unfold Job.sramStage
    split <;> omega
  have late (idle empty : Bool) : late idle empty ≤ 1 := Bool.toNat_le _
  have axiLate := late (r.chain.path.engines.axi.state == .idle) r.chain.path.dmFifoAxi.empty
  have sramLate := late (r.chain.path.engines.sram.state == .idle) r.chain.path.dmFifoSram.empty
  unfold jobLeft Job.wordsLeft
  omega

theorem nextLeft_lt (r : Replay k addrWidth) : nextLeft r < 1304 := by
  have dm : dmStage r.chain.path.dataMover ≤ 3 := by
    unfold dmStage
    split <;> omega
  unfold nextLeft
  split
  · have := jobLeft_lt ‹Desc› r
    omega
  · omega

theorem finished_of_running (running : r.chain.done = false) (memWords : Nat) :
    (r.step memWords).chain.finished = r.chain.finished := by
  simp [step, Chain.step, running]

/-- An idle engine whose instruction is in its FIFO sees it after a cycle. -/
theorem shows_after {f : Fifo dmFifoLog InstrWide} {l : Logged InstrWide} {i : Fifo.In InstrWide}
    (holds : l.Holds f) (behind : l.outOf.length < l.into.length) (noRead : i.rdEn = false) :
    (f.step i).empty = false := by
  have length := holds.length
  rw [Fifo.empty_step, Fifo.remaining_of_idle noRead, List.isEmpty_eq_false_iff,
    ← List.length_pos_iff]
  omega

variable {d : Desc}

theorem current_of_known (known : r.chain.sent[r.chain.finished]? = some d) :
    Chain.Current r.chain (pairOf d) :=
  fun _ sent => congrArg pairOf (Option.some.inj (known.symm.trans sent))

theorem Inv.served (inv : Inv ds r) {p : Pair} (current : Chain.Current r.chain p) :
    Job.Served p r.chain.job r.mem where
  flow := inv.chain.flow p current
  inBurst := inv.chain.same ▸ inv.chain.inBurst
  owes := inv.owes
  follows := inv.chain.same ▸ inv.follows

theorem Inv.cycle (inv : Inv ds r) (running : r.chain.done = false) {p : Pair}
    (current : Chain.Current r.chain p) (memWords : Nat) :
    Job.Cycle memWords p r.chain.job r.mem (r.enginesIn memWords) where
  legal :=
    { running := inv.chain.same ▸ running
      initDone := rfl
      axi := fun gets => inv.chain.fed.axi_presented current (inv.chain.same ▸ gets)
      sram := fun gets => inv.chain.fed.sram_presented current (inv.chain.same ▸ gets)
      slave := inv.legal memWords }
  slave := rfl
  noFetch := rfl

theorem job_of_running (running : r.chain.done = false) (memWords : Nat) :
    (r.step memWords).chain.job = r.chain.job.step (r.enginesIn memWords) := by
  simp [step, Chain.step, running, enginesIn]

theorem Inv.late_axi (inv : Inv ds r) (running : r.chain.done = false)
    (known : r.chain.sent[r.chain.finished]? = some d) (memWords : Nat) :
    late ((r.step memWords).chain.path.engines.axi.state == .idle)
      (r.step memWords).chain.path.dmFifoAxi.empty = 0 := by
  cases idle : (r.step memWords).chain.path.engines.axi.state == .idle with
  | false => rfl
  | true =>
    obtain ⟨before, noRead⟩ := Job.axi_idle_of_next
      (i := Engines.axiIn r.chain.path.engines (r.enginesIn memWords)) inv.follows
      (Transfer.axi_waits running) (.inl (beq_iff_eq.mp idle))
    -- the instruction was sent and not taken, so it is in the FIFO and the flag falls
    have started := inv.chain.axiStarted
    have count := (List.getElem?_eq_some_iff.mp known).1
    have shows : (r.step memWords).chain.path.dmFifoAxi.empty = false := by
      refine shows_after inv.chain.dmAxiHolds ?_ noRead
      have free : axiBusy r.chain.path.engines.axi = false := by rw [axiBusy, before]; rfl
      rw [inv.chain.axiPairs, List.length_map, started, free]
      exact count
    rw [shows]
    rfl

theorem Inv.late_sram (inv : Inv ds r) (running : r.chain.done = false)
    (known : r.chain.sent[r.chain.finished]? = some d) (memWords : Nat) :
    late ((r.step memWords).chain.path.engines.sram.state == .idle)
      (r.step memWords).chain.path.dmFifoSram.empty = 0 := by
  cases idle : (r.step memWords).chain.path.engines.sram.state == .idle with
  | false => rfl
  | true =>
    obtain ⟨before, noRead⟩ := Job.sram_idle_of_next
      (i := Engines.sramIn r.chain.path.engines (r.enginesIn memWords))
      (Transfer.sram_waits running) (.inl (beq_iff_eq.mp idle))
    have started := inv.chain.sramStarted
    have count := (List.getElem?_eq_some_iff.mp known).1
    have shows : (r.step memWords).chain.path.dmFifoSram.empty = false := by
      refine shows_after inv.chain.dmSramHolds ?_ noRead
      have free : sramBusy r.chain.path.engines.sram = false := by rw [sramBusy, before]; rfl
      rw [inv.chain.sramPairs, List.length_map, started, free]
      exact count
    rw [shows]
    rfl

/-- A cycle of a known descriptor before its handshake. -/
theorem Inv.jobLeft_step (inv : Inv ds r) (running : r.chain.done = false)
    (known : r.chain.sent[r.chain.finished]? = some d) (matched : ¬ (d.dir = false ∧ d.lenBeats = 0))
    (memWords : Nat) : jobLeft d (r.step memWords) < jobLeft d r := by
  have current := current_of_known known
  have matched : (pairOf d).toSram = true ∨ (pairOf d).len ≠ 0 := by
    rw [pairOf_toSram, pairOf_len]
    cases dir : d.dir with
    | true => exact .inl rfl
    | false => exact .inr fun none => matched ⟨dir, none⟩
  obtain ⟨⟨wordsLe, axiLe, sramLe⟩, less⟩ := Job.left_step (inv.served current)
    (inv.cycle running current memWords) matched
    { wrEn := false, addr := 0, wdata := 0 }
  have job := job_of_running running memWords
  have eng : (r.chain.job.step (r.enginesIn memWords)).eng = (r.step memWords).chain.path.engines := by
    rw [← job]
    exact (inv.step memWords).chain.same
  rw [eng, inv.chain.same] at axiLe sramLe less
  rw [← job] at wordsLe less
  change Job.axiStage _ (r.step memWords).mem.bvalid ≤ _ at axiLe
  change _ → _ → _ + Job.axiStage _ (r.step memWords).mem.bvalid + _ < _ at less
  rw [jobLeft, jobLeft, inv.late_axi running known, inv.late_sram running known]
  -- an idle engine that does not see its instruction has its late flag
  cases axiLate : (r.chain.path.engines.axi.state == .idle) && r.chain.path.dmFifoAxi.empty with
  | true =>
    rw [late, axiLate, Bool.toNat_true]
    omega
  | false =>
    cases sramLate : (r.chain.path.engines.sram.state == .idle) && r.chain.path.dmFifoSram.empty with
    | true =>
      rw [late, late, axiLate, sramLate, Bool.toNat_true]
      omega
    | false =>
      have := less
        (fun idle => by change r.chain.path.dmFifoAxi.empty = false; simpa [idle] using axiLate)
        (fun idle => by change r.chain.path.dmFifoSram.empty = false; simpa [idle] using sramLate)
      omega

/-- While the next descriptor is on its way, both instruction FIFOs are empty. -/
theorem Inv.none_sent (inv : Inv ds r) (none : r.chain.sent[r.chain.finished]? = none) :
    r.chain.finished = r.chain.sent.length ∧ r.chain.path.dmFifoAxi.full = false ∧
      r.chain.path.dmFifoSram.full = false := by
  have beyond := List.getElem?_eq_none_iff.mp none
  have axi := inv.chain.dmAxiHolds.length
  have sram := inv.chain.dmSramHolds.length
  rw [inv.chain.axiPairs, List.length_map, inv.chain.axiStarted] at axi
  rw [inv.chain.sramPairs, List.length_map, inv.chain.sramStarted] at sram
  refine ⟨by omega, Fifo.full_eq_false_of_lt ?_, Fifo.full_eq_false_of_lt ?_⟩
  · change _ < 16
    omega
  · change _ < 16
    omega

/-- The data mover brings the next descriptor nearer. -/
theorem Inv.dmStage_step (inv : Inv ds r) (more : r.chain.finished < ds.length)
    (none : r.chain.sent[r.chain.finished]? = none) (memWords : Nat) :
    (∃ d, (r.step memWords).chain.sent[r.chain.finished]? = some d) ∨
      dmStage (r.step memWords).chain.path.dataMover < dmStage r.chain.path.dataMover := by
  obtain ⟨all, axiRoom, sramRoom⟩ := inv.none_sent none
  have dataMover : (r.step memWords).chain.path.dataMover =
      DataMover.next r.chain.path.dataMover (DataPath.dmIn r.chain.path (r.inputs memWords)) := rfl
  cases state : r.chain.path.dataMover.state with
  | getData =>
    -- nothing is held, so a descriptor that is not finished is still in the queue
    have rest : r.queue.isEmpty = false := by
      have count := congrArg List.length inv.stream
      rw [DataMover.held, if_pos state, List.append_nil, List.length_append] at count
      cases queue : r.queue with
      | nil => simp [queue] at count; omega
      | cons => rfl
    refine .inr ?_
    rw [dataMover]
    simp [dmStage, DataMover.next, state, DataPath.dmIn, inputs, rest]
  | decode =>
    refine .inr ?_
    rw [dataMover]
    simp [dmStage, DataMover.next, state]
  | sendInstr =>
    have sends : DataMover.wrEn r.chain.path.dataMover
        (DataPath.dmIn r.chain.path (r.inputs memWords)) = true := by
      simp [DataMover.wrEn, state, DataPath.dmIn, axiRoom, sramRoom]
    refine .inl ⟨r.chain.path.dataMover.inputData, ?_⟩
    rw [Replay.step, Chain.step, if_pos sends, all]
    exact List.getElem?_concat_length

theorem Inv.left_step (inv : Inv ds r) (more : r.chain.finished < ds.length)
    (matched : ∀ d, r.chain.sent[r.chain.finished]? = some d → ¬ (d.dir = false ∧ d.lenBeats = 0))
    (memWords : Nat) : left ds (r.step memWords) < left ds r := by
  have bound := nextLeft_lt (r.step memWords)
  unfold left
  cases done : r.chain.done with
  | true =>
    -- the handshake: 2000 for the descriptor pays for whatever the next one needs
    have finished : (r.step memWords).chain.finished = r.chain.finished + 1 := by
      simp [Replay.step, Chain.step, done]
    omega
  | false =>
    have finished := finished_of_running done memWords
    have falls : nextLeft (r.step memWords) < nextLeft r := by
      cases known : r.chain.sent[r.chain.finished]? with
      | some d =>
        obtain ⟨within, -⟩ := List.getElem?_eq_some_iff.mp known
        have still : (r.step memWords).chain.sent[(r.step memWords).chain.finished]? = some d := by
          rw [finished]
          exact (List.getElem?_append_left within).trans known
        -- the same descriptor is in progress before and after the cycle
        rw [nextLeft, still, nextLeft, known]
        exact inv.jobLeft_step done known (matched d known) memWords
      | none =>
        rw [nextLeft, finished, nextLeft, known]
        rcases inv.dmStage_step more known memWords with ⟨d, sent⟩ | nearer
        · rw [sent]
          have := jobLeft_lt d (r.step memWords)
          change jobLeft d (r.step memWords) < 1300 + dmStage r.chain.path.dataMover
          omega
        · split
          · have := jobLeft_lt ‹Desc› (r.step memWords)
            change jobLeft _ (r.step memWords) < 1300 + dmStage r.chain.path.dataMover
            omega
          · omega
    rw [finished]
    omega

/-! ## Completion -/

/-- A descriptor whose write of length 0 stops the engines. -/
def Stops (d : Desc) : Prop := d.dir = false ∧ d.lenBeats = 0

instance (d : Desc) : Decidable (Stops d) := inferInstanceAs (Decidable (_ ∧ _))

/-- No descriptor that stops the engines has finished. -/
theorem Inv.not_stops (inv : Inv ds r) (done : r.chain.done = true)
    (known : r.chain.sent[r.chain.finished]? = some d) : ¬ Stops d := by
  rintro ⟨dir, none⟩
  have flow := inv.chain.flow _ (current_of_known known)
  exact flow.len_ne_zero_of_done (by rw [pairOf_toSram, dir]) (inv.chain.same ▸ done)
    (by rw [pairOf_len, none])

theorem Inv.sent_prefix (inv : Inv ds r) : r.chain.sent <+: ds :=
  ⟨DataMover.held r.chain.path.dataMover ++ r.queue, by
    rw [← List.append_assoc]
    exact inv.stream.symm⟩

theorem Inv.finished_le (inv : Inv ds r) : r.chain.finished ≤ ds.length := by
  have sram := inv.chain.dmSramHolds.length
  have sent := inv.sent_prefix.length_le
  rw [inv.chain.sramPairs, List.length_map, inv.chain.sramStarted] at sram
  omega

theorem Inv.getElem?_of_sent (inv : Inv ds r) {n : Nat} (known : r.chain.sent[n]? = some d) :
    ds[n]? = some d := by
  obtain ⟨rest, eq⟩ := inv.sent_prefix
  rw [← eq, List.getElem?_append_left (List.getElem?_eq_some_iff.mp known).1, known]

/-- Every descriptor that has finished was none that stops the engines. -/
def Passed (ds : List Desc) (r : Replay k addrWidth) : Prop :=
  ∀ d ∈ ds.take r.chain.finished, ¬ Stops d

theorem Inv.passed_step (inv : Inv ds r) (passed : Passed ds r) (memWords : Nat) :
    Passed ds (r.step memWords) := by
  cases done : r.chain.done with
  | false =>
    rw [Passed, finished_of_running done]
    exact passed
  | true =>
    obtain ⟨d, known, -⟩ := inv.chain.whole done
    have finished : (r.step memWords).chain.finished = r.chain.finished + 1 := by
      simp [Replay.step, Chain.step, done]
    rw [Passed, finished, List.take_add_one, inv.getElem?_of_sent known]
    intro e member
    rcases List.mem_append.mp member with before | last
    · exact passed e before
    · rw [Option.toList_some, List.mem_singleton] at last
      exact last ▸ inv.not_stops done known

end Replay

/-- The closed data path finishes every descriptor of the list if
    and only if none is a write (DIR = 0) whose LEN has a zero low byte. -/
theorem replay_finishes_iff {k addrWidth : Nat} (memWords : Nat) (ds : List Desc)
    (path : DataPath.State k addrWidth) (mem : Rtl.SysMem.State) :
    (∃ n, ((Replay.step memWords)^[n] (Replay.start ds path mem)).chain.finished = ds.length) ↔
      ∀ d ∈ ds, ¬ Replay.Stops d := by
  constructor
  · rintro ⟨n, all⟩
    have passed := iterate_invariant (P := fun r => Replay.Inv ds r ∧ Replay.Passed ds r)
      (fun r inv => ⟨inv.1.step memWords, inv.1.passed_step inv.2 memWords⟩)
      ⟨Replay.inv_start ds path mem, by simp [Replay.Passed, Replay.start, Chain.start]⟩ n
    have every := passed.2
    rwa [Replay.Passed, all, List.take_length] at every
  · intro none
    obtain ⟨n, all, -⟩ := exists_iterate_of_measure
      (fun r => r.chain.finished = ds.length) (Replay.left ds)
      (fun r inv more => ⟨Replay.Inv.step inv memWords,
        inv.left_step (Nat.lt_of_le_of_ne inv.finished_le more)
          (fun d known => none d (List.mem_of_getElem? (inv.getElem?_of_sent known))) memWords⟩)
      (Replay.inv_start ds path mem)
    exact ⟨n, all⟩

end AxiDma.Verified
