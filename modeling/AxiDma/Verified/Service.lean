import AxiDma.Rtl.MovementTop
import AxiDma.Verified.SysMemFsm
import AxiDma.Verified.Transfer

/-! # The engines served by the system memory

With `sys_mem` as the slave and no descriptor to fetch, a cycle moves a word, or an FSM, or
lets the late `empty` flag of MID fall, unless an engine waits for its instruction:
`left_step` lowers the sum of `axiStage`, `sramStage` and `wordsLeft`.
-/

namespace AxiDma.Verified

open AxiDma.Lib AxiDma.Rtl

/-! ## The pair of a descriptor -/

/-- The pair that `data_mover` and the narrowing make of a descriptor. -/
def pairOf (d : Desc) : Pair :=
  if d.dir then { toSram := true, axiAddr := d.w0, sramAddr := d.w1, len := d.lenBeats }
  else { toSram := false, axiAddr := d.w1, sramAddr := d.w0, len := d.lenBeats }

theorem narrow_decodeAxi (d : Desc) :
    MovementTop.narrow (DataMover.decodeAxi d) = (pairOf d).axi := by
  unfold DataMover.decodeAxi pairOf
  cases d.dir <;> rfl

theorem narrow_decodeSram (d : Desc) :
    MovementTop.narrow (DataMover.decodeSram d) = (pairOf d).sram := by
  unfold DataMover.decodeSram pairOf
  cases d.dir <;> rfl

theorem pairOf_toSram (d : Desc) : (pairOf d).toSram = d.dir := by
  unfold pairOf
  cases d.dir <;> rfl

theorem pairOf_len (d : Desc) : (pairOf d).len = d.lenBeats := by
  unfold pairOf
  cases d.dir <;> rfl

namespace Job

variable {k addrWidth : Nat}

/-- How the write FSM of the memory follows the AXI master. -/
def WriteFollows (s : AxiMaster.State) (mem : Rtl.SysMem.State) : Prop :=
  match s.state with
  | .idle | .dmGet | .dmRdAr | .dmRdR | .dmWrAw => mem.wState = .idle
  | .dmWrW => mem.wState = .data
  | .dmWrB => mem.wState = .resp ∨ mem.wState = .idle ∧ mem.bvalid = true
  | .waitSram => True
  | .dfGet | .dfAr | .dfR | .dfPush => False

theorem writeFollows_step {s : AxiMaster.State} {i : AxiMaster.In} {mem : Rtl.SysMem.State}
    {memWords : Nat} {init : Rtl.SysMem.Init} (follows : WriteFollows s mem)
    (noFetch : i.dfInEmpty = true) (slave : i.axi = SysMem.out memWords mem)
    (waits : s.state = .waitSram → i.sramDone = false) :
    WriteFollows (AxiMaster.next s i)
      (SysMem.step memWords mem (AxiMaster.out s i).axi init) := by
  unfold WriteFollows at *
  rw [SysMem.wState_step, SysMem.bvalid_step]
  cases state : s.state with
  | idle =>
    cases instr : i.dmInEmpty <;>
      simp_all [AxiMaster.next_state, AxiMaster.out_eq]
  | dfGet | dfAr | dfR | dfPush => simp_all
  | dmGet =>
    cases rw : i.dmInDout.rw <;>
      simp_all [AxiMaster.next_state, AxiMaster.out_eq]
  | dmRdAr =>
    cases ready : i.axi.arready <;>
      simp_all [AxiMaster.next_state, AxiMaster.out_eq]
  | dmRdR =>
    cases valid : i.axi.rvalid <;> cases full : i.midFull <;> cases last : i.axi.rlast <;>
      simp_all [AxiMaster.next_state, AxiMaster.out_eq]
  | dmWrAw =>
    simp_all [AxiMaster.next_state, AxiMaster.out_eq, SysMem.out]
  | dmWrW =>
    -- the memory takes every beat, and both leave the data state with the last one
    have ready : i.axi.wready = true := by simp_all [SysMem.out]
    cases empty : i.midEmpty <;> by_cases last : s.beatIdx = s.curLen - 1 <;>
      simp_all [AxiMaster.next_state, AxiMaster.out_eq]
  | dmWrB =>
    -- `bvalid` is a register, one cycle behind the FSM
    have valid : i.axi.bvalid = mem.bvalid := by simp_all [SysMem.out]
    simp only [state] at follows
    cases answered : mem.bvalid <;> rcases follows with resp | ⟨idle, shown⟩ <;>
      simp_all [AxiMaster.next_state, AxiMaster.out_eq]
  | waitSram =>
    simp_all [AxiMaster.next_state]

/-! ## The invariant of a job -/

variable {p : Pair} {t : Transfer k addrWidth} {mem : Rtl.SysMem.State}
  {i : Engines.In addrWidth} {memWords : Nat}

/-- The engines and the memory agree on where the job is. -/
structure Served (p : Pair) (t : Transfer k addrWidth) (mem : Rtl.SysMem.State) : Prop where
  flow : Transfer.Flow p t
  inBurst : AxiMaster.InBurst t.eng.axi t.rLeft
  owes : SysMem.ReadOwes mem t.rLeft
  follows : WriteFollows t.eng.axi mem

/-- A cycle of the job: the memory drives the AXI slave side, and there is no handle. -/
structure Cycle (memWords : Nat) (p : Pair) (t : Transfer k addrWidth) (mem : Rtl.SysMem.State)
    (i : Engines.In addrWidth) : Prop where
  legal : Transfer.Legal p t i
  slave : i.axi = SysMem.out memWords mem
  noFetch : i.dfInEmpty = true

theorem Served.step (served : Served p t mem) (cycle : Cycle memWords p t mem i)
    (init : Rtl.SysMem.Init) :
    Served p (t.step i) (SysMem.step memWords mem (Engines.axiOut t.eng i).axi init) where
  flow := served.flow.step cycle.legal
  inBurst := AxiMaster.inBurst_step (i := Engines.axiIn t.eng i) served.inBurst cycle.legal.slave
  owes := by
    have owes := SysMem.readOwes_step memWords (Engines.axiOut t.eng i).axi init served.owes
    rw [← cycle.slave] at owes
    exact owes
  follows := writeFollows_step (i := Engines.axiIn t.eng i) served.follows cycle.noFetch
    cycle.slave cycle.legal.axi_waits

/-! ## What is left to do -/

/-- Cycles the AXI master is from its end, once it sees its instruction, not counting its
    beats. -/
def axiStage (s : AxiMaster.State) (bvalid : Bool) : Nat :=
  match s.state with
  | .idle => 6
  | .dmGet => 5
  | .dmRdAr | .dmWrAw => 4
  | .dmRdR | .dmWrW => 3
  | .dmWrB => if bvalid then 1 else 2
  | .waitSram => 0
  | .dfGet | .dfAr | .dfR | .dfPush => 8

def sramStage (s : SramController.State) : Nat :=
  match s.state with
  | .idle => 3
  | .dmGet => 2
  | .writing | .reading => 1
  | .waitAxi4master => 0

/-- The states in which an engine waits for a word or for the other engine. -/
def AxiMoves (s : AxiMaster.State) : Prop :=
  s.state = .dmRdR ∨ s.state = .dmWrW ∨ s.state = .waitSram

def SramMoves (s : SramController.State) : Prop :=
  s.state = .writing ∨ s.state = .reading ∨ s.state = .waitAxi4master

theorem axiStage_step (served : Served p t mem) (cycle : Cycle memWords p t mem i)
    (init : Rtl.SysMem.Init) :
    axiStage (t.step i).eng.axi
        (SysMem.step memWords mem (Engines.axiOut t.eng i).axi init).bvalid ≤
      axiStage t.eng.axi mem.bvalid ∧
    (¬ AxiMoves t.eng.axi → (t.eng.axi.state = .idle → i.dmInEmptyAxi = false) →
      axiStage (t.step i).eng.axi
          (SysMem.step memWords mem (Engines.axiOut t.eng i).axi init).bvalid <
        axiStage t.eng.axi mem.bvalid) := by
  have axiNext : (t.step i).eng.axi = AxiMaster.next t.eng.axi (Engines.axiIn t.eng i) := rfl
  have noFetch : (Engines.axiIn t.eng i).dfInEmpty = true := cycle.noFetch
  have follows := served.follows
  unfold AxiMoves
  cases state : t.eng.axi.state with
  | idle =>
    cases empty : i.dmInEmptyAxi <;>
      simp [axiStage, axiNext, AxiMaster.next_state, state, empty, Engines.axiIn,
        cycle.noFetch]
  | dmGet =>
    cases rw : (Engines.axiIn t.eng i).dmInDout.rw <;>
      simp [axiStage, axiNext, AxiMaster.next_state, state, rw]
  | dmRdAr =>
    have none : t.rLeft = 0 := by
      have inBurst := served.inBurst
      simpa [AxiMaster.InBurst, state] using inBurst
    have ready : (Engines.axiIn t.eng i).axi.arready = true := by
      have owes := served.owes
      have slave := cycle.slave
      cases read : mem.rState <;> simp_all [SysMem.ReadOwes, Engines.axiIn, SysMem.out]
    simp [axiStage, axiNext, AxiMaster.next_state, state, ready]
  | dmWrAw =>
    have ready : (Engines.axiIn t.eng i).axi.awready = true := by
      have slave := cycle.slave
      simp_all [WriteFollows, Engines.axiIn, SysMem.out]
    simp [axiStage, axiNext, AxiMaster.next_state, state, ready]
  | dmRdR =>
    refine ⟨?_, by simp⟩
    have stays : (t.step i).eng.axi.state = .dmRdR ∨ (t.step i).eng.axi.state = .waitSram := by
      grind [AxiMaster.next_state]
    rcases stays with stays | ends
    · simp [axiStage, state, stays]
    · simp [axiStage, state, ends]
  | dmWrW =>
    refine ⟨?_, by simp⟩
    have stays : (t.step i).eng.axi.state = .dmWrW ∨ (t.step i).eng.axi.state = .dmWrB := by
      grind [AxiMaster.next_state]
    rcases stays with stays | ends
    · simp [axiStage, state, stays]
    · simp only [axiStage, state, ends]
      split <;> omega
  | dmWrB =>
    have valid : (Engines.axiIn t.eng i).axi.bvalid = mem.bvalid :=
      congrArg Axi4Slave.bvalid cycle.slave
    have answer : (SysMem.step memWords mem (Engines.axiOut t.eng i).axi init).bvalid =
        (mem.wState == .resp) := SysMem.bvalid_step
    simp only [WriteFollows, state] at follows
    cases answered : mem.bvalid <;> rcases follows with resp | ⟨idle, shown⟩ <;>
      simp_all [axiStage, AxiMaster.next_state]
  | waitSram =>
    have waits := cycle.legal.axi_waits state
    simp [axiStage, axiNext, AxiMaster.next_state, state, waits]
  | dfGet | dfAr | dfR | dfPush => simp [WriteFollows, state] at follows

theorem sramStage_step (legal : Transfer.Legal p t i) :
    sramStage (t.step i).eng.sram ≤ sramStage t.eng.sram ∧
    (¬ SramMoves t.eng.sram → (t.eng.sram.state = .idle → i.dmInEmptySram = false) →
      sramStage (t.step i).eng.sram < sramStage t.eng.sram) := by
  have sramNext : (t.step i).eng.sram =
      SramController.next addrWidth t.eng.sram (Engines.sramIn t.eng i) := rfl
  unfold SramMoves
  cases state : t.eng.sram.state with
  | idle =>
    cases empty : i.dmInEmptySram <;>
      simp [sramStage, sramNext, SramController.next_state, state, empty,
        Engines.sramIn]
  | dmGet =>
    cases rw : (Engines.sramIn t.eng i).dmInDout.rw <;>
      simp [sramStage, sramNext, SramController.next_state, state, rw]
  | writing | reading =>
    refine ⟨?_, by simp⟩
    have stays : (t.step i).eng.sram.state = t.eng.sram.state ∨
        (t.step i).eng.sram.state = .waitAxi4master := by
      grind [SramController.next_state]
    rcases stays with stays | ends
    · simp [sramStage, state, stays]
    · simp [sramStage, state, ends]
  | waitAxi4master =>
    have waits := legal.sram_waits state
    simp [sramStage, sramNext, SramController.next_state, state, waits]

/-- Words to push and to take, and a cycle for a late `empty` flag. -/
def wordsLeft (p : Pair) (t : Transfer k addrWidth) : Nat :=
  3 * (beats p.len - t.pushed.length) + 2 * (beats p.len - t.taken.length) +
    t.eng.mid.empty.toNat

theorem pushed_le {p : Pair} {t : Transfer k addrWidth} (flow : Transfer.Flow p t) :
    t.pushed.length ≤ beats p.len := by
  have axi := flow.axi.le
  have sram := flow.sram.le
  cases dir : p.toSram with
  | true => simpa [dir, Pair.axi] using axi
  | false => simpa [dir, Pair.sram] using sram

theorem taken_le_pushed {p : Pair} {t : Transfer k addrWidth} (flow : Transfer.Flow p t) :
    t.taken.length ≤ t.pushed.length := by
  rw [flow.held, List.length_append]
  exact Nat.le_add_right ..

/-- Every word moved, and every late flag that falls, leaves less to do. -/
theorem wordsLeft_step {p : Pair} {t : Transfer k addrWidth} {i : Engines.In addrWidth}
    (flow : Transfer.Flow p t) (legal : Transfer.Legal p t i) :
    wordsLeft p (t.step i) ≤ wordsLeft p t ∧
      ((Engines.midIn t.eng i).wrEn = true ∨ (Engines.midIn t.eng i).rdEn = true ∨
        t.eng.mid.empty = true ∧ t.eng.mid.contents ≠ [] →
          wordsLeft p (t.step i) < wordsLeft p t) := by
  have pushed : (t.step i).pushed.length =
      t.pushed.length + (Engines.midIn t.eng i).wrEn.toNat := by
    rw [Transfer.step, List.length_append, Fifo.length_written]
  have taken : (t.step i).taken.length =
      t.taken.length + (Engines.midIn t.eng i).rdEn.toNat := by
    rw [Transfer.step, List.length_append, Fifo.length_taken]
  have pushedLe := pushed_le (flow.step legal)
  have takenLe := taken_le_pushed (flow.step legal)
  have flag : (t.step i).eng.mid.empty =
      (t.eng.mid.remaining (Engines.midIn t.eng i)).isEmpty := Fifo.empty_step _ _
  have late : (t.step i).eng.mid.empty.toNat ≤ 1 := Bool.toNat_le _
  unfold wordsLeft
  cases reads : (Engines.midIn t.eng i).rdEn with
  | true =>
    rw [reads, Bool.toNat_true] at taken
    constructor <;> omega
  | false =>
    -- without a read the flag can only fall
    rw [Fifo.remaining_of_idle reads] at flag
    have falls : (t.step i).eng.mid.empty.toNat ≤ t.eng.mid.empty.toNat ∧
        (t.eng.mid.empty = true ∧ t.eng.mid.contents ≠ [] →
          (t.step i).eng.mid.empty.toNat < t.eng.mid.empty.toNat) := by
      cases empty : t.eng.mid.empty with
      | true => cases words : t.eng.mid.contents <;> simp [flag, words]
      | false =>
        rw [flag, flow.ok.contents_eq_cons empty]
        simp
    rw [reads, Bool.toNat_false, Nat.add_zero] at taken
    cases writes : (Engines.midIn t.eng i).wrEn with
    | true =>
      rw [writes, Bool.toNat_true] at pushed
      constructor <;> omega
    | false =>
      rw [writes, Bool.toNat_false, Nat.add_zero] at pushed
      rw [pushed, taken]
      simp only [Bool.false_eq_true, false_or]
      exact ⟨by omega, fun stale => by have := falls.2 stale; omega⟩

/-- A cycle in which a word moves, or a late flag will fall. -/
def WordMoves (t : Transfer k addrWidth) (i : Engines.In addrWidth) : Prop :=
  (Engines.midIn t.eng i).wrEn = true ∨ (Engines.midIn t.eng i).rdEn = true ∨
    t.eng.mid.empty = true ∧ t.eng.mid.contents ≠ []

/-- A word in MID is taken by a reader that looks at the flag, or the flag is late. -/
theorem wordMoves_of_reader (some : t.eng.mid.contents.length ≠ 0)
    (reader : t.eng.mid.empty = false → (Engines.midIn t.eng i).rdEn = true) : WordMoves t i := by
  cases empty : t.eng.mid.empty with
  | true => exact .inr (.inr ⟨empty, mt List.length_eq_zero_iff.mpr some⟩)
  | false => exact .inr (.inl (reader empty))

theorem length_contents_of_full (full : t.eng.mid.full = true) : t.eng.mid.contents.length ≠ 0 := by
  rw [Fifo.full_iff.mp full]
  exact (Nat.two_pow_pos k).ne'

theorem not_both_wait (running : Engines.handshakeDone t.eng = false)
    (axi : t.eng.axi.state = .waitSram) : t.eng.sram.state ≠ .waitAxi4master := by
  intro sram
  simp [Engines.handshakeDone, AxiMaster.axiDone, SramController.sramDone, axi, sram] at running

/-- To SRAM: the memory always has the next beat, so MID fills until it is full or the
    burst ends, and then the SRAM controller has a word to take. -/
theorem wordMoves_toSram (served : Served p t mem) (cycle : Cycle memWords p t mem i)
    (dir : p.toSram = true) (axiMoves : AxiMoves t.eng.axi) (sramMoves : SramMoves t.eng.sram) :
    WordMoves t i := by
  have running := cycle.legal.running
  have axi := served.flow.axi
  have sram := served.flow.sram
  have pushedLe := pushed_le served.flow
  have count := congrArg List.length served.flow.held
  rw [List.length_append] at count
  obtain ⟨wrEn, rdEn⟩ := served.flow.midIn_of_toSram dir i
  have take (writes : t.eng.sram.state = .writing) (shows : t.eng.mid.empty = false) :
      (Engines.midIn t.eng i).rdEn = true := by
    rw [rdEn, Engines.sramOut, SramController.midRdEn_eq]
    simp [Engines.sramIn, writes, shows]
  rcases axiMoves with reads | writes | axiWaits
  · cases full : t.eng.mid.full with
    | false =>
      -- the memory owes a beat and MID has room for it
      have left : 0 < t.rLeft := served.inBurst.mp (.inr reads)
      have owes := served.owes
      have issues : mem.rState = .issue := by
        cases read : mem.rState <;> simp_all [SysMem.ReadOwes]
      refine .inl ?_
      rw [wrEn, Engines.axiOut, AxiMaster.midWrEn_eq]
      simp [Engines.axiIn, cycle.slave, SysMem.out, reads, issues, full]
    | true =>
      -- a full MID is drained by the SRAM loop
      have some := length_contents_of_full full
      rcases sramMoves with writes | reads | waits
      · exact wordMoves_of_reader some (take writes)
      · simp [SramController.SramSide, reads, Pair.sram, dir] at sram
      · simp only [SramController.SramSide, waits, dir, if_true] at sram
        exact absurd sram (by change _ ≠ beats p.len; omega)
  · simp [AxiMaster.AxiSide, writes, Pair.axi, dir] at axi
  · simp only [AxiMaster.AxiSide, axiWaits, dir, if_true] at axi
    -- every word is in MID or taken, so a loop that has not finished finds one
    have all : t.pushed.length = beats p.len := by simpa [Pair.axi, dir] using axi.2
    rcases sramMoves with writes | reads | waits
    · simp only [SramController.SramSide, writes, dir, if_true] at sram
      have less : t.taken.length < beats p.len := sram.2.2.2.1
      exact wordMoves_of_reader (by omega) (take writes)
    · simp [SramController.SramSide, reads, Pair.sram, dir] at sram
    · exact absurd waits (not_both_wait running axiWaits)

/-- From SRAM: the BRAM always has the next word, so MID fills until it is full or the
    block ends, and then the AXI master has a word to send. -/
theorem wordMoves_fromSram (served : Served p t mem) (cycle : Cycle memWords p t mem i)
    (dir : p.toSram = false) (some : p.len ≠ 0) (axiMoves : AxiMoves t.eng.axi)
    (sramMoves : SramMoves t.eng.sram) : WordMoves t i := by
  have running := cycle.legal.running
  have axi := served.flow.axi
  have sram := served.flow.sram
  have follows := served.follows
  have pushedLe := pushed_le served.flow
  have words : writeBeats p.len = beats p.len := by
    rw [writeBeats_of_ne_zero some, beats_of_ne_zero some]
  have count := congrArg List.length served.flow.held
  rw [List.length_append] at count
  obtain ⟨wrEn, rdEn, -⟩ := served.flow.midIn_of_fromSram dir i
  have take (writes : t.eng.axi.state = .dmWrW) (shows : t.eng.mid.empty = false) :
      (Engines.midIn t.eng i).rdEn = true := by
    simp only [WriteFollows, writes] at follows
    rw [rdEn, Engines.axiOut, AxiMaster.midRdEn_eq]
    simp [Engines.axiIn, cycle.slave, SysMem.out, writes, shows, follows]
  rcases sramMoves with writes | reads | sramWaits
  · simp [SramController.SramSide, writes, Pair.sram, dir] at sram
  · cases full : t.eng.mid.full with
    | false =>
      refine .inl ?_
      rw [wrEn, Engines.sramOut, SramController.midWrEn_eq]
      simp [Engines.sramIn, reads, full]
    | true =>
      have some := length_contents_of_full full
      rcases axiMoves with reads | writes | waits
      · simp [AxiMaster.AxiSide, reads, Pair.axi, dir] at axi
      · exact wordMoves_of_reader some (take writes)
      · simp only [AxiMaster.AxiSide, waits, dir, Bool.false_eq_true, if_false] at axi
        have all : t.taken.length = writeBeats p.len := by simpa [Pair.axi, dir] using axi.2
        omega
  · simp only [SramController.SramSide, sramWaits, dir, Bool.false_eq_true, if_false] at sram
    have all : t.pushed.length = beats p.len := sram
    rcases axiMoves with reads | writes | waits
    · simp [AxiMaster.AxiSide, reads, Pair.axi, dir] at axi
    · simp only [AxiMaster.AxiSide, writes, dir, Bool.false_eq_true, if_false] at axi
      have less : t.taken.length < writeBeats p.len := axi.2.2.2.2
      exact wordMoves_of_reader (by omega) (take writes)
    · exact absurd sramWaits (not_both_wait running waits)

/-- No engine gets further from its end, and one gets nearer or a word moves
    unless an idle engine does not see its instruction. -/
theorem left_step (served : Served p t mem) (cycle : Cycle memWords p t mem i)
    (matched : p.toSram = true ∨ p.len ≠ 0) (init : Rtl.SysMem.Init) :
    let t' := t.step i
    let mem' := SysMem.step memWords mem (Engines.axiOut t.eng i).axi init
    (wordsLeft p t' ≤ wordsLeft p t ∧ axiStage t'.eng.axi mem'.bvalid ≤ axiStage t.eng.axi mem.bvalid
      ∧ sramStage t'.eng.sram ≤ sramStage t.eng.sram) ∧
    ((t.eng.axi.state = .idle → i.dmInEmptyAxi = false) →
      (t.eng.sram.state = .idle → i.dmInEmptySram = false) →
        wordsLeft p t' + axiStage t'.eng.axi mem'.bvalid + sramStage t'.eng.sram <
          wordsLeft p t + axiStage t.eng.axi mem.bvalid + sramStage t.eng.sram) := by
  obtain ⟨axiLe, axiLess⟩ := axiStage_step served cycle init
  obtain ⟨sramLe, sramLess⟩ := sramStage_step cycle.legal
  obtain ⟨wordsLe, wordsLess⟩ := wordsLeft_step served.flow cycle.legal
  refine ⟨⟨wordsLe, axiLe, sramLe⟩, fun axiShown sramShown => ?_⟩
  by_cases axiMoves : AxiMoves t.eng.axi
  · by_cases sramMoves : SramMoves t.eng.sram
    · have moves : WordMoves t i := by
        cases dir : p.toSram with
        | true => exact wordMoves_toSram served cycle dir axiMoves sramMoves
        | false =>
          have some := matched.resolve_left (by simp [dir])
          exact wordMoves_fromSram served cycle dir some axiMoves sramMoves
      have := wordsLess moves
      omega
    · have := sramLess sramMoves sramShown
      omega
  · have := axiLess axiMoves axiShown
    omega

end Job

end AxiDma.Verified
