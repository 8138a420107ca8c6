import AxiDma.Rtl.DataPath
import AxiDma.Verified.Copy
import AxiDma.Verified.Pipeline
import AxiDma.Verified.Progress

/-! # Chained descriptors through one MID FIFO

`Chain` runs the data path on any stream of descriptors, with a log at the data mover, at
both instruction FIFOs and, for the job in progress, at MID.  `Inv` keeps both engines on
the pair of descriptor number `finished`: `Transfer.Flow` holds for it from the handshake
of one job to the handshake of the next, and at a handshake it leaves MID empty.
-/

namespace AxiDma.Verified

open AxiDma.Lib AxiDma.Rtl
open Pipeline (axiBusy sramBusy axiBusy_next sramBusy_next axi_get_of_next sram_get_of_next)

structure Chain (k addrWidth : Nat) where
  path : DataPath.State k addrWidth
  /-- The engines with the logs since the last handshake. -/
  job : Transfer k addrWidth
  /-- Descriptors whose instruction pair the data mover sent. -/
  sent : List Desc
  dmAxi : Logged InstrWide
  dmSram : Logged InstrWide
  /-- Cycles with `handshake_done`. -/
  finished : Nat
  /-- Cycles with `dm_done`. -/
  pulses : Nat

namespace Chain

variable {k addrWidth : Nat}

/-- Empty logs around the engines. -/
def fresh (eng : Engines.State k addrWidth) (rLeft : Nat) : Transfer k addrWidth :=
  { eng, rLeft, bursts := [], rBeats := [], wBeats := [], pushed := [], taken := [] }

def start (s : DataPath.State k addrWidth) : Chain k addrWidth :=
  { path := DataPath.reset s, job := fresh (DataPath.reset s).engines 0, sent := [],
    dmAxi := .none, dmSram := .none, finished := 0, pulses := 0 }

def done (c : Chain k addrWidth) : Bool := Engines.handshakeDone c.path.engines

def step (c : Chain k addrWidth) (i : DataPath.In addrWidth) : Chain k addrWidth :=
  let job := c.job.step (DataPath.enginesIn c.path i)
  { path := DataPath.step c.path i
    job := if c.done then fresh job.eng job.rLeft else job
    sent := c.sent ++ if DataMover.wrEn c.path.dataMover (DataPath.dmIn c.path i) then
      [c.path.dataMover.inputData] else []
    dmAxi := c.dmAxi.step c.path.dmFifoAxi (DataPath.dmFifoAxiIn c.path i)
    dmSram := c.dmSram.step c.path.dmFifoSram (DataPath.dmFifoSramIn c.path i)
    finished := c.finished + c.done.toNat
    pulses := c.pulses + c.path.dmDone.toNat }

/-- The slave keeps to the read bursts.  The descriptors, the descriptor fetches, the BRAM
    port and all stalls are free in every cycle. -/
def Legal (c : Chain k addrWidth) (i : DataPath.In addrWidth) : Prop := SlaveLegal c.job.rLeft i.axi

instance (c : Chain k addrWidth) (i : DataPath.In addrWidth) : Decidable (Legal c i) :=
  inferInstanceAs (Decidable (SlaveLegal _ _))

/-! ## The invariant -/

/-- `p` is the pair of the next descriptor to finish, if that is known yet. -/
def Current (c : Chain k addrWidth) (p : Pair) : Prop :=
  ∀ d, c.sent[c.finished]? = some d → p = pairOf d

structure Inv (c : Chain k addrWidth) : Prop where
  same : c.job.eng = c.path.engines
  dmAxiHolds : c.dmAxi.Holds c.path.dmFifoAxi
  dmSramHolds : c.dmSram.Holds c.path.dmFifoSram
  axiShown : c.path.engines.axi.state = .dmGet → c.path.dmFifoAxi.empty = false
  sramShown : c.path.engines.sram.state = .dmGet → c.path.dmFifoSram.empty = false
  decoded : DataMover.Decoded c.path.dataMover
  axiPairs : c.dmAxi.into = c.sent.map DataMover.decodeAxi
  sramPairs : c.dmSram.into = c.sent.map DataMover.decodeSram
  axiStarted : c.dmAxi.outOf.length = c.finished + (axiBusy c.path.engines.axi).toNat
  sramStarted : c.dmSram.outOf.length = c.finished + (sramBusy c.path.engines.sram).toNat
  inBurst : AxiMaster.InBurst c.path.engines.axi c.job.rLeft
  flow : ∀ p, Current c p → Transfer.Flow p c.job
  apart : c.path.handshakeDoneD = true → c.done = false
  pulsed : c.pulses + c.path.dmDone.toNat = c.finished

/-- The lines of the invariant that ask nothing of the slave: the instruction FIFOs carry the
    pairs of the descriptors, and each engine has taken as many as it has finished, or one
    more. -/
structure Fed (c : Chain k addrWidth) : Prop where
  dmAxiHolds : c.dmAxi.Holds c.path.dmFifoAxi
  dmSramHolds : c.dmSram.Holds c.path.dmFifoSram
  axiShown : c.path.engines.axi.state = .dmGet → c.path.dmFifoAxi.empty = false
  sramShown : c.path.engines.sram.state = .dmGet → c.path.dmFifoSram.empty = false
  decoded : DataMover.Decoded c.path.dataMover
  axiPairs : c.dmAxi.into = c.sent.map DataMover.decodeAxi
  sramPairs : c.dmSram.into = c.sent.map DataMover.decodeSram
  axiStarted : c.dmAxi.outOf.length = c.finished + (axiBusy c.path.engines.axi).toNat
  sramStarted : c.dmSram.outOf.length = c.finished + (sramBusy c.path.engines.sram).toNat

variable {c : Chain k addrWidth} {i : DataPath.In addrWidth}

theorem Inv.fed (inv : Inv c) : Fed c := { inv with }

theorem exists_current (c : Chain k addrWidth) : ∃ p, Current c p := by
  cases known : c.sent[c.finished]? with
  | none => exact ⟨⟨false, 0, 0, 0⟩, fun d sent => by simp [known] at sent⟩
  | some d => exact ⟨pairOf d, fun e sent => by rw [Option.some.inj (known.symm.trans sent)]⟩

theorem eng_step (c : Chain k addrWidth) (i : DataPath.In addrWidth) :
    (step c i).job.eng = (c.job.step (DataPath.enginesIn c.path i)).eng := by
  rw [step]
  split <;> rfl

theorem rLeft_step (c : Chain k addrWidth) (i : DataPath.In addrWidth) :
    (step c i).job.rLeft = (c.job.step (DataPath.enginesIn c.path i)).rLeft := by
  rw [step]
  split <;> rfl

theorem Inv.same_step (inv : Inv c) : (step c i).job.eng = (step c i).path.engines := by
  rw [eng_step]
  exact congrArg (Engines.step · (DataPath.enginesIn c.path i)) inv.same

theorem Inv.inBurst_step (inv : Inv c) (legal : Legal c i) :
    AxiMaster.InBurst (step c i).path.engines.axi (step c i).job.rLeft := by
  rw [rLeft_step, Transfer.step, inv.same]
  exact AxiMaster.inBurst_step (i := Engines.axiIn c.path.engines (DataPath.enginesIn c.path i))
    inv.inBurst legal

/-! ## The instruction FIFOs -/

theorem Fed.axiRespects (fed : Fed c) : c.path.dmFifoAxi.Respects (DataPath.dmFifoAxiIn c.path i)
    where
  room := by
    intro writes
    exact Bool.eq_false_of_not_eq_true' (Bool.and_eq_true_iff.mp writes).2
  shows := by
    intro reads
    refine fed.axiShown (beq_iff_eq.mp ?_)
    exact (AxiMaster.dmInRdEn_eq _ _).symm.trans reads

theorem Fed.sramRespects (fed : Fed c) :
    c.path.dmFifoSram.Respects (DataPath.dmFifoSramIn c.path i) where
  room := by
    intro writes
    exact Bool.eq_false_of_not_eq_true'
      (Bool.and_eq_true_iff.mp (Bool.and_eq_true_iff.mp writes).1).2
  shows := by
    intro reads
    refine fed.sramShown (beq_iff_eq.mp ?_)
    exact (SramController.dmInRdEn_eq _ _).symm.trans reads

theorem Fed.pairs_step (fed : Fed c) :
    (step c i).dmAxi.into = (step c i).sent.map DataMover.decodeAxi ∧
      (step c i).dmSram.into = (step c i).sent.map DataMover.decodeSram := by
  have axi : (step c i).dmAxi.into = c.dmAxi.into ++
      if DataMover.wrEn c.path.dataMover (DataPath.dmIn c.path i) then
        [c.path.dataMover.instrAxi] else [] := rfl
  have sram : (step c i).dmSram.into = c.dmSram.into ++
      if DataMover.wrEn c.path.dataMover (DataPath.dmIn c.path i) then
        [c.path.dataMover.instrSram] else [] := rfl
  rw [axi, sram, fed.axiPairs, fed.sramPairs, step]
  cases sends : DataMover.wrEn c.path.dataMover (DataPath.dmIn c.path i) with
  | false => simp
  | true =>
    -- in `sendInstr` the two instructions are the halves of `input_data`
    have state := (Bool.and_eq_true_iff.mp (Bool.and_eq_true_iff.mp sends).1).1
    obtain ⟨axiEq, sramEq⟩ := fed.decoded (beq_iff_eq.mp state)
    simp [axiEq, sramEq]

/-- The word a FIFO shows, when `n` words were taken, is the half of descriptor `n`. -/
theorem dout_of_count {f : Fifo dmFifoLog InstrWide} {l : Logged InstrWide} {sent : List Desc}
    {half : Desc → InstrWide} {n : Nat} (holds : l.Holds f) (into : l.into = sent.map half)
    (count : l.outOf.length = n) (shows : f.empty = false) :
    ∃ d, sent[n]? = some d ∧ f.dout = half d := by
  have word : (sent.map half)[n]? = some f.dout := by
    rw [← into, holds.held, holds.ok.contents_eq_cons shows,
      List.getElem?_append_right (Nat.le_of_eq count), count, Nat.sub_self]
    rfl
  rw [List.getElem?_map, Option.map_eq_some_iff] at word
  obtain ⟨d, known, eq⟩ := word
  exact ⟨d, known, eq.symm⟩

theorem Fed.axi_presented (fed : Fed c) {p : Pair} (current : Current c p)
    (gets : c.path.engines.axi.state = .dmGet) :
    (DataPath.enginesIn c.path i).dmInDoutAxi = p.axi := by
  -- in `dmGet` the engine has taken as many instructions as have finished
  have count := fed.axiStarted
  rw [show axiBusy c.path.engines.axi = false by simp [axiBusy, gets]] at count
  obtain ⟨d, known, eq⟩ := dout_of_count fed.dmAxiHolds fed.axiPairs count (fed.axiShown gets)
  rw [current d known, ← narrow_decodeAxi, ← eq]
  rfl

theorem Fed.sram_presented (fed : Fed c) {p : Pair} (current : Current c p)
    (gets : c.path.engines.sram.state = .dmGet) :
    (DataPath.enginesIn c.path i).dmInDoutSram = p.sram := by
  have count := fed.sramStarted
  rw [show sramBusy c.path.engines.sram = false by simp [sramBusy, gets]] at count
  obtain ⟨d, known, eq⟩ := dout_of_count fed.dmSramHolds fed.sramPairs count (fed.sramShown gets)
  rw [current d known, ← narrow_decodeSram, ← eq]
  rfl

/-- What an engine has taken are the halves of the first descriptors sent. -/
theorem outOf_of_count {f : Fifo dmFifoLog InstrWide} {l : Logged InstrWide}
    {sent : List Desc} {half : Desc → InstrWide} {n : Nat} (holds : l.Holds f)
    (into : l.into = sent.map half) (count : l.outOf.length = n) :
    l.outOf = (sent.take n).map half := by
  rw [List.map_take, ← into, holds.held, ← count, List.take_left]

/-! ## The job in progress -/

theorem current_of_step {p : Pair} (running : c.done = false) (current : Current (step c i) p) :
    Current c p := by
  intro d known
  refine current d ?_
  have finished : (step c i).finished = c.finished := by simp [step, running]
  obtain ⟨bound, -⟩ := List.getElem?_eq_some_iff.mp known
  rw [finished, step, List.getElem?_append_left bound, known]

/-- At a handshake both engines wait for each other. -/
theorem waits_of_done (done : c.done = true) :
    c.path.engines.axi.state = .waitSram ∧ c.path.engines.sram.state = .waitAxi4master := by
  obtain ⟨sram, axi⟩ := Bool.and_eq_true_iff.mp done
  exact ⟨beq_iff_eq.mp axi, beq_iff_eq.mp sram⟩

/-- The handshake sends both engines back to `idle`. -/
theorem idle_of_done (done : c.done = true) :
    (step c i).path.engines.axi.state = .idle ∧ (step c i).path.engines.sram.state = .idle := by
  obtain ⟨sram, axi⟩ := Bool.and_eq_true_iff.mp done
  obtain ⟨axiState, sramState⟩ := waits_of_done done
  constructor
  · simp [step, DataPath.step, Engines.step, AxiMaster.next, AxiMaster.comb, axiState,
      Engines.axiIn, sram]
  · simp [step, DataPath.step, Engines.step, SramController.next, SramController.comb, sramState,
      Engines.sramIn, axi]

/-- At a handshake the descriptor is known, and its words have all passed MID. -/
theorem Inv.whole (inv : Inv c) (done : c.done = true) :
    ∃ d, c.sent[c.finished]? = some d ∧ c.job.taken.length = beats d.lenBeats ∧
      c.job.pushed = c.job.taken ∧ c.path.engines.mid.contents = [] := by
  obtain ⟨axiState, sramState⟩ := waits_of_done done
  rw [← inv.same] at axiState sramState
  -- the SRAM controller has taken instruction number `finished`
  have known : c.finished < c.sent.length := by
    have started := inv.sramStarted
    have busy : sramBusy c.path.engines.sram = true := by
      rw [← inv.same]
      simp [sramBusy, sramState]
    have all := inv.dmSramHolds.length
    rw [inv.sramPairs, List.length_map] at all
    rw [busy, Bool.toNat_true] at started
    omega
  have sent : c.sent[c.finished]? = some c.sent[c.finished] := List.getElem?_eq_getElem known
  refine ⟨c.sent[c.finished], sent, ?_⟩
  generalize c.sent[c.finished] = d at sent
  -- both sides have counted the words of this descriptor
  have flow : Transfer.Flow (pairOf d) c.job :=
    inv.flow _ fun e known => by rw [Option.some.inj (sent.symm.trans known)]
  have held := flow.held
  have axi := flow.axi
  have sram := flow.sram
  simp only [AxiMaster.AxiSide, axiState] at axi
  simp only [SramController.SramSide, sramState] at sram
  have counts : c.job.taken.length = beats d.lenBeats ∧ c.job.pushed.length = beats d.lenBeats := by
    have within := congrArg List.length held
    rw [List.length_append] at within
    cases dir : (pairOf d).toSram with
    | true =>
      simp only [dir, if_true, Pair.axi, Pair.sram, pairOf_len, Bool.not_true, Bool.false_eq_true,
        if_false] at axi sram
      exact ⟨sram, axi.2⟩
    | false =>
      simp only [dir, if_true, Pair.axi, Pair.sram, pairOf_len, Bool.not_false, Bool.false_eq_true,
        if_false] at axi sram
      -- a write of length 0 never gets here, so the burst and the SRAM loop count alike
      have some : d.lenBeats ≠ 0 := by
        rw [← pairOf_len]
        exact flow.len_ne_zero_of_done dir (inv.same ▸ done)
      rw [writeBeats_of_ne_zero some, ← beats_of_ne_zero some] at axi
      exact ⟨axi.2, sram⟩
  have none : c.job.eng.mid.contents = [] := by
    have within := congrArg List.length held
    rw [List.length_append] at within
    exact List.length_eq_zero_iff.mp (by omega)
  refine ⟨counts.1, ?_, inv.same ▸ none⟩
  rw [held, none, List.append_nil]

/-- Nothing passes MID in the cycle of a handshake. -/
theorem Inv.mid_of_done (inv : Inv c) (done : c.done = true) :
    (step c i).path.engines.mid.contents = [] := by
  obtain ⟨axiState, sramState⟩ := waits_of_done done
  obtain ⟨d, -, -, -, empty⟩ := inv.whole done
  obtain ⟨p, current⟩ := exists_current c
  have ok := (inv.flow p current).ok
  rw [inv.same] at ok
  have next := Fifo.contents_step ok (Engines.midIn c.path.engines (DataPath.enginesIn c.path i))
  have noWrite : (Engines.midIn c.path.engines (DataPath.enginesIn c.path i)).wrEn = false := by
    simp [Engines.midIn, Engines.axiOut, Engines.sramOut, AxiMaster.midWrEn_eq,
      SramController.midWrEn_eq, sramState, axiState]
  have stays : c.path.engines.mid.remaining
      (Engines.midIn c.path.engines (DataPath.enginesIn c.path i)) = [] := by
    rw [Fifo.remaining, empty]
    split <;> rfl
  rw [stays, Fifo.accepted, noWrite] at next
  exact next

/-- With both engines idle no word is in MID. -/
theorem Inv.mid_of_idle (inv : Inv c) (axiIdle : c.path.engines.axi.state = .idle)
    (sramIdle : c.path.engines.sram.state = .idle) : c.path.engines.mid.contents = [] := by
  obtain ⟨p, current⟩ := exists_current c
  have flow := inv.flow p current
  have axi := flow.axi
  have sram := flow.sram
  have held := congrArg List.length flow.held
  rw [← inv.same] at axiIdle sramIdle ⊢
  simp only [AxiMaster.AxiSide, axiIdle] at axi
  simp only [SramController.SramSide, sramIdle] at sram
  rw [List.length_append] at held
  refine List.length_eq_zero_iff.mp ?_
  cases dir : p.toSram with
  | true =>
    simp only [dir, if_true] at axi sram
    omega
  | false =>
    simp only [dir, Bool.false_eq_true, if_false] at axi sram
    omega

theorem Inv.flow_step (inv : Inv c) (legal : Legal c i) {p : Pair}
    (current : Current (step c i) p) : Transfer.Flow p (step c i).job := by
  cases done : c.done with
  | false =>
    have before := current_of_step done current
    have job : (step c i).job = c.job.step (DataPath.enginesIn c.path i) := by simp [step, done]
    rw [job]
    refine (inv.flow p before).cycle legal ?_ ?_ ?_ ?_
    · exact fun gets => inv.fed.axi_presented before (inv.same ▸ gets)
    · exact fun gets => inv.fed.sram_presented before (inv.same ▸ gets)
    · exact Transfer.axi_waits (inv.same ▸ done)
    · exact Transfer.sram_waits (inv.same ▸ done)
  | true =>
    -- the logs start again on idle engines and an empty MID
    obtain ⟨axi, sram⟩ := idle_of_done (i := i) done
    obtain ⟨q, now⟩ := exists_current c
    have ok : (step c i).path.engines.mid.Ok := Fifo.ok_step (inv.same ▸ (inv.flow q now).ok) _
    have noBurst : (step c i).job.rLeft = 0 := by
      have out := mt (inv.inBurst_step legal).mpr (by simp [axi])
      omega
    have job : (step c i).job = fresh (step c i).job.eng (step c i).job.rLeft := by
      simp [step, done, fresh]
    rw [noBurst, inv.same_step] at job
    rw [job]
    exact Transfer.Idle.flow
      { axi, sram, ok, empty := inv.mid_of_done done, rLeft := rfl, bursts := rfl, rBeats := rfl,
        wBeats := rfl, pushed := rfl, taken := rfl }

/-! ## One cycle -/

theorem Fed.started_step (fed : Fed c) :
    (step c i).dmAxi.outOf.length =
        (step c i).finished + (axiBusy (step c i).path.engines.axi).toNat ∧
      (step c i).dmSram.outOf.length =
        (step c i).finished + (sramBusy (step c i).path.engines.sram).toNat := by
  have axi := axiBusy_next c.path.engines.axi
    (Engines.axiIn c.path.engines (DataPath.enginesIn c.path i))
  have sram := sramBusy_next addrWidth c.path.engines.sram
    (Engines.sramIn c.path.engines (DataPath.enginesIn c.path i))
  have axiStarted := fed.axiStarted
  have sramStarted := fed.sramStarted
  have axiTaken : (step c i).dmAxi.outOf.length = c.dmAxi.outOf.length +
      (DataPath.axiOut c.path i).dmInRdEn.toNat := Logged.length_outOf_step ..
  have sramTaken : (step c i).dmSram.outOf.length = c.dmSram.outOf.length +
      (DataPath.sramOut c.path i).dmInRdEn.toNat := Logged.length_outOf_step ..
  have finished : (step c i).finished = c.finished + c.done.toNat := rfl
  rw [axiTaken, sramTaken, finished]
  -- each engine is freed by the `handshake_done` that is counted
  change _ + c.done.toNat = _ + (DataPath.axiOut c.path i).dmInRdEn.toNat at axi
  change _ + c.done.toNat = _ + (DataPath.sramOut c.path i).dmInRdEn.toNat at sram
  constructor
  · rw [show (step c i).path.engines.axi = AxiMaster.next _ _ from rfl]
    omega
  · rw [show (step c i).path.engines.sram = SramController.next addrWidth _ _ from rfl]
    omega

theorem not_done_of_done (done : c.done = true) (i : DataPath.In addrWidth) :
    (step c i).done = false := by
  rw [Chain.done, Engines.handshakeDone, AxiMaster.axiDone, (idle_of_done done).1]
  exact Bool.and_false _

theorem Inv.dmDone_step (inv : Inv c) (i : DataPath.In addrWidth) :
    (step c i).path.dmDone = c.done := by
  -- the edge detector: a handshake lasts one cycle, so each one is an edge
  change (c.done && !c.path.handshakeDoneD) = c.done
  cases before : c.path.handshakeDoneD with
  | false => exact Bool.and_true _
  | true => rw [inv.apart before, Bool.false_and]

theorem fed_start (s : DataPath.State k addrWidth) : Fed (start s) where
  dmAxiHolds := Logged.holds_reset _
  dmSramHolds := Logged.holds_reset _
  axiShown := by simp [start, DataPath.reset, Engines.reset, AxiMaster.resetState]
  sramShown := by simp [start, DataPath.reset, Engines.reset, SramController.resetState]
  decoded := by simp [DataMover.Decoded, start, DataPath.reset, DataMover.resetState]
  axiPairs := rfl
  sramPairs := rfl
  axiStarted := rfl
  sramStarted := rfl

theorem Fed.step (fed : Fed c) (i : DataPath.In addrWidth) : Fed (step c i) where
  dmAxiHolds := fed.dmAxiHolds.step fed.axiRespects
  dmSramHolds := fed.dmSramHolds.step fed.sramRespects
  axiShown := by
    intro gets
    obtain ⟨idle, shows⟩ := axi_get_of_next.2 gets
    exact Fifo.shows_of_idle fed.dmAxiHolds.ok
      ((AxiMaster.dmInRdEn_eq _ _).trans (by rw [idle]; rfl)) shows
  sramShown := by
    intro gets
    obtain ⟨idle, shows⟩ := sram_get_of_next gets
    exact Fifo.shows_of_idle fed.dmSramHolds.ok
      ((SramController.dmInRdEn_eq _ _).trans (by rw [idle]; rfl)) shows
  decoded := DataMover.decoded_next fed.decoded _
  axiPairs := fed.pairs_step.1
  sramPairs := fed.pairs_step.2
  axiStarted := fed.started_step.1
  sramStarted := fed.started_step.2

theorem inv_start (s : DataPath.State k addrWidth) : Inv (start s) :=
  { fed_start s with
    same := rfl
    inBurst := by
      simp [AxiMaster.InBurst, start, fresh, DataPath.reset, Engines.reset, AxiMaster.resetState]
    flow := fun _ _ => Transfer.Idle.flow
      { axi := rfl, sram := rfl, ok := Fifo.ok_reset _, empty := Fifo.contents_reset _,
        rLeft := rfl, bursts := rfl, rBeats := rfl, wBeats := rfl, pushed := rfl, taken := rfl }
    apart := fun before => absurd before Bool.false_ne_true
    pulsed := rfl }

theorem Inv.step (inv : Inv c) (legal : Legal c i) : Inv (step c i) :=
  { inv.fed.step i with
    same := inv.same_step
    inBurst := inv.inBurst_step legal
    flow := fun _ current => inv.flow_step legal current
    apart := fun before => not_done_of_done before i
    pulsed := by
      rw [inv.dmDone_step i]
      exact congrArg (· + c.done.toNat) inv.pulsed }

/-! ## Separation of the jobs -/

/-- What keeps the words of one descriptor from the next. -/
structure Separated (c : Chain k addrWidth) : Prop where
  empty : c.done = true → c.path.engines.mid.contents = []
  /-- Since the last handshake exactly the words of one descriptor went in and out. -/
  whole : c.done = true → ∃ d, c.sent[c.finished]? = some d ∧
    c.job.pushed = c.job.taken ∧ c.job.taken.length = beats d.lenBeats
  oneWriter : ∀ i, ¬ ((DataPath.axiOut c.path i).midWrEn = true ∧
    (DataPath.sramOut c.path i).midWrEn = true)
  oneReader : ∀ i, ¬ ((DataPath.axiOut c.path i).midRdEn = true ∧
    (DataPath.sramOut c.path i).midRdEn = true)
  /-- The engines are done with the first `finished` descriptors and hold at most the next. -/
  axiHalves : c.dmAxi.outOf =
    (c.sent.take (c.finished + (axiBusy c.path.engines.axi).toNat)).map DataMover.decodeAxi
  sramHalves : c.dmSram.outOf =
    (c.sent.take (c.finished + (sramBusy c.path.engines.sram).toNat)).map DataMover.decodeSram
  oneCycle : c.done = true → ∀ i, (step c i).done = false
  pulse : ∀ i, (step c i).path.dmDone = c.done
  pulsed : c.pulses + c.path.dmDone.toNat = c.finished

theorem Inv.oneSide (inv : Inv c) (i : DataPath.In addrWidth) :
    ((DataPath.axiOut c.path i).midRdEn = false ∧ (DataPath.sramOut c.path i).midWrEn = false) ∨
      (DataPath.axiOut c.path i).midWrEn = false ∧ (DataPath.sramOut c.path i).midRdEn = false := by
  obtain ⟨p, current⟩ := exists_current c
  obtain ⟨axi, sram⟩ := And.intro (inv.flow p current).axi (inv.flow p current).sram
  rw [inv.same] at axi sram
  cases dir : p.toSram with
  | true =>
    exact .inl ⟨axi.midRdEn_eq_false (by simp [Pair.axi, dir]), sram.midWrEn_eq_false dir⟩
  | false =>
    exact .inr ⟨axi.midWrEn_eq_false (by simp [Pair.axi, dir]), sram.midRdEn_eq_false dir⟩

theorem Inv.separated (inv : Inv c) : Separated c where
  empty := by
    intro done
    obtain ⟨_, -, -, -, empty⟩ := inv.whole done
    exact empty
  whole := by
    intro done
    obtain ⟨d, sent, count, all, -⟩ := inv.whole done
    exact ⟨d, sent, all, count⟩
  oneWriter := by
    rintro i ⟨axi, sram⟩
    rcases inv.oneSide i with ⟨-, none⟩ | ⟨none, -⟩
    · exact Bool.false_ne_true (none.symm.trans sram)
    · exact Bool.false_ne_true (none.symm.trans axi)
  oneReader := by
    rintro i ⟨axi, sram⟩
    rcases inv.oneSide i with ⟨none, -⟩ | ⟨-, none⟩
    · exact Bool.false_ne_true (none.symm.trans axi)
    · exact Bool.false_ne_true (none.symm.trans sram)
  axiHalves := outOf_of_count inv.dmAxiHolds inv.axiPairs inv.axiStarted
  sramHalves := outOf_of_count inv.dmSramHolds inv.sramPairs inv.sramStarted
  oneCycle := not_done_of_done
  pulse := inv.dmDone_step
  pulsed := inv.pulsed

end Chain

/-- No word crosses from one descriptor to the next.  In every state of every run of the
    data path, on any descriptors and with any slave that keeps to its bursts. -/
theorem no_word_crosses {k addrWidth : Nat} (s : DataPath.State k addrWidth)
    {is : List (DataPath.In addrWidth)}
    (runs : LegalRun Chain.step Chain.Legal (Chain.start s) is) :
    Chain.Separated (run Chain.step (Chain.start s) is) :=
  (runs.invariant (P := Chain.Inv) (fun _ _ inv legal => inv.step legal)
    (Chain.inv_start s)).separated

/-- Empty FIFOs and a BRAM of zeros, MID of depth 2. -/
def zeroPath : DataPath.State 1 3 :=
  { dataMover := DataMover.resetState
    dmFifoAxi := ⟨fun _ => ⟨0, 0, false⟩, 0, 0, ⟨0, 0, false⟩, true⟩
    dmFifoSram := ⟨fun _ => ⟨0, 0, false⟩, 0, 0, ⟨0, 0, false⟩, true⟩
    engines := (Transfer.atReset 1 fun _ => 0).eng
    handshakeDoneD := false
    dmDone := false }

/-- A cycle that offers descriptor `d` to the data mover. -/
def descCycle (d : Desc) (o : Axi4Slave) : DataPath.In 3 :=
  { dfDmInEmpty := false, dfDmInDout := d, dfInEmpty := true, dfInDout := ⟨0, 0⟩,
    dfOutFull := false, axi := o, init := { initDone := true, addr := 0, wrEn := false, din := 0 } }

/-- One word to the SRAM, then one word back: two handshakes. -/
theorem no_word_crosses_there_and_back :
    let there := descCycle ⟨0, 4, 1, 1⟩
    let back := descCycle ⟨4, 8, 1, 0⟩
    let is := [there readySlave] ++ List.replicate 6 (back readySlave) ++
      [back { readySlave with rvalid := true, rdata := 7, rlast := true }] ++
      List.replicate 10 (back readySlave)
    Chain.Separated (run Chain.step (Chain.start zeroPath) is) ∧
      (run Chain.step (Chain.start zeroPath) is).finished = 2 :=
  ⟨no_word_crosses zeroPath (by decide), by decide⟩

end AxiDma.Verified
