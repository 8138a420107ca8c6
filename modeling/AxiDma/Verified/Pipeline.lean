import AxiDma.Lib.Run
import AxiDma.Verified.InFlight
import AxiDma.Verified.Stages
import AxiDma.Verified.Transfer

/-! # The path of a descriptor through the core

`Pipeline` is `ring_manager` with `movement_top` and a log at every place a descriptor
passes.  `Inv` ties neighbouring logs together by what is between them, a FIFO or the
registers of a module, so that everything accepted is in exactly one place; with the
in-flight counter it bounds what is inside, and no FIFO can overflow.
-/

namespace AxiDma.Verified

open AxiDma.Lib AxiDma.Rtl

structure Pipeline (k addrWidth : Nat) where
  core : DmaCore.State k addrWidth
  /-- Beats left in the read burst. -/
  rLeft : Nat
  /-- Addresses of the accepted fetch requests. -/
  accepted : List Word
  /-- Descriptor reads on the AXI interface. -/
  reads : AxiMaster.Reads
  /-- Descriptors popped with `df_error`. -/
  errors : List Desc
  /-- Descriptors whose instruction pair the data mover sent. -/
  paired : List Desc
  dfIn : Logged Handle
  dfOut : Logged Desc
  descToDm : Logged Desc
  dmAxi : Logged InstrWide
  dmSram : Logged InstrWide
  /-- Cycles with `handshake_done`. -/
  finished : Nat
  tally : Tally

namespace Pipeline

variable {k addrWidth : Nat}

/-- The descriptors `descriptor_fetcher` has popped. -/
def popped (p : Pipeline k addrWidth) : List Desc := p.dfOut.outOf

def start (s : DmaCore.State k addrWidth) : Pipeline k addrWidth :=
  { core := DmaCore.reset s, rLeft := 0, accepted := [],
    reads := { finished := [], current := ⟨0, []⟩ }, errors := [], paired := [],
    dfIn := .none, dfOut := .none, descToDm := .none, dmAxi := .none, dmSram := .none,
    finished := 0, tally := .zero }

def step (p : Pipeline k addrWidth) (i : DmaCore.In addrWidth) : Pipeline k addrWidth :=
  let mt := p.core.mt
  let mi := DmaCore.mtIn p.core i
  let m := (MovementTop.axiOut mt mi).axi
  { core := DmaCore.step p.core i
    rLeft := rLeftNext p.rLeft m i.axi
    accepted := p.accepted ++ if DmaCore.fetchHs p.core i then [mi.rmDfAddr] else []
    reads := p.reads.step mt.engines.axi m i.axi
    errors := p.errors ++ if DmaCore.dfError p.core i then [mt.dfOutFifo.dout] else []
    paired := p.paired ++
      if DataMover.wrEn mt.dataMover (MovementTop.dmIn mt) then [mt.dataMover.inputData] else []
    dfIn := p.dfIn.step mt.dfInFifo (MovementTop.dfInFifoIn mt mi)
    dfOut := p.dfOut.step mt.dfOutFifo (MovementTop.dfOutFifoIn mt mi)
    descToDm := p.descToDm.step mt.descToDmFifo (MovementTop.descToDmFifoIn mt)
    dmAxi := p.dmAxi.step mt.dmFifoAxi (MovementTop.dmFifoAxiIn mt mi)
    dmSram := p.dmSram.step mt.dmFifoSram (MovementTop.dmFifoSramIn mt mi)
    finished := p.finished + (Engines.handshakeDone mt.engines).toNat
    tally := p.tally.record (DmaCore.fetchHs p.core i) mt.dmDone (DmaCore.dfError p.core i) }

/-- No CTRL.RESET, and the slave keeps to the read bursts.  TAIL, ENABLE, RINGLEN, the
    error clear, the BRAM port and all other slave signals are free in every cycle. -/
structure Legal (p : Pipeline k addrWidth) (i : DmaCore.In addrWidth) : Prop where
  noReset : i.csr.reset = false
  slave : SlaveLegal p.rLeft i.axi

instance (p : Pipeline k addrWidth) (i : DmaCore.In addrWidth) : Decidable (Legal p i) :=
  decidable_of_iff (i.csr.reset = false ∧ SlaveLegal p.rLeft i.axi)
    ⟨fun ⟨noReset, slave⟩ => ⟨noReset, slave⟩, fun legal => ⟨legal.noReset, legal.slave⟩⟩

/-! ## The invariant -/

/-- The master executes an instruction it has taken. -/
def axiBusy (s : AxiMaster.State) : Bool :=
  s.state == .dmRdAr || s.state == .dmRdR || s.state == .dmWrAw || s.state == .dmWrW ||
    s.state == .dmWrB || s.state == .waitSram

def sramBusy (s : SramController.State) : Bool :=
  s.state == .writing || s.state == .reading || s.state == .waitAxi4master

/-- A FIFO whose reader takes in state `gets` shows a word there. -/
structure Shown (mt : MovementTop.State k addrWidth) : Prop where
  dfIn : mt.engines.axi.state = .dfGet → mt.dfInFifo.empty = false
  dmAxi : mt.engines.axi.state = .dmGet → mt.dmFifoAxi.empty = false
  dmSram : mt.engines.sram.state = .dmGet → mt.dmFifoSram.empty = false

structure Inv (p : Pipeline k addrWidth) : Prop where
  dfInHolds : p.dfIn.Holds p.core.mt.dfInFifo
  dfOutHolds : p.dfOut.Holds p.core.mt.dfOutFifo
  descToDmHolds : p.descToDm.Holds p.core.mt.descToDmFifo
  dmAxiHolds : p.dmAxi.Holds p.core.mt.dmFifoAxi
  dmSramHolds : p.dmSram.Holds p.core.mt.dmFifoSram
  shown : Shown p.core.mt
  handles : p.accepted.map DescriptorFetcher.handleOf =
    p.dfIn.into ++ DescriptorFetcher.heldHandle p.core.mt.df
  fetches : AxiMaster.FetchSide p.core.mt.engines.axi p.rLeft p.dfIn.outOf p.reads p.dfOut.into
  errors : p.errors = p.popped.filter DescriptorFetcher.outOfRange
  goods : p.popped.filter (!DescriptorFetcher.outOfRange ·) =
    p.descToDm.into ++ DescriptorFetcher.heldDesc p.core.mt.df
  moved : p.descToDm.outOf = p.paired ++ DataMover.held p.core.mt.dataMover
  decoded : DataMover.Decoded p.core.mt.dataMover
  axiPairs : p.dmAxi.into = p.paired.map DataMover.decodeAxi
  sramPairs : p.dmSram.into = p.paired.map DataMover.decodeSram
  axiStarted : p.dmAxi.outOf.length = p.finished + (axiBusy p.core.mt.engines.axi).toNat
  sramStarted : p.dmSram.outOf.length = p.finished + (sramBusy p.core.mt.engines.sram).toNat
  axiReads : p.core.mt.engines.axi.state = .dmRdAr ∨ p.core.mt.engines.axi.state = .dmRdR →
    ∃ w ∈ p.dmAxi.outOf.getLast?, w.rw = false
  sramReads : p.core.mt.engines.sram.state = .reading →
    ∃ w ∈ p.dmSram.outOf.getLast?, w.rw = false
  apart : p.core.mt.handshakeDoneD = true → Engines.handshakeDone p.core.mt.engines = false
  answered : p.tally.answered + p.core.mt.dmDone.toNat = p.errors.length + p.finished
  counted : p.tally.accepted = p.accepted.length
  low : p.tally.accepted ≤ p.tally.answered + p.core.rm.inflightCount.toNat
  high : p.core.rm.inflightCount.toNat ≤ maxInflight

/-! ## What is inside

Every accepted request is answered, about to be answered, or in one place of the path. -/

/-- Descriptors and handles in FIFOs and registers. -/
def inside (p : Pipeline k addrWidth) : Nat :=
  (DescriptorFetcher.heldHandle p.core.mt.df).length + p.core.mt.dfInFifo.contents.length +
    (AxiMaster.heldAddr p.core.mt.engines.axi p.reads).length +
    (AxiMaster.heldDesc p.core.mt.engines.axi).length + p.core.mt.dfOutFifo.contents.length +
    (DescriptorFetcher.heldDesc p.core.mt.df).length + p.core.mt.descToDmFifo.contents.length +
    (DataMover.held p.core.mt.dataMover).length + p.core.mt.dmFifoAxi.contents.length +
    (axiBusy p.core.mt.engines.axi).toNat

theorem Inv.accepted_eq {p : Pipeline k addrWidth} (inv : Inv p) :
    p.tally.accepted = p.tally.answered + p.core.mt.dmDone.toNat + inside p := by
  -- every line of the invariant, as an equation of lengths
  have handles := congrArg List.length inv.handles
  have addrs := congrArg List.length inv.fetches.addrs
  have descs := congrArg List.length inv.fetches.descs
  have goods := congrArg List.length inv.goods
  have moved := congrArg List.length inv.moved
  have pairs := congrArg List.length inv.axiPairs
  have errors := congrArg List.length inv.errors
  have split := List.length_eq_length_filter_add (l := p.popped) DescriptorFetcher.outOfRange
  simp only [List.length_map, List.length_append] at handles addrs descs goods moved pairs
  have dfIn := inv.dfInHolds.length
  have dfOut := inv.dfOutHolds.length
  have descToDm := inv.descToDmHolds.length
  have dmAxi := inv.dmAxiHolds.length
  have started := inv.axiStarted
  have answered := inv.answered
  have counted := inv.counted
  unfold inside
  unfold popped at *
  omega

/-- The in-flight window bounds what is inside. -/
theorem Inv.inside_le {p : Pipeline k addrWidth} (inv : Inv p) : inside p ≤ 4 := by
  have balance := inv.accepted_eq
  have low := inv.low
  have high : p.core.rm.inflightCount.toNat ≤ 4 := inv.high
  omega

/-- Accepted requests that have not been read are in flight. -/
theorem Inv.accepted_le_finished {p : Pipeline k addrWidth} (inv : Inv p) :
    p.accepted.length ≤ p.reads.finished.length + p.core.rm.inflightCount.toNat := by
  have balance := inv.accepted_eq
  have low := inv.low
  have handles := congrArg List.length inv.handles
  have addrs := congrArg List.length inv.fetches.addrs
  simp only [List.length_map, List.length_append] at handles addrs
  have dfIn := inv.dfInHolds.length
  unfold inside at balance
  omega

/-! ## No FIFO overflows -/

variable {p : Pipeline k addrWidth} {i : DmaCore.In addrWidth}

theorem Inv.dfInRespects (inv : Inv p) : p.core.mt.dfInFifo.Respects
    (MovementTop.dfInFifoIn p.core.mt (DmaCore.mtIn p.core i)) where
  room := fun _ => Fifo.full_eq_false_of_lt (by
    have few := inv.inside_le
    unfold inside at few
    change _ < 64
    omega)
  shows := by
    intro reads
    refine inv.shown.dfIn (beq_iff_eq.mp ?_)
    exact (AxiMaster.dfInRdEn_eq _ _).symm.trans reads

theorem dfOutRespects : p.core.mt.dfOutFifo.Respects
    (MovementTop.dfOutFifoIn p.core.mt (DmaCore.mtIn p.core i)) where
  room := by
    intro writes
    -- the master pushes only into a FIFO with room
    have pushes := (AxiMaster.dfOutWrEn_eq _ _).symm.trans writes
    exact Bool.eq_false_of_not_eq_true' (Bool.and_eq_true_iff.mp pushes).2
  shows := by
    intro reads
    exact Bool.eq_false_of_not_eq_true' (Bool.and_eq_true_iff.mp reads).1

theorem Inv.descToDmRespects (inv : Inv p) :
    p.core.mt.descToDmFifo.Respects (MovementTop.descToDmFifoIn p.core.mt) where
  room := fun _ => Fifo.full_eq_false_of_lt (by
    have few := inv.inside_le
    unfold inside at few
    change _ < 16
    omega)
  shows := by
    intro reads
    exact Bool.eq_false_of_not_eq_true' (Bool.and_eq_true_iff.mp reads).2

theorem Inv.dmAxiRespects (inv : Inv p) : p.core.mt.dmFifoAxi.Respects
    (MovementTop.dmFifoAxiIn p.core.mt (DmaCore.mtIn p.core i)) where
  room := by
    intro writes
    exact Bool.eq_false_of_not_eq_true' (Bool.and_eq_true_iff.mp writes).2
  shows := by
    intro reads
    refine inv.shown.dmAxi (beq_iff_eq.mp ?_)
    exact (AxiMaster.dmInRdEn_eq _ _).symm.trans reads

theorem Inv.dmSramRespects (inv : Inv p) : p.core.mt.dmFifoSram.Respects
    (MovementTop.dmFifoSramIn p.core.mt (DmaCore.mtIn p.core i)) where
  room := by
    intro writes
    exact Bool.eq_false_of_not_eq_true'
      (Bool.and_eq_true_iff.mp (Bool.and_eq_true_iff.mp writes).1).2
  shows := by
    intro reads
    refine inv.shown.dmSram (beq_iff_eq.mp ?_)
    exact (SramController.dmInRdEn_eq _ _).symm.trans reads

/-! ## One cycle

One lemma for each line of the invariant. -/

theorem axi_get_of_next {s : AxiMaster.State} {i : AxiMaster.In} :
    ((AxiMaster.next s i).state = .dfGet → s.state = .idle ∧ i.dfInEmpty = false) ∧
      ((AxiMaster.next s i).state = .dmGet → s.state = .idle ∧ i.dmInEmpty = false) := by
  cases state : s.state <;> grind [AxiMaster.next_state]

theorem sram_get_of_next {s : SramController.State} {i : SramController.In}
    (gets : (SramController.next addrWidth s i).state = .dmGet) :
    s.state = .idle ∧ i.dmInEmpty = false := by
  cases state : s.state <;> grind [SramController.next_state]

theorem Inv.shown_step (inv : Inv p) : Shown (step p i).core.mt where
  dfIn := by
    intro gets
    obtain ⟨idle, shows⟩ := axi_get_of_next.1 gets
    exact Fifo.shows_of_idle inv.dfInHolds.ok
      ((AxiMaster.dfInRdEn_eq _ _).trans (by rw [idle]; rfl)) shows
  dmAxi := by
    intro gets
    obtain ⟨idle, shows⟩ := axi_get_of_next.2 gets
    exact Fifo.shows_of_idle inv.dmAxiHolds.ok
      ((AxiMaster.dmInRdEn_eq _ _).trans (by rw [idle]; rfl)) shows
  dmSram := by
    intro gets
    obtain ⟨idle, shows⟩ := sram_get_of_next gets
    exact Fifo.shows_of_idle inv.dmSramHolds.ok
      ((SramController.dmInRdEn_eq _ _).trans (by rw [idle]; rfl)) shows

/-- The fetcher takes a handle exactly when the ring manager issues a request. -/
theorem takesReq_eq : DescriptorFetcher.takesReq
    (MovementTop.dfIn p.core.mt (DmaCore.mtIn p.core i)) = DmaCore.fetchHs p.core i :=
  Bool.and_comm ..

theorem Inv.handles_step (inv : Inv p) :
    (step p i).accepted.map DescriptorFetcher.handleOf =
      (step p i).dfIn.into ++ DescriptorFetcher.heldHandle (step p i).core.mt.df := by
  have next : DescriptorFetcher.heldHandle (step p i).core.mt.df = _ :=
    DescriptorFetcher.heldHandle_next _ _
  rw [takesReq_eq] at next
  have written : (step p i).dfIn.into =
      p.dfIn.into ++ DescriptorFetcher.heldHandle p.core.mt.df := rfl
  rw [next, written, ← inv.handles]
  cases hs : DmaCore.fetchHs p.core i <;> simp [step, hs, MovementTop.dfIn]

theorem Inv.len_of_mem_dfIn (inv : Inv p) {h : Handle} (member : h ∈ p.dfIn.into) : h.len = 4 := by
  have all : h ∈ p.accepted.map DescriptorFetcher.handleOf := by
    rw [inv.handles]
    exact List.mem_append_left _ member
  obtain ⟨addr, -, rfl⟩ := List.mem_map.mp all
  rfl

theorem Inv.fetches_step (inv : Inv p) (legal : Legal p i) :
    AxiMaster.FetchSide (step p i).core.mt.engines.axi (step p i).rLeft (step p i).dfIn.outOf
      (step p i).reads (step p i).dfOut.into :=
  AxiMaster.fetchSide_step inv.fetches legal.slave fun gets =>
    inv.len_of_mem_dfIn (inv.dfInHolds.dout_mem (inv.shown.dfIn gets))

theorem popped_step : (step p i).popped = p.popped ++
    if DescriptorFetcher.dfOutRdEn (MovementTop.dfIn p.core.mt (DmaCore.mtIn p.core i)) then
      [p.core.mt.dfOutFifo.dout] else [] := rfl

theorem Inv.errors_step (inv : Inv p) :
    (step p i).errors = (step p i).popped.filter DescriptorFetcher.outOfRange := by
  rw [popped_step, List.filter_append, ← inv.errors]
  exact congrArg (p.errors ++ ·) (DescriptorFetcher.dfError_eq
    (MovementTop.dfIn p.core.mt (DmaCore.mtIn p.core i)))

theorem Inv.goods_step (inv : Inv p) :
    (step p i).popped.filter (!DescriptorFetcher.outOfRange ·) =
      (step p i).descToDm.into ++ DescriptorFetcher.heldDesc (step p i).core.mt.df := by
  have next : DescriptorFetcher.heldDesc (step p i).core.mt.df = _ :=
    DescriptorFetcher.heldDesc_next _ _
  have written : (step p i).descToDm.into =
      p.descToDm.into ++ DescriptorFetcher.heldDesc p.core.mt.df := rfl
  rw [popped_step, List.filter_append, inv.goods, next, written]
  rfl

theorem Inv.moved_step (inv : Inv p) :
    (step p i).descToDm.outOf =
      (step p i).paired ++ DataMover.held (step p i).core.mt.dataMover := by
  have flow := DataMover.held_next p.core.mt.dataMover (MovementTop.dmIn p.core.mt)
  calc (step p i).descToDm.outOf
      = p.descToDm.outOf ++ if DataMover.dfDmInRdEn p.core.mt.dataMover
          (MovementTop.dmIn p.core.mt) then [p.core.mt.descToDmFifo.dout] else [] := rfl
    _ = p.paired ++ (DataMover.held p.core.mt.dataMover ++
          if DataMover.dfDmInRdEn p.core.mt.dataMover (MovementTop.dmIn p.core.mt) then
            [(MovementTop.dmIn p.core.mt).dfDmInDout] else []) := by
        rw [inv.moved, List.append_assoc]
        rfl
    _ = (step p i).paired ++ DataMover.held (step p i).core.mt.dataMover := by
        rw [flow, ← List.append_assoc]
        rfl

theorem Inv.sent (inv : Inv p)
    (sends : DataMover.wrEn p.core.mt.dataMover (MovementTop.dmIn p.core.mt) = true) :
    p.core.mt.dataMover.instrAxi = DataMover.decodeAxi p.core.mt.dataMover.inputData ∧
      p.core.mt.dataMover.instrSram = DataMover.decodeSram p.core.mt.dataMover.inputData :=
  inv.decoded (beq_iff_eq.mp
    (Bool.and_eq_true_iff.mp (Bool.and_eq_true_iff.mp sends).1).1)

theorem Inv.pairs_step (inv : Inv p) :
    (step p i).dmAxi.into = (step p i).paired.map DataMover.decodeAxi ∧
      (step p i).dmSram.into = (step p i).paired.map DataMover.decodeSram := by
  have axi : (step p i).dmAxi.into = p.dmAxi.into ++
      if DataMover.wrEn p.core.mt.dataMover (MovementTop.dmIn p.core.mt) then
        [p.core.mt.dataMover.instrAxi] else [] := rfl
  have sram : (step p i).dmSram.into = p.dmSram.into ++
      if DataMover.wrEn p.core.mt.dataMover (MovementTop.dmIn p.core.mt) then
        [p.core.mt.dataMover.instrSram] else [] := rfl
  rw [axi, sram, inv.axiPairs, inv.sramPairs, step]
  cases sends : DataMover.wrEn p.core.mt.dataMover (MovementTop.dmIn p.core.mt) with
  | false => simp
  | true =>
    obtain ⟨axiEq, sramEq⟩ := inv.sent sends
    simp [axiEq, sramEq]

/-- Taking an instruction makes the master busy, the handshake makes it free. -/
theorem axiBusy_next (s : AxiMaster.State) (i : AxiMaster.In) :
    (axiBusy (AxiMaster.next s i)).toNat + (i.sramDone && AxiMaster.axiDone s).toNat =
      (axiBusy s).toNat + (AxiMaster.out s i).dmInRdEn.toNat := by
  rw [AxiMaster.dmInRdEn_eq]
  cases state : s.state <;> grind [AxiMaster.next_state, axiBusy, AxiMaster.axiDone]

variable (addrWidth) in
theorem sramBusy_next (s : SramController.State) (i : SramController.In) :
    (sramBusy (SramController.next addrWidth s i)).toNat +
        (SramController.sramDone s && i.axi4masterDone).toNat =
      (sramBusy s).toNat + (SramController.out addrWidth s i).dmInRdEn.toNat := by
  rw [SramController.dmInRdEn_eq]
  cases state : s.state <;>
    grind [SramController.next_state, sramBusy, SramController.sramDone]

theorem Inv.started_step (inv : Inv p) :
    (step p i).dmAxi.outOf.length =
        (step p i).finished + (axiBusy (step p i).core.mt.engines.axi).toNat ∧
      (step p i).dmSram.outOf.length =
        (step p i).finished + (sramBusy (step p i).core.mt.engines.sram).toNat := by
  have axi := axiBusy_next p.core.mt.engines.axi
    (Engines.axiIn p.core.mt.engines (MovementTop.enginesIn p.core.mt (DmaCore.mtIn p.core i)))
  have sram := sramBusy_next addrWidth p.core.mt.engines.sram
    (Engines.sramIn p.core.mt.engines (MovementTop.enginesIn p.core.mt (DmaCore.mtIn p.core i)))
  have axiStarted := inv.axiStarted
  have sramStarted := inv.sramStarted
  have finished : (step p i).finished =
      p.finished + (Engines.handshakeDone p.core.mt.engines).toNat := rfl
  have axiTaken : (step p i).dmAxi.outOf.length = p.dmAxi.outOf.length +
      (MovementTop.axiOut p.core.mt (DmaCore.mtIn p.core i)).dmInRdEn.toNat :=
    Logged.length_outOf_step ..
  have sramTaken : (step p i).dmSram.outOf.length = p.dmSram.outOf.length +
      (MovementTop.sramOut p.core.mt (DmaCore.mtIn p.core i)).dmInRdEn.toNat :=
    Logged.length_outOf_step ..
  rw [axiTaken, sramTaken, finished]
  change _ + (Engines.handshakeDone p.core.mt.engines).toNat = _ +
    (MovementTop.axiOut p.core.mt (DmaCore.mtIn p.core i)).dmInRdEn.toNat at axi
  change _ + (Engines.handshakeDone p.core.mt.engines).toNat = _ +
    (MovementTop.sramOut p.core.mt (DmaCore.mtIn p.core i)).dmInRdEn.toNat at sram
  constructor
  · rw [show (step p i).core.mt.engines.axi = AxiMaster.next _ _ from rfl]
    omega
  · rw [show (step p i).core.mt.engines.sram = SramController.next addrWidth _ _ from rfl]
    omega

/-- The handshake frees both engines, so it lasts one cycle. -/
theorem apart_step : (step p i).core.mt.handshakeDoneD = true →
    Engines.handshakeDone (step p i).core.mt.engines = false := by
  intro done
  obtain ⟨sram, axi⟩ := Bool.and_eq_true_iff.mp
    (show Engines.handshakeDone p.core.mt.engines = true from done)
  have idle : (step p i).core.mt.engines.axi.state = .idle := by
    simp only [AxiMaster.axiDone, beq_iff_eq] at axi
    simp [step, DmaCore.step, MovementTop.step, Engines.step, AxiMaster.next_state, axi,
      Engines.axiIn, sram]
  simp [Engines.handshakeDone, AxiMaster.axiDone, idle]

theorem Inv.answered_step (inv : Inv p) :
    (step p i).tally.answered + (step p i).core.mt.dmDone.toNat =
      (step p i).errors.length + (step p i).finished := by
  have answered := inv.answered
  have pulse : (step p i).core.mt.dmDone = Engines.handshakeDone p.core.mt.engines := by
    change (Engines.handshakeDone p.core.mt.engines && !p.core.mt.handshakeDoneD) = _
    cases before : p.core.mt.handshakeDoneD with
    | false => simp
    | true => simp [inv.apart before]
  have error : (step p i).errors.length = p.errors.length + (DmaCore.dfError p.core i).toNat := by
    rw [step, List.length_append]
    cases DmaCore.dfError p.core i <;> rfl
  -- the pulse is the handshake itself, which is never high in two cycles in a row
  rw [pulse, error]
  simp only [step, Tally.record]
  omega

theorem Inv.counted_step (inv : Inv p) : (step p i).tally.accepted = (step p i).accepted.length := by
  have counted := inv.counted
  rw [step, List.length_append]
  simp only [Tally.record, counted]
  cases DmaCore.fetchHs p.core i <;> rfl

/-- A `df_error` answers a descriptor that is still inside. -/
theorem Inv.asked (inv : Inv p) :
    p.tally.answered + p.core.mt.dmDone.toNat + (DmaCore.dfError p.core i).toNat ≤
      p.tally.accepted := by
  -- what is popped with `df_error` has been counted inside until now
  have balance := inv.accepted_eq
  cases error : DmaCore.dfError p.core i with
  | false =>
    rw [Bool.toNat_false]
    omega
  | true =>
    have pops := (Bool.and_eq_true_iff.mp error).1
    have shows := (dfOutRespects (i := i)).shows pops
    have word := congrArg List.length (inv.dfOutHolds.ok.contents_eq_cons shows)
    rw [List.length_cons] at word
    unfold inside at balance
    rw [Bool.toNat_true]
    omega

theorem Inv.window_step (inv : Inv p) (legal : Legal p i) :
    (step p i).tally.accepted ≤
        (step p i).tally.answered + (step p i).core.rm.inflightCount.toNat ∧
      (step p i).core.rm.inflightCount.toNat ≤ maxInflight := by
  have asked := inv.asked (i := i)
  have count : (step p i).core.rm.inflightCount =
      RingManager.inflightCountNext p.core.rm (DmaCore.rmIn p.core i) :=
    congrArg RingManager.State.inflightCount (RingManager.step_of_run rfl legal.noReset)
  rw [count]
  -- no more is answered than was asked for, so the counter stays in its window
  exact RingManager.count_step (i := DmaCore.rmIn p.core i) inv.low inv.high
    (Nat.le_trans asked (Nat.le_add_right ..))

theorem axi_reads_of_next {s : AxiMaster.State} {i : AxiMaster.In}
    (reads : (AxiMaster.next s i).state = .dmRdAr ∨ (AxiMaster.next s i).state = .dmRdR) :
    s.state = .dmGet ∧ i.dmInDout.rw = false ∨
      (AxiMaster.out s i).dmInRdEn = false ∧ (s.state = .dmRdAr ∨ s.state = .dmRdR) := by
  rw [AxiMaster.dmInRdEn_eq]
  cases state : s.state <;> grind [AxiMaster.next_state]

theorem sram_reads_of_next {s : SramController.State} {i : SramController.In}
    (reads : (SramController.next addrWidth s i).state = .reading) :
    s.state = .dmGet ∧ i.dmInDout.rw = false ∨
      (SramController.out addrWidth s i).dmInRdEn = false ∧ s.state = .reading := by
  rw [SramController.dmInRdEn_eq]
  cases state : s.state <;> grind [SramController.next_state]

theorem Inv.axiReads_step (inv : Inv p)
    (reads : (step p i).core.mt.engines.axi.state = .dmRdAr ∨
      (step p i).core.mt.engines.axi.state = .dmRdR) :
    ∃ w ∈ (step p i).dmAxi.outOf.getLast?, w.rw = false := by
  have taken : (step p i).dmAxi.outOf = p.dmAxi.outOf ++
      if (MovementTop.axiOut p.core.mt (DmaCore.mtIn p.core i)).dmInRdEn then
        [p.core.mt.dmFifoAxi.dout] else [] := rfl
  rw [taken]
  -- either the instruction is taken in this cycle, or it was taken before
  rcases axi_reads_of_next reads with ⟨gets, rw⟩ | ⟨noGet, before⟩
  · have reads : (MovementTop.axiOut p.core.mt (DmaCore.mtIn p.core i)).dmInRdEn = true :=
      (AxiMaster.dmInRdEn_eq _ _).trans (by rw [gets]; rfl)
    exact ⟨p.core.mt.dmFifoAxi.dout, by simp [reads], rw⟩
  · have none : (MovementTop.axiOut p.core.mt (DmaCore.mtIn p.core i)).dmInRdEn = false := noGet
    simpa [none] using inv.axiReads before

theorem Inv.sramReads_step (inv : Inv p)
    (reads : (step p i).core.mt.engines.sram.state = .reading) :
    ∃ w ∈ (step p i).dmSram.outOf.getLast?, w.rw = false := by
  have taken : (step p i).dmSram.outOf = p.dmSram.outOf ++
      if (MovementTop.sramOut p.core.mt (DmaCore.mtIn p.core i)).dmInRdEn then
        [p.core.mt.dmFifoSram.dout] else [] := rfl
  rw [taken]
  -- either the instruction is taken in this cycle, or it was taken before
  rcases sram_reads_of_next reads with ⟨gets, rw⟩ | ⟨noGet, before⟩
  · have reads : (MovementTop.sramOut p.core.mt (DmaCore.mtIn p.core i)).dmInRdEn = true :=
      (SramController.dmInRdEn_eq _ _).trans (by rw [gets]; rfl)
    exact ⟨p.core.mt.dmFifoSram.dout, by simp [reads], rw⟩
  · have none : (MovementTop.sramOut p.core.mt (DmaCore.mtIn p.core i)).dmInRdEn = false := noGet
    simpa [none] using inv.sramReads before

theorem inv_start (s : DmaCore.State k addrWidth) : Inv (start s) where
  dfInHolds := Logged.holds_reset _
  dfOutHolds := Logged.holds_reset _
  descToDmHolds := Logged.holds_reset _
  dmAxiHolds := Logged.holds_reset _
  dmSramHolds := Logged.holds_reset _
  shown := ⟨nofun, nofun, nofun⟩
  handles := rfl
  fetches := ⟨rfl, rfl, nofun, trivial⟩
  errors := rfl
  goods := rfl
  moved := rfl
  decoded := nofun
  axiPairs := rfl
  sramPairs := rfl
  axiStarted := rfl
  sramStarted := rfl
  axiReads := nofun
  sramReads := nofun
  apart := nofun
  answered := rfl
  counted := rfl
  low := Nat.zero_le _
  high := Nat.zero_le _

theorem Inv.step (inv : Inv p) (legal : Legal p i) : Inv (step p i) where
  dfInHolds := inv.dfInHolds.step inv.dfInRespects
  dfOutHolds := inv.dfOutHolds.step dfOutRespects
  descToDmHolds := inv.descToDmHolds.step inv.descToDmRespects
  dmAxiHolds := inv.dmAxiHolds.step inv.dmAxiRespects
  dmSramHolds := inv.dmSramHolds.step inv.dmSramRespects
  shown := inv.shown_step
  handles := inv.handles_step
  fetches := inv.fetches_step legal
  errors := inv.errors_step
  goods := inv.goods_step
  moved := inv.moved_step
  decoded := DataMover.decoded_next inv.decoded _
  axiPairs := inv.pairs_step.1
  sramPairs := inv.pairs_step.2
  axiStarted := inv.started_step.1
  sramStarted := inv.started_step.2
  axiReads := inv.axiReads_step
  sramReads := inv.sramReads_step
  apart := apart_step
  answered := inv.answered_step
  counted := inv.counted_step
  low := (inv.window_step legal).1
  high := (inv.window_step legal).2

end Pipeline

end AxiDma.Verified
