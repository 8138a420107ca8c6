import AxiDma.Verified.BoardMemory
import AxiDma.Verified.CoreAtRest

/-! # When the DMA leaves the memories alone

`Dormant` says that nothing is under way in `movement_top`.  It stays so while no fetch is
requested, and then no transfer is on the AXI bus.  An idle status means it: with nothing in
flight every FIFO, MID among them, is empty and every state machine is idle.
-/

namespace AxiDma.Verified

open AxiDma.Lib AxiDma.Rtl

/-! ## A FIFO without words -/

structure Drained {k : Nat} {α : Type} (f : Fifo k α) : Prop where
  level : f.wrAddr = f.rdAddr
  shows : f.empty = true

section Drained

variable {k : Nat} {α : Type} {f : Fifo k α} {i : Fifo.In α}

theorem drained_reset (f : Fifo k α) : Drained f.reset := ⟨rfl, rfl⟩

theorem Drained.step (drained : Drained f) (noWrite : i.wrEn = false) : Drained (f.step i) := by
  obtain ⟨level, -⟩ := drained
  constructor <;> simp [Fifo.step, Fifo.wrAddrT, Fifo.rdAddrT, Fifo.emptyT, noWrite, level]

theorem Fifo.Ok.drained (ok : f.Ok) (none : f.contents.length = 0) : Drained f := by
  rw [Fifo.length_contents] at none
  constructor
  · exact Lib.distance_eq_zero_iff.mp none
  · by_contra shows
    exact (ok.shown (by simpa using shows)).1 none

theorem reset_step_of_reset (same : f.reset = f) (noWrite : i.wrEn = false) : (f.step i).reset = f.step i := by
  rw [← same]
  simp [Fifo.step, Fifo.reset, Fifo.wrAddrT, Fifo.rdAddrT, Fifo.emptyT, noWrite]

end Drained

/-! ## Nothing under way -/

section Dormant

variable {k addrWidth : Nat} {s : MovementTop.State k addrWidth} {i : MovementTop.In addrWidth}

structure Dormant (s : MovementTop.State k addrWidth) : Prop where
  noHandle : s.df.dfInWrEn = false
  noDesc : s.df.dmInWrEn = false
  dfIn : Drained s.dfInFifo
  dfOut : Drained s.dfOutFifo
  descToDm : Drained s.descToDmFifo
  mover : s.dataMover.state = .getData
  dmAxi : Drained s.dmFifoAxi
  dmSram : Drained s.dmFifoSram
  axi : s.engines.axi.state = .idle
  sram : s.engines.sram.state = .idle
  mid : Drained s.engines.mid
  noDone : s.dmDone = false

theorem dormant_reset (s : MovementTop.State k addrWidth) : Dormant (MovementTop.reset s) where
  noHandle := rfl
  noDesc := rfl
  dfIn := drained_reset _
  dfOut := drained_reset _
  descToDm := drained_reset _
  mover := rfl
  dmAxi := drained_reset _
  dmSram := drained_reset _
  axi := rfl
  sram := rfl
  mid := drained_reset _
  noDone := rfl

theorem Dormant.axiOut (dormant : Dormant s) (i : MovementTop.In addrWidth) :
    MovementTop.axiOut s i =
      AxiMaster.defaultOut s.engines.axi (Engines.axiIn s.engines (MovementTop.enginesIn s i)) := by
  have none : s.dfInFifo.empty = true := dormant.dfIn.shows
  have none' : s.dmFifoAxi.empty = true := dormant.dmAxi.shows
  simp [MovementTop.axiOut, Engines.axiOut, AxiMaster.out, AxiMaster.comb, dormant.axi, Engines.axiIn,
    MovementTop.enginesIn, none, none']

theorem Dormant.sramOut (dormant : Dormant s) (i : MovementTop.In addrWidth) :
    MovementTop.sramOut s i = SramController.defaultOut addrWidth s.engines.sram := by
  simp [MovementTop.sramOut, Engines.sramOut, SramController.out, SramController.comb, dormant.sram]

theorem Dormant.noPush (dormant : Dormant s) (i : MovementTop.In addrWidth) :
    (Engines.midIn s.engines (MovementTop.enginesIn s i)).wrEn = false := by
  have axiOut : Engines.axiOut s.engines (MovementTop.enginesIn s i) = _ := dormant.axiOut i
  have sramOut : Engines.sramOut s.engines (MovementTop.enginesIn s i) = _ := dormant.sramOut i
  rw [Engines.midIn, axiOut, sramOut]
  rfl

/-- The BRAM changes only by the init port, and only while `init_done` is low. -/
theorem Dormant.bram_step (dormant : Dormant s) (i : MovementTop.In addrWidth) :
    (MovementTop.step s i).engines.bram.mem =
      if i.init.wrEn && !i.init.initDone then
        Function.update s.engines.bram.mem i.init.addr i.init.din
      else s.engines.bram.mem := by
  have sramOut : Engines.sramOut s.engines (MovementTop.enginesIn s i) = _ := dormant.sramOut i
  have mem : (MovementTop.step s i).engines.bram.mem =
      (s.engines.bram.step (Engines.bramIn s.engines (MovementTop.enginesIn s i))).mem := rfl
  have init : (MovementTop.enginesIn s i).init = i.init := rfl
  rw [mem, Engines.bramIn, sramOut, init]
  cases owner : i.init.initDone <;> cases writes : i.init.wrEn <;>
    simp [Bram.step, SramController.defaultOut]

theorem Dormant.noSend (dormant : Dormant s) :
    DataMover.wrEn s.dataMover (MovementTop.dmIn s) = false := by
  simp [DataMover.wrEn, dormant.mover]

theorem Dormant.noError (dormant : Dormant s) (i : MovementTop.In addrWidth) :
    MovementTop.dfError s i = false := by
  simp [MovementTop.dfError, DescriptorFetcher.dfError, DescriptorFetcher.dfOutRdEn, MovementTop.dfIn,
    dormant.dfOut.shows]

theorem Dormant.engines_step (dormant : Dormant s) (i : MovementTop.In addrWidth) :
    (MovementTop.step s i).engines.axi = s.engines.axi ∧ (MovementTop.step s i).engines.sram = s.engines.sram := by
  have none : s.dfInFifo.empty = true := dormant.dfIn.shows
  have none' : s.dmFifoAxi.empty = true := dormant.dmAxi.shows
  have none'' : s.dmFifoSram.empty = true := dormant.dmSram.shows
  constructor
  · simp [MovementTop.step, Engines.step, AxiMaster.next, AxiMaster.comb, dormant.axi, Engines.axiIn,
      MovementTop.enginesIn, none, none']
  · simp [MovementTop.step, Engines.step, SramController.next, SramController.comb, dormant.sram,
      Engines.sramIn, MovementTop.enginesIn, none'']

/-- Nothing starts by itself. -/
theorem Dormant.step (dormant : Dormant s) (noRequest : i.rmDfValid = false) : Dormant (MovementTop.step s i) where
  noHandle := by simp [MovementTop.step, DescriptorFetcher.next, DescriptorFetcher.takesReq, MovementTop.dfIn, noRequest]
  noDesc := by
    simp [MovementTop.step, DescriptorFetcher.next, DescriptorFetcher.dfOutRdEn, MovementTop.dfIn,
      dormant.dfOut.shows]
  dfIn := dormant.dfIn.step dormant.noHandle
  dfOut := dormant.dfOut.step (congrArg AxiMaster.Out.dfOutWrEn (dormant.axiOut i))
  descToDm := dormant.descToDm.step dormant.noDesc
  mover := by
    simp [MovementTop.step, DataMover.next, dormant.mover, MovementTop.dmIn, dormant.descToDm.shows]
  dmAxi := dormant.dmAxi.step dormant.noSend
  dmSram := dormant.dmSram.step dormant.noSend
  axi := by rw [(dormant.engines_step i).1, dormant.axi]
  sram := by rw [(dormant.engines_step i).2, dormant.sram]
  mid := dormant.mid.step (dormant.noPush i)
  noDone := by simp [MovementTop.step, Engines.handshakeDone, AxiMaster.axiDone, dormant.axi]

/-- Until the first request the registers stay at reset; the memory behind the BRAM port need not. -/
theorem reset_step (same : MovementTop.reset s = s) (noRequest : i.rmDfValid = false) :
    MovementTop.reset (MovementTop.step s i) = MovementTop.step s i := by
  have dormant : Dormant s := same ▸ dormant_reset s
  have df : (MovementTop.step s i).df = DescriptorFetcher.resetState := by
    have before : s.df = DescriptorFetcher.resetState := by
      rw [← same]
      rfl
    simp [MovementTop.step, DescriptorFetcher.next, before, MovementTop.dfIn, DescriptorFetcher.stateNext,
      DescriptorFetcher.resetState, DescriptorFetcher.dfError, DescriptorFetcher.dfOutRdEn,
      DescriptorFetcher.takesReq, dormant.dfOut.shows, noRequest]
  have mover : (MovementTop.step s i).dataMover = DataMover.resetState := by
    have before : s.dataMover = DataMover.resetState := by
      rw [← same]
      rfl
    simp [MovementTop.step, DataMover.next, before, DataMover.resetState, MovementTop.dmIn,
      dormant.descToDm.shows]
  have engines : Engines.reset (MovementTop.step s i).engines = (MovementTop.step s i).engines := by
    have before : Engines.reset s.engines = s.engines := congrArg MovementTop.State.engines same
    have axi : s.engines.axi = AxiMaster.resetState := by
      rw [← before]
      rfl
    have sram : s.engines.sram = SramController.resetState := by
      rw [← before]
      rfl
    have mid : s.engines.mid.reset = s.engines.mid := congrArg Engines.State.mid before
    have next : (MovementTop.step s i).engines.mid.reset = (MovementTop.step s i).engines.mid :=
      reset_step_of_reset mid (dormant.noPush i)
    rw [Engines.reset, next, ← axi, ← sram, ← (dormant.engines_step i).1, ← (dormant.engines_step i).2]
  have done : (MovementTop.step s i).handshakeDoneD = false := by
    simp [MovementTop.step, Engines.handshakeDone, AxiMaster.axiDone, dormant.axi]
  have dfIn : (MovementTop.step s i).dfInFifo.reset = (MovementTop.step s i).dfInFifo :=
    reset_step_of_reset (congrArg MovementTop.State.dfInFifo same) dormant.noHandle
  have dfOut : (MovementTop.step s i).dfOutFifo.reset = (MovementTop.step s i).dfOutFifo :=
    reset_step_of_reset (congrArg MovementTop.State.dfOutFifo same)
      (congrArg AxiMaster.Out.dfOutWrEn (dormant.axiOut i))
  have descToDm : (MovementTop.step s i).descToDmFifo.reset = (MovementTop.step s i).descToDmFifo :=
    reset_step_of_reset (congrArg MovementTop.State.descToDmFifo same) dormant.noDesc
  have dmAxi : (MovementTop.step s i).dmFifoAxi.reset = (MovementTop.step s i).dmFifoAxi :=
    reset_step_of_reset (congrArg MovementTop.State.dmFifoAxi same) dormant.noSend
  have dmSram : (MovementTop.step s i).dmFifoSram.reset = (MovementTop.step s i).dmFifoSram :=
    reset_step_of_reset (congrArg MovementTop.State.dmFifoSram same) dormant.noSend
  have noDone := (dormant.step noRequest).noDone
  rw [MovementTop.reset, dfIn, dfOut, descToDm, dmAxi, dmSram, engines, ← df, ← mover]
  generalize MovementTop.step s i = next at done noDone
  cases next
  rw [MovementTop.State.mk.injEq]
  exact ⟨rfl, rfl, rfl, rfl, rfl, rfl, rfl, rfl, done.symm, noDone.symm⟩

/-- The log of the data path in the same run. -/
structure Beside (p : Pipeline k addrWidth) (c : Chain k addrWidth) : Prop where
  chain : Chain.Inv c
  path : c.path = DataPath.ofMovementTop p.core.mt
  rLeft : c.job.rLeft = p.rLeft

theorem beside_start (s : DmaCore.State k addrWidth) :
    Beside (Pipeline.start s) (Chain.start (DataPath.ofMovementTop s.mt)) :=
  ⟨Chain.inv_start _, rfl, rfl⟩

theorem Beside.step {p : Pipeline k addrWidth} {c : Chain k addrWidth} (beside : Beside p c)
    {i : DmaCore.In addrWidth} (legal : Pipeline.Legal p i) : Beside (p.step i)
      (c.step (DataPath.inOfMovementTop p.core.mt (DmaCore.mtIn p.core i))) := by
  obtain ⟨chain, path, rLeft⟩ := beside
  have eng : c.job.eng = p.core.mt.engines := by
    rw [chain.same, path]
    rfl
  refine ⟨chain.step ?_, ?_, ?_⟩
  · rw [Chain.Legal, rLeft]
    exact legal.slave
  · change DataPath.step c.path _ = _
    rw [path]
    rfl
  · rw [Chain.rLeft_step, Transfer.step, eng, rLeft, path]
    rfl

theorem ClosedCore.Inv.beside {ring : PostedRing} {r : ClosedCore k addrWidth}
    (inv : ClosedCore.Inv ring r) : Beside r.pipe r.chain :=
  ⟨inv.chain, inv.views.path, inv.views.rLeft⟩

/-- A status without BUSY: with nothing in flight, nothing is under way. -/
theorem Pipeline.Inv.dormant {p : Pipeline k addrWidth} (inv : Pipeline.Inv p)
    {c : Chain k addrWidth} (beside : Beside p c)
    (quiet : RingManager.busy p.core.rm = false) : Dormant p.core.mt := by
  have zero : p.core.rm.inflightCount.toNat = 0 := by
    simpa [RingManager.busy, BitVec.lt_def] using quiet
  have low := inv.low
  have balance := inv.accepted_eq
  have nothing : Pipeline.inside p = 0 := by omega
  have noDone : p.core.mt.dmDone = false := Bool.toNat_eq_zero.mp (by omega)
  unfold Pipeline.inside at nothing
  have dfIn : Drained p.core.mt.dfInFifo := Fifo.Ok.drained inv.dfInHolds.ok (by omega)
  have dmAxi : Drained p.core.mt.dmFifoAxi := Fifo.Ok.drained inv.dmAxiHolds.ok (by omega)
  -- both engines have finished all that the data mover sent
  have axiLength := inv.dmAxiHolds.length
  have sramLength := inv.dmSramHolds.length
  have axiStarted := inv.axiStarted
  have sramStarted := inv.sramStarted
  rw [inv.axiPairs, List.length_map] at axiLength
  rw [inv.sramPairs, List.length_map] at sramLength
  have dmSram : Drained p.core.mt.dmFifoSram := Fifo.Ok.drained inv.dmSramHolds.ok (by omega)
  have axiFree : axiBusy p.core.mt.engines.axi = false := Bool.toNat_eq_zero.mp (by omega)
  have sramFree : sramBusy p.core.mt.engines.sram = false := Bool.toNat_eq_zero.mp (by omega)
  have noHandle : (DescriptorFetcher.heldHandle p.core.mt.df).length = 0 := by omega
  have noDesc : (DescriptorFetcher.heldDesc p.core.mt.df).length = 0 := by omega
  have mover : (DataMover.held p.core.mt.dataMover).length = 0 := by omega
  have noAddr : (AxiMaster.heldAddr p.core.mt.engines.axi p.reads).length = 0 := by omega
  have noPush : (AxiMaster.heldDesc p.core.mt.engines.axi).length = 0 := by omega
  have axi : p.core.mt.engines.axi.state = .idle := by
    have shown := inv.shown
    cases state : p.core.mt.engines.axi.state with
    | idle => rfl
    | dfGet => exact absurd ((shown.dfIn state).symm.trans dfIn.shows) Bool.false_ne_true
    | dmGet => exact absurd ((shown.dmAxi state).symm.trans dmAxi.shows) Bool.false_ne_true
    | dfAr | dfR => simp [AxiMaster.heldAddr, state] at noAddr
    | dfPush => simp [AxiMaster.heldDesc, state] at noPush
    | dmRdAr | dmRdR | dmWrAw | dmWrW | dmWrB | waitSram => simp [axiBusy, state] at axiFree
  have sram : p.core.mt.engines.sram.state = .idle := by
    cases state : p.core.mt.engines.sram.state with
    | idle => rfl
    | dmGet => exact absurd ((inv.shown.dmSram state).symm.trans dmSram.shows) Bool.false_ne_true
    | writing | reading | waitAxi4master => simp [sramBusy, state] at sramFree
  -- with both engines idle the words of every finished job have passed MID
  have path : c.path.engines = p.core.mt.engines := congrArg DataPath.State.engines beside.path
  have midEmpty : p.core.mt.engines.mid.contents = [] := by
    rw [← path] at axi sram ⊢
    exact beside.chain.mid_of_idle axi sram
  have midOk : p.core.mt.engines.mid.Ok := by
    obtain ⟨pair, current⟩ := Chain.exists_current c
    rw [← path, ← beside.chain.same]
    exact (beside.chain.flow pair current).ok
  exact
    { noHandle := by
        unfold DescriptorFetcher.heldHandle at noHandle
        split at noHandle <;> simp_all
      noDesc := by
        unfold DescriptorFetcher.heldDesc at noDesc
        split at noDesc <;> simp_all
      dfIn := dfIn
      dfOut := Fifo.Ok.drained inv.dfOutHolds.ok (by omega)
      descToDm := Fifo.Ok.drained inv.descToDmHolds.ok (by omega)
      mover := by
        unfold DataMover.held at mover
        split at mover <;> simp_all
      dmAxi := dmAxi
      dmSram := dmSram
      axi := axi
      sram := sram
      mid := Fifo.Ok.drained midOk (by rw [midEmpty]; rfl)
      noDone := noDone }

theorem Dormant.run (dormant : Dormant s) {js : List (MovementTop.In addrWidth)}
    (noRequest : ∀ i ∈ js, i.rmDfValid = false) : Dormant (Lib.run MovementTop.step s js) := by
  induction js generalizing s with
  | nil => exact dormant
  | cons i js ih =>
    obtain ⟨first, others⟩ := List.forall_mem_cons.mp noRequest
    exact ih (dormant.step first) others

/-- Nothing leaves `movement_top` in this cycle, and only the init port can write to the BRAM. -/
structure Silent (s : MovementTop.State k addrWidth) (i : MovementTop.In addrWidth) : Prop where
  noAw : (MovementTop.axiOut s i).axi.awvalid = false
  noW : (MovementTop.axiOut s i).axi.wvalid = false
  noAr : (MovementTop.axiOut s i).axi.arvalid = false
  noWrite : (MovementTop.sramOut s i).wrEn = false
  bram : (MovementTop.step s i).engines.bram.mem =
    if i.init.wrEn && !i.init.initDone then
      Function.update s.engines.bram.mem i.init.addr i.init.din
    else s.engines.bram.mem
  noDone : s.dmDone = false
  noError : MovementTop.dfError s i = false

theorem Dormant.silent (dormant : Dormant s) (i : MovementTop.In addrWidth) : Silent s i where
  noAw := by
    rw [dormant.axiOut]
    rfl
  noW := by
    rw [dormant.axiOut]
    rfl
  noAr := by
    rw [dormant.axiOut]
    rfl
  noWrite := by
    rw [dormant.sramOut]
    rfl
  bram := dormant.bram_step i
  noDone := dormant.noDone
  noError := dormant.noError i

/-- BUSY low means rest: in every legal run, with any AXI slave, BUSY is clear only when no FIFO
    of `movement_top`, MID included, holds a word and no state machine is at work.  From there
    on, whatever comes in, until the next request there is no AXI transfer and no answer, and the
    BRAM changes by the init port alone. -/
theorem rest_of_not_busy {s : DmaCore.State k addrWidth} {is : List (DmaCore.In addrWidth)}
    (runs : LegalRun Pipeline.step Pipeline.Legal (Pipeline.start s) is)
    (quiet : RingManager.busy (run Pipeline.step (Pipeline.start s) is).core.rm = false)
    {js : List (MovementTop.In addrWidth)} (noRequest : ∀ i ∈ js, i.rmDfValid = false)
    (i : MovementTop.In addrWidth) :
    let last := run MovementTop.step (run Pipeline.step (Pipeline.start s) is).core.mt js
    Dormant last ∧ Silent last i := by
  intro last
  obtain ⟨inv, c, beside⟩ := runs.invariant (P := fun p => Pipeline.Inv p ∧ ∃ c, Beside p c)
    (fun _ _ ⟨inv, c, beside⟩ legal => ⟨inv.step legal, _, beside.step legal⟩)
    ⟨Pipeline.inv_start s, _, beside_start s⟩
  have before := inv.dormant beside quiet
  have after : Dormant last := before.run noRequest
  exact ⟨after, after.silent i⟩

end Dormant

/-- One descriptor, up to the cycle after its answer. -/
def oneAnswered : List (DmaCore.In 3) :=
  (List.replicate 6 readySlave ++ descBeats ⟨0, 4, 1, 0⟩ ++ List.replicate 20 readySlave).map (postedCycle 256 1)

/-- After it two cycles without a request: the init port writes a word, first with `init_done`
    high, then low. -/
def initWrites : List (MovementTop.In 3) :=
  [{ rmDfAddr := 256, rmDfValid := false, axi := readySlave, init := ⟨true, 1, true, 5⟩ },
   { rmDfAddr := 256, rmDfValid := false, axi := readySlave, init := ⟨false, 2, true, 6⟩ }]

theorem rest_of_not_busy_one :
    let p := run Pipeline.step (Pipeline.start (zeroed 2 3)) oneAnswered
    let last := run MovementTop.step p.core.mt initWrites
    p.finished = 1 ∧ Dormant last ∧ last.engines.bram.mem 1 = 0 ∧ last.engines.bram.mem 2 = 6 := by
  intro p last
  have runs : LegalRun Pipeline.step Pipeline.Legal (Pipeline.start (zeroed 2 3)) oneAnswered := by
    decide +kernel
  have quiet : RingManager.busy p.core.rm = false := by decide +kernel
  have none : ∀ i ∈ initWrites, i.rmDfValid = false := by decide
  have rest := rest_of_not_busy runs quiet none
    { rmDfAddr := 0, rmDfValid := false, axi := readySlave, init := ⟨false, 0, false, 0⟩ }
  exact ⟨by decide +kernel, rest.1, by decide +kernel, by decide +kernel⟩

end AxiDma.Verified
