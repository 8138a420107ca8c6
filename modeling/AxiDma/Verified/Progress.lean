import AxiDma.Lib.Run
import AxiDma.Verified.Service

/-! # Every transfer but one kind completes

`Job` closes the engines with `sys_mem` as the slave and the two instruction FIFOs that
hold the pair of one descriptor.  The system memory answers at once, so a cycle moves a
word, or an FSM, or lets a late `empty` flag fall, and the sum `Job.work` of what is left
goes down.  The exception is a write whose 8-bit length is 0: the SRAM side pushes one
word while the AXI side waits for 256.
-/

namespace AxiDma.Verified

open AxiDma.Lib AxiDma.Rtl

/-! ## The closed system -/

/-- The engines, `sys_mem` and the two instruction FIFOs. -/
structure Job (k addrWidth : Nat) where
  transfer : Transfer k addrWidth
  mem : Rtl.SysMem.State
  dmFifoAxi : Fifo dmFifoLog InstrWide
  dmFifoSram : Fifo dmFifoLog InstrWide

namespace Job

variable {k addrWidth : Nat}

/-- No handle to fetch, and both init ports at rest with `init_done` set. -/
def inputs (memWords : Nat) (j : Job k addrWidth) : Engines.In addrWidth :=
  { dfInEmpty := true, dfInDout := ⟨0, 0⟩, dfOutFull := false
    dmInEmptyAxi := j.dmFifoAxi.empty, dmInDoutAxi := MovementTop.narrow j.dmFifoAxi.dout
    dmInEmptySram := j.dmFifoSram.empty, dmInDoutSram := MovementTop.narrow j.dmFifoSram.dout
    axi := SysMem.out memWords j.mem
    init := { initDone := true, addr := 0, wrEn := false, din := 0 } }

def axiOut (memWords : Nat) (j : Job k addrWidth) : AxiMaster.Out :=
  Engines.axiOut j.transfer.eng (j.inputs memWords)

def sramOut (memWords : Nat) (j : Job k addrWidth) : SramController.Out addrWidth :=
  Engines.sramOut j.transfer.eng (j.inputs memWords)

def step (memWords : Nat) (j : Job k addrWidth) : Job k addrWidth :=
  { transfer := j.transfer.step (j.inputs memWords)
    mem := SysMem.step memWords j.mem (j.axiOut memWords).axi
      { wrEn := false, addr := 0, wdata := 0 }
    dmFifoAxi := j.dmFifoAxi.step
      { wrEn := false, din := ⟨0, 0, false⟩, rdEn := (j.axiOut memWords).dmInRdEn }
    dmFifoSram := j.dmFifoSram.step
      { wrEn := false, din := ⟨0, 0, false⟩, rdEn := (j.sramOut memWords).dmInRdEn } }

def done (j : Job k addrWidth) : Prop := Engines.handshakeDone j.transfer.eng = true

/-- Everything is idle and the instruction FIFOs hold the pair of `d`. -/
structure Start (d : Desc) (j : Job k addrWidth) : Prop where
  idle : j.transfer.Idle
  rState : j.mem.rState = .idle
  wState : j.mem.wState = .idle
  axiOk : j.dmFifoAxi.Ok
  axiInstr : j.dmFifoAxi.contents = [DataMover.decodeAxi d]
  sramOk : j.dmFifoSram.Ok
  sramInstr : j.dmFifoSram.contents = [DataMover.decodeSram d]

/-- An engine that has not taken its instruction yet finds it in its FIFO. -/
structure Waiting (fifo : Fifo dmFifoLog InstrWide) (instr : Instr) : Prop where
  ok : fifo.Ok
  holds : ∃ wide, fifo.contents = [wide] ∧ MovementTop.narrow wide = instr

structure Inv (p : Pair) (j : Job k addrWidth) : Prop where
  flow : Transfer.Flow p j.transfer
  inBurst : AxiMaster.InBurst j.transfer.eng.axi j.transfer.rLeft
  owes : SysMem.ReadOwes j.mem j.transfer.rLeft
  follows : WriteFollows j.transfer.eng.axi j.mem
  axiWaits : j.transfer.eng.axi.state = .idle ∨ j.transfer.eng.axi.state = .dmGet →
    Waiting j.dmFifoAxi p.axi
  axiShown : j.transfer.eng.axi.state = .dmGet → j.dmFifoAxi.empty = false
  sramWaits : j.transfer.eng.sram.state = .idle ∨ j.transfer.eng.sram.state = .dmGet →
    Waiting j.dmFifoSram p.sram
  sramShown : j.transfer.eng.sram.state = .dmGet → j.dmFifoSram.empty = false

theorem Waiting.narrow_dout {fifo : Fifo dmFifoLog InstrWide} {instr : Instr}
    (waiting : Waiting fifo instr) (shows : fifo.empty = false) :
    MovementTop.narrow fifo.dout = instr := by
  obtain ⟨wide, contents, eq⟩ := waiting.holds
  have head := waiting.ok.contents_eq_cons shows
  rw [contents, List.cons.injEq] at head
  rw [← head.1, eq]

theorem Waiting.step {fifo : Fifo dmFifoLog InstrWide} {instr : Instr}
    (waiting : Waiting fifo instr) {i : Fifo.In InstrWide} (noWrite : i.wrEn = false)
    (noRead : i.rdEn = false) : Waiting (fifo.step i) instr ∧ (fifo.step i).empty = false := by
  obtain ⟨wide, contents, eq⟩ := waiting.holds
  have remaining := Fifo.remaining_of_idle (f := fifo) noRead
  refine ⟨⟨Fifo.ok_step waiting.ok i, wide, ?_, eq⟩, ?_⟩
  · rw [Fifo.contents_step waiting.ok, remaining, contents, Fifo.accepted, noWrite]
    rfl
  · rw [Fifo.empty_step, remaining, contents]
    rfl

theorem Start.inv {d : Desc} {j : Job k addrWidth} (start : Start d j) : Inv (pairOf d) j where
  flow := start.idle.flow
  inBurst := by simp [AxiMaster.InBurst, start.idle.axi, start.idle.rLeft]
  owes := by simp [SysMem.ReadOwes, start.rState, start.idle.rLeft]
  follows := by simp [WriteFollows, start.idle.axi, start.wState]
  axiWaits := fun _ => ⟨start.axiOk, _, start.axiInstr, narrow_decodeAxi d⟩
  axiShown := by simp [start.idle.axi]
  sramWaits := fun _ => ⟨start.sramOk, _, start.sramInstr, narrow_decodeSram d⟩
  sramShown := by simp [start.idle.sram]

theorem Inv.legal {p : Pair} {j : Job k addrWidth} (inv : Inv p j) (memWords : Nat)
    (running : ¬ j.done) : Transfer.Legal p j.transfer (j.inputs memWords) where
  running := Bool.not_eq_true _ ▸ running
  initDone := rfl
  axi := fun state => (inv.axiWaits (.inr state)).narrow_dout (inv.axiShown state)
  sram := fun state => (inv.sramWaits (.inr state)).narrow_dout (inv.sramShown state)
  slave := SysMem.slaveLegal_out inv.owes

/-! ### One cycle -/

/-- While it does not fetch, the master is in its first two states only on the way to
    its instruction. -/
theorem axi_idle_of_next {s : AxiMaster.State} {i : AxiMaster.In} {mem : Rtl.SysMem.State}
    (follows : WriteFollows s mem) (waits : s.state = .waitSram → i.sramDone = false)
    (early : (AxiMaster.next s i).state = .idle ∨ (AxiMaster.next s i).state = .dmGet) :
    s.state = .idle ∧ (AxiMaster.out s i).dmInRdEn = false := by
  unfold WriteFollows at follows
  cases state : s.state <;>
    grind [AxiMaster.next_state, AxiMaster.out_eq]

theorem sram_idle_of_next {s : SramController.State} {i : SramController.In}
    (waits : s.state = .waitAxi4master → i.axi4masterDone = false)
    (early : (SramController.next addrWidth s i).state = .idle ∨
      (SramController.next addrWidth s i).state = .dmGet) :
    s.state = .idle ∧ (SramController.out addrWidth s i).dmInRdEn = false := by
  cases state : s.state <;>
    grind [SramController.next_state, SramController.out_eq]

theorem Inv.served {p : Pair} {j : Job k addrWidth} (inv : Inv p j) :
    Served p j.transfer j.mem :=
  ⟨inv.flow, inv.inBurst, inv.owes, inv.follows⟩

theorem Inv.cycle {p : Pair} {j : Job k addrWidth} (inv : Inv p j) (memWords : Nat)
    (running : ¬ j.done) : Cycle memWords p j.transfer j.mem (j.inputs memWords) :=
  ⟨inv.legal memWords running, rfl, rfl⟩

theorem Inv.axiFifo {p : Pair} {j : Job k addrWidth} (inv : Inv p j) (memWords : Nat)
    (running : ¬ j.done) (early : (j.step memWords).transfer.eng.axi.state = .idle ∨
      (j.step memWords).transfer.eng.axi.state = .dmGet) :
    Waiting (j.step memWords).dmFifoAxi p.axi ∧ (j.step memWords).dmFifoAxi.empty = false := by
  obtain ⟨idle, noRead⟩ := axi_idle_of_next inv.follows
    (inv.legal memWords running).axi_waits early
  exact (inv.axiWaits (.inl idle)).step rfl noRead

theorem Inv.sramFifo {p : Pair} {j : Job k addrWidth} (inv : Inv p j) (memWords : Nat)
    (running : ¬ j.done) (early : (j.step memWords).transfer.eng.sram.state = .idle ∨
      (j.step memWords).transfer.eng.sram.state = .dmGet) :
    Waiting (j.step memWords).dmFifoSram p.sram ∧ (j.step memWords).dmFifoSram.empty = false := by
  obtain ⟨idle, noRead⟩ := sram_idle_of_next (inv.legal memWords running).sram_waits early
  exact (inv.sramWaits (.inl idle)).step rfl noRead

theorem Inv.step {p : Pair} {j : Job k addrWidth} (inv : Inv p j) (memWords : Nat)
    (running : ¬ j.done) : Inv p (j.step memWords) := by
  have served := inv.served.step (inv.cycle memWords running)
    { wrEn := false, addr := 0, wdata := 0 }
  exact
    { flow := served.flow
      inBurst := served.inBurst
      owes := served.owes
      follows := served.follows
      axiWaits := fun early => (inv.axiFifo memWords running early).1
      axiShown := fun state => (inv.axiFifo memWords running (.inr state)).2
      sramWaits := fun early => (inv.sramFifo memWords running early).1
      sramShown := fun state => (inv.sramFifo memWords running (.inr state)).2 }

/-! ### What is left to do -/

/-- Cycles the AXI master is from its end, not counting its beats. -/
def axiLeft (j : Job k addrWidth) : Nat :=
  match j.transfer.eng.axi.state with
  | .idle => if j.dmFifoAxi.empty then 7 else 6
  | .dmGet => 5
  | .dmRdAr | .dmWrAw => 4
  | .dmRdR | .dmWrW => 3
  | .dmWrB => if j.mem.bvalid then 1 else 2
  | .waitSram => 0
  | .dfGet | .dfAr | .dfR | .dfPush => 8

/-- Cycles the SRAM controller is from its end, not counting its words. -/
def sramLeft (j : Job k addrWidth) : Nat :=
  match j.transfer.eng.sram.state with
  | .idle => if j.dmFifoSram.empty then 4 else 3
  | .dmGet => 2
  | .writing | .reading => 1
  | .waitAxi4master => 0

def work (p : Pair) (j : Job k addrWidth) : Nat :=
  wordsLeft p j.transfer + j.axiLeft + j.sramLeft

theorem axiLeft_eq (j : Job k addrWidth) :
    j.axiLeft = axiStage j.transfer.eng.axi j.mem.bvalid +
      if j.transfer.eng.axi.state = .idle ∧ j.dmFifoAxi.empty = true then 1 else 0 := by
  cases state : j.transfer.eng.axi.state <;> simp [axiLeft, axiStage, state]
  split <;> rfl

theorem sramLeft_eq (j : Job k addrWidth) :
    j.sramLeft = sramStage j.transfer.eng.sram +
      if j.transfer.eng.sram.state = .idle ∧ j.dmFifoSram.empty = true then 1 else 0 := by
  cases state : j.transfer.eng.sram.state <;> simp [sramLeft, sramStage, state]
  split <;> rfl

/-- Progress: a cycle before the done handshake leaves less to do. -/
theorem work_step {p : Pair} {j : Job k addrWidth} (inv : Inv p j)
    (matched : p.toSram = true ∨ p.len ≠ 0) (memWords : Nat) (running : ¬ j.done) :
    work p (j.step memWords) < work p j := by
  obtain ⟨⟨wordsLe, axiLe, sramLe⟩, less⟩ := left_step inv.served (inv.cycle memWords running)
    matched { wrEn := false, addr := 0, wdata := 0 }
  -- an idle engine sees its instruction after one cycle
  have axiSees : ¬ ((j.step memWords).transfer.eng.axi.state = .idle ∧
      (j.step memWords).dmFifoAxi.empty = true) := fun ⟨idle, empty⟩ =>
    Bool.false_ne_true ((inv.axiFifo memWords running (.inl idle)).2.symm.trans empty)
  have sramSees : ¬ ((j.step memWords).transfer.eng.sram.state = .idle ∧
      (j.step memWords).dmFifoSram.empty = true) := fun ⟨idle, empty⟩ =>
    Bool.false_ne_true ((inv.sramFifo memWords running (.inl idle)).2.symm.trans empty)
  rw [work, work, axiLeft_eq, sramLeft_eq, axiLeft_eq, sramLeft_eq, if_neg axiSees, if_neg sramSees]
  change wordsLeft p (j.step memWords).transfer ≤ _ at wordsLe
  change axiStage (j.step memWords).transfer.eng.axi (j.step memWords).mem.bvalid ≤ _ at axiLe
  change sramStage (j.step memWords).transfer.eng.sram ≤ _ at sramLe
  change _ → _ → wordsLeft p (j.step memWords).transfer +
    axiStage (j.step memWords).transfer.eng.axi (j.step memWords).mem.bvalid +
    sramStage (j.step memWords).transfer.eng.sram < _ at less
  by_cases axiLate : j.transfer.eng.axi.state = .idle ∧ j.dmFifoAxi.empty = true
  · rw [if_pos axiLate]
    omega
  · by_cases sramLate : j.transfer.eng.sram.state = .idle ∧ j.dmFifoSram.empty = true
    · rw [if_pos sramLate]
      omega
    · have := less (fun idle => Bool.eq_false_of_not_eq_true fun empty => axiLate ⟨idle, empty⟩)
        (fun idle => Bool.eq_false_of_not_eq_true fun empty => sramLate ⟨idle, empty⟩)
      omega

theorem Inv.not_done {p : Pair} {j : Job k addrWidth} (inv : Inv p j) (dir : p.toSram = false)
    (none : p.len = 0) : ¬ j.done := fun done => inv.flow.len_ne_zero_of_done dir done none

theorem not_done_iterate {d : Desc} {j : Job k addrWidth} (start : Start d j)
    (dir : d.dir = false) (none : d.lenBeats = 0) (memWords n : Nat) :
    ¬ ((step memWords)^[n] j).done := by
  have never {j : Job k addrWidth} (inv : Inv (pairOf d) j) : ¬ j.done :=
    inv.not_done (by rw [pairOf_toSram, dir]) (by rw [pairOf_len, none])
  exact never (iterate_invariant (fun _ inv => inv.step memWords (never inv)) start.inv n)

/-- The write burst of a finished transfer: `awlen + 1` W beats, `wlast` on the last. -/
def WholeBurst (t : Transfer k addrWidth) : Prop :=
  ∃ addr awlen, t.bursts = [⟨true, addr, awlen⟩] ∧
    t.wBeats.map Prod.snd = List.replicate awlen.toNat false ++ [true]

theorem map_snd_mapIdx_last {n : Nat} {words : List Word} (count : words.length = n + 1) :
    (words.mapIdx fun j w => (w, decide (j + 1 = n + 1))).map Prod.snd =
      List.replicate n false ++ [true] := by
  apply List.ext_getElem
  · simp [count]
  · intro j inLeft inRight
    simp only [List.length_append, List.length_replicate, List.length_singleton] at inRight
    simp only [List.getElem_append, List.getElem_map, List.getElem_mapIdx, List.length_replicate,
      List.getElem_replicate, List.getElem_singleton]
    split
    · exact decide_eq_false (by omega)
    · exact decide_eq_true (by omega)

theorem Inv.wholeBurst {p : Pair} {j : Job k addrWidth} (inv : Inv p j) (dir : p.toSram = false)
    (some : p.len ≠ 0) (done : j.done) : WholeBurst j.transfer := by
  have waits : j.transfer.eng.axi.state = .waitSram :=
    beq_iff_eq.mp (Bool.and_eq_true_iff.mp done).2
  have axi := inv.flow.axi
  simp only [AxiMaster.AxiSide, waits, dir, Bool.false_eq_true, if_false] at axi
  obtain ⟨burst, taken⟩ := axi
  have last := toNat_sub_one p.len
  have count : j.transfer.taken.length = (p.len - 1).toNat + 1 := by
    rw [taken, last]
    simp [Pair.axi, dir]
  refine ⟨p.axiAddr, p.len - 1, ?_, ?_⟩
  · rw [burst, AxiMaster.burstOf, Pair.axi, dir, AxiMaster.burstLen, if_neg some]
    rfl
  · rw [inv.flow.wBeats, dir, if_neg (by decide), ← last]
    exact map_snd_mapIdx_last count

end Job

/-- From idle, with the pair of a descriptor in the instruction FIFOs,
    the closed system reaches the done handshake, and a write sends its whole burst, if
    and only if the descriptor is not a write (DIR = 0) whose LEN has a zero low byte. -/
theorem transfer_completes_iff {k addrWidth memWords : Nat} {d : Desc} {j : Job k addrWidth}
    (start : Job.Start d j) :
    (∃ n, ((Job.step memWords)^[n] j).done ∧
      (d.dir = false → Job.WholeBurst ((Job.step memWords)^[n] j).transfer)) ↔
    ¬ (d.dir = false ∧ d.lenBeats = 0) := by
  constructor
  · rintro ⟨n, done, -⟩ ⟨dir, none⟩
    exact Job.not_done_iterate start dir none memWords n done
  · intro other
    have matched : (pairOf d).toSram = true ∨ (pairOf d).len ≠ 0 := by
      rw [pairOf_toSram, pairOf_len]
      by_contra neither
      simp only [not_or, Bool.not_eq_true, not_not] at neither
      exact other neither
    obtain ⟨n, done, inv⟩ := exists_iterate_of_measure Job.done (Job.work (pairOf d))
      (fun j inv running => ⟨Job.Inv.step inv memWords running,
        Job.work_step inv matched memWords running⟩) start.inv
    refine ⟨n, done, fun dir => inv.wholeBurst (by rw [pairOf_toSram, dir]) ?_ done⟩
    rw [pairOf_len]
    exact fun none => other ⟨dir, none⟩

/-- The closed system after reset with the pair of `d` in the instruction FIFOs. -/
def jobOf (d : Desc) : Job 6 10 :=
  let fifo : Fifo dmFifoLog InstrWide := Fifo.reset ⟨fun _ => ⟨0, 0, false⟩, 0, 0, ⟨0, 0, false⟩, true⟩
  { transfer := Transfer.atReset 6 fun _ => 0
    mem := { ram := fun _ => 0, initWordAddr := 0, rState := .idle, rAddr := 0, rLastBeat := 0,
             rBeat := 0, wState := .idle, wAddr := 0, wLastBeat := 0, wBeat := 0, bvalid := false }
    dmFifoAxi := fifo.step { wrEn := true, din := DataMover.decodeAxi d, rdEn := false }
    dmFifoSram := fifo.step { wrEn := true, din := DataMover.decodeSram d, rdEn := false } }

theorem start_jobOf (d : Desc) : Job.Start d (jobOf d) where
  idle := Transfer.idle_atReset _
  rState := rfl
  wState := rfl
  axiOk := Fifo.ok_step (Fifo.ok_reset _) _
  axiInstr := Fifo.contents_step (Fifo.ok_reset _) _
  sramOk := Fifo.ok_step (Fifo.ok_reset _) _
  sramInstr := Fifo.contents_step (Fifo.ok_reset _) _

theorem transfer_completes_two_words :
    (∃ n, ((Job.step 256)^[n] (jobOf ⟨0, 64, 2, 0⟩)).done ∧
      ((⟨0, 64, 2, 0⟩ : Desc).dir = false →
        Job.WholeBurst ((Job.step 256)^[n] (jobOf ⟨0, 64, 2, 0⟩)).transfer)) ↔
    ¬ ((⟨0, 64, 2, 0⟩ : Desc).dir = false ∧ (⟨0, 64, 2, 0⟩ : Desc).lenBeats = 0) :=
  transfer_completes_iff (start_jobOf _)

/-- A write of 256 words passes the fetcher's bounds check and never completes. -/
theorem zero_low_byte_write_hangs :
    DescriptorFetcher.outOfRange ⟨0, 64, 256, 0⟩ = false ∧
      ∀ n, ¬ ((Job.step 256)^[n] (jobOf ⟨0, 64, 256, 0⟩)).done :=
  ⟨by decide, Job.not_done_iterate (start_jobOf _) (by decide) (by decide) 256⟩

end AxiDma.Verified
