import AxiDma.Verified.FetchedWords

/-! # Room in MID

The SRAM controller may begin to read while the AXI master still serves descriptor fetches,
and a word that waits for room in MID would be lost.  The in-flight window leaves at most four
fetches before the write burst of the job, each of eight cycles, so MID holds at most 42 words
when the burst takes the first one.
-/

namespace AxiDma.Verified

open AxiDma.Lib AxiDma.Rtl
open Pipeline (axiBusy sramBusy)

/-! ## What an instruction FIFO shows -/

theorem Logged.Holds.into_eq {k : Nat} {α : Type} {l : Logged α} {f : Fifo k α} {i : Fifo.In α}
    (holds : l.Holds f) (respects : f.Respects i) :
    l.into.length = (l.step f i).outOf.length + (f.remaining i).length := by
  have split := congrArg List.length (Fifo.contents_eq_taken holds.ok respects.shows)
  have all := holds.length
  rw [List.length_append] at split
  rw [Logged.step, List.length_append]
  omega

/-- After a cycle the flag says whether all words written before it are taken. -/
theorem Logged.Holds.empty_step {k : Nat} {α : Type} {l : Logged α} {f : Fifo k α} {i : Fifo.In α}
    (holds : l.Holds f) (respects : f.Respects i) :
    (f.step i).empty = decide ((l.step f i).outOf.length = l.into.length) := by
  have count := holds.into_eq respects
  rw [Fifo.empty_step, Bool.eq_iff_iff, List.isEmpty_iff, ← List.length_eq_zero_iff,
    decide_eq_true_iff]
  omega

namespace ClosedCore

variable {k addrWidth : Nat} {ring : PostedRing} {r : ClosedCore k addrWidth}
  {csr : RingManager.CsrIn}

/-- Both instruction FIFOs show the first `n` pairs. -/
def Visible (r : ClosedCore k addrWidth) : Prop :=
  ∃ n, r.pipe.core.mt.dmFifoAxi.empty = decide (r.pipe.dmAxi.outOf.length = n) ∧
    r.pipe.core.mt.dmFifoSram.empty = decide (r.pipe.dmSram.outOf.length = n) ∧
    r.pipe.dmSram.outOf.length ≤ n

theorem visible_start (s : DmaCore.State k addrWidth) (mem : Rtl.SysMem.State) :
    Visible (start s mem) := ⟨0, rfl, rfl, Nat.le_refl 0⟩

theorem Inv.visible_step (inv : Inv ring r) (memWords : Nat) : Visible (r.step memWords csr) := by
  have axi := inv.pipe.dmAxiHolds.empty_step
    (inv.pipe.dmAxiRespects (i := r.coreIn memWords csr))
  have sram := inv.pipe.dmSramHolds.empty_step
    (inv.pipe.dmSramRespects (i := r.coreIn memWords csr))
  have le := inv.pipe.dmSramHolds.into_eq (inv.pipe.dmSramRespects (i := r.coreIn memWords csr))
  have same : r.pipe.dmAxi.into.length = r.pipe.dmSram.into.length := by
    rw [inv.pipe.axiPairs, inv.pipe.sramPairs, List.length_map, List.length_map]
  rw [same] at axi
  exact ⟨r.pipe.dmSram.into.length, axi, sram, by
    change (Logged.step _ _ _).outOf.length ≤ _
    omega⟩

/-- When the SRAM controller has found its half of a pair, the master sees the other one. -/
theorem Inv.axi_sees (inv : Inv ring r) (visible : Visible r)
    (waits : axiBusy r.pipe.core.mt.engines.axi = false)
    (found : r.pipe.core.mt.engines.sram.state ≠ .idle) :
    r.pipe.core.mt.dmFifoAxi.empty = false := by
  obtain ⟨n, axi, sram, le⟩ := visible
  have axiStarted := inv.pipe.axiStarted
  have sramStarted := inv.pipe.sramStarted
  rw [waits, Bool.toNat_false] at axiStarted
  rw [axi, decide_eq_false_iff_not]
  cases state : r.pipe.core.mt.engines.sram.state with
  | idle => exact absurd state found
  | dmGet =>
    have shows := inv.pipe.shown.dmSram state
    rw [sram, decide_eq_false_iff_not] at shows
    have free : sramBusy r.pipe.core.mt.engines.sram = false := by simp [sramBusy, state]
    rw [free, Bool.toNat_false] at sramStarted
    omega
  | writing | reading | waitAxi4master =>
    have busy : sramBusy r.pipe.core.mt.engines.sram = true := by simp [sramBusy, state]
    rw [busy, Bool.toNat_true] at sramStarted
    omega

/-! ## The way to the write burst -/

/-- Fetches that can still come before the job in progress is done. -/
def fetchesLeft (r : ClosedCore k addrWidth) : Nat :=
  r.pipe.finished + 4 - r.pipe.reads.finished.length

/-- Cycles before the master takes words of a write out of MID. -/
def delay (r : ClosedCore k addrWidth) : Nat :=
  match r.pipe.core.mt.engines.axi.state with
  | .idle => 8 * r.fetchesLeft + 9
  | .dfGet => 8 * r.fetchesLeft + 8
  | .dfAr => 8 * r.fetchesLeft + 7
  | .dfR => 8 * r.fetchesLeft + 2 + r.pipe.rLeft
  | .dfPush => 8 * r.fetchesLeft + 10
  | .dmGet => 2
  | .dmWrAw => 1
  | .dmRdAr | .dmRdR | .dmWrW | .dmWrB | .waitSram => 0

theorem Inv.finished_le (inv : Inv ring r) : r.pipe.finished ≤ r.pipe.reads.finished.length := by
  have started := inv.pipe.axiStarted
  have axi := inv.pipe.dmAxiHolds.length
  have paired := inv.pipe.paired_initial.length_le
  have goods : r.pipe.goods.length ≤ r.pipe.popped.length := List.length_filter_le ..
  have popped := inv.pipe.popped_initial.length_le
  rw [inv.pipe.axiPairs, List.length_map] at axi
  rw [List.length_map] at popped
  omega

/-- The read in progress is one of the requests that are in flight. -/
theorem Inv.reads_lt (inv : Inv ring r) (none : r.pipe.errors = [])
    (reads : r.pipe.core.mt.engines.axi.state = .dfAr ∨ r.pipe.core.mt.engines.axi.state = .dfR) :
    r.pipe.reads.finished.length < r.pipe.finished + 4 := by
  have held := inv.pipe.reads_held.length_le
  have window := inv.window none
  rw [List.length_append, List.length_map] at held
  have one : (AxiMaster.heldAddr r.pipe.core.mt.engines.axi r.pipe.reads).length = 1 := by
    rcases reads with state | state <;> simp [AxiMaster.heldAddr, state]
  omega

theorem Inv.delay_le (inv : Inv ring r) : r.delay ≤ 42 := by
  have few : r.fetchesLeft ≤ 4 := by
    have := inv.finished_le
    unfold fetchesLeft
    omega
  cases state : r.pipe.core.mt.engines.axi.state with
  | dfR =>
    obtain ⟨-, -, four⟩ := inv.fetching state
    simp only [delay, state]
    omega
  | _ =>
    simp only [delay, state]
    omega

theorem rLeft_of_dfAr (inv : Inv ring r) (state : r.pipe.core.mt.engines.axi.state = .dfAr)
    (memWords : Nat) (csr : RingManager.CsrIn) : (r.step memWords csr).pipe.rLeft = 4 := by
  obtain ⟨-, ready⟩ := inv.arready memWords (.inl state)
  have valid := arvalid_of_dfAr state memWords csr
  have burst := inv.pipe.fetches.burst
  simp only [AxiMaster.FetchBurst, state] at burst
  have arlen : (r.axiOut memWords csr).axi.arlen = 3 := by
    rw [axiOut, MovementTop.axiOut, Engines.axiOut, AxiMaster.out_eq, burst.1]
    rfl
  change rLeftNext _ (r.axiOut memWords csr).axi (SysMem.out memWords r.mem) = 4
  rw [rLeftNext, if_pos (by rw [arHs, valid, ready]; rfl), arlen]
  rfl

theorem rLeft_of_dfR (inv : Inv ring r) (state : r.pipe.core.mt.engines.axi.state = .dfR)
    (memWords : Nat) (csr : RingManager.CsrIn) : (r.step memWords csr).pipe.rLeft = r.pipe.rLeft - 1 := by
  obtain ⟨issue, -, -⟩ := inv.issues (.inl state)
  have valid : (SysMem.out memWords r.mem).rvalid = true := beq_iff_eq.mpr issue
  have master : (r.axiOut memWords csr).axi.arvalid = false ∧
      (r.axiOut memWords csr).axi.rready = true := by
    rw [axiOut, MovementTop.axiOut, Engines.axiOut, AxiMaster.out_eq, state]
    exact ⟨rfl, rfl⟩
  change rLeftNext _ (r.axiOut memWords csr).axi (SysMem.out memWords r.mem) = _
  rw [rLeftNext, if_neg (by simp [arHs, master.1]), if_pos (by simp [rHs, valid, master.2])]

theorem axi_step (r : ClosedCore k addrWidth) (csr : RingManager.CsrIn) (memWords : Nat) :
    (r.step memWords csr).pipe.core.mt.engines.axi =
      AxiMaster.next r.pipe.core.mt.engines.axi (Engines.axiIn r.pipe.core.mt.engines
        (MovementTop.enginesIn r.pipe.core.mt
          (DmaCore.mtIn r.pipe.core (r.coreIn memWords csr)))) := rfl

theorem axi_of_dfAr (inv : Inv ring r) (state : r.pipe.core.mt.engines.axi.state = .dfAr)
    (memWords : Nat) (csr : RingManager.CsrIn) : (r.step memWords csr).pipe.core.mt.engines.axi.state = .dfR := by
  obtain ⟨-, ready⟩ := inv.arready memWords (.inl state)
  rw [axi_step, AxiMaster.next_state, state]
  exact if_pos ready

theorem axi_of_dfR (inv : Inv ring r) (state : r.pipe.core.mt.engines.axi.state = .dfR)
    (memWords : Nat) (csr : RingManager.CsrIn) : (r.step memWords csr).pipe.core.mt.engines.axi.state =
      if r.pipe.rLeft = 1 then .dfPush else .dfR := by
  obtain ⟨valid, last⟩ := inv.beat memWords (.inl state)
  rw [axi_step, AxiMaster.next_state, state]
  simp [Engines.axiIn, MovementTop.enginesIn, DmaCore.mtIn, coreIn, valid, last]

theorem finished_of_sram (memWords : Nat) (csr : RingManager.CsrIn)
    (waits : r.pipe.core.mt.engines.sram.state ≠ .waitAxi4master) :
    (r.step memWords csr).pipe.finished = r.pipe.finished := by
  have none : Engines.handshakeDone r.pipe.core.mt.engines = false := by
    simp [Engines.handshakeDone, SramController.sramDone, waits]
  change r.pipe.finished + (Engines.handshakeDone r.pipe.core.mt.engines).toNat = _
  rw [none]
  rfl

/-- The FIFO of the fetched descriptors never fills up. -/
theorem Inv.room_dfOut (inv : Inv ring r) : r.pipe.core.mt.dfOutFifo.full = false := by
  apply Fifo.full_eq_false_of_lt
  have few := inv.pipe.inside_le
  unfold Pipeline.inside at few
  change _ < 64
  omega

/-- A fetch in progress comes nearer to its end. -/
theorem Inv.delay_of_dfR (inv : Inv ring r) (none : r.pipe.errors = [])
    (state : r.pipe.core.mt.engines.axi.state = .dfR)
    (waits : r.pipe.core.mt.engines.sram.state ≠ .waitAxi4master) (memWords : Nat) (csr : RingManager.CsrIn) :
    (r.step memWords csr).delay < r.delay := by
  obtain ⟨issue, -, left⟩ := inv.issues (.inl state)
  have reads := inv.reads_lt none (.inr state)
  have count := rLeft_of_dfR inv state memWords csr
  have finished := finished_of_sram memWords csr waits
  have log := reads_of_dfR inv state memWords csr
  dsimp only at log
  have axi := axi_of_dfR inv state memWords csr
  by_cases one : r.pipe.rLeft = 1
  · rw [if_pos one] at axi log
    simp only [delay, axi, state, fetchesLeft, log, finished, List.length_append,
      List.length_singleton]
    omega
  · rw [if_neg one] at axi log
    simp only [delay, axi, state, fetchesLeft, log, finished, count]
    omega

/-- The master comes nearer to the burst, or has begun it. -/
theorem Inv.delay_step (inv : Inv ring r) (none : r.pipe.errors = []) (visible : Visible r)
    (reading : r.pipe.core.mt.engines.sram.state = .reading) (before : 0 < r.delay) (memWords : Nat) (csr : RingManager.CsrIn) :
    (r.step memWords csr).delay < r.delay := by
  have waits : r.pipe.core.mt.engines.sram.state ≠ .waitAxi4master := by simp [reading]
  have finished := finished_of_sram memWords csr waits
  have axi := congrArg AxiMaster.State.state (axi_step r csr memWords)
  rw [AxiMaster.next_state] at axi
  have fetches (other : r.pipe.core.mt.engines.axi.state ≠ .dfR) :
      (r.step memWords csr).fetchesLeft = r.fetchesLeft := by
    rw [fetchesLeft, finished_of_other other, finished, fetchesLeft]
  cases state : r.pipe.core.mt.engines.axi.state with
  | idle =>
    have shows := inv.axi_sees visible (by simp [axiBusy, state]) (by simp [reading])
    have next : (r.step memWords csr).pipe.core.mt.engines.axi.state = .dfGet ∨
        (r.step memWords csr).pipe.core.mt.engines.axi.state = .dmGet := by
      rw [axi, state]
      simp only [Engines.axiIn, MovementTop.enginesIn, shows]
      cases r.pipe.core.mt.dfInFifo.empty <;> simp
    rcases next with fetch | get
    · simp only [delay, state, fetch, fetches (by simp [state])]
      omega
    · simp only [delay, state, get]
      omega
  | dfGet =>
    rw [state] at axi
    simp only [delay, state, axi, fetches (by simp [state])]
    omega
  | dfAr =>
    simp only [delay, state, axi_of_dfAr inv state memWords csr, fetches (by simp [state]),
      rLeft_of_dfAr inv state memWords csr]
    omega
  | dfR => exact inv.delay_of_dfR none state waits memWords csr
  | dfPush =>
    have room := inv.room_dfOut
    have next : (r.step memWords csr).pipe.core.mt.engines.axi.state = .idle := by
      rw [axi, state]
      simp [Engines.axiIn, MovementTop.enginesIn, room]
    simp only [delay, state, next, fetches (by simp [state])]
    omega
  | dmGet =>
    -- the pair of the job that the SRAM controller reads for is a write
    obtain ⟨p, current⟩ := Chain.exists_current r.chain
    have shown := inv.chain.fed.axi_presented (i := r.pathIn memWords csr) current
      (by rw [inv.views.path]; exact state)
    have side := (inv.chain.flow p current).sram
    rw [inv.eng] at side
    simp only [SramController.SramSide, reading] at side
    have writes : p.axi.rw = true := by
      have fromSram : p.toSram = false := side.1
      simp [Pair.axi, fromSram]
    rw [inv.views.path] at shown
    have next : (r.step memWords csr).pipe.core.mt.engines.axi.state = .dmWrAw := by
      rw [axi, state]
      exact if_pos ((congrArg Instr.rw shown).trans writes)
    simp only [delay, state, next]
    omega
  | dmWrAw =>
    have follows := inv.follows
    simp only [Follows, state] at follows
    have next : (r.step memWords csr).pipe.core.mt.engines.axi.state = .dmWrW := by
      rw [axi, state]
      exact if_pos (beq_iff_eq.mpr follows)
    simp only [delay, state, next]
    omega
  | dmRdAr | dmRdR | dmWrW | dmWrB | waitSram => simp [delay, state] at before

/-! ## Words in MID -/

/-- What waits in MID while the SRAM controller reads, and a late flag hides one word. -/
structure Room (r : ClosedCore k addrWidth) : Prop where
  late : r.pipe.core.mt.engines.mid.empty = true → r.pipe.core.mt.engines.mid.contents.length ≤ 1
  room : r.pipe.core.mt.engines.sram.state = .reading →
    r.pipe.core.mt.engines.mid.contents.length + r.delay ≤ 42

theorem room_start (s : DmaCore.State k addrWidth) (mem : Rtl.SysMem.State) : Room (start s mem) where
  late _ := by
    have none : (start s mem).pipe.core.mt.engines.mid.contents = [] := Fifo.contents_reset _
    simp [none]
  room := by
    simp [start, Pipeline.start, DmaCore.reset, MovementTop.reset, Engines.reset,
      SramController.resetState]

theorem Inv.mid_ok (inv : Inv ring r) : r.pipe.core.mt.engines.mid.Ok := by
  obtain ⟨p, current⟩ := Chain.exists_current r.chain
  exact inv.eng ▸ (inv.chain.flow p current).ok

def midIn (memWords : Nat) (r : ClosedCore k addrWidth) (csr : RingManager.CsrIn) : Fifo.In Word :=
  Engines.midIn r.pipe.core.mt.engines
    (MovementTop.enginesIn r.pipe.core.mt (DmaCore.mtIn r.pipe.core (r.coreIn memWords csr)))

theorem mid_step (r : ClosedCore k addrWidth) (csr : RingManager.CsrIn) (memWords : Nat) :
    (r.step memWords csr).pipe.core.mt.engines.mid =
      r.pipe.core.mt.engines.mid.step (r.midIn memWords csr) := rfl

theorem Inv.length_mid (inv : Inv ring r) (memWords : Nat) (csr : RingManager.CsrIn) :
    (r.step memWords csr).pipe.core.mt.engines.mid.contents.length ≤
      (r.pipe.core.mt.engines.mid.remaining (r.midIn memWords csr)).length + 1 := by
  rw [mid_step, Fifo.contents_step inv.mid_ok, List.length_append, Fifo.accepted]
  split <;> simp

/-- A controller that begins to read finds MID empty, and leaves it so. -/
theorem Inv.mid_of_begin (inv : Inv ring r) {memWords : Nat}
    (gets : r.pipe.core.mt.engines.sram.state = .dmGet)
    (reads : (Engines.sramIn r.pipe.core.mt.engines (MovementTop.enginesIn r.pipe.core.mt
      (DmaCore.mtIn r.pipe.core (r.coreIn memWords csr)))).dmInDout.rw = false) :
    (r.step memWords csr).pipe.core.mt.engines.mid.contents = [] := by
  obtain ⟨p, current⟩ := Chain.exists_current r.chain
  have shown := inv.chain.fed.sram_presented (i := r.pathIn memWords csr) current
    (by rw [inv.views.path]; exact gets)
  rw [inv.views.path] at shown
  have fromSram : p.toSram = false := (congrArg Instr.rw shown).symm.trans reads
  have flow := inv.chain.flow p current
  have sram := flow.sram
  have held := congrArg List.length flow.held
  have noWrite := flow.axi.midWrEn_eq_false (i := Engines.axiIn r.pipe.core.mt.engines
    (MovementTop.enginesIn r.pipe.core.mt (DmaCore.mtIn r.pipe.core (r.coreIn memWords csr))))
    (by simp [Pair.axi, fromSram])
  rw [inv.eng] at sram held noWrite
  simp only [SramController.SramSide, gets, fromSram, Bool.false_eq_true, if_false] at sram
  rw [List.length_append] at held
  have nothing : r.pipe.core.mt.engines.mid.contents = [] :=
    List.length_eq_zero_iff.mp (by omega)
  have quiet : (r.midIn memWords csr).wrEn = false := by
    simp [midIn, Engines.midIn, Engines.axiOut, noWrite, Engines.sramOut, SramController.midWrEn_eq,
      gets]
  rw [mid_step, Fifo.contents_step inv.mid_ok, Fifo.remaining, nothing, Fifo.accepted, quiet]
  split <;> rfl

/-- While the controller reads, the master is on its way to the burst or in it. -/
theorem Inv.writes_of_reading (inv : Inv ring r)
    (reading : r.pipe.core.mt.engines.sram.state = .reading) (begun : r.delay = 0) :
    r.pipe.core.mt.engines.axi.state = .dmWrW := by
  obtain ⟨p, current⟩ := Chain.exists_current r.chain
  have flow := inv.chain.flow p current
  have axi := flow.axi
  have sram := flow.sram
  have held := congrArg List.length flow.held
  rw [inv.eng] at axi sram
  rw [List.length_append] at held
  simp only [SramController.SramSide, reading] at sram
  have fromSram : p.toSram = false := sram.1
  simp only [fromSram, Bool.false_eq_true, if_false] at sram
  have less : r.chain.job.pushed.length < beats p.len := sram.2.2.2.1
  have small := beats_le_writeBeats p.len
  cases state : r.pipe.core.mt.engines.axi.state with
  | dmWrW => rfl
  | dmRdAr | dmRdR => simp [AxiMaster.AxiSide, state, Pair.axi, fromSram] at axi
  | dmWrB | waitSram =>
    -- all words were taken, so the controller has pushed them
    simp [AxiMaster.AxiSide, state, Pair.axi, fromSram] at axi
    omega
  | idle | dfGet | dfAr | dfR | dfPush | dmGet | dmWrAw => simp [delay, state] at begun

theorem Room.room_of_reading (room : Room r) (inv : Inv ring r) (none : r.pipe.errors = [])
    (visible : Visible r) (reading : r.pipe.core.mt.engines.sram.state = .reading) (memWords : Nat) :
    (r.step memWords csr).pipe.core.mt.engines.mid.contents.length + (r.step memWords csr).delay ≤ 42 := by
  have now := room.room reading
  have grows := inv.length_mid memWords csr
  have stays := Fifo.length_remaining_le r.pipe.core.mt.engines.mid (r.midIn memWords csr)
  rcases Nat.eq_zero_or_pos r.delay with begun | before
  · have state := inv.writes_of_reading reading begun
    have ready : (SysMem.out memWords r.mem).wready = true := by
      have follows := inv.follows
      simp only [Follows, state] at follows
      exact beq_iff_eq.mpr follows
    have next : (r.step memWords csr).delay = 0 := by
      have axi := congrArg AxiMaster.State.state (axi_step r csr memWords)
      rw [AxiMaster.next_state, state] at axi
      simp only at axi
      split at axi <;> simp [delay, axi]
    cases empty : r.pipe.core.mt.engines.mid.empty with
    | true =>
      have one := room.late empty
      omega
    | false =>
      -- a word in, a word out
      have takes : (r.midIn memWords csr).rdEn = true := by
        have shows : (Engines.axiIn r.pipe.core.mt.engines (MovementTop.enginesIn r.pipe.core.mt
          (DmaCore.mtIn r.pipe.core (r.coreIn memWords csr)))).midEmpty = false := empty
        have wready : (Engines.axiIn r.pipe.core.mt.engines (MovementTop.enginesIn r.pipe.core.mt
          (DmaCore.mtIn r.pipe.core (r.coreIn memWords csr)))).axi.wready = true := ready
        simp [midIn, Engines.midIn, Engines.axiOut, AxiMaster.midRdEn_eq, state, shows, wready]
      rw [Fifo.remaining, if_pos takes, List.length_tail] at grows
      have some := congrArg List.length (inv.mid_ok.contents_eq_cons empty)
      rw [List.length_cons, List.length_tail] at some
      omega
  · have nearer := inv.delay_step none visible reading before memWords csr
    omega

theorem Room.step (room : Room r) (inv : Inv ring r) (legal : Legal ring r csr)
    (none : r.pipe.errors = []) (visible : Visible r) (memWords : Nat) :
    Room (r.step memWords csr) where
  late := by
    intro empty
    have flag : (r.step memWords csr).pipe.core.mt.engines.mid.empty = _ :=
      Fifo.empty_step r.pipe.core.mt.engines.mid (r.midIn memWords csr)
    have grows := inv.length_mid memWords csr
    rw [empty] at flag
    rw [List.isEmpty_iff.mp flag.symm] at grows
    exact grows
  room := by
    intro reading
    rcases SramController.reading_of_next reading with ⟨gets, reads⟩ | before
    · rw [inv.mid_of_begin gets reads]
      have far := (inv.step legal memWords).delay_le
      rw [List.length_nil]
      omega
    · exact room.room_of_reading inv none visible before memWords

/-- No word waits for room in MID. -/
theorem Room.keeps (room : Room r) (inv : Inv ring r) (deep : 6 ≤ k) (p : Pair) :
    ¬ Transfer.LosesWord p r.chain.job := by
  rintro ⟨reading, full, -⟩
  rw [inv.eng] at reading full
  have wide : 2 ^ 6 ≤ 2 ^ k := Nat.pow_le_pow_right (by decide) deep
  have length := Fifo.full_iff.mp full
  have few := room.room reading
  omega

end ClosedCore

end AxiDma.Verified
