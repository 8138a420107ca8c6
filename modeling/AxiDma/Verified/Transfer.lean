import AxiDma.Rtl.Engines
import AxiDma.Verified.AxiBursts
import AxiDma.Verified.FifoQueue

/-! # One transfer through the engines

`SramSide` counts the words of the SRAM controller as `AxiSide` counts the beats of the
AXI master.  `Transfer` runs both engines on one instruction pair against any slave and
logs what passes on the AXI interface and through MID; `Flow` is the invariant that ties
both sides to the logs.
-/

namespace AxiDma.Verified

open AxiDma.Lib AxiDma.Rtl

/-! ## The SRAM controller -/

namespace SramController

open AxiDma.Rtl.SramController

variable {addrWidth : Nat} {s : State} {i : In}

theorem out_eq (s : State) (i : In) :
    out addrWidth s i =
      { readAddr :=
          if s.state = .dmGet ∧ i.dmInDout.rw = false then
            (i.dmInDout.addr >>> 2).setWidth addrWidth
          else if s.state = .reading ∧ i.midFull = false then s.curAddr.setWidth addrWidth
          else 0
        writeAddr := s.curAddr.setWidth addrWidth
        wrEn := s.state == .writing && !i.midEmpty
        din := if s.state == .writing && !i.midEmpty then i.midDout else 0
        midWrEn := s.state == .reading && !i.midFull
        midDin := if s.state == .reading && !i.midFull then i.dout else 0
        midRdEn := s.state == .writing && !i.midEmpty
        dmInRdEn := s.state == .dmGet } := by
  cases state : s.state with
  | dmGet => cases rw : i.dmInDout.rw <;> simp [out, comb, defaultOut, state, rw]
  | writing => cases empty : i.midEmpty <;> simp [out, comb, defaultOut, state, empty]
  | reading => cases full : i.midFull <;> simp [out, comb, defaultOut, state, full]
  | idle => simp [out, comb, defaultOut, state]
  | waitAxi4master => simp [out, comb, defaultOut, state]

theorem next_state (s : State) (i : In) :
    (next addrWidth s i).state =
      match s.state with
      | .idle => if i.dmInEmpty then .idle else .dmGet
      | .dmGet => if i.dmInDout.rw then .writing else .reading
      | .writing => if i.midEmpty = false ∧ lastBeat s then .waitAxi4master else .writing
      | .reading => if i.midFull = false ∧ lastBeat s then .waitAxi4master else .reading
      | .waitAxi4master => if i.axi4masterDone then .idle else .waitAxi4master := by
  cases state : s.state <;> grind [next, comb]

theorem dmInRdEn_eq (s : State) (i : In) :
    (out addrWidth s i).dmInRdEn = (s.state == .dmGet) := by
  rw [out_eq]

theorem midWrEn_eq (s : State) (i : In) :
    (out addrWidth s i).midWrEn = (s.state == .reading && !i.midFull) := by
  rw [out_eq]

theorem midDin_eq (s : State) (i : In) (writes : (out addrWidth s i).midWrEn = true) :
    (out addrWidth s i).midDin = i.dout := by
  rw [out_eq] at writes ⊢
  exact if_pos writes

theorem midRdEn_eq (s : State) (i : In) :
    (out addrWidth s i).midRdEn = (s.state == .writing && !i.midEmpty) := by
  rw [out_eq]

/-- The BRAM is written exactly when MID is read. -/
theorem wrEn_eq (s : State) (i : In) :
    (out addrWidth s i).wrEn = (out addrWidth s i).midRdEn := by
  rw [out_eq]

/-- How far the SRAM loop is with `instr` after `n` words. -/
def SramSide (instr : Instr) (s : State) (n : Nat) : Prop :=
  match s.state with
  | .idle | .dmGet => n = 0
  | .writing =>
    instr.rw = true ∧ s.curLen = instr.len ∧ s.beatIdx.toNat = n ∧ n < beats instr.len ∧
      s.curAddr = instr.addr >>> 2 + BitVec.ofNat 32 n
  | .reading =>
    instr.rw = false ∧ s.curLen = instr.len ∧ s.beatIdx.toNat = n ∧ n < beats instr.len ∧
      s.curAddr = instr.addr >>> 2 + BitVec.ofNat 32 (n + 1)
  | .waitAxi4master => n = beats instr.len

def moved (addrWidth : Nat) (s : State) (i : In) : Nat :=
  (out addrWidth s i).midWrEn.toNat + (out addrWidth s i).midRdEn.toNat

theorem lastBeat_iff {len : BitVec 8} {n : Nat} (lenEq : s.curLen = len)
    (count : s.beatIdx.toNat = n) (less : n < beats len) :
    lastBeat s = true ↔ n + 1 = beats len := by
  unfold lastBeat
  rw [Bool.or_eq_true, beq_iff_eq, beq_iff_eq, eq_sub_one_iff, lenEq, count]
  by_cases zero : len = 0
  · simp_all [beats]
  · rw [beats_of_ne_zero zero, writeBeats_of_ne_zero zero]
    exact or_iff_left zero

theorem toNat_beatIdx_succ {len : BitVec 8} {n : Nat} (count : s.beatIdx.toNat = n)
    (less : n < beats len) : (s.beatIdx + 1).toNat = n + 1 := by
  have small := beats_le len
  rw [BitVec.toNat_add, count]
  exact Nat.mod_eq_of_lt (by change n + 1 < 256; omega)

theorem addr_succ (word : Word) (n : Nat) :
    word + BitVec.ofNat 32 n + 1 = word + BitVec.ofNat 32 (n + 1) := by
  rw [BitVec.add_assoc, BitVec.ofNat_add]
  rfl

variable (addrWidth) in
theorem sramSide_step {instr : Instr} {n : Nat} (side : SramSide instr s n)
    (presented : s.state = .dmGet → i.dmInDout = instr)
    (waits : s.state = .waitAxi4master → i.axi4masterDone = false) :
    SramSide instr (next addrWidth s i) (n + moved addrWidth s i) := by
  cases state : s.state with
  | idle =>
    cases instr : i.dmInEmpty <;>
      simp_all [SramSide, next, out, comb, defaultOut, moved]
  | dmGet =>
    cases rw : i.dmInDout.rw <;>
      simp_all [SramSide, next, out, comb, defaultOut, moved, beats_pos]
  | writing =>
    simp only [SramSide, state] at side
    obtain ⟨rw, lenEq, count, less, addr⟩ := side
    have last := lastBeat_iff lenEq count less
    have up := toNat_beatIdx_succ count less
    have addrUp := addr_succ (instr.addr >>> 2) n
    cases empty : i.midEmpty <;> cases final : lastBeat s <;>
      simp_all [SramSide, next, out, comb, defaultOut, moved]
    omega
  | reading =>
    simp only [SramSide, state] at side
    obtain ⟨rw, lenEq, count, less, addr⟩ := side
    have last := lastBeat_iff lenEq count less
    have up := toNat_beatIdx_succ count less
    have addrUp := addr_succ (instr.addr >>> 2) (n + 1)
    cases full : i.midFull <;> cases final : lastBeat s <;>
      simp_all [SramSide, next, out, comb, defaultOut, moved]
    omega
  | waitAxi4master =>
    simp_all [SramSide, next, out, comb, defaultOut, moved]

theorem SramSide.le {instr : Instr} {n : Nat} (side : SramSide instr s n) :
    n ≤ beats instr.len := by
  cases state : s.state <;> simp only [SramSide, state] at side <;> grind

theorem SramSide.midRdEn_eq_false {instr : Instr} {n : Nat} (side : SramSide instr s n)
    (reads : instr.rw = false) : (out addrWidth s i).midRdEn = false := by
  rw [midRdEn_eq]
  cases state : s.state <;> simp_all [SramSide]

theorem SramSide.midWrEn_eq_false {instr : Instr} {n : Nat} (side : SramSide instr s n)
    (writes : instr.rw = true) : (out addrWidth s i).midWrEn = false := by
  rw [midWrEn_eq]
  cases state : s.state <;> simp_all [SramSide]

theorem SramSide.moved_of_read {instr : Instr} {n : Nat} (side : SramSide instr s n)
    (reads : instr.rw = false) : moved addrWidth s i = (out addrWidth s i).midWrEn.toNat := by
  rw [moved, side.midRdEn_eq_false reads]
  rfl

theorem SramSide.moved_of_write {instr : Instr} {n : Nat} (side : SramSide instr s n)
    (writes : instr.rw = true) : moved addrWidth s i = (out addrWidth s i).midRdEn.toNat := by
  rw [moved, side.midWrEn_eq_false writes, Bool.toNat_false, Nat.zero_add]

end SramController

/-! ## MID -/

/-- Both engines look at MID's flags. -/
theorem midRespects {k addrWidth : Nat} (s : Engines.State k addrWidth)
    (i : Engines.In addrWidth) : s.mid.Respects (Engines.midIn s i) where
  room := by
    simp only [Engines.midIn, Engines.axiOut, Engines.sramOut, AxiMaster.midWrEn_eq,
      SramController.midWrEn_eq, Engines.axiIn, Engines.sramIn]
    cases s.mid.full <;> simp
  shows := by
    simp only [Engines.midIn, Engines.axiOut, Engines.sramOut, AxiMaster.midRdEn_eq,
      SramController.midRdEn_eq, Engines.axiIn, Engines.sramIn]
    cases s.mid.empty <;> simp

/-! ## The engines on an instruction pair -/

/-- The instruction pair of one descriptor: both sides have the same length, and one
    reads what the other writes. -/
structure Pair where
  /-- From system memory to SRAM, DIR = 1. -/
  toSram : Bool
  axiAddr : Word
  sramAddr : Word
  len : BitVec 8
  deriving DecidableEq, Repr

def Pair.axi (p : Pair) : Instr := { addr := p.axiAddr, len := p.len, rw := !p.toSram }
def Pair.sram (p : Pair) : Instr := { addr := p.sramAddr, len := p.len, rw := p.toSram }

/-- The engines with the logs of one transfer. -/
structure Transfer (k addrWidth : Nat) where
  eng : Engines.State k addrWidth
  /-- Beats left in the read burst. -/
  rLeft : Nat
  bursts : List AxiMaster.Burst
  /-- Payload R beats. -/
  rBeats : List Word
  /-- W beats with `wlast`. -/
  wBeats : List (Word × Bool)
  /-- Words written to MID. -/
  pushed : List Word
  /-- Words read from MID. -/
  taken : List Word

namespace Transfer

variable {k addrWidth : Nat}

def step (t : Transfer k addrWidth) (i : Engines.In addrWidth) : Transfer k addrWidth :=
  let m := (Engines.axiOut t.eng i).axi
  { eng := Engines.step t.eng i
    rLeft := rLeftNext t.rLeft m i.axi
    bursts := t.bursts ++ AxiMaster.payloadBursts t.eng.axi m i.axi
    rBeats := t.rBeats ++
      if t.eng.axi.state = .dmRdR ∧ rHs m i.axi = true then [i.axi.rdata] else []
    wBeats := t.wBeats ++ if wHs m i.axi then [(m.wdata, m.wlast)] else []
    pushed := t.pushed ++ Fifo.written (Engines.midIn t.eng i)
    taken := t.taken ++ t.eng.mid.taken (Engines.midIn t.eng i) }

/-- Both engines are idle with nothing in MID, and nothing is logged. -/
structure Idle (t : Transfer k addrWidth) : Prop where
  axi : t.eng.axi.state = .idle
  sram : t.eng.sram.state = .idle
  ok : t.eng.mid.Ok
  empty : t.eng.mid.contents = []
  rLeft : t.rLeft = 0
  bursts : t.bursts = []
  rBeats : t.rBeats = []
  wBeats : t.wBeats = []
  pushed : t.pushed = []
  taken : t.taken = []

/-- A cycle before the pair is done: the DMA owns the BRAM, an engine that takes an
    instruction is shown its half of `p`, and the slave keeps to the bursts.  Everything
    else is free, among it the descriptor fetches that delay the AXI master. -/
structure Legal (p : Pair) (t : Transfer k addrWidth) (i : Engines.In addrWidth) : Prop where
  running : Engines.handshakeDone t.eng = false
  initDone : i.init.initDone = true
  axi : t.eng.axi.state = .dmGet → i.dmInDoutAxi = p.axi
  sram : t.eng.sram.state = .dmGet → i.dmInDoutSram = p.sram
  slave : SlaveLegal t.rLeft i.axi

instance (p : Pair) (t : Transfer k addrWidth) (i : Engines.In addrWidth) :
    Decidable (Legal p t i) :=
  decidable_of_iff
    (Engines.handshakeDone t.eng = false ∧ i.init.initDone = true ∧
      (t.eng.axi.state = .dmGet → i.dmInDoutAxi = p.axi) ∧
      (t.eng.sram.state = .dmGet → i.dmInDoutSram = p.sram) ∧ SlaveLegal t.rLeft i.axi)
    ⟨fun ⟨running, initDone, axi, sram, slave⟩ => ⟨running, initDone, axi, sram, slave⟩,
      fun legal => ⟨legal.running, legal.initDone, legal.axi, legal.sram, legal.slave⟩⟩

/-- Where both engines are with `p`. -/
structure Flow (p : Pair) (t : Transfer k addrWidth) : Prop where
  ok : t.eng.mid.Ok
  held : t.pushed = t.taken ++ t.eng.mid.contents
  axi : AxiMaster.AxiSide p.axi t.eng.axi t.bursts
    (if p.toSram then t.pushed.length else t.taken.length) t.rLeft
  sram : SramController.SramSide p.sram t.eng.sram
    (if p.toSram then t.taken.length else t.pushed.length)
  rBeats : t.rBeats = if p.toSram then t.pushed else []
  wBeats : t.wBeats =
    if p.toSram then []
    else t.taken.mapIdx fun j w => (w, decide (j + 1 = writeBeats p.len))

/-- Both engines and MID after reset, the BRAM as given. -/
def atReset (k : Nat) {addrWidth : Nat} (mem : BitVec addrWidth → Word) : Transfer k addrWidth :=
  { eng := Engines.reset
      { axi := AxiMaster.resetState, sram := SramController.resetState,
        mid := ⟨fun _ => 0, 0, 0, 0, true⟩, bram := ⟨mem, 0⟩ }
    rLeft := 0, bursts := [], rBeats := [], wBeats := [], pushed := [], taken := [] }

theorem idle_atReset (mem : BitVec addrWidth → Word) : Idle (atReset k mem) where
  axi := rfl
  sram := rfl
  ok := Fifo.ok_reset _
  empty := Fifo.contents_reset _
  rLeft := rfl
  bursts := rfl
  rBeats := rfl
  wBeats := rfl
  pushed := rfl
  taken := rfl

/-! ## One cycle -/

theorem Idle.flow {p : Pair} {t : Transfer k addrWidth} (idle : Idle t) : Flow p t where
  ok := idle.ok
  held := by rw [idle.pushed, idle.taken, idle.empty]; rfl
  axi := by simp [AxiMaster.AxiSide, idle.axi, idle.bursts, idle.pushed, idle.taken]
  sram := by simp [SramController.SramSide, idle.sram, idle.pushed, idle.taken]
  rBeats := by simp [idle.rBeats, idle.pushed]
  wBeats := by simp [idle.wBeats, idle.taken]

/-- To SRAM, MID is written by the AXI master and read by the SRAM controller. -/
theorem Flow.midIn_of_toSram {p : Pair} {t : Transfer k addrWidth} (flow : Flow p t)
    (toSram : p.toSram = true) (i : Engines.In addrWidth) :
    (Engines.midIn t.eng i).wrEn = (Engines.axiOut t.eng i).midWrEn ∧
      (Engines.midIn t.eng i).rdEn = (Engines.sramOut t.eng i).midRdEn := by
  have noRd : (Engines.axiOut t.eng i).midRdEn = false :=
    flow.axi.midRdEn_eq_false (by simp [Pair.axi, toSram])
  have noWr : (Engines.sramOut t.eng i).midWrEn = false :=
    flow.sram.midWrEn_eq_false toSram
  simp [Engines.midIn, noRd, noWr]

/-- From SRAM, it is the other way round. -/
theorem Flow.midIn_of_fromSram {p : Pair} {t : Transfer k addrWidth} (flow : Flow p t)
    (fromSram : p.toSram = false) (i : Engines.In addrWidth) :
    (Engines.midIn t.eng i).wrEn = (Engines.sramOut t.eng i).midWrEn ∧
      (Engines.midIn t.eng i).rdEn = (Engines.axiOut t.eng i).midRdEn ∧
        (Engines.midIn t.eng i).din = (Engines.sramOut t.eng i).midDin := by
  have noWr : (Engines.axiOut t.eng i).midWrEn = false :=
    flow.axi.midWrEn_eq_false (by simp [Pair.axi, fromSram])
  have noRd : (Engines.sramOut t.eng i).midRdEn = false :=
    flow.sram.midRdEn_eq_false fromSram
  simp [Engines.midIn, noRd, noWr]

theorem axi_waits {eng : Engines.State k addrWidth} {i : Engines.In addrWidth}
    (running : Engines.handshakeDone eng = false) (waits : eng.axi.state = .waitSram) :
    (Engines.axiIn eng i).sramDone = false := by
  rw [Engines.handshakeDone, AxiMaster.axiDone, waits] at running
  exact (Bool.and_true _).symm.trans running

theorem sram_waits {eng : Engines.State k addrWidth} {i : Engines.In addrWidth}
    (running : Engines.handshakeDone eng = false) (waits : eng.sram.state = .waitAxi4master) :
    (Engines.sramIn eng i).axi4masterDone = false := by
  rw [Engines.handshakeDone, SramController.sramDone, waits] at running
  exact running

theorem Legal.axi_waits {p : Pair} {t : Transfer k addrWidth} {i : Engines.In addrWidth}
    (legal : Legal p t i) (waits : t.eng.axi.state = .waitSram) :
    (Engines.axiIn t.eng i).sramDone = false := Transfer.axi_waits legal.running waits

theorem Legal.sram_waits {p : Pair} {t : Transfer k addrWidth} {i : Engines.In addrWidth}
    (legal : Legal p t i) (waits : t.eng.sram.state = .waitAxi4master) :
    (Engines.sramIn t.eng i).axi4masterDone = false := Transfer.sram_waits legal.running waits

/-- The BRAM port plays no part in the flow. -/
theorem Flow.cycle {p : Pair} {t : Transfer k addrWidth} {i : Engines.In addrWidth}
    (flow : Flow p t) (slave : SlaveLegal t.rLeft i.axi)
    (axiShown : t.eng.axi.state = .dmGet → i.dmInDoutAxi = p.axi)
    (sramShown : t.eng.sram.state = .dmGet → i.dmInDoutSram = p.sram)
    (axiWaits : t.eng.axi.state = .waitSram → (Engines.axiIn t.eng i).sramDone = false)
    (sramWaits : t.eng.sram.state = .waitAxi4master →
      (Engines.sramIn t.eng i).axi4masterDone = false) : Flow p (step t i) := by
  have axi := AxiMaster.axiSide_step (i := Engines.axiIn t.eng i) flow.axi slave axiShown axiWaits
  have sram := SramController.sramSide_step addrWidth (i := Engines.sramIn t.eng i) flow.sram
    sramShown sramWaits
  have wBeat : wHs (Engines.axiOut t.eng i).axi i.axi = (Engines.axiOut t.eng i).midRdEn :=
    AxiMaster.wHs_eq _ (Engines.axiIn t.eng i)
  cases dir : p.toSram with
  | true =>
    have reads : p.axi.rw = false := by simp [Pair.axi, dir]
    obtain ⟨wrEn, rdEn⟩ := flow.midIn_of_toSram dir i
    -- the master's beats are the words pushed, the SRAM loop's turns the words taken
    have pushedCount : (Transfer.step t i).pushed.length =
        t.pushed.length + AxiMaster.moved t.eng.axi (Engines.axiIn t.eng i) := by
      rw [flow.axi.moved_of_read reads, Transfer.step, List.length_append, Fifo.length_written,
        wrEn, Engines.axiOut]
    have takenCount : (Transfer.step t i).taken.length =
        t.taken.length + SramController.moved addrWidth t.eng.sram (Engines.sramIn t.eng i) := by
      rw [flow.sram.moved_of_write dir, Transfer.step, List.length_append, Fifo.length_taken,
        rdEn, Engines.sramOut]
    refine ⟨Fifo.ok_step flow.ok _, (midRespects t.eng i).conserve flow.ok flow.held, ?_, ?_, ?_, ?_⟩
    · simp only [dir, if_true] at axi ⊢
      rw [pushedCount]
      exact axi
    · simp only [dir, if_true] at sram ⊢
      rw [takenCount]
      exact sram
    · simp only [dir, if_true]
      have written : Fifo.written (Engines.midIn t.eng i) =
          if (Engines.axiOut t.eng i).midWrEn then [(Engines.axiOut t.eng i).midDin] else [] := by
        rw [Fifo.written, wrEn]
        split
        · rw [Engines.midIn, if_pos ‹_›]
        · rfl
      rw [Transfer.step, flow.rBeats, dir, if_pos rfl, written]
      exact congrArg (t.pushed ++ ·)
        (AxiMaster.payloadRBeat_eq t.eng.axi (Engines.axiIn t.eng i))
    · have none : (Engines.axiOut t.eng i).midRdEn = false := flow.axi.midRdEn_eq_false reads
      simp [Transfer.step, flow.wBeats, dir, wBeat, none]
  | false =>
    have writes : p.axi.rw = true := by simp [Pair.axi, dir]
    obtain ⟨wrEn, rdEn, -⟩ := flow.midIn_of_fromSram dir i
    -- the other way round
    have pushedCount : (Transfer.step t i).pushed.length =
        t.pushed.length + SramController.moved addrWidth t.eng.sram (Engines.sramIn t.eng i) := by
      rw [flow.sram.moved_of_read dir, Transfer.step, List.length_append, Fifo.length_written,
        wrEn, Engines.sramOut]
    have takenCount : (Transfer.step t i).taken.length =
        t.taken.length + AxiMaster.moved t.eng.axi (Engines.axiIn t.eng i) := by
      rw [flow.axi.moved_of_write writes, Transfer.step, List.length_append, Fifo.length_taken,
        rdEn, Engines.axiOut]
    refine ⟨Fifo.ok_step flow.ok _, (midRespects t.eng i).conserve flow.ok flow.held, ?_, ?_, ?_, ?_⟩
    · simp only [dir, Bool.false_eq_true, if_false] at axi ⊢
      rw [takenCount]
      exact axi
    · simp only [dir, Bool.false_eq_true, if_false] at sram ⊢
      rw [pushedCount]
      exact sram
    · -- a write burst sees no payload R beat
      have none : (Engines.axiOut t.eng i).midWrEn = false := flow.axi.midWrEn_eq_false writes
      have noBeat := AxiMaster.payloadRBeat_eq t.eng.axi (Engines.axiIn t.eng i)
      rw [show (AxiMaster.out t.eng.axi (Engines.axiIn t.eng i)).midWrEn = false from none] at noBeat
      simp only [dir, Transfer.step, flow.rBeats]
      exact noBeat
    · simp only [Transfer.step, flow.wBeats, dir, wBeat, Fifo.taken, rdEn]
      cases beat : (Engines.axiOut t.eng i).midRdEn with
      | false => simp
      | true =>
        have last := flow.axi.wlast_eq (i := Engines.axiIn t.eng i) beat
        have data := AxiMaster.wdata_eq t.eng.axi (Engines.axiIn t.eng i)
        simp only [dir, Bool.false_eq_true, if_false] at last
        simp only [if_true, Bool.false_eq_true, if_false, List.mapIdx_append, List.mapIdx_cons,
          Nat.zero_add]
        exact congrArg (_ ++ [·]) (Prod.ext data last)

theorem Flow.step {p : Pair} {t : Transfer k addrWidth} {i : Engines.In addrWidth}
    (flow : Flow p t) (legal : Legal p t i) : Flow p (step t i) :=
  flow.cycle legal.slave legal.axi legal.sram legal.axi_waits legal.sram_waits

/-! ## At the handshake -/

/-- What the two sides of a write have moved when it is done. -/
theorem Flow.counts_of_done {p : Pair} {t : Transfer k addrWidth} (flow : Flow p t)
    (fromSram : p.toSram = false) (done : Engines.handshakeDone t.eng = true) :
    t.taken.length = writeBeats p.axi.len ∧ t.pushed.length = beats p.sram.len := by
  obtain ⟨sramDone, axiDone⟩ := Bool.and_eq_true_iff.mp done
  have axi := flow.axi
  have sram := flow.sram
  simp only [AxiMaster.AxiSide, beq_iff_eq.mp axiDone, fromSram, Bool.false_eq_true,
    if_false] at axi
  simp only [SramController.SramSide, beq_iff_eq.mp sramDone, fromSram, Bool.false_eq_true,
    if_false] at sram
  have write : p.axi.rw = true := by simp [Pair.axi, fromSram]
  rw [write, if_pos rfl] at axi
  exact ⟨axi.2, sram⟩

/-- A write of length 0 is never done: the AXI side waits for 256 beats, the SRAM side
    pushes one word. -/
theorem Flow.len_ne_zero_of_done {p : Pair} {t : Transfer k addrWidth} (flow : Flow p t)
    (fromSram : p.toSram = false) (done : Engines.handshakeDone t.eng = true) : p.len ≠ 0 := by
  intro none
  obtain ⟨axi, sram⟩ := flow.counts_of_done fromSram done
  have taken : t.taken.length = 256 := by simpa [Pair.axi, none, writeBeats] using axi
  have pushed : t.pushed.length = 1 := by simpa [Pair.sram, none, beats] using sram
  have held := congrArg List.length flow.held
  rw [List.length_append] at held
  omega

end Transfer

end AxiDma.Verified
