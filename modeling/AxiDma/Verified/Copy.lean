import AxiDma.Lib.Overlay
import AxiDma.Lib.Run
import AxiDma.Verified.Transfer

/-! # What a transfer copies

To SRAM, the words taken from MID are laid over the BRAM from the destination on, under
every pattern of stalls.  From SRAM, the read side shows the word it is about to push in
the BRAM's output register and addresses word 0 in a cycle in which MID is full, so a
word that waits for room is replaced by word 0; the copy is exact if and only if this
never changes a word.
-/

namespace AxiDma.Verified

open AxiDma.Lib AxiDma.Rtl

namespace SramController

open AxiDma.Rtl.SramController

variable {addrWidth : Nat}

theorem writeAddr_eq (s : State) (i : In) :
    (out addrWidth s i).writeAddr = s.curAddr.setWidth addrWidth := by
  rw [out_eq]

theorem din_eq (s : State) (i : In) (reads : (out addrWidth s i).midRdEn = true) :
    (out addrWidth s i).din = i.midDout := by
  rw [out_eq] at reads ⊢
  exact if_pos reads

/-- The read address of a word that is taken, and in the pre-fetch, is the next one. -/
theorem readAddr_of_dmGet {s : State} {i : In} (state : s.state = .dmGet)
    (reads : i.dmInDout.rw = false) :
    (out addrWidth s i).readAddr = (i.dmInDout.addr >>> 2).setWidth addrWidth := by
  rw [out_eq]
  exact if_pos ⟨state, reads⟩

theorem readAddr_of_reading {s : State} {i : In} (state : s.state = .reading) :
    (out addrWidth s i).readAddr = if i.midFull then 0 else s.curAddr.setWidth addrWidth := by
  rw [out_eq]
  cases full : i.midFull <;> simp [state]

/-- The reading state is entered from `dmGet` and kept. -/
theorem reading_of_next {s : State} {i : In} (reading : (next addrWidth s i).state = .reading) :
    s.state = .dmGet ∧ i.dmInDout.rw = false ∨ s.state = .reading := by
  cases state : s.state <;> grind [next_state]

end SramController

namespace Transfer

variable {k addrWidth : Nat} {p : Pair} {t : Transfer k addrWidth} {i : Engines.In addrWidth}

/-- First BRAM word of the pair. -/
def firstWord (p : Pair) : Nat := (p.sramAddr >>> 2).toNat

theorem firstWord_lt (p : Pair) : firstWord p < 2 ^ 30 := by
  have bound := p.sramAddr.isLt
  rw [firstWord, BitVec.toNat_ushiftRight, Nat.shiftRight_eq_div_pow]
  omega

/-- The address counter of the controller, `n` words past the first. -/
theorem setWidth_curAddr (p : Pair) {n : Nat} (small : n ≤ 256) :
    (p.sramAddr >>> 2 + BitVec.ofNat 32 n).setWidth addrWidth =
      BitVec.ofNat addrWidth (firstWord p + n) := by
  have bound := firstWord_lt p
  have word : p.sramAddr >>> 2 = BitVec.ofNat 32 (firstWord p) := by
    rw [firstWord, BitVec.ofNat_toNat, BitVec.setWidth_eq]
  have sum : (BitVec.ofNat 32 (firstWord p + n)).toNat = firstWord p + n := by
    rw [BitVec.toNat_ofNat, Nat.mod_eq_of_lt (by omega)]
  rw [word, ← BitVec.ofNat_add]
  apply BitVec.eq_of_toNat_eq
  rw [BitVec.toNat_setWidth, sum, BitVec.toNat_ofNat]

/-! ## To SRAM -/

/-- The BRAM holds the words taken from MID over what it held before. -/
def Written (p : Pair) (mem : BitVec addrWidth → Word) (t : Transfer k addrWidth) : Prop :=
  t.eng.bram.mem = overlay mem (firstWord p) t.taken

/-- The write of a cycle takes the word MID shows to the next place of the block. -/
theorem Flow.writes (flow : Flow p t) (toSram : p.toSram = true) (i : Engines.In addrWidth)
    (reads : (Engines.sramOut t.eng i).midRdEn = true) :
    (Engines.sramOut t.eng i).writeAddr = BitVec.ofNat addrWidth (firstWord p + t.taken.length) ∧
      (Engines.sramOut t.eng i).din = t.eng.mid.dout ∧ t.taken.length < beats p.len := by
  have side := flow.sram
  simp only [toSram, if_true] at side
  have writing : t.eng.sram.state = .writing := by
    rw [Engines.sramOut, SramController.midRdEn_eq] at reads
    simp_all
  simp only [SramController.SramSide, writing] at side
  obtain ⟨-, -, -, less, addr⟩ := side
  have less : t.taken.length < beats p.len := less
  have small := beats_le p.len
  refine ⟨?_, SramController.din_eq _ _ reads, less⟩
  rw [Engines.sramOut, SramController.writeAddr_eq, addr]
  exact setWidth_curAddr p (by omega)

/-- The SRAM controller is the one that takes the words. -/
theorem taken_step_of_toSram (flow : Flow p t) (toSram : p.toSram = true) (i : Engines.In addrWidth) :
    (step t i).taken =
      t.taken ++ if (Engines.sramOut t.eng i).midRdEn then [t.eng.mid.dout] else [] := by
  obtain ⟨-, rdEn⟩ := flow.midIn_of_toSram toSram i
  rw [step, Fifo.taken, rdEn]

theorem written_step {mem : BitVec addrWidth → Word} (flow : Flow p t) (legal : Legal p t i)
    (toSram : p.toSram = true) (inRange : firstWord p + beats p.len ≤ 2 ^ addrWidth)
    (written : Written p mem t) : Written p mem (step t i) := by
  have wrEn : (Engines.sramOut t.eng i).wrEn = (Engines.sramOut t.eng i).midRdEn :=
    SramController.wrEn_eq _ _
  have bram : (step t i).eng.bram.mem = if (Engines.sramOut t.eng i).midRdEn then
      Function.update t.eng.bram.mem (Engines.sramOut t.eng i).writeAddr
        (Engines.sramOut t.eng i).din else t.eng.bram.mem := by
    simp only [step, Engines.step, Bram.step, Engines.bramIn, legal.initDone, if_true, wrEn]
  rw [Written, bram, taken_step_of_toSram flow toSram]
  cases reads : (Engines.sramOut t.eng i).midRdEn with
  | false =>
    rw [if_neg (by decide), if_neg (by decide), List.append_nil]
    exact written
  | true =>
    obtain ⟨place, din, less⟩ := flow.writes toSram i reads
    have next : (Engines.sramOut t.eng i).writeAddr.toNat = firstWord p + t.taken.length := by
      rw [place, BitVec.toNat_ofNat, Nat.mod_eq_of_lt (by omega)]
    rw [if_pos rfl, if_pos rfl, din, written]
    exact overlay_snoc next _

/-- At the done handshake all words have passed MID. -/
theorem Flow.done_of_toSram (flow : Flow p t) (toSram : p.toSram = true)
    (done : Engines.handshakeDone t.eng = true) :
    t.bursts = [AxiMaster.burstOf p.axi] ∧ t.taken.length = beats p.len ∧ t.rBeats = t.taken := by
  obtain ⟨sramDone, axiDone⟩ := Bool.and_eq_true_iff.mp done
  have axi := flow.axi
  have sram := flow.sram
  simp only [AxiMaster.AxiSide, beq_iff_eq.mp axiDone, toSram, if_true] at axi
  simp only [SramController.SramSide, beq_iff_eq.mp sramDone, toSram, if_true] at sram
  have held := flow.held
  have lengths : t.pushed.length = t.taken.length := by
    rw [axi.2, sram]
    simp [Pair.axi, Pair.sram, toSram]
  have none : t.eng.mid.contents = [] := by
    rw [held, List.length_append] at lengths
    exact List.length_eq_zero_iff.mp (by omega)
  refine ⟨axi.1, sram, ?_⟩
  rw [flow.rBeats, if_pos toSram, held, none, List.append_nil]

/-! ## From SRAM -/

def sourceWord (p : Pair) (mem : BitVec addrWidth → Word) (j : Nat) : Word :=
  mem (BitVec.ofNat addrWidth (firstWord p + j))

/-- A word waits for room in MID and differs from BRAM word 0, which the read side
    addresses meanwhile. -/
def LosesWord (p : Pair) (t : Transfer k addrWidth) : Prop :=
  t.eng.sram.state = .reading ∧ t.eng.mid.full = true ∧
    sourceWord p t.eng.bram.mem t.eng.sram.beatIdx.toNat ≠ t.eng.bram.mem 0

instance (p : Pair) (t : Transfer k addrWidth) : Decidable (LosesWord p t) :=
  inferInstanceAs (Decidable (_ ∧ _))

/-- The words pushed so far are the source block, and so is the word shown next. -/
structure Faithful (p : Pair) (mem : BitVec addrWidth → Word) (t : Transfer k addrWidth) :
    Prop where
  pushed : t.pushed = (List.range t.pushed.length).map (sourceWord p mem)
  shown : t.eng.sram.state = .reading → t.eng.bram.dout = sourceWord p mem t.pushed.length

/-- A wrong word was pushed, or is shown and will be. -/
def Spoiled (p : Pair) (mem : BitVec addrWidth → Word) (t : Transfer k addrWidth) : Prop :=
  t.pushed ≠ (List.range t.pushed.length).map (sourceWord p mem) ∨
    t.eng.sram.state = .reading ∧ t.eng.bram.dout = mem 0 ∧
      sourceWord p mem t.pushed.length ≠ mem 0

/-- The BRAM is not written. -/
theorem mem_step (flow : Flow p t) (legal : Legal p t i) (fromSram : p.toSram = false) :
    (step t i).eng.bram.mem = t.eng.bram.mem := by
  have noRd : (Engines.sramOut t.eng i).midRdEn = false := flow.sram.midRdEn_eq_false fromSram
  have wrEn : (Engines.sramOut t.eng i).wrEn = (Engines.sramOut t.eng i).midRdEn :=
    SramController.wrEn_eq _ _
  simp [step, Engines.step, Bram.step, Engines.bramIn, legal.initDone, wrEn, noRd]

/-- The BRAM shows the word addressed in the cycle. -/
theorem dout_step (legal : Legal p t i) :
    (step t i).eng.bram.dout = t.eng.bram.mem (Engines.sramOut t.eng i).readAddr := by
  simp [step, Engines.step, Bram.step, Engines.bramIn, legal.initDone]

/-- In the reading state a cycle pushes the word shown, unless MID is full. -/
theorem pushed_step (flow : Flow p t) (fromSram : p.toSram = false) :
    (step t i).pushed = t.pushed ++
      if t.eng.sram.state = .reading ∧ t.eng.mid.full = false then [t.eng.bram.dout] else [] := by
  obtain ⟨wrEn, -, din⟩ := flow.midIn_of_fromSram fromSram i
  have pushes : (Engines.sramOut t.eng i).midWrEn = true ↔
      t.eng.sram.state = .reading ∧ t.eng.mid.full = false := by
    rw [Engines.sramOut, SramController.midWrEn_eq, Engines.sramIn]
    simp
  rw [step, Fifo.written, wrEn, din]
  by_cases push : t.eng.sram.state = .reading ∧ t.eng.mid.full = false
  · have word : (Engines.sramOut t.eng i).midDin = t.eng.bram.dout :=
      SramController.midDin_eq _ _ (pushes.mpr push)
    rw [if_pos push, if_pos (pushes.mpr push), word]
  · rw [if_neg push, if_neg (mt pushes.mp push)]

/-- In the reading state both counters of the controller are the words pushed. -/
theorem Flow.reading (flow : Flow p t) (fromSram : p.toSram = false)
    (reading : t.eng.sram.state = .reading) :
    t.eng.sram.beatIdx.toNat = t.pushed.length ∧
      t.eng.sram.curAddr.setWidth addrWidth =
        BitVec.ofNat addrWidth (firstWord p + (t.pushed.length + 1)) := by
  have side := flow.sram
  simp only [SramController.SramSide, reading, fromSram, Bool.false_eq_true, if_false] at side
  obtain ⟨-, -, count, less, addr⟩ := side
  have small := beats_le p.sram.len
  refine ⟨count, ?_⟩
  rw [addr]
  exact setWidth_curAddr p (by omega)

/-- A stalled reader stays, and the BRAM shows word 0 next. -/
theorem stalled_step (flow : Flow p t) (legal : Legal p t i) (fromSram : p.toSram = false)
    (reading : t.eng.sram.state = .reading) (full : t.eng.mid.full = true) :
    (step t i).eng.sram.state = .reading ∧ (step t i).eng.bram.dout = t.eng.bram.mem 0 ∧
      (step t i).pushed = t.pushed := by
  refine ⟨?_, ?_, ?_⟩
  · simp [step, Engines.step, SramController.next, SramController.comb, reading, Engines.sramIn,
      full]
  · rw [dout_step legal, Engines.sramOut, SramController.readAddr_of_reading reading]
    exact congrArg t.eng.bram.mem (if_pos full)
  · rw [pushed_step flow fromSram, if_neg (by simp [full]), List.append_nil]

theorem faithful_step {mem : BitVec addrWidth → Word} (flow : Flow p t) (legal : Legal p t i)
    (fromSram : p.toSram = false) (same : t.eng.bram.mem = mem) (faithful : Faithful p mem t)
    (keeps : ¬ LosesWord p t) : Faithful p mem (step t i) := by
  have pushes := pushed_step (i := i) flow fromSram
  by_cases reading : t.eng.sram.state = .reading
  · obtain ⟨count, addr⟩ := flow.reading fromSram reading
    cases full : t.eng.mid.full with
    | true =>
      obtain ⟨-, dout, stays⟩ := stalled_step flow legal fromSram reading full
      have word : sourceWord p mem t.pushed.length = mem 0 := by
        by_contra differs
        exact keeps ⟨reading, full, by rwa [count, same]⟩
      exact ⟨by rw [stays]; exact faithful.pushed, fun _ => by rw [stays, dout, word, same]⟩
    | false =>
      rw [if_pos ⟨reading, full⟩, faithful.shown reading] at pushes
      refine ⟨?_, fun _ => ?_⟩
      · rw [pushes, List.length_append, List.length_singleton, List.range_succ, List.map_append,
          ← faithful.pushed]
        rfl
      · rw [dout_step legal, Engines.sramOut, SramController.readAddr_of_reading reading, pushes,
          same, List.length_append, List.length_singleton, sourceWord, ← addr]
        exact congrArg mem (if_neg (by simp [Engines.sramIn, full]))
  · rw [if_neg (by simp [reading]), List.append_nil] at pushes
    refine ⟨by rw [pushes]; exact faithful.pushed, fun next => ?_⟩
    -- the reading state is entered from `dmGet`, which pre-fetches the first word
    obtain ⟨get, reads⟩ := (SramController.reading_of_next next).resolve_right reading
    have count := flow.sram
    simp only [SramController.SramSide, get, fromSram, Bool.false_eq_true, if_false] at count
    have instr : (Engines.sramIn t.eng i).dmInDout = p.sram := legal.sram get
    rw [dout_step legal, Engines.sramOut, SramController.readAddr_of_dmGet get reads, instr, pushes,
      same, count, sourceWord, firstWord]
    congr 1
    apply BitVec.eq_of_toNat_eq
    simp [Pair.sram]

theorem spoiled_of_losesWord {mem : BitVec addrWidth → Word} (flow : Flow p t)
    (legal : Legal p t i) (fromSram : p.toSram = false) (same : t.eng.bram.mem = mem)
    (loses : LosesWord p t) : Spoiled p mem (step t i) := by
  obtain ⟨reading, full, differs⟩ := loses
  obtain ⟨stays, dout, pushes⟩ := stalled_step flow legal fromSram reading full
  rw [(flow.reading fromSram reading).1, same] at differs
  exact .inr ⟨stays, by rw [dout, same], by rw [pushes]; exact differs⟩

theorem spoiled_step {mem : BitVec addrWidth → Word} (flow : Flow p t) (legal : Legal p t i)
    (fromSram : p.toSram = false) (same : t.eng.bram.mem = mem) (spoiled : Spoiled p mem t) :
    Spoiled p mem (step t i) := by
  have pushes := pushed_step (i := i) flow fromSram
  rcases spoiled with wrong | ⟨reading, dout, differs⟩
  · refine .inl fun right => wrong ?_
    have start := congrArg (List.take t.pushed.length) right
    rw [pushes, List.take_left, ← List.map_take, List.take_range] at start
    rw [start]
    simp
  · cases full : t.eng.mid.full with
    | true =>
      obtain ⟨stays, shows, same'⟩ := stalled_step flow legal fromSram reading full
      exact .inr ⟨stays, by rw [shows, same], by rw [same']; exact differs⟩
    | false =>
      rw [if_pos ⟨reading, full⟩, dout] at pushes
      refine .inl fun right => differs ?_
      have last := congrArg (·[t.pushed.length]?) right
      simpa [pushes] using last.symm

/-- At the done handshake all words have passed MID. -/
theorem Flow.done_of_fromSram (flow : Flow p t) (fromSram : p.toSram = false) (some : p.len ≠ 0)
    (done : Engines.handshakeDone t.eng = true) :
    t.pushed.length = p.len.toNat ∧ t.wBeats.map Prod.fst = t.pushed := by
  obtain ⟨axi, sram⟩ := flow.counts_of_done fromSram done
  have held := flow.held
  have pushedCount : t.pushed.length = p.len.toNat := sram.trans (beats_of_ne_zero some)
  have takenCount : t.taken.length = p.len.toNat := by
    exact axi.trans (writeBeats_of_ne_zero some)
  have none : t.eng.mid.contents = [] := by
    rw [held, List.length_append] at pushedCount
    exact List.length_eq_zero_iff.mp (by omega)
  refine ⟨pushedCount, ?_⟩
  rw [flow.wBeats, held, none, List.append_nil, fromSram]
  simp [List.mapIdx_eq_zipIdx_map, Function.comp_def]

/-- What a run from SRAM keeps whether or not it loses words. -/
theorem run_fromSram {mem : BitVec addrWidth → Word} {is : List (Engines.In addrWidth)}
    (flow : Flow p t) (same : t.eng.bram.mem = mem) (fromSram : p.toSram = false)
    (runs : LegalRun step (Legal p) t is) :
    Flow p (run step t is) ∧ (run step t is).eng.bram.mem = mem :=
  runs.invariant (P := fun t => Flow p t ∧ t.eng.bram.mem = mem)
    (fun _ _ inv legal => ⟨inv.1.step legal, (mem_step inv.1 legal fromSram).trans inv.2⟩)
    ⟨flow, same⟩

theorem run_spoiled {mem : BitVec addrWidth → Word} {is : List (Engines.In addrWidth)}
    (flow : Flow p t) (same : t.eng.bram.mem = mem) (fromSram : p.toSram = false)
    (runs : LegalRun step (Legal p) t is) (spoiled : Spoiled p mem t) :
    Spoiled p mem (run step t is) :=
  (runs.invariant (P := fun t => (Flow p t ∧ t.eng.bram.mem = mem) ∧ Spoiled p mem t)
    (fun _ _ inv legal =>
      ⟨⟨inv.1.1.step legal, (mem_step inv.1.1 legal fromSram).trans inv.1.2⟩,
        spoiled_step inv.1.1 legal fromSram inv.1.2 inv.2⟩)
    ⟨⟨flow, same⟩, spoiled⟩).2

/-- A run stays faithful up to the first cycle that loses a word, and is spoiled from
    there on. -/
theorem faithful_or_spoiled {mem : BitVec addrWidth → Word} {is : List (Engines.In addrWidth)}
    (flow : Flow p t) (same : t.eng.bram.mem = mem) (fromSram : p.toSram = false)
    (runs : LegalRun step (Legal p) t is) (faithful : Faithful p mem t) :
    if LegalRun step (fun t _ => ¬ LosesWord p t) t is then Faithful p mem (run step t is)
    else Spoiled p mem (run step t is) := by
  induction is generalizing t with
  | nil => exact faithful
  | cons i is ih =>
    have sameNext := (mem_step flow runs.1 fromSram).trans same
    rw [run_cons]
    by_cases loses : LosesWord p t
    · rw [if_neg fun keeps => keeps.1 loses]
      exact run_spoiled (flow.step runs.1) sameNext fromSram runs.2
        (spoiled_of_losesWord flow runs.1 fromSram same loses)
    · have rest := ih (flow.step runs.1) sameNext runs.2
        (faithful_step flow runs.1 fromSram same faithful loses)
      simpa only [LegalRun, loses, not_false_eq_true, true_and] using rest

end Transfer

/-- In every run of the engines on a DIR = 1 pair of 1 to 255
    words inside the BRAM, with any stalls and any relative start: at the done handshake
    BRAM word `(dst >> 2) + j` is R beat `j`, every other word is as before, and the one
    burst read `len` beats at `src`. -/
theorem sysToSram_copies {k addrWidth : Nat} {src dst : Word} {len : BitVec 8}
    {t : Transfer k addrWidth} {is : List (Engines.In addrWidth)} (idle : t.Idle)
    (some : len ≠ 0) (inRange : (dst >>> 2).toNat + len.toNat ≤ 2 ^ addrWidth)
    (runs : LegalRun Transfer.step (Transfer.Legal ⟨true, src, dst, len⟩) t is)
    (done : Engines.handshakeDone (run Transfer.step t is).eng = true) :
    let t' := run Transfer.step t is
    t'.rBeats.length = len.toNat ∧
      (∀ j (bound : j < t'.rBeats.length),
        t'.eng.bram.mem (BitVec.ofNat addrWidth ((dst >>> 2).toNat + j)) = t'.rBeats[j]) ∧
      (∀ a : BitVec addrWidth,
        a.toNat < (dst >>> 2).toNat ∨ (dst >>> 2).toNat + len.toNat ≤ a.toNat →
          t'.eng.bram.mem a = t.eng.bram.mem a) ∧
      t'.bursts = [⟨false, src, len - 1⟩] := by
  intro t'
  have words := beats_of_ne_zero some
  have inv : Transfer.Flow ⟨true, src, dst, len⟩ t' ∧
      Transfer.Written ⟨true, src, dst, len⟩ t.eng.bram.mem t' := by
    refine runs.invariant
      (P := fun t' => Transfer.Flow ⟨true, src, dst, len⟩ t' ∧
        Transfer.Written ⟨true, src, dst, len⟩ t.eng.bram.mem t')
      (fun t i inv legal => ⟨inv.1.step legal, ?_⟩) ⟨idle.flow, ?_⟩
    · exact Transfer.written_step inv.1 legal rfl (by rw [words]; exact inRange) inv.2
    · simp [Transfer.Written, idle.taken]
  obtain ⟨flow, written⟩ := inv
  obtain ⟨burst, count, all⟩ := flow.done_of_toSram rfl done
  rw [words] at count
  refine ⟨by rw [all, count], ?_, ?_, ?_⟩
  · intro j bound
    have inBlock : j < t'.taken.length := by rwa [all] at bound
    have word : overlay t.eng.bram.mem (Transfer.firstWord ⟨true, src, dst, len⟩) t'.taken
        (BitVec.ofNat addrWidth ((dst >>> 2).toNat + j)) = t'.taken[j] :=
      overlay_of_lt inBlock (by change (dst >>> 2).toNat + j < _; omega)
    rw [← written] at word
    exact word.trans (getElem_congr_coll all.symm)
  · intro a outside
    rw [written]
    exact overlay_outside (by rw [count]; exact outside)
  · rw [burst, AxiMaster.burstOf, Pair.axi, AxiMaster.burstLen, if_neg some]
    rfl

/-- A slave that is ready for everything and returns nothing. -/
def readySlave : Axi4Slave :=
  { awready := true, wready := true, bvalid := true, arready := true, rvalid := false, rdata := 0,
    rlast := false }

/-- A cycle that shows `p` to the engines, to the AXI master only if `axiReady`. -/
def pairCycle {addrWidth : Nat} (p : Pair) (axiReady : Bool) (o : Axi4Slave) :
    Engines.In addrWidth :=
  { dfInEmpty := true, dfInDout := ⟨0, 0⟩, dfOutFull := false, dmInEmptyAxi := !axiReady,
    dmInDoutAxi := p.axi, dmInEmptySram := false, dmInDoutSram := p.sram, axi := o,
    init := { initDone := true, addr := 0, wrEn := false, din := 0 } }

/-- Two words are read from address 0 and stored from BRAM word 1 on. -/
theorem sysToSram_copies_two :
    let is := (([readySlave, readySlave, readySlave,
      { readySlave with rvalid := true, rdata := 7 },
      { readySlave with rvalid := true, rdata := 9, rlast := true },
      readySlave, readySlave]).map (pairCycle ⟨true, 0, 4, 2⟩ true) : List (Engines.In 3))
    let t' := run Transfer.step (Transfer.atReset 1 fun _ => 0) is
    (t'.rBeats.length = 2 ∧
      (∀ j (bound : j < t'.rBeats.length),
        t'.eng.bram.mem (BitVec.ofNat 3 (1 + j)) = t'.rBeats[j]) ∧
      (∀ a : BitVec 3, a.toNat < 1 ∨ 1 + 2 ≤ a.toNat → t'.eng.bram.mem a = 0) ∧
      t'.bursts = [⟨false, 0, 1⟩]) ∧ t'.rBeats = [7, 9] :=
  ⟨@sysToSram_copies 1 3 0 4 2 _ _ (Transfer.idle_atReset _) (by decide) (by decide) (by decide)
    (by decide), by decide⟩

/-- In every run of the engines on a DIR = 0 pair of 1 to 255
    words that reaches the done handshake, the BRAM is unchanged; the W beats are the
    source words in order if and only if no cycle of the run loses a word. -/
theorem sramToSys_copies_iff {k addrWidth : Nat} {src dst : Word} {len : BitVec 8}
    {t : Transfer k addrWidth} {is : List (Engines.In addrWidth)} (idle : t.Idle)
    (some : len ≠ 0) (runs : LegalRun Transfer.step (Transfer.Legal ⟨false, dst, src, len⟩) t is)
    (done : Engines.handshakeDone (run Transfer.step t is).eng = true) :
    let t' := run Transfer.step t is
    (t'.wBeats.map Prod.fst = (List.range len.toNat).map
        (fun j => t.eng.bram.mem (BitVec.ofNat addrWidth ((src >>> 2).toNat + j))) ∧
      t'.eng.bram.mem = t.eng.bram.mem) ↔
    LegalRun Transfer.step (fun t _ => ¬ Transfer.LosesWord ⟨false, dst, src, len⟩ t) t is := by
  intro t'
  have flow : Transfer.Flow ⟨false, dst, src, len⟩ t := idle.flow
  have faithful : Transfer.Faithful ⟨false, dst, src, len⟩ t.eng.bram.mem t :=
    ⟨by simp [idle.pushed], by simp [idle.sram]⟩
  obtain ⟨flow', same⟩ := Transfer.run_fromSram flow rfl rfl runs
  obtain ⟨count, words⟩ := flow'.done_of_fromSram rfl some done
  have outcome := Transfer.faithful_or_spoiled flow rfl rfl runs faithful
  rw [words, ← count]
  by_cases keeps : LegalRun Transfer.step
    (fun t _ => ¬ Transfer.LosesWord ⟨false, dst, src, len⟩ t) t is
  · rw [if_pos keeps] at outcome
    exact iff_of_true ⟨outcome.pushed, same⟩ keeps
  · rw [if_neg keeps] at outcome
    refine iff_of_false (fun right => ?_) keeps
    rcases outcome with wrong | ⟨reading, -⟩
    · exact wrong right.1
    · have waits := (Bool.and_eq_true_iff.mp done).1
      rw [SramController.sramDone, reading] at waits
      exact absurd waits (by decide)

def counting : BitVec 3 → Word := fun a => a.setWidth 32

/-- Words 3 and 6 are like word 0. -/
def cycling : BitVec 3 → Word := fun a => (a % 3).setWidth 32

/-- Words 1 to 3 of the BRAM, MID of depth 2, and the AXI master starts six cycles late. -/
def lateStart : List (Engines.In 3) :=
  List.replicate 6 (pairCycle ⟨false, 0, 4, 3⟩ false readySlave) ++
    List.replicate 8 (pairCycle ⟨false, 0, 4, 3⟩ true readySlave)

/-- MID is full while word 3 waits, and nothing is lost because that word is like word 0. -/
theorem sramToSys_copies_three :
    let t' := run Transfer.step (Transfer.atReset 1 cycling) lateStart
    let waits := run Transfer.step (Transfer.atReset 1 cycling) (lateStart.take 6)
    ((t'.wBeats.map Prod.fst = (List.range 3).map (fun j => cycling (BitVec.ofNat 3 (1 + j))) ∧
      t'.eng.bram.mem = cycling) ↔
    LegalRun Transfer.step (fun t _ => ¬ Transfer.LosesWord ⟨false, 0, 4, 3⟩ t)
      (Transfer.atReset 1 cycling) lateStart) ∧
    (waits.eng.mid.full = true ∧ waits.eng.sram.state = .reading) ∧ t'.wBeats.map Prod.fst = [1, 2, 0] :=
  ⟨@sramToSys_copies_iff 1 3 4 0 3 _ _ (Transfer.idle_atReset _) (by decide) (by decide) (by decide),
    by decide, by decide⟩

/-- In the same cycles word 3 waits for room, and word 0 goes out in its place. -/
theorem sramToSys_loses_word :
    let t' := run Transfer.step (Transfer.atReset 1 counting) lateStart
    LegalRun Transfer.step (Transfer.Legal ⟨false, 0, 4, 3⟩) (Transfer.atReset 1 counting) lateStart ∧
      Engines.handshakeDone t'.eng = true ∧ t'.wBeats.map Prod.fst = [1, 2, 0] := by decide

end AxiDma.Verified
