import AxiDma.Verified.ExactlyOnce

/-! # The bounds check against the BRAM

`descriptor_fetcher` compares the last SRAM word of a descriptor with `MAX_SRAM_ADDR`, but
the SRAM behind the controller has `BRAM_SIZE` words and the controller drops the upper
address bits.  `forwarded_uses_only_bram_iff` says for which descriptors the check is
enough.
-/

namespace AxiDma.Verified

open AxiDma.Lib AxiDma.Rtl

namespace SramController

open AxiDma.Rtl.SramController

/-! ## The words of an instruction -/

/-- The SRAM word a cycle works on: the word it writes, or the word it asks for.  After
    the last beat of a read the next address is on the port, but no word is asked for. -/
def wordUsed (s : State) (i : In) : Option Word :=
  match s.state with
  | .dmGet => if i.dmInDout.rw then none else some (i.dmInDout.addr >>> 2)
  | .writing => if i.midEmpty then none else some s.curAddr
  | .reading => if i.midFull || lastBeat s then none else some s.curAddr
  | .idle | .waitAxi4master => none

def portAddr (addrWidth : Nat) (s : State) (i : In) : BitVec addrWidth :=
  let o := out addrWidth s i
  if o.wrEn then o.writeAddr else o.readAddr

/-- The controller and the instruction it took last. -/
structure Serving where
  sram : State
  instr : Instr
  deriving DecidableEq

namespace Serving

def start : Serving := { sram := resetState, instr := ⟨0, 0, false⟩ }

/-- The instruction the cycle works on. -/
def instrNow (r : Serving) (i : In) : Instr :=
  if r.sram.state = .dmGet then i.dmInDout else r.instr

def step (addrWidth : Nat) (r : Serving) (i : In) : Serving :=
  { sram := next addrWidth r.sram i, instr := instrNow r i }

end Serving

/-- In every cycle of every run that works on `instr`, the word is one of the BRAM and the
    port names it. -/
def UsesOnlyBram (bramSize : Nat) (instr : Instr) : Prop :=
  ∀ is i, let r := run (Serving.step (clog2 bramSize)) Serving.start is
    r.instrNow i = instr → ∀ w, wordUsed r.sram i = some w →
      w.toNat < bramSize ∧ (portAddr (clog2 bramSize) r.sram i).toNat = w.toNat

variable {addrWidth : Nat} {s : State} {i : In} {r : Serving} {instr : Instr}

theorem wordUsed_writing (state : s.state = .writing) (word : i.midEmpty = false) :
    wordUsed s i = some s.curAddr := by simp [wordUsed, state, word]

theorem wordUsed_reading (state : s.state = .reading) (room : i.midFull = false)
    (more : lastBeat s = false) : wordUsed s i = some s.curAddr := by
  simp [wordUsed, state, room, more]

/-- The upper bits of the word address are dropped. -/
theorem portAddr_of_wordUsed {w : Word} (used : wordUsed s i = some w) :
    portAddr addrWidth s i = w.setWidth addrWidth := by
  cases state : s.state with
  | idle => simp [wordUsed, state] at used
  | dmGet =>
    cases rw : i.dmInDout.rw <;>
      simp_all [wordUsed, portAddr, out, comb, defaultOut]
  | writing =>
    cases empty : i.midEmpty <;> simp_all [wordUsed, portAddr, out, comb, defaultOut]
  | reading =>
    cases full : i.midFull <;> simp_all [wordUsed, portAddr, out, comb, defaultOut]
  | waitAxi4master => simp [wordUsed, state] at used

/-! ## No word past the last one -/

/-- The controller is somewhere in the instruction it took last. -/
def Within (r : Serving) : Prop := ∃ n, SramSide r.instr r.sram n

theorem within_step (r : Serving) (i : In) (within : Within r) :
    Within (r.step addrWidth i) := by
  obtain ⟨n, side⟩ := within
  by_cases done : r.sram.state = .waitAxi4master ∧ i.axi4masterDone = true
  · refine ⟨0, ?_⟩
    have idles : (next addrWidth r.sram i).state = .idle := by simp [next, comb, done]
    show SramSide _ (next addrWidth r.sram i) 0
    simp [SramSide, idles]
  · have taken : SramSide (r.instrNow i) r.sram n := by
      by_cases get : r.sram.state = .dmGet
      · simpa [SramSide, get] using side
      · simpa [Serving.instrNow, get] using side
    refine ⟨_, sramSide_step addrWidth taken (fun get => ?_) (fun waits => ?_)⟩
    · show i.dmInDout = r.instrNow i
      simp [Serving.instrNow, get]
    · simpa [waits] using done

theorem within_run (is : List In) :
    Within (run (Serving.step addrWidth) Serving.start is) := by
  have idle : Within Serving.start := ⟨0, by simp [SramSide, Serving.start, resetState]⟩
  exact run_invariant within_step idle is

/-- A word that is used is one of the instruction's words. -/
theorem Within.wordUsed {w : Word} (within : Within r) (used : wordUsed r.sram i = some w) :
    ∃ j, j < beats (r.instrNow i).len ∧
      w = (r.instrNow i).addr >>> 2 + BitVec.ofNat 32 j := by
  obtain ⟨n, side⟩ := within
  cases state : r.sram.state with
  | idle => simp [SramController.wordUsed, state] at used
  | dmGet =>
    refine ⟨0, beats_pos _, ?_⟩
    cases rw : i.dmInDout.rw <;>
      simp_all [SramController.wordUsed, Serving.instrNow]
  | writing =>
    have now : r.instrNow i = r.instr := by simp [Serving.instrNow, state]
    simp only [SramSide, state] at side
    obtain ⟨-, -, -, less, addr⟩ := side
    rw [now]
    refine ⟨n, less, ?_⟩
    cases empty : i.midEmpty <;> simp_all [SramController.wordUsed]
  | reading =>
    have now : r.instrNow i = r.instr := by simp [Serving.instrNow, state]
    simp only [SramSide, state] at side
    obtain ⟨-, lenEq, count, less, addr⟩ := side
    -- the word asked for belongs to the next beat
    have more : n + 1 ≠ beats r.instr.len := by
      rw [ne_eq, ← lastBeat_iff lenEq count less]
      intro last
      simp [SramController.wordUsed, state, last] at used
    rw [now]
    refine ⟨n + 1, by omega, ?_⟩
    cases full : i.midFull <;> cases last : lastBeat r.sram <;>
      simp_all [SramController.wordUsed]
  | waitAxi4master => simp [SramController.wordUsed, state] at used

/-! ## A run that reaches the last word -/

def go (instr : Instr) : In :=
  { dout := 0, axi4masterDone := false, midFull := false, midEmpty := false, midDout := 0,
    dmInEmpty := false, dmInDout := instr }

/-- Without stalls a beat that is not the last one moves a word and stays in the loop. -/
theorem sramSide_go (addrWidth : Nat) {n : Nat} (side : SramSide instr s n)
    (loop : s.state = if instr.rw then .writing else .reading) (more : n + 1 < beats instr.len) :
    SramSide instr (next addrWidth s (go instr)) (n + 1) ∧
      (next addrWidth s (go instr)).state = s.state := by
  cases rw : instr.rw with
  | true | false =>
    have state := loop
    simp only [rw, Bool.false_eq_true, if_true, if_false] at state
    have step := sramSide_step addrWidth (i := go instr) side (by simp [state]) (by simp [state])
    simp only [SramSide, state] at side
    obtain ⟨-, lenEq, count, less, -⟩ := side
    have last : lastBeat s ≠ true := by
      rw [ne_eq, lastBeat_iff lenEq count less]
      omega
    have one : moved addrWidth s (go instr) = 1 := by
      simp [moved, midWrEn_eq, midRdEn_eq, state, go]
    rw [one] at step
    exact ⟨step, by simp [next, comb, state, go, last]⟩

/-- The controller has moved `n` words after `n + 2` such cycles. -/
theorem run_go (addrWidth : Nat) (instr : Instr) {n : Nat} (less : n < beats instr.len) :
    let r := run (Serving.step addrWidth) Serving.start (List.replicate (n + 2) (go instr))
    r.instr = instr ∧ SramSide instr r.sram n ∧
      r.sram.state = if instr.rw then .writing else .reading := by
  induction n with
  | zero =>
    cases rw : instr.rw <;>
      simp [List.replicate, run, Serving.step, Serving.start, Serving.instrNow, resetState, next,
        comb, go, SramSide, rw, less]
  | succ n ih =>
    obtain ⟨taken, side, loop⟩ := ih (Nat.lt_of_succ_lt less)
    rw [List.replicate_succ', run_snoc]
    obtain ⟨side', stays⟩ := sramSide_go addrWidth side loop less
    have busy : (run (Serving.step addrWidth) Serving.start
        (List.replicate (n + 2) (go instr))).sram.state ≠ .dmGet := by
      rw [loop]
      cases instr.rw <;> simp
    exact ⟨(if_neg busy).trans taken, side', stays.trans loop⟩

/-- Every word of an instruction is used in some run. -/
theorem exists_wordUsed (addrWidth : Nat) (instr : Instr) {j : Nat} (less : j < beats instr.len) :
    ∃ is i, let r := run (Serving.step addrWidth) Serving.start is
      r.instrNow i = instr ∧
        wordUsed r.sram i = some (instr.addr >>> 2 + BitVec.ofNat 32 j) := by
  cases rw : instr.rw with
  | true =>
    obtain ⟨taken, side, loop⟩ := run_go addrWidth instr less
    rw [rw, if_pos rfl] at loop
    simp only [SramSide, loop] at side
    refine ⟨List.replicate (j + 2) (go instr), go instr, ?_, ?_⟩
    · simpa [Serving.instrNow, loop] using taken
    · rw [wordUsed_writing loop rfl, side.2.2.2.2]
  | false =>
    cases j with
    | zero =>
      -- the first word is asked for in the cycle that takes the instruction
      refine ⟨[go instr], go instr, ?_, ?_⟩ <;>
        simp [run, Serving.step, Serving.start, Serving.instrNow, resetState, next, comb, go,
          wordUsed, rw]
    | succ j =>
      obtain ⟨taken, side, loop⟩ := run_go addrWidth instr (Nat.lt_of_succ_lt less)
      rw [rw, if_neg Bool.false_ne_true] at loop
      simp only [SramSide, loop] at side
      obtain ⟨-, lenEq, count, bound, addr⟩ := side
      refine ⟨List.replicate (j + 2) (go instr), go instr, ?_, ?_⟩
      · simpa [Serving.instrNow, loop] using taken
      · have more := (lastBeat_iff lenEq count bound).not.mpr (by omega)
        rw [wordUsed_reading loop rfl (Bool.not_eq_true _ ▸ more), addr]

/-! ## The last word -/

theorem toNat_word {j : Nat} (instr : Instr) (less : j < beats instr.len) :
    (instr.addr >>> 2 + BitVec.ofNat 32 j).toNat = instr.addr.toNat / 4 + j := by
  have small := beats_le instr.len
  have bound := instr.addr.isLt
  have word : (instr.addr >>> 2).toNat = instr.addr.toNat / 4 := by
    simp [Nat.shiftRight_eq_div_pow]
  rw [BitVec.toNat_add, word, BitVec.toNat_ofNat, Nat.mod_eq_of_lt (a := j) (by omega)]
  exact Nat.mod_eq_of_lt (by omega)

/-- An instruction stays in the BRAM exactly if its last word does. -/
theorem usesOnlyBram_iff (bramSize : Nat) (instr : Instr) :
    UsesOnlyBram bramSize instr ↔ instr.addr.toNat / 4 + (beats instr.len - 1) < bramSize := by
  have pos := beats_pos instr.len
  constructor
  · intro uses
    obtain ⟨is, i, now, used⟩ :=
      exists_wordUsed (clog2 bramSize) instr (j := beats instr.len - 1) (by omega)
    have inside := (uses is i now _ used).1
    rwa [toNat_word instr (by omega)] at inside
  · intro last is i r now w used
    obtain ⟨j, less, rfl⟩ := (within_run is).wordUsed used
    rw [now] at less
    have inside : (instr.addr >>> 2 + BitVec.ofNat 32 j).toNat < bramSize := by
      rw [toNat_word instr less]
      omega
    rw [portAddr_of_wordUsed used, now, BitVec.toNat_setWidth]
    -- the port has enough bits for an index of the BRAM
    have wide : bramSize ≤ 2 ^ clog2 bramSize := Nat.le_pow_clog (by decide) _
    exact ⟨inside, Nat.mod_eq_of_lt (Nat.lt_of_lt_of_le inside wide)⟩

end SramController

/-! ## What the fetcher lets through -/

/-- A descriptor that the fetcher hands on touches
    only words of the BRAM exactly if its last SRAM word does not lie between `BRAM_SIZE`
    and `MAX_SRAM_ADDR`. -/
theorem forwarded_uses_only_bram_iff (bramSize : Nat) (s : DescriptorFetcher.State)
    (i : DescriptorFetcher.In) (pops : DescriptorFetcher.dfOutRdEn i = true) :
    ((DescriptorFetcher.next s i).dmInWrEn = true →
      SramController.UsesOnlyBram bramSize
        (DescriptorFetcher.sramInstr (DescriptorFetcher.next s i).dmInDin)) ↔
    ¬ (bramSize ≤ DescriptorFetcher.lastWord i.dfOutDout ∧
      DescriptorFetcher.lastWord i.dfOutDout ≤ maxSramAddr) := by
  cases range : DescriptorFetcher.outOfRange i.dfOutDout with
  | true =>
    have far : ¬ DescriptorFetcher.lastWord i.dfOutDout ≤ maxSramAddr := by
      rw [← DescriptorFetcher.outOfRange_eq_false_iff, range]
      decide
    simp [DescriptorFetcher.next, range, far]
  | false =>
    have near := DescriptorFetcher.outOfRange_eq_false_iff.mp range
    have handed : (DescriptorFetcher.next s i).dmInDin = i.dfOutDout := by
      simp [DescriptorFetcher.next, pops, range]
    have writes : (DescriptorFetcher.next s i).dmInWrEn = true := by
      simp [DescriptorFetcher.next, pops, range]
    rw [handed, SramController.usesOnlyBram_iff]
    show (_ → DescriptorFetcher.lastWord i.dfOutDout < bramSize) ↔ _
    simp only [writes, forall_const, near, and_true, Nat.not_le]

namespace SramController

/-- The cycle in which the fetcher pops `d`. -/
def pop (d : Desc) : DescriptorFetcher.In :=
  { dfInFull := false, dfOutEmpty := false, dfOutDout := d, dmInFull := false,
    fetchReqValid := false, rmDfAddr := 0 }

/-- Word 1023 is the last one of the BRAM. -/
theorem last_word_in_bram :
    UsesOnlyBram bramSize (DescriptorFetcher.sramInstr ⟨0, 4092, 1, 1⟩) :=
  (forwarded_uses_only_bram_iff bramSize DescriptorFetcher.resetState
    (pop ⟨0, 4092, 1, 1⟩) (by decide)).mpr (by decide) (by decide)

/-- A descriptor whose SRAM side starts at byte 4096. -/
def pastTheEnd : Desc := { w0 := 0, w1 := 4096, w2 := 1, w3 := 1 }

/-- The fetcher hands it on, and its word 1024 is word 0 on the BRAM port; a BRAM of 256
    words does not have it either. -/
theorem word_aliases :
    DescriptorFetcher.dfError (pop pastTheEnd) = false ∧
      (DescriptorFetcher.next DescriptorFetcher.resetState (pop pastTheEnd)).dmInWrEn = true ∧
      (DescriptorFetcher.next DescriptorFetcher.resetState (pop pastTheEnd)).dmInDin = pastTheEnd ∧
      (let instr := DescriptorFetcher.sramInstr pastTheEnd
       let r := run (Serving.step (clog2 bramSize)) Serving.start [go instr, go instr]
       r.instrNow (go instr) = instr ∧ wordUsed r.sram (go instr) = some 1024 ∧
         (portAddr (clog2 bramSize) r.sram (go instr)).toNat = 0) ∧
      ¬ UsesOnlyBram bramSize (DescriptorFetcher.sramInstr pastTheEnd) ∧
      ¬ UsesOnlyBram 256 (DescriptorFetcher.sramInstr pastTheEnd) := by
  have word : wordUsed (run (Serving.step (clog2 bramSize)) Serving.start
      [go (DescriptorFetcher.sramInstr pastTheEnd), go (DescriptorFetcher.sramInstr pastTheEnd)]).sram
      (go (DescriptorFetcher.sramInstr pastTheEnd)) = some 1024 := by decide
  have width : clog2 bramSize = 10 := Nat.clog_pow 2 10 (by decide)
  refine ⟨by decide, by decide, by decide, ⟨by decide, word, ?_⟩, ?_, ?_⟩
  · rw [portAddr_of_wordUsed word, BitVec.toNat_setWidth, width]
    rfl
  · rw [usesOnlyBram_iff]
    decide
  · rw [usesOnlyBram_iff]
    decide

end SramController

end AxiDma.Verified
