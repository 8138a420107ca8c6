import AxiDma.Verified.Copy
import AxiDma.Verified.Service

/-! # What one job copies

With the system memory as the slave, `Reads` and `Writes` say what a job has moved between
the memory and MID, as `Written` and `Faithful` say it for the BRAM.  A job that loses no word
ends with the memories of `copyPair`.
-/

namespace AxiDma.Verified

open AxiDma.Lib AxiDma.Rtl

/-! ## One job -/

namespace Job

variable {k addrWidth : Nat} {p : Pair} {t : Transfer k addrWidth} {mem : Rtl.SysMem.State}
  {i : Engines.In addrWidth} {memWords : Nat} {init : Rtl.SysMem.Init} {ram : Nat → Word}

/-- First word of the pair in the system memory. -/
def memBase (p : Pair) : Nat := (p.axiAddr >>> 2).toNat

def memWord (p : Pair) (ram : Nat → Word) (j : Nat) : Word := ram (memBase p + j)

/-- To SRAM: the words pushed so far are the source block, and the memory is at the next. -/
structure Reads (p : Pair) (ram : Nat → Word) (t : Transfer k addrWidth)
    (mem : Rtl.SysMem.State) : Prop where
  ram_eq : mem.ram = ram
  pushed : t.pushed = (List.range t.pushed.length).map (memWord p ram)
  beat : t.eng.axi.state = .dmRdR → mem.rAddr = p.axiAddr ∧ mem.rBeat.toNat = t.pushed.length

/-- From SRAM: the memory holds the words taken over what it held before. -/
structure Writes (p : Pair) (ram : Nat → Word) (t : Transfer k addrWidth)
    (mem : Rtl.SysMem.State) : Prop where
  ram_eq : mem.ram = overlayNat ram (memBase p) t.taken
  beat : t.eng.axi.state = .dmWrW → mem.wAddr = p.axiAddr ∧ mem.wBeat.toNat = t.taken.length

/-- A word reaches the memory exactly when MID is read. -/
theorem ram_step (cycle : Cycle memWords p t mem i) (served : Served p t mem)
    (noInit : init.wrEn = false) :
    (SysMem.step memWords mem (Engines.axiOut t.eng i).axi init).ram =
      if (Engines.axiOut t.eng i).midRdEn = true ∧
          SysMem.beatWord mem.wAddr mem.wBeat < memWords then
        Function.update mem.ram (SysMem.beatWord mem.wAddr mem.wBeat) t.eng.mid.dout
      else mem.ram := by
  have follows := served.follows
  have ready : (Engines.axiIn t.eng i).axi.wready = (mem.wState == .data) :=
    congrArg Axi4Slave.wready cycle.slave
  have data : (Engines.axiOut t.eng i).axi.wdata = t.eng.mid.dout := AxiMaster.wdata_eq _ _
  have valid := AxiMaster.wvalid_eq t.eng.axi (Engines.axiIn t.eng i)
  have reads := AxiMaster.midRdEn_eq t.eng.axi (Engines.axiIn t.eng i)
  rw [SysMem.ram_step noInit, data]
  rw [ready] at reads
  by_cases writing : t.eng.axi.state = .dmWrW
  · have state : mem.wState = .data := by simpa [WriteFollows, writing] using follows
    rw [Engines.axiOut, valid, reads, state, writing]
    simp
  · rw [Engines.axiOut, valid, reads]
    simp [writing]

/-- In the read state the memory has a beat. -/
theorem issue_of_dmRdR (served : Served p t mem) (state : t.eng.axi.state = .dmRdR) :
    mem.rState = .issue ∧ mem.rBeat.toNat + t.rLeft = mem.rLastBeat.toNat + 1 ∧ 0 < t.rLeft := by
  have left : 0 < t.rLeft := served.inBurst.mp (.inr state)
  have owes := served.owes
  cases fsm : mem.rState with
  | idle =>
    simp only [SysMem.ReadOwes, fsm] at owes
    omega
  | issue =>
    simp only [SysMem.ReadOwes, fsm] at owes
    exact ⟨rfl, owes.2, left⟩

/-- The beat that is pushed is the next word of the source. -/
theorem Reads.midDin (reads : Reads p ram t mem) (served : Served p t mem)
    (cycle : Cycle memWords p t mem i) (toSram : p.toSram = true)
    (inRange : memBase p + beats p.len ≤ memWords)
    (pushes : (Engines.axiOut t.eng i).midWrEn = true) :
    (Engines.axiOut t.eng i).midDin = memWord p ram t.pushed.length := by
  have state : t.eng.axi.state = .dmRdR := by
    rw [Engines.axiOut, AxiMaster.midWrEn_eq] at pushes
    simp_all
  obtain ⟨issue, -, left⟩ := issue_of_dmRdR served state
  obtain ⟨addr, count⟩ := reads.beat state
  have side := served.flow.axi
  simp only [AxiMaster.AxiSide, state, toSram, if_true] at side
  -- a beat is still owed, so the word lies in the block and in the memory
  have inBlock : t.pushed.length + t.rLeft = beats p.len := side.2.2
  have din : (Engines.axiOut t.eng i).midDin = i.axi.rdata := AxiMaster.midDin_eq _ _ pushes
  have word : SysMem.beatWord mem.rAddr mem.rBeat = memBase p + t.pushed.length := by
    rw [SysMem.beatWord_eq, addr, count]
    rfl
  rw [din, cycle.slave, SysMem.out, if_pos issue, SysMem.rdata, word, if_pos (by omega),
    reads.ram_eq, memWord]

/-- The memory's beat counter follows the words pushed. -/
theorem Reads.beat_step (reads : Reads p ram t mem) (served : Served p t mem)
    (cycle : Cycle memWords p t mem i) (toSram : p.toSram = true)
    (state : (t.step i).eng.axi.state = .dmRdR) :
    (SysMem.step memWords mem (Engines.axiOut t.eng i).axi init).rAddr = p.axiAddr ∧
      (SysMem.step memWords mem (Engines.axiOut t.eng i).axi init).rBeat.toNat =
        t.pushed.length + (Engines.axiOut t.eng i).midWrEn.toNat := by
  have side := served.flow.axi
  have next : (AxiMaster.next t.eng.axi (Engines.axiIn t.eng i)).state = .dmRdR := state
  obtain ⟨addr, beat⟩ := @SysMem.rBurst_step memWords mem (Engines.axiOut t.eng i).axi init
  have arvalid := AxiMaster.arvalid_eq t.eng.axi (Engines.axiIn t.eng i)
  have araddr := AxiMaster.araddr_eq t.eng.axi (Engines.axiIn t.eng i)
  have pushes := AxiMaster.midWrEn_eq t.eng.axi (Engines.axiIn t.eng i)
  have slave : (Engines.axiIn t.eng i).axi = SysMem.out memWords mem := cycle.slave
  rw [addr, beat]
  rcases AxiMaster.dmRdR_of_next next with ⟨early, ready⟩ | ⟨early, stays⟩
  · -- the AR handshake
    simp only [AxiMaster.AxiSide, early, toSram, if_true] at side
    rw [slave] at ready
    obtain ⟨-, curAddr, -, -, none⟩ := side
    have opens : mem.rState = .idle ∧ (Engines.axiOut t.eng i).axi.arvalid = true :=
      ⟨beq_iff_eq.mp ready, arvalid.trans (by rw [early]; rfl)⟩
    have quiet : (Engines.axiOut t.eng i).midWrEn = false := pushes.trans (by rw [early]; rfl)
    rw [if_pos opens, if_pos opens, quiet, none]
    exact ⟨araddr.trans curAddr, rfl⟩
  · obtain ⟨issue, owes, left⟩ := issue_of_dmRdR served early
    obtain ⟨before, count⟩ := reads.beat early
    have rready : (Engines.axiOut t.eng i).axi.rready = !t.eng.mid.full :=
      AxiMaster.dmRdR_rready_eq _ _ early
    have taken : (Engines.axiOut t.eng i).midWrEn = !t.eng.mid.full := by
      rw [Engines.axiOut, pushes, early, slave]
      simp [SysMem.out, issue, Engines.axiIn]
    have noOpen : ¬ (mem.rState = .idle ∧ (Engines.axiOut t.eng i).axi.arvalid = true) := by
      rw [issue]
      simp
    rw [if_neg noOpen, if_neg noOpen]
    cases full : t.eng.mid.full with
    | true =>
      rw [if_neg (by simp [rready, full]), taken, full]
      exact ⟨before, count⟩
    | false =>
      -- the beat is not the last, so the counter moves on and does not wrap
      have more : mem.rBeat ≠ mem.rLastBeat := by
        have last := stays (taken.trans (by rw [full]; rfl))
        rw [slave, SysMem.out, issue] at last
        simpa using last
      have bound := mem.rLastBeat.isLt
      have differs := mt BitVec.toNat_inj.mp more
      have up : (mem.rBeat + 1).toNat = mem.rBeat.toNat + 1 := by
        rw [BitVec.toNat_add]
        exact Nat.mod_eq_of_lt (by change mem.rBeat.toNat + 1 < 256; omega)
      rw [if_pos ⟨issue, by rw [rready, full]; rfl, more⟩, up, taken, full, count]
      exact ⟨before, rfl⟩

theorem Reads.step (reads : Reads p ram t mem) (served : Served p t mem)
    (cycle : Cycle memWords p t mem i) (toSram : p.toSram = true)
    (inRange : memBase p + beats p.len ≤ memWords) (noInit : init.wrEn = false) :
    Reads p ram (t.step i) (SysMem.step memWords mem (Engines.axiOut t.eng i).axi init) := by
  obtain ⟨wrEn, -⟩ := served.flow.midIn_of_toSram toSram i
  have noRead : (Engines.axiOut t.eng i).midRdEn = false :=
    served.flow.axi.midRdEn_eq_false (by simp [Pair.axi, toSram])
  -- only the master pushes, and what it pushes is the next word of the source
  have written : (t.step i).pushed = t.pushed ++
      if (Engines.axiOut t.eng i).midWrEn then [memWord p ram t.pushed.length] else [] := by
    rw [Transfer.step, Fifo.written, wrEn]
    cases writes : (Engines.axiOut t.eng i).midWrEn with
    | false => rfl
    | true => simp [Engines.midIn, writes, ← reads.midDin served cycle toSram inRange writes]
  have count : (t.step i).pushed.length =
      t.pushed.length + (Engines.axiOut t.eng i).midWrEn.toNat := by
    rw [written, List.length_append]
    cases (Engines.axiOut t.eng i).midWrEn <;> rfl
  refine ⟨?_, ?_, fun state => ?_⟩
  · rw [ram_step cycle served noInit, if_neg (by simp [noRead]), reads.ram_eq]
  · cases writes : (Engines.axiOut t.eng i).midWrEn with
    | false =>
      rw [writes, if_neg (by decide), List.append_nil] at written
      rw [written]
      exact reads.pushed
    | true =>
      rw [writes, if_pos rfl] at written
      rw [written, List.length_append, List.length_singleton, List.range_succ, List.map_append,
        ← reads.pushed]
      rfl
  · rw [count]
    exact reads.beat_step served cycle toSram state

/-! ### Writes -/

/-- The memory's beat counter follows the words taken. -/
theorem Writes.beat_step (writes : Writes p ram t mem) (served : Served p t mem)
    (cycle : Cycle memWords p t mem i) (fromSram : p.toSram = false)
    (state : (t.step i).eng.axi.state = .dmWrW) :
    (SysMem.step memWords mem (Engines.axiOut t.eng i).axi init).wAddr = p.axiAddr ∧
      (SysMem.step memWords mem (Engines.axiOut t.eng i).axi init).wBeat.toNat =
        t.taken.length + (Engines.axiOut t.eng i).midRdEn.toNat := by
  have side := served.flow.axi
  have follows := served.follows
  have next : (AxiMaster.next t.eng.axi (Engines.axiIn t.eng i)).state = .dmWrW := state
  obtain ⟨addr, beat⟩ := @SysMem.wBurst_step memWords mem (Engines.axiOut t.eng i).axi init
  have awvalid := AxiMaster.awvalid_eq t.eng.axi (Engines.axiIn t.eng i)
  have awaddr := AxiMaster.awaddr_eq t.eng.axi (Engines.axiIn t.eng i)
  have wvalid := AxiMaster.wvalid_eq t.eng.axi (Engines.axiIn t.eng i)
  have takes := AxiMaster.midRdEn_eq t.eng.axi (Engines.axiIn t.eng i)
  have slave : (Engines.axiIn t.eng i).axi = SysMem.out memWords mem := cycle.slave
  rw [addr, beat]
  rcases AxiMaster.dmWrW_of_next next with ⟨early, ready⟩ | ⟨early, stays⟩
  · -- the AW handshake
    simp only [AxiMaster.AxiSide, early, fromSram, Bool.false_eq_true, if_false] at side
    rw [slave] at ready
    obtain ⟨-, curAddr, -, -, none⟩ := side
    have opens : mem.wState = .idle ∧ (Engines.axiOut t.eng i).axi.awvalid = true :=
      ⟨beq_iff_eq.mp ready, awvalid.trans (by rw [early]; rfl)⟩
    have quiet : (Engines.axiOut t.eng i).midRdEn = false := takes.trans (by rw [early]; rfl)
    rw [if_pos opens, if_pos opens, quiet, none]
    exact ⟨awaddr.trans curAddr, rfl⟩
  · simp only [AxiMaster.AxiSide, early, fromSram, Bool.false_eq_true, if_false] at side
    obtain ⟨-, -, -, -, less⟩ := side
    have data : mem.wState = .data := by simpa [WriteFollows, early] using follows
    obtain ⟨before, count⟩ := writes.beat early
    have small := writeBeats_le p.len
    have both : (Engines.axiOut t.eng i).midRdEn = (Engines.axiOut t.eng i).axi.wvalid := by
      rw [Engines.axiOut, takes, wvalid, slave, SysMem.out, data]
      exact Bool.and_true _
    have noOpen : ¬ (mem.wState = .idle ∧ (Engines.axiOut t.eng i).axi.awvalid = true) := by
      rw [data]
      simp
    rw [if_neg noOpen, if_neg noOpen]
    cases reads : (Engines.axiOut t.eng i).midRdEn with
    | false =>
      rw [if_neg (by simp [← both, reads])]
      exact ⟨before, count⟩
    | true =>
      -- the beat is not the last, so the counter moves on and does not wrap
      have more : (Engines.axiOut t.eng i).axi.wlast = false := stays reads
      have last := served.flow.axi.wlast_eq (i := Engines.axiIn t.eng i) reads
      have further : t.taken.length + 1 < writeBeats p.len := by
        have differs : ¬ t.taken.length + 1 = writeBeats p.len := by
          simpa [fromSram, Pair.axi] using last.symm.trans more
        change t.taken.length < writeBeats p.len at less
        omega
      have up : (mem.wBeat + 1).toNat = mem.wBeat.toNat + 1 := by
        rw [BitVec.toNat_add]
        exact Nat.mod_eq_of_lt (by change mem.wBeat.toNat + 1 < 256; omega)
      rw [if_pos ⟨data, by rw [← both, reads], more⟩, up, count]
      exact ⟨before, rfl⟩

theorem Writes.step (writes : Writes p ram t mem) (served : Served p t mem)
    (cycle : Cycle memWords p t mem i) (fromSram : p.toSram = false) (some : p.len ≠ 0)
    (inRange : memBase p + beats p.len ≤ memWords) (noInit : init.wrEn = false) :
    Writes p ram (t.step i) (SysMem.step memWords mem (Engines.axiOut t.eng i).axi init) := by
  obtain ⟨-, rdEn, -⟩ := served.flow.midIn_of_fromSram fromSram i
  have taken : (t.step i).taken = t.taken ++
      if (Engines.axiOut t.eng i).midRdEn then [t.eng.mid.dout] else [] := by
    rw [Transfer.step, Fifo.taken, rdEn]
  have count : (t.step i).taken.length =
      t.taken.length + (Engines.axiOut t.eng i).midRdEn.toNat := by
    rw [taken, List.length_append]
    cases (Engines.axiOut t.eng i).midRdEn <;> rfl
  refine ⟨?_, fun state => ?_⟩
  · rw [ram_step cycle served noInit, taken]
    cases reads : (Engines.axiOut t.eng i).midRdEn with
    | false =>
      rw [if_neg (by simp), if_neg (by decide), List.append_nil]
      exact writes.ram_eq
    | true =>
      have state : t.eng.axi.state = .dmWrW := by
        rw [Engines.axiOut, AxiMaster.midRdEn_eq] at reads
        simp_all
      -- the memory counts the words taken, so this one goes behind them
      obtain ⟨addr, beat⟩ := writes.beat state
      have side := served.flow.axi
      simp only [AxiMaster.AxiSide, state, fromSram, Bool.false_eq_true, if_false] at side
      have less : t.taken.length < beats p.len := by
        rw [beats_of_ne_zero some, ← writeBeats_of_ne_zero some]
        exact side.2.2.2.2
      have word : SysMem.beatWord mem.wAddr mem.wBeat = memBase p + t.taken.length := by
        rw [SysMem.beatWord_eq, addr, beat]
        rfl
      rw [word, if_pos ⟨rfl, by omega⟩, if_pos rfl, writes.ram_eq]
      exact overlayNat_snoc _
  · rw [count]
    exact writes.beat_step served cycle fromSram state

end Job

/-! ## The copy of one job -/

structure Memories (addrWidth : Nat) where
  ram : Nat → Word
  bram : BitVec addrWidth → Word

/-- `beats` words from one memory laid over the other. -/
def copyPair {addrWidth : Nat} (p : Pair) (m : Memories addrWidth) : Memories addrWidth :=
  if p.toSram then
    { ram := m.ram
      bram := overlay m.bram (Transfer.firstWord p)
        ((List.range (beats p.len)).map (Job.memWord p m.ram)) }
  else
    { ram := overlayNat m.ram (Job.memBase p)
        ((List.range (beats p.len)).map (Transfer.sourceWord p m.bram))
      bram := m.bram }

/-- Both blocks lie in their memories, and a write has a length. -/
structure Fits (memWords addrWidth : Nat) (p : Pair) : Prop where
  mem : Job.memBase p + beats p.len ≤ memWords
  bram : Transfer.firstWord p + beats p.len ≤ 2 ^ addrWidth
  some : p.toSram = false → p.len ≠ 0

namespace Job

variable {k addrWidth : Nat} {p : Pair} {t : Transfer k addrWidth} {mem : Rtl.SysMem.State}
  {i : Engines.In addrWidth} {memWords : Nat} {init : Rtl.SysMem.Init} {m : Memories addrWidth}

/-- Where a job that started on the memories `m` is. -/
def Copying (p : Pair) (m : Memories addrWidth) (t : Transfer k addrWidth)
    (mem : Rtl.SysMem.State) : Prop :=
  if p.toSram then Transfer.Written p m.bram t ∧ Reads p m.ram t mem
  else t.eng.bram.mem = m.bram ∧ Transfer.Faithful p m.bram t ∧ Writes p m.ram t mem

theorem Copying.step (copying : Copying p m t mem) (served : Served p t mem)
    (cycle : Cycle memWords p t mem i) (fits : Fits memWords addrWidth p)
    (keeps : ¬ Transfer.LosesWord p t) (init : Rtl.SysMem.Init) (noInit : init.wrEn = false) :
    Copying p m (t.step i) (SysMem.step memWords mem (Engines.axiOut t.eng i).axi init) := by
  unfold Copying at *
  cases dir : p.toSram with
  | true =>
    simp only [dir, if_true] at copying ⊢
    obtain ⟨written, reads⟩ := copying
    exact ⟨Transfer.written_step served.flow cycle.legal dir fits.bram written,
      reads.step served cycle dir fits.mem noInit⟩
  | false =>
    simp only [dir, Bool.false_eq_true, if_false] at copying ⊢
    obtain ⟨same, faithful, writes⟩ := copying
    exact ⟨(Transfer.mem_step served.flow cycle.legal dir).trans same,
      Transfer.faithful_step served.flow cycle.legal dir same faithful keeps,
      writes.step served cycle dir (fits.some dir) fits.mem noInit⟩

/-- Before a job has moved a word both memories are as it found them. -/
theorem copying_of_fresh (axi : t.eng.axi.state = .idle) (sram : t.eng.sram.state = .idle)
    (pushed : t.pushed = []) (taken : t.taken = []) (ram : mem.ram = m.ram)
    (bram : t.eng.bram.mem = m.bram) : Copying p m t mem := by
  unfold Copying
  split
  · exact ⟨by simp [Transfer.Written, bram, taken], ram, by simp [pushed], by simp [axi]⟩
  · exact ⟨bram, ⟨by simp [pushed], by simp [sram]⟩, by simp [ram, taken], by simp [axi]⟩

/-- When all words of the job have passed MID, the memories are `copyPair`. -/
theorem Copying.whole (copying : Copying p m t mem) (all : t.pushed = t.taken)
    (count : t.taken.length = beats p.len) :
    mem.ram = (copyPair p m).ram ∧ t.eng.bram.mem = (copyPair p m).bram := by
  unfold Copying at copying
  unfold copyPair
  cases dir : p.toSram with
  | true =>
    simp only [dir, if_true] at copying ⊢
    obtain ⟨written, reads⟩ := copying
    have words := reads.pushed
    rw [all, count] at words
    exact ⟨reads.ram_eq, by rw [written, words]⟩
  | false =>
    simp only [dir, Bool.false_eq_true, if_false] at copying ⊢
    obtain ⟨same, faithful, writes⟩ := copying
    have words := faithful.pushed
    rw [all, count] at words
    exact ⟨by rw [writes.ram_eq, words], same⟩

end Job

end AxiDma.Verified
