import AxiDma.Verified.MemoryCopy
import AxiDma.Verified.Replay

/-! # What a list of descriptors copies

In the closed data path both engines take their instructions together, so the AXI master
follows the read side of the SRAM controller at a distance of two words and no word waits for
room in MID: every job is exactly `copyPair`.
-/

namespace AxiDma.Verified

open AxiDma.Lib AxiDma.Rtl

/-! ## Both engines in step -/

/-- Two FIFOs with the same pointers and the same flag. -/
structure SameFlags {α β : Type} {k : Nat} (f : Fifo k α) (g : Fifo k β) : Prop where
  wrAddr : f.wrAddr = g.wrAddr
  rdAddr : f.rdAddr = g.rdAddr
  empty : f.empty = g.empty

theorem SameFlags.step {α β : Type} {k : Nat} {f : Fifo k α} {g : Fifo k β} (same : SameFlags f g)
    {i : Fifo.In α} {j : Fifo.In β} (wrEn : i.wrEn = j.wrEn) (rdEn : i.rdEn = j.rdEn) :
    SameFlags (f.step i) (g.step j) := by
  have full : f.full = g.full := by rw [Fifo.full, Fifo.full, same.wrAddr, same.rdAddr]
  have rdAddr : f.rdAddrT i = g.rdAddrT j := by
    rw [Fifo.rdAddrT, Fifo.rdAddrT, Fifo.emptyT, Fifo.emptyT, same.wrAddr, same.rdAddr, rdEn]
  refine ⟨?_, rdAddr, ?_⟩
  · change f.wrAddrT i = g.wrAddrT j
    rw [Fifo.wrAddrT, Fifo.wrAddrT, full, wrEn, same.wrAddr]
  · change (f.wrAddr == f.rdAddrT i) = (g.wrAddr == g.rdAddrT j)
    rw [same.wrAddr, rdAddr]

namespace Replay

open Pipeline (sramBusy)

variable {k addrWidth : Nat} {ds : List Desc} {r : Replay k addrWidth} {memWords : Nat}

/-- How far the master is behind the read side of the SRAM controller. -/
def Behind (s : AxiMaster.State) (mid : Fifo k Word) : Prop :=
  s.state = .dmWrAw ∧ mid.contents.length = 0 ∨
    s.state = .dmWrW ∧
      (mid.contents.length = 1 ∧ mid.empty = true ∨ mid.contents.length = 2 ∧ mid.empty = false)

/-- Both engines are idle and take their instructions in the same cycles. -/
structure Lockstep (r : Replay k addrWidth) : Prop where
  flags : SameFlags r.chain.path.dmFifoAxi r.chain.path.dmFifoSram
  idle : r.chain.path.engines.axi.state = .idle ↔ r.chain.path.engines.sram.state = .idle
  get : r.chain.path.engines.axi.state = .dmGet ↔ r.chain.path.engines.sram.state = .dmGet
  behind : r.chain.path.engines.sram.state = .reading →
    Behind r.chain.path.engines.axi r.chain.path.engines.mid

theorem axi_idle_next_iff {s : AxiMaster.State} {i : AxiMaster.In} {mem : Rtl.SysMem.State}
    (follows : Job.WriteFollows s mem) (noFetch : i.dfInEmpty = true) :
    ((AxiMaster.next s i).state = .idle ↔
      s.state = .idle ∧ i.dmInEmpty = true ∨ AxiMaster.axiDone s = true ∧ i.sramDone = true) ∧
    ((AxiMaster.next s i).state = .dmGet ↔ s.state = .idle ∧ i.dmInEmpty = false) := by
  unfold Job.WriteFollows at follows
  cases state : s.state <;> grind [AxiMaster.next_state, AxiMaster.axiDone]

theorem sram_idle_next_iff (addrWidth : Nat) {s : SramController.State} {i : SramController.In} :
    ((SramController.next addrWidth s i).state = .idle ↔
      s.state = .idle ∧ i.dmInEmpty = true ∨
        SramController.sramDone s = true ∧ i.axi4masterDone = true) ∧
    ((SramController.next addrWidth s i).state = .dmGet ↔
      s.state = .idle ∧ i.dmInEmpty = false) := by
  cases state : s.state <;> grind [SramController.next_state, SramController.sramDone]

theorem lockstep_start (ds : List Desc) (path : DataPath.State k addrWidth)
    (mem : Rtl.SysMem.State) : Lockstep (start ds path mem) where
  flags := ⟨rfl, rfl, rfl⟩
  idle := iff_of_true rfl rfl
  get := by simp [start, Chain.start, DataPath.reset, Engines.reset, AxiMaster.resetState,
    SramController.resetState]
  behind := by simp [start, Chain.start, DataPath.reset, Engines.reset, SramController.resetState]

/-- An engine that waits for its instruction has moved nothing. -/
theorem Inv.mid_of_dmGet (inv : Inv ds r) (gets : r.chain.path.engines.sram.state = .dmGet)
    {p : Pair} (current : Chain.Current r.chain p) (fromSram : p.toSram = false) :
    r.chain.path.engines.mid.contents = [] := by
  have flow := inv.chain.flow p current
  have sram := flow.sram
  rw [inv.chain.same] at sram
  simp only [SramController.SramSide, gets, fromSram, Bool.false_eq_true, if_false] at sram
  have held := congrArg List.length flow.held
  rw [sram, List.length_append, inv.chain.same] at held
  exact List.length_eq_zero_iff.mp (by omega)

/-- The read side starts together with the AW handshake of the master. -/
theorem Lockstep.behind_of_dmGet (lock : Lockstep r) (inv : Inv ds r)
    (gets : r.chain.path.engines.sram.state = .dmGet)
    (reads : (Engines.sramIn r.chain.path.engines (r.enginesIn memWords)).dmInDout.rw = false) :
    Behind (r.step memWords).chain.path.engines.axi (r.step memWords).chain.path.engines.mid := by
  have axiGets := lock.get.mpr gets
  obtain ⟨p, current⟩ := Chain.exists_current r.chain
  have sramInstr : (r.enginesIn memWords).dmInDoutSram = p.sram :=
    inv.chain.fed.sram_presented current gets
  have axiInstr : (r.enginesIn memWords).dmInDoutAxi = p.axi :=
    inv.chain.fed.axi_presented current axiGets
  have fromSram : p.toSram = false := by
    change (r.enginesIn memWords).dmInDoutSram.rw = false at reads
    rwa [sramInstr] at reads
  have nothing := inv.mid_of_dmGet gets current fromSram
  refine .inl ⟨?_, ?_⟩
  · change (AxiMaster.next r.chain.path.engines.axi
      (Engines.axiIn r.chain.path.engines (r.enginesIn memWords))).state = _
    simp [AxiMaster.next_state, axiGets, Engines.axiIn, axiInstr, Pair.axi, fromSram]
  · have ok := (inv.chain.flow p current).ok
    rw [inv.chain.same] at ok
    have next := Fifo.contents_step ok (Engines.midIn r.chain.path.engines (r.enginesIn memWords))
    have quiet : (Engines.midIn r.chain.path.engines (r.enginesIn memWords)).wrEn = false := by
      simp [Engines.midIn, Engines.axiOut, Engines.sramOut, AxiMaster.midWrEn_eq,
        SramController.midWrEn_eq, axiGets, gets]
    rw [Fifo.remaining, nothing, Fifo.accepted, quiet] at next
    exact List.length_eq_zero_iff.mpr (next.trans (by split <;> rfl))

/-- With two words in MID while the read side goes on, the beat sent is not the last. -/
theorem Inv.more_of_reading (inv : Inv ds r) (reading : r.chain.path.engines.sram.state = .reading)
    (writes : r.chain.path.engines.axi.state = .dmWrW)
    (two : r.chain.path.engines.mid.contents.length = 2) :
    r.chain.path.engines.axi.beatIdx ≠ r.chain.path.engines.axi.curLen - 1 := by
  obtain ⟨p, current⟩ := Chain.exists_current r.chain
  have flow := inv.chain.flow p current
  have axi := flow.axi
  have sram := flow.sram
  have held := congrArg List.length flow.held
  rw [inv.chain.same] at axi sram
  rw [List.length_append, inv.chain.same, two] at held
  simp only [SramController.SramSide, reading] at sram
  have fromSram : p.toSram = false := sram.1
  simp only [fromSram, Bool.false_eq_true, if_false] at sram
  simp only [AxiMaster.AxiSide, writes, fromSram, Bool.false_eq_true, if_false] at axi
  obtain ⟨-, lenEq, -, count, -⟩ := axi
  have less : r.chain.job.pushed.length < beats p.len := sram.2.2.2.1
  have small := beats_le_writeBeats p.len
  rw [Ne, eq_sub_one_iff, lenEq, count]
  change ¬ _ = writeBeats p.len
  omega

/-- The read side pushes in every cycle, and the master takes a word as soon as two are in
    MID. -/
theorem Lockstep.behind_of_reading (lock : Lockstep r) (inv : Inv ds r) (deep : 2 ≤ k)
    (reading : r.chain.path.engines.sram.state = .reading) :
    Behind (r.step memWords).chain.path.engines.axi (r.step memWords).chain.path.engines.mid := by
  have behind := lock.behind reading
  obtain ⟨p, current⟩ := Chain.exists_current r.chain
  have ok : r.chain.path.engines.mid.Ok := inv.chain.same ▸ (inv.chain.flow p current).ok
  -- at most two words are in MID, and it holds four
  have room : r.chain.path.engines.mid.full = false := by
    refine Fifo.full_eq_false_of_lt ?_
    have wide : 2 ^ 2 ≤ 2 ^ k := Nat.pow_le_pow_right (by decide) deep
    rcases behind with ⟨-, none⟩ | ⟨-, ⟨one, -⟩ | ⟨two, -⟩⟩ <;> omega
  have pushes : (Engines.midIn r.chain.path.engines (r.enginesIn memWords)).wrEn = true := by
    simp [Engines.midIn, Engines.sramOut, SramController.midWrEn_eq, reading, Engines.sramIn, room]
  -- the contents grow by the word pushed; what remains depends on the three positions below
  have length : (r.step memWords).chain.path.engines.mid.contents.length =
      (r.chain.path.engines.mid.remaining
        (Engines.midIn r.chain.path.engines (r.enginesIn memWords))).length + 1 := by
    have next := Fifo.contents_step ok (Engines.midIn r.chain.path.engines (r.enginesIn memWords))
    rw [Fifo.accepted, pushes, room] at next
    exact (congrArg List.length next).trans List.length_append
  have flag : (r.step memWords).chain.path.engines.mid.empty =
      (r.chain.path.engines.mid.remaining
        (Engines.midIn r.chain.path.engines (r.enginesIn memWords))).isEmpty := Fifo.empty_step _ _
  have takes : (Engines.midIn r.chain.path.engines (r.enginesIn memWords)).rdEn =
      (Engines.axiOut r.chain.path.engines (r.enginesIn memWords)).midRdEn := by
    simp [Engines.midIn, Engines.sramOut, SramController.midRdEn_eq, reading]
  rw [Engines.axiOut, AxiMaster.midRdEn_eq] at takes
  have axiNext : (r.step memWords).chain.path.engines.axi = AxiMaster.next
      r.chain.path.engines.axi (Engines.axiIn r.chain.path.engines (r.enginesIn memWords)) := rfl
  have follows := inv.follows
  rcases behind with ⟨state, none⟩ | ⟨state, ⟨one, empty⟩ | ⟨two, shows⟩⟩
  · -- the AW handshake, and the first word
    have noTake : (Engines.midIn r.chain.path.engines (r.enginesIn memWords)).rdEn = false := by
      rw [takes, state]
      rfl
    have ready : (Engines.axiIn r.chain.path.engines (r.enginesIn memWords)).axi.awready = true := by
      simp only [Job.WriteFollows, state] at follows
      exact beq_iff_eq.mpr follows
    rw [Fifo.remaining_of_idle noTake] at length flag
    refine .inr ⟨?_, .inl ⟨by omega, ?_⟩⟩
    · rw [axiNext]
      simp [AxiMaster.next_state, state, ready]
    · rw [flag, List.length_eq_zero_iff.mp none]
      rfl
  · -- the second word, while the flag is late
    have noTake : (Engines.midIn r.chain.path.engines (r.enginesIn memWords)).rdEn = false := by
      rw [takes]
      simp [Engines.axiIn, empty]
    rw [Fifo.remaining_of_idle noTake] at length flag
    refine .inr ⟨?_, .inr ⟨by omega, ?_⟩⟩
    · rw [axiNext]
      simp [AxiMaster.next_state, state, Engines.axiIn, empty]
    · rw [flag, List.isEmpty_eq_false_iff, ← List.length_pos_iff]
      omega
  · -- a word in, a word out; the one taken is not the last
    have ready : (Engines.axiIn r.chain.path.engines (r.enginesIn memWords)).axi.wready = true := by
      simp only [Job.WriteFollows, state] at follows
      exact beq_iff_eq.mpr follows
    have take : (Engines.midIn r.chain.path.engines (r.enginesIn memWords)).rdEn = true := by
      rw [takes, state, ready]
      simp [Engines.axiIn, shows]
    have more := inv.more_of_reading reading state two
    rw [Fifo.remaining, if_pos take] at length flag
    rw [List.length_tail] at length
    refine .inr ⟨?_, .inr ⟨by omega, ?_⟩⟩
    · rw [axiNext]
      have shows : (Engines.axiIn r.chain.path.engines (r.enginesIn memWords)).midEmpty = false :=
        shows
      simp [AxiMaster.next_state, state, shows, ready]
      exact more
    · rw [flag, List.isEmpty_eq_false_iff, ← List.length_pos_iff, List.length_tail]
      omega

theorem Lockstep.behind_step (lock : Lockstep r) (inv : Inv ds r) (deep : 2 ≤ k)
    (reads : (r.step memWords).chain.path.engines.sram.state = .reading) :
    Behind (r.step memWords).chain.path.engines.axi (r.step memWords).chain.path.engines.mid := by
  rcases SramController.reading_of_next reads with ⟨gets, instr⟩ | reading
  · exact lock.behind_of_dmGet inv gets instr
  · exact lock.behind_of_reading inv deep reading

theorem Lockstep.step (lock : Lockstep r) (inv : Inv ds r) (deep : 2 ≤ k) :
    Lockstep (r.step memWords) where
  flags := by
    refine lock.flags.step rfl ?_
    change (AxiMaster.out _ _).dmInRdEn = (SramController.out _ _ _).dmInRdEn
    rw [AxiMaster.dmInRdEn_eq, SramController.dmInRdEn_eq, Bool.eq_iff_iff, beq_iff_eq, beq_iff_eq]
    exact lock.get
  idle := by
    have axi := (axi_idle_next_iff (i := Engines.axiIn r.chain.path.engines (r.enginesIn memWords))
      inv.follows rfl).1
    have sram := (sram_idle_next_iff addrWidth (s := r.chain.path.engines.sram)
      (i := Engines.sramIn r.chain.path.engines (r.enginesIn memWords))).1
    have empty := lock.flags.empty
    -- the two conditions differ only in the FIFO and in the order of the handshake
    refine axi.trans (Iff.trans ?_ sram.symm)
    change _ ∧ r.chain.path.dmFifoAxi.empty = true ∨ _ ∧ SramController.sramDone _ = true ↔
      _ ∧ r.chain.path.dmFifoSram.empty = true ∨ _ ∧ AxiMaster.axiDone _ = true
    rw [lock.idle, empty, and_comm (a := AxiMaster.axiDone _ = true)]
  get := by
    have axi := (axi_idle_next_iff (i := Engines.axiIn r.chain.path.engines (r.enginesIn memWords))
      inv.follows rfl).2
    have sram := (sram_idle_next_iff addrWidth (s := r.chain.path.engines.sram)
      (i := Engines.sramIn r.chain.path.engines (r.enginesIn memWords))).2
    refine axi.trans (Iff.trans ?_ sram.symm)
    change _ ∧ r.chain.path.dmFifoAxi.empty = false ↔ _ ∧ r.chain.path.dmFifoSram.empty = false
    rw [lock.idle, lock.flags.empty]
  behind := lock.behind_step inv deep

/-- MID never fills up while the SRAM controller reads. -/
theorem Lockstep.keeps (lock : Lockstep r) (deep : 2 ≤ k) (p : Pair) :
    ¬ Transfer.LosesWord p { r.chain.job with eng := r.chain.path.engines } := by
  rintro ⟨reading, full, -⟩
  have wide : 2 ^ 2 ≤ 2 ^ k := Nat.pow_le_pow_right (by decide) deep
  have length := Fifo.full_iff.mp full
  change r.chain.path.engines.mid.contents.length = 2 ^ k at length
  rcases lock.behind reading with ⟨-, none⟩ | ⟨-, ⟨one, -⟩ | ⟨two, -⟩⟩ <;> omega

/-! ## The copies of a list -/

def copyAll (ds : List Desc) (m : Memories addrWidth) : Memories addrWidth :=
  ds.foldl (fun m d => copyPair (pairOf d) m) m

/-- The finished descriptors are copied, and the next one is under way. -/
def Copied (memWords : Nat) (m : Memories addrWidth) (ds : List Desc) (r : Replay k addrWidth) :
    Prop :=
  ∀ p, Chain.Current r.chain p → Fits memWords addrWidth p →
    Job.Copying p (copyAll (ds.take r.chain.finished) m) r.chain.job r.mem

variable {m : Memories addrWidth}

/-- The memories stay as they are in the cycle of a handshake. -/
theorem memories_of_done (done : r.chain.done = true) (memWords : Nat) :
    (r.step memWords).mem.ram = r.mem.ram ∧
      (r.step memWords).chain.path.engines.bram.mem = r.chain.path.engines.bram.mem := by
  obtain ⟨axiState, sramState⟩ := Chain.waits_of_done done
  constructor
  · have ram : (r.step memWords).mem.ram = _ := SysMem.ram_step rfl
    have quiet : (Engines.axiOut r.chain.path.engines (r.enginesIn memWords)).axi.wvalid = false :=
      (AxiMaster.wvalid_eq _ _).trans (by rw [axiState]; rfl)
    rw [if_neg (by simp [quiet])] at ram
    exact ram
  · have quiet : (Engines.sramOut r.chain.path.engines (r.enginesIn memWords)).wrEn = false := by
      rw [Engines.sramOut, SramController.wrEn_eq, SramController.midRdEn_eq, sramState]
      rfl
    have noWrite : (Engines.bramIn r.chain.path.engines (r.enginesIn memWords)).wrEn = false := quiet
    change (if (Engines.bramIn r.chain.path.engines (r.enginesIn memWords)).wrEn then _ else _) = _
    rw [if_neg (by simp [noWrite])]

theorem copied_start (memWords : Nat) (ds : List Desc) (path : DataPath.State k addrWidth)
    (mem : Rtl.SysMem.State) :
    Copied memWords ⟨mem.ram, path.engines.bram.mem⟩ ds (start ds path mem) :=
  fun _ _ _ => Job.copying_of_fresh rfl rfl rfl rfl rfl rfl

theorem Copied.step (copied : Copied memWords m ds r) (inv : Inv ds r) (lock : Lockstep r)
    (deep : 2 ≤ k) (fit : ∀ d ∈ ds, Fits memWords addrWidth (pairOf d)) :
    Copied memWords m ds (r.step memWords) := by
  intro p current fits
  cases done : r.chain.done with
  | false =>
    have before := Chain.current_of_step done current
    -- the descriptor in progress goes on copying, and MID has room for its words
    have keeps : ¬ Transfer.LosesWord p r.chain.job := by
      have eng : { r.chain.job with eng := r.chain.path.engines } = r.chain.job := by
        rw [← inv.chain.same]
      rw [← eng]
      exact lock.keeps deep p
    have next := (copied p before fits).step (inv.served before)
      (inv.cycle done before memWords) fits keeps
      { wrEn := false, addr := 0, wdata := 0 } rfl
    rw [finished_of_running done, job_of_running done memWords]
    rw [inv.chain.same] at next
    exact next
  | true =>
    -- the handshake: the finished copy joins the list, and the next job starts afresh
    obtain ⟨d, known, count, all, -⟩ := inv.chain.whole done
    have posted := inv.getElem?_of_sent known
    have whole := (copied _ (current_of_known known) (fit d (List.mem_of_getElem? posted))).whole all
      (by rw [pairOf_len, count])
    rw [inv.chain.same] at whole
    obtain ⟨ram, bram⟩ := memories_of_done done memWords
    obtain ⟨axi, sram⟩ := Chain.idle_of_done (i := r.inputs memWords) done
    have finished : (r.step memWords).chain.finished = r.chain.finished + 1 := by
      simp [Replay.step, Chain.step, done]
    have copies : copyAll (ds.take (r.chain.finished + 1)) m =
        copyPair (pairOf d) (copyAll (ds.take r.chain.finished) m) := by
      rw [List.take_add_one, posted, copyAll, List.foldl_append]
      rfl
    have same := (inv.step memWords).chain.same
    have fresh : (r.step memWords).chain.job.pushed = [] ∧ (r.step memWords).chain.job.taken = [] := by
      simp [Replay.step, Chain.step, done, Chain.fresh]
    rw [finished, copies]
    refine Job.copying_of_fresh ?_ ?_ fresh.1 fresh.2 (ram.trans whole.1) ?_
    · rw [same]
      exact axi
    · rw [same]
      exact sram
    · rw [same]
      exact bram.trans whole.2

/-- When the list is finished, the memories are `copyAll`. -/
theorem Copied.finished (copied : Copied memWords m ds r) (inv : Inv ds r) (some : 0 < memWords)
    (all : r.chain.finished = ds.length) :
    r.mem.ram = (copyAll ds m).ram ∧
      r.chain.path.engines.bram.mem = (copyAll ds m).bram := by
  have sent := inv.sent_prefix.length_le
  have none : r.chain.sent[r.chain.finished]? = none := List.getElem?_eq_none (by omega)
  -- no descriptor is known, so any pair that fits stands for the job in progress
  have current : Chain.Current r.chain ⟨true, 0, 0, 0⟩ := by
    intro d known
    rw [none] at known
    exact absurd known (by simp)
  have fits : Fits memWords addrWidth ⟨true, 0, 0, 0⟩ := by
    refine ⟨?_, ?_, by simp⟩
    · change 0 + 1 ≤ memWords
      omega
    · change 0 + 1 ≤ 2 ^ addrWidth
      exact Nat.one_le_two_pow
  have copying := copied _ current fits
  rw [all, List.take_length] at copying
  obtain ⟨written, reads⟩ := copying
  -- no engine has taken an instruction
  have flow := inv.chain.flow _ current
  have sram := flow.sram
  rw [inv.chain.same] at sram
  have idle : sramBusy r.chain.path.engines.sram = false := by
    have started := inv.chain.dmSramHolds.length
    rw [inv.chain.sramPairs, List.length_map, inv.chain.sramStarted] at started
    cases busy : sramBusy r.chain.path.engines.sram with
    | false => rfl
    | true =>
      rw [busy, Bool.toNat_true] at started
      omega
  have nothing : r.chain.job.taken = [] := by
    refine List.length_eq_zero_iff.mp ?_
    cases state : r.chain.path.engines.sram.state <;>
      simp_all [SramController.SramSide, sramBusy]
  refine ⟨reads.ram_eq, ?_⟩
  rw [← inv.chain.same, written, nothing]
  exact overlay_nil

end Replay

/-- The closed data path finishes a list of descriptors that fit
    their memories, and leaves the memories that `copyAll` says. -/
theorem replay_copies {k addrWidth memWords : Nat} (deep : 2 ≤ k) (some : 0 < memWords)
    {ds : List Desc} (fit : ∀ d ∈ ds, Fits memWords addrWidth (pairOf d))
    (path : DataPath.State k addrWidth) (mem : Rtl.SysMem.State) :
    ∃ n, let r := (Replay.step memWords)^[n] (Replay.start ds path mem)
      r.chain.finished = ds.length ∧
        r.mem.ram = (Replay.copyAll ds ⟨mem.ram, path.engines.bram.mem⟩).ram ∧
        r.chain.path.engines.bram.mem =
          (Replay.copyAll ds ⟨mem.ram, path.engines.bram.mem⟩).bram := by
  have none : ∀ d ∈ ds, ¬ Replay.Stops d := by
    rintro d member ⟨dir, zero⟩
    exact (fit d member).some (by rw [pairOf_toSram, dir]) (by rw [pairOf_len, zero])
  obtain ⟨n, all⟩ := (replay_finishes_iff memWords ds path mem).mpr none
  have inv := iterate_invariant (P := fun r => Replay.Inv ds r ∧ Replay.Lockstep r ∧
      Replay.Copied memWords ⟨mem.ram, path.engines.bram.mem⟩ ds r)
    (fun r inv => ⟨inv.1.step memWords, inv.2.1.step inv.1 deep,
      inv.2.2.step inv.1 inv.2.1 deep fit⟩)
    ⟨Replay.inv_start ds path mem, Replay.lockstep_start ds path mem,
      Replay.copied_start memWords ds path mem⟩ n
  exact ⟨n, all, inv.2.2.finished inv.1 some all⟩

end AxiDma.Verified
