import AxiDma.Verified.BoardMemory
import AxiDma.Verified.Chain

/-! # Who owns the memories

INIT_DONE hands both memories to the DMA.  In the code it selects the BRAM's port and
nothing else: a MEM_WR pulse reaches the system memory whatever INIT_DONE is, and a word
that the SRAM controller writes with INIT_DONE at 0 is dropped and counted as moved.
`Handed` gives two rules for software under which the hand-over holds.
-/

namespace AxiDma.Verified

open AxiDma.Lib AxiDma.Rtl

section Cycle

variable {k addrWidth : Nat} (memWords : Nat) (b : VivadoConfig.State k addrWidth)
  (i : VivadoConfig.In)

def sramOutOf : SramController.Out addrWidth :=
  MovementTop.sramOut b.dma (VivadoConfig.dmaIn memWords b i)

/-- The BRAM after the DMA's write of the cycle, if there is one. -/
def bramByDma : BitVec addrWidth → Word :=
  if (sramOutOf memWords b i).wrEn then
    Function.update b.dma.engines.bram.mem (sramOutOf memWords b i).writeAddr
      (sramOutOf memWords b i).din
  else b.dma.engines.bram.mem

/-- The system memory after the DMA's W beat of the cycle, if there is one. -/
def ramByDma : Nat → Word := SysMem.afterBeat memWords b.sysMem (VivadoConfig.axiSys memWords b i)

/-- With INIT_DONE at 1, a cycle does to both memories what the DMA does. -/
def Exclusive : Prop :=
  b.memInit.initDone = true →
    (VivadoConfig.step memWords b i).dma.engines.bram.mem = bramByDma memWords b i ∧
      (VivadoConfig.step memWords b i).sysMem.ram = ramByDma memWords b i

/-- A MEM_WR pulse with INIT_DONE at 1 finds its value in place. -/
def NoStray : Prop :=
  b.memInit.initDone = true → MemAccessCtrl.memWrPulse b.memInit = true →
    ramByDma memWords b i (SysMem.initWord memWords b.memInit.initAddr) = b.memInit.initData

instance : Decidable (NoStray memWords b i) := inferInstanceAs (Decidable (_ → _ → _))

end Cycle

section Handed

variable {k addrWidth memWords : Nat}

/-- The rules for software: a write to MEM_WR with bit 0 set commits only while INIT_DONE is 0,
    and INIT_DONE stays 1 while the SRAM controller executes a DIR=1 instruction. -/
structure Handed (b : VivadoConfig.State k addrWidth) : Prop where
  noMemWr : MemAccessCtrl.commits b.memInit = true →
    MemAccessCtrl.wrAddrLsb b.memInit = MemAccessCtrl.regMemWr →
      b.memInit.wdData.getLsbD 0 = true → b.memInit.initDone = false
  owner : b.dma.engines.sram.state = .writing → b.memInit.initDone = true

instance (b : VivadoConfig.State k addrWidth) : Decidable (Handed b) :=
  decidable_of_iff (_ ∧ _)
    ⟨fun ⟨noMemWr, owner⟩ => ⟨noMemWr, owner⟩, fun handed => ⟨handed.noMemWr, handed.owner⟩⟩

variable {b : VivadoConfig.State k addrWidth} {i : VivadoConfig.In}

theorem bram_of_initDone (initDone : b.memInit.initDone = true) :
    (VivadoConfig.step memWords b i).dma.engines.bram.mem = bramByDma memWords b i := by
  have mux : Engines.bramIn b.dma.engines
      (MovementTop.enginesIn b.dma (VivadoConfig.dmaIn memWords b i)) =
        { rdAddr := (sramOutOf memWords b i).readAddr, wrAddr := (sramOutOf memWords b i).writeAddr
          wrEn := (sramOutOf memWords b i).wrEn, din := (sramOutOf memWords b i).din } := by
    simp [Engines.bramIn, MovementTop.enginesIn, VivadoConfig.dmaIn, VivadoConfig.bramInit, initDone,
      sramOutOf, MovementTop.sramOut]
  change (Bram.step b.dma.engines.bram (Engines.bramIn b.dma.engines _)).mem = _
  rw [mux]
  rfl

/-- The mux keeps SRAM_WR out, and nothing keeps MEM_WR out. -/
theorem exclusive_iff : Exclusive memWords b i ↔ NoStray memWords b i := by
  have ram : (VivadoConfig.step memWords b i).sysMem.ram =
      if MemAccessCtrl.memWrPulse b.memInit then
        Function.update (ramByDma memWords b i) (SysMem.initWord memWords b.memInit.initAddr)
          b.memInit.initData
      else ramByDma memWords b i := SysMem.ram_step_init
  constructor
  · intro exclusive initDone pulse
    obtain ⟨-, same⟩ := exclusive initDone
    rw [ram, if_pos pulse, Function.update_eq_self_iff] at same
    exact same.symm
  · intro noStray initDone
    refine ⟨bram_of_initDone initDone, ?_⟩
    rw [ram]
    split
    · rename_i pulse
      rw [Function.update_eq_self_iff]
      exact (noStray initDone pulse).symm
    · rfl

theorem Handed.exclusive (handed : Handed b) (i : VivadoConfig.In) :
    Exclusive memWords b i := by
  rw [exclusive_iff]
  intro initDone pulse
  simp only [MemAccessCtrl.memWrPulse, MemAccessCtrl.pulse, Bool.and_eq_true,
    beq_iff_eq] at pulse
  have clear := handed.noMemWr pulse.1.1 pulse.1.2 pulse.2
  exact absurd (initDone.symm.trans clear) (by decide)

/-- The SRAM controller writes only for a DIR=1 instruction. -/
theorem Handed.initDone_of_wrEn (handed : Handed b)
    (writes : (sramOutOf memWords b i).wrEn = true) : b.memInit.initDone = true := by
  rw [sramOutOf, MovementTop.sramOut, Engines.sramOut, SramController.wrEn_eq,
    SramController.midRdEn_eq, Bool.and_eq_true, beq_iff_eq] at writes
  exact handed.owner writes.1

end Handed

/-! ## The words of each descriptor -/

/-- The board with the log of its data path. -/
structure Owned (k addrWidth : Nat) where
  board : VivadoConfig.State k addrWidth
  chain : Chain k addrWidth
  /-- What the SRAM controller has written to the BRAM since the last handshake. -/
  landed : List (BitVec addrWidth × Word)
  /-- The R beats and the BRAM writes of each finished descriptor. -/
  jobs : List (List Word × List (BitVec addrWidth × Word))

namespace Owned

variable {k addrWidth memWords : Nat}

def start (b : VivadoConfig.State k addrWidth) : Owned k addrWidth :=
  { board := VivadoConfig.reset b, chain := Chain.start (DataPath.ofMovementTop b.dma), landed := [],
    jobs := [] }

def pathIn (memWords : Nat) (o : Owned k addrWidth) (i : VivadoConfig.In) : DataPath.In addrWidth :=
  DataPath.inOfMovementTop o.board.dma (VivadoConfig.dmaIn memWords o.board i)

/-- The DMA's write passes the mux. -/
def landing (memWords : Nat) (o : Owned k addrWidth) (i : VivadoConfig.In) :
    List (BitVec addrWidth × Word) :=
  let out := sramOutOf memWords o.board i
  if out.wrEn && o.board.memInit.initDone then [(out.writeAddr, out.din)] else []

def step (memWords : Nat) (o : Owned k addrWidth) (i : VivadoConfig.In) : Owned k addrWidth :=
  { board := VivadoConfig.step memWords o.board i
    chain := o.chain.step (pathIn memWords o i)
    landed := (if o.chain.done then [] else o.landed) ++ landing memWords o i
    jobs := o.jobs ++ if o.chain.done then [(o.chain.job.rBeats, o.landed)] else [] }

/-- The BRAM writes that lay `ws` from word `a` on. -/
def laid (a : Nat) (ws : List Word) : List (BitVec addrWidth × Word) :=
  ws.mapIdx fun j w => (BitVec.ofNat addrWidth (a + j), w)

/-- Each word of each DIR=1 descriptor that `dm_done` has reported is in the BRAM. -/
def Landed (o : Owned k addrWidth) : Prop :=
  ∀ n d, n < o.chain.pulses + o.board.dma.dmDone.toNat → o.chain.sent[n]? = some d → d.dir = true →
    ∃ words, words.length = beats d.lenBeats ∧
      o.jobs[n]? = some (words, laid (d.w1 >>> 2).toNat words)

/-! ## The invariant -/

structure Inv (o : Owned k addrWidth) : Prop where
  path : o.chain.path = DataPath.ofMovementTop o.board.dma
  chain : Chain.Inv o.chain
  owes : SysMem.ReadOwes o.board.sysMem o.chain.job.rLeft
  /-- What has landed since the last handshake is what was taken from MID. -/
  landed : ∀ p, Chain.Current o.chain p → p.toSram = true →
    o.landed = laid (Transfer.firstWord p) o.chain.job.taken
  count : o.jobs.length = o.chain.finished
  known : o.chain.finished ≤ o.chain.sent.length
  jobs : ∀ n d, n < o.chain.finished → o.chain.sent[n]? = some d → d.dir = true →
    ∃ words, words.length = beats d.lenBeats ∧
      o.jobs[n]? = some (words, laid (d.w1 >>> 2).toNat words)

variable {o : Owned k addrWidth} {i : VivadoConfig.In}

theorem laid_snoc (a : Nat) (ws : List Word) (w : Word) :
    (laid a (ws ++ [w]) : List (BitVec addrWidth × Word)) =
      laid a ws ++ [(BitVec.ofNat addrWidth (a + ws.length), w)] := by
  simp [laid, List.mapIdx_append]

theorem toSram_pairOf {d : Desc} (dir : d.dir = true) : (pairOf d).toSram = true := by
  rw [pairOf, if_pos dir]

theorem firstWord_pairOf {d : Desc} (dir : d.dir = true) :
    Transfer.firstWord (pairOf d) = (d.w1 >>> 2).toNat := by
  rw [pairOf, if_pos dir, Transfer.firstWord]

theorem Inv.path_step (inv : Inv o) :
    (step memWords o i).chain.path = DataPath.ofMovementTop (step memWords o i).board.dma := by
  change DataPath.step o.chain.path _ = _
  rw [inv.path]
  rfl

theorem Inv.sramOut_eq (inv : Inv o) :
    sramOutOf memWords o.board i =
      Engines.sramOut o.chain.job.eng (DataPath.enginesIn o.chain.path (pathIn memWords o i)) := by
  rw [inv.chain.same, inv.path]
  rfl

/-- What the engines drive is what the system memory serves. -/
theorem Inv.axi_eq (inv : Inv o) :
    VivadoConfig.axiSys memWords o.board i = (Engines.axiOut o.chain.job.eng
      (DataPath.enginesIn o.chain.path (pathIn memWords o i))).axi := by
  rw [inv.chain.same, inv.path]
  rfl

theorem Inv.legal (inv : Inv o) : Chain.Legal o.chain (pathIn memWords o i) :=
  SysMem.slaveLegal_out inv.owes

theorem Inv.owes_step (inv : Inv o) :
    SysMem.ReadOwes (step memWords o i).board.sysMem (step memWords o i).chain.job.rLeft := by
  change SysMem.ReadOwes _ (o.chain.step (pathIn memWords o i)).job.rLeft
  rw [Chain.rLeft_step]
  change SysMem.ReadOwes _ (rLeftNext o.chain.job.rLeft (Engines.axiOut o.chain.job.eng
    (DataPath.enginesIn o.chain.path (pathIn memWords o i))).axi _)
  rw [← inv.axi_eq]
  exact SysMem.readOwes_step memWords _ _ inv.owes

/-- Nothing is written in the cycle of a handshake. -/
theorem no_write_of_done (inv : Inv o) (done : o.chain.done = true) :
    (sramOutOf memWords o.board i).wrEn = false := by
  obtain ⟨-, waits⟩ := Chain.waits_of_done done
  rw [inv.sramOut_eq, inv.chain.same, Engines.sramOut, SramController.wrEn_eq,
    SramController.midRdEn_eq, waits]
  rfl

theorem Inv.landed_step (inv : Inv o) (handed : Handed o.board) {p : Pair}
    (current : Chain.Current (step memWords o i).chain p) (toSram : p.toSram = true) :
    (step memWords o i).landed =
      laid (Transfer.firstWord p) (step memWords o i).chain.job.taken := by
  cases done : o.chain.done with
  | true =>
    have none : landing memWords o i = [] := by
      rw [landing, no_write_of_done inv done]
      rfl
    simp [step, Chain.step, done, none, Chain.fresh, laid]
  | false =>
    have before := Chain.current_of_step done current
    have flow := inv.chain.flow p before
    have taken : (step memWords o i).chain.job.taken =
        (o.chain.job.step (DataPath.enginesIn o.chain.path (pathIn memWords o i))).taken := by
      simp [step, Chain.step, done]
    have landed : (step memWords o i).landed = o.landed ++ landing memWords o i := by
      simp [step, done]
    rw [taken, landed, Transfer.taken_step_of_toSram flow toSram, inv.landed p before toSram,
      landing]
    have reads : (sramOutOf memWords o.board i).wrEn = (Engines.sramOut o.chain.job.eng
        (DataPath.enginesIn o.chain.path (pathIn memWords o i))).midRdEn := by
      rw [inv.sramOut_eq]
      exact SramController.wrEn_eq _ _
    cases writes : (sramOutOf memWords o.board i).wrEn with
    | false =>
      rw [← reads, writes]
      simp
    | true =>
      rw [writes] at reads
      obtain ⟨place, word, -⟩ := flow.writes toSram _ reads.symm
      rw [← inv.sramOut_eq] at place word
      rw [← reads, handed.initDone_of_wrEn writes, place, word, if_pos rfl, laid_snoc]
      rfl

/-- At a handshake the writes of the descriptor are complete. -/
theorem Inv.job_of_done (inv : Inv o) (done : o.chain.done = true) {d : Desc}
    (sent : o.chain.sent[o.chain.finished]? = some d) (dir : d.dir = true) :
    o.chain.job.rBeats.length = beats d.lenBeats ∧
      o.landed = laid (d.w1 >>> 2).toNat o.chain.job.rBeats := by
  have current : Chain.Current o.chain (pairOf d) := by
    intro e known
    rw [Option.some.inj (sent.symm.trans known)]
  have flow := inv.chain.flow _ current
  have toSram := toSram_pairOf dir
  obtain ⟨-, count, words⟩ := flow.done_of_toSram toSram (inv.chain.same ▸ done)
  rw [pairOf_len] at count
  rw [words, inv.landed _ current toSram, firstWord_pairOf dir]
  exact ⟨count, rfl⟩

theorem Inv.jobs_step (inv : Inv o) (n : Nat) (d : Desc)
    (finished : n < (step memWords o i).chain.finished)
    (sent : (step memWords o i).chain.sent[n]? = some d) (dir : d.dir = true) :
    ∃ words, words.length = beats d.lenBeats ∧
      (step memWords o i).jobs[n]? = some (words, laid (d.w1 >>> 2).toNat words) := by
  have count := inv.count
  have known : n < o.chain.sent.length → o.chain.sent[n]? = some d := by
    intro bound
    rw [← sent]
    exact (List.getElem?_append_left bound).symm
  by_cases old : n < o.chain.finished
  · obtain ⟨words, length, job⟩ := inv.jobs n d old (known (Nat.lt_of_lt_of_le old inv.known)) dir
    refine ⟨words, length, ?_⟩
    rw [← job]
    exact List.getElem?_append_left (by omega)
  · have now : (step memWords o i).chain.finished = o.chain.finished + o.chain.done.toNat := rfl
    cases done : o.chain.done with
    | false =>
      rw [done, Bool.toNat_false] at now
      omega
    | true =>
      rw [done, Bool.toNat_true] at now
      obtain rfl : n = o.chain.finished := by omega
      obtain ⟨e, here, -⟩ := inv.chain.whole done
      obtain ⟨bound, -⟩ := List.getElem?_eq_some_iff.mp here
      obtain ⟨length, landed⟩ := inv.job_of_done done (known bound) dir
      refine ⟨o.chain.job.rBeats, length, ?_⟩
      rw [← landed, step, done]
      simp [← count]

theorem Inv.step (inv : Inv o) (handed : Handed o.board) : Inv (step memWords o i) where
  path := inv.path_step
  chain := inv.chain.step inv.legal
  owes := inv.owes_step
  landed := fun _ current toSram => inv.landed_step handed current toSram
  count := by
    have now : (Owned.step memWords o i).chain.finished = o.chain.finished + o.chain.done.toNat := rfl
    rw [now, ← inv.count, Owned.step]
    cases o.chain.done <;> simp
  known := by
    have now : (Owned.step memWords o i).chain.finished = o.chain.finished + o.chain.done.toNat := rfl
    have grows : o.chain.sent.length ≤ (Owned.step memWords o i).chain.sent.length := by
      change _ ≤ (o.chain.sent ++ _).length
      rw [List.length_append]
      exact Nat.le_add_right _ _
    rw [now]
    cases done : o.chain.done with
    | false => exact inv.known.trans grows
    | true =>
      obtain ⟨d, here, -⟩ := inv.chain.whole done
      obtain ⟨bound, -⟩ := List.getElem?_eq_some_iff.mp here
      exact Nat.lt_of_lt_of_le bound grows
  jobs := inv.jobs_step

theorem inv_start (b : VivadoConfig.State k addrWidth) : Inv (start b) where
  path := rfl
  chain := Chain.inv_start _
  owes := rfl
  landed := fun _ _ _ => rfl
  count := rfl
  known := Nat.le_refl _
  jobs := fun _ _ finished => absurd finished (Nat.not_lt_zero _)

theorem Inv.landed_reported (inv : Inv o) : Landed o := by
  intro n d reported sent dir
  have pulsed := inv.chain.pulsed
  rw [inv.path] at pulsed
  have reported : n < o.chain.finished := by
    rw [← pulsed]
    exact reported
  exact inv.jobs n d reported sent dir

end Owned

/-- INIT_DONE hands the memories over in every run in which no write to MEM_WR commits while
    INIT_DONE is 1, and INIT_DONE is 1 while a DIR=1 instruction is in the SRAM controller:
    every cycle with INIT_DONE at 1 is the DMA's alone, and every word of every DIR=1
    descriptor that `dm_done` has reported is in the BRAM. -/
theorem owned_of_handed {k addrWidth memWords : Nat} (b : VivadoConfig.State k addrWidth)
    {is : List VivadoConfig.In}
    (runs : LegalRun (Owned.step memWords) (fun o _ => Handed o.board) (Owned.start b) is) :
    LegalRun (Owned.step memWords) (fun o i => Exclusive memWords o.board i) (Owned.start b) is ∧
      (run (Owned.step memWords) (Owned.start b) is).Landed := by
  have inv := runs.invariant (P := Owned.Inv) (fun _ _ inv handed => inv.step handed)
    (Owned.inv_start b)
  exact ⟨runs.mono fun _ i handed => handed.exclusive i, inv.landed_reported⟩

/-! ## Runs on a small board -/

/-- A cycle of the init port alone. -/
def initCycle (bus : AxiLiteMaster) : VivadoConfig.In := { bus, rmDfAddr := 0, rmDfValid := false }

def initWrite (reg : BitVec 8) (data : Word) : List VivadoConfig.In :=
  [initCycle { Csr.busIdle with awaddr := reg.setWidth 32, awvalid := true, wdata := data,
                                wstrb := 15, wvalid := true },
   initCycle Csr.busIdle, initCycle { Csr.busIdle with bready := true }]

/-- A fetch of the descriptor at byte address 16, and time for it. -/
def fetchAndWait : List VivadoConfig.In :=
  { initCycle Csr.busIdle with rmDfAddr := 16, rmDfValid := true } ::
    List.replicate 30 (initCycle Csr.busIdle)

/-- The word 7 at address 0 and at word 4 the descriptor that moves it to the SRAM. -/
def oneToSram : Nat → Word
  | 0 => 7
  | 6 => 1
  | 7 => 1
  | _ => 0

/-- Word 0 is loaded, the memories are handed over, an SRAM_WR comes too late, and the word is
    moved. -/
theorem owned_of_handed_one :
    let is := initWrite MemAccessCtrl.regInitData 9 ++ initWrite MemAccessCtrl.regMemWr 1 ++
      initWrite MemAccessCtrl.regInitDone 1 ++ initWrite MemAccessCtrl.regSramWr 1 ++ fetchAndWait
    let o := run (Owned.step 8) (Owned.start (boardOf oneToSram)) is
    (LegalRun (Owned.step 8) (fun o i => Exclusive 8 o.board i) (Owned.start (boardOf oneToSram)) is ∧
      o.Landed) ∧ o.chain.finished = 1 ∧ o.jobs = [([9], [(0, 9)])] :=
  ⟨owned_of_handed (boardOf oneToSram) (by decide +kernel), by decide +kernel⟩

/-- With INIT_DONE at 1 MEM_WR overwrites word 0; with INIT_DONE at 0 the word of the
    descriptor that `dm_done` reports never reaches the BRAM. -/
theorem stray_and_swallowed :
    let stray := run (Owned.step 8) (Owned.start (boardOf oneToSram))
      (initWrite MemAccessCtrl.regInitDone 1 ++ initWrite MemAccessCtrl.regInitData 5 ++
        (initWrite MemAccessCtrl.regMemWr 1).take 1)
    let swallowed := run (Owned.step 8) (Owned.start (boardOf oneToSram)) fetchAndWait
    (¬ Exclusive 8 stray.board (initCycle Csr.busIdle) ∧ stray.board.sysMem.ram 0 = 7 ∧
      (VivadoConfig.step 8 stray.board (initCycle Csr.busIdle)).sysMem.ram 0 = 5) ∧
    ¬ Owned.Landed swallowed ∧ swallowed.jobs = [([7], [])] := by
  intro stray swallowed
  have jobs : swallowed.jobs = [([7], [])] := by decide
  refine ⟨⟨?_, by decide, by decide⟩, ?_, jobs⟩
  · rw [exclusive_iff]
    decide
  · intro landed
    obtain ⟨words, length, job⟩ := landed 0 ⟨0, 0, 1, 1⟩ (by decide) (by decide) (by decide)
    rw [jobs] at job
    obtain ⟨rfl, missing⟩ : [7] = words ∧ [] = Owned.laid 0 words := by simpa using job
    exact absurd missing (by decide)

end AxiDma.Verified
