import AxiDma.Verified.BoardMemory
import AxiDma.Verified.CsrTraffic

/-! # Any master on the init port

The firmware waits for every response; another master need not.  Whatever it does on the five
channels, the memories are the fold of the writes in the order of their acceptance, each with
its strobe, and a read shows the registers of its AR handshake.  It rests on the distance
between two commits: a response stands between them, so the read ports have settled when the
next one strobes (`InitTraffic.Inv.settled`).
-/

namespace AxiDma.Verified

open AxiDma.Lib AxiDma.Rtl

/-! ## The write channels -/

/-- What passed on AW and W, what committed, and how many responses were taken. -/
structure WriteLog where
  aws : List Word
  ws : List (Word × BitVec 4)
  commits : List Csr.Write
  answered : Nat
  deriving DecidableEq

namespace WriteLog

def empty : WriteLog := { aws := [], ws := [], commits := [], answered := 0 }

def step (l : WriteLog) (p : WritePort) (bus : AxiLiteMaster) : WriteLog :=
  { aws := l.aws ++ if p.awHs bus then [bus.awaddr] else []
    ws := l.ws ++ if p.wHs bus then [(bus.wdata, bus.wstrb)] else []
    commits := l.commits ++ if p.commits then [(p.awaddr, p.wdata, p.wstrb)] else []
    answered := l.answered + (p.bvalid && bus.bready).toNat }

/-- The `n`-th address and the `n`-th data are those of the `n`-th commit, or captured; every
    commit but one that waits is answered, and nothing commits while it waits. -/
structure Accounts (l : WriteLog) (p : WritePort) : Prop where
  aws : l.aws = l.commits.map Prod.fst ++ if p.awPending then [p.awaddr] else []
  ws : l.ws = l.commits.map Prod.snd ++ if p.wPending then [(p.wdata, p.wstrb)] else []
  answers : l.commits.length = l.answered + p.bvalid.toNat
  clear : p.Clear

variable {l : WriteLog} {p : WritePort} {bus : AxiLiteMaster}

theorem accounts_empty (clean : p.Clean) : empty.Accounts p := by
  obtain ⟨aw, w, b⟩ := clean
  constructor <;> simp [empty, WritePort.Clear, aw, w, b]

theorem Accounts.aws_next (accounts : l.Accounts p) :
    (l.step p bus).aws = (l.step p bus).commits.map Prod.fst ++
      if (p.next bus).awPending then [(p.next bus).awaddr] else [] := by
  simp only [step, WritePort.next, List.map_append, accounts.aws]
  by_cases committing : p.commits = true
  · -- the captured address leaves, and the place is not free yet
    have captured : p.awPending = true := by
      simp only [WritePort.commits, Bool.and_eq_true] at committing
      exact committing.1.2
    simp [WritePort.awHs, captured, committing]
  · by_cases captured : p.awPending = true
    · simp [WritePort.awHs, captured, committing]
    · by_cases hs : p.awHs bus = true <;> simp [captured, committing, hs]

theorem Accounts.ws_next (accounts : l.Accounts p) :
    (l.step p bus).ws = (l.step p bus).commits.map Prod.snd ++
      if (p.next bus).wPending then [((p.next bus).wdata, (p.next bus).wstrb)] else [] := by
  simp only [step, WritePort.next, List.map_append, accounts.ws]
  by_cases committing : p.commits = true
  · have captured : p.wPending = true := by
      simp only [WritePort.commits, Bool.and_eq_true] at committing
      exact committing.2
    simp [WritePort.wHs, captured, committing]
  · by_cases captured : p.wPending = true
    · simp [WritePort.wHs, captured, committing]
    · by_cases hs : p.wHs bus = true <;> simp [captured, committing, hs]

theorem Accounts.answers_next (accounts : l.Accounts p) :
    (l.step p bus).commits.length = (l.step p bus).answered + (p.next bus).bvalid.toNat := by
  simp only [step, WritePort.next, List.length_append, accounts.answers]
  cases committing : p.commits with
  | true =>
    have free : p.bvalid = false := by
      simp only [WritePort.commits, Bool.and_eq_true, Bool.not_eq_true'] at committing
      exact committing.1.1
    simp [free]
  | false => cases p.bvalid <;> cases bus.bready <;> simp

/-- One cycle of the port. -/
theorem Accounts.next (accounts : l.Accounts p) : (l.step p bus).Accounts (p.next bus) where
  aws := accounts.aws_next
  ws := accounts.ws_next
  answers := accounts.answers_next
  clear := accounts.clear.next

end WriteLog

/-! ## A strobed write of the shim -/

namespace Shim

/-- INIT_ADDR and INIT_DATA take the bytes that are strobed; the other registers are bits. -/
def take (depth : Memory → Nat) (s : Shim) : Csr.Write → Shim
  | (addr, data, wstrb) =>
    let reg : BitVec 8 := addr.setWidth 8
    s.write depth reg
      (if reg = MemAccessCtrl.regInitAddr then Csr.merge s.initAddr data wstrb
      else if reg = MemAccessCtrl.regInitData then Csr.merge s.initData data wstrb
      else data)

end Shim

section Board

variable {k addrWidth log : Nat} {b : VivadoConfig.State k addrWidth} {i : VivadoConfig.In}

/-- The write that the controller has captured. -/
def captured (s : MemAccessCtrl.State) : Csr.Write := (s.awAddr, s.wdData, s.wdStrb)

theorem take_captured (depth : Memory → Nat) (s : Shim) (c : MemAccessCtrl.State) :
    s.take depth (captured c) = s.write depth (MemAccessCtrl.wrAddrLsb c)
      (if MemAccessCtrl.wrAddrLsb c = MemAccessCtrl.regInitAddr then
        Csr.merge s.initAddr c.wdData c.wdStrb
      else if MemAccessCtrl.wrAddrLsb c = MemAccessCtrl.regInitData then
        Csr.merge s.initData c.wdData c.wdStrb
      else c.wdData) := rfl

/-- A commit is one write of the shim, and no other cycle changes it. -/
theorem shimOf_commit (quiet : Undisturbed (2 ^ log) b i)
    (settled : MemAccessCtrl.commits b.memInit = true → Settled (2 ^ log) b) :
    shimOf (2 ^ log) (VivadoConfig.step (2 ^ log) b i) =
      if MemAccessCtrl.commits b.memInit then
        (shimOf (2 ^ log) b).take (depths addrWidth (2 ^ log)) (captured b.memInit)
      else shimOf (2 ^ log) b := by
  have fields : shimOf (2 ^ log) (VivadoConfig.step (2 ^ log) b i) =
      { initAddr := (MemAccessCtrl.step b.memInit (VivadoConfig.memInitIn b i)).initAddr
        initData := (MemAccessCtrl.step b.memInit (VivadoConfig.memInitIn b i)).initData
        rdata := (MemAccessCtrl.step b.memInit (VivadoConfig.memInitIn b i)).regRdata
        mem := contents (2 ^ log) (VivadoConfig.step (2 ^ log) b i) } := rfl
  rw [fields, MemAccessCtrl.initAddr_step, MemAccessCtrl.initData_step, MemAccessCtrl.regRdata_step,
    contents_step quiet]
  simp only [MemAccessCtrl.sramRdPulse, MemAccessCtrl.memRdPulse, MemAccessCtrl.sramWrPulse,
    MemAccessCtrl.memWrPulse, MemAccessCtrl.pulse]
  by_cases commits : MemAccessCtrl.commits b.memInit = true
  · have sram : b.dma.engines.bram.dout = _ := settled commits .sram
    have sysmem : SysMem.initRdata b.sysMem = _ := settled commits .sysmem
    simp only [commits, Bool.true_and, Bool.and_eq_true, beq_iff_eq, VivadoConfig.memInitIn, sram, sysmem,
      if_true, take_captured, Shim.write, Shim.strobeWrite, Shim.strobeRead, Csr.applyWstrb_eq_merge]
    -- one arm for each register
    generalize MemAccessCtrl.wrAddrLsb b.memInit = reg
    by_cases initAddr : reg = MemAccessCtrl.regInitAddr
    · subst initAddr; rfl
    by_cases initData : reg = MemAccessCtrl.regInitData
    · subst initData; rfl
    -- the strobes take bit 0 of the data as it is
    simp only [if_neg initAddr, if_neg initData]
    by_cases sramWr : reg = MemAccessCtrl.regSramWr
    · subst sramWr
      cases b.memInit.wdData.getLsbD 0 <;> rfl
    by_cases sramRd : reg = MemAccessCtrl.regSramRd
    · subst sramRd
      cases b.memInit.wdData.getLsbD 0 <;> rfl
    by_cases memWr : reg = MemAccessCtrl.regMemWr
    · subst memWr
      cases b.memInit.wdData.getLsbD 0 <;> rfl
    by_cases memRd : reg = MemAccessCtrl.regMemRd
    · subst memRd
      cases b.memInit.wdData.getLsbD 0 <;> rfl
    simp only [sramWr, sramRd, memWr, memRd, false_and, if_false]
    rfl
  · simp only [commits, Bool.false_and, if_false, Bool.false_eq_true]
    rfl

end Board

/-! ## The logs -/

/-- The board with what passed on the five channels of its init port. -/
structure InitTraffic (k addrWidth : Nat) where
  board : VivadoConfig.State k addrWidth
  log : WriteLog
  /-- The register words at the AR handshakes. -/
  words : List Word
  /-- The data taken on R. -/
  rs : List Word

namespace InitTraffic

variable {k addrWidth log : Nat} {b : VivadoConfig.State k addrWidth} {t : InitTraffic k addrWidth}
  {i : VivadoConfig.In}

def start (b : VivadoConfig.State k addrWidth) : InitTraffic k addrWidth :=
  { board := VivadoConfig.reset b, log := .empty, words := [], rs := [] }

def port (t : InitTraffic k addrWidth) : WritePort := MemAccessCtrl.writePort t.board.memInit

def shim (memWords : Nat) (t : InitTraffic k addrWidth) : Shim := shimOf memWords t.board

def arHs (t : InitTraffic k addrWidth) (i : VivadoConfig.In) : Bool :=
  i.bus.arvalid && !t.board.memInit.rvalid

def step (memWords : Nat) (t : InitTraffic k addrWidth) (i : VivadoConfig.In) : InitTraffic k addrWidth :=
  { board := VivadoConfig.step memWords t.board i
    log := t.log.step t.port i.bus
    words := t.words ++ if t.arHs i then [(t.shim memWords).read (i.bus.araddr.setWidth 8)] else []
    rs := t.rs ++ if t.board.memInit.rvalid && i.bus.rready then [t.board.memInit.rdata] else [] }

/-- MicroBlaze has the memories; the five channels are free. -/
def Legal (memWords : Nat) (t : InitTraffic k addrWidth) (i : VivadoConfig.In) : Prop :=
  Undisturbed memWords t.board i

instance (memWords : Nat) (t : InitTraffic k addrWidth) (i : VivadoConfig.In) :
    Decidable (Legal memWords t i) := inferInstanceAs (Decidable (Undisturbed memWords t.board i))

/-- What the board has to do with the logs, from the memories it started with. -/
structure Accounted (b : VivadoConfig.State k addrWidth) (memWords : Nat) (t : InitTraffic k addrWidth) : Prop where
  writes : t.log.Accounts t.port
  /-- The address, data and readback registers and both memories. -/
  shim : t.shim memWords =
    t.log.commits.foldl (Shim.take (depths addrWidth memWords)) (shimOf memWords (VivadoConfig.reset b))
  /-- The words of the reads are taken in order; the one that waits is on R. -/
  reads : t.words = t.rs ++ if t.board.memInit.rvalid then [t.board.memInit.rdata] else []

structure Inv (b : VivadoConfig.State k addrWidth) (memWords : Nat) (t : InitTraffic k addrWidth) : Prop where
  accounted : Accounted b memWords t
  settled : MemAccessCtrl.commits t.board.memInit = true → Settled memWords t.board

theorem inv_start (b : VivadoConfig.State k addrWidth) (memWords : Nat) : Inv b memWords (start b) where
  accounted :=
    { writes := WriteLog.accounts_empty ⟨rfl, rfl, rfl⟩
      shim := rfl
      reads := rfl }
  settled := by
    intro commits
    exact absurd commits Bool.false_ne_true

/-! ## One cycle -/

theorem port_step (memWords : Nat) : (step memWords t i).port = t.port.next i.bus :=
  MemAccessCtrl.writePort_step _ _

/-- A response stands between two commits, and under it the read ports settle. -/
theorem settled_next (legal : Legal (2 ^ log) t i)
    (commits : MemAccessCtrl.commits (step (2 ^ log) t i).board.memInit = true) :
    Settled (2 ^ log) (step (2 ^ log) t i).board := by
  apply settled_step legal
  cases before : MemAccessCtrl.commits t.board.memInit with
  | false => rfl
  | true =>
    have again : (t.port.next i.bus).commits = true := (port_step (2 ^ log)) ▸ commits
    have answers : t.port.commits = true := before
    simp [WritePort.commits, WritePort.next] at again answers
    simp [answers] at again

theorem Inv.shim_step (inv : Inv b (2 ^ log) t) (legal : Legal (2 ^ log) t i) :
    (step (2 ^ log) t i).shim (2 ^ log) =
      (step (2 ^ log) t i).log.commits.foldl (Shim.take (depths addrWidth (2 ^ log)))
        (shimOf (2 ^ log) (VivadoConfig.reset b)) := by
  have moves := shimOf_commit legal inv.settled
  have written : (step (2 ^ log) t i).log.commits = t.log.commits ++
      if MemAccessCtrl.commits t.board.memInit then [captured t.board.memInit] else [] := rfl
  rw [written, List.foldl_append, ← inv.accounted.shim]
  refine Eq.trans moves ?_
  cases MemAccessCtrl.commits t.board.memInit <;> rfl

/-- The read mux shows the registers of the shim. -/
theorem readData_shim (legal : Legal (2 ^ log) t i) (reg : BitVec 8) :
    MemAccessCtrl.readData t.board.memInit reg = (t.shim (2 ^ log)).read reg := by
  rw [MemAccessCtrl.readData, legal.initDone]
  exact if_congr Iff.rfl rfl (if_congr Iff.rfl rfl (if_congr Iff.rfl rfl (ite_self _)))

theorem Inv.reads_step (inv : Inv b (2 ^ log) t) (legal : Legal (2 ^ log) t i) :
    (step (2 ^ log) t i).words = (step (2 ^ log) t i).rs ++
      if (step (2 ^ log) t i).board.memInit.rvalid then
        [(step (2 ^ log) t i).board.memInit.rdata] else [] := by
  have next : (step (2 ^ log) t i).board.memInit =
      MemAccessCtrl.step t.board.memInit (VivadoConfig.memInitIn t.board i) := rfl
  rw [next, MemAccessCtrl.rvalid_step, MemAccessCtrl.rdata_step, readData_shim legal]
  change t.words ++ _ = t.rs ++ _ ++ _
  rw [inv.accounted.reads]
  cases waiting : t.board.memInit.rvalid with
  | true =>
    cases ready : i.bus.rready <;>
      simp [arHs, MemAccessCtrl.arHs, MemAccessCtrl.arready, VivadoConfig.memInitIn, waiting, ready]
  | false =>
    cases asks : i.bus.arvalid <;>
      simp [arHs, MemAccessCtrl.arHs, MemAccessCtrl.arready, VivadoConfig.memInitIn, waiting, asks]

theorem Inv.step (inv : Inv b (2 ^ log) t) (legal : Legal (2 ^ log) t i) :
    Inv b (2 ^ log) (step (2 ^ log) t i) where
  accounted :=
    { writes := by
        rw [port_step]
        exact inv.accounted.writes.next
      shim := inv.shim_step legal
      reads := inv.reads_step legal }
  settled := settled_next legal

end InitTraffic

open InitTraffic in
/-- With INIT_DONE at 0 and no W beat from the DMA, whatever
    the master does on the five channels: addresses and data are paired in order and every pair
    commits once and is answered once; registers and memories are the fold of the commits; and a
    read returns the register as it is at its AR handshake. -/
theorem any_master {k addrWidth log : Nat} (b : VivadoConfig.State k addrWidth) {is : List VivadoConfig.In}
    (runs : LegalRun (step (2 ^ log)) (Legal (2 ^ log)) (start b) is) :
    Accounted b (2 ^ log) (run (step (2 ^ log)) (start b) is) :=
  (runs.invariant (P := Inv b (2 ^ log)) (fun _ _ inv legal => inv.step legal)
    (inv_start b _)).accounted

namespace InitTraffic

/-- The data of INIT_ADDR comes before its address, with one byte strobed; MEM_WR is on the bus
    while the response to it still waits, and RDATA is read meanwhile. -/
def impatient : List VivadoConfig.In :=
  let idle := Csr.busIdle
  let data (d : Word) (strb : BitVec 4) := { idle with wdata := d, wstrb := strb, wvalid := true }
  let write (a d : Word) := { idle with awaddr := a, awvalid := true, wdata := d, wstrb := 15, wvalid := true }
  [data 0xFF08 1, { idle with awaddr := 0, awvalid := true }, write 0x04 5, { write 0x04 5 with bready := true },
    write 0x04 5, idle, { write 0x10 1 with bready := true }, write 0x10 1,
    { idle with araddr := 0x04, arvalid := true, rready := true }, { idle with bready := true, rready := true }].map
      fun bus => { bus, rmDfAddr := 0, rmDfValid := false }

/-- Where it leads, from memories of zeros. -/
def impatientEnd : InitTraffic 1 3 := run (step (2 ^ 3)) (start (boardOf fun _ => 0)) impatient

end InitTraffic

open InitTraffic in
theorem any_master_impatient :
    Accounted (boardOf fun _ => 0) (2 ^ 3) impatientEnd ∧ impatientEnd.log.commits.length = 3 ∧
      impatientEnd.rs = [5] ∧ contents (2 ^ 3) impatientEnd.board .sysmem 2 = 5 :=
  ⟨any_master (boardOf fun _ => 0) (by decide), by decide, by decide, by decide⟩

end AxiDma.Verified
