import AxiDma.Rtl.VivadoConfig
import AxiDma.Verified.AxiLitePort
import AxiDma.Verified.Chain
import AxiDma.Verified.Shim
import AxiDma.Verified.SysMemFsm

/-! # The board as a shim

While INIT_DONE is 0 and no W beat comes from the DMA, both memories belong to the access
controller.  Then a commit of its port is an access of `Shim` (`shimOf_step`), provided
both read ports show the words selected, which they do after any cycle without a commit
(`settled_step`).
-/

namespace AxiDma.Verified

open AxiDma.Lib AxiDma.Rtl AxiDma.Firmware

section Board

variable {k addrWidth memWords : Nat}

def depths (addrWidth memWords : Nat) : Memory → Nat
  | .sram => 2 ^ addrWidth
  | .sysmem => memWords

/-- The words of both memories; past the depth there are none. -/
def contents (memWords : Nat) (b : VivadoConfig.State k addrWidth) : Memory → Nat → Word
  | .sram, n => if n < 2 ^ addrWidth then b.dma.engines.bram.mem (BitVec.ofNat addrWidth n) else 0
  | .sysmem, n => if n < memWords then b.sysMem.ram n else 0

theorem contents_outside (b : VivadoConfig.State k addrWidth) {m : Memory} {n : Nat}
    (outside : depths addrWidth memWords m ≤ n) : contents memWords b m n = 0 := by
  cases m with
  | sram => exact if_neg (Nat.not_lt.mpr outside)
  | sysmem => exact if_neg (Nat.not_lt.mpr outside)

def shimOf (memWords : Nat) (b : VivadoConfig.State k addrWidth) : Shim :=
  { initAddr := b.memInit.initAddr, initData := b.memInit.initData, rdata := b.memInit.regRdata,
    mem := contents memWords b }

def initWordOf (addrWidth memWords : Nat) (b : VivadoConfig.State k addrWidth) (m : Memory) : Nat :=
  wordOf (depths addrWidth memWords) m b.memInit.initAddr

/-- What the read port of a memory shows. -/
def shown (b : VivadoConfig.State k addrWidth) : Memory → Word
  | .sram => b.dma.engines.bram.dout
  | .sysmem => SysMem.initRdata b.sysMem

/-- Both read ports show the words that REG_INIT_ADDR selects. -/
def Settled (memWords : Nat) (b : VivadoConfig.State k addrWidth) : Prop :=
  ∀ m, shown b m = contents memWords b m (initWordOf addrWidth memWords b m)

/-- MicroBlaze has the memories: INIT_DONE is 0, and the DMA writes nothing over AXI4. -/
structure Undisturbed (memWords : Nat) (b : VivadoConfig.State k addrWidth) (i : VivadoConfig.In) :
    Prop where
  initDone : b.memInit.initDone = false
  noBeat : (VivadoConfig.axiSys memWords b i).wvalid = false

instance (memWords : Nat) (b : VivadoConfig.State k addrWidth) (i : VivadoConfig.In) :
    Decidable (Undisturbed memWords b i) :=
  decidable_of_iff (_ ∧ _) ⟨fun both => ⟨both.1, both.2⟩, fun quiet => ⟨quiet.initDone, quiet.noBeat⟩⟩

variable {b : VivadoConfig.State k addrWidth} {i : VivadoConfig.In} {log : Nat}

theorem toNat_bramInitAddr (s : MemAccessCtrl.State) :
    (MemAccessCtrl.bramInitAddr addrWidth s).toNat = s.initAddr.toNat / 4 % 2 ^ addrWidth := by
  rw [MemAccessCtrl.bramInitAddr, BitVec.extractLsb'_toNat, Nat.shiftRight_eq_div_pow]

theorem initWord_two_pow (addr : Word) :
    SysMem.initWord (2 ^ log) addr = addr.toNat / 4 % 2 ^ log := by
  rw [SysMem.initWord, clog2, Nat.clog_pow 2 log (by decide)]

/-! ### One cycle of the memories -/

theorem bram_step (quiet : Undisturbed memWords b i) :
    (VivadoConfig.step memWords b i).dma.engines.bram.mem =
        (if MemAccessCtrl.sramWrPulse b.memInit then
          Function.update b.dma.engines.bram.mem (MemAccessCtrl.bramInitAddr addrWidth b.memInit)
            b.memInit.initData
        else b.dma.engines.bram.mem) ∧
      (VivadoConfig.step memWords b i).dma.engines.bram.dout =
        b.dma.engines.bram.mem (MemAccessCtrl.bramInitAddr addrWidth b.memInit) := by
  -- the mux gives the BRAM to the init port
  have mux : Engines.bramIn b.dma.engines
      (MovementTop.enginesIn b.dma (VivadoConfig.dmaIn memWords b i)) =
        { rdAddr := MemAccessCtrl.bramInitAddr addrWidth b.memInit
          wrAddr := MemAccessCtrl.bramInitAddr addrWidth b.memInit
          wrEn := MemAccessCtrl.sramWrPulse b.memInit
          din := b.memInit.initData } := by
    simp [Engines.bramIn, MovementTop.enginesIn, VivadoConfig.dmaIn, VivadoConfig.bramInit,
      quiet.initDone]
  constructor
  · change (Bram.step b.dma.engines.bram (Engines.bramIn b.dma.engines _)).mem = _
    rw [mux]
    rfl
  · change (Bram.step b.dma.engines.bram (Engines.bramIn b.dma.engines _)).dout = _
    rw [mux]
    rfl

theorem ram_step (quiet : Undisturbed memWords b i) :
    (VivadoConfig.step memWords b i).sysMem.ram =
      if MemAccessCtrl.memWrPulse b.memInit then
        Function.update b.sysMem.ram (SysMem.initWord memWords b.memInit.initAddr)
          b.memInit.initData
      else b.sysMem.ram := by
  change (SysMem.step memWords b.sysMem _ _).ram = _
  rw [SysMem.ram_step_init, SysMem.afterBeat_of_no_beat quiet.noBeat]
  rfl

/-- The strobed memory changes in one word. -/
theorem contents_step (quiet : Undisturbed (2 ^ log) b i) :
    contents (2 ^ log) (VivadoConfig.step (2 ^ log) b i) =
      if MemAccessCtrl.sramWrPulse b.memInit then
        store (contents (2 ^ log) b) .sram (initWordOf addrWidth (2 ^ log) b .sram)
          b.memInit.initData
      else if MemAccessCtrl.memWrPulse b.memInit then
        store (contents (2 ^ log) b) .sysmem (initWordOf addrWidth (2 ^ log) b .sysmem)
          b.memInit.initData
      else contents (2 ^ log) b := by
  obtain ⟨bram, -⟩ := bram_step quiet
  have ram := ram_step quiet
  -- the two strobes have different offsets
  have apart : MemAccessCtrl.sramWrPulse b.memInit = true →
      MemAccessCtrl.memWrPulse b.memInit = false := by
    intro sram
    simp only [MemAccessCtrl.sramWrPulse, MemAccessCtrl.pulse, Bool.and_eq_true, beq_iff_eq] at sram
    simp [MemAccessCtrl.memWrPulse, MemAccessCtrl.pulse, sram.1.2, MemAccessCtrl.regSramWr,
      MemAccessCtrl.regMemWr]
  funext m n
  cases m with
  | sram =>
    have same : n < 2 ^ addrWidth → (BitVec.ofNat addrWidth n =
        MemAccessCtrl.bramInitAddr addrWidth b.memInit ↔
          n = initWordOf addrWidth (2 ^ log) b .sram) := by
      intro bound
      rw [← BitVec.toNat_inj, BitVec.toNat_ofNat, Nat.mod_eq_of_lt bound, toNat_bramInitAddr]
      rfl
    rw [contents, bram]
    by_cases bound : n < 2 ^ addrWidth
    · cases sram : MemAccessCtrl.sramWrPulse b.memInit <;>
        cases mem : MemAccessCtrl.memWrPulse b.memInit <;>
          simp [contents, store, bound, Function.update_apply, same bound]
    · have other : n ≠ initWordOf addrWidth (2 ^ log) b .sram := by
        rintro rfl
        exact bound (Nat.mod_lt _ (Nat.two_pow_pos addrWidth))
      cases sram : MemAccessCtrl.sramWrPulse b.memInit <;>
        cases mem : MemAccessCtrl.memWrPulse b.memInit <;>
          simp [contents, store, bound, other]
  | sysmem =>
    have index : SysMem.initWord (2 ^ log) b.memInit.initAddr =
        initWordOf addrWidth (2 ^ log) b .sysmem := initWord_two_pow _
    rw [contents, ram, index]
    by_cases bound : n < 2 ^ log
    · cases sram : MemAccessCtrl.sramWrPulse b.memInit <;>
        cases mem : MemAccessCtrl.memWrPulse b.memInit <;>
          simp_all [contents, store, Function.update_apply]
    · have other : n ≠ initWordOf addrWidth (2 ^ log) b .sysmem := by
        rintro rfl
        exact bound (Nat.mod_lt _ (Nat.two_pow_pos log))
      cases sram : MemAccessCtrl.sramWrPulse b.memInit <;>
        cases mem : MemAccessCtrl.memWrPulse b.memInit <;>
          simp [contents, store, bound, other]

theorem pulse_of_no_commit {s : MemAccessCtrl.State} (noCommit : MemAccessCtrl.commits s = false)
    (reg : BitVec 8) : MemAccessCtrl.pulse s reg = false := by
  rw [MemAccessCtrl.pulse, noCommit]
  rfl

/-- A cycle without a commit settles the read ports. -/
theorem settled_step (quiet : Undisturbed (2 ^ log) b i)
    (noCommit : MemAccessCtrl.commits b.memInit = false) :
    Settled (2 ^ log) (VivadoConfig.step (2 ^ log) b i) := by
  have addr : (VivadoConfig.step (2 ^ log) b i).memInit.initAddr = b.memInit.initAddr := by
    change (MemAccessCtrl.step b.memInit _).initAddr = _
    rw [MemAccessCtrl.initAddr_step, noCommit]
    rfl
  have words : contents (2 ^ log) (VivadoConfig.step (2 ^ log) b i) = contents (2 ^ log) b := by
    rw [contents_step quiet, MemAccessCtrl.sramWrPulse, pulse_of_no_commit noCommit,
      MemAccessCtrl.memWrPulse, pulse_of_no_commit noCommit]
    rfl
  intro m
  rw [initWordOf, addr, words]
  cases m with
  | sram =>
    have bound := (MemAccessCtrl.bramInitAddr addrWidth b.memInit).isLt
    change (VivadoConfig.step (2 ^ log) b i).dma.engines.bram.dout = _
    rw [(bram_step quiet).2, wordOf, depths, ← toNat_bramInitAddr, contents, if_pos bound,
      BitVec.ofNat_toNat, BitVec.setWidth_eq]
  | sysmem =>
    have ram : (VivadoConfig.step (2 ^ log) b i).sysMem.ram = b.sysMem.ram := by
      rw [ram_step quiet, MemAccessCtrl.memWrPulse, pulse_of_no_commit noCommit]
      rfl
    change (VivadoConfig.step (2 ^ log) b i).sysMem.ram (SysMem.initWord (2 ^ log) _) = _
    rw [ram, initWord_two_pow, wordOf, depths, contents, if_pos (Nat.mod_lt _ (Nat.two_pow_pos log))]
    rfl

/-- A commit is an access of the shim, and nothing else changes it. -/
theorem shimOf_step (quiet : Undisturbed (2 ^ log) b i)
    (settled : MemAccessCtrl.commits b.memInit = true → Settled (2 ^ log) b)
    (whole : MemAccessCtrl.commits b.memInit = true → b.memInit.wdStrb = 15) :
    shimOf (2 ^ log) (VivadoConfig.step (2 ^ log) b i) =
      if MemAccessCtrl.commits b.memInit then
        (shimOf (2 ^ log) b).write (depths addrWidth (2 ^ log)) (MemAccessCtrl.wrAddrLsb b.memInit)
          b.memInit.wdData
      else shimOf (2 ^ log) b := by
  have fields : shimOf (2 ^ log) (VivadoConfig.step (2 ^ log) b i) =
      { initAddr := (MemAccessCtrl.step b.memInit (VivadoConfig.memInitIn b i)).initAddr
        initData := (MemAccessCtrl.step b.memInit (VivadoConfig.memInitIn b i)).initData
        rdata := (MemAccessCtrl.step b.memInit (VivadoConfig.memInitIn b i)).regRdata
        mem := contents (2 ^ log) (VivadoConfig.step (2 ^ log) b i) } := rfl
  rw [fields, MemAccessCtrl.initAddr_step, MemAccessCtrl.initData_step, MemAccessCtrl.regRdata_step,
    contents_step quiet]
  simp only [MemAccessCtrl.sramRdPulse, MemAccessCtrl.memRdPulse, MemAccessCtrl.sramWrPulse,
    MemAccessCtrl.memWrPulse, MemAccessCtrl.pulse]
  by_cases commits : MemAccessCtrl.commits b.memInit = true
  · have sram : b.dma.engines.bram.dout = _ := settled commits .sram
    have sysmem : SysMem.initRdata b.sysMem = _ := settled commits .sysmem
    rw [whole commits, applyWstrb_full, applyWstrb_full]
    simp only [commits, Bool.true_and, Bool.and_eq_true, beq_iff_eq, VivadoConfig.memInitIn, sram, sysmem,
      if_true, Shim.write, Shim.strobeWrite, Shim.strobeRead]
    -- one arm for each register
    generalize MemAccessCtrl.wrAddrLsb b.memInit = reg
    by_cases initAddr : reg = MemAccessCtrl.regInitAddr
    · subst initAddr; rfl
    by_cases initData : reg = MemAccessCtrl.regInitData
    · subst initData; rfl
    by_cases sramWr : reg = MemAccessCtrl.regSramWr
    · subst sramWr
      cases b.memInit.wdData.getLsbD 0 <;> rfl
    by_cases sramRd : reg = MemAccessCtrl.regSramRd
    · subst sramRd
      cases b.memInit.wdData.getLsbD 0 <;> rfl
    by_cases memWr : reg = MemAccessCtrl.regMemWr
    · subst memWr
      cases b.memInit.wdData.getLsbD 0 <;> rfl
    by_cases memRd : reg = MemAccessCtrl.regMemRd
    · subst memRd
      cases b.memInit.wdData.getLsbD 0 <;> rfl
    simp only [initAddr, initData, sramWr, sramRd, memWr, memRd, false_and, if_false]
    rfl
  · simp only [commits, Bool.false_and, if_false, Bool.false_eq_true]
    rfl

end Board

/-- Empty FIFOs, a BRAM of eight zeros, and a system memory. -/
def boardOf (ram : Nat → Word) : VivadoConfig.State 1 3 :=
  { memInit := MemAccessCtrl.resetState
    dma := MovementTop.reset
      { df := DescriptorFetcher.resetState
        dfInFifo := ⟨fun _ => ⟨0, 0⟩, 0, 0, ⟨0, 0⟩, true⟩
        dfOutFifo := ⟨fun _ => ⟨0, 0, 0, 0⟩, 0, 0, ⟨0, 0, 0, 0⟩, true⟩
        descToDmFifo := ⟨fun _ => ⟨0, 0, 0, 0⟩, 0, 0, ⟨0, 0, 0, 0⟩, true⟩
        dataMover := DataMover.resetState
        dmFifoAxi := zeroPath.dmFifoAxi
        dmFifoSram := zeroPath.dmFifoSram
        engines := zeroPath.engines
        handshakeDoneD := false
        dmDone := false }
    sysMem := SysMem.reset
      { ram, initWordAddr := 0, rState := .idle, rAddr := 0, rLastBeat := 0, rBeat := 0,
        wState := .idle, wAddr := 0, wLastBeat := 0, wBeat := 0, bvalid := false } }

end AxiDma.Verified
