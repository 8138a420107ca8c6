import AxiDma.Lib.Run
import AxiDma.Verified.Commands

/-! # The DMA does not start without the memory

The invariant of the board: the register files meet the mode the rest of the current
command conforms to, and the write ports hold nothing but the access the firmware waits
for.  CMD_RUN_DMA leaves ENABLE set, so a later CSR write of the host can start the DMA
while MicroBlaze has the memory (`starts_without_memory`); if no such write leaves
something to fetch (`Restrained`), none is fetched (`no_fetch_without_memory`).
-/

namespace AxiDma.Verified

open AxiDma.Lib AxiDma.Rtl AxiDma.Firmware

namespace Board

open AxiDma.Firmware.Board

variable {maxInflight : Nat}

/-! ## Modes of the register files -/

/-- There is nothing to fetch. -/
def Quiet (head tail ringlen : Word) : Prop := head = tail ∨ ringlen = 0

instance (head tail ringlen : Word) : Decidable (Quiet head tail ringlen) :=
  inferInstanceAs (Decidable (_ ∨ _))

/-- There is nothing to fetch after a write of `data` to the CSR at `addr`. -/
def QuietAfter (b : Board maxInflight) (addr data : Word) : Prop :=
  Quiet b.sys.rm.head (if addr.setWidth 8 = Csr.regTail then data else b.sys.csr.tail)
    (if addr.setWidth 8 = Csr.regRinglen then data else b.sys.csr.ringlen)

instance (b : Board maxInflight) (addr data : Word) : Decidable (QuietAfter b addr data) :=
  inferInstanceAs (Decidable (Quiet _ _ _))

def enable (b : Board maxInflight) : Bool := b.sys.csr.ctrl.getLsbD 0
def reset (b : Board maxInflight) : Bool := b.sys.csr.ctrl.getLsbD 1

def Meets (b : Board maxInflight) : Mode → Prop
  | .resting => b.mac.initDone = false ∧ (enable b = false ∨
      reset b = false ∧ Quiet b.sys.rm.head b.sys.csr.tail b.sys.csr.ringlen)
  | .hostWrite addr data => b.mac.initDone = false ∧ (enable b = false ∨
      reset b = false ∧ Quiet b.sys.rm.head b.sys.csr.tail b.sys.csr.ringlen ∧
        QuietAfter b addr data)
  | .disabled => b.mac.initDone = false ∧ enable b = false
  | .cleared => b.mac.initDone = false ∧ enable b = false ∧ reset b = false
  | .owned => b.mac.initDone = true ∧ reset b = false

/-! ## Runs -/

/-- The firmware is taking the memory back. -/
def TakesBack (interconnect : Interconnect) (t : Thread) : Prop :=
  ∃ write ∈ writeTo interconnect .memAccessCtrl t,
    write.1.setWidth 8 = MemAccessCtrl.regInitDone ∧ write.2 = 0

instance (interconnect : Interconnect) (t : Thread) : Decidable (TakesBack interconnect t) :=
  inferInstanceAs (Decidable (∃ write ∈ writeTo interconnect .memAccessCtrl t, _))

/-- The host sends CSR writes only for registers other than CTRL, and the transfers of a
    CMD_RUN_DMA have finished when it takes the memory back.  The delays of the bus and the
    serial line and the answers of the fetcher are free. -/
structure Legal (interconnect : Interconnect) (b : Board maxInflight) (i : In) : Prop where
  allowed : ∀ p ∈ dispatched b i, Allowed p
  finished : TakesBack interconnect b.thread →
    RingManager.ringEmpty b.sys.rm (Csr.toRing b.sys.csr) = true ∧
      RingManager.busy b.sys.rm = false

instance (interconnect : Interconnect) (b : Board maxInflight) (i : In) :
    Decidable (Legal interconnect b i) :=
  decidable_of_iff (_ ∧ _)
    ⟨fun both => ⟨both.1, both.2⟩, fun legal => ⟨legal.allowed, legal.finished⟩⟩

/-- A host CSR write that comes while ENABLE is set leaves nothing to fetch. -/
def Restrained (b : Board maxInflight) (i : In) : Prop :=
  ∀ p ∈ dispatched b i, WritesCsr p → enable b = true → QuietAfter b p.destAddr p.payloadWord

instance (b : Board maxInflight) (i : In) : Decidable (Restrained b i) :=
  inferInstanceAs (Decidable (∀ p ∈ dispatched b i, _))

/-! ## The invariant -/

/-- The register files meet a mode that the rest of the command conforms to. -/
def Follows (interconnect : Interconnect) (b : Board maxInflight) : Prop :=
  ∃ mode, Meets b mode ∧ Conforms interconnect mode (rest interconnect b)

structure Inv (interconnect : Interconnect) (b : Board maxInflight) : Prop where
  waits : Waits interconnect b
  follows : Follows interconnect b

variable {interconnect : Interconnect} {b : Board maxInflight} {i : In}

/-- With nothing to fetch or ENABLE clear, no request is accepted. -/
theorem fetchHs_eq_false (still : enable b = false ∨
    Quiet b.sys.rm.head b.sys.csr.tail b.sys.csr.ringlen) :
    fetchHs interconnect b i = false := by
  by_contra accepts
  rw [Bool.not_eq_false] at accepts
  obtain ⟨pending, enabled, some, -⟩ := RingManager.fetchHs_iff.mp accepts
  rcases still with disabled | empty | none
  · exact absurd (disabled.symm.trans enabled) (by decide)
  · exact pending empty
  · have zero : b.sys.csr.ringlen.toNat = 0 := by rw [none]; rfl
    rw [BitVec.lt_def] at some
    exact absurd some (by
      change ¬ 0 < b.sys.csr.ringlen.toNat
      omega)

/-- A mode in which MicroBlaze has the memory keeps the DMA still. -/
theorem Meets.still {mode : Mode} (meets : Meets b mode) (notOwned : mode ≠ .owned) :
    enable b = false ∨ reset b = false ∧ Quiet b.sys.rm.head b.sys.csr.tail b.sys.csr.ringlen := by
  cases mode with
  | resting => exact meets.2
  | hostWrite addr data => exact meets.2.imp_right fun ⟨noReset, quiet, _⟩ => ⟨noReset, quiet⟩
  | disabled => exact .inl meets.2
  | cleared => exact .inl meets.2.1
  | owned => exact absurd rfl notOwned

theorem Meets.initDone {mode : Mode} (meets : Meets b mode) (notOwned : mode ≠ .owned) :
    b.mac.initDone = false := by
  cases mode with
  | resting | hostWrite | disabled | cleared => exact meets.1
  | owned => exact absurd rfl notOwned

theorem Meets.no_fetch {mode : Mode} (meets : Meets b mode) (notOwned : mode ≠ .owned) :
    fetchHs interconnect b i = false :=
  fetchHs_eq_false ((meets.still notOwned).imp_right And.right)

/-! ## Cycles -/

theorem softResets_eq_false (noReset : reset b = false) (i : Csr.In) :
    Csr.softResets b.sys.csr i = false := by
  simp only [Csr.softResets, show b.sys.csr.ctrl.getLsbD 1 = false from noReset, Bool.false_and]

theorem ctrl_step (interconnect : Interconnect) (b : Board maxInflight) (i : In) :
    (step interconnect b i).sys.csr.ctrl = 0 ∨ (step interconnect b i).sys.csr.ctrl =
      if Csr.commitsTo b.sys.csr Csr.regCtrl then Csr.ctrlWriteData b.sys.csr &&& 7
      else b.sys.csr.ctrl := by
  change (Csr.next b.sys.csr _).ctrl = 0 ∨ (Csr.next b.sys.csr _).ctrl = _
  rw [Csr.next_ctrl]
  split
  · exact .inl rfl
  · exact .inr rfl

/-- A bit of CTRL that is clear stays clear without a write of CTRL. -/
theorem ctrl_step_getLsbD {n : Nat} (noWrite : Csr.commitsTo b.sys.csr Csr.regCtrl = false)
    (clear : b.sys.csr.ctrl.getLsbD n = false) :
    (step interconnect b i).sys.csr.ctrl.getLsbD n = false := by
  rcases ctrl_step interconnect b i with zero | same
  · rw [zero]
    exact BitVec.getLsbD_zero
  · rw [same, noWrite]
    exact clear

/-- A bit of CTRL that is written clear is clear afterwards. -/
theorem ctrl_step_getLsbD_of_commits {n : Nat} {data : Word}
    (commits : Csr.commitsTo b.sys.csr Csr.regCtrl = true) (wdata : b.sys.csr.wdata = data)
    (wstrb : b.sys.csr.wstrb = 15) (clear : data.getLsbD n = false) :
    (step interconnect b i).sys.csr.ctrl.getLsbD n = false := by
  rcases ctrl_step interconnect b i with zero | written
  · rw [zero]
    exact BitVec.getLsbD_zero
  · rw [written, if_pos commits, Csr.ctrlWriteData, wdata, wstrb, applyWstrb_full,
      BitVec.getLsbD_and, clear, Bool.false_and]

theorem tail_step (noReset : reset b = false) :
    (step interconnect b i).sys.csr.tail =
      if Csr.commitsTo b.sys.csr Csr.regTail then
        applyWstrb b.sys.csr.tail b.sys.csr.wdata b.sys.csr.wstrb
      else b.sys.csr.tail := by
  change (Csr.next b.sys.csr _).tail = _
  rw [Csr.next_tail, softResets_eq_false noReset]
  rfl

theorem ringlen_step (noReset : reset b = false) :
    (step interconnect b i).sys.csr.ringlen =
      if Csr.commitsTo b.sys.csr Csr.regRinglen then
        applyWstrb b.sys.csr.ringlen b.sys.csr.wdata b.sys.csr.wstrb
      else b.sys.csr.ringlen := by
  change (Csr.next b.sys.csr _).ringlen = _
  rw [Csr.next_ringlen, softResets_eq_false noReset]
  rfl

theorem head_step (noReset : reset b = false)
    (quiet : Quiet b.sys.rm.head b.sys.csr.tail b.sys.csr.ringlen) :
    (step interconnect b i).sys.rm.head = b.sys.rm.head := by
  have noFetch : fetchHs interconnect b i = false := fetchHs_eq_false (.inr quiet)
  change (RingManager.step b.sys.rm (CsrRing.rmIn b.sys (sysIn interconnect b i))).head = _
  rw [RingManager.step_of_run rfl noReset]
  change RingManager.headPtrNext b.sys.rm (CsrRing.rmIn b.sys (sysIn interconnect b i)) = _
  rw [RingManager.headPtrNext, show RingManager.fetchHs b.sys.rm _ = false from noFetch]
  rfl

/-! ## Modes -/

theorem commitsTo_eq_false (noCommit : Csr.commits b.sys.csr = false) (reg : BitVec 8) :
    Csr.commitsTo b.sys.csr reg = false := by
  rw [Csr.commitsTo, noCommit, Bool.false_and]

theorem Meets.step_of_no_csr {mode : Mode} (meets : Meets b mode)
    (noCommit : Csr.commits b.sys.csr = false)
    (same : (step interconnect b i).mac.initDone = b.mac.initDone) :
    Meets (step interconnect b i) mode := by
  have enableStays (clear : enable b = false) : enable (step interconnect b i) = false :=
    ctrl_step_getLsbD (commitsTo_eq_false noCommit _) clear
  have resetStays (clear : reset b = false) : reset (step interconnect b i) = false :=
    ctrl_step_getLsbD (commitsTo_eq_false noCommit _) clear
  have tailStays (noReset : reset b = false) :
      (step interconnect b i).sys.csr.tail = b.sys.csr.tail := by
    rw [tail_step noReset, commitsTo_eq_false noCommit]
    rfl
  have ringlenStays (noReset : reset b = false) :
      (step interconnect b i).sys.csr.ringlen = b.sys.csr.ringlen := by
    rw [ringlen_step noReset, commitsTo_eq_false noCommit]
    rfl
  cases mode with
  | resting =>
    refine ⟨same.trans meets.1, meets.2.imp enableStays ?_⟩
    rintro ⟨noReset, quiet⟩
    rw [head_step noReset quiet, tailStays noReset, ringlenStays noReset]
    exact ⟨resetStays noReset, quiet⟩
  | hostWrite addr data =>
    refine ⟨same.trans meets.1, meets.2.imp enableStays ?_⟩
    rintro ⟨noReset, quiet, after⟩
    rw [QuietAfter, head_step noReset quiet, tailStays noReset, ringlenStays noReset]
    exact ⟨resetStays noReset, quiet, after⟩
  | disabled => exact ⟨same.trans meets.1, enableStays meets.2⟩
  | cleared => exact ⟨same.trans meets.1, enableStays meets.2.1, resetStays meets.2.2⟩
  | owned => exact ⟨same.trans meets.1, resetStays meets.2⟩

theorem Meets.step_of_ctrl {mode mode' : Mode} {addr data : Word} (meets : Meets b mode)
    (commits : Csr.commits b.sys.csr = true) (serves : (Csr.writePort b.sys.csr).Serves addr data)
    (ctrl : addr.setWidth 8 = Csr.regCtrl) (leads : afterCtrl data mode = some mode')
    (same : (step interconnect b i).mac.initDone = b.mac.initDone) :
    Meets (step interconnect b i) mode' := by
  obtain ⟨awaddr, wdata, wstrb⟩ := serves.of_commits commits
  have toCtrl : Csr.commitsTo b.sys.csr Csr.regCtrl = true := by
    simp only [Csr.writePort] at awaddr
    simp [Csr.commitsTo, commits, Csr.wrAddrLsb, awaddr, ctrl]
  have clears {n : Nat} (clear : data.getLsbD n = false) :
      (step interconnect b i).sys.csr.ctrl.getLsbD n = false :=
    ctrl_step_getLsbD_of_commits toCtrl wdata wstrb clear
  cases mode with
  | resting =>
    obtain ⟨noEnable, ⟨⟩⟩ := Option.ite_none_right_eq_some.mp leads
    exact ⟨same.trans meets.1, clears noEnable⟩
  | disabled =>
    obtain ⟨⟨noEnable, noReset⟩, ⟨⟩⟩ := Option.ite_none_right_eq_some.mp leads
    exact ⟨same.trans meets.1, clears noEnable, clears noReset⟩
  | owned =>
    obtain ⟨noReset, ⟨⟩⟩ := Option.ite_none_right_eq_some.mp leads
    exact ⟨same.trans meets.1, clears noReset⟩
  | hostWrite _ _ => cases leads
  | cleared => cases leads

theorem Meets.step_of_csr {mode mode' : Mode} {addr data : Word} (meets : Meets b mode)
    (commits : Csr.commits b.sys.csr = true) (serves : (Csr.writePort b.sys.csr).Serves addr data)
    (notCtrl : addr.setWidth 8 ≠ Csr.regCtrl) (leads : afterCsr addr data mode = some mode')
    (same : (step interconnect b i).mac.initDone = b.mac.initDone) :
    Meets (step interconnect b i) mode' := by
  obtain ⟨awaddr, wdata, wstrb⟩ := serves.of_commits commits
  simp only [Csr.writePort] at awaddr wdata wstrb
  have commitsTo (reg : BitVec 8) :
      Csr.commitsTo b.sys.csr reg = decide (addr.setWidth 8 = reg) := by
    simp only [Csr.commitsTo, commits, Csr.wrAddrLsb, awaddr, Bool.true_and]
    rfl
  -- CTRL keeps its bits, so only HEAD, TAIL and RINGLEN may change what a mode needs
  have noCtrl : Csr.commitsTo b.sys.csr Csr.regCtrl = false := by
    rw [commitsTo]
    exact decide_eq_false notCtrl
  have enableStays (clear : enable b = false) : enable (step interconnect b i) = false :=
    ctrl_step_getLsbD noCtrl clear
  have resetStays (clear : reset b = false) : reset (step interconnect b i) = false :=
    ctrl_step_getLsbD noCtrl clear
  cases mode with
  | resting => cases leads
  | hostWrite addr' data' =>
    obtain ⟨⟨rfl, rfl⟩, ⟨⟩⟩ := Option.ite_none_right_eq_some.mp leads
    refine ⟨same.trans meets.1, meets.2.imp enableStays ?_⟩
    rintro ⟨noReset, quiet, after⟩
    refine ⟨resetStays noReset, ?_⟩
    rw [head_step noReset quiet, tail_step noReset, ringlen_step noReset, commitsTo, commitsTo,
      wdata, wstrb, applyWstrb_full, applyWstrb_full]
    simpa [QuietAfter] using after
  | disabled =>
    obtain rfl := Option.some.inj leads
    exact ⟨same.trans meets.1, enableStays meets.2⟩
  | cleared =>
    obtain rfl := Option.some.inj leads
    exact ⟨same.trans meets.1, enableStays meets.2.1, resetStays meets.2.2⟩
  | owned =>
    obtain rfl := Option.some.inj leads
    exact ⟨same.trans meets.1, resetStays meets.2⟩

/-- INIT_DONE changes by a write to its offset only. -/
theorem initDone_step (interconnect : Interconnect) (i : In) {addr data : Word}
    (commits : MemAccessCtrl.commits b.mac = true)
    (serves : (MemAccessCtrl.writePort b.mac).Serves addr data) :
    (step interconnect b i).mac.initDone =
      if addr.setWidth 8 = MemAccessCtrl.regInitDone then data.getLsbD 0 else b.mac.initDone := by
  obtain ⟨awaddr, wdata, -⟩ := serves.of_commits commits
  simp only [MemAccessCtrl.writePort] at awaddr wdata
  change (MemAccessCtrl.step b.mac _).initDone = _
  rw [MemAccessCtrl.initDone_step]
  simp only [commits, MemAccessCtrl.wrAddrLsb, awaddr, wdata, Bool.true_and, beq_iff_eq]

theorem initDone_step_of_no_commit (interconnect : Interconnect) (i : In)
    (noCommit : MemAccessCtrl.commits b.mac = false) :
    (step interconnect b i).mac.initDone = b.mac.initDone := by
  change (MemAccessCtrl.step b.mac _).initDone = _
  rw [MemAccessCtrl.initDone_step, noCommit]
  rfl

theorem Meets.step_of_initDone {mode mode' : Mode} {data : Word} (meets : Meets b mode)
    (noCommit : Csr.commits b.sys.csr = false)
    (written : (step interconnect b i).mac.initDone = data.getLsbD 0)
    (leads : afterInitDone data mode = some mode')
    (finished : data = 0 →
      RingManager.ringEmpty b.sys.rm (Csr.toRing b.sys.csr) = true ∧
        RingManager.busy b.sys.rm = false) :
    Meets (step interconnect b i) mode' := by
  have resetStays (clear : reset b = false) : reset (step interconnect b i) = false :=
    ctrl_step_getLsbD (commitsTo_eq_false noCommit _) clear
  cases mode with
  | resting | hostWrite _ _ | disabled => cases leads
  | cleared =>
    obtain ⟨handsOver, ⟨⟩⟩ := Option.ite_none_right_eq_some.mp leads
    exact ⟨written.trans handsOver, resetStays meets.2.2⟩
  | owned =>
    obtain ⟨rfl, ⟨⟩⟩ := Option.ite_none_right_eq_some.mp leads
    have noReset := meets.2
    have empty : b.sys.rm.head = b.sys.csr.tail := beq_iff_eq.mp (finished rfl).1
    refine ⟨written.trans BitVec.getLsbD_zero, .inr ⟨resetStays noReset, .inl ?_⟩⟩
    rw [head_step noReset (.inl empty), tail_step noReset, commitsTo_eq_false noCommit]
    exact empty

/-- A packet may be processed when the memory is with MicroBlaze. -/
theorem Meets.startMode {mode : Mode} {p : Packet} (meets : Meets b mode)
    (notOwned : mode ≠ .owned)
    (quietAfter : WritesCsr p → enable b = true → QuietAfter b p.destAddr p.payloadWord) :
    Meets b (startMode p) := by
  have still := meets.still notOwned
  unfold Verified.startMode
  split
  · rename_i writes
    refine ⟨meets.initDone notOwned, ?_⟩
    cases enabled : enable b with
    | false => exact .inl rfl
    | true =>
      obtain ⟨noReset, quiet⟩ := still.resolve_left (by rw [enabled]; decide)
      exact .inr ⟨noReset, quiet, quietAfter writes enabled⟩
  · exact ⟨meets.initDone notOwned, still⟩

/-! ## Reachable states -/

theorem inv_start : Inv interconnect (start maxInflight) where
  waits := waits_start
  follows := ⟨.resting, ⟨rfl, .inl BitVec.getLsbD_zero⟩, (keeps_xilPrintf _ _).ends (by decide)⟩

theorem Inv.follows_csr (inv : Inv interconnect b) (commits : Csr.commits b.sys.csr = true) :
    Follows interconnect (step interconnect b i) := by
  obtain ⟨mode, meets, conforms⟩ := inv.follows
  obtain ⟨addr, data, next, here, -, serves, before, after⟩ :=
    PortsOk.rest_of_commits inv.waits.ports .csr i commits
  have noCommit : MemAccessCtrl.commits b.mac = false := by
    by_contra other
    rw [Bool.not_eq_false] at other
    exact absurd (PortsOk.commits_unique inv.waits.ports .csr .memAccessCtrl commits
      other) (by decide)
  have same := initDone_step_of_no_commit interconnect i noCommit
  rw [before] at conforms
  obtain ⟨mode', leads, continues⟩ := conforms
  change afterWrite interconnect mode addr data = some mode' at leads
  refine ⟨mode', ?_, after ▸ continues () trivial⟩
  simp only [afterWrite, here] at leads
  split at leads
  · rename_i ctrl
    exact meets.step_of_ctrl commits serves ctrl leads same
  · rename_i notCtrl
    exact meets.step_of_csr commits serves notCtrl leads same

theorem Inv.follows_memAccessCtrl (inv : Inv interconnect b) (legal : Legal interconnect b i)
    (commits : MemAccessCtrl.commits b.mac = true) :
    Follows interconnect (step interconnect b i) := by
  obtain ⟨mode, meets, conforms⟩ := inv.follows
  obtain ⟨addr, data, next, here, awaited, serves, before, after⟩ :=
    PortsOk.rest_of_commits inv.waits.ports .memAccessCtrl i commits
  have noCommit : Csr.commits b.sys.csr = false := by
    by_contra other
    rw [Bool.not_eq_false] at other
    exact absurd (PortsOk.commits_unique inv.waits.ports .csr .memAccessCtrl other
      commits) (by decide)
  have written := initDone_step interconnect i commits serves
  rw [before] at conforms
  obtain ⟨mode', leads, continues⟩ := conforms
  change afterWrite interconnect mode addr data = some mode' at leads
  refine ⟨mode', ?_, after ▸ continues () trivial⟩
  simp only [afterWrite, here] at leads
  split at leads
  · rename_i toInitDone
    rw [if_pos toInitDone] at written
    exact meets.step_of_initDone noCommit written leads fun zero =>
      legal.finished ⟨_, awaited, toInitDone, zero⟩
  · rename_i elsewhere
    rw [if_neg elsewhere] at written
    obtain rfl := Option.some.inj leads
    exact meets.step_of_no_csr noCommit written

theorem Inv.follows_no_commit (inv : Inv interconnect b) (legal : Legal interconnect b i)
    (restrained : Restrained b i) (noCsr : Csr.commits b.sys.csr = false)
    (noMac : MemAccessCtrl.commits b.mac = false) :
    Follows interconnect (step interconnect b i) := by
  obtain ⟨mode, meets, conforms⟩ := inv.follows
  have same := initDone_step_of_no_commit interconnect i noMac
  cases packet : dispatched b i with
  | some p =>
    obtain ⟨before, after⟩ := PortsOk.rest_of_dispatch inv.waits.ports packet
    rw [before] at conforms
    have starts := meets.startMode conforms (restrained p packet)
    exact ⟨startMode p, starts.step_of_no_csr noCsr same,
      after ▸ conforms_process (legal.allowed p packet)⟩
  | none =>
    have noCommit : ∀ target, (port b target).commits = false := by
      intro target
      cases target with
      | csr => exact noCsr
      | memAccessCtrl => exact noMac
      | other => rfl
    exact ⟨mode, meets.step_of_no_csr noCsr same,
      (inv.waits.rest_step noCommit packet).conforms conforms⟩

theorem Inv.step (inv : Inv interconnect b) (legal : Legal interconnect b i)
    (restrained : Restrained b i) : Inv interconnect (step interconnect b i) where
  waits := inv.waits.step i
  follows := by
    cases csr : Csr.commits b.sys.csr with
    | true => exact inv.follows_csr csr
    | false =>
      cases mac : MemAccessCtrl.commits b.mac with
      | true => exact inv.follows_memAccessCtrl legal mac
      | false => exact inv.follows_no_commit legal restrained csr mac

/-- No fetch request is accepted while MicroBlaze has the memory, in any run in which
    no CSR write of the host leaves something to fetch while ENABLE is set. -/
theorem no_fetch_without_memory {is : List In}
    (legal : LegalRun (step interconnect) (Legal interconnect) (start maxInflight) is)
    (restrained : LegalRun (step interconnect) Restrained (start maxInflight) is) (i : In)
    (withMicroBlaze : (run (step interconnect) (start maxInflight) is).mac.initDone = false) :
    fetchHs interconnect (run (step interconnect) (start maxInflight) is) i = false := by
  have inv : Inv interconnect (run (step interconnect) (start maxInflight) is) :=
    (legal.and restrained).invariant
      (fun _ _ inv both => inv.step both.1 both.2) inv_start
  obtain ⟨mode, meets, -⟩ := inv.follows
  refine meets.no_fetch ?_
  rintro rfl
  exact absurd (withMicroBlaze.symm.trans meets.1) (by decide)

/-! ## Two scenarios in a row -/

/-- The windows of `protocol.h`, of 256 bytes each. -/
def addressMap : Interconnect where
  route addr :=
    if addr.extractLsb' 8 24 = 0x800000 then .csr
    else if addr.extractLsb' 8 24 = 0x600000 then .memAccessCtrl
    else .other
  route_csr := by decide
  route_memAccessCtrl := by decide

def ready : In :=
  { rx := none, tx := true, aw := true, w := true, b := true, ar := true, r := true, otherData := 0,
    fetchReqReady := true, asDone := false, dfError := false, bramInitDout := 0,
    memInitRdata := 0 }

def wordBytes (word : Word) : List Byte :=
  [word.setWidth 8, (word >>> 8).setWidth 8, (word >>> 16).setWidth 8, (word >>> 24).setWidth 8]

def sends (opcode : Byte) (addr : Word) (payload : List Byte) : List In :=
  (wordBytes packetSyncWord ++ [opcode] ++ wordBytes addr ++
    wordBytes (BitVec.ofNat 32 payload.length) ++ payload).map fun byte =>
      { ready with rx := some byte }

/-- RINGLEN 4 and TAIL 1, then a CMD_RUN_DMA to its ACK. -/
def firstScenario : List In :=
  List.replicate 2 ready ++
  sends cmdWriteCsr (csrAccessBase + csrRegRinglen) (wordBytes 4) ++ List.replicate 10 ready ++
  sends cmdWriteCsr (csrAccessBase + csrRegTail) (wordBytes 1) ++ List.replicate 10 ready ++
  sends cmdRunDma 0 [] ++ List.replicate 39 ready ++ [{ ready with asDone := true }] ++
  List.replicate 13 ready

set_option maxRecDepth 100000 in
theorem no_fetch_after_firstScenario :
    (run (step addressMap) (start 4) firstScenario).mac.initDone = false ∧
      fetchHs addressMap (run (step addressMap) (start 4) firstScenario) ready = false :=
  have withMicroBlaze : (run (step addressMap) (start 4) firstScenario).mac.initDone = false := by
    decide
  ⟨withMicroBlaze, no_fetch_without_memory (by decide) (by decide) ready withMicroBlaze⟩

set_option maxRecDepth 100000 in
/-- The next scenario's TAIL starts the DMA, before the host has sent a CMD_RUN_DMA. -/
theorem starts_without_memory :
    let is := firstScenario ++
      sends cmdWriteCsr (csrAccessBase + csrRegTail) (wordBytes 2) ++ List.replicate 2 ready
    LegalRun (step addressMap) (Legal addressMap) (start 4) is ∧
      (run (step addressMap) (start 4) is).mac.initDone = false ∧
        fetchHs addressMap (run (step addressMap) (start 4) is) ready = true := by
  decide

end Board

end AxiDma.Verified
