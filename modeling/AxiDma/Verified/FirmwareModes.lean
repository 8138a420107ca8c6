import AxiDma.Firmware.Board

/-! # Who owns the memory

A mode tells what the firmware knows about ENABLE, RESET and INIT_DONE; `ownership` lets
an access pass when it keeps the DMA from starting without the memory.  Every command
conforms, from a mode that a CSR write of the host must find (`conforms_process`).
-/

namespace AxiDma.Verified

open AxiDma.Lib AxiDma.Rtl AxiDma.Firmware

inductive Mode where
  /-- MicroBlaze has the memory and nothing is to be fetched. -/
  | resting
  /-- As `resting`, also after the host's write of `data` to the CSR at `addr`. -/
  | hostWrite (addr data : Word)
  /-- MicroBlaze has the memory and ENABLE is clear. -/
  | disabled
  /-- As `disabled`, and RESET is clear. -/
  | cleared
  /-- The DMA has the memory. -/
  | owned
  deriving DecidableEq

def afterCtrl (data : Word) : Mode → Option Mode
  | .resting => if data.getLsbD 0 = false then some .disabled else none
  | .disabled => if data.getLsbD 0 = false ∧ data.getLsbD 1 = false then some .cleared else none
  | .owned => if data.getLsbD 1 = false then some .owned else none
  | .hostWrite _ _ | .cleared => none

def afterCsr (addr data : Word) : Mode → Option Mode
  | .resting => none
  | .hostWrite addr' data' => if addr' = addr ∧ data' = data then some .resting else none
  | .disabled => some .disabled
  | .cleared => some .cleared
  | .owned => some .owned

def afterInitDone (data : Word) : Mode → Option Mode
  | .cleared => if data.getLsbD 0 = true then some .owned else none
  | .owned => if data = 0 then some .resting else none
  | .resting | .hostWrite _ _ | .disabled => none

def afterWrite (interconnect : Interconnect) (mode : Mode) (addr data : Word) : Option Mode :=
  match interconnect.route addr with
  | .csr =>
    if addr.setWidth 8 = Csr.regCtrl then afterCtrl data mode else afterCsr addr data mode
  | .memAccessCtrl =>
    if addr.setWidth 8 = MemAccessCtrl.regInitDone then afterInitDone data mode else some mode
  | .other => some mode

/-- CTRL reads back with RESET clear; nothing is assumed of other answers. -/
def Answered (interconnect : Interconnect) : (op : Op) → Answer op → Prop
  | .in32 addr, data =>
    interconnect.route addr = .csr → addr.setWidth 8 = Csr.regCtrl → data.getLsbD 1 = false
  | _, _ => True

def ownership (interconnect : Interconnect) : Protocol Op Answer Mode where
  after mode op :=
    match op with
    | .out32 addr data => afterWrite interconnect mode addr data
    | _ => some mode
  answers := Answered interconnect

/-- A command that leaves the memory with MicroBlaze. -/
abbrev Conforms (interconnect : Interconnect) (mode : Mode) (prog : Prog Unit) : Prop :=
  Program.Conforms (ownership interconnect) (fun mode _ => mode ≠ .owned) mode prog

variable {interconnect : Interconnect} {mode : Mode} {α β : Type}

/-! ## Registers -/

/-- The slaves decode the low byte: the offset in a window that starts at a multiple of 256. -/
theorem setWidth_base_add {base : Word} (aligned : base.toNat % 256 = 0) (reg : BitVec 8) :
    (base + reg.setWidth 32).setWidth 8 = reg := by
  apply BitVec.eq_of_toNat_eq
  have bound := reg.isLt
  simp only [BitVec.toNat_setWidth, BitVec.toNat_add]
  omega

theorem csrAddr_lsb (reg : BitVec 8) : (csrAccessBase + reg.setWidth 32).setWidth 8 = reg :=
  setWidth_base_add (by decide) reg

theorem memAccessCtrlAddr_lsb (reg : BitVec 8) :
    (memAccessCtrlBase + reg.setWidth 32).setWidth 8 = reg :=
  setWidth_base_add (by decide) reg

theorem afterWrite_csr (reg : BitVec 8) (data : Word) :
    afterWrite interconnect mode (csrAccessBase + reg.setWidth 32) data =
      if reg = Csr.regCtrl then afterCtrl data mode
      else afterCsr (csrAccessBase + reg.setWidth 32) data mode := by
  simp only [afterWrite, interconnect.route_csr, csrAddr_lsb]

theorem afterWrite_memAccessCtrl (reg : BitVec 8) (data : Word) :
    afterWrite interconnect mode (memAccessCtrlBase + reg.setWidth 32) data =
      if reg = MemAccessCtrl.regInitDone then afterInitDone data mode else some mode := by
  simp only [afterWrite, interconnect.route_memAccessCtrl, memAccessCtrlAddr_lsb]

/-! ## Programs that stay in a mode -/

/-- The program keeps to one mode. -/
abbrev Keeps (interconnect : Interconnect) (mode : Mode) (prog : Prog α) : Prop :=
  Program.Conforms (ownership interconnect) (fun mode' _ => mode' = mode) mode prog

theorem Keeps.bind {p : Prog α} {f : α → Prog β} (first : Keeps interconnect mode p)
    (second : ∀ a, Keeps interconnect mode (f a)) : Keeps interconnect mode (p >>= f) := by
  refine Program.Conforms.bind first ?_
  rintro mode' a rfl
  exact second a

theorem Keeps.conforms {p : Prog α} {post : Mode → α → Prop} (keeps : Keeps interconnect mode p)
    (ends : ∀ a, post mode a) : Program.Conforms (ownership interconnect) post mode p := by
  refine Program.Conforms.mono keeps ?_
  rintro mode' a rfl
  exact ends a

theorem Keeps.ends {p : Prog Unit} (keeps : Keeps interconnect mode p) (notOwned : mode ≠ .owned) :
    Conforms interconnect mode p := keeps.conforms fun _ => notOwned

theorem keeps_pure (a : α) : Keeps interconnect mode (pure a : Prog α) := rfl

theorem keeps_in32 (addr : Word) : Keeps interconnect mode (in32 addr) :=
  ⟨mode, rfl, fun _ _ => rfl⟩

theorem keeps_uartWriteByte (data : Byte) : Keeps interconnect mode (uartWriteByte data) :=
  ⟨mode, rfl, fun _ _ => rfl⟩

theorem keeps_xilPrintf (format : String) (args : List Word) :
    Keeps interconnect mode (xilPrintf format args) :=
  ⟨mode, rfl, fun _ _ => rfl⟩

/-- The registers of the shim other than INIT_DONE. -/
theorem keeps_regWrite (reg : BitVec 8) (val : Word) (other : reg ≠ MemAccessCtrl.regInitDone) :
    Keeps interconnect mode (regWrite (reg.setWidth 32) val) := by
  refine ⟨mode, ?_, fun _ _ => rfl⟩
  change afterWrite interconnect mode (memAccessCtrlBase + reg.setWidth 32) val = some mode
  rw [afterWrite_memAccessCtrl, if_neg other]

theorem keeps_sramWrite (addr data : Word) : Keeps interconnect mode (sramWrite addr data) :=
  (keeps_regWrite 0x00 addr (by decide)).bind fun _ =>
    (keeps_regWrite 0x04 data (by decide)).bind fun _ => keeps_regWrite 0x08 1 (by decide)

theorem keeps_sysmemWrite (addr data : Word) : Keeps interconnect mode (sysmemWrite addr data) :=
  (keeps_regWrite 0x00 addr (by decide)).bind fun _ =>
    (keeps_regWrite 0x04 data (by decide)).bind fun _ => keeps_regWrite 0x10 1 (by decide)

theorem keeps_sramRead (addr : Word) : Keeps interconnect mode (sramRead addr) :=
  (keeps_regWrite 0x00 addr (by decide)).bind fun _ =>
    (keeps_regWrite 0x0C 1 (by decide)).bind fun _ => keeps_in32 _

theorem keeps_sysmemRead (addr : Word) : Keeps interconnect mode (sysmemRead addr) :=
  (keeps_regWrite 0x00 addr (by decide)).bind fun _ =>
    (keeps_regWrite 0x14 1 (by decide)).bind fun _ => keeps_in32 _

theorem keeps_uartWriteU32 (data : Word) : Keeps interconnect mode (uartWriteU32 data) :=
  (keeps_uartWriteByte _).bind fun _ => (keeps_uartWriteByte _).bind fun _ =>
    (keeps_uartWriteByte _).bind fun _ => keeps_uartWriteByte _

theorem keeps_sendAck (ackType : Byte) : Keeps interconnect mode (sendAck ackType) :=
  (keeps_uartWriteU32 _).bind fun _ => keeps_uartWriteByte _

theorem keeps_crc32Words {read : Word → Prog Word}
    (reads : ∀ addr, Keeps interconnect mode (read addr)) (startByteAddr : Word) (count : Nat)
    (w crc : Word) : Keeps interconnect mode (crc32Words read startByteAddr count w crc) := by
  induction count generalizing w crc with
  | zero => exact keeps_pure crc
  | succ count inductionHypothesis =>
    exact (reads _).bind fun word => inductionHypothesis (w + 1) (crc32WordLe crc word)

theorem keeps_crc32SramRange (addr length : Word) :
    Keeps interconnect mode (crc32SramRange addr length) :=
  (keeps_crc32Words keeps_sramRead ..).bind fun _ => keeps_pure _

theorem keeps_crc32SysmemRange (addr length : Word) :
    Keeps interconnect mode (crc32SysmemRange addr length) :=
  (keeps_crc32Words keeps_sysmemRead ..).bind fun _ => keeps_pure _

theorem keeps_waitBusy (turns : Nat) (status : Word) :
    Keeps interconnect mode (waitBusy turns status) := by
  induction turns generalizing status with
  | zero => exact keeps_pure status
  | succ turns inductionHypothesis =>
    refine (keeps_in32 _).bind fun status => ?_
    split
    · exact keeps_pure status
    · exact inductionHypothesis status

theorem keeps_waitDone (turns : Nat) (status : Word) :
    Keeps interconnect mode (waitDone turns status) := by
  induction turns generalizing status with
  | zero => exact keeps_pure (0, status)
  | succ turns inductionHypothesis =>
    refine (keeps_in32 _).bind fun status => ?_
    split
    · exact keeps_pure (turns + 1, status)
    · split
      · exact keeps_pure (turns + 1, status)
      · exact inductionHypothesis status

/-! ## The commands -/

theorem keeps_readCommand (p : Packet) {read : Word → Prog Word}
    (reads : ∀ addr, Keeps interconnect mode (read addr)) (report : String) (addrFirst : Bool) :
    Keeps interconnect mode (readCommand p read report addrFirst) :=
  (reads _).bind fun _ => (keeps_xilPrintf _ _).bind fun _ =>
    (keeps_sendAck _).bind fun _ => keeps_uartWriteU32 _

theorem keeps_crcCommand (p : Packet) {range : Word → Word → Prog Word}
    (ranges : ∀ addr length, Keeps interconnect mode (range addr length)) (report : String) :
    Keeps interconnect mode (crcCommand p range report) := by
  unfold crcCommand
  split
  · exact (ranges _ _).bind fun _ => (keeps_xilPrintf _ _).bind fun _ =>
      (keeps_sendAck _).bind fun _ => keeps_uartWriteU32 _
  · exact keeps_sendAck _

theorem keeps_writeCommand (p : Packet) {write : Word → Word → Prog Unit}
    (writes : ∀ addr data, Keeps interconnect mode (write addr data)) (report : String) :
    Keeps interconnect mode (writeCommand p write report) := by
  unfold writeCommand
  split
  · exact (writes _ _).bind fun _ => (keeps_xilPrintf _ _).bind fun _ => keeps_sendAck _
  · exact keeps_sendAck _

/-! ### `CMD_RUN_DMA` -/

theorem conforms_out32_csr (reg : BitVec 8) (mode' : Mode) {data : Word}
    {next : Unit → Prog Unit} (leads : (if reg = Csr.regCtrl then afterCtrl data mode
      else afterCsr (csrAccessBase + reg.setWidth 32) data mode) = some mode')
    (rest : Conforms interconnect mode' (next ())) :
    Conforms interconnect mode (out32 (csrAccessBase + reg.setWidth 32) data >>= next) :=
  ⟨mode', (afterWrite_csr reg data).trans leads, fun _ _ => rest⟩

theorem conforms_initDone {data : Word} {next : Unit → Prog Unit} {mode' : Mode}
    (leads : afterInitDone data mode = some mode') (rest : Conforms interconnect mode' (next ())) :
    Conforms interconnect mode (regWrite regInitDone data >>= next) :=
  ⟨mode', (afterWrite_memAccessCtrl MemAccessCtrl.regInitDone data).trans leads, fun _ _ => rest⟩

theorem Keeps.then {p : Prog α} {next : α → Prog Unit} (keeps : Keeps interconnect mode p)
    (rest : ∀ a, Conforms interconnect mode (next a)) :
    Conforms interconnect mode (p >>= next) := by
  refine Program.Conforms.bind keeps ?_
  rintro mode' a rfl
  exact rest a

/-- The memory is handed over first and ENABLE set then; at the end it is taken back. -/
theorem conforms_startAndWait : Conforms interconnect .cleared startAndWait := by
  refine conforms_initDone rfl ?_
  -- the value read back has RESET clear, so the write that sets ENABLE keeps it clear
  refine ⟨.owned, rfl, fun ctrl answered => ?_⟩
  have noReset : ctrl.getLsbD 1 = false :=
    answered (interconnect.route_csr 0x10) (csrAddr_lsb 0x10)
  have keepsClear : (ctrl ||| ctrlEnable).getLsbD 1 = false := by
    rw [BitVec.getLsbD_or, noReset]
    rfl
  refine conforms_out32_csr 0x10 .owned (if_pos keepsClear) ?_
  refine (keeps_waitBusy _ _).then fun status => ?_
  refine (keeps_waitDone _ _).then fun left => ?_
  refine conforms_initDone rfl ?_
  split
  · refine (keeps_xilPrintf _ _).then fun _ => ?_
    exact (keeps_sendAck _).ends (by decide)
  · refine (keeps_xilPrintf _ _).then fun _ => ?_
    exact (keeps_sendAck _).ends (by decide)

theorem conforms_runDma : Conforms interconnect .resting runDma := by
  refine (keeps_in32 _).then fun savedBaseaddr => ?_
  refine (keeps_in32 _).then fun savedRinglen => ?_
  refine (keeps_in32 _).then fun savedTail => ?_
  refine conforms_out32_csr 0x10 .disabled rfl ?_
  refine conforms_out32_csr 0x10 .cleared rfl ?_
  refine conforms_out32_csr 0x2C .cleared rfl ?_
  refine conforms_out32_csr 0x00 .cleared rfl ?_
  refine conforms_out32_csr 0x04 .cleared rfl ?_
  refine conforms_out32_csr 0x0C .cleared rfl ?_
  refine (keeps_in32 _).then fun headPre => ?_
  refine (keeps_in32 _).then fun tailPre => ?_
  refine (keeps_xilPrintf _ _).then fun _ => ?_
  split
  · refine (keeps_xilPrintf _ _).then fun _ => ?_
    exact (keeps_sendAck _).ends (by decide)
  · exact conforms_startAndWait

/-! ### All packets -/

def configRegs : List (BitVec 8) :=
  [Csr.regBaseaddr, Csr.regRinglen, Csr.regHead, Csr.regTail, Csr.regStatus, Csr.regIrqStatus,
    Csr.regIrqClear]

/-- A packet is a CSR write only for a register other than CTRL. -/
def Allowed (p : Packet) : Prop :=
  p.opcode = cmdWriteCsr → ∃ reg ∈ configRegs, p.destAddr = csrAccessBase + reg.setWidth 32

instance (p : Packet) : Decidable (Allowed p) := inferInstanceAs (Decidable (_ → _))

/-- The packet makes the firmware write a CSR. -/
def WritesCsr (p : Packet) : Prop := p.opcode = cmdWriteCsr ∧ 4 ≤ p.payloadLen.toNat

instance (p : Packet) : Decidable (WritesCsr p) := inferInstanceAs (Decidable (_ ∧ _))

/-- The mode in which the processing of a packet begins. -/
def startMode (p : Packet) : Mode :=
  if WritesCsr p then .hostWrite p.destAddr p.payloadWord else .resting

theorem conforms_writeCsr {p : Packet} (writes : WritesCsr p) (allowed : Allowed p)
    (report : String) :
    Conforms interconnect (.hostWrite p.destAddr p.payloadWord) (writeCommand p out32 report) := by
  obtain ⟨reg, config, addr⟩ := allowed writes.1
  have notCtrl : reg ≠ Csr.regCtrl := by
    rintro rfl
    exact absurd config (by decide)
  rw [writeCommand, if_pos writes.2]
  refine ⟨.resting, ?_, fun _ _ => ?_⟩
  · change afterWrite interconnect _ p.destAddr p.payloadWord = some _
    rw [addr, afterWrite_csr, if_neg notCtrl, afterCsr, if_pos ⟨rfl, rfl⟩]
  · refine (keeps_xilPrintf _ _).then fun _ => ?_
    exact (keeps_sendAck _).ends (by decide)

/-- Every command keeps to the rules of ownership. -/
theorem conforms_process {p : Packet} (allowed : Allowed p) :
    Conforms interconnect (startMode p) (process p) := by
  unfold startMode
  by_cases writes : WritesCsr p
  · rw [if_pos writes]
    have opcode := writes.1
    unfold process
    rw [if_neg (by rw [opcode]; decide), if_neg (by rw [opcode]; decide), if_pos opcode]
    exact conforms_writeCsr writes allowed _
  · rw [if_neg writes]
    unfold process
    split
    · exact (keeps_writeCommand p keeps_sramWrite _).ends (by decide)
    split
    · exact (keeps_writeCommand p keeps_sysmemWrite _).ends (by decide)
    split
    · rename_i opcode
      rw [writeCommand, if_neg fun long => writes ⟨opcode, long⟩]
      exact (keeps_sendAck _).ends (by decide)
    split
    · exact conforms_runDma
    split
    · exact (keeps_readCommand p keeps_sramRead _ _).ends (by decide)
    split
    · exact (keeps_readCommand p keeps_sysmemRead _ _).ends (by decide)
    split
    · exact (keeps_crcCommand p keeps_crc32SramRange _).ends (by decide)
    split
    · exact (keeps_crcCommand p keeps_crc32SysmemRange _).ends (by decide)
    split
    · exact (keeps_readCommand p keeps_in32 _ _).ends (by decide)
    · exact (keeps_sendAck _).ends (by decide)

end AxiDma.Verified
