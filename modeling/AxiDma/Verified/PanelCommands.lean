import AxiDma.Verified.Ownership
import AxiDma.Verified.Panel
import AxiDma.Verified.Replies

/-! # Commands while the DMA is at rest

Every command but RUN_DMA, a write of CTRL and a read of CTRL, STATUS or IRQ_STATUS is served by the panel:
the other registers may be written while CTRL is 0, and all else is allowed at any time (`along_of_only`),
so the FPGA serves a sequence of them as the panel does and answers with its replies.
-/

namespace AxiDma.Verified

open AxiDma.Lib AxiDma.Rtl AxiDma.Firmware

/-! ## Accesses that do not depend on the panel -/

namespace Panel

/-- Allowed on every panel, or on every one with CTRL 0 if registers are `written`. -/
def Calm (interconnect : Interconnect) (written : Prop) : Op → Prop
  | .out32 addr _ =>
    interconnect.route addr = .csr ∧ written ∧ addr.setWidth 8 ≠ Csr.regCtrl ∨
      interconnect.route addr = .memAccessCtrl ∧ addr.setWidth 8 ≠ MemAccessCtrl.regInitDone
  | .in32 addr =>
    interconnect.route addr = .csr ∧ addr.setWidth 8 ∈ ringRegs ∨ interconnect.route addr = .memAccessCtrl
  | _ => True

abbrev OnlyCalm {α : Type} (interconnect : Interconnect) (written : Prop) (prog : Prog α) : Prop :=
  prog.Only (Calm interconnect written)

variable {interconnect : Interconnect} {written : Prop} {depth : Memory → Nat} {p : Panel} {α : Type}

theorem Calm.allowed {op : Op} (calm : Calm interconnect written op) (clear : written → p.regs.ctrl = 0) :
    p.Allowed interconnect op := by
  cases op with
  | out32 addr data => exact calm.imp (fun here => ⟨here.1, clear here.2.1, here.2.2⟩) id
  | in32 addr => exact calm
  | uartWriteByte byte => trivial
  | xilPrintf format args => trivial

/-- CTRL keeps its value. -/
theorem Calm.ctrl {op : Op} (calm : Calm interconnect written op) :
    (p.access interconnect depth op).2.regs.ctrl = p.regs.ctrl := by
  cases op with
  | out32 addr data =>
    cases calm with
    | inl register =>
      obtain ⟨here, -, other⟩ := register
      rw [access, here]
      simp only [Csr.Regs.write, if_neg other, apply_ite Csr.Regs.ctrl, ite_self]
    | inr shim =>
      rw [access, shim.1]
  | in32 addr => rfl
  | uartWriteByte byte => rfl
  | xilPrintf format args => rfl

theorem ctrl_of_only {prog : Prog α} (only : OnlyCalm interconnect written prog) :
    (prog.exec (access interconnect depth) p).2.regs.ctrl = p.regs.ctrl := by
  induction prog generalizing p with
  | done a => rfl
  | act op next ih => exact (ih _ (only.2 _)).trans only.1.ctrl

/-- A calm program is allowed from end to end. -/
theorem along_of_only {prog : Prog α} (only : OnlyCalm interconnect written prog)
    (clear : written → p.regs.ctrl = 0) :
    prog.Along (access interconnect depth) (Allowed interconnect) p := by
  induction prog generalizing p with
  | done a => trivial
  | act op next ih =>
    exact ⟨only.1.allowed clear, ih _ (only.2 _) fun written => only.1.ctrl.trans (clear written)⟩

/-- What goes out is what the program sends. -/
theorem sent_exec (prog : Prog α) : (prog.exec (access interconnect depth) p).2.sent =
    p.sent ++ sentBytes (prog.trace (access interconnect depth) p) := by
  induction prog generalizing p with
  | done a => simp [sentBytes]
  | act op next ih =>
    rw [Program.exec_act, Program.trace_act, ih]
    cases op with
    | out32 addr data =>
      have same : (p.access interconnect depth (.out32 addr data)).2.sent = p.sent := by
        rw [access]
        cases interconnect.route addr <;> rfl
      rw [same]
      rfl
    | in32 addr => rfl
    | uartWriteByte byte => simp [access, sentBytes, sentByte?]
    | xilPrintf format args => rfl

end Panel

open Panel

/-! ## Programs of calm accesses -/

section Calm

variable {interconnect : Interconnect} {written : Prop} {α : Type}

theorem calm_pure (a : α) : OnlyCalm interconnect written (pure a : Prog α) := trivial

theorem calm_xilPrintf (format : String) (args : List Word) : OnlyCalm interconnect written (xilPrintf format args) :=
  ⟨trivial, fun _ => trivial⟩

theorem calm_uartWriteByte (data : Byte) : OnlyCalm interconnect written (uartWriteByte data) :=
  ⟨trivial, fun _ => trivial⟩

theorem calm_regWrite (reg : BitVec 8) (val : Word) (other : reg ≠ MemAccessCtrl.regInitDone) :
    OnlyCalm interconnect written (regWrite (reg.setWidth 32) val) :=
  ⟨.inr ⟨interconnect.route_memAccessCtrl reg, by rwa [memAccessCtrlAddr_lsb]⟩, fun _ => trivial⟩

theorem calm_regRead (reg : BitVec 8) : OnlyCalm interconnect written (regRead (reg.setWidth 32)) :=
  ⟨.inr (interconnect.route_memAccessCtrl reg), fun _ => trivial⟩

theorem calm_sramWrite (addr data : Word) : OnlyCalm interconnect written (sramWrite addr data) :=
  (calm_regWrite 0x00 addr (by decide)).bind fun _ =>
    (calm_regWrite 0x04 data (by decide)).bind fun _ => calm_regWrite 0x08 1 (by decide)

theorem calm_sysmemWrite (addr data : Word) : OnlyCalm interconnect written (sysmemWrite addr data) :=
  (calm_regWrite 0x00 addr (by decide)).bind fun _ =>
    (calm_regWrite 0x04 data (by decide)).bind fun _ => calm_regWrite 0x10 1 (by decide)

theorem calm_sramRead (addr : Word) : OnlyCalm interconnect written (sramRead addr) :=
  (calm_regWrite 0x00 addr (by decide)).bind fun _ =>
    (calm_regWrite 0x0C 1 (by decide)).bind fun _ => calm_regRead 0x18

theorem calm_sysmemRead (addr : Word) : OnlyCalm interconnect written (sysmemRead addr) :=
  (calm_regWrite 0x00 addr (by decide)).bind fun _ =>
    (calm_regWrite 0x14 1 (by decide)).bind fun _ => calm_regRead 0x18

/-- The loop of the CRC commands, by induction on the words that are left. -/
theorem calm_crc32Words {read : Word → Prog Word} (reads : ∀ addr, OnlyCalm interconnect written (read addr))
    (startByteAddr : Word) (count : Nat) (w crc : Word) :
    OnlyCalm interconnect written (crc32Words read startByteAddr count w crc) := by
  induction count generalizing w crc with
  | zero => exact calm_pure crc
  | succ count ih => exact (reads _).bind fun word => ih (w + 1) (crc32WordLe crc word)

theorem calm_uartWriteU32 (data : Word) : OnlyCalm interconnect written (uartWriteU32 data) :=
  (calm_uartWriteByte _).bind fun _ => (calm_uartWriteByte _).bind fun _ =>
    (calm_uartWriteByte _).bind fun _ => calm_uartWriteByte _

theorem calm_sendAck (ackType : Byte) : OnlyCalm interconnect written (sendAck ackType) :=
  (calm_uartWriteU32 _).bind fun _ => calm_uartWriteByte _

theorem calm_sendReply (r : Reply) : OnlyCalm interconnect written (sendReply r) := by
  cases r with
  | nack => exact calm_sendAck _
  | ack => exact calm_sendAck _
  | value val => exact (calm_sendAck _).bind fun _ => calm_uartWriteU32 val

variable {packet : Packet}

theorem calm_writeReply {write : Word → Word → Prog Unit} (report : String)
    (writes : OnlyCalm interconnect written (write packet.destAddr packet.payloadWord)) :
    OnlyCalm interconnect written (writeReply packet write report) := by
  unfold writeReply
  split
  · exact writes.bind fun _ => (calm_xilPrintf _ _).bind fun _ => calm_pure _
  · exact calm_pure _

theorem calm_readReply {read : Word → Prog Word} (report : String) (addrFirst : Bool)
    (reads : OnlyCalm interconnect written (read packet.destAddr)) :
    OnlyCalm interconnect written (readReply packet read report addrFirst) :=
  reads.bind fun _ => (calm_xilPrintf _ _).bind fun _ => calm_pure _

theorem calm_crcReply {range : Word → Word → Prog Word} (report : String)
    (ranges : OnlyCalm interconnect written (range packet.destAddr packet.payloadWord)) :
    OnlyCalm interconnect written (crcReply packet range report) := by
  unfold crcReply
  split
  · exact ranges.bind fun _ => (calm_xilPrintf _ _).bind fun _ => calm_pure _
  · exact calm_pure _

/-- Not RUN_DMA, and of the registers of the DMA only those of the ring; HEAD and the interrupt
    registers may be `written` too. -/
structure Plain (interconnect : Interconnect) (written : Prop) (packet : Packet) : Prop where
  noRun : packet.opcode ≠ cmdRunDma
  writes : packet.opcode = cmdWriteCsr →
    interconnect.route packet.destAddr = .csr ∧ written ∧ packet.destAddr.setWidth 8 ≠ Csr.regCtrl
  reads : packet.opcode = cmdReadCsr →
    interconnect.route packet.destAddr = .csr ∧ packet.destAddr.setWidth 8 ∈ ringRegs

theorem Plain.command (plain : Plain interconnect written packet) :
    OnlyCalm interconnect written (command packet) := by
  have crc {read : Word → Prog Word} (reads : ∀ addr, OnlyCalm interconnect written (read addr))
      (addr length : Word) :
      OnlyCalm interconnect written (do
        let crc ← crc32Words read addr (length.toNat / 4) 0 0xFFFFFFFF
        return crc ^^^ 0xFFFFFFFF) :=
    (calm_crc32Words reads _ _ _ _).bind fun _ => calm_pure _
  -- in the order of `process`
  unfold AxiDma.Verified.command
  split
  · exact calm_writeReply _ (calm_sramWrite _ _)
  split
  · exact calm_writeReply _ (calm_sysmemWrite _ _)
  split
  · exact calm_writeReply _ ⟨.inl (plain.writes ‹_›), fun _ => trivial⟩
  split
  · exact absurd ‹_› plain.noRun
  split
  · exact calm_readReply _ _ (calm_sramRead _)
  split
  · exact calm_readReply _ _ (calm_sysmemRead _)
  split
  · exact calm_crcReply _ (crc calm_sramRead _ _)
  split
  · exact calm_crcReply _ (crc calm_sysmemRead _ _)
  split
  · exact calm_readReply _ _ ⟨.inl (plain.reads ‹_›), fun _ => trivial⟩
  · exact calm_pure _

theorem Plain.process (plain : Plain interconnect written packet) :
    OnlyCalm interconnect written (process packet) := by
  rw [process_eq]
  exact plain.command.bind calm_sendReply

end Calm

/-! ## Sequences of commands -/

/-- One packet after the other. -/
def processAll : List Packet → Prog Unit
  | [] => pure ()
  | packet :: packets => do
    process packet
    processAll packets

/-- What the host gets back from a panel. -/
def replies (env : Panel → (op : Op) → Answer op × Panel) : Panel → List Packet → List Byte
  | _, [] => []
  | p, packet :: packets =>
    ((command packet).exec env p).1.bytes ++ replies env ((process packet).exec env p).2 packets

section Sequences

variable {interconnect : Interconnect} {written : Prop} {depth : Memory → Nat} {p : Panel}
  {packets : List Packet}

theorem calm_processAll (plain : ∀ packet ∈ packets, Plain interconnect written packet) :
    OnlyCalm interconnect written (processAll packets) := by
  induction packets with
  | nil => exact calm_pure ()
  | cons packet packets ih =>
    obtain ⟨first, others⟩ := List.forall_mem_cons.mp plain
    exact first.process.bind fun _ => ih others

theorem sent_processAll : ((processAll packets).exec (access interconnect depth) p).2.sent =
    p.sent ++ replies (access interconnect depth) p packets := by
  induction packets generalizing p with
  | nil => simp [processAll, replies]
  | cons packet packets ih =>
    rw [processAll, Program.exec_bind, ih, sent_exec, sentBytes_process, replies, List.append_assoc]

end Sequences

section OnFpga

open Fpga

/-- While INIT_DONE is 0 and the DMA is at rest, with CTRL at 0, or at ENABLE alone and HEAD at TAIL, the
    firmware serves any sequence of commands that do not start it, that read none of its registers but those
    of the ring, and that write registers only if CTRL is 0, and never CTRL.  Under any delays it is through
    within the given number of prompt cycles, what it has sent beside the text of `xil_printf` are the replies
    of the panel, registers and memories are those of the panel, and the DMA is still at rest. -/
theorem commands_on_fpga {k addrWidth log : Nat} {interconnect : Interconnect} {Q : Fpga k addrWidth → Prop}
    (still : Still (2 ^ log) interconnect Q) {written : Prop} {packets : List Packet}
    (plain : ∀ packet ∈ packets, Plain interconnect written packet) {p : Panel}
    (clear : written → p.regs.ctrl = 0)
    {s : Fpga k addrWidth} (at' : At (2 ^ log) interconnect Q p s) :
    let env := Panel.access interconnect (depths addrWidth (2 ^ log))
    let last := ((processAll packets).exec env p).2
    Ensures (device k addrWidth (2 ^ log) interconnect)
      (fun _ s => s.sent = p.sent ++ replies env p packets ∧ Csr.regs s.csr = last.regs ∧
        contents (2 ^ log) s.board = last.shim.mem ∧ At (2 ^ log) interconnect Q last s)
      ((processAll packets).total env cost p) ⟨s, processAll packets⟩ := by
  intro env last
  refine (ensures_exec still (along_of_only (calm_processAll plain) clear) at').mono (fun _ s after => ?_)
    (Nat.le_refl _)
  obtain ⟨-, at'⟩ := after
  exact ⟨at'.shows'.sent.trans sent_processAll, at'.shows'.regs, congrArg Shim.mem at'.shows'.shim, at'⟩

/-- A word is written and read, BASEADDR too, and the CRC of the word is asked for. -/
def fiveCommands : List Packet :=
  [⟨cmdWriteSysmem, 4, 4, 0x34333231⟩, ⟨cmdReadSysmem, 4, 0, 0⟩,
    ⟨cmdWriteCsr, csrAccessBase + csrRegBaseaddr, 4, 64⟩, ⟨cmdReadCsr, csrAccessBase + csrRegBaseaddr, 0, 0⟩,
    ⟨cmdCrcSysmem, 4, 4, 4⟩]

theorem commands_on_fpga_five : Csr.Regs.zero.ctrl = 0 ∧
    Ensures (device 1 3 (2 ^ 5) Board.addressMap)
      (fun _ s => s.sent = Reply.ack.bytes ++ (Reply.value 0x34333231).bytes ++ Reply.ack.bytes ++
        (Reply.value 64).bytes ++ (Reply.value 0x9BE3E0A3).bytes ∧ Dormant s.board.dma) 87
      ⟨Fpga.reset (boardOf fun _ => 0), processAll fiveCommands⟩ := by
  have plain : ∀ packet ∈ fiveCommands, Plain Board.addressMap True packet := by
    intro packet member
    have all : ∀ packet ∈ fiveCommands, packet.opcode ≠ cmdRunDma ∧
        (packet.opcode = cmdWriteCsr → Board.addressMap.route packet.destAddr = .csr ∧
          packet.destAddr.setWidth 8 ≠ Csr.regCtrl) ∧
        (packet.opcode = cmdReadCsr → Board.addressMap.route packet.destAddr = .csr ∧
          packet.destAddr.setWidth 8 ∈ ringRegs) := by decide
    obtain ⟨noRun, writes, reads⟩ := all packet member
    exact ⟨noRun, fun write => ⟨(writes write).1, trivial, (writes write).2⟩, reads⟩
  have answers : replies (Panel.access Board.addressMap (depths 3 (2 ^ 5)))
      (panelOf (2 ^ 5) (boardOf fun _ => 0)) fiveCommands = Reply.ack.bytes ++
        (Reply.value 0x34333231).bytes ++ Reply.ack.bytes ++ (Reply.value 64).bytes ++
          (Reply.value 0x9BE3E0A3).bytes := by decide +kernel
  refine ⟨rfl, (@commands_on_fpga 1 3 5 Board.addressMap Asleep still_asleep True fiveCommands plain
    _ (fun _ => rfl) _
    (at_reset (boardOf fun _ => 0))).mono
    (fun _ s after => ?_) (by decide +kernel)⟩
  obtain ⟨sent, -, -, at'⟩ := after
  exact ⟨sent.trans answers, at'.shows'.still.dormant⟩

end OnFpga

end AxiDma.Verified
