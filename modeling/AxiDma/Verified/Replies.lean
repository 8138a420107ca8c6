import AxiDma.Firmware.UartReadWrite
import AxiDma.Lib.ByteStream

/-! # Commands and their replies

Processing a packet is a command, which accesses the bus and reports in text, followed by
one reply frame: `process p = command p >>= sendReply`.  What the host decodes is in the
reply alone.
-/

namespace AxiDma.Verified

open AxiDma.Lib AxiDma.Rtl AxiDma.Firmware

/-! ## Operations of a program -/

def isAccess : Op → Bool
  | .out32 _ _ => true
  | .in32 _ => true
  | .uartWriteByte _ => false
  | .xilPrintf _ _ => false

/-- The bus accesses among operations. -/
def accesses (ops : List Op) : List Op := ops.filter isAccess

def sentByte? : Op → Option Byte
  | .uartWriteByte b => some b
  | _ => none

/-- The bytes `uart_write_byte` sends. -/
def sentBytes (ops : List Op) : List Byte := ops.filterMap sentByte?

@[simp] theorem accesses_append (xs ys : List Op) :
    accesses (xs ++ ys) = accesses xs ++ accesses ys := List.filter_append ..

@[simp] theorem sentBytes_append (xs ys : List Op) :
    sentBytes (xs ++ ys) = sentBytes xs ++ sentBytes ys := List.filterMap_append

/-! ## The reply -/

inductive Reply where
  | nack
  | ack
  /-- ACK, with the word of a read or of a CRC. -/
  | value (val : Word)
  deriving DecidableEq, Repr

def Reply.bytes : Reply → List Byte
  | .nack => bytesLe packetSyncWord ++ [cmdNack]
  | .ack => bytesLe packetSyncWord ++ [cmdAck]
  | .value val => bytesLe packetSyncWord ++ [cmdAck] ++ bytesLe val

def sendReply : Reply → Prog Unit
  | .nack => sendAck cmdNack
  | .ack => sendAck cmdAck
  | .value val => do
    sendAck cmdAck
    uartWriteU32 val

/-! ## The commands -/

def writeReply (p : Packet) (write : Word → Word → Prog Unit) (report : String) : Prog Reply :=
  if 4 ≤ p.payloadLen.toNat then do
    write p.destAddr p.payloadWord
    xilPrintf report [p.payloadWord, p.destAddr]
    return .ack
  else return .nack

def readReply (p : Packet) (read : Word → Prog Word) (report : String) (addrFirst : Bool) :
    Prog Reply := do
  let val ← read p.destAddr
  xilPrintf report (if addrFirst then [p.destAddr, val] else [val, p.destAddr])
  return .value val

def crcReply (p : Packet) (range : Word → Word → Prog Word) (report : String) : Prog Reply :=
  if 4 ≤ p.payloadLen.toNat then do
    let crc ← range p.destAddr p.payloadWord
    xilPrintf report [p.destAddr, p.payloadWord, crc]
    return .value crc
  else return .nack

def startAndWaitReply : Prog Reply := do
  regWrite regInitDone 1
  let ctrl ← in32 (csrAccessBase + csrRegCtrl)
  out32 (csrAccessBase + csrRegCtrl) (ctrl ||| ctrlEnable)
  let status ← waitBusy 10000 0
  let (left, status) ← waitDone 10000000 status
  regWrite regInitDone 0
  if status &&& statusError ≠ 0 ∨ left = 0 then
    xilPrintf "DMA failed: status=0x%08x\r\n" [status]
    return .nack
  else
    xilPrintf "DMA done: status=0x%08x\r\n" [status]
    return .ack

def runDmaReply : Prog Reply := do
  let savedBaseaddr ← in32 (csrAccessBase + csrRegBaseaddr)
  let savedRinglen ← in32 (csrAccessBase + csrRegRinglen)
  let savedTail ← in32 (csrAccessBase + csrRegTail)
  out32 (csrAccessBase + csrRegCtrl) ctrlReset
  out32 (csrAccessBase + csrRegCtrl) 0
  out32 (csrAccessBase + csrRegIrqClear) 3
  out32 (csrAccessBase + csrRegBaseaddr) savedBaseaddr
  out32 (csrAccessBase + csrRegRinglen) savedRinglen
  out32 (csrAccessBase + csrRegTail) savedTail
  let headPre ← in32 (csrAccessBase + csrRegHead)
  let tailPre ← in32 (csrAccessBase + csrRegTail)
  xilPrintf "Triggering DMA... HEAD=%d TAIL=%d\r\n" [headPre, tailPre]
  if tailPre = 0 then
    xilPrintf "DMA ring empty (TAIL=0), nothing to do.\r\n" []
    return .nack
  else startAndWaitReply

/-- `STATE_PROCESS` without the reply frame. -/
def command (p : Packet) : Prog Reply :=
  if p.opcode = cmdWriteSram then writeReply p sramWrite "Wrote 0x%08x to SRAM[0x%08x]\r\n"
  else if p.opcode = cmdWriteSysmem then
    writeReply p sysmemWrite "Wrote 0x%08x to SYSMEM[0x%08x]\r\n"
  else if p.opcode = cmdWriteCsr then writeReply p out32 "Wrote 0x%08x to CSR[0x%08x]\r\n"
  else if p.opcode = cmdRunDma then runDmaReply
  else if p.opcode = cmdReadSram then
    readReply p sramRead "Read 0x%08x from SRAM[0x%08x]\r\n" false
  else if p.opcode = cmdReadSysmem then
    readReply p sysmemRead "Read 0x%08x from SYSMEM[0x%08x]\r\n" false
  else if p.opcode = cmdCrcSram then
    crcReply p crc32SramRange "CRC SRAM[0x%08x..+0x%x] = 0x%08x\r\n"
  else if p.opcode = cmdCrcSysmem then
    crcReply p crc32SysmemRange "CRC SYSMEM[0x%08x..+0x%x] = 0x%08x\r\n"
  else if p.opcode = cmdReadCsr then
    readReply p in32 "Read CSR[0x%08x] = 0x%08x\r\n" true
  else return .nack

variable {p : Packet}

theorem bind_ite {α β : Type} (c : Prop) [Decidable c] (x y : Prog α) (f : α → Prog β) :
    (if c then x else y) >>= f = if c then x >>= f else y >>= f := by
  split <;> rfl

theorem writeCommand_eq (write : Word → Word → Prog Unit) (report : String) :
    writeCommand p write report = writeReply p write report >>= sendReply := by
  simp only [writeCommand, writeReply, bind_ite, Program.bind_assoc]
  rfl

theorem readCommand_eq (read : Word → Prog Word) (report : String) (addrFirst : Bool) :
    readCommand p read report addrFirst = readReply p read report addrFirst >>= sendReply := by
  simp only [readCommand, readReply, Program.bind_assoc]
  rfl

theorem crcCommand_eq (range : Word → Word → Prog Word) (report : String) :
    crcCommand p range report = crcReply p range report >>= sendReply := by
  simp only [crcCommand, crcReply, bind_ite, Program.bind_assoc]
  rfl

theorem startAndWait_eq : startAndWait = startAndWaitReply >>= sendReply := by
  simp only [startAndWait, startAndWaitReply, bind_ite, Program.bind_assoc]
  rfl

theorem runDma_eq : runDma = runDmaReply >>= sendReply := by
  simp only [runDma, runDmaReply, startAndWait_eq, bind_ite, Program.bind_assoc]
  rfl

/-- A packet is a command and its reply. -/
theorem process_eq (p : Packet) : process p = command p >>= sendReply := by
  simp only [process, command, writeCommand_eq, readCommand_eq, crcCommand_eq, runDma_eq, bind_ite]
  rfl

/-! ## Commands send nothing -/

/-- Programs that leave the serial line to `xil_printf`. -/
def quietly : Protocol Op Answer Unit where
  after _ op := if sentByte? op = none then some () else none
  answers _ _ := True

def Quiet {α : Type} (prog : Prog α) : Prop := Program.Conforms quietly (fun _ _ => True) () prog

variable {α β : Type}

theorem Quiet.pure (a : α) : Quiet (pure a : Prog α) := trivial

theorem Quiet.act {op : Op} {next : Answer op → Prog α} (silent : sentByte? op = none)
    (rest : ∀ answer, Quiet (next answer)) : Quiet (.act op next) :=
  ⟨(), by simp [quietly, silent], fun answer _ => rest answer⟩

theorem Quiet.of_act {op : Op} {next : Answer op → Prog α} (quiet : Quiet (.act op next)) :
    sentByte? op = none ∧ ∀ answer, Quiet (next answer) := by
  obtain ⟨_, allowed, rest⟩ := quiet
  refine ⟨?_, fun answer => rest answer trivial⟩
  by_contra sends
  simp [quietly, sends] at allowed

theorem Quiet.bind {prog : Prog α} {f : α → Prog β} (first : Quiet prog)
    (second : ∀ a, Quiet (f a)) : Quiet (prog >>= f) :=
  Program.Conforms.bind first fun _ a _ => second a

theorem Quiet.ite {c : Prop} [Decidable c] {x y : Prog α} (first : Quiet x) (second : Quiet y) :
    Quiet (if c then x else y) := by
  split
  · exact first
  · exact second

theorem quiet_out32 (addr data : Word) : Quiet (out32 addr data) := .act rfl .pure

theorem quiet_in32 (addr : Word) : Quiet (in32 addr) := .act rfl .pure

theorem quiet_xilPrintf (format : String) (args : List Word) : Quiet (xilPrintf format args) :=
  .act rfl .pure

theorem quiet_sramRead (byteAddr : Word) : Quiet (sramRead byteAddr) :=
  (quiet_out32 _ _).bind fun _ => (quiet_out32 _ _).bind fun _ => quiet_in32 _

theorem quiet_sysmemRead (byteAddr : Word) : Quiet (sysmemRead byteAddr) :=
  (quiet_out32 _ _).bind fun _ => (quiet_out32 _ _).bind fun _ => quiet_in32 _

theorem quiet_crc32Words {read : Word → Prog Word} (quiet : ∀ addr, Quiet (read addr))
    (start : Word) (count : Nat) (w crc : Word) : Quiet (crc32Words read start count w crc) := by
  induction count generalizing w crc with
  | zero => exact .pure crc
  | succ count ih => exact (quiet _).bind fun _ => ih _ _

theorem quiet_waitBusy (turns : Nat) (status : Word) : Quiet (waitBusy turns status) := by
  induction turns generalizing status with
  | zero => exact .pure status
  | succ turns ih => exact (quiet_in32 _).bind fun status => .ite (.pure status) (ih status)

theorem quiet_waitDone (turns : Nat) (status : Word) : Quiet (waitDone turns status) := by
  induction turns generalizing status with
  | zero => exact .pure (0, status)
  | succ turns ih =>
    exact (quiet_in32 _).bind fun status => .ite (.pure _) (.ite (.pure _) (ih status))

theorem quiet_startAndWaitReply : Quiet startAndWaitReply := by
  refine (quiet_out32 _ _).bind fun _ => (quiet_in32 _).bind fun _ => (quiet_out32 _ _).bind fun _ => ?_
  refine (quiet_waitBusy _ _).bind fun _ => (quiet_waitDone _ _).bind fun _ => ?_
  refine (quiet_out32 _ _).bind fun _ => .ite ?_ ?_
  · exact (quiet_xilPrintf _ _).bind fun _ => .pure _
  · exact (quiet_xilPrintf _ _).bind fun _ => .pure _

theorem quiet_runDmaReply : Quiet runDmaReply := by
  refine (quiet_in32 _).bind fun _ => (quiet_in32 _).bind fun _ => (quiet_in32 _).bind fun _ => ?_
  refine (quiet_out32 _ _).bind fun _ => (quiet_out32 _ _).bind fun _ => ?_
  refine (quiet_out32 _ _).bind fun _ => (quiet_out32 _ _).bind fun _ => ?_
  refine (quiet_out32 _ _).bind fun _ => (quiet_out32 _ _).bind fun _ => ?_
  refine (quiet_in32 _).bind fun _ => (quiet_in32 _).bind fun _ => ?_
  refine (quiet_xilPrintf _ _).bind fun _ => .ite ?_ quiet_startAndWaitReply
  exact (quiet_xilPrintf _ _).bind fun _ => .pure _

theorem quiet_writeReply {write : Word → Word → Prog Unit} (quiet : ∀ addr data, Quiet (write addr data))
    (report : String) : Quiet (writeReply p write report) :=
  .ite ((quiet _ _).bind fun _ => (quiet_xilPrintf _ _).bind fun _ => .pure _) (.pure _)

theorem quiet_readReply {read : Word → Prog Word} (quiet : ∀ addr, Quiet (read addr))
    (report : String) (addrFirst : Bool) : Quiet (readReply p read report addrFirst) :=
  (quiet _).bind fun _ => (quiet_xilPrintf _ _).bind fun _ => .pure _

theorem quiet_crcReply {range : Word → Word → Prog Word} (quiet : ∀ addr len, Quiet (range addr len))
    (report : String) : Quiet (crcReply p range report) :=
  .ite ((quiet _ _).bind fun _ => (quiet_xilPrintf _ _).bind fun _ => .pure _) (.pure _)

/-- Only the reply goes over the serial line, but for text. -/
theorem quiet_command (p : Packet) : Quiet (command p) := by
  have sramWrites : ∀ addr data, Quiet (sramWrite addr data) := fun _ _ =>
    (quiet_out32 _ _).bind fun _ => (quiet_out32 _ _).bind fun _ => quiet_out32 _ _
  have sysmemWrites : ∀ addr data, Quiet (sysmemWrite addr data) := fun _ _ =>
    (quiet_out32 _ _).bind fun _ => (quiet_out32 _ _).bind fun _ => quiet_out32 _ _
  have sramRange : ∀ addr len, Quiet (crc32SramRange addr len) := fun _ _ =>
    (quiet_crc32Words quiet_sramRead _ _ _ _).bind fun _ => .pure _
  have sysmemRange : ∀ addr len, Quiet (crc32SysmemRange addr len) := fun _ _ =>
    (quiet_crc32Words quiet_sysmemRead _ _ _ _).bind fun _ => .pure _
  unfold command
  refine .ite (quiet_writeReply sramWrites _) (.ite (quiet_writeReply sysmemWrites _) ?_)
  refine .ite (quiet_writeReply quiet_out32 _) (.ite quiet_runDmaReply ?_)
  refine .ite (quiet_readReply quiet_sramRead _ _) (.ite (quiet_readReply quiet_sysmemRead _ _) ?_)
  refine .ite (quiet_crcReply sramRange _) (.ite (quiet_crcReply sysmemRange _) ?_)
  exact .ite (quiet_readReply quiet_in32 _ _) (.pure _)

/-! ## Traces -/

section Trace

variable {σ : Type} {env : σ → (op : Op) → Answer op × σ} {s : σ}

theorem Quiet.sentBytes {prog : Prog α} (quiet : Quiet prog) : sentBytes (prog.trace env s) = [] := by
  induction prog generalizing s with
  | done a => rfl
  | act op next ih =>
    obtain ⟨silent, rest⟩ := quiet.of_act
    rw [Program.trace_act, AxiDma.Verified.sentBytes, List.filterMap_cons, silent]
    exact ih _ (rest _)

theorem trace_sendReply (r : Reply) : (sendReply r).trace env s = r.bytes.map .uartWriteByte := by
  cases r <;> rfl

theorem trace_process (p : Packet) : (process p).trace env s =
    (command p).trace env s ++ ((command p).exec env s).1.bytes.map .uartWriteByte := by
  rw [process_eq, Program.trace_bind, trace_sendReply]

/-- What `uart_write_byte` sends for a packet is the reply. -/
theorem sentBytes_process (p : Packet) :
    sentBytes ((process p).trace env s) = ((command p).exec env s).1.bytes := by
  have all : ∀ bs : List Byte, sentBytes (bs.map .uartWriteByte) = bs := by
    intro bs
    induction bs with
    | nil => rfl
    | cons b bs ih => exact congrArg (b :: ·) ih
  rw [trace_process, sentBytes_append, (quiet_command p).sentBytes, all, List.nil_append]

theorem accesses_process (p : Packet) :
    accesses ((process p).trace env s) = accesses ((command p).trace env s) := by
  have none : ∀ bs : List Byte, accesses (bs.map .uartWriteByte) = [] := by
    intro bs
    induction bs with
    | nil => rfl
    | cons b bs ih => exact ih
  rw [trace_process, accesses_append, none, List.append_nil]

end Trace

end AxiDma.Verified
