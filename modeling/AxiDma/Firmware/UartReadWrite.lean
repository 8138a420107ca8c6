import AxiDma.Lib.Program
import AxiDma.Rtl.DmaPkg

/-! # MicroBlaze firmware (`uart_read_write.c`, `protocol.h`)

The packet parser is a function of the bytes; the processing of a packet is a program of
bus accesses and serial output.  Arrays are read where they are written, so
`payload_buf`, which nothing reads, is left out.  The delay loop of `CMD_RUN_DMA` is
left out: time passes between any two operations anyway.
-/

namespace AxiDma.Firmware

open AxiDma.Lib AxiDma.Rtl

abbrev Byte := BitVec 8

/-! ## `protocol.h` -/

def packetSyncWord : Word := 0xDEADBEEF

def memAccessCtrlBase : Word := 0x60000000
def csrAccessBase : Word := 0x80000000

def regInitAddr : Word := 0x00
def regInitData : Word := 0x04
def regSramWr : Word := 0x08
def regSramRd : Word := 0x0C
def regMemWr : Word := 0x10
def regMemRd : Word := 0x14
def regRdata : Word := 0x18
def regInitDone : Word := 0x1C

def csrRegBaseaddr : Word := 0x00
def csrRegRinglen : Word := 0x04
def csrRegHead : Word := 0x08
def csrRegTail : Word := 0x0C
def csrRegCtrl : Word := 0x10
def csrRegStatus : Word := 0x14
def csrRegIrqStatus : Word := 0x18
def csrRegIrqClear : Word := 0x2C

def ctrlEnable : Word := 1
def ctrlReset : Word := 2

def statusBusy : Word := 1
def statusEmpty : Word := 2
def statusError : Word := 4

def cmdWriteSram : Byte := 0x01
def cmdWriteSysmem : Byte := 0x02
def cmdWriteCsr : Byte := 0x03
def cmdRunDma : Byte := 0x04
def cmdReadSram : Byte := 0x06
def cmdReadSysmem : Byte := 0x07
def cmdCrcSram : Byte := 0x08
def cmdCrcSysmem : Byte := 0x09
def cmdReadCsr : Byte := 0x0A
def cmdAck : Byte := 0xAA
def cmdNack : Byte := 0xEE

/-! ## Operations -/

/-- `Xil_Out32`, `Xil_In32`, `uart_write_byte` and `xil_printf`. -/
inductive Op where
  | out32 (addr data : Word)
  | in32 (addr : Word)
  | uartWriteByte (data : Byte)
  | xilPrintf (format : String) (args : List Word)
  deriving DecidableEq

abbrev Answer : Op → Type
  | .in32 _ => Word
  | _ => Unit

abbrev Prog := Program Op Answer

def out32 (addr data : Word) : Prog Unit := .call (Op.out32 addr data)
def in32 (addr : Word) : Prog Word := .call (Op.in32 addr)
def uartWriteByte (data : Byte) : Prog Unit := .call (Op.uartWriteByte data)
def xilPrintf (format : String) (args : List Word) : Prog Unit := .call (Op.xilPrintf format args)

/-! ## Shim accessors -/

def regWrite (offset val : Word) : Prog Unit := out32 (memAccessCtrlBase + offset) val
def regRead (offset : Word) : Prog Word := in32 (memAccessCtrlBase + offset)

def sysmemWrite (byteAddr data : Word) : Prog Unit := do
  regWrite regInitAddr byteAddr
  regWrite regInitData data
  regWrite regMemWr 1

def sysmemRead (byteAddr : Word) : Prog Word := do
  regWrite regInitAddr byteAddr
  regWrite regMemRd 1
  regRead regRdata

def sramWrite (byteAddr data : Word) : Prog Unit := do
  regWrite regInitAddr byteAddr
  regWrite regInitData data
  regWrite regSramWr 1

def sramRead (byteAddr : Word) : Prog Word := do
  regWrite regInitAddr byteAddr
  regWrite regSramRd 1
  regRead regRdata

/-! ## CRC32 -/

/-- One turn of the inner loop of `crc32_init_table`. -/
def crc32Bit (c : Word) : Word := if c.getLsbD 0 then 0xEDB88320 ^^^ (c >>> 1) else c >>> 1

/-- `crc32_table[i]`, as `crc32_init_table` leaves it. -/
def crc32Table (i : Byte) : Word := crc32Bit^[8] (i.setWidth 32)

def crc32Byte (crc : Word) (b : Byte) : Word := crc32Table (crc.setWidth 8 ^^^ b) ^^^ (crc >>> 8)

def crc32WordLe (crc word : Word) : Word :=
  let crc := crc32Byte crc (word.setWidth 8)
  let crc := crc32Byte crc ((word >>> 8).setWidth 8)
  let crc := crc32Byte crc ((word >>> 16).setWidth 8)
  crc32Byte crc ((word >>> 24).setWidth 8)

/-- The loop of both range functions: `count` more words from word `w` on. -/
def crc32Words (read : Word → Prog Word) (startByteAddr : Word) :
    Nat → Word → Word → Prog Word
  | 0, _, crc => pure crc
  | count + 1, w, crc => do
    let word ← read (startByteAddr + w * 4)
    crc32Words read startByteAddr count (w + 1) (crc32WordLe crc word)

def crc32SramRange (startByteAddr byteLength : Word) : Prog Word := do
  let crc ← crc32Words sramRead startByteAddr (byteLength.toNat / 4) 0 0xFFFFFFFF
  return crc ^^^ 0xFFFFFFFF

def crc32SysmemRange (startByteAddr byteLength : Word) : Prog Word := do
  let crc ← crc32Words sysmemRead startByteAddr (byteLength.toNat / 4) 0 0xFFFFFFFF
  return crc ^^^ 0xFFFFFFFF

/-! ## Serial output -/

def uartWriteU32 (data : Word) : Prog Unit := do
  uartWriteByte (data.setWidth 8)
  uartWriteByte ((data >>> 8).setWidth 8)
  uartWriteByte ((data >>> 16).setWidth 8)
  uartWriteByte ((data >>> 24).setWidth 8)

def sendAck (ackType : Byte) : Prog Unit := do
  uartWriteU32 packetSyncWord
  uartWriteByte ackType

/-! ## `CMD_RUN_DMA` -/

/-- At most `turns` reads of STATUS, until BUSY or ERROR; the last value read. -/
def waitBusy : Nat → Word → Prog Word
  | 0, status => pure status
  | turns + 1, _ => do
    let status ← in32 (csrAccessBase + csrRegStatus)
    -- a ring that is through before the first poll is never seen busy: all turns are used
    if status &&& statusBusy ≠ 0 ∨ status &&& statusError ≠ 0 then return status
    waitBusy turns status

/-- At most `turns` reads of STATUS, until ERROR, or EMPTY without BUSY; the turns left
    when the loop is left and the last value read. -/
def waitDone : Nat → Word → Prog (Nat × Word)
  | 0, status => pure (0, status)
  | turns + 1, _ => do
    let status ← in32 (csrAccessBase + csrRegStatus)
    -- ERROR is looked at first, also with an empty ring
    if status &&& statusError ≠ 0 then return (turns + 1, status)
    if status &&& statusEmpty ≠ 0 ∧ status &&& statusBusy = 0 then return (turns + 1, status)
    waitDone turns status

/-- From handing the memory to the DMA to the answer. -/
def startAndWait : Prog Unit := do
  regWrite regInitDone 1
  -- CTRL is read back, but the reset has cleared its other bits
  let ctrl ← in32 (csrAccessBase + csrRegCtrl)
  out32 (csrAccessBase + csrRegCtrl) (ctrl ||| ctrlEnable)
  let status ← waitBusy 10000 0
  let (left, status) ← waitDone 10000000 status
  regWrite regInitDone 0
  if status &&& statusError ≠ 0 ∨ left = 0 then
    xilPrintf "DMA failed: status=0x%08x\r\n" [status]
    sendAck cmdNack
  else
    xilPrintf "DMA done: status=0x%08x\r\n" [status]
    sendAck cmdAck

def runDma : Prog Unit := do
  let savedBaseaddr ← in32 (csrAccessBase + csrRegBaseaddr)
  let savedRinglen ← in32 (csrAccessBase + csrRegRinglen)
  let savedTail ← in32 (csrAccessBase + csrRegTail)
  -- the soft reset clears what was saved; the delay loop behind it makes no access
  out32 (csrAccessBase + csrRegCtrl) ctrlReset
  out32 (csrAccessBase + csrRegCtrl) 0
  out32 (csrAccessBase + csrRegIrqClear) 3
  out32 (csrAccessBase + csrRegBaseaddr) savedBaseaddr
  out32 (csrAccessBase + csrRegRinglen) savedRinglen
  out32 (csrAccessBase + csrRegTail) savedTail
  let headPre ← in32 (csrAccessBase + csrRegHead)
  let tailPre ← in32 (csrAccessBase + csrRegTail)
  xilPrintf "Triggering DMA... HEAD=%d TAIL=%d\r\n" [headPre, tailPre]
  if tailPre = 0 then
    xilPrintf "DMA ring empty (TAIL=0), nothing to do.\r\n" []
    sendAck cmdNack
  else startAndWait

/-! ## Packets -/

/-- What the parser hands to `STATE_PROCESS`. -/
structure Packet where
  opcode : Byte
  destAddr : Word
  payloadLen : Word
  payloadWord : Word
  deriving DecidableEq, Repr

/-- The three write commands: the access and its report, or a NACK for a short payload. -/
def writeCommand (p : Packet) (write : Word → Word → Prog Unit) (report : String) : Prog Unit :=
  if 4 ≤ p.payloadLen.toNat then do
    write p.destAddr p.payloadWord
    xilPrintf report [p.payloadWord, p.destAddr]
    sendAck cmdAck
  else sendAck cmdNack

/-- The three read commands; `addrFirst` is the order of the report's arguments. -/
def readCommand (p : Packet) (read : Word → Prog Word) (report : String) (addrFirst : Bool) :
    Prog Unit := do
  let val ← read p.destAddr
  xilPrintf report (if addrFirst then [p.destAddr, val] else [val, p.destAddr])
  sendAck cmdAck
  uartWriteU32 val

def crcCommand (p : Packet) (range : Word → Word → Prog Word) (report : String) : Prog Unit :=
  if 4 ≤ p.payloadLen.toNat then do
    let crc ← range p.destAddr p.payloadWord
    xilPrintf report [p.destAddr, p.payloadWord, crc]
    sendAck cmdAck
    uartWriteU32 crc
  else sendAck cmdNack

/-- `STATE_PROCESS`. -/
def process (p : Packet) : Prog Unit :=
  if p.opcode = cmdWriteSram then writeCommand p sramWrite "Wrote 0x%08x to SRAM[0x%08x]\r\n"
  else if p.opcode = cmdWriteSysmem then
    writeCommand p sysmemWrite "Wrote 0x%08x to SYSMEM[0x%08x]\r\n"
  else if p.opcode = cmdWriteCsr then writeCommand p out32 "Wrote 0x%08x to CSR[0x%08x]\r\n"
  else if p.opcode = cmdRunDma then runDma
  else if p.opcode = cmdReadSram then
    readCommand p sramRead "Read 0x%08x from SRAM[0x%08x]\r\n" false
  else if p.opcode = cmdReadSysmem then
    readCommand p sysmemRead "Read 0x%08x from SYSMEM[0x%08x]\r\n" false
  else if p.opcode = cmdCrcSram then
    crcCommand p crc32SramRange "CRC SRAM[0x%08x..+0x%x] = 0x%08x\r\n"
  else if p.opcode = cmdCrcSysmem then
    crcCommand p crc32SysmemRange "CRC SYSMEM[0x%08x..+0x%x] = 0x%08x\r\n"
  else if p.opcode = cmdReadCsr then
    readCommand p in32 "Read CSR[0x%08x] = 0x%08x\r\n" true
  else sendAck cmdNack

/-! ## The parser -/

inductive ParserState where
  | waitSync
  | readHeader
  | readPayload
  deriving DecidableEq, Repr

/-- The locals of `main`, with the number of bytes read in the current state. -/
structure Parser where
  state : ParserState
  syncBuffer : Word
  read : Nat
  packet : Packet
  deriving DecidableEq, Repr

def Parser.start : Parser :=
  { state := .waitSync, syncBuffer := 0, read := 0, packet := ⟨0, 0, 0, 0⟩ }

/-- `b << 8 * n` in 32 bits. -/
def lane (b : Byte) (n : Nat) : Word := b.setWidth 32 <<< (8 * n)

/-- Header byte `read`: the opcode, then two words, low byte first. -/
def headerByte (p : Packet) (read : Nat) (b : Byte) : Packet :=
  if read = 0 then { p with opcode := b }
  else if read = 1 then { p with destAddr := lane b 0 }
  else if read < 5 then { p with destAddr := p.destAddr ||| lane b (read - 1) }
  else if read = 5 then { p with payloadLen := lane b 0 }
  else { p with payloadLen := p.payloadLen ||| lane b (read - 5) }

/-- One received byte: the parser goes on, or hands over a packet. -/
def Parser.feed (s : Parser) (b : Byte) : Parser ⊕ Packet :=
  match s.state with
  | .waitSync =>
    -- the oldest of four bytes falls out at the low end
    let sync := s.syncBuffer >>> 8 ||| lane b 3
    .inl { s with syncBuffer := sync, read := 0,
                  state := if sync = packetSyncWord then .readHeader else .waitSync }
  | .readHeader =>
    let packet := headerByte s.packet s.read b
    if s.read < 8 then .inl { s with packet := packet, read := s.read + 1 }
    else
      -- nine bytes are in: opcode, address and length
      let packet := { packet with payloadWord := 0 }
      if 0 < packet.payloadLen.toNat then
        .inl { s with packet := packet, read := 0, state := .readPayload }
      else .inr packet
  | .readPayload =>
    -- payload bytes behind the fourth are read and dropped
    let packet := if s.read < 4 then
        { s.packet with payloadWord := s.packet.payloadWord ||| lane b s.read }
      else s.packet
    if s.read + 1 < packet.payloadLen.toNat then
      .inl { s with packet := packet, read := s.read + 1 }
    else .inr packet

/-- The loop of `main` on received bytes: the packets it hands to `STATE_PROCESS`, each of
    which leads back to `STATE_WAIT_SYNC`, and where the parser is left. -/
def Parser.receiveAll : Parser → List Byte → List Packet × Parser
  | s, [] => ([], s)
  | s, b :: bs =>
    match s.feed b with
    | .inl s => s.receiveAll bs
    | .inr packet => (packet :: (start.receiveAll bs).1, (start.receiveAll bs).2)

end AxiDma.Firmware
