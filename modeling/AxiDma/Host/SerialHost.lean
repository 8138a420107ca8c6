import AxiDma.Host.Struct

/-! # The serial host (`serial_host.py`)

A call of `DMASerialHost` sends one packet and then waits.  What it does with each byte it reads
is `Reader.feed`; the timeouts are left out.
-/

namespace AxiDma.Host.SerialHost

open AxiDma.Lib

def packetSyncWord : Int := 0xDEADBEEF

/-- `_build_packet`. -/
def buildPacket (opcode address : Int) (payload : Bytes) : Except StructError Bytes := do
  let header ← packIBII packetSyncWord opcode address payload.length
  pure (header ++ payload)

/-- `_crc32_words`; `zlibCrc32` is `zlib.crc32`. -/
def crc32Words (zlibCrc32 : Bytes → Nat) (words : List Int) : Except StructError Nat := do
  let raw ← packWords words
  pure (zlibCrc32 raw &&& 0xFFFFFFFF)

/-! ## Requests -/

def cmdWriteSram : Int := 0x01
def cmdWriteSysmem : Int := 0x02
def cmdWriteCsr : Int := 0x03
def cmdRunDma : Int := 0x04
def cmdReadSram : Int := 0x06
def cmdReadSysmem : Int := 0x07
def cmdCrcSram : Int := 0x08
def cmdCrcSysmem : Int := 0x09
def cmdReadCsr : Int := 0x0A
def cmdAck : BitVec 8 := 0xAA

/-- The base addresses of a `DMASerialHost`. -/
structure DMASerialHost where
  csrBaseAddr : Int
  smemBaseAddr : Int
  sramBaseAddr : Int
  deriving DecidableEq, Repr

inductive Call where
  | csrWrite (byteOffset data : Int)
  | csrRead (byteOffset : Int)
  | smemWrite (byteAddr data : Int)
  | sramWrite (byteAddr data : Int)
  | readSmem (byteAddr : Int)
  | readSram (byteAddr : Int)
  | runDma
  | smemCrc (byteAddr byteLength : Int)
  | sramCrc (byteAddr byteLength : Int)
  deriving DecidableEq, Repr

/-- `v & 0xFFFFFFFF`. -/
def mask32 (v : Int) : Int := v % 2 ^ 32

/-- `_send_packet` with one word of payload. -/
def sendWord (opcode addr data : Int) : Except StructError Bytes := do
  let payload ← packI (mask32 data)
  buildPacket opcode addr payload

/-- What a call writes to the port. -/
def DMASerialHost.request (h : DMASerialHost) : Call → Except StructError Bytes
  | .csrWrite byteOffset data => sendWord cmdWriteCsr (mask32 (h.csrBaseAddr + byteOffset)) data
  | .csrRead byteOffset => buildPacket cmdReadCsr (mask32 (h.csrBaseAddr + byteOffset)) []
  | .smemWrite byteAddr data => sendWord cmdWriteSysmem (mask32 (h.smemBaseAddr + byteAddr)) data
  | .sramWrite byteAddr data => sendWord cmdWriteSram (mask32 (h.sramBaseAddr + byteAddr)) data
  | .readSmem byteAddr => buildPacket cmdReadSysmem (mask32 (h.smemBaseAddr + byteAddr)) []
  | .readSram byteAddr => buildPacket cmdReadSram (mask32 (h.sramBaseAddr + byteAddr)) []
  | .runDma => buildPacket cmdRunDma 0 []
  | .smemCrc byteAddr byteLength =>
    sendWord cmdCrcSysmem (mask32 (h.smemBaseAddr + byteAddr)) byteLength
  | .sramCrc byteAddr byteLength =>
    sendWord cmdCrcSram (mask32 (h.sramBaseAddr + byteAddr)) byteLength

/-! ## Responses -/

/-- The call reads four bytes after `_wait_for_ack`. -/
def Call.readsWord : Call → Bool
  | .csrWrite _ _ | .smemWrite _ _ | .sramWrite _ _ | .runDma => false
  | .csrRead _ | .readSmem _ | .readSram _ | .smemCrc _ _ | .sramCrc _ _ => true

inductive Outcome where
  | acked
  | word (value : BitVec 32)
  /-- `RuntimeError("FPGA returned NACK (0x%02x)")`. -/
  | nacked (resp : BitVec 8)
  deriving DecidableEq, Repr

/-- Where a call is: in the loop of `_wait_for_ack`, at its response byte, or in `read(4)`. -/
inductive Reader where
  | sync (syncVal : BitVec 32)
  | resp
  | data (bytes : Bytes)
  deriving DecidableEq, Repr

/-- `_wait_for_ack` starts with `sync_val = 0`. -/
def Reader.start : Reader := .sync 0

/-- One byte from the port: the call goes on, or is over. -/
def Reader.feed (readsWord : Bool) : Reader → BitVec 8 → Reader ⊕ Outcome
  | .sync syncVal, b =>
    let syncVal := syncVal >>> 8 ||| b.setWidth 32 <<< 24
    .inl (if syncVal = BitVec.ofInt 32 packetSyncWord then .resp else .sync syncVal)
  | .resp, b =>
    if b = cmdAck then if readsWord then .inl (.data []) else .inr .acked
    else .inr (.nacked b)
  | .data bytes, b =>
    let bytes := bytes ++ [b]
    if bytes.length = 4 then .inr (.word (wordLe bytes)) else .inl (.data bytes)

end AxiDma.Host.SerialHost
