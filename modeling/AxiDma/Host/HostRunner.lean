import AxiDma.Host.Struct

/-! # The host runner (`host_runner.py`) -/

namespace AxiDma.Host.HostRunner

def packetSyncWord : Int := 0xDEADBEEF

def buildPacket (opcode address : Int) (payload : Bytes) : Except StructError Bytes := do
  let header ← packIBII packetSyncWord opcode address payload.length
  pure (header ++ payload)

def computeCrc32 (zlibCrc32 : Bytes → Nat) (words : List Int) : Except StructError Nat := do
  let data ← packWords words
  pure (zlibCrc32 data &&& 0xFFFFFFFF)

end AxiDma.Host.HostRunner
