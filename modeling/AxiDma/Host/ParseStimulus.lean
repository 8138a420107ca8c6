import AxiDma.Host.HostRunner
import AxiDma.Host.Stimulus

/-! # The prediction of `host_runner.py`

`parse_stimulus` sends the directives of a stimulus file to the board, keeps what it has loaded
in dictionaries, and reads off them which words each descriptor will move.
-/

namespace AxiDma.Host.HostRunner

open AxiDma.Lib
open AxiDma.Host.Stimulus (sysmemWrite sramWrite csrWrite)

inductive RunnerError where
  | valueError
  | indexError
  | struct (e : StructError)
  /-- `sys.exit(code)`. -/
  | exit (code : Nat)
  deriving DecidableEq, Repr

abbrev Runner := Except RunnerError

def cmdWriteSram : Int := 0x01
def cmdWriteSysmem : Int := 0x02
def cmdWriteCsr : Int := 0x03
def cmdReadSram : Int := 0x06
def cmdReadSysmem : Int := 0x07

def csrOffBaseaddr : Int := 0x00
def csrOffTail : Int := 0x0C

/-! ## Directives -/

def sysmemRead : List Char := ['s', 'y', 's', 'm', 'e', 'm', '_', 'r', 'e', 'a', 'd']
def sramRead : List Char := ['s', 'r', 'a', 'm', '_', 'r', 'e', 'a', 'd']

inductive Directive where
  | csrWrite (offset value : Int)
  | sysmemWrite (addr value : Int)
  | sramWrite (addr value : Int)
  | sysmemRead (addr : Int)
  | sramRead (addr : Int)
  | skip
  deriving DecidableEq, Repr

/-- `int(parts[i], 16)`. -/
def intPart (parts : List (List Char)) (i : Nat) : Runner Int :=
  match parts[i]? with
  | none => throw .indexError
  | some s =>
    match readHex s with
    | some v => pure v
    | none => throw .valueError

/-- A line; a blank one or a comment is skipped. -/
def parseLine (line : List Char) : Runner Directive :=
  let parts := splitWords line
  match parts with
  | [] => pure .skip
  | op :: _ =>
    if op.head? = some '#' then pure .skip
    else if op = csrWrite then do
      let offset ← intPart parts 1
      let value ← intPart parts 2
      pure (.csrWrite offset value)
    else if op = sysmemWrite then do
      let addr ← intPart parts 1
      let value ← intPart parts 2
      pure (.sysmemWrite addr value)
    else if op = sramWrite then do
      let addr ← intPart parts 1
      let value ← intPart parts 2
      pure (.sramWrite addr value)
    else if op = sysmemRead then do
      let addr ← intPart parts 1
      pure (.sysmemRead addr)
    else if op = sramRead then do
      let addr ← intPart parts 1
      pure (.sramRead addr)
    else pure .skip

/-! ## Packets -/

def withStruct {α : Type} : Except StructError α → Runner α
  | .ok a => pure a
  | .error e => throw (.struct e)

def writePacket (opcode addr value : Int) : Runner Bytes := do
  let payload ← withStruct (packI value)
  withStruct (buildPacket opcode addr payload)

/-- What a directive sends. -/
def packet (csrBaseAddr : Int) : Directive → Runner (Option Bytes)
  | .csrWrite offset value => some <$> writePacket cmdWriteCsr (csrBaseAddr + offset) value
  | .sysmemWrite addr value => some <$> writePacket cmdWriteSysmem addr value
  | .sramWrite addr value => some <$> writePacket cmdWriteSram addr value
  | .sysmemRead addr => some <$> withStruct (buildPacket cmdReadSysmem addr [])
  | .sramRead addr => some <$> withStruct (buildPacket cmdReadSram addr [])
  | .skip => pure none

/-! ## Dictionaries -/

/-- The dictionaries, with 0 for a key that is not in them. -/
structure Images where
  sysmemImage : Int → Int
  sramImage : Int → Int
  csrWrites : Int → Int

def Images.init : Images := ⟨fun _ => 0, fun _ => 0, fun _ => 0⟩

def Images.record (m : Images) : Directive → Images
  | .csrWrite offset value => { m with csrWrites := Function.update m.csrWrites offset value }
  | .sysmemWrite addr value => { m with sysmemImage := Function.update m.sysmemImage addr value }
  | .sramWrite addr value => { m with sramImage := Function.update m.sramImage addr value }
  | .sysmemRead _ | .sramRead _ | .skip => m

/-- The dictionaries, and the packets written to the port. -/
structure Session where
  images : Images
  sent : List Bytes

/-- One line; `answered` is whether the board answers the last of the packets it has got. -/
def sendLine (answered : List Bytes → Bool) (csrBaseAddr : Int) (s : Session) (line : List Char) :
    Runner Session := do
  let d ← parseLine line
  match ← packet csrBaseAddr d with
  | none => pure s
  | some bytes =>
    let sent := s.sent ++ [bytes]
    if answered sent then pure { images := s.images.record d, sent } else throw (.exit 1)

/-! ## Transfers -/

structure Transfer where
  srcAddr : Int
  dstAddr : Int
  lenWords : Nat
  dir : Nat
  expectedWords : List Int
  deriving DecidableEq, Repr

/-- The descriptor in slot `i`, and the words it is expected to move. -/
def transferAt (m : Images) (i : Nat) : Transfer :=
  let descOff := m.csrWrites csrOffBaseaddr + i * 16
  let descSrc := m.sysmemImage (descOff + 0x00)
  let descDst := m.sysmemImage (descOff + 0x04)
  let descLen := (m.sysmemImage (descOff + 0x08) % 256).toNat
  let descFlags := m.sysmemImage (descOff + 0x0C)
  let descDir := (descFlags % 2).toNat
  let srcImage := if descDir = 1 then m.sysmemImage else m.sramImage
  { srcAddr := descSrc, dstAddr := descDst, lenWords := descLen, dir := descDir
    expectedWords := (List.range descLen).map fun j : Nat => srcImage (descSrc + j * 4) }

def parseStimulus (answered : List Bytes → Bool) (csrBaseAddr : Int) (lines : List (List Char)) :
    Runner (List Transfer) := do
  let s ← lines.foldlM (sendLine answered csrBaseAddr) { images := .init, sent := [] }
  pure ((List.range (s.images.csrWrites csrOffTail).toNat).map (transferAt s.images))

end AxiDma.Host.HostRunner
