import AxiDma.Golden.RunGolden
import AxiDma.Lib.Hex

/-! # The stimulus file (`run_golden.py`, `serial_host.py`)

`Stim.text` is the line that `run_scenario` puts into `stim.txt`, `sendLine` what `send_stim`
does with a line: here the commands go to two memories and a CSR model in place of the board.
-/

namespace AxiDma.Host.Stimulus

open AxiDma.Golden AxiDma.Lib

/-! ## Lines -/

def sysmemWrite : List Char := ['s', 'y', 's', 'm', 'e', 'm', '_', 'w', 'r', 'i', 't', 'e']
def sramWrite : List Char := ['s', 'r', 'a', 'm', '_', 'w', 'r', 'i', 't', 'e']
def csrWrite : List Char := ['c', 's', 'r', '_', 'w', 'r', 'i', 't', 'e']

/-- `"<op> <address> <data>"`, before and after `split`. -/
def words : Stim → List (List Char)
  | .sysmemWrite addr data => [sysmemWrite, formatHex 8 addr, formatHex 8 data]
  | .sramWrite addr data => [sramWrite, formatHex 8 addr, formatHex 8 data]
  | .csrWrite offset data => [csrWrite, formatHex 2 offset, formatHex 8 data]

def text (line : Stim) : List Char := [' '].intercalate (words line)

/-! ## Commands -/

/-- Where the commands go. -/
structure Target where
  smem : List Nat
  sram : List Nat
  csr : CSR

def Target.reset (smemWords sramWords : Nat) : Target where
  smem := List.replicate smemWords 0
  sram := List.replicate sramWords 0
  csr := CSR.init

/-- `int(s, 16)`. -/
def parseInt (s : List Char) : Py Int :=
  match readHex s with
  | some v => pure v
  | none => throw (.valueError "invalid literal for int() with base 16")

/-- One command; a word index is the byte address `>> 2`. -/
def send (t : Target) (op : List Char) (addr data : Int) : Py Target := do
  if op = sysmemWrite then
    let smem ← store t.smem (addr >>> (2 : Nat)) (maskInt data)
    pure { t with smem }
  else if op = sramWrite then
    let sram ← store t.sram (addr >>> (2 : Nat)) (maskInt data)
    pure { t with sram }
  else if op = csrWrite then
    -- CMD_RUN_DMA sets ENABLE
    if addr = 0x10 then pure t
    else pure { t with csr := t.csr.write addr.toNat data }
  else pure t

/-- A line of other than three words is skipped, as is a comment. -/
def sendLine (t : Target) (line : List Char) : Py Target :=
  match splitWords line with
  | [op, addr, data] => do
    if op.head? = some '#' then pure t
    else
      let addr ← parseInt addr
      let data ← parseInt data
      send t op addr data
  | _ => pure t

def sendStim (t : Target) (lines : List (List Char)) : Py Target := lines.foldlM sendLine t

end AxiDma.Host.Stimulus
