import AxiDma.Golden.RunGolden

/-! # The dry run (`serial_host.py`)

`dry_run` runs the golden model and compares ranges of its images, one range per `desc` row.
The numbers of a row are used as `int()` read them, of either sign.
-/

namespace AxiDma.Host.DryRun

open AxiDma.Golden AxiDma.Lib

structure DescRow where
  src : Int
  dst : Int
  length : Nat
  dirBit : Nat
  deriving DecidableEq, Repr

/-- `desc_rows`. -/
def descRows (rows : List Row) : List DescRow :=
  rows.filterMap fun row =>
    match row with
    | .desc src dst len flags =>
      some { src, dst, length := (len % 256).toNat, dirBit := (flags % 2).toNat }
    | _ => none

/-- `mem[i]` with an index of either sign. -/
def loadAt (mem : List Nat) (i : Int) : Py Nat :=
  match pyIndex mem.length i with
  | some n => load mem n
  | none => throw .indexError

/-- One beat of a row. -/
def beatPasses (got exp : List Nat) (row : DescRow) (beat : Nat) : Py Bool := do
  let sw := row.src >>> (2 : Nat) + beat
  let dw := row.dst >>> (2 : Nat) + beat
  -- out of range: skipped
  if exp.length ≤ sw ∨ got.length ≤ dw then pure true
  else
    let g ← loadAt got dw
    let e ← loadAt exp sw
    pure (g == e)

/-- The images that a row is checked on: where it wrote, and what it should have written. -/
def images (r : Result) (row : DescRow) : List Nat × List Nat :=
  if row.dirBit ≠ 0 then (r.finalSram, r.initialSmem) else (r.finalSmem, r.finalSram)

def countBeat (r : Result) (row : DescRow) (errors beat : Nat) : Py Nat := do
  let passes ← beatPasses (images r row).1 (images r row).2 row beat
  pure (if passes then errors else errors + 1)

def countRow (r : Result) (errors : Nat) (row : DescRow) : Py Nat :=
  (List.range row.length).foldlM (countBeat r row) errors

def dryRun (rows : List Row) : Py Bool := do
  let r ← runScenario rows smemWordsDefault sramWordsDefault
  let errors ← (descRows rows).foldlM (countRow r) 0
  pure (errors == 0)

end AxiDma.Host.DryRun
