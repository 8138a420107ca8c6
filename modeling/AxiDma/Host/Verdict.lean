import AxiDma.Golden.RunGolden
import AxiDma.Host.SerialHost

/-! # The verdict of `main` (`serial_host.py`)

After the run `main` asks the board for the CRC of two ranges, which it takes from the images of
the golden model.  `smemCrc` and `sramCrc` are what the board answers.
-/

namespace AxiDma.Host.SerialHost

open AxiDma.Lib

variable (zlibCrc32 : Bytes → Nat)

/-- `words[lo:hi]`. -/
def slice (words : List Nat) (lo hi : Nat) : List Nat := (words.take hi).drop lo

/-- `[i for i, (a, b) in enumerate(zip(xs, ys)) if a != b]`. -/
def changed (xs ys : List Nat) : List Nat :=
  ((xs.zip ys).zipIdx.filter fun ((a, b), _) => a ≠ b).map fun (_, i) => i

/-- `[i for i, w in enumerate(words) if w != 0]`. -/
def nonzero (words : List Nat) : List Nat :=
  (words.zipIdx.filter fun (w, _) => w ≠ 0).map fun (_, i) => i

/-- `min(picked)` and `max(picked) + 1`, of a list that is not empty. -/
def span (picked : List Nat) : Option (Nat × Nat) :=
  match picked.min?, picked.max? with
  | some lo, some last => some (lo, last + 1)
  | _, _ => none

def rangePasses (words : List Nat) (reported : Nat → Nat → Nat) (lo hi : Nat) :
    Except StructError Bool := do
  let expCrc ← crc32Words zlibCrc32 ((slice words lo hi).map fun w : Nat => (w : Int))
  let gotCrc := reported (lo * 4) ((hi - lo) * 4)
  pure (gotCrc == expCrc)

/-- The range of SRAM that the golden model changed. -/
def sramPasses (initSram goldenSram : List Nat) (sramCrc : Nat → Nat → Nat) :
    Except StructError Bool :=
  match span (changed initSram goldenSram) with
  -- "golden model shows no SRAM changes — nothing to verify"
  | none => pure false
  | some (lo, hi) => rangePasses zlibCrc32 goldenSram sramCrc lo hi

/-- The range of system memory that was preloaded. -/
def smemPasses (initSmem : List Nat) (smemCrc : Nat → Nat → Nat) : Except StructError Bool :=
  match span (nonzero initSmem) with
  | none => pure true
  | some (lo, hi) => rangePasses zlibCrc32 initSmem smemCrc lo hi

/-- `all_pass`. -/
def allPass (initSmem initSram goldenSram : List Nat) (smemCrc sramCrc : Nat → Nat → Nat) :
    Except StructError Bool := do
  let sramOk ← sramPasses zlibCrc32 initSram goldenSram sramCrc
  let smemOk ← smemPasses zlibCrc32 initSmem smemCrc
  pure (sramOk && smemOk)

/-- `_load_hex32` on a file that `run_golden` wrote. -/
def loadHex32 (words : List Nat) : List Nat := words.map (· &&& Golden.mask32)

/-- The verdict on a scenario. -/
def verdict (r : Golden.Result) (smemCrc sramCrc : Nat → Nat → Nat) : Except StructError Bool :=
  allPass zlibCrc32 (loadHex32 r.initialSmem) (loadHex32 r.initialSram) (loadHex32 r.finalSram)
    smemCrc sramCrc

end AxiDma.Host.SerialHost
