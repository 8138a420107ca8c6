import AxiDma.Lib.Raise
import AxiDma.Lib.ByteStream

/-! # Little-endian fields (Python's `struct`)

Only the formats the host scripts use: `B` and `I` under `<`.  A value out of range raises
`struct.error`.
-/

namespace AxiDma.Host

open AxiDma.Lib

abbrev Bytes := List (BitVec 8)

inductive StructError where
  | outOfRange (format : Char)
  deriving DecidableEq, Repr

/-- `struct.pack("<B", v)`. -/
def packB (v : Int) : Except StructError Bytes := do
  raiseIf (¬ (0 ≤ v ∧ v < 2 ^ 8)) (.outOfRange 'B')
  pure [BitVec.ofInt 8 v]

/-- `struct.pack("<I", v)`. -/
def packI (v : Int) : Except StructError Bytes := do
  raiseIf (¬ (0 ≤ v ∧ v < 2 ^ 32)) (.outOfRange 'I')
  pure (bytesLe (BitVec.ofInt 32 v))

/-- `struct.pack("<IBII", ...)`. -/
def packIBII (sync opcode address length : Int) : Except StructError Bytes := do
  let sync ← packI sync
  let opcode ← packB opcode
  let address ← packI address
  let length ← packI length
  pure (sync ++ opcode ++ address ++ length)

/-- `struct.pack("<%dI" % len(words), *words)`. -/
def packWords : List Int → Except StructError Bytes
  | [] => pure []
  | w :: ws => do
    let first ← packI w
    let rest ← packWords ws
    pure (first ++ rest)

theorem packB_eq_ok {v : Int} {bytes : Bytes} :
    packB v = .ok bytes ↔ ∃ b : BitVec 8, v = b.toNat ∧ bytes = [b] := by
  simp only [packB, bind_eq_ok, raiseIf_eq_ok, pure_eq_ok, not_not]
  constructor
  · rintro ⟨_, inRange, rfl⟩
    refine ⟨BitVec.ofInt 8 v, ?_, rfl⟩
    rw [BitVec.toNat_ofInt]
    omega
  · rintro ⟨b, rfl, rfl⟩
    have small := b.isLt
    refine ⟨(), by omega, ?_⟩
    rw [BitVec.ofInt_natCast, BitVec.ofNat_toNat, BitVec.setWidth_eq]

theorem packI_eq_ok {v : Int} {bytes : Bytes} :
    packI v = .ok bytes ↔ ∃ w : BitVec 32, v = w.toNat ∧ bytes = bytesLe w := by
  simp only [packI, bind_eq_ok, raiseIf_eq_ok, pure_eq_ok, not_not]
  constructor
  · rintro ⟨_, inRange, rfl⟩
    refine ⟨BitVec.ofInt 32 v, ?_, rfl⟩
    rw [BitVec.toNat_ofInt]
    omega
  · rintro ⟨w, rfl, rfl⟩
    have small := w.isLt
    refine ⟨(), by omega, ?_⟩
    rw [BitVec.ofInt_natCast, BitVec.ofNat_toNat, BitVec.setWidth_eq]

end AxiDma.Host
