import AxiDma.Host.HostRunner
import AxiDma.Host.SerialHost
import AxiDma.Lib.Crc
import AxiDma.Verified.Shim

/-! # The CRC of a range of memory

The firmware feeds the words of a range through its table, low byte first; the host packs the
same words and leaves the CRC to `zlib`.  Both are the bit-serial CRC-32 of the bytes.
-/

namespace AxiDma.Verified

open AxiDma.Lib AxiDma.Rtl AxiDma.Firmware AxiDma.Host

/-- CRC-32 as it is defined: one bit at a time, reflected. -/
def crc32 (bytes : Bytes) : Word := Crc.crc 0xEDB88320 0xFFFFFFFF 0xFFFFFFFF bytes

-- the check value of the definition, for the digits 1 to 9
example : crc32 [0x31, 0x32, 0x33, 0x34, 0x35, 0x36, 0x37, 0x38, 0x39] = 0xCBF43926 := by
  decide +kernel

/-! ## The table -/

theorem crc32Table_eq (i : Byte) : crc32Table i = (Crc.shift 0xEDB88320)^[8] (i.setWidth 32) := rfl

/-- A look-up is the eight steps of one byte. -/
theorem crc32Byte_eq (crc : Word) (b : Byte) :
    crc32Byte crc b = Crc.feed 0xEDB88320 crc [b] := by
  have index : ((crc ^^^ b.setWidth 32).setWidth 8 : Byte) = crc.setWidth 8 ^^^ b := by
    rw [BitVec.setWidth_xor, BitVec.setWidth_setWidth_of_le b (by decide), BitVec.setWidth_eq]
  have rest : (crc ^^^ b.setWidth 32) >>> 8 = crc >>> 8 := by
    rw [BitVec.ushiftRight_xor_distrib, Crc.setWidth_ushiftRight_eight, BitVec.xor_zero]
  rw [Crc.feed_cons, Crc.feed_byte _ (by decide), Crc.iterate_shift_eight, index, rest, crc32Byte,
    crc32Table_eq]
  rfl

theorem crc32WordLe_eq (crc word : Word) :
    crc32WordLe crc word = Crc.feed 0xEDB88320 crc (bytesLe word) := by
  simp only [crc32WordLe, crc32Byte_eq, ← Crc.feed_append]
  rfl

/-! ## The range -/

section AnyBus

variable {σ : Type*} {env : σ → (op : Op) → Answer op × σ} {read : Word → Prog Word}

/-- The words the loop reads, on their own. -/
def readWords (read : Word → Prog Word) (startByteAddr : Word) : Nat → Word → Prog (List Word)
  | 0, _ => pure []
  | count + 1, w => do
    let word ← read (startByteAddr + w * 4)
    let words ← readWords read startByteAddr count (w + 1)
    return word :: words

/-- On any bus, the loop feeds the words it reads. -/
theorem exec_crc32Words (s : σ) (startByteAddr : Word) (count : Nat) (w crc : Word) :
    ((crc32Words read startByteAddr count w crc).exec env s).1 =
      Crc.feed 0xEDB88320 crc
        (((readWords read startByteAddr count w).exec env s).1.flatMap bytesLe) := by
  induction count generalizing s w crc with
  | zero => rfl
  | succ count ih =>
    simp only [crc32Words, readWords, Program.exec_bind, Program.pure_eq, Program.exec_done,
      List.flatMap_cons, Crc.feed_append, ← crc32WordLe_eq]
    exact ih _ _ _

end AnyBus

/-- Word `w` of a range, as the shim finds it. -/
def rangeWord (depth : Memory → Nat) (mem : Memory → Nat → Word) (m : Memory)
    (startByteAddr : Word) (w : Nat) : Word :=
  mem m (wordOf depth m (startByteAddr + BitVec.ofNat 32 w * 4))

def memRead : Memory → Word → Prog Word
  | .sram => sramRead
  | .sysmem => sysmemRead

def crc32Range : Memory → Word → Word → Prog Word
  | .sram => crc32SramRange
  | .sysmem => crc32SysmemRange

section OnShim

variable {depth : Memory → Nat} {s : Shim}

theorem exec_memRead (m : Memory) (byteAddr : Word) :
    ((memRead m byteAddr).exec (Shim.access depth) s).1 = s.mem m (wordOf depth m byteAddr) ∧
      ((memRead m byteAddr).exec (Shim.access depth) s).2.mem = s.mem := by
  cases m <;> exact ⟨rfl, rfl⟩

/-- On the shim the words read are the words of the memory. -/
theorem exec_readWords (m : Memory) (startByteAddr : Word) (count w : Nat) :
    ((readWords (memRead m) startByteAddr count (BitVec.ofNat 32 w)).exec
        (Shim.access depth) s).1 =
      (List.range' w count).map (rangeWord depth s.mem m startByteAddr) := by
  induction count generalizing s w with
  | zero => rfl
  | succ count ih =>
    obtain ⟨word, same⟩ := @exec_memRead depth s m
      (startByteAddr + BitVec.ofNat 32 w * 4)
    have next : BitVec.ofNat 32 w + 1 = BitVec.ofNat 32 (w + 1) := by
      rw [BitVec.ofNat_add]
      rfl
    simp only [readWords, Program.exec_bind, Program.pure_eq, Program.exec_done, next, ih, word,
      same, List.range'_succ, List.map_cons]
    rfl

theorem exec_crc32Range (m : Memory) (startByteAddr byteLength : Word) :
    ((crc32Range m startByteAddr byteLength).exec (Shim.access depth) s).1 =
      crc32 (((List.range (byteLength.toNat / 4)).map
        (rangeWord depth s.mem m startByteAddr)).flatMap bytesLe) := by
  have loop := @exec_crc32Words _ (Shim.access depth) (memRead m) s startByteAddr
    (byteLength.toNat / 4) (BitVec.ofNat 32 0) 0xFFFFFFFF
  rw [exec_readWords, ← List.range_eq_range'] at loop
  rw [crc32, Crc.crc, ← loop]
  cases m <;> simp only [crc32Range, crc32SramRange, crc32SysmemRange, Program.exec_bind] <;> rfl

end OnShim

/-! ## The host -/

theorem packWords_eq (words : List Word) :
    packWords (words.map fun word => (word.toNat : Int)) = .ok (words.flatMap bytesLe) := by
  induction words with
  | nil => rfl
  | cons word words ih =>
    have first : packI word.toNat = .ok (bytesLe word) := packI_eq_ok.mpr ⟨word, rfl, rfl⟩
    rw [List.map_cons, packWords, first, ih]
    rfl

theorem length_flatMap_bytesLe (words : List Word) :
    (words.flatMap bytesLe).length = 4 * words.length := by
  induction words with
  | nil => rfl
  | cons word words ih =>
    rw [List.flatMap_cons, List.length_append, ih, length_bytesLe, List.length_cons]
    omega

theorem and_mask_word (word : Word) : word.toNat &&& 0xFFFFFFFF = word.toNat := by
  have mask : word.toNat &&& 0xFFFFFFFF = word.toNat % 2 ^ 32 :=
    Nat.and_two_pow_sub_one_eq_mod word.toNat 32
  rw [mask, Nat.mod_eq_of_lt word.isLt]

/-- The firmware and the host agree on the CRC of every range.  `zlibCrc32` is
    `zlib.crc32`, which is that CRC. -/
theorem crc_of_range (zlibCrc32 : Bytes → Nat)
    (isCrc : ∀ bytes, zlibCrc32 bytes = (crc32 bytes).toNat) (depth : Memory → Nat) (s : Shim)
    (m : Memory) (startByteAddr byteLength : Word) (whole : 4 ∣ byteLength.toNat) :
    let words := (List.range (byteLength.toNat / 4)).map (rangeWord depth s.mem m startByteAddr)
    let value := ((crc32Range m startByteAddr byteLength).exec (Shim.access depth) s).1
    (words.flatMap bytesLe).length = byteLength.toNat ∧ value = crc32 (words.flatMap bytesLe) ∧
      SerialHost.crc32Words zlibCrc32 (words.map fun word => (word.toNat : Int)) =
        .ok value.toNat ∧
      HostRunner.computeCrc32 zlibCrc32 (words.map fun word => (word.toNat : Int)) =
        .ok value.toNat := by
  intro words value
  have firmware : value = crc32 (words.flatMap bytesLe) := exec_crc32Range m _ _
  have host : zlibCrc32 (words.flatMap bytesLe) &&& 0xFFFFFFFF = value.toNat := by
    rw [isCrc, and_mask_word, firmware]
  refine ⟨?_, firmware, ?_, ?_⟩
  · rw [length_flatMap_bytesLe, List.length_map, List.length_range, Nat.mul_div_cancel' whole]
  · rw [SerialHost.crc32Words, packWords_eq]
    exact congrArg Except.ok host
  · rw [HostRunner.computeCrc32, packWords_eq]
    exact congrArg Except.ok host

/-- The digits 1 to 8 in words 1 and 2. -/
def digits : Shim :=
  { initAddr := 0, initData := 0, rdata := 0,
    mem := fun _ n => if n = 1 then 0x34333231 else 0x38373635 }

theorem crc_of_range_digits :
    ((crc32Range .sysmem 4 8).exec (Shim.access fun _ => 4) digits).1 = 0x9AE0DAAF ∧
      HostRunner.computeCrc32 (fun bytes => (crc32 bytes).toNat) [0x34333231, 0x38373635] =
        .ok 0x9AE0DAAF := by
  obtain ⟨-, firmware, -, host⟩ := crc_of_range (fun bytes => (crc32 bytes).toNat)
    (fun _ => rfl) (fun _ => 4) digits .sysmem 4 8 (by decide)
  have value : ((crc32Range .sysmem 4 8).exec (Shim.access fun _ => 4) digits).1 = 0x9AE0DAAF :=
    firmware.trans (by decide +kernel)
  rw [value] at host
  exact ⟨value, host⟩

end AxiDma.Verified
