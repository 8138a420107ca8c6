import AxiDma.Host.Verdict
import AxiDma.Verified.CrcRange
import AxiDma.Verified.Provenance

/-! # When the serial host passes a correct board

The verdict wants an SRAM word to have changed, and checks the system memory against its
initial image.  On a board that holds the golden images the first check is of nothing but the
images, and the second compares the golden image with the initial one.
-/

namespace AxiDma.Host.SerialHost

open AxiDma.Golden (Cell Result Words smemWordsDefault sramWordsDefault runScenario)
open AxiDma.Lib AxiDma.Rtl AxiDma.Firmware AxiDma.Verified

variable {xs ys words image : List Nat} {lo hi i : Nat} {zlibCrc32 : Bytes → Nat}
  {reported : Nat → Nat → Nat}

/-! ## Ranges -/

theorem mem_changed (same : xs.length = ys.length) :
    i ∈ changed xs ys ↔ i < xs.length ∧ xs[i]? ≠ ys[i]? := by
  simp only [changed, List.mem_map, List.mem_filter, Prod.exists, List.mem_zipIdx_iff_getElem?,
    List.getElem?_zip_eq_some, decide_eq_true_eq]
  constructor
  · rintro ⟨a, b, _, ⟨⟨x, y⟩, other⟩, rfl⟩
    exact ⟨(List.getElem?_eq_some_iff.mp x).1, by rw [x, y]; simpa using other⟩
  · rintro ⟨inside, other⟩
    refine ⟨xs[i], ys[i], i, ⟨⟨List.getElem?_eq_getElem inside, List.getElem?_eq_getElem _⟩, ?_⟩, rfl⟩
    intro eq
    exact other (by rw [List.getElem?_eq_getElem inside, List.getElem?_eq_getElem (same ▸ inside), eq])

theorem changed_eq_nil (same : xs.length = ys.length) : changed xs ys = [] ↔ xs = ys := by
  rw [List.eq_nil_iff_forall_not_mem]
  constructor
  · intro none
    refine List.ext_getElem? fun i => ?_
    by_cases inside : i < xs.length
    · by_contra other
      exact none i ((mem_changed same).mpr ⟨inside, other⟩)
    · rw [List.getElem?_eq_none (by omega), List.getElem?_eq_none (by omega)]
  · rintro rfl i member
    exact ((mem_changed rfl).mp member).2 rfl

theorem mem_nonzero : i ∈ nonzero words ↔ ∃ w, words[i]? = some w ∧ w ≠ 0 := by
  simp only [nonzero, List.mem_map, List.mem_filter, Prod.exists, List.mem_zipIdx_iff_getElem?,
    decide_eq_true_eq]
  constructor
  · rintro ⟨w, _, ⟨read, other⟩, rfl⟩
    exact ⟨w, read, other⟩
  · rintro ⟨w, read, other⟩
    exact ⟨w, i, ⟨read, other⟩, rfl⟩

theorem span_eq_none {picked : List Nat} : span picked = none ↔ picked = [] := by
  unfold span
  cases picked with
  | nil => simp
  | cons x xs => simp [List.min?, List.max?]

theorem span_inside {picked : List Nat} {bound : Nat} (all : ∀ i ∈ picked, i < bound)
    (found : span picked = some (lo, hi)) : lo < hi ∧ hi ≤ bound := by
  unfold span at found
  split at found
  · next least last isLeast isLast =>
    obtain ⟨rfl, rfl⟩ := Prod.mk.inj (Option.some.inj found)
    have member := (List.max?_eq_some_iff.mp isLast).1
    have low := (List.min?_eq_some_iff.mp isLeast).2 last member
    have := all last member
    omega
  · cases found

/-! ## CRCs -/

/-- CRC-32 of the words, low byte first. -/
def crcOf (words : List Nat) : Word := crc32 ((words.map (BitVec.ofNat 32)).flatMap bytesLe)

theorem crc32Words_eq (isCrc : ∀ bytes, zlibCrc32 bytes = (crc32 bytes).toNat)
    (small : ∀ w ∈ words, w < 2 ^ 32) :
    crc32Words zlibCrc32 (words.map fun w : Nat => (w : Int)) = .ok (crcOf words).toNat := by
  have same : words.map (fun w : Nat => (w : Int)) =
      (words.map (BitVec.ofNat 32)).map fun w => (w.toNat : Int) := by
    rw [List.map_map]
    refine List.map_congr_left fun w member => ?_
    rw [Function.comp_apply, BitVec.toNat_ofNat, Nat.mod_eq_of_lt (small w member)]
  rw [same, crc32Words, packWords_eq, ok_bind, isCrc, and_mask_word]
  rfl

theorem length_slice (inside : hi ≤ words.length) : (slice words lo hi).length = hi - lo := by
  rw [slice, List.length_drop, List.length_take, Nat.min_eq_left inside]

theorem mem_of_mem_slice {w : Nat} (member : w ∈ slice words lo hi) : w ∈ words :=
  List.mem_of_mem_take (List.mem_of_mem_drop member)

theorem rangePasses_eq (isCrc : ∀ bytes, zlibCrc32 bytes = (crc32 bytes).toNat)
    (small : ∀ w ∈ words, w < 2 ^ 32) :
    rangePasses zlibCrc32 words reported lo hi =
      .ok (reported (lo * 4) ((hi - lo) * 4) == (crcOf (slice words lo hi)).toNat) := by
  rw [rangePasses, crc32Words_eq isCrc fun w member => small w (mem_of_mem_slice member)]
  rfl

/-! ## The board -/

variable {depth : Memory → Nat} {s : Shim} {m : Memory} {baseAddr : Int}

/-- What the firmware answers to a request for the CRC of a range. -/
def reportedCrc (depth : Memory → Nat) (s : Shim) (m : Memory) (baseAddr : Int)
    (byteAddr byteLength : Nat) : Nat :=
  ((crc32Range m (BitVec.ofInt 32 (baseAddr + byteAddr)) (BitVec.ofNat 32 byteLength)).exec
    (Shim.access depth) s).1.toNat

/-- A memory of the board holds the image, word for word. -/
def Shows (depth : Memory → Nat) (s : Shim) (m : Memory) (baseAddr : Int) (image : List Nat) : Prop :=
  ∀ i (inside : i < image.length),
    s.mem m (wordOf depth m (BitVec.ofInt 32 (baseAddr + (4 * i : Nat)))) = BitVec.ofNat 32 image[i]

/-- An honest board reports the CRC of what it holds. -/
theorem reportedCrc_eq (board : Shows depth s m baseAddr image) (inside : hi ≤ image.length)
    (space : (hi - lo) * 4 < 2 ^ 32) :
    reportedCrc depth s m baseAddr (lo * 4) ((hi - lo) * 4) = (crcOf (slice image lo hi)).toNat := by
  have count : (BitVec.ofNat 32 ((hi - lo) * 4)).toNat / 4 = hi - lo := by
    rw [BitVec.toNat_ofNat, Nat.mod_eq_of_lt space]
    omega
  -- word `w` of the range is word `lo + w` of the image
  rw [reportedCrc, exec_crc32Range, count, crcOf]
  congr 3
  refine List.ext_getElem (by simp [length_slice inside]) fun w short _ => ?_
  rw [List.length_map, List.length_range] at short
  have addr : BitVec.ofInt 32 (baseAddr + (lo * 4 : Nat)) + BitVec.ofNat 32 w * 4 =
      BitVec.ofInt 32 (baseAddr + (4 * (lo + w) : Nat)) := by
    have step : BitVec.ofNat 32 w * 4 = BitVec.ofInt 32 ((4 * w : Nat) : Int) := by
      rw [BitVec.ofInt_natCast, Nat.mul_comm, BitVec.ofNat_mul]
      rfl
    rw [step, ← BitVec.ofInt_add]
    congr 1
    omega
  have here := board (lo + w) (by omega)
  simp only [List.getElem_map, List.getElem_range, rangeWord, addr, here, slice, List.getElem_drop,
    List.getElem_take]

/-! ## The verdict -/

theorem loadHex32_eq (small : ∀ w ∈ words, w < 2 ^ 32) : loadHex32 words = words := by
  rw [loadHex32, List.map_congr_left (g := id) fun w member => ?_, List.map_id]
  rw [Golden.and_mask32, Nat.mod_eq_of_lt (small w member)]
  rfl

theorem small_of_words {m : List Nat × List Nat} (all : Words m) :
    (∀ w ∈ m.1, w < 2 ^ 32) ∧ ∀ w ∈ m.2, w < 2 ^ 32 := by
  constructor <;>
  · intro w member
    obtain ⟨i, read⟩ := List.mem_iff_getElem?.mp member
    first
    | simpa [Golden.wordAt, read] using all (.smem i)
    | simpa [Golden.wordAt, read] using all (.sram i)

theorem sramPasses_eq (isCrc : ∀ bytes, zlibCrc32 bytes = (crc32 bytes).toNat)
    (same : xs.length = ys.length) (space : ys.length ≤ 2 ^ 29) (small : ∀ w ∈ ys, w < 2 ^ 32)
    (board : Shows depth s m baseAddr ys) :
    ∃ passes, sramPasses zlibCrc32 xs ys (reportedCrc depth s m baseAddr) = .ok passes ∧
      (passes = true ↔ xs ≠ ys) := by
  rw [sramPasses, Ne, ← changed_eq_nil same, ← span_eq_none]
  cases found : span (changed xs ys) with
  | none => exact ⟨false, rfl, by simp⟩
  | some range =>
    obtain ⟨lo, hi⟩ := range
    have bounds := span_inside (fun i member => ((mem_changed same).mp member).1) found
    rw [same] at bounds
    refine ⟨_, rangePasses_eq isCrc small, ?_⟩
    rw [reportedCrc_eq board bounds.2 (by omega)]
    simp

theorem smemPasses_eq (isCrc : ∀ bytes, zlibCrc32 bytes = (crc32 bytes).toNat)
    (same : xs.length = ys.length) (space : ys.length ≤ 2 ^ 29) (small : ∀ w ∈ xs, w < 2 ^ 32)
    (board : Shows depth s m baseAddr ys) :
    ∃ passes, smemPasses zlibCrc32 xs (reportedCrc depth s m baseAddr) = .ok passes ∧
      (passes = true ↔ ∀ lo hi, span (nonzero xs) = some (lo, hi) →
        crcOf (slice ys lo hi) = crcOf (slice xs lo hi)) := by
  rw [smemPasses]
  cases found : span (nonzero xs) with
  | none => exact ⟨true, rfl, by simp⟩
  | some range =>
    obtain ⟨lo, hi⟩ := range
    have inside (i : Nat) (member : i ∈ nonzero xs) : i < xs.length := by
      obtain ⟨w, read, -⟩ := mem_nonzero.mp member
      exact (List.getElem?_eq_some_iff.mp read).1
    have bounds := span_inside inside found
    rw [same] at bounds
    refine ⟨_, rangePasses_eq isCrc small, ?_⟩
    rw [reportedCrc_eq board bounds.2 (by omega), beq_iff_eq, BitVec.toNat_inj]
    constructor
    · intro equal _ _ eq
      obtain ⟨rfl, rfl⟩ := Prod.mk.inj (Option.some.inj eq)
      exact equal
    · exact fun all => all lo hi rfl

/-- The run has changed a word. -/
def Changed (r : Result) : Prop := r.initialSmem ≠ r.finalSmem ∨ r.initialSram ≠ r.finalSram

/-- From the first to the last word that was not 0, the system memory has its initial CRC. -/
def SourceIntact (r : Result) : Prop :=
  ∀ lo hi, span (nonzero r.initialSmem) = some (lo, hi) →
    crcOf (slice r.finalSmem lo hi) = crcOf (slice r.initialSmem lo hi)

variable {rows : List Golden.Row} {r : Result} {smemBase sramBase : Int}

theorem verdict_eq (isCrc : ∀ bytes, zlibCrc32 bytes = (crc32 bytes).toNat)
    (returns : runScenario rows smemWordsDefault sramWordsDefault = .ok r)
    (smem : Shows depth s .sysmem smemBase r.finalSmem)
    (sram : Shows depth s .sram sramBase r.finalSram) :
    ∃ passes, verdict zlibCrc32 r (reportedCrc depth s .sysmem smemBase)
        (reportedCrc depth s .sram sramBase) = .ok passes ∧
      (passes = true ↔ r.initialSram ≠ r.finalSram ∧ SourceIntact r) := by
  obtain ⟨initial, final⟩ := Golden.returned_images returns
  obtain ⟨initialSmem, initialSram⟩ := small_of_words initial.words
  obtain ⟨-, finalSram⟩ := small_of_words final.words
  obtain ⟨sramOk, sramRan, sramIff⟩ := sramPasses_eq isCrc (initial.sram.trans final.sram.symm)
    (by rw [final.sram]; decide) finalSram sram
  obtain ⟨smemOk, smemRan, smemIff⟩ := smemPasses_eq isCrc (initial.smem.trans final.smem.symm)
    (by rw [final.smem]; decide) initialSmem smem
  rw [verdict, loadHex32_eq initialSmem, loadHex32_eq initialSram, loadHex32_eq finalSram, allPass,
    sramRan, ok_bind, smemRan, ok_bind]
  refine ⟨_, rfl, ?_⟩
  rw [Bool.and_eq_true, sramIff, smemIff]
  rfl

/-- A correct board passes exactly if the run, where it changed anything, changed SRAM and
    left the preloaded range of the system memory with its CRC. -/
theorem correct_board_passes_iff (isCrc : ∀ bytes, zlibCrc32 bytes = (crc32 bytes).toNat)
    (returns : runScenario rows smemWordsDefault sramWordsDefault = .ok r)
    (smem : Shows depth s .sysmem smemBase r.finalSmem)
    (sram : Shows depth s .sram sramBase r.finalSram) :
    (Changed r → verdict zlibCrc32 r (reportedCrc depth s .sysmem smemBase)
        (reportedCrc depth s .sram sramBase) = .ok true) ↔
      (Changed r → r.initialSram ≠ r.finalSram ∧ SourceIntact r) := by
  obtain ⟨passes, ran, iff⟩ := verdict_eq isCrc returns smem sram
  rw [ran, ← iff, Except.ok.injEq]

/-- The board with these images in its memories. -/
def boardWith (smem sram : List Nat) : Shim where
  initAddr := 0
  initData := 0
  rdata := 0
  mem
    | .sysmem, n => BitVec.ofNat 32 ((smem[n]?).getD 0)
    | .sram, n => BitVec.ofNat 32 ((sram[n]?).getD 0)

theorem shows_boardWith {smem sram : List Nat} (smemSize : smem.length = 1024)
    (sramSize : sram.length = 1024) :
    Shows (fun _ => 1024) (boardWith smem sram) .sysmem 0 smem ∧
      Shows (fun _ => 1024) (boardWith smem sram) .sram 0 sram := by
  have word (m : Memory) (i : Nat) (inside : i < 1024) :
      wordOf (fun _ => 1024) m (BitVec.ofInt 32 (0 + (4 * i : Nat))) = i := by
    rw [wordOf, Int.zero_add, BitVec.ofInt_natCast, BitVec.toNat_ofNat]
    omega
  constructor <;>
  · intro i inside
    rw [word _ i (by omega), boardWith]
    simp only [List.getElem?_eq_getElem inside, Option.getD_some]

/-- `zlib.crc32`. -/
def pyCrc32 (bytes : Bytes) : Nat := (crc32 bytes).toNat

theorem pyCrc32_eq (bytes : Bytes) : pyCrc32 bytes = (crc32 bytes).toNat := rfl

/-- Four words from SRAM to system memory. -/
def reverseDirection : List Golden.Row :=
  [.sram 64 0xAABBCCDD, .sram 65 0x11223344, .sram 66 0xDEADBEEF, .sram 67 0xCAFECAFE,
    .csrBaseaddr 0, .csrRinglen 4, .desc 0x100 0x100 4 0, .enable]

theorem reverse_direction_fails :
    ∃ r, runScenario reverseDirection smemWordsDefault sramWordsDefault = .ok r ∧ Changed r ∧
      verdict pyCrc32 r
        (reportedCrc (fun _ => 1024) (boardWith r.finalSmem r.finalSram) .sysmem 0)
        (reportedCrc (fun _ => 1024) (boardWith r.finalSmem r.finalSram) .sram 0) = .ok false := by
  have compared : (do let r ← runScenario reverseDirection smemWordsDefault sramWordsDefault
                      pure (r.initialSmem != r.finalSmem && r.initialSram == r.finalSram)) =
      .ok true := by decide +kernel
  obtain ⟨r, returns, eq⟩ := bind_eq_ok.mp compared
  obtain ⟨smemChanged, sramSame⟩ := Bool.and_eq_true _ _ ▸ pure_eq_ok.mp eq
  have final := (Golden.returned_images returns).2
  obtain ⟨smem, sram⟩ := shows_boardWith final.smem final.sram
  obtain ⟨passes, ran, iff⟩ := verdict_eq pyCrc32_eq returns smem sram
  refine ⟨r, returns, .inl (by simpa using smemChanged), ran.trans (congrArg Except.ok ?_)⟩
  rw [← Bool.not_eq_true, iff]
  exact fun both => both.1 (by simpa using sramSame)

/-- A word from system memory to SRAM. -/
def forward : List Golden.Row :=
  [.smem 100 7, .csrBaseaddr 0, .csrRinglen 4, .desc 400 16 1 1, .enable]

theorem forward_passes :
    ∃ r, runScenario forward smemWordsDefault sramWordsDefault = .ok r ∧
      verdict pyCrc32 r
        (reportedCrc (fun _ => 1024) (boardWith r.finalSmem r.finalSram) .sysmem 0)
        (reportedCrc (fun _ => 1024) (boardWith r.finalSmem r.finalSram) .sram 0) = .ok true := by
  have compared : (do let r ← runScenario forward smemWordsDefault sramWordsDefault
                      pure (r.initialSmem == r.finalSmem && r.initialSram != r.finalSram)) =
      .ok true := by decide +kernel
  obtain ⟨r, returns, eq⟩ := bind_eq_ok.mp compared
  obtain ⟨smemSame, sramChanged⟩ := Bool.and_eq_true _ _ ▸ pure_eq_ok.mp eq
  have same : r.initialSmem = r.finalSmem := by simpa using smemSame
  have other : r.initialSram ≠ r.finalSram := by simpa using sramChanged
  have final := (Golden.returned_images returns).2
  obtain ⟨smem, sram⟩ := shows_boardWith final.smem final.sram
  refine ⟨r, returns, (correct_board_passes_iff pyCrc32_eq returns smem sram).mpr
    (fun _ => ⟨other, fun lo hi _ => ?_⟩) (.inr other)⟩
  rw [same]

end AxiDma.Host.SerialHost
