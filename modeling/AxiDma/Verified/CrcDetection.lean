import AxiDma.Verified.HostVerdict

/-! # A wrong word fails the verdict

On any board the verdict compares two pairs of CRCs (`verdict_iff`).  The polynomial has its top
bit, so words that differ in one place only have different CRCs.
-/

namespace AxiDma.Host.SerialHost

open AxiDma.Golden (Result Words smemWordsDefault sramWordsDefault runScenario)
open AxiDma.Lib AxiDma.Rtl AxiDma.Firmware AxiDma.Verified

/-! ## One word in a message -/

theorem bits_bytesLe (x : Word) : (bytesLe x).flatMap (Crc.lowBits 8) = Crc.lowBits 32 x := by
  simp [bytesLe, Crc.lowBits, List.range_succ]

theorem crc32_word_injective {before after : Bytes} {x y : Word}
    (same : crc32 (before ++ (bytesLe x ++ after)) = crc32 (before ++ (bytesLe y ++ after))) : x = y :=
  Crc.crc_block_injective rfl (bits_bytesLe x) (bits_bytesLe y) same

/-- CRC-32 of the words of a range. -/
def crcRange (words : Nat → Word) (lo hi : Nat) : Word :=
  crc32 (((List.range' lo (hi - lo)).map words).flatMap bytesLe)

theorem crcRange_split (f : Nat → Word) {lo hi w : Nat} (low : lo ≤ w) (high : w < hi) :
    crcRange f lo hi = crc32 (((List.range' lo (w - lo)).map f).flatMap bytesLe ++
      (bytesLe (f w) ++ ((List.range' (w + 1) (hi - (w + 1))).map f).flatMap bytesLe)) := by
  have count : hi - lo = (w - lo) + ((hi - (w + 1)) + 1) := by omega
  have next : lo + 1 * (w - lo) = w := by omega
  rw [crcRange, count, ← List.range'_append, List.map_append, List.flatMap_append, next, List.range'_succ,
    List.map_cons, List.flatMap_cons]

/-- The words are those of the image but for one. -/
structure OneWrong (words image : Nat → Word) (lo hi w : Nat) : Prop where
  low : lo ≤ w
  high : w < hi
  wrong : words w ≠ image w
  others : ∀ i, lo ≤ i → i < hi → i ≠ w → words i = image i

theorem OneWrong.crcRange_ne {f g : Nat → Word} {lo hi w : Nat} (one : OneWrong f g lo hi w) :
    crcRange f lo hi ≠ crcRange g lo hi := by
  intro same
  have before : (List.range' lo (w - lo)).map f = (List.range' lo (w - lo)).map g := by
    apply List.map_congr_left
    intro i member
    have within := List.mem_range'_1.mp member
    have high := one.high
    exact one.others i within.1 (by omega) (by omega)
  have after : (List.range' (w + 1) (hi - (w + 1))).map f =
      (List.range' (w + 1) (hi - (w + 1))).map g := by
    apply List.map_congr_left
    intro i member
    have within := List.mem_range'_1.mp member
    have low := one.low
    exact one.others i (by omega) (by omega) (by omega)
  rw [crcRange_split f one.low one.high, crcRange_split g one.low one.high, before, after] at same
  exact one.wrong (crc32_word_injective same)

/-! ## Any board -/

section Board

variable {depth : Memory → Nat} {s : Shim} {m : Memory} {baseAddr : Int} {image xs ys : List Nat}
  {lo hi : Nat} {zlibCrc32 : Bytes → Nat}

/-- Word `i` of a memory of the board, counted from its base address. -/
def boardWord (depth : Memory → Nat) (s : Shim) (m : Memory) (baseAddr : Int) (i : Nat) : Word :=
  s.mem m (wordOf depth m (BitVec.ofInt 32 (baseAddr + (4 * i : Nat))))

def imageWord (image : List Nat) (i : Nat) : Word := BitVec.ofNat 32 (image[i]?.getD 0)

theorem reportedCrc_range (space : (hi - lo) * 4 < 2 ^ 32) :
    reportedCrc depth s m baseAddr (lo * 4) ((hi - lo) * 4) =
      (crcRange (boardWord depth s m baseAddr) lo hi).toNat := by
  have count : (BitVec.ofNat 32 ((hi - lo) * 4)).toNat / 4 = hi - lo := by
    rw [BitVec.toNat_ofNat, Nat.mod_eq_of_lt space]
    omega
  rw [reportedCrc, exec_crc32Range, count, crcRange, List.range'_eq_map_range, List.map_map]
  congr 4
  funext i
  -- the firmware counts the bytes from the start of the range, the board word from the base
  have step : BitVec.ofNat 32 i * 4 = BitVec.ofInt 32 ((4 * i : Nat) : Int) := by
    rw [BitVec.ofInt_natCast, Nat.mul_comm, BitVec.ofNat_mul]
    rfl
  have addr : BitVec.ofInt 32 (baseAddr + (lo * 4 : Nat)) + BitVec.ofNat 32 i * 4 =
      BitVec.ofInt 32 (baseAddr + (4 * (lo + i) : Nat)) := by
    rw [step, ← BitVec.ofInt_add]
    congr 1
    omega
  rw [rangeWord, addr]
  rfl

theorem crcOf_slice (inside : hi ≤ image.length) :
    crcOf (slice image lo hi) = crcRange (imageWord image) lo hi := by
  rw [crcOf, crcRange]
  congr 2
  apply List.ext_getElem
  · simp [length_slice inside]
  · intro i short _
    rw [List.length_map, length_slice inside] at short
    simp [slice, imageWord, List.getElem?_eq_getElem (show lo + i < image.length by omega)]

/-- A check of the verdict is one comparison of CRCs. -/
theorem rangePasses_board (isCrc : ∀ bytes, zlibCrc32 bytes = (crc32 bytes).toNat)
    (small : ∀ w ∈ image, w < 2 ^ 32) (inside : hi ≤ image.length) (space : image.length ≤ 2 ^ 29) :
    rangePasses zlibCrc32 image (reportedCrc depth s m baseAddr) lo hi =
      .ok (crcRange (boardWord depth s m baseAddr) lo hi == crcRange (imageWord image) lo hi) := by
  rw [rangePasses_eq isCrc small, reportedCrc_range (by omega), crcOf_slice inside]
  congr 1
  rw [Bool.eq_iff_iff, beq_iff_eq, beq_iff_eq, BitVec.toNat_inj]

/-- The board has the CRC of the image on a range, if there is one to check. -/
def Matches (depth : Memory → Nat) (s : Shim) (m : Memory) (baseAddr : Int) (image picked : List Nat) : Prop :=
  ∀ lo hi, span picked = some (lo, hi) →
    crcRange (boardWord depth s m baseAddr) lo hi = crcRange (imageWord image) lo hi

theorem matches_of_span (image : List Nat) {picked : List Nat} (found : span picked = some (lo, hi)) :
    Matches depth s m baseAddr image picked ↔
      crcRange (boardWord depth s m baseAddr) lo hi = crcRange (imageWord image) lo hi := by
  constructor
  · exact fun all => all lo hi found
  · intro same _ _ other
    obtain ⟨rfl, rfl⟩ := Prod.mk.inj (Option.some.inj (found.symm.trans other))
    exact same

theorem sramPasses_board (isCrc : ∀ bytes, zlibCrc32 bytes = (crc32 bytes).toNat)
    (same : xs.length = ys.length) (space : ys.length ≤ 2 ^ 29) (small : ∀ w ∈ ys, w < 2 ^ 32) :
    ∃ passes, sramPasses zlibCrc32 xs ys (reportedCrc depth s m baseAddr) = .ok passes ∧
      (passes = true ↔ xs ≠ ys ∧ Matches depth s m baseAddr ys (changed xs ys)) := by
  rw [sramPasses, Ne, ← changed_eq_nil same, ← span_eq_none]
  cases found : span (changed xs ys) with
  | none => exact ⟨false, rfl, by simp⟩
  | some range =>
    obtain ⟨lo, hi⟩ := range
    have bounds := span_inside (fun i member => ((mem_changed same).mp member).1) found
    rw [same] at bounds
    refine ⟨_, rangePasses_board isCrc small bounds.2 space, ?_⟩
    rw [matches_of_span ys found]
    simp

theorem smemPasses_board (isCrc : ∀ bytes, zlibCrc32 bytes = (crc32 bytes).toNat)
    (space : xs.length ≤ 2 ^ 29) (small : ∀ w ∈ xs, w < 2 ^ 32) :
    ∃ passes, smemPasses zlibCrc32 xs (reportedCrc depth s m baseAddr) = .ok passes ∧
      (passes = true ↔ Matches depth s m baseAddr xs (nonzero xs)) := by
  rw [smemPasses]
  cases found : span (nonzero xs) with
  | none => exact ⟨true, rfl, by simp [Matches, found]⟩
  | some range =>
    obtain ⟨lo, hi⟩ := range
    have inside (i : Nat) (member : i ∈ nonzero xs) : i < xs.length := by
      obtain ⟨w, read, -⟩ := mem_nonzero.mp member
      exact (List.getElem?_eq_some_iff.mp read).1
    have bounds := span_inside inside found
    refine ⟨_, rangePasses_board isCrc small bounds.2 space, ?_⟩
    rw [matches_of_span xs found]
    simp

variable {rows : List Golden.Row} {r : Result} {smemBase sramBase : Int}

/-- The verdict, on any board: the golden model changed SRAM, the board has the golden CRC on
    the changed range, and the initial CRC on the preloaded range of the system memory. -/
theorem verdict_iff (isCrc : ∀ bytes, zlibCrc32 bytes = (crc32 bytes).toNat)
    (returns : runScenario rows smemWordsDefault sramWordsDefault = .ok r) :
    ∃ passes, verdict zlibCrc32 r (reportedCrc depth s .sysmem smemBase)
        (reportedCrc depth s .sram sramBase) = .ok passes ∧
      (passes = true ↔ (r.initialSram ≠ r.finalSram ∧
          Matches depth s .sram sramBase r.finalSram (changed r.initialSram r.finalSram)) ∧
        Matches depth s .sysmem smemBase r.initialSmem (nonzero r.initialSmem)) := by
  obtain ⟨initial, final⟩ := Golden.returned_images returns
  obtain ⟨initialSmem, initialSram⟩ := small_of_words initial.words
  obtain ⟨-, finalSram⟩ := small_of_words final.words
  obtain ⟨sramOk, sramRan, sramIff⟩ := @sramPasses_board depth s .sram sramBase _ _ _ isCrc
    (initial.sram.trans final.sram.symm) (by rw [final.sram]; decide) finalSram
  obtain ⟨smemOk, smemRan, smemIff⟩ := @smemPasses_board depth s .sysmem smemBase _ _ isCrc
    (by rw [initial.smem]; decide) initialSmem
  rw [verdict, loadHex32_eq initialSmem, loadHex32_eq initialSram, loadHex32_eq finalSram, allPass,
    sramRan, ok_bind, smemRan, ok_bind]
  refine ⟨_, rfl, ?_⟩
  rw [Bool.and_eq_true, sramIff, smemIff]

/-- A memory of the board is wrong in one word of the range that is checked. -/
def WrongWord (depth : Memory → Nat) (s : Shim) (m : Memory) (baseAddr : Int) (image picked : List Nat) : Prop :=
  ∃ lo hi w, span picked = some (lo, hi) ∧
    OneWrong (boardWord depth s m baseAddr) (imageWord image) lo hi w

theorem WrongWord.not_matches {picked : List Nat} (one : WrongWord depth s m baseAddr image picked) :
    ¬ Matches depth s m baseAddr image picked := by
  obtain ⟨lo, hi, w, found, one⟩ := one
  intro all
  exact one.crcRange_ne (all lo hi found)

/-- A wrong word is caught, whatever the rest of the board holds. -/
theorem wrong_word_fails (isCrc : ∀ bytes, zlibCrc32 bytes = (crc32 bytes).toNat)
    (returns : runScenario rows smemWordsDefault sramWordsDefault = .ok r)
    (one : WrongWord depth s .sram sramBase r.finalSram (changed r.initialSram r.finalSram) ∨
      WrongWord depth s .sysmem smemBase r.initialSmem (nonzero r.initialSmem)) :
    verdict zlibCrc32 r (reportedCrc depth s .sysmem smemBase) (reportedCrc depth s .sram sramBase) =
      .ok false := by
  obtain ⟨passes, ran, iff⟩ := @verdict_iff depth s zlibCrc32 rows r smemBase sramBase isCrc returns
  cases passes with
  | false => exact ran
  | true =>
    obtain ⟨⟨-, sram⟩, smem⟩ := iff.mp rfl
    cases one with
    | inl one => exact absurd sram one.not_matches
    | inr one => exact absurd smem one.not_matches

end Board

/-- Three words from system memory to SRAM. -/
def forwardThree : List Golden.Row :=
  [.smem 100 7, .smem 101 8, .smem 102 9, .csrBaseaddr 0, .csrRinglen 4, .desc 400 16 3 1, .enable]

/-- Of the words 4 to 6 of the board's SRAM the middle one is 1 instead of 8. -/
theorem wrong_word_fails_forward :
    ∃ r, runScenario forwardThree smemWordsDefault sramWordsDefault = .ok r ∧
      verdict pyCrc32 r
        (reportedCrc (fun _ => 1024) (boardWith r.finalSmem (r.finalSram.set 5 1)) .sysmem 0)
        (reportedCrc (fun _ => 1024) (boardWith r.finalSmem (r.finalSram.set 5 1)) .sram 0) =
          .ok false := by
  have computed : (do let r ← runScenario forwardThree smemWordsDefault sramWordsDefault
                      pure (span (changed r.initialSram r.finalSram) == some (4, 7) &&
                        r.finalSram[5]? == some 8)) = .ok true := by decide +kernel
  obtain ⟨r, returns, eq⟩ := bind_eq_ok.mp computed
  obtain ⟨range, golden⟩ := Bool.and_eq_true _ _ ▸ pure_eq_ok.mp eq
  have found : span (changed r.initialSram r.finalSram) = some (4, 7) := by simpa using range
  have eight : r.finalSram[5]? = some 8 := by simpa using golden
  have size := (Golden.returned_images returns).2.sram
  have one : (r.finalSram.set 5 1)[5]? = some 1 := by
    rw [List.getElem?_set_self]
    rw [size]
    decide
  refine ⟨r, returns, wrong_word_fails pyCrc32_eq returns (.inl ⟨4, 7, 5, found, ?_⟩)⟩
  refine ⟨by decide, by decide, ?_, fun i low high other => ?_⟩
  · change BitVec.ofNat 32 ((r.finalSram.set 5 1)[5]?.getD 0) ≠ BitVec.ofNat 32 (r.finalSram[5]?.getD 0)
    rw [one, eight]
    decide
  · have set : (r.finalSram.set 5 1)[i]? = r.finalSram[i]? := List.getElem?_set_ne (Ne.symm other)
    obtain rfl | rfl : i = 4 ∨ i = 6 := by omega
    · exact congrArg (fun word => BitVec.ofNat 32 (word.getD 0)) set
    · exact congrArg (fun word => BitVec.ofNat 32 (word.getD 0)) set

end AxiDma.Host.SerialHost
