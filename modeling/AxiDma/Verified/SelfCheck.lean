import AxiDma.Host.DryRun
import AxiDma.Verified.Provenance

/-! # What the dry run accepts

The dry run looks at the final images only, so it sees the last word written to a destination
and, for SRAM sources, the last word written to the source.  `dryRun_iff` traces both back to
the initial images.
-/

namespace AxiDma.Host.DryRun

open AxiDma.Golden AxiDma.Lib

variable {got exp : List Nat} {row : DescRow} {beat : Nat} {rows : List Row} {r : Result}

/-! ## One beat -/

theorem loadAt_eq_ok {mem : List Nat} {i : Int} {v : Nat} :
    loadAt mem i = .ok v ↔ ∃ n, pyIndex mem.length i = some n ∧ (mem[n]?).getD 0 = v := by
  unfold loadAt
  cases index : pyIndex mem.length i with
  | none => simp
  | some n =>
    have inside := (pyIndex_lt index).1
    simp [load_eq_ok, List.getElem?_eq_getElem inside]

theorem beatPasses_iff :
    beatPasses got exp row beat = .ok true ↔
      (exp.length ≤ row.src >>> (2 : Nat) + beat ∨ got.length ≤ row.dst >>> (2 : Nat) + beat) ∨
        ∃ i j, pyIndex got.length (row.dst >>> (2 : Nat) + beat) = some i ∧
          pyIndex exp.length (row.src >>> (2 : Nat) + beat) = some j ∧
          (got[i]?).getD 0 = (exp[j]?).getD 0 := by
  unfold beatPasses
  dsimp only
  split
  · next skipped => simp [skipped, pure_eq_ok]
  · next inRange =>
    simp only [inRange, false_or, bind_eq_ok, loadAt_eq_ok, pure_eq_ok, beq_iff_eq]
    constructor
    · rintro ⟨_, ⟨i, dst, rfl⟩, _, ⟨j, src, rfl⟩, same⟩
      exact ⟨i, j, dst, src, same⟩
    · rintro ⟨i, j, dst, src, same⟩
      exact ⟨_, ⟨i, dst, rfl⟩, _, ⟨j, src, rfl⟩, same⟩

/-! ## Counting -/

theorem countBeat_le {n n' : Nat} (counted : countBeat r row n beat = .ok n') : n ≤ n' := by
  obtain ⟨passes, -, eq⟩ := bind_eq_ok.mp counted
  obtain rfl := pure_eq_ok.mp eq
  split <;> omega

theorem countBeat_eq_start {n : Nat} :
    countBeat r row n beat = .ok n ↔ beatPasses (images r row).1 (images r row).2 row beat = .ok true := by
  rw [countBeat, bind_eq_ok]
  constructor
  · rintro ⟨passes, ran, eq⟩
    cases passes with
    | true => exact ran
    | false =>
      have := pure_eq_ok.mp eq
      rw [if_neg (by decide)] at this
      omega
  · intro ran
    exact ⟨true, ran, rfl⟩

theorem countRow_eq_start {n : Nat} :
    countRow r n row = .ok n ↔
      ∀ beat < row.length, beatPasses (images r row).1 (images r row).2 row beat = .ok true := by
  rw [countRow, foldlM_eq_start fun n beat n' => countBeat_le]
  simp only [List.mem_range, countBeat_eq_start]

theorem dryRun_eq_ok (returns : runScenario rows smemWordsDefault sramWordsDefault = .ok r) :
    dryRun rows = .ok true ↔ ∀ row ∈ descRows rows, ∀ beat < row.length,
      beatPasses (images r row).1 (images r row).2 row beat = .ok true := by
  have counts : (descRows rows).foldlM (countRow r) 0 = .ok 0 ↔
      ∀ row ∈ descRows rows, countRow r 0 row = .ok 0 :=
    foldlM_eq_start fun n row n' => foldlM_le fun n beat n' => countBeat_le
  simp only [countRow_eq_start] at counts
  rw [← counts, dryRun, returns, ok_bind, bind_eq_ok]
  constructor
  · rintro ⟨errors, counted, eq⟩
    have none : errors = 0 := by simpa using pure_eq_ok.mp eq
    rwa [none] at counted
  · intro counted
    exact ⟨0, counted, rfl⟩

/-! ## Back to the initial images -/

/-- The world in which the event loop starts. -/
def start (rows : List Row) : World := applyRows rows (World.fresh smemWordsDefault sramWordsDefault)

/-- The cell whose initial word the run leaves in `c`. -/
def cameFrom (rows : List Row) (c : Cell) : Cell :=
  origin (runMoves (RingManager.base (start rows)) (RingManager.tail (start rows))
    (start rows).memories) c

/-- Lengths of the two images of a row. -/
def lengths (row : DescRow) : Nat × Nat :=
  if row.dirBit ≠ 0 then (sramWordsDefault, smemWordsDefault) else (smemWordsDefault, sramWordsDefault)

/-- The cells whose initial words a beat compares, by the list positions of its destination
    and its source. -/
def compared (rows : List Row) (row : DescRow) (i j : Nat) : Cell × Cell :=
  if row.dirBit ≠ 0 then (cameFrom rows (.sram i), .smem j)
  else (cameFrom rows (.smem i), cameFrom rows (.sram j))

/-- The beat is out of range, or both its cells can be read and trace back to equal words. -/
def Traced (rows : List Row) (row : DescRow) (beat : Nat) : Prop :=
  ((lengths row).2 ≤ row.src >>> (2 : Nat) + beat ∨ (lengths row).1 ≤ row.dst >>> (2 : Nat) + beat) ∨
    ∃ i j, pyIndex (lengths row).1 (row.dst >>> (2 : Nat) + beat) = some i ∧
      pyIndex (lengths row).2 (row.src >>> (2 : Nat) + beat) = some j ∧
      wordAt (start rows).memories (compared rows row i j).1 =
        wordAt (start rows).memories (compared rows row i j).2

/-- What the dry run accepts, of a scenario that returns. -/
theorem dryRun_iff (member : .enable ∈ rows)
    (returns : runScenario rows smemWordsDefault sramWordsDefault = .ok r) :
    dryRun rows = .ok true ↔ ∀ row ∈ descRows rows, ∀ beat < row.length, Traced rows row beat := by
  obtain ⟨initial, final, fits⟩ := returned_run member returns
  obtain ⟨initialSmem, -⟩ := Prod.mk.inj initial
  have built : Built smemWordsDefault sramWordsDefault (start rows) := built_applyRows rows
  have same := length_execSlots (RingManager.base (start rows)) (RingManager.tail (start rows))
    (start rows).memories
  -- a word of the final memories is the initial word of the cell it came from
  have came (c : Cell) : wordAt (start rows).memories (cameFrom rows c) =
      wordAt (r.finalSmem, r.finalSram) c := by
    rw [final]
    exact (wordAt_origin (words_applyRows _ _ _) fits c).symm
  have smem : r.finalSmem.length = smemWordsDefault := by
    have eq : r.finalSmem = _ := congrArg Prod.fst final
    rw [eq]
    exact same.1.trans built.smem
  have sram : r.finalSram.length = sramWordsDefault := by
    have eq : r.finalSram = _ := congrArg Prod.snd final
    rw [eq]
    exact same.2.trans built.sram
  have source : r.initialSmem.length = smemWordsDefault := by
    rw [initialSmem]
    exact built.smem
  rw [dryRun_eq_ok returns]
  -- the source image is the initial system memory for DIR = 1, the final BRAM for DIR = 0
  refine forall₄_congr fun row _ beat _ => ?_
  rw [beatPasses_iff, Traced]
  by_cases dir : row.dirBit ≠ 0
  · simp only [images, lengths, compared, if_pos dir, came]
    rw [sram, source, initialSmem]
    rfl
  · simp only [images, lengths, compared, if_neg dir, came]
    rw [smem, sram]
    rfl

/-- Two transfers to one destination. -/
def sameDestination : List Row :=
  [.smem 100 7, .smem 101 8, .csrBaseaddr 0, .csrRinglen 4, .desc 400 16 1 1, .desc 404 16 1 1,
    .enable]

theorem same_destination_rejected :
    (runScenario sameDestination smemWordsDefault sramWordsDefault).isOk = true ∧
      dryRun sameDestination = .ok false := by
  constructor <;> decide +kernel

/-- A word there and back. -/
def thereAndBack : List Row :=
  [.smem 100 7, .csrBaseaddr 0, .csrRinglen 4, .desc 400 16 1 1, .desc 16 440 1 0, .enable]

theorem there_and_back_traced :
    dryRun thereAndBack = .ok true ∧
      ∀ row ∈ descRows thereAndBack, ∀ beat < row.length, Traced thereAndBack row beat := by
  obtain ⟨r, returns⟩ :=
    exists_of_isOk (x := runScenario thereAndBack smemWordsDefault sramWordsDefault) (by decide +kernel)
  have passes : dryRun thereAndBack = .ok true := by decide +kernel
  exact ⟨passes, (dryRun_iff (by decide) returns).mp passes⟩

end AxiDma.Host.DryRun
