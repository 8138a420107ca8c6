import AxiDma.Verified.GoldenRun
import AxiDma.Verified.ReplayCopy

/-! # The golden model and the RTL

A golden memory is a list, an RTL memory a function; `image` reads one as the other.  On
images the copy of a descriptor with a length is the same in both models, so a returning
scenario and the closed data path end with the same memories.  A length of 0 moves nothing
in the golden model and one word, or never ends, in the RTL.
-/

namespace AxiDma.Verified

open AxiDma.Lib AxiDma.Rtl

/-! ## Memories as lists -/

def image (n : Nat) (mem : Nat → Word) : List Nat := (List.range n).map fun i => (mem i).toNat

def bramImage {addrWidth : Nat} (mem : BitVec addrWidth → Word) : List Nat :=
  image (2 ^ addrWidth) fun i => mem (BitVec.ofNat addrWidth i)

variable {n base addrWidth : Nat} {mem mem' : Nat → Word} {ws : List Word}

@[simp] theorem length_image : (image n mem).length = n := by simp [image]

theorem getElem?_image {i : Nat} (inside : i < n) : (image n mem)[i]? = some (mem i).toNat := by
  simp [image, inside]

theorem image_congr (same : ∀ i < n, mem i = mem' i) : image n mem = image n mem' :=
  List.map_congr_left fun i member => by rw [same i (List.mem_range.mp member)]

theorem image_update {a : Nat} (v : Word) :
    image n (Function.update mem a v) = (image n mem).set a v.toNat := by
  refine List.ext_getElem (by simp) fun i _ inside => ?_
  simp only [image, List.getElem_map, List.getElem_range, List.getElem_set]
  by_cases same : a = i
  · rw [if_pos same, same, Function.update_self]
  · rw [if_neg same, Function.update_of_ne (Ne.symm same)]

theorem image_overlayNat :
    image n (overlayNat mem base ws) =
      Golden.storeWords (image n mem) base (ws.map BitVec.toNat) := by
  induction ws generalizing mem base with
  | nil => rw [overlayNat_nil, List.map_nil, Golden.storeWords]
  | cons w ws ih =>
    rw [overlayNat_cons, ih, image_update, List.map_cons, Golden.storeWords, Golden.and_mask32,
      Nat.mod_eq_of_lt w.isLt]

theorem block_image {a count : Nat} (fits : a + count ≤ n) :
    Golden.block (image n mem) a count =
      ((List.range count).map fun j => mem (a + j)).map BitVec.toNat := by
  rw [Golden.block, List.map_map]
  refine List.map_congr_left fun j member => ?_
  have inside := List.mem_range.mp member
  rw [getElem?_image (by omega), Option.getD_some, Golden.and_mask32, Nat.mod_eq_of_lt (mem _).isLt]
  rfl

theorem bramImage_overlay {bram : BitVec addrWidth → Word} :
    bramImage (overlay bram base ws) =
      Golden.storeWords (bramImage bram) base (ws.map BitVec.toNat) := by
  rw [bramImage, bramImage, ← image_overlayNat]
  -- an address of the BRAM is its number
  refine image_congr fun i inside => ?_
  rw [overlay, overlayNat, BitVec.toNat_ofNat, Nat.mod_eq_of_lt inside]

/-! ## One descriptor -/

/-- The descriptor as the golden model holds it. -/
def toGolden (d : Desc) : Golden.Descriptor := ⟨d.w0.toNat, d.w1.toNat, d.w2.toNat, d.w3.toNat⟩

theorem toGolden_masked (d : Desc) : Golden.Masked (toGolden d) :=
  ⟨d.w0.isLt, d.w1.isLt, d.w2.isLt, d.w3.isLt⟩

theorem toGolden_beats (d : Desc) : (toGolden d).beats = d.lenBeats.toNat := by
  rw [Golden.Descriptor.beats, Desc.lenBeats, BitVec.toNat_setWidth]
  rfl

theorem toGolden_toSram (d : Desc) : (toGolden d).toSram = d.dir := by
  rw [Golden.Descriptor.toSram, Desc.dir, BitVec.getLsbD, Nat.testBit_zero]
  rfl

/-- Both memories, as the golden model holds them. -/
def images (n : Nat) (m : Memories addrWidth) : List Nat × List Nat :=
  (image n m.ram, bramImage m.bram)

variable {d : Desc} {m : Memories addrWidth}

theorem memBase_eq (p : Pair) : Job.memBase p = p.axiAddr.toNat / 4 := by
  rw [Job.memBase, BitVec.toNat_ushiftRight, Nat.shiftRight_eq_div_pow]

theorem firstWord_eq (p : Pair) : Transfer.firstWord p = p.sramAddr.toNat / 4 := by
  rw [Transfer.firstWord, BitVec.toNat_ushiftRight, Nat.shiftRight_eq_div_pow]

theorem memWord_eq (p : Pair) (ram : Nat → Word) :
    Job.memWord p ram = fun j => ram (p.axiAddr.toNat / 4 + j) := by
  funext j
  rw [Job.memWord, memBase_eq]

theorem sourceWord_eq (p : Pair) (bram : BitVec addrWidth → Word) :
    Transfer.sourceWord p bram =
      fun j => bram (BitVec.ofNat addrWidth (p.sramAddr.toNat / 4 + j)) := by
  funext j
  rw [Transfer.sourceWord, firstWord_eq]

theorem fits_of_golden (some : d.lenBeats ≠ 0)
    (fits : Golden.MoveFits (toGolden d) n (2 ^ addrWidth)) : Fits n addrWidth (pairOf d) := by
  have smem := fits.smem
  have sram := fits.sram
  rw [toGolden_beats, toGolden_toSram] at smem sram
  have len : beats (pairOf d).len = d.lenBeats.toNat := by rw [pairOf_len, beats_of_ne_zero some]
  refine ⟨?_, ?_, fun _ => by rwa [pairOf_len]⟩
  · rw [len, memBase_eq]
    unfold pairOf
    cases dir : d.dir <;> simpa [dir, toGolden] using smem
  · rw [len, firstWord_eq]
    unfold pairOf
    cases dir : d.dir <;> simpa [dir, toGolden] using sram

/-- With a length, both models make the same copy. -/
theorem images_copyPair (some : d.lenBeats ≠ 0)
    (fits : Golden.MoveFits (toGolden d) n (2 ^ addrWidth)) :
    images n (copyPair (pairOf d) m) = Golden.moved (toGolden d) (images n m) := by
  have inside := fits_of_golden some fits
  have len : beats (pairOf d).len = d.lenBeats.toNat := by rw [pairOf_len, beats_of_ne_zero some]
  have smem := inside.mem
  have sram := inside.bram
  rw [copyPair, Golden.moved, toGolden_toSram, toGolden_beats, pairOf_toSram]
  rw [len] at smem sram ⊢
  rw [memBase_eq] at smem
  rw [firstWord_eq] at sram
  rw [memWord_eq, sourceWord_eq, firstWord_eq, memBase_eq]
  cases dir : d.dir with
  | true =>
    simp only [pairOf, dir, if_true] at smem ⊢
    have source : Golden.block (image n m.ram) ((toGolden d).w0 / 4) d.lenBeats.toNat = _ :=
      block_image smem
    simp only [images, bramImage_overlay, source]
    rfl
  | false =>
    simp only [pairOf, dir, Bool.false_eq_true, if_false] at sram ⊢
    have source : Golden.block (bramImage m.bram) ((toGolden d).w0 / 4) d.lenBeats.toNat = _ :=
      block_image sram
    simp only [images, image_overlayNat, source]
    rfl

/-- A length of 0 moves nothing in the golden model -/
theorem moved_of_zero (zero : d.lenBeats = 0) (lists : List Nat × List Nat) :
    Golden.moved (toGolden d) lists = lists := by
  rw [Golden.moved, toGolden_beats, zero]
  cases (toGolden d).toSram <;> rfl

/-- and one word to the SRAM in the RTL. -/
theorem copyPair_of_zero (zero : d.lenBeats = 0) (dir : d.dir = true) :
    copyPair (pairOf d) m =
      { m with bram := overlay m.bram (d.w1.toNat / 4) [m.ram (d.w0.toNat / 4)] } := by
  rw [copyPair, pairOf_toSram, if_pos dir, pairOf_len, zero, firstWord_eq, memWord_eq, pairOf,
    if_pos dir]
  rfl

/-! ## The whole list -/

theorem images_copyAll {ds : List Desc} (some : ∀ d ∈ ds, d.lenBeats ≠ 0)
    (fits : ∀ d ∈ ds, Golden.MoveFits (toGolden d) n (2 ^ addrWidth)) :
    images n (Replay.copyAll ds m) = Golden.movedAll (ds.map toGolden) (images n m) := by
  induction ds generalizing m with
  | nil => rfl
  | cons d ds ih =>
    rw [List.map_cons, Golden.movedAll, List.foldl_cons,
      ← images_copyPair (some d (by simp)) (fits d (by simp))]
    exact ih (fun e member => some e (by simp [member])) (fun e member => fits e (by simp [member]))

/-- When a scenario returns whose copies stay off the ring,
    the golden model has fetched what was posted, and the closed data path finishes these
    descriptors exactly when none of them is a write of length 0.  With a length in every
    descriptor both end with the same memories. -/
theorem golden_agrees {k addrWidth smemWords : Nat} (deep : 2 ≤ k) (addressable : smemWords ≤ 2 ^ 30)
    {loads : List Golden.Load} {baseaddr ringlen : Int} {ds : List Desc} {result : Golden.Result}
    (returns : Golden.runScenario
      (Golden.scenario loads baseaddr ringlen (ds.map toGolden)) smemWords (2 ^ addrWidth) = .ok result)
    (apart : ∀ d ∈ ds, Golden.Apart (Golden.maskInt baseaddr) ds.length (toGolden d))
    (path : DataPath.State k addrWidth) (mem : Rtl.SysMem.State)
    (smem : image smemWords mem.ram = result.initialSmem)
    (sram : bramImage path.engines.bram.mem = result.initialSram) :
    result.descsFetched = ds.map (fun d => (toGolden d).pack) ∧
      ((∃ t, ((Replay.step smemWords)^[t] (Replay.start ds path mem)).chain.finished = ds.length) ↔
        ∀ d ∈ ds, ¬ Replay.Stops d) ∧
      ((∀ d ∈ ds, d.lenBeats ≠ 0) →
        ∃ t, let r := (Replay.step smemWords)^[t] (Replay.start ds path mem)
          r.chain.finished = ds.length ∧ image smemWords r.mem.ram = result.finalSmem ∧
            bramImage r.chain.path.engines.bram.mem = result.finalSram) := by
  obtain ⟨descs, moved, fits⟩ := Golden.runScenario_eq addressable
    (fun e member => by
      obtain ⟨d, -, rfl⟩ := List.mem_map.mp member
      exact toGolden_masked d)
    (fun e member => by
      obtain ⟨d, posted, rfl⟩ := List.mem_map.mp member
      rw [List.length_map]
      exact apart d posted) returns
  refine ⟨?_, replay_finishes_iff smemWords ds path mem, fun some => ?_⟩
  · rw [descs, List.map_map]
    rfl
  · -- the scenario has returned, so every block with a length has passed its bounds checks
    have fit : ∀ d ∈ ds, Golden.MoveFits (toGolden d) smemWords (2 ^ addrWidth) := by
      intro d posted
      refine fits _ (List.mem_map_of_mem posted) ?_
      rw [toGolden_beats]
      exact fun zero => some d posted (BitVec.eq_of_toNat_eq zero)
    obtain ⟨t, finished, ram, bram⟩ := replay_copies deep (Golden.smemWords_pos returns)
      (fun d posted => fits_of_golden (some d posted) (fit d posted)) path mem
    have copied := images_copyAll (m := ⟨mem.ram, path.engines.bram.mem⟩) some fit
    rw [images, images, smem, sram, ← moved] at copied
    obtain ⟨finalSmem, finalSram⟩ := Prod.mk.inj copied
    exact ⟨t, finished, by rw [ram, finalSmem], by rw [bram, finalSram]⟩

/-- MID of depth 4, a BRAM of four zeros. -/
def smallPath : DataPath.State 2 2 :=
  { dataMover := zeroPath.dataMover
    dmFifoAxi := zeroPath.dmFifoAxi
    dmFifoSram := zeroPath.dmFifoSram
    engines := (Transfer.atReset 2 fun _ => 0).eng
    handshakeDoneD := false
    dmDone := false }

def memOf (words : List Word) : Rtl.SysMem.State :=
  { (jobOf ⟨0, 0, 0, 0⟩).mem with ram := fun i => words.getD i 0 }

/-- One word to the SRAM, then back to another place. -/
theorem golden_agrees_there_and_back :
    let loaded := memOf [7, 0, 0, 0, 0, 0, 0, 0, 0, 4, 1, 1, 4, 8, 1, 0]
    ∃ t, let r := (Replay.step 16)^[t] (Replay.start [⟨0, 4, 1, 1⟩, ⟨4, 8, 1, 0⟩] smallPath loaded)
      r.chain.finished = 2 ∧
        image 16 r.mem.ram = [7, 0, 7, 0, 0, 0, 0, 0, 0, 4, 1, 1, 4, 8, 1, 0] ∧
        bramImage r.chain.path.engines.bram.mem = [0, 7, 0, 0] :=
  have returns : Golden.runScenario (Golden.scenario [.smem 0 7] 32 3
      ([⟨0, 4, 1, 1⟩, ⟨4, 8, 1, 0⟩].map toGolden)) 16 (2 ^ 2) = .ok
        { stimLines := [.sysmemWrite 0 7, .csrWrite 0 32, .csrWrite 4 3, .sysmemWrite 32 0,
            .sysmemWrite 36 4, .sysmemWrite 40 1, .sysmemWrite 44 1, .csrWrite 12 1,
            .sysmemWrite 48 4, .sysmemWrite 52 8, .sysmemWrite 56 1, .sysmemWrite 60 0,
            .csrWrite 12 2]
          initialSmem := [7, 0, 0, 0, 0, 0, 0, 0, 0, 4, 1, 1, 4, 8, 1, 0]
          finalSmem := [7, 0, 7, 0, 0, 0, 0, 0, 0, 4, 1, 1, 4, 8, 1, 0]
          initialSram := [0, 0, 0, 0]
          finalSram := [0, 7, 0, 0]
          descsFetched := [79228162532711081684433371136, 18446744108069289988] } := by decide +kernel
  (golden_agrees (by decide) (by decide) returns (by decide) smallPath _ rfl rfl).2.2 (by decide)

/-- A write of length 0: the scenario returns and the closed data path never finishes. -/
theorem zero_length_write_diverges :
    let d : Desc := ⟨0, 0, 0, 0⟩
    Golden.Apart 32 1 (toGolden d) ∧
      (∃ result, Golden.runScenario (Golden.scenario [] 32 2 [toGolden d]) 16 (2 ^ 2) = .ok result ∧
        image 16 (memOf []).ram = result.initialSmem ∧
        bramImage smallPath.engines.bram.mem = result.initialSram) ∧
      ¬ ∃ t, ((Replay.step 16)^[t] (Replay.start [d] smallPath (memOf []))).chain.finished = 1 := by
  refine ⟨by decide, ?_, ?_⟩
  · exact ⟨⟨[.csrWrite 0 32, .csrWrite 4 2, .sysmemWrite 32 0, .sysmemWrite 36 0, .sysmemWrite 40 0,
      .sysmemWrite 44 0, .csrWrite 12 1], List.replicate 16 0, List.replicate 16 0,
      List.replicate 4 0, List.replicate 4 0, [0]⟩, by decide +kernel, rfl, rfl⟩
  · rintro ⟨t, finished⟩
    have none := (replay_finishes_iff 16 _ smallPath (memOf [])).mp ⟨t, finished⟩
    exact none _ (List.mem_singleton_self _) (by decide)

end AxiDma.Verified
