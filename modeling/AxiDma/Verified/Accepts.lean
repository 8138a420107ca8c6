import AxiDma.Verified.GoldenRun
import AxiDma.Verified.Sequential

/-! # Which transfers the golden model accepts

In a supported scenario the ring keeps what the rows put there, so every iteration fetches the
descriptor of its slot.  MID must take the whole transfer at once: it has 128 places, and a
length goes up to 255.
-/

namespace AxiDma.Golden

open AxiDma.Lib

variable {base n smemWords sramWords : Nat} {w : World} {rows : List Row} {addr rlen : Int}
  {m : List Nat × List Nat}

/-! ## The memories when the event loop starts -/

def loadedMemories (rows : List Row) (smemWords sramWords : Nat) : List Nat × List Nat :=
  (applyRows rows (World.fresh smemWords sramWords)).memories

/-- The descriptor in slot `j` when the event loop starts. -/
def loadedDesc (rows : List Row) (smemWords sramWords : Nat) (addr : Int) (j : Nat) : Descriptor :=
  slotDesc (maskInt addr) j (loadedMemories rows smemWords sramWords)

/-- A scenario the hardware supports: the registers are set before the first descriptor, ring
    and payload lie inside the memories, and no payload is written over the ring. -/
structure Supported (rows : List Row) (smemWords sramWords : Nat) (addr rlen : Int) : Prop where
  sizes : smemWords ≠ 0 ∧ sramWords ≠ 0
  ordered : RegistersFirst rows
  baseaddr : rows.filterMap Row.baseaddr? = [addr]
  ringlen : rows.filterMap Row.ringlen? = [rlen]
  enabled : .enable ∈ rows
  known : ∀ op, .other op ∉ rows
  smemLoads : ∀ wi data, .smem wi data ∈ rows → (pyIndex smemWords wi).isSome = true
  sramLoads : ∀ wi data, .sram wi data ∈ rows → (pyIndex sramWords wi).isSome = true
  room : rows.countP Row.isDesc < maskInt rlen
  few : rows.countP Row.isDesc ≤ 256
  aligned : maskInt addr % 4 = 0
  ringFits : maskInt addr + 16 * maskInt rlen ≤ 4 * smemWords
  ringAddressed : maskInt addr + 16 * maskInt rlen ≤ 2 ^ 32
  fits : ∀ j < rows.countP Row.isDesc, (loadedDesc rows smemWords sramWords addr j).beats ≠ 0 →
    MoveFits (loadedDesc rows smemWords sramWords addr j) smemWords sramWords
  apart : ∀ j < rows.countP Row.isDesc,
    Apart (maskInt addr) (maskInt rlen) (loadedDesc rows smemWords sramWords addr j)

/-! ## The setup phase -/

/-- While a `desc` row is still to come, all register rows have been seen. -/
theorem filterMap_before {select : Row → Option Int} {seen : List Row} {row : Row}
    (ordered : RegistersFirst rows) (within : seen ++ [row] <+: rows) (desc : row.isDesc = true)
    (register : ∀ r, r.isRegister = false → select r = none) :
    seen.filterMap select = rows.filterMap select := by
  obtain ⟨rest, rfl⟩ := within
  have silent (r : Row) (later : r ∈ row :: rest) : select r = none := by
    refine register r ?_
    rcases List.mem_cons.mp later with rfl | behind
    · cases r <;> simp_all [Row.isDesc, Row.isRegister]
    · rw [RegistersFirst, List.append_assoc, List.pairwise_append] at ordered
      exact (List.pairwise_cons.mp ordered.2.1).1 r behind desc
  have none : (row :: rest).filterMap select = [] := List.filterMap_eq_nil_iff.mpr silent
  rw [List.append_assoc, List.filterMap_append, List.singleton_append, none, List.append_nil]

theorem Supported.setup_returns (supported : Supported rows smemWords sramWords addr rlen) :
    ∃ setup, rows.foldlM setupRow { world := World.fresh smemWords sramWords, stim := [] } =
      .ok setup := by
  refine (foldlM_returns (s := { world := World.fresh smemWords sramWords, stim := [] })
    (P := fun (seen : List Row) (t : Setup) => Built smemWords sramWords t.world ∧
      Posting (seen.countP Row.isDesc) t.world ∧ t.world = applyRows seen (World.fresh smemWords sramWords))
    (fun seen row t within held => ?_) ⟨built_fresh, posting_fresh, rfl⟩).imp fun _ both => both.1
  obtain ⟨built, posting, same⟩ := held
  have member : row ∈ rows := within.subset (by simp)
  have accepted : row.Accepted t.world := by
    cases row with
    | smem wi data =>
      rw [Row.Accepted, built.smem]
      exact supported.smemLoads wi data member
    | sram wi data =>
      rw [Row.Accepted, built.sram]
      exact supported.sramLoads wi data member
    | csrBaseaddr | csrRinglen | enable => trivial
    | other op => exact absurd member (supported.known op)
    | desc src dst len flags =>
      have before (select : Row → Option Int)
          (register : ∀ r, r.isRegister = false → select r = none) :
          seen.filterMap select = rows.filterMap select :=
        filterMap_before supported.ordered within rfl register
      have base : RingManager.base t.world = maskInt addr := by
        rw [same, base_of_once ((before _ fun r plain => ?_).trans supported.baseaddr)]
        cases r <;> simp_all [Row.isRegister, Row.baseaddr?]
      have ringlen : t.world.csr.ringlen &&& mask32 = maskInt rlen := by
        rw [same, ringlen_of_once ((before _ fun r plain => ?_).trans supported.ringlen)]
        cases r <;> simp_all [Row.isRegister, Row.ringlen?]
      have count := within.sublist.countP_le (p := Row.isDesc)
      rw [countP_snoc, Row.isDesc, Bool.toNat_true] at count
      have room := supported.room
      have fits := supported.ringFits
      have space := supported.ringAddressed
      refine ⟨by omega, ?_, ?_⟩
      · rw [RingManager.isFull_eq_ok, ringlen, posting.tail, posting.head_eq, Nat.zero_mod,
          Nat.mod_eq_of_lt (by omega : seen.countP Row.isDesc < maskInt rlen),
          Nat.mod_eq_of_lt (by omega)]
        exact ⟨by omega, by simp⟩
      · rw [tailWord, base, ringlen, posting.tail, descriptorSizeBytes, built.smem,
          Nat.mod_eq_of_lt (by omega : seen.countP Row.isDesc < maskInt rlen)]
        omega
  refine ⟨_, (setupRow_eq_ok built).mpr ⟨accepted, rfl⟩, built.applied row, ?_, ?_⟩
  · rw [countP_snoc]
    exact posting.applied accepted (supported.ordered.next within)
  · rw [applyRows_snoc, ← same]
    rfl

/-! ## The ring during the run -/

/-- Copies that stay off the ring leave every slot as it was loaded. -/
theorem execSlots_ring {length : Nat} (aligned : base % 4 = 0) (space : base + 16 * length ≤ 2 ^ 32)
    (within : n ≤ length) (apart : ∀ j < n, Apart base length (slotDesc base j m)) :
    ∀ i, base / 4 ≤ i → i < base / 4 + 4 * length → (execSlots base n m).1[i]? = m.1[i]? := by
  induction n with
  | zero => exact fun _ _ _ => rfl
  | succ n ih =>
    intro i low high
    have before := ih (by omega) fun j less => apart j (by omega)
    have same : slotDesc base n (execSlots base n m) = slotDesc base n m := by
      refine descAt_congr fun k first last => before k ?_ ?_ <;>
      · rw [slotAddr, descriptorSizeBytes] at first last
        omega
    rw [execSlots_succ, execSlot, same, getElem?_moved (apart n (by omega)) _ ⟨low, high⟩]
    exact before i low high

@[simp] theorem length_execSlots (base n : Nat) (m : List Nat × List Nat) :
    (execSlots base n m).1.length = m.1.length ∧ (execSlots base n m).2.length = m.2.length := by
  induction n with
  | zero => exact ⟨rfl, rfl⟩
  | succ n ih =>
    rw [execSlots_succ, execSlot]
    have lengths := length_moved (slotDesc base n (execSlots base n m)) (execSlots base n m)
    exact ⟨lengths.1.trans ih.1, lengths.2.trans ih.2⟩

/-! ## The event loop -/

/-- In a supported scenario only MID can turn an iteration down. -/
theorem Supported.runs_iff {j : Nat} (supported : Supported rows smemWords sramWords addr rlen)
    (within : j < rows.countP Row.isDesc)
    (pending : Pending (maskInt addr) 0 (rows.countP Row.isDesc)
      (applyRows rows (World.fresh smemWords sramWords)))
    (built : Built smemWords sramWords (applyRows rows (World.fresh smemWords sramWords))) :
    let here := World.next^[j] (applyRows rows (World.fresh smemWords sramWords))
    headDesc here = loadedDesc rows smemWords sramWords addr j ∧
      (Runs here ↔ (loadedDesc rows smemWords sramWords addr j).beats ≤ midDepth) := by
  intro here
  have room := supported.room
  have fits := supported.ringFits
  have space := supported.ringAddressed
  have aligned := supported.aligned
  have memories : here.memories = execSlots (maskInt addr) j (loadedMemories rows smemWords sramWords) :=
    pending.memories (Nat.le_of_lt within)
  have ring := execSlots_ring aligned space (by omega) (n := j)
    fun i less => supported.apart i (by omega)
  have at_j := pending.iterate (Nat.le_of_lt within)
  obtain ⟨more, split⟩ := Nat.exists_eq_add_of_lt within
  rw [show rows.countP Row.isDesc - j = more + 1 by omega, Nat.zero_add] at at_j
  -- what is fetched is what was loaded
  have desc : headDesc here = loadedDesc rows smemWords sramWords addr j := by
    rw [at_j.headDesc_eq, memories]
    refine descAt_congr fun k first last => ring k ?_ ?_ <;>
    · rw [slotAddr, descriptorSizeBytes] at first last
      omega
  have lengths := length_execSlots (maskInt addr) j (loadedMemories rows smemWords sramWords)
  rw [← memories] at lengths
  have smem : here.sysmem.mem.length = smemWords := lengths.1.trans built.smem
  have sram : here.sram.mem.length = sramWords := lengths.2.trans built.sram
  have mid : here.mid.queueLength = midDepth := at_j.parked.midDepth_eq
  refine ⟨desc, fun runs => ?_, fun short => ⟨?_, ?_, ?_⟩⟩
  · have accepts := runs.accepts.mid
    rwa [desc, mid] at accepts
  · rw [at_j.headAddr_eq, slotAddr, descriptorSizeBytes]
    refine ⟨by omega, ?_⟩
    rw [smem]
    omega
  · rw [desc, smem, sram]
    exact supported.fits j within
  · rwa [desc, mid]

/-- A supported scenario returns, with every posted descriptor
    processed, exactly if no transfer is longer than MID. -/
theorem accepts_iff (supported : Supported rows smemWords sramWords addr rlen) :
    (∃ result, runScenario rows smemWords sramWords = .ok result ∧
      result.descsFetched = (List.range (rows.countP Row.isDesc)).map fun j =>
        (loadedDesc rows smemWords sramWords addr j).pack) ↔
      ∀ j < rows.countP Row.isDesc, (loadedDesc rows smemWords sramWords addr j).beats ≤ midDepth := by
  obtain ⟨setup, rest⟩ := supported.setup_returns
  have world : setup.world = applyRows rows (World.fresh smemWords sramWords) :=
    setup_world built_fresh rest
  have built := (setup_frame built_fresh rest).1
  have pending := setup_pending supported.ordered rest
  rw [world, base_of_once supported.baseaddr] at pending
  rw [world] at built
  have runs {j : Nat} (within : j < rows.countP Row.isDesc) := supported.runs_iff within pending built
  have few := supported.few
  constructor
  · rintro ⟨result, returns, -⟩ j within
    obtain ⟨setup', final, came⟩ := (runScenario_iff supported.enabled).mp returns
    have same := (Golden.setup_returns.mp came.setup_eq).2
    rw [rest, Except.ok.injEq] at same
    have loop := came.loop_eq
    rw [← same, world] at loop
    exact (runs within).2.mp (((eventLoop_eq_ok pending).mp loop).1.2 j within)
  · intro short
    have loop : eventLoop maxIters _ [] = .ok _ := (eventLoop_eq_ok pending).mpr
      ⟨⟨by rw [maxIters]; omega, fun j within => (runs within).2.mpr (short j within)⟩, rfl⟩
    rw [← world] at loop
    let final := World.next^[rows.countP Row.isDesc] setup.world
    refine ⟨{ stimLines := setup.stim
              initialSmem := setup.world.sysmem.mem
              finalSmem := final.sysmem.mem
              initialSram := setup.world.sram.mem
              finalSram := final.sram.mem
              descsFetched := _ }, (runScenario_iff supported.enabled).mpr ⟨setup, final,
      ⟨Golden.setup_returns.mpr ⟨supported.sizes, rest⟩, loop, rfl, rfl, rfl⟩⟩, ?_⟩
    rw [List.nil_append, world]
    exact List.map_congr_left fun j member => by rw [(runs (List.mem_range.mp member)).1]

def oneTransfer (len : Int) : List Row :=
  [.csrBaseaddr 576, .csrRinglen 2, .desc 0 0 len 1, .enable]

theorem oneTransfer_supported {len : Int} (short : len ∈ [128, 129]) :
    Supported (oneTransfer len) 160 160 576 2 := by
  have desc : loadedDesc (oneTransfer len) 160 160 576 0 = ⟨0, 0, len.toNat, 1⟩ := by
    revert len
    decide +kernel
  have beats : len.toNat ≤ 129 ∧ len.toNat % 256 ≤ 129 := by
    simp only [List.mem_cons, List.not_mem_nil, or_false] at short
    omega
  exact
    { sizes := by decide
      ordered := by simp [oneTransfer, RegistersFirst, Row.isDesc, Row.isRegister]
      baseaddr := rfl
      ringlen := rfl
      enabled := by simp [oneTransfer]
      known := by simp [oneTransfer]
      smemLoads := by simp [oneTransfer]
      sramLoads := by simp [oneTransfer]
      room := (by decide : 1 < maskInt 2)
      few := (by decide : 1 ≤ 256)
      aligned := by decide
      ringFits := by decide
      ringAddressed := by decide
      fits := fun j within _ => by
        obtain rfl : j = 0 := Nat.lt_one_iff.mp within
        rw [desc]
        have bound := beats.2
        exact ⟨rfl, (by simpa [Descriptor.toSram, Descriptor.beats] using bound.trans (by decide)),
          (by simpa [Descriptor.toSram, Descriptor.beats] using bound.trans (by decide))⟩
      apart := fun j within => by
        obtain rfl : j = 0 := Nat.lt_one_iff.mp within
        rw [desc]
        exact fun dir => absurd dir (by simp [Descriptor.toSram]) }

/-- 129 words are one more than MID holds. -/
theorem long_transfer_rejected :
    Supported (oneTransfer 129) 160 160 576 2 ∧
      ¬ ∃ result, runScenario (oneTransfer 129) 160 160 = .ok result := by
  refine ⟨oneTransfer_supported (by decide), ?_⟩
  rintro ⟨result, returns⟩
  have raises : (runScenario (oneTransfer 129) 160 160).toBool = false := by decide +kernel
  rw [returns] at raises
  exact Bool.noConfusion raises

theorem full_transfer_accepted :
    ∃ result, runScenario (oneTransfer 128) 160 160 = .ok result ∧
      result.descsFetched = (List.range 1).map fun j =>
        (loadedDesc (oneTransfer 128) 160 160 576 j).pack :=
  (accepts_iff (oneTransfer_supported (by decide))).mpr fun j within => by
    obtain rfl : j = 0 := Nat.lt_one_iff.mp within
    decide +kernel

end AxiDma.Golden
