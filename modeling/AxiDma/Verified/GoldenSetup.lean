import AxiDma.Verified.GoldenRing

/-! # The setup phase of a golden run

`setupRow_eq_ok` says when a row is accepted, and what it does to the world and to the
stimulus.  The rest follows from that: the rows leave the queues empty and the memories as long
as they were, and count the posted descriptors in TAIL.
-/

namespace AxiDma.Golden

open AxiDma.Lib

/-! ## One row -/

/-- Lengths of the memories. -/
structure Sized (smemWords sramWords : Nat) (w : World) : Prop where
  size : w.sysmem.size = smemWords
  smem : w.sysmem.mem.length = smemWords
  sram : w.sram.mem.length = sramWords

/-- The sizes the two objects were built with. -/
structure Built (smemWords sramWords : Nat) (w : World) : Prop extends Sized smemWords sramWords w where
  sramSize : w.sram.size = sramWords

variable {smemWords sramWords : Nat} {w w' : World} {s s' : Setup} {row : Row} {d : Descriptor}

theorem pyIndex_eq_some {length j : Nat} {i : Int} :
    pyIndex length i = some j ↔
      (0 ≤ i ∧ i < length ∧ j = i.toNat) ∨ (i < 0 ∧ -length ≤ i ∧ j = (i + length).toNat) := by
  unfold pyIndex
  split <;> split <;> simp <;> omega

theorem pyIndex_lt {length j : Nat} {i : Int} (index : pyIndex length i = some j) :
    j < length ∧ i < length := by
  rw [pyIndex_eq_some] at index
  omega

theorem store_int_eq_ok {mem mem' : List Nat} {i : Int} {v : Nat} :
    store mem i v = .ok mem' ↔ ∃ j, pyIndex mem.length i = some j ∧ mem' = mem.set j v := by
  unfold store
  cases pyIndex mem.length i with
  | none => simp
  | some j =>
    rw [pure_eq_ok]
    exact ⟨fun eq => ⟨j, rfl, eq.symm⟩, fun ⟨_, same, eq⟩ => Option.some.inj same ▸ eq.symm⟩

/-- The descriptor of a `desc` row. -/
def descOf (src dst len flags : Int) : Descriptor :=
  .init (maskInt src) (maskInt dst) (maskInt len) (maskInt flags)

/-- The row raises nothing. -/
def Row.Accepted (row : Row) (w : World) : Prop :=
  match row with
  | .smem wi _ => (pyIndex w.sysmem.mem.length wi).isSome = true
  | .sram wi _ => (pyIndex w.sram.mem.length wi).isSome = true
  | .desc .. =>
    w.csr.ringlen &&& mask32 ≠ 0 ∧ RingManager.isFull w = .ok false ∧
      tailWord w + 4 ≤ w.sysmem.mem.length
  | .other _ => False
  | .csrBaseaddr _ | .csrRinglen _ | .enable => True

/-- What an accepted row does to the world. -/
def Row.applied (row : Row) (w : World) : World :=
  match row with
  | .smem wi data =>
    { w with sysmem := { w.sysmem with
      mem := w.sysmem.mem.set ((pyIndex w.sysmem.mem.length wi).getD 0) (maskInt data) } }
  | .sram wi data =>
    { w with sram := { w.sram with
      mem := w.sram.mem.set ((pyIndex w.sram.mem.length wi).getD 0) (maskInt data) } }
  | .csrBaseaddr addr => { w with csr := w.csr.set CSR.regBaseaddr (maskInt addr) }
  | .csrRinglen rlen => { w with csr := w.csr.set CSR.regRinglen (maskInt rlen) }
  | .desc src dst len flags => w.posted (descOf src dst len flags)
  | .enable =>
    let ctrl := w.csr.read CSR.regCtrl ||| 1 <<< CSR.enableBit ||| 1 <<< CSR.irqEnBit
    { w with csr := w.csr.write CSR.regCtrl ctrl }
  | .other _ => w

/-- Byte address of the slot under TAIL, as the driver computes it. -/
def slotOf (w : World) : Nat :=
  (w.csr.baseaddr &&& mask32) + w.csr.read CSR.regTail % (w.csr.ringlen &&& mask32) * 16

/-- The stimulus lines of an accepted row. -/
def Row.lines (row : Row) (w : World) : List Stim :=
  match row with
  | .smem wi data => [.sysmemWrite (wi * 4) (maskInt data)]
  | .sram wi data => [.sramWrite (wi * 4) (maskInt data)]
  | .csrBaseaddr addr => [.csrWrite CSR.regBaseaddr ↑(maskInt addr)]
  | .csrRinglen rlen => [.csrWrite CSR.regRinglen rlen]
  | .desc src dst len flags =>
    [.sysmemWrite ↑(slotOf w + 0) (maskInt src), .sysmemWrite ↑(slotOf w + 4) (maskInt dst),
      .sysmemWrite ↑(slotOf w + 8) (maskInt len), .sysmemWrite ↑(slotOf w + 12) (maskInt flags),
      .csrWrite CSR.regTail ↑((w.posted (descOf src dst len flags)).csr.read CSR.regTail)]
  | .enable | .other _ => []

theorem CSR.write_plain {offset : Nat} (c : CSR)
    (plain : offset = regBaseaddr ∨ offset = regRinglen) (data : Int) :
    c.write offset data = c.set offset (maskInt data) := by
  rcases plain with rfl | rfl <;>
    rw [write, if_neg (by decide), if_neg (by decide), if_neg (by decide)]

/-- One row of the setup. -/
theorem setupRow_eq_ok (built : Built smemWords sramWords s.world) :
    setupRow s row = .ok s' ↔
      row.Accepted s.world ∧ s' = s.emit (row.applied s.world) (row.lines s.world) := by
  cases row with
  | smem wi data =>
    -- only a too large index is tested; a negative one counts from the end
    have below {j : Nat} (found : pyIndex s.world.sysmem.mem.length wi = some j) :
        ¬ ↑s.world.sysmem.size ≤ wi := by
      rw [built.size, ← built.smem]
      exact Int.not_le.mpr (pyIndex_lt found).2
    simp only [setupRow, bind_eq_ok, raiseIf_eq_ok, exists_const, store_int_eq_ok, pure_eq_ok]
    constructor
    · rintro ⟨-, _, ⟨j, found, rfl⟩, rfl⟩
      exact ⟨by simp [Row.Accepted, found], by simp [Row.applied, Row.lines, found]⟩
    · rintro ⟨accepted, rfl⟩
      obtain ⟨j, found⟩ := Option.isSome_iff_exists.mp accepted
      exact ⟨below found, _, ⟨j, found, rfl⟩, by simp [Row.applied, Row.lines, found]⟩
  | sram wi data =>
    have below {j : Nat} (found : pyIndex s.world.sram.mem.length wi = some j) :
        ¬ ↑s.world.sram.size ≤ wi := by
      rw [built.sramSize, ← built.sram]
      exact Int.not_le.mpr (pyIndex_lt found).2
    simp only [setupRow, bind_eq_ok, raiseIf_eq_ok, exists_const, store_int_eq_ok, pure_eq_ok]
    constructor
    · rintro ⟨-, _, ⟨j, found, rfl⟩, rfl⟩
      exact ⟨by simp [Row.Accepted, found], by simp [Row.applied, Row.lines, found]⟩
    · rintro ⟨accepted, rfl⟩
      obtain ⟨j, found⟩ := Option.isSome_iff_exists.mp accepted
      exact ⟨below found, _, ⟨j, found, rfl⟩, by simp [Row.applied, Row.lines, found]⟩
  | csrBaseaddr addr =>
    rw [setupRow, pure_eq_ok, CSR.write_plain _ (.inl rfl), maskInt_natCast (maskInt_lt addr)]
    exact ⟨fun eq => ⟨trivial, eq.symm⟩, fun applied => applied.2.symm⟩
  | csrRinglen rlen =>
    rw [setupRow, pure_eq_ok, CSR.write_plain _ (.inr rfl)]
    exact ⟨fun eq => ⟨trivial, eq.symm⟩, fun applied => applied.2.symm⟩
  | desc src dst len flags =>
    simp only [setupRow, pyMod, bind_eq_ok, raiseIf_eq_ok, exists_const, pure_eq_ok,
      RingManager.enqueue_eq_ok]
    constructor
    · rintro ⟨_, ⟨set, rfl⟩, _, ⟨⟨-, notFull, fits, -⟩, rfl⟩, rfl⟩
      rw [built.size, ← built.smem] at fits
      exact ⟨⟨set, notFull, fits⟩, rfl⟩
    · rintro ⟨⟨set, notFull, fits⟩, rfl⟩
      refine ⟨_, ⟨set, rfl⟩, _, ⟨⟨set, notFull, ?_, by omega⟩, rfl⟩, rfl⟩
      rwa [built.size, ← built.smem]
  | enable =>
    rw [setupRow, pure_eq_ok]
    exact ⟨fun eq => ⟨trivial, by rw [← eq, Setup.emit, Row.lines, List.append_nil]; rfl⟩,
      fun applied => by rw [applied.2, Setup.emit, Row.lines, List.append_nil]; rfl⟩
  | other op => simp [setupRow, Row.Accepted]

/-! ## What every row leaves alone -/

def World.queues (w : World) : List FIFOQueue := [w.dfIn, w.dfOut, w.dmAxi, w.dmSram, w.mid]

/-- Every queue is empty, and has the depth the driver gives it. -/
structure Parked (w : World) : Prop where
  quiet : Quiet w
  queues : Queues w
  midDepth_eq : w.mid.queueLength = midDepth

theorem Parked.of_queues (parked : Parked w) (same : w'.queues = w.queues) : Parked w' := by
  simp only [World.queues, List.cons.injEq, and_true] at same
  obtain ⟨dfIn, dfOut, dmAxi, dmSram, mid⟩ := same
  obtain ⟨quiet, queues, depth⟩ := parked
  exact
    { quiet := ⟨dfIn ▸ quiet.dfIn, dfOut ▸ quiet.dfOut, dmAxi ▸ quiet.dmAxi, dmSram ▸ quiet.dmSram,
        mid ▸ quiet.mid⟩
      queues := ⟨dfIn ▸ queues.dfIn, dfOut ▸ queues.dfOut, dmAxi ▸ queues.dmAxi, dmSram ▸ queues.dmSram⟩
      midDepth_eq := mid ▸ depth }

@[simp] theorem queues_applied (row : Row) (w : World) : (row.applied w).queues = w.queues := by
  cases row <;> rfl

theorem Built.applied (built : Built smemWords sramWords w) (row : Row) :
    Built smemWords sramWords (row.applied w) := by
  obtain ⟨⟨size, smem, sram⟩, sramSize⟩ := built
  cases row with
  | smem => exact ⟨⟨size, List.length_set.trans smem, sram⟩, sramSize⟩
  | sram => exact ⟨⟨size, smem, List.length_set.trans sram⟩, sramSize⟩
  | desc => exact ⟨⟨size, (length_writeSlot ..).trans smem, sram⟩, sramSize⟩
  | csrBaseaddr | csrRinglen | enable | other => exact ⟨⟨size, smem, sram⟩, sramSize⟩

/-- The objects as `run_scenario` builds them. -/
def World.fresh (smemWords sramWords : Nat) : World where
  sysmem := { size := smemWords, mem := List.replicate smemWords 0 }
  sram := { size := sramWords, mem := List.replicate sramWords 0 }
  csr := CSR.init
  dfIn := { id := "df_in", queueLength := fifoDepth, buffer := [] }
  dfOut := { id := "df_out", queueLength := fifoDepth, buffer := [] }
  dmAxi := { id := "dm_axi", queueLength := dmDepth, buffer := [] }
  dmSram := { id := "dm_sram", queueLength := dmDepth, buffer := [] }
  mid := { id := "mid", queueLength := midDepth, buffer := [] }

theorem FIFOQueue.init_eq_ok {id : String} {depth : Nat} {q : FIFOQueue} :
    FIFOQueue.init id depth = .ok q ↔
      depth ≠ 0 ∧ q = { id := id, queueLength := depth, buffer := [] } := by
  simp only [FIFOQueue.init, bind_eq_ok, raiseIf_eq_ok, exists_const, pure_eq_ok]
  exact and_congr_right fun _ => eq_comm

theorem buildWorld_eq_ok :
    buildWorld smemWords sramWords = .ok w ↔
      (smemWords ≠ 0 ∧ sramWords ≠ 0) ∧ w = World.fresh smemWords sramWords := by
  simp only [buildWorld, SystemMemory.init, SRAM.init, bind_eq_ok, raiseIf_eq_ok, exists_const,
    pure_eq_ok, FIFOQueue.init_eq_ok]
  constructor
  · rintro ⟨_, ⟨smem, rfl⟩, _, ⟨sram, rfl⟩, _, ⟨-, rfl⟩, _, ⟨-, rfl⟩, _, ⟨-, rfl⟩, _, ⟨-, rfl⟩, _,
      ⟨-, rfl⟩, rfl⟩
    exact ⟨⟨smem, sram⟩, rfl⟩
  · rintro ⟨⟨smem, sram⟩, rfl⟩
    exact ⟨_, ⟨smem, rfl⟩, _, ⟨sram, rfl⟩, _, ⟨by decide, rfl⟩, _, ⟨by decide, rfl⟩, _,
      ⟨by decide, rfl⟩, _, ⟨by decide, rfl⟩, _, ⟨by decide, rfl⟩, rfl⟩

theorem built_fresh : Built smemWords sramWords (World.fresh smemWords sramWords) :=
  ⟨⟨rfl, List.length_replicate, List.length_replicate⟩, rfl⟩

theorem parked_fresh : Parked (World.fresh smemWords sramWords) where
  quiet := ⟨rfl, rfl, rfl, rfl, rfl⟩
  queues := ⟨Nat.succ_ne_zero 63, Nat.succ_ne_zero 63, Nat.succ_ne_zero 15, Nat.succ_ne_zero 15⟩
  midDepth_eq := rfl

/-- The world after accepted rows. -/
def applyRows (rows : List Row) (w : World) : World := rows.foldl (fun w row => row.applied w) w

@[simp] theorem applyRows_snoc (rows : List Row) (row : Row) (w : World) :
    applyRows (rows ++ [row]) w = row.applied (applyRows rows w) := by
  rw [applyRows, List.foldl_append]
  rfl

theorem built_applyRows (rows : List Row) :
    Built smemWords sramWords (applyRows rows (World.fresh smemWords sramWords)) := by
  induction rows using List.reverseRecOn with
  | nil => exact built_fresh
  | append_singleton rows row ih =>
    rw [applyRows_snoc]
    exact ih.applied row

/-- The setup phase leaves the queues empty and the sizes as they were. -/
theorem setup_frame {rows : List Row} (built : Built smemWords sramWords s.world)
    (returns : rows.foldlM setupRow s = .ok s') :
    Built smemWords sramWords s'.world ∧ s'.world.queues = s.world.queues := by
  refine foldlM_invariant
    (P := fun _ t => Built smemWords sramWords t.world ∧ t.world.queues = s.world.queues)
    (fun seen row t t' _ held step => ?_) ⟨built, rfl⟩ returns
  obtain ⟨-, rfl⟩ := (setupRow_eq_ok held.1).mp step
  exact ⟨held.1.applied row, (queues_applied row t.world).trans held.2⟩

/-! ## The ring during the setup -/

def Row.isDesc : Row → Bool
  | .desc .. => true
  | _ => false

def Row.desc? : Row → Option Descriptor
  | .desc src dst len flags => some (descOf src dst len flags)
  | _ => none

def Row.isRegister : Row → Bool
  | .csrBaseaddr _ | .csrRinglen _ => true
  | _ => false

def Row.baseaddr? : Row → Option Int
  | .csrBaseaddr addr => some addr
  | _ => none

def Row.ringlen? : Row → Option Int
  | .csrRinglen rlen => some rlen
  | _ => none

/-- No register row stands behind a `desc` row. -/
def RegistersFirst (rows : List Row) : Prop :=
  rows.Pairwise fun a b => a.isDesc = true → b.isRegister = false

instance (rows : List Row) : Decidable (RegistersFirst rows) :=
  inferInstanceAs (Decidable (rows.Pairwise _))

/-- `n` descriptors were posted since the reset. -/
structure Posting (n : Nat) (w : World) : Prop where
  head_eq : RingManager.head w = 0
  tail_eq : w.csr.read CSR.regTail = n
  room : n ≠ 0 → n < w.csr.ringlen &&& mask32

theorem CSR.write_ctrl (c : CSR) (data : Int) :
    c.write regCtrl data = c.set regCtrl (data % 8).toNat := by
  rw [write, if_neg (by decide), if_neg (by decide), if_pos rfl]

theorem Posting.tail {n : Nat} (posting : Posting n w) : RingManager.tail w = n := by
  have wide : w.csr.ringlen &&& mask32 < 2 ^ 32 := by
    rw [and_mask32]
    omega
  have room := posting.room
  rw [RingManager.tail, posting.tail_eq, and_mask32]
  omega

/-- An accepted post leaves the last slot free. -/
theorem Posting.below {n : Nat} (posting : Posting n w) {src dst len flags : Int}
    (accepted : (Row.desc src dst len flags).Accepted w) : n + 1 < w.csr.ringlen &&& mask32 := by
  -- TAIL never reaches the slot below HEAD, and HEAD is 0 during the setup
  obtain ⟨set, notFull, -⟩ := accepted
  obtain ⟨-, room⟩ := RingManager.isFull_eq_ok.mp notFull
  have inRing : n < w.csr.ringlen &&& mask32 := by
    by_cases first : n = 0
    · rw [first]
      exact Nat.pos_of_ne_zero set
    · exact posting.room first
  rw [posting.tail, posting.head_eq, Nat.zero_mod, Nat.mod_eq_of_lt inRing, beq_eq_false_iff_ne] at room
  refine Nat.lt_of_le_of_ne inRing fun full => ?_
  rw [full, Nat.mod_self] at room
  exact room rfl

theorem Posting.applied {n : Nat} (posting : Posting n w) (accepted : row.Accepted w)
    (order : n ≠ 0 → row.isRegister = false) :
    Posting (n + row.isDesc.toNat) (row.applied w) := by
  cases row with
  | smem | sram | other => exact { posting with }
  | csrBaseaddr addr =>
    have other {offset : Nat} (distinct : offset ≠ CSR.regBaseaddr) :
        (w.csr.set CSR.regBaseaddr (maskInt addr)).read offset = w.csr.read offset :=
      CSR.read_set_of_ne distinct
    constructor
    · exact (congrArg (· &&& mask32) (other (by decide))).trans posting.head_eq
    · exact (other (by decide)).trans posting.tail_eq
    · intro posted
      exact absurd (order posted) (by simp [Row.isRegister])
  | csrRinglen rlen =>
    have other {offset : Nat} (distinct : offset ≠ CSR.regRinglen) :
        (w.csr.set CSR.regRinglen (maskInt rlen)).read offset = w.csr.read offset :=
      CSR.read_set_of_ne distinct
    constructor
    · exact (congrArg (· &&& mask32) (other (by decide))).trans posting.head_eq
    · exact (other (by decide)).trans posting.tail_eq
    · intro posted
      exact absurd (order posted) (by simp [Row.isRegister])
  | enable =>
    have other {offset : Nat} (distinct : offset ≠ CSR.regCtrl) :
        (Row.enable.applied w).csr.read offset = w.csr.read offset := by
      rw [Row.applied, CSR.write_ctrl]
      exact CSR.read_set_of_ne distinct
    constructor
    · exact (congrArg (· &&& mask32) (other (by decide))).trans posting.head_eq
    · exact (other (by decide)).trans posting.tail_eq
    · intro posted
      rw [CSR.ringlen, other (by decide)]
      exact posting.room posted
  | desc src dst len flags =>
    -- the ring does not wrap before the run starts
    have room := posting.below accepted
    have other {offset value : Nat} (distinct : offset ≠ CSR.regTail) :
        (w.csr.set CSR.regTail value).read offset = w.csr.read offset := CSR.read_set_of_ne distinct
    constructor
    · exact (congrArg (· &&& mask32) (other (by decide))).trans posting.head_eq
    · rw [Row.applied, World.posted, CSR.read_set_self, posting.tail, Nat.mod_eq_of_lt room]
      rfl
    · intro
      have ringlen : ((Row.desc src dst len flags).applied w).csr.ringlen = w.csr.ringlen :=
        other (by decide)
      rw [ringlen]
      exact room

theorem RegistersFirst.next {seen rows : List Row} (ordered : RegistersFirst rows)
    (within : seen ++ [row] <+: rows) (posted : seen.countP Row.isDesc ≠ 0) :
    row.isRegister = false := by
  have pairs := List.Pairwise.sublist within.sublist ordered
  obtain ⟨desc, member, isDesc⟩ := List.countP_pos_iff.mp (Nat.pos_of_ne_zero posted)
  exact (List.pairwise_append.mp pairs).2.2 desc member row (List.mem_singleton_self row) isDesc

/-- The `n`-th descriptor posted is the `n`-th of the rows. -/
theorem length_descs (rows : List Row) :
    (rows.filterMap Row.desc?).length = rows.countP Row.isDesc := by
  rw [List.length_filterMap_eq_countP]
  refine List.countP_congr fun row _ => ?_
  cases row <;> simp [Row.desc?, Row.isDesc]

theorem countP_snoc (seen : List Row) (row : Row) :
    (seen ++ [row]).countP Row.isDesc = seen.countP Row.isDesc + row.isDesc.toNat := by
  rw [List.countP_append, List.countP_singleton]
  cases row.isDesc <;> rfl

/-- The setup phase posts every `desc` row. -/
theorem setup_posting {rows : List Row} (built : Built smemWords sramWords s.world)
    (start : Posting 0 s.world) (ordered : RegistersFirst rows)
    (returns : rows.foldlM setupRow s = .ok s') :
    Posting (rows.countP Row.isDesc) s'.world := by
  have both := foldlM_invariant
    (P := fun seen t => Built smemWords sramWords t.world ∧ Posting (seen.countP Row.isDesc) t.world)
    (fun seen row t t' within held step => ?_) ⟨built, by exact start⟩ returns
  · exact both.2
  · obtain ⟨accepted, rfl⟩ := (setupRow_eq_ok held.1).mp step
    rw [countP_snoc]
    exact ⟨held.1.applied row, held.2.applied accepted (ordered.next within)⟩

/-- A memory that word indices reach holds every posted slot where its address says. -/
theorem setup_inside {rows : List Row} (built : Built smemWords sramWords s.world)
    (start : Posting 0 s.world) (ordered : RegistersFirst rows) (small : smemWords < 2 ^ 32)
    (returns : rows.foldlM setupRow s = .ok s') (some : rows.countP Row.isDesc ≠ 0) :
    RingManager.base s'.world / 4 + 4 * rows.countP Row.isDesc ≤ smemWords := by
  have all := foldlM_invariant
    (P := fun seen t => Built smemWords sramWords t.world ∧ Posting (seen.countP Row.isDesc) t.world ∧
      (seen.countP Row.isDesc ≠ 0 →
        RingManager.base t.world / 4 + 4 * seen.countP Row.isDesc ≤ smemWords))
    (fun seen row t t' within held step => ?_) ⟨built, by exact start, fun some => absurd rfl some⟩ returns
  · exact all.2.2 some
  · obtain ⟨builtHere, posting, inside⟩ := held
    obtain ⟨accepted, rfl⟩ := (setupRow_eq_ok builtHere).mp step
    have next := posting.applied accepted (ordered.next within)
    rw [countP_snoc]
    refine ⟨builtHere.applied row, next, fun posted => ?_⟩
    cases row with
    | desc src dst len flags =>
      have room := posting.below accepted
      obtain ⟨-, -, fits⟩ := accepted
      have base : RingManager.base ((Row.desc src dst len flags).applied t.world) =
          RingManager.base t.world :=
        congrArg (· &&& mask32) (CSR.read_set_of_ne (by decide))
      have low : RingManager.base t.world < 2 ^ 32 := by
        rw [RingManager.base, and_mask32]
        omega
      rw [tailWord, posting.tail, Nat.mod_eq_of_lt (by omega : _ < t.world.csr.ringlen &&& mask32),
        descriptorSizeBytes, builtHere.smem] at fits
      rw [Setup.emit, base, Row.isDesc, Bool.toNat_true]
      omega
    | smem | sram | other => exact inside posted
    -- behind a descriptor no register row is left
    | csrBaseaddr | csrRinglen =>
      exact absurd (ordered.next within posted) (by simp [Row.isRegister])
    | enable =>
      have base : RingManager.base (Row.enable.applied t.world) = RingManager.base t.world := by
        refine congrArg (· &&& mask32) ?_
        rw [CSR.baseaddr, Row.applied, CSR.write_ctrl]
        exact CSR.read_set_of_ne (by decide)
      rw [Setup.emit, base]
      exact inside posted

theorem setup_world {rows : List Row} (built : Built smemWords sramWords s.world)
    (returns : rows.foldlM setupRow s = .ok s') : s'.world = applyRows rows s.world := by
  have all := foldlM_invariant
    (P := fun seen t => Built smemWords sramWords t.world ∧ t.world = applyRows seen s.world)
    (fun seen row t t' _ held step => ?_) ⟨built, rfl⟩ returns
  · exact all.2
  · obtain ⟨builtHere, same⟩ := held
    obtain ⟨-, rfl⟩ := (setupRow_eq_ok builtHere).mp step
    exact ⟨builtHere.applied row, by rw [applyRows_snoc, ← same]; rfl⟩

/-! ## Registers the rows set -/

/-- The rows that `select` picks out are those that write the register. -/
structure Selects (select : Row → Option Int) (offset : Nat) : Prop where
  sets : ∀ row v w, select row = some v → (row.applied w).csr.read offset = maskInt v
  keeps : ∀ row w, select row = none → (row.applied w).csr.read offset = w.csr.read offset

theorem selects_baseaddr : Selects Row.baseaddr? CSR.regBaseaddr where
  sets row v w chosen := by
    cases row with
    | csrBaseaddr addr =>
      obtain rfl := Option.some.inj chosen
      exact CSR.read_set_self ..
    | _ => simp [Row.baseaddr?] at chosen
  keeps row w other := by
    cases row with
    | csrBaseaddr => simp [Row.baseaddr?] at other
    | smem | sram | other => rfl
    | csrRinglen | desc => exact CSR.read_set_of_ne (by decide)
    | enable =>
      rw [Row.applied, CSR.write_ctrl]
      exact CSR.read_set_of_ne (by decide)

theorem selects_ringlen : Selects Row.ringlen? CSR.regRinglen where
  sets row v w chosen := by
    cases row with
    | csrRinglen rlen =>
      obtain rfl := Option.some.inj chosen
      exact CSR.read_set_self ..
    | _ => simp [Row.ringlen?] at chosen
  keeps row w other := by
    cases row with
    | csrRinglen => simp [Row.ringlen?] at other
    | smem | sram | other => rfl
    | csrBaseaddr | desc => exact CSR.read_set_of_ne (by decide)
    | enable =>
      rw [Row.applied, CSR.write_ctrl]
      exact CSR.read_set_of_ne (by decide)

/-- The register holds what the last of its rows wrote. -/
theorem Selects.read_applyRows {select : Row → Option Int} {offset : Nat}
    (selects : Selects select offset) (rows : List Row) (w : World) :
    (applyRows rows w).csr.read offset =
      ((rows.filterMap select).getLast?.map maskInt).getD (w.csr.read offset) := by
  induction rows using List.reverseRecOn with
  | nil => rfl
  | append_singleton seen row ih =>
    rw [applyRows_snoc, List.filterMap_append]
    cases chosen : select row with
    | none =>
      rw [selects.keeps row _ chosen, ih]
      simp [chosen]
    | some v =>
      rw [selects.sets row v _ chosen]
      simp [chosen]

theorem Selects.read_lt {select : Row → Option Int} {offset : Nat} (selects : Selects select offset)
    (start : w.csr.read offset < 2 ^ 32) (rows : List Row) :
    (applyRows rows w).csr.read offset < 2 ^ 32 := by
  rw [selects.read_applyRows]
  cases (rows.filterMap select).getLast? with
  | none => exact start
  | some v => exact maskInt_lt v

theorem base_of_once {rows : List Row} {addr : Int} (once : rows.filterMap Row.baseaddr? = [addr]) :
    RingManager.base (applyRows rows w) = maskInt addr := by
  rw [RingManager.base, CSR.baseaddr, selects_baseaddr.read_applyRows, once, and_mask32]
  exact Nat.mod_eq_of_lt (maskInt_lt addr)

theorem ringlen_of_once {rows : List Row} {rlen : Int} (once : rows.filterMap Row.ringlen? = [rlen]) :
    (applyRows rows w).csr.ringlen &&& mask32 = maskInt rlen := by
  rw [CSR.ringlen, selects_ringlen.read_applyRows, once, and_mask32]
  exact Nat.mod_eq_of_lt (maskInt_lt rlen)

theorem isEnabled_enable (c : CSR) (ctrl : Nat) :
    (c.write CSR.regCtrl ↑(ctrl ||| 1 <<< CSR.enableBit ||| 1 <<< CSR.irqEnBit)).isEnabled = true := by
  have odd : (ctrl ||| 1 <<< CSR.enableBit ||| 1 <<< CSR.irqEnBit) % 2 = 1 :=
    Nat.or_mod_two_eq_one.mpr (.inl (Nat.or_mod_two_eq_one.mpr (.inr rfl)))
  have bit (n : Nat) : n &&& 1 <<< CSR.enableBit = n % 2 := and_0x1 n
  rw [CSR.isEnabled, CSR.write_ctrl, CSR.read_set_self, bit]
  have set : ((↑(ctrl ||| 1 <<< CSR.enableBit ||| 1 <<< CSR.irqEnBit) : Int) % 8).toNat % 2 = 1 := by
    omega
  rw [set]
  rfl

/-- Only `enable` rows write the control register. -/
theorem setup_enabled {rows : List Row} (built : Built smemWords sramWords s.world)
    (member : .enable ∈ rows) (returns : rows.foldlM setupRow s = .ok s') :
    s'.world.csr.isEnabled = true := by
  have all := foldlM_invariant
    (P := fun seen t => Built smemWords sramWords t.world ∧
      (.enable ∈ seen → t.world.csr.isEnabled = true))
    (fun seen row t t' _ held step => ?_) ⟨built, fun none => by simp at none⟩ returns
  · exact all.2 member
  · obtain ⟨builtHere, before⟩ := held
    obtain ⟨-, rfl⟩ := (setupRow_eq_ok builtHere).mp step
    refine ⟨builtHere.applied row, fun inSeen => ?_⟩
    have keeps (other : Row.enable ≠ row) (same : (row.applied t.world).csr.read CSR.regCtrl =
        t.world.csr.read CSR.regCtrl) : (row.applied t.world).csr.isEnabled = true := by
      rw [CSR.isEnabled, same]
      refine before ?_
      rcases List.mem_append.mp inSeen with early | now
      · exact early
      · exact absurd (List.mem_singleton.mp now) other
    cases row with
    | enable => exact isEnabled_enable t.world.csr _
    | smem | sram | other => exact keeps (by simp) rfl
    | csrBaseaddr | csrRinglen | desc => exact keeps (by simp) (CSR.read_set_of_ne (by decide))

end AxiDma.Golden
