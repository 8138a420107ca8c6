import AxiDma.Verified.GoldenSetup

/-! # The event loop as a sequence of copies

`World.next` is one iteration: the descriptor under HEAD is read from the memory as it is then,
and copied.  `eventLoop_eq_ok` says when the loop returns, and that it has then run the
pending iterations; over the slots of the ring that is the sequential meaning of a scenario.
-/

namespace AxiDma.Golden

open AxiDma.Lib

variable {base k n left smemWords sramWords : Nat} {w w' : World} {rows : List Row}

/-! ## One iteration -/

/-- The descriptor under HEAD. -/
def headDesc (w : World) : Descriptor := descAt w.sysmem.mem (headAddr w / 4)

def World.next (w : World) : World := w.after (headDesc w)

/-- The iteration raises nothing. -/
structure Runs (w : World) : Prop where
  slot : BurstFits w.sysmem.mem (headAddr w) 4
  accepts : Accepts w (headDesc w)

/-- `n` descriptors are pending, from slot `k` on. -/
structure Pending (base k n : Nat) (w : World) : Prop where
  parked : Parked w
  base_eq : RingManager.base w = base
  head_eq : RingManager.head w = k
  tail_eq : RingManager.tail w = k + n
  room : n ≠ 0 → k + n < w.csr.ringlen &&& mask32

theorem Pending.isEmpty_iff (pending : Pending base k n w) :
    RingManager.isEmpty w = true ↔ n = 0 := by
  rw [RingManager.isEmpty, pending.head_eq, pending.tail_eq, beq_iff_eq]
  omega

theorem Pending.more (pending : Pending base k (n + 1) w) :
    RingManager.isEmpty w = false ∧ w.csr.ringlen &&& mask32 ≠ 0 := by
  have room := pending.room (Nat.succ_ne_zero n)
  refine ⟨?_, by omega⟩
  rw [← Bool.not_eq_true, pending.isEmpty_iff]
  exact Nat.succ_ne_zero n

theorem Pending.next (pending : Pending base k (n + 1) w) : Pending base (k + 1) n w.next := by
  have room := pending.room (Nat.succ_ne_zero n)
  have wide : w.csr.ringlen &&& mask32 < 2 ^ 32 := by
    rw [and_mask32]
    omega
  -- the posted slots end before RINGLEN, so HEAD does not wrap
  have advance : RingManager.head w.next = k + 1 := by
    rw [RingManager.head, World.next, World.after, advanced, CSR.hwSetHead, CSR.read_set_self,
      pending.head_eq, Nat.mod_eq_of_lt (by omega : k < w.csr.ringlen &&& mask32),
      Nat.mod_eq_of_lt (by omega : k + 1 < w.csr.ringlen &&& mask32), and_mask32, and_mask32,
      Nat.mod_mod, Nat.mod_eq_of_lt (by omega)]
  exact
    { parked := pending.parked.of_queues rfl
      base_eq := pending.base_eq
      head_eq := advance
      tail_eq := by
        have tail : RingManager.tail w.next = k + (n + 1) := pending.tail_eq
        omega
      room := fun _ => by
        change k + 1 + n < w.csr.ringlen &&& mask32
        omega }

theorem Pending.iterate {j : Nat} (pending : Pending base k n w) (within : j ≤ n) :
    Pending base (k + j) (n - j) (World.next^[j] w) := by
  induction j with
  | zero => exact pending
  | succ j ih =>
    have here := ih (by omega)
    rw [show n - j = n - (j + 1) + 1 by omega] at here
    rw [Function.iterate_succ_apply']
    exact here.next

/-- The event loop returns exactly if it has an iteration left at the end and none of the
    pending ones raises. -/
theorem eventLoop_eq_ok {fetched : List Nat} {out : World × List Nat}
    (pending : Pending base k n w) :
    eventLoop left w fetched = .ok out ↔
      (n < left ∧ ∀ j < n, Runs (World.next^[j] w)) ∧
        out = (World.next^[n] w,
          fetched ++ (List.range n).map fun j => (headDesc (World.next^[j] w)).pack) := by
  induction n generalizing k left w fetched with
  | zero =>
    have empty := pending.isEmpty_iff.mpr rfl
    cases left with
    | zero => simp [eventLoop]
    | succ left =>
      rw [eventLoop, if_pos empty, pure_eq_ok]
      simp [eq_comm]
  | succ n ih =>
    obtain ⟨more, set⟩ := pending.more
    obtain ⟨quiet, queues, -⟩ := pending.parked
    cases left with
    | zero => simp [eventLoop]
    | succ left =>
      have fetches (o : Option Descriptor × World) :
          RingManager.fetchNextDescriptor w = .ok o ↔ _ :=
        RingManager.fetchNextDescriptor_eq_ok (quiet.fetchReady queues) more
      have moves (next : World) : moveDescriptor w (headDesc w) = .ok next ↔ _ :=
        moveDescriptor_eq_ok quiet (masked_descAt w.sysmem.mem (headAddr w / 4)) queues
      rw [eventLoop, if_neg (by simp [more]), bind_eq_ok, List.range_succ_eq_map, List.map_cons,
        List.map_map]
      constructor
      · rintro ⟨o, fetch, rest⟩
        obtain ⟨⟨-, slot⟩, rfl⟩ := (fetches o).mp fetch
        obtain ⟨next, move, rest⟩ := bind_eq_ok.mp rest
        obtain ⟨⟨accepts, -⟩, rfl⟩ := (moves next).mp move
        obtain ⟨⟨budget, later⟩, rfl⟩ := (ih pending.next).mp rest
        refine ⟨⟨by omega, fun j within => ?_⟩, ?_⟩
        · cases j with
          | zero => exact ⟨slot, accepts⟩
          | succ j => exact later j (by omega)
        · rw [List.append_assoc]
          rfl
      · rintro ⟨⟨budget, all⟩, rfl⟩
        have first : Runs w := all 0 (by omega)
        refine ⟨_, (fetches _).mpr ⟨⟨set, first.slot⟩, rfl⟩, bind_eq_ok.mpr ⟨_,
          (moves _).mpr ⟨⟨first.accepts, more, set⟩, rfl⟩, (ih pending.next).mpr ⟨⟨by omega,
            fun j within => all (j + 1) (by omega)⟩, ?_⟩⟩⟩
        rw [List.append_assoc]
        rfl

/-! ## The slots in order -/

/-- Byte address of slot `j`, as a handle holds it. -/
def slotAddr (base j : Nat) : Nat := (base + descriptorSizeBytes * j) % 2 ^ 32

def World.memories (w : World) : List Nat × List Nat := (w.sysmem.mem, w.sram.mem)

/-- The descriptor that slot `j` holds in the system memory. -/
def slotDesc (base j : Nat) (m : List Nat × List Nat) : Descriptor := descAt m.1 (slotAddr base j / 4)

/-- Executes the descriptor in slot `j`. -/
def execSlot (base : Nat) (m : List Nat × List Nat) (j : Nat) : List Nat × List Nat :=
  moved (slotDesc base j m) m

/-- The memories after the first `n` slots. -/
def execSlots (base n : Nat) (m : List Nat × List Nat) : List Nat × List Nat :=
  (List.range n).foldl (execSlot base) m

theorem execSlots_succ (base n : Nat) (m : List Nat × List Nat) :
    execSlots base (n + 1) m = execSlot base (execSlots base n m) n := by
  rw [execSlots, List.range_succ, List.foldl_append]
  rfl

theorem Pending.headAddr_eq (pending : Pending base k (n + 1) w) : headAddr w = slotAddr base k := by
  have room := pending.room (Nat.succ_ne_zero n)
  rw [headAddr, pending.base_eq, pending.head_eq, slotAddr, Nat.mul_comm descriptorSizeBytes,
    Nat.mod_eq_of_lt (by omega : k < w.csr.ringlen &&& mask32)]

theorem Pending.headDesc_eq (pending : Pending base k (n + 1) w) :
    headDesc w = slotDesc base k w.memories := by
  rw [headDesc, pending.headAddr_eq]
  rfl

/-- The loop executes the slots on the memories it was started with. -/
theorem Pending.memories {j : Nat} (pending : Pending base 0 n w) (within : j ≤ n) :
    (World.next^[j] w).memories = execSlots base j w.memories := by
  induction j with
  | zero => rfl
  | succ j ih =>
    have here := pending.iterate (by omega : j ≤ n)
    rw [show n - j = n - (j + 1) + 1 by omega, Nat.zero_add] at here
    rw [Function.iterate_succ_apply', execSlots_succ, ← ih (by omega), execSlot, ← here.headDesc_eq]
    rfl

/-! ## The scenario -/

/-- How a result came about: `setup` is what the rows left, `final` what the event loop left. -/
structure RunOf (rows : List Row) (smemWords sramWords : Nat) (result : Result) (setup : Setup)
    (final : World) : Prop where
  setup_eq : (do let world ← buildWorld smemWords sramWords
                 rows.foldlM setupRow { world, stim := [] }) = .ok setup
  loop_eq : eventLoop maxIters setup.world [] = .ok (final, result.descsFetched)
  stim_eq : result.stimLines = setup.stim
  initial_eq : (result.initialSmem, result.initialSram) = setup.world.memories
  final_eq : (result.finalSmem, result.finalSram) = final.memories

theorem setup_returns {setup : Setup} :
    (do let world ← buildWorld smemWords sramWords
        rows.foldlM setupRow { world, stim := [] }) = .ok setup ↔
      (smemWords ≠ 0 ∧ sramWords ≠ 0) ∧
        rows.foldlM setupRow { world := World.fresh smemWords sramWords, stim := [] } = .ok setup := by
  simp only [bind_eq_ok, buildWorld_eq_ok]
  constructor
  · rintro ⟨_, ⟨sizes, rfl⟩, folded⟩
    exact ⟨sizes, folded⟩
  · rintro ⟨sizes, folded⟩
    exact ⟨_, ⟨sizes, rfl⟩, folded⟩

/-- A scenario with an `enable` row returns what its event loop returns. -/
theorem runScenario_iff {result : Result} (member : .enable ∈ rows) :
    runScenario rows smemWords sramWords = .ok result ↔
      ∃ setup final, RunOf rows smemWords sramWords result setup final := by
  simp only [runScenario, bind_eq_ok]
  constructor
  · rintro ⟨world, built, setup, rest, running⟩
    obtain ⟨-, rfl⟩ := buildWorld_eq_ok.mp built
    have enabled : ¬ setup.world.csr.isEnabled = false := by
      simp [setup_enabled built_fresh member rest]
    rw [if_neg enabled, bind_eq_ok] at running
    obtain ⟨⟨final, fetched⟩, loop, eq⟩ := running
    obtain rfl := pure_eq_ok.mp eq
    exact ⟨setup, final, bind_eq_ok.mpr ⟨_, built, rest⟩, loop, rfl, rfl, rfl⟩
  · rintro ⟨setup, final, came⟩
    obtain ⟨_, built, rest⟩ := bind_eq_ok.mp came.setup_eq
    obtain ⟨-, rfl⟩ := buildWorld_eq_ok.mp built
    have enabled : ¬ setup.world.csr.isEnabled = false := by
      simp [setup_enabled built_fresh member rest]
    refine ⟨_, built, setup, rest, ?_⟩
    rw [if_neg enabled, bind_eq_ok]
    refine ⟨(final, result.descsFetched), came.loop_eq, pure_eq_ok.mpr ?_⟩
    cases result with
    | mk stimLines initialSmem finalSmem initialSram finalSram descsFetched =>
      obtain ⟨-, -, rfl, initial, ended⟩ := came
      obtain ⟨rfl, rfl⟩ := Prod.mk.inj initial
      obtain ⟨rfl, rfl⟩ := Prod.mk.inj ended
      rfl

theorem posting_fresh : Posting 0 (World.fresh smemWords sramWords) where
  head_eq := Nat.zero_and mask32
  tail_eq := rfl
  room := fun some => absurd rfl some

/-- What the rows leave for the event loop. -/
theorem setup_pending {setup : Setup} (ordered : RegistersFirst rows)
    (returns : rows.foldlM setupRow { world := World.fresh smemWords sramWords, stim := [] } =
      .ok setup) :
    Pending (RingManager.base setup.world) 0 (rows.countP Row.isDesc) setup.world := by
  have posting := setup_posting built_fresh posting_fresh ordered returns
  exact
    { parked := parked_fresh.of_queues (setup_frame built_fresh returns).2
      base_eq := rfl
      head_eq := posting.head_eq
      tail_eq := by rw [posting.tail, Nat.zero_add]
      room := fun some => by
        rw [Nat.zero_add]
        exact posting.room some }

theorem Pending.final (pending : Pending base 0 n w) : Parked (World.next^[n] w) :=
  (pending.iterate (Nat.le_refl n)).parked

/-- A returning scenario with its registers set before the first
    descriptor has executed the slots 0 to `posted - 1` one after the other on the initial
    memories, each descriptor as its slot holds it then, and leaves every queue empty.  An
    address wraps only in a memory of more than 2 ^ 30 words. -/
theorem scenario_is_sequential {addr : Int} {result : Result} (ordered : RegistersFirst rows)
    (baseaddr : rows.filterMap Row.baseaddr? = [addr]) (member : .enable ∈ rows)
    (returns : runScenario rows smemWords sramWords = .ok result) :
    let posted := rows.countP Row.isDesc
    let base := maskInt addr
    let initial := (result.initialSmem, result.initialSram)
    ∃ setup final, RunOf rows smemWords sramWords result setup final ∧
      setup.world.csr.read CSR.regTail = posted ∧ Quiet final ∧
      (result.finalSmem, result.finalSram) = execSlots base posted initial ∧
      result.descsFetched =
        (List.range posted).map (fun j => (slotDesc base j (execSlots base j initial)).pack) ∧
      (smemWords ≤ 2 ^ 30 → ∀ j < posted, slotAddr base j = base + 16 * j) := by
  obtain ⟨setup, final, came⟩ := (runScenario_iff member).mp returns
  have rest := (setup_returns.mp came.setup_eq).2
  have pending := setup_pending ordered rest
  have base : RingManager.base setup.world = maskInt addr := by
    rw [setup_world built_fresh rest, base_of_once baseaddr]
  rw [base] at pending
  obtain ⟨-, ended⟩ := (eventLoop_eq_ok pending).mp came.loop_eq
  obtain ⟨rfl, fetched⟩ := Prod.mk.inj ended
  refine ⟨setup, _, came, (setup_posting built_fresh posting_fresh ordered rest).tail_eq,
    pending.final.quiet, ?_, ?_, fun small j within => ?_⟩
  · rw [came.final_eq, pending.memories (Nat.le_refl _), came.initial_eq]
  · rw [fetched, List.nil_append]
    refine List.map_congr_left fun j member => ?_
    have within := List.mem_range.mp member
    have here := pending.iterate (Nat.le_of_lt within)
    obtain ⟨more, split⟩ := Nat.exists_eq_add_of_lt within
    rw [show rows.countP Row.isDesc - j = more + 1 by omega, Nat.zero_add] at here
    rw [here.headDesc_eq, pending.memories (Nat.le_of_lt within), came.initial_eq]
  · have inside := setup_inside built_fresh posting_fresh ordered (by omega) rest (by omega)
    rw [base] at inside
    rw [slotAddr, descriptorSizeBytes]
    omega

/-- The first copy writes over the slot of the second descriptor. -/
def overwriting : List Row :=
  [.smem 0 7, .sram 1 12, .sram 2 1, .sram 3 1, .csrBaseaddr 16, .csrRinglen 3, .desc 0 32 4 0,
    .desc 1 1 1 1, .enable]

theorem overwriting_is_sequential :
    ([7, 0, 0, 0, 0, 32, 4, 0, 0, 12, 1, 1, 0, 0, 0, 0], [0, 12, 1, 7]) =
      execSlots 16 2 ([7, 0, 0, 0, 0, 32, 4, 0, 1, 1, 1, 1, 0, 0, 0, 0], [0, 12, 1, 1]) := by
  have returns : runScenario overwriting 16 4 = .ok
      { stimLines := [.sysmemWrite 0 7, .sramWrite 4 12, .sramWrite 8 1, .sramWrite 12 1,
          .csrWrite 0 16, .csrWrite 4 3, .sysmemWrite 16 0, .sysmemWrite 20 32, .sysmemWrite 24 4,
          .sysmemWrite 28 0, .csrWrite 12 1, .sysmemWrite 32 1, .sysmemWrite 36 1,
          .sysmemWrite 40 1, .sysmemWrite 44 1, .csrWrite 12 2]
        initialSmem := [7, 0, 0, 0, 0, 32, 4, 0, 1, 1, 1, 1, 0, 0, 0, 0]
        finalSmem := [7, 0, 0, 0, 0, 32, 4, 0, 0, 12, 1, 1, 0, 0, 0, 0]
        initialSram := [0, 12, 1, 1]
        finalSram := [0, 12, 1, 7]
        descsFetched := [73786976432277159936, 79228162532711081718793109504] } := by decide +kernel
  obtain ⟨-, -, -, -, -, ended, -⟩ :=
    scenario_is_sequential (by decide) (show _ = [(16 : Int)] by decide) (by decide) returns
  exact ended

end AxiDma.Golden
