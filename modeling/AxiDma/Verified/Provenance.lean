import AxiDma.Lib.Moves
import AxiDma.Verified.Accepts

/-! # Where the words of a golden run come from

A transfer is a sequence of moves between the cells of the two memories, so a run that returns
leaves in every cell the initial word of the cell's origin.
-/

namespace AxiDma.Golden

open AxiDma.Lib

variable {base n smemWords sramWords : Nat} {m : List Nat × List Nat} {d : Descriptor}
  {rows : List Row} {w : World}

/-! ## Cells -/

inductive Cell where
  | smem (i : Nat)
  | sram (i : Nat)
  deriving DecidableEq, Repr

/-- The word of a cell, 0 past the end of its memory. -/
def wordAt (m : List Nat × List Nat) : Cell → Nat
  | .smem i => (m.1[i]?).getD 0
  | .sram i => (m.2[i]?).getD 0

/-- The source of beat `j`. -/
def Descriptor.source (d : Descriptor) (j : Nat) : Cell :=
  if d.toSram then .smem (d.w0 / 4 + j) else .sram (d.w0 / 4 + j)

def Descriptor.dest (d : Descriptor) (j : Nat) : Cell :=
  if d.toSram then .sram (d.w1 / 4 + j) else .smem (d.w1 / 4 + j)

def Descriptor.moves (d : Descriptor) : List (Move Cell) :=
  (List.range d.beats).map fun j => ⟨d.dest j, d.source j⟩

theorem Descriptor.dest_injective (d : Descriptor) : Function.Injective d.dest := by
  intro i j same
  unfold dest at same
  split at same
  · have := Cell.sram.inj same
    omega
  · have := Cell.smem.inj same
    omega

theorem Descriptor.dest_ne_source (d : Descriptor) (i j : Nat) : d.dest i ≠ d.source j := by
  unfold dest source
  split <;> simp

/-! ## One transfer -/

theorem getElem?_storeWords_block {mem ws : List Nat} {a j : Nat} (fits : a + ws.length ≤ mem.length)
    (within : j < ws.length) : (storeWords mem a ws)[a + j]? = some (ws[j] &&& mask32) := by
  induction ws generalizing mem a j with
  | nil => exact absurd within (Nat.not_lt_zero j)
  | cons w ws ih =>
    rw [List.length_cons] at fits within
    rw [storeWords]
    cases j with
    | zero =>
      rw [getElem?_storeWords (by omega), Nat.add_zero, List.getElem?_set_self (by omega)]
      rfl
    | succ j =>
      rw [show a + (j + 1) = a + 1 + j by omega, ih (by rw [List.length_set]; omega) (by omega)]
      rfl

/-- Every word is in range. -/
def Words (m : List Nat × List Nat) : Prop := ∀ c, wordAt m c < 2 ^ 32

theorem wordAt_block {mem : List Nat} {a j : Nat} (inside : j < (block mem a n).length)
    (word : (mem[a + j]?).getD 0 < 2 ^ 32) :
    (block mem a n)[j] &&& mask32 = (mem[a + j]?).getD 0 := by
  simp only [block, List.getElem_map, List.getElem_range, Nat.and_assoc, Nat.and_self]
  rw [and_mask32, Nat.mod_eq_of_lt word]

/-- One transfer is its moves. -/
theorem wordAt_moved (words : Words m) (fits : d.beats ≠ 0 → MoveFits d m.1.length m.2.length) :
    wordAt (moved d m) = execMoves d.moves (wordAt m) := by
  funext c
  by_cases target : ∃ j < d.beats, d.dest j = c
  · -- a destination gets the word of its source, which no move of the transfer writes
    obtain ⟨j, within, rfl⟩ := target
    obtain ⟨-, smem, sram⟩ := fits (by omega)
    rw [Descriptor.moves, execMoves_parallel d.dest_injective d.dest_ne_source within, moved]
    have word := words (d.source j)
    unfold Descriptor.dest Descriptor.source at *
    cases dir : d.toSram with
    | true =>
      simp only [dir, if_true] at smem sram word ⊢
      have inside : d.w1 / 4 + (block m.1 (d.w0 / 4) d.beats).length ≤ m.2.length := by
        rwa [length_block]
      simp only [wordAt] at word ⊢
      rw [getElem?_storeWords_block inside (by rwa [length_block]), wordAt_block _ word]
      rfl
    | false =>
      simp only [dir, Bool.false_eq_true, if_false] at smem sram word ⊢
      have inside : d.w1 / 4 + (block m.2 (d.w0 / 4) d.beats).length ≤ m.1.length := by
        rwa [length_block]
      simp only [wordAt] at word ⊢
      rw [getElem?_storeWords_block inside (by rwa [length_block]), wordAt_block _ word]
      rfl
  · -- any other cell is outside the block
    have other : ∀ mv ∈ d.moves, mv.dst ≠ c := by
      intro mv member same
      obtain ⟨j, inRange, rfl⟩ := List.mem_map.mp member
      exact target ⟨j, List.mem_range.mp inRange, same⟩
    rw [execMoves_of_ne other, moved]
    have outside (i a : Nat) (here : ∀ j < d.beats, a + j ≠ i) (k : Nat) (len : k = d.beats) :
        i < a ∨ a + k ≤ i := by
      by_contra between
      exact here (i - a) (by omega) (by omega)
    unfold Descriptor.dest at target
    cases dir : d.toSram with
    | true =>
      cases c with
      | smem i => rfl
      | sram i =>
        simp only [dir, if_true, not_exists, not_and, Cell.sram.injEq] at target ⊢
        simp only [wordAt]
        rw [getElem?_storeWords (outside i _ target _ (length_block ..))]
    | false =>
      cases c with
      | sram i => rfl
      | smem i =>
        simp only [dir, Bool.false_eq_true, if_false, not_exists, not_and, Cell.smem.injEq] at target ⊢
        simp only [wordAt]
        rw [getElem?_storeWords (outside i _ target _ (length_block ..))]

theorem Words.moved (words : Words m) (fits : d.beats ≠ 0 → MoveFits d m.1.length m.2.length) :
    Words (moved d m) := by
  intro c
  rw [wordAt_moved words fits, execMoves_eq]
  exact words _

/-! ## A run -/

/-- The moves of the first `n` slots, each descriptor as its slot holds it when it is reached. -/
def runMoves (base n : Nat) (m : List Nat × List Nat) : List (Move Cell) :=
  (List.range n).flatMap fun j => (slotDesc base j (execSlots base j m)).moves

theorem runMoves_succ (base n : Nat) (m : List Nat × List Nat) :
    runMoves base (n + 1) m =
      runMoves base n m ++ (slotDesc base n (execSlots base n m)).moves := by
  rw [runMoves, List.range_succ, List.flatMap_append, List.flatMap_singleton]
  rfl

/-- Every transfer lies inside the memories. -/
def RunFits (base n : Nat) (m : List Nat × List Nat) : Prop :=
  ∀ j < n, (slotDesc base j (execSlots base j m)).beats ≠ 0 →
    MoveFits (slotDesc base j (execSlots base j m)) m.1.length m.2.length

/-- A run leaves in a cell the initial word of its origin. -/
theorem wordAt_execSlots (words : Words m) (fits : RunFits base n m) :
    Words (execSlots base n m) ∧
      wordAt (execSlots base n m) = execMoves (runMoves base n m) (wordAt m) := by
  induction n with
  | zero => exact ⟨words, rfl⟩
  | succ n ih =>
    obtain ⟨wordsHere, same⟩ := ih fun j less => fits j (by omega)
    have lengths := length_execSlots base n m
    have fitsHere := fits n (by omega)
    rw [← lengths.1, ← lengths.2] at fitsHere
    rw [execSlots_succ, execSlot]
    refine ⟨wordsHere.moved fitsHere, ?_⟩
    rw [wordAt_moved wordsHere fitsHere, same, runMoves_succ, execMoves_append]

theorem wordAt_origin (words : Words m) (fits : RunFits base n m) (c : Cell) :
    wordAt (execSlots base n m) c = wordAt m (origin (runMoves base n m) c) := by
  rw [(wordAt_execSlots words fits).2, execMoves_eq]

/-! ## The run of a scenario -/

theorem words_of_mem (smem : ∀ x ∈ m.1, x < 2 ^ 32) (sram : ∀ x ∈ m.2, x < 2 ^ 32) : Words m := by
  have word {mem : List Nat} (all : ∀ x ∈ mem, x < 2 ^ 32) (i : Nat) : (mem[i]?).getD 0 < 2 ^ 32 := by
    cases read : mem[i]? with
    | none => exact Nat.two_pow_pos 32
    | some x => exact all x (List.mem_of_getElem? read)
  rintro (i | i)
  · exact word smem i
  · exact word sram i

/-- Rows mask what they write. -/
theorem mem_applied (row : Row) (smem : ∀ x ∈ w.sysmem.mem, x < 2 ^ 32)
    (sram : ∀ x ∈ w.sram.mem, x < 2 ^ 32) :
    (∀ x ∈ (row.applied w).sysmem.mem, x < 2 ^ 32) ∧ ∀ x ∈ (row.applied w).sram.mem, x < 2 ^ 32 := by
  have set {mem : List Nat} (all : ∀ x ∈ mem, x < 2 ^ 32) (i : Nat) {v : Nat} (small : v < 2 ^ 32) :
      ∀ x ∈ mem.set i v, x < 2 ^ 32 := by
    intro x member
    rcases List.mem_or_eq_of_mem_set member with old | rfl
    · exact all x old
    · exact small
  cases row with
  | smem wi data => exact ⟨set smem _ (maskInt_lt data), sram⟩
  | sram wi data => exact ⟨smem, set sram _ (maskInt_lt data)⟩
  | desc src dst len flags =>
    have word (x : Int) : maskInt x &&& mask32 < 2 ^ 32 := by
      rw [and_mask32]
      exact Nat.mod_lt _ (Nat.two_pow_pos 32)
    exact ⟨set (set (set (set smem _ (word src)) _ (word dst)) _ (word len)) _ (word flags), sram⟩
  | csrBaseaddr | csrRinglen | enable | other => exact ⟨smem, sram⟩

theorem words_applyRows (rows : List Row) (smemWords sramWords : Nat) :
    Words (applyRows rows (World.fresh smemWords sramWords)).memories := by
  have both : (∀ x ∈ (applyRows rows (World.fresh smemWords sramWords)).sysmem.mem, x < 2 ^ 32) ∧
      ∀ x ∈ (applyRows rows (World.fresh smemWords sramWords)).sram.mem, x < 2 ^ 32 := by
    induction rows using List.reverseRecOn with
    | nil =>
      have zero (n : Nat) : ∀ x ∈ List.replicate n 0, x < 2 ^ 32 := by
        intro x member
        rw [List.eq_of_mem_replicate member]
        exact Nat.two_pow_pos 32
      exact ⟨zero smemWords, zero sramWords⟩
    | append_singleton rows row ih =>
      rw [applyRows_snoc]
      exact mem_applied row ih.1 ih.2
  exact words_of_mem both.1 both.2

theorem head_applied (row : Row) (w : World) :
    RingManager.head (row.applied w) = RingManager.head w := by
  cases row with
  | smem | sram | other => rfl
  | csrBaseaddr | csrRinglen | desc => exact congrArg (· &&& mask32) (CSR.read_set_of_ne (by decide))
  | enable =>
    refine congrArg (· &&& mask32) ?_
    rw [Row.applied, CSR.write_ctrl]
    exact CSR.read_set_of_ne (by decide)

theorem head_applyRows (rows : List Row) (w : World) :
    RingManager.head (applyRows rows w) = RingManager.head w := by
  induction rows using List.reverseRecOn with
  | nil => rfl
  | append_singleton rows row ih => rw [applyRows_snoc, head_applied, ih]

/-- HEAD never reaches a TAIL beyond the ring. -/
theorem eventLoop_beyond {left : Nat} {fetched : List Nat} {out : World × List Nat}
    (parked : Parked w) (more : RingManager.isEmpty w = false)
    (beyond : w.csr.ringlen &&& mask32 ≤ RingManager.tail w) :
    eventLoop left w fetched ≠ .ok out := by
  induction left generalizing w fetched with
  | zero =>
    intro returns
    cases returns
  | succ left ih =>
    intro returns
    rw [eventLoop, if_neg (by simp [more]), bind_eq_ok] at returns
    obtain ⟨o, fetch, rest⟩ := returns
    obtain ⟨⟨set, -⟩, rfl⟩ :=
      (RingManager.fetchNextDescriptor_eq_ok (parked.quiet.fetchReady parked.queues) more).mp fetch
    obtain ⟨next, move, rest⟩ := bind_eq_ok.mp rest
    obtain ⟨-, rfl⟩ := (moveDescriptor_eq_ok parked.quiet (masked_descAt _ _) parked.queues).mp move
    -- HEAD is taken modulo RINGLEN, so it stays below it and the ring is not empty
    refine ih (w := w.after (headDesc w)) (parked.of_queues rfl) ?_ beyond rest
    have inRing := Nat.mod_lt (RingManager.head w % (w.csr.ringlen &&& mask32) + 1)
      (Nat.pos_of_ne_zero set)
    have low : RingManager.head (w.after (headDesc w)) < w.csr.ringlen &&& mask32 := by
      rw [RingManager.head, World.after, advanced, CSR.hwSetHead, CSR.read_set_self, and_mask32,
        and_mask32]
      omega
    rw [← Bool.not_eq_true, RingManager.isEmpty, beq_iff_eq]
    exact Nat.ne_of_lt (Nat.lt_of_lt_of_le low beyond)

/-- A run that returns has its posted slots inside the ring, however its registers were set. -/
theorem pending_of_returns {setup : Setup} {left : Nat} {fetched : List Nat} {out : World × List Nat}
    (rest : rows.foldlM setupRow { world := World.fresh smemWords sramWords, stim := [] } =
      .ok setup) (loop : eventLoop left setup.world fetched = .ok out) :
    Pending (RingManager.base setup.world) 0 (RingManager.tail setup.world) setup.world := by
  have parked : Parked setup.world := parked_fresh.of_queues (setup_frame built_fresh rest).2
  have head : RingManager.head setup.world = 0 := by
    rw [setup_world built_fresh rest, head_applyRows]
    exact posting_fresh.head_eq
  refine ⟨parked, rfl, head, (Nat.zero_add _).symm, fun some => ?_⟩
  rw [Nat.zero_add]
  by_contra beyond
  refine eventLoop_beyond parked ?_ (Nat.not_lt.mp beyond) loop
  rw [← Bool.not_eq_true, RingManager.isEmpty, head, beq_iff_eq]
  exact some.symm

/-- An event loop that returns has run the slots up to TAIL, all inside the memories. -/
theorem loop_run {setup : Setup} {final : World} {left : Nat} {fetched fetched' : List Nat}
    (rest : rows.foldlM setupRow { world := World.fresh smemWords sramWords, stim := [] } =
      .ok setup) (loop : eventLoop left setup.world fetched = .ok (final, fetched')) :
    let w := applyRows rows (World.fresh smemWords sramWords)
    final.memories = execSlots (RingManager.base w) (RingManager.tail w) w.memories ∧
      RunFits (RingManager.base w) (RingManager.tail w) w.memories := by
  have pending := pending_of_returns rest loop
  obtain ⟨⟨-, runs⟩, ended⟩ := (eventLoop_eq_ok pending).mp loop
  obtain ⟨rfl, -⟩ := Prod.mk.inj ended
  rw [← setup_world built_fresh rest]
  refine ⟨pending.memories (Nat.le_refl _), fun j within some => ?_⟩
  have here := pending.iterate (Nat.le_of_lt within)
  obtain ⟨more, split⟩ := Nat.exists_eq_add_of_lt within
  rw [show RingManager.tail setup.world - j = more + 1 by omega, Nat.zero_add] at here
  -- what the golden model accepts in turn `j` is the slot as the turns before have left it
  have fits := (runs j within).accepts.fits
  have memories := pending.memories (Nat.le_of_lt within)
  rw [here.headDesc_eq, memories] at fits
  have lengths := length_execSlots (RingManager.base setup.world) j setup.world.memories
  rw [← memories] at lengths
  rw [← lengths.1, ← lengths.2]
  exact fits some

/-- A scenario that returns has run the slots up to TAIL. -/
theorem returned_run {result : Result} (member : .enable ∈ rows)
    (returns : runScenario rows smemWords sramWords = .ok result) :
    let w := applyRows rows (World.fresh smemWords sramWords)
    let base := RingManager.base w
    let posted := RingManager.tail w
    (result.initialSmem, result.initialSram) = w.memories ∧
      (result.finalSmem, result.finalSram) = execSlots base posted w.memories ∧
      RunFits base posted w.memories := by
  obtain ⟨setup, final, came⟩ := (runScenario_iff member).mp returns
  have rest := (setup_returns.mp came.setup_eq).2
  obtain ⟨memories, fits⟩ := loop_run rest came.loop_eq
  have initial := came.initial_eq
  rw [setup_world built_fresh rest] at initial
  exact ⟨initial, came.final_eq.trans memories, fits⟩

/-- The images a scenario returns: words, and as many as the memories have. -/
structure Imaged (smemWords sramWords : Nat) (m : List Nat × List Nat) : Prop where
  words : Words m
  smem : m.1.length = smemWords
  sram : m.2.length = sramWords

theorem returned_images {result : Result}
    (returns : runScenario rows smemWords sramWords = .ok result) :
    Imaged smemWords sramWords (result.initialSmem, result.initialSram) ∧
      Imaged smemWords sramWords (result.finalSmem, result.finalSram) := by
  obtain ⟨world, built, returns⟩ := bind_eq_ok.mp returns
  obtain ⟨-, rfl⟩ := buildWorld_eq_ok.mp built
  obtain ⟨setup, rest, returns⟩ := bind_eq_ok.mp returns
  have sized : Built smemWords sramWords (applyRows rows (World.fresh smemWords sramWords)) :=
    built_applyRows rows
  have start : Imaged smemWords sramWords setup.world.memories := by
    rw [setup_world built_fresh rest]
    exact ⟨words_applyRows _ _ _, sized.smem, sized.sram⟩
  dsimp only at returns
  split at returns
  · obtain rfl := pure_eq_ok.mp returns
    exact ⟨start, start⟩
  · obtain ⟨⟨final, fetched⟩, loop, eq⟩ := bind_eq_ok.mp returns
    obtain rfl := pure_eq_ok.mp eq
    obtain ⟨memories, fits⟩ := loop_run rest loop
    have lengths := length_execSlots
      (RingManager.base (applyRows rows (World.fresh smemWords sramWords)))
      (RingManager.tail (applyRows rows (World.fresh smemWords sramWords)))
      (applyRows rows (World.fresh smemWords sramWords)).memories
    rw [← memories] at lengths
    refine ⟨start, ?_, lengths.1.trans sized.smem, lengths.2.trans sized.sram⟩
    have words := (wordAt_execSlots (words_applyRows rows smemWords sramWords) fits).1
    rwa [← memories] at words

end AxiDma.Golden
