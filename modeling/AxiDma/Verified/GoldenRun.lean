import AxiDma.Verified.GoldenSetup

/-! # What a golden run returns

`scenario` loads the memories, posts a list of descriptors and enables the engine.  A run
of it that returns has fetched the posted descriptors in order and copied their blocks one
after the other, unless a copy has written over the ring.
-/

namespace AxiDma.Golden

open AxiDma.Lib

/-! ## Descriptors in memory -/

/-- The words `storeWords` does not reach. -/
theorem getElem?_storeWords {mem ws : List Nat} {a i : Nat} (outside : i < a ∨ a + ws.length ≤ i) :
    (storeWords mem a ws)[i]? = mem[i]? := by
  induction ws generalizing mem a with
  | nil => rfl
  | cons w ws ih =>
    rw [List.length_cons] at outside
    rw [storeWords, ih (by omega), List.getElem?_set_ne (by omega)]

/-! ## The ring -/

/-- The descriptors `ds` wait in the ring from slot `head` on, and nothing is in flight. -/
structure Waiting (base head : Nat) (ds : List Descriptor) (w : World) : Prop where
  quiet : Quiet w
  base_eq : RingManager.base w = base
  head_eq : RingManager.head w = head
  tail_eq : RingManager.tail w = head + ds.length
  room : ds ≠ [] → head + ds.length < w.csr.ringlen &&& mask32
  slots : ∀ j d, ds[j]? = some d → Holds w.sysmem.mem (base / 4 + 4 * (head + j)) d
  inside : base / 4 + 4 * (head + ds.length) ≤ 2 ^ 30

/-- The destination of `d` is not in the `n` slots of the ring. -/
def Apart (base n : Nat) (d : Descriptor) : Prop :=
  d.toSram = false → d.w1 / 4 + d.beats ≤ base / 4 ∨ base / 4 + 4 * n ≤ d.w1 / 4

instance (base n : Nat) (d : Descriptor) : Decidable (Apart base n d) :=
  inferInstanceAs (Decidable (_ → _ ∨ _))

variable {base head : Nat} {d : Descriptor} {ds : List Descriptor} {w w' : World}

theorem Quiet.after (quiet : Quiet w) (d : Descriptor) : Quiet (w.after d) := { quiet with }

@[simp] theorem length_moved (d : Descriptor) (m : List Nat × List Nat) :
    (moved d m).1.length = m.1.length ∧ (moved d m).2.length = m.2.length := by
  unfold moved
  split <;> simp

/-- A copy leaves the ring alone. -/
theorem getElem?_moved {n i : Nat} (apart : Apart base n d) (m : List Nat × List Nat)
    (slot : base / 4 ≤ i ∧ i < base / 4 + 4 * n) : (moved d m).1[i]? = m.1[i]? := by
  rw [moved]
  cases dir : d.toSram with
  | true => rfl
  | false =>
    have outside := apart dir
    refine getElem?_storeWords ?_
    rw [length_block]
    omega

theorem Waiting.after (waiting : Waiting base head (d :: ds) w)
    (apart : Apart base (head + (ds.length + 1)) d) : Waiting base (head + 1) ds (w.after d) := by
  have length : (d :: ds).length = ds.length + 1 := rfl
  have room := waiting.room (by simp)
  have small : w.csr.ringlen &&& mask32 < 2 ^ 32 := by
    rw [and_mask32]
    omega
  -- the posted slots end before RINGLEN, so HEAD does not wrap
  have advance : RingManager.head (w.after d) = head + 1 := by
    rw [RingManager.head, World.after, advanced, CSR.hwSetHead, CSR.read_set_self, waiting.head_eq,
      Nat.mod_eq_of_lt (a := head) (by omega), Nat.mod_eq_of_lt (a := head + 1) (by omega), and_mask32,
      and_mask32, Nat.mod_mod, Nat.mod_eq_of_lt (by omega)]
  exact
    { quiet := waiting.quiet.after d
      base_eq := waiting.base_eq
      head_eq := advance
      tail_eq := by
        have tail : RingManager.tail (w.after d) = head + (ds.length + 1) := waiting.tail_eq
        omega
      room := fun _ => by
        change head + 1 + ds.length < w.csr.ringlen &&& mask32
        omega
      slots := fun j e known => by
        have held := waiting.slots (j + 1) e known
        rw [show head + (j + 1) = head + 1 + j by omega] at held
        have inList := (List.getElem?_eq_some_iff.mp known).1
        exact held.of_eq fun i low high => getElem?_moved apart _ (by omega)
      inside := by
        have := waiting.inside
        omega }

/-! ## The fetch -/

theorem RingManager.fetchNextDescriptor_eq {out : Option Descriptor × World}
    (waiting : Waiting base head (d :: ds) w) (queues : Queues w) (masked : Masked d)
    (returns : fetchNextDescriptor w = .ok out) : out = (some d, w) := by
  have length : (d :: ds).length = ds.length + 1 := rfl
  have room := waiting.room (by simp)
  have inside := waiting.inside
  have more : isEmpty w = false := by
    rw [isEmpty, waiting.head_eq, waiting.tail_eq]
    exact beq_eq_false_iff_ne.mpr (by omega)
  -- HEAD is below RINGLEN, so it is the slot
  have slot : headAddr w / 4 = base / 4 + 4 * (head + 0) := by
    have inRing : head < w.csr.ringlen &&& mask32 := by omega
    rw [headAddr, waiting.base_eq, waiting.head_eq, Nat.mod_eq_of_lt inRing, descriptorSizeBytes,
      Nat.mod_eq_of_lt (by omega)]
    omega
  obtain ⟨-, rfl⟩ := (fetchNextDescriptor_eq_ok (waiting.quiet.fetchReady queues) more).mp returns
  rw [slot, (waiting.slots 0 d rfl).descAt_eq masked]

/-! ## The loop -/

def movedAll (ds : List Descriptor) (m : List Nat × List Nat) : List Nat × List Nat :=
  ds.foldl (fun m d => moved d m) m

/-- A loop that returns has fetched and copied what waits in the ring. -/
theorem eventLoop_eq {left : Nat} {fetched fetched' : List Nat}
    (waiting : Waiting base head ds w) (queues : Queues w) (masked : ∀ d ∈ ds, Masked d)
    (apart : ∀ d ∈ ds, Apart base (head + ds.length) d)
    (returns : eventLoop left w fetched = .ok (w', fetched')) :
    fetched' = fetched ++ ds.map Descriptor.pack ∧
      (w'.sysmem.mem, w'.sram.mem) = movedAll ds (w.sysmem.mem, w.sram.mem) ∧
      ∀ d ∈ ds, d.beats ≠ 0 → MoveFits d w.sysmem.mem.length w.sram.mem.length := by
  induction ds generalizing head left w fetched with
  | nil =>
    have empty : RingManager.isEmpty w = true := by
      rw [RingManager.isEmpty, waiting.head_eq, waiting.tail_eq]
      exact beq_self_eq_true head
    cases left with
    | zero => cases returns
    | succ left =>
      rw [eventLoop, if_pos empty, pure_eq_ok] at returns
      obtain ⟨rfl, rfl⟩ := Prod.mk.inj returns
      simp [movedAll]
  | cons d ds ih =>
    cases left with
    | zero => cases returns
    | succ left =>
      have more : RingManager.isEmpty w = false := by
        rw [RingManager.isEmpty, waiting.head_eq, waiting.tail_eq]
        exact beq_eq_false_iff_ne.mpr (by simp)
      rw [eventLoop, if_neg (by simp [more]), bind_eq_ok] at returns
      obtain ⟨out, fetch, returns⟩ := returns
      obtain rfl := RingManager.fetchNextDescriptor_eq waiting queues (masked d (by simp)) fetch
      obtain ⟨next, move, returns⟩ := bind_eq_ok.mp returns
      obtain ⟨⟨⟨fits, -⟩, -⟩, rfl⟩ :=
        (moveDescriptor_eq_ok waiting.quiet (masked d (by simp)) queues).mp move
      -- after one iteration the rest waits, on the memories this copy has left
      obtain ⟨fetchedAll, copied, fitAll⟩ := ih (waiting.after (apart d (by simp))) { queues with }
        (fun e member => masked e (by simp [member]))
        (fun e member => by
          have := apart e (by simp [member])
          rwa [List.length_cons, ← Nat.add_assoc, Nat.add_right_comm] at this) returns
      refine ⟨?_, ?_, ?_⟩
      · rw [fetchedAll, List.append_assoc]
        rfl
      · exact copied
      · have lengths := length_moved d (w.sysmem.mem, w.sram.mem)
        intro e member some
        rcases List.mem_cons.mp member with rfl | later
        · exact fits some
        · have fitsLater := fitAll e later some
          rwa [World.after, lengths.1, lengths.2] at fitsLater

/-! ## The setup -/

/-- A row that loads a memory word. -/
inductive Load where
  | smem (wi data : Int)
  | sram (wi data : Int)
  deriving DecidableEq, Repr

def Load.row : Load → Row
  | .smem wi data => .smem wi data
  | .sram wi data => .sram wi data

def Descriptor.row (d : Descriptor) : Row := .desc d.w0 d.w1 d.w2 d.w3

/-- Loads the memories, posts `ds` and enables the engine. -/
def scenario (loads : List Load) (base ringlen : Int) (ds : List Descriptor) : List Row :=
  loads.map Load.row ++ .csrBaseaddr base :: .csrRinglen ringlen ::
    (ds.map Descriptor.row ++ [.enable])

variable {smemWords sramWords : Nat} {s s' : Setup}

/-- The ring takes a descriptor behind those that wait. -/
theorem RingManager.enqueue_eq {t : Nat} (waiting : Waiting base 0 ds w) (count : ds.length = t)
    (returns : enqueue w d = .ok w') :
    t + 1 < w.csr.ringlen &&& mask32 ∧ base / 4 + 4 * t + 4 ≤ w.sysmem.size ∧
      base / 4 + 4 * t + 3 < w.sysmem.mem.length ∧
      w' = { w with
        sysmem := { w.sysmem with mem := writeSlot w.sysmem.mem (base / 4 + 4 * t) d }
        csr := w.csr.set CSR.regTail (t + 1) } := by
  have inside := waiting.inside
  have tail : tail w = t := by rw [waiting.tail_eq, count, Nat.zero_add]
  obtain ⟨⟨some, notFull, fits, last⟩, rfl⟩ := enqueue_eq_ok.mp returns
  obtain ⟨-, room⟩ := isFull_eq_ok.mp notFull
  rw [tail, waiting.head_eq, Nat.zero_mod] at room
  -- an empty ring says nothing about RINGLEN; that it is not 0 was tested
  have below : t < w.csr.ringlen &&& mask32 := by
    by_cases empty : ds = []
    · rw [empty] at count
      rw [← count]
      exact Nat.pos_of_ne_zero some
    · have := waiting.room empty
      omega
  -- a full ring would have TAIL + 1 wrap to HEAD = 0
  have next : t + 1 < w.csr.ringlen &&& mask32 := by
    refine Nat.lt_of_le_of_ne below fun full => ?_
    rw [Nat.mod_eq_of_lt below, full, Nat.mod_self] at room
    exact absurd room (by simp)
  have word : tailWord w = base / 4 + 4 * t := by
    rw [tailWord, waiting.base_eq, tail, Nat.mod_eq_of_lt below, descriptorSizeBytes]
    omega
  rw [word] at fits last
  exact ⟨next, fits, last, by rw [World.posted, word, tail, Nat.mod_eq_of_lt next]⟩

theorem Descriptor.init_of_masked (masked : Masked d) :
    Descriptor.init (maskInt d.w0) (maskInt d.w1) (maskInt d.w2) (maskInt d.w3) = d := by
  rw [Descriptor.init, maskInt_natCast masked.w0, maskInt_natCast masked.w1,
    maskInt_natCast masked.w2, maskInt_natCast masked.w3, and_mask32, and_mask32, and_mask32,
    and_mask32, Nat.mod_eq_of_lt masked.w0, Nat.mod_eq_of_lt masked.w1, Nat.mod_eq_of_lt masked.w2,
    Nat.mod_eq_of_lt masked.w3]

/-- A posted descriptor waits behind the others. -/
theorem Waiting.post (waiting : Waiting base 0 ds s.world)
    (sized : Sized smemWords sramWords s.world) (addressable : smemWords ≤ 2 ^ 30)
    (masked : Masked d) (returns : setupRow s d.row = .ok s') :
    Waiting base 0 (ds ++ [d]) s'.world ∧ Sized smemWords sramWords s'.world := by
  simp only [Descriptor.row, setupRow, Descriptor.init_of_masked masked, bind_eq_ok, pure_eq_ok] at returns
  obtain ⟨_, -, w', posted, rfl⟩ := returns
  obtain ⟨room, fits, last, rfl⟩ := RingManager.enqueue_eq waiting rfl posted
  have size := sized.size
  have length : (ds ++ [d]).length = ds.length + 1 := List.length_append ..
  have wide : s.world.csr.ringlen &&& mask32 < 2 ^ 32 := by
    rw [and_mask32]
    omega
  refine ⟨?_, ⟨size, (length_writeSlot ..).trans sized.smem, sized.sram⟩⟩
  exact
    { quiet := { waiting.quiet with }
      base_eq := waiting.base_eq
      head_eq := waiting.head_eq
      tail_eq := by
        rw [RingManager.tail, Setup.emit, CSR.read_set_self, and_mask32, length, Nat.zero_add]
        exact Nat.mod_eq_of_lt (by omega)
      room := fun _ => by
        rw [length, Nat.zero_add]
        exact room
      slots := fun j e known => by
        -- the slots before lie below the four words written
        rcases Nat.lt_or_ge j ds.length with before | new
        · rw [List.getElem?_append_left before] at known
          exact (waiting.slots j e known).of_eq fun i _ _ => getElem?_writeSlot (.inl (by omega))
        · rw [List.getElem?_append_right new] at known
          obtain ⟨zero, rfl⟩ := List.getElem?_eq_some_iff.mp known
          rw [List.length_singleton] at zero
          rw [show base / 4 + 4 * (0 + j) = base / 4 + 4 * ds.length by omega]
          simpa [Setup.emit] using holds_writeSlot last
      inside := by omega }

theorem Waiting.postAll {posted : List Descriptor} (waiting : Waiting base 0 posted s.world)
    (sized : Sized smemWords sramWords s.world) (addressable : smemWords ≤ 2 ^ 30)
    (masked : ∀ d ∈ ds, Masked d) (returns : (ds.map Descriptor.row).foldlM setupRow s = .ok s') :
    Waiting base 0 (posted ++ ds) s'.world ∧ Sized smemWords sramWords s'.world := by
  induction ds generalizing posted s with
  | nil =>
    obtain rfl := pure_eq_ok.mp returns
    rw [List.append_nil]
    exact ⟨waiting, sized⟩
  | cons d ds ih =>
    rw [List.map_cons, List.foldlM_cons, bind_eq_ok] at returns
    obtain ⟨next, first, rest⟩ := returns
    obtain ⟨behind, sizedNext⟩ := waiting.post sized addressable (masked d (by simp)) first
    rw [← List.singleton_append, ← List.append_assoc]
    exact ih behind sizedNext (fun e member => masked e (by simp [member])) rest

/-- A load changes the words of the memories only. -/
theorem loads_eq {loads : List Load} (built : Built smemWords sramWords s.world)
    (returns : (loads.map Load.row).foldlM setupRow s = .ok s') : s'.world.csr = s.world.csr := by
  have both := foldlM_invariant
    (P := fun _ t => Built smemWords sramWords t.world ∧ t.world.csr = s.world.csr)
    (fun seen row t t' within held step => ?_) ⟨built, by rfl⟩ returns
  · exact both.2
  · obtain ⟨-, rfl⟩ := (setupRow_eq_ok held.1).mp step
    obtain ⟨load, -, rfl⟩ := List.mem_map.mp (within.subset (by simp : row ∈ seen ++ [row]))
    refine ⟨held.1.applied _, ?_⟩
    cases load <;> exact held.2

theorem waiting_nil (baseaddr ringlen : Int) (quiet : Quiet w)
    (csr : w.csr =
      (CSR.init.write CSR.regBaseaddr (maskInt baseaddr)).write CSR.regRinglen ringlen) :
    Waiting (maskInt baseaddr) 0 [] w := by
  have small := maskInt_lt baseaddr
  rw [CSR.write_plain _ (.inl rfl), CSR.write_plain _ (.inr rfl), maskInt_natCast small] at csr
  have zero {offset : Nat} (base : offset ≠ CSR.regBaseaddr) (len : offset ≠ CSR.regRinglen) :
      w.csr.read offset = 0 := by
    rw [csr, CSR.read_set_of_ne len, CSR.read_set_of_ne base]
    rfl
  exact
    { quiet := quiet
      base_eq := by
        rw [RingManager.base, CSR.baseaddr, csr, CSR.read_set_of_ne (by decide), CSR.read_set_self,
          and_mask32, Nat.mod_eq_of_lt small]
      head_eq := by
        rw [RingManager.head, zero (by decide) (by decide), Nat.zero_and]
      tail_eq := by
        rw [RingManager.tail, zero (by decide) (by decide), Nat.zero_and]
        rfl
      room := fun some => absurd rfl some
      slots := fun j d known => by simp at known
      inside := by
        rw [List.length_nil]
        omega }

/-- The control register is none of the ring's. -/
theorem Waiting.setCtrl (waiting : Waiting base head ds w) (value : Nat) :
    Waiting base head ds { w with csr := w.csr.set CSR.regCtrl value } := by
  have other {offset : Nat} (distinct : offset ≠ CSR.regCtrl) :
      (w.csr.set CSR.regCtrl value).read offset = w.csr.read offset := CSR.read_set_of_ne distinct
  exact
    { quiet := { waiting.quiet with }
      base_eq := by
        rw [← waiting.base_eq, RingManager.base, CSR.baseaddr, other (by decide)]
        rfl
      head_eq := by
        rw [← waiting.head_eq, RingManager.head, other (by decide)]
        rfl
      tail_eq := by
        rw [← waiting.tail_eq, RingManager.tail, other (by decide)]
        rfl
      room := fun some => by
        rw [CSR.ringlen, other (by decide)]
        exact waiting.room some
      slots := waiting.slots
      inside := waiting.inside }

/-- The two register rows leave an empty ring. -/
theorem setupRow_ring {s₁ s₂ : Setup} {baseaddr ringlen : Int} (quiet : Quiet s.world)
    (sized : Sized smemWords sramWords s.world) (csr : s.world.csr = CSR.init)
    (baseRow : setupRow s (.csrBaseaddr baseaddr) = .ok s₁)
    (lenRow : setupRow s₁ (.csrRinglen ringlen) = .ok s₂) :
    Waiting (maskInt baseaddr) 0 [] s₂.world ∧ Sized smemWords sramWords s₂.world := by
  obtain rfl := pure_eq_ok.mp baseRow
  obtain rfl := pure_eq_ok.mp lenRow
  refine ⟨waiting_nil baseaddr ringlen
    { quiet with } ?_, { sized with }⟩
  rw [← csr]
  rfl

theorem setupRow_enable (waiting : Waiting base head ds s.world)
    (sized : Sized smemWords sramWords s.world) (returns : setupRow s .enable = .ok s') :
    Waiting base head ds s'.world ∧ Sized smemWords sramWords s'.world ∧
      s'.world.csr.isEnabled = true := by
  obtain rfl := pure_eq_ok.mp returns
  exact ⟨waiting.setCtrl _, { sized with }, isEnabled_enable _ _⟩

theorem setup_eq {loads : List Load} {baseaddr ringlen : Int} (addressable : smemWords ≤ 2 ^ 30)
    (masked : ∀ d ∈ ds, Masked d) (built : buildWorld smemWords sramWords = .ok w)
    (returns : (scenario loads baseaddr ringlen ds).foldlM setupRow { world := w, stim := [] } =
      .ok s) :
    Waiting (maskInt baseaddr) 0 ds s.world ∧ Sized smemWords sramWords s.world ∧
      s.world.csr.isEnabled = true := by
  simp only [scenario, List.foldlM_append, List.foldlM_cons, List.foldlM_nil, bind_eq_ok] at returns
  obtain ⟨loaded, loading, _, baseRow, _, lenRow, posted, posting, _, enableRow, last⟩ := returns
  obtain rfl := pure_eq_ok.mp last
  obtain ⟨-, rfl⟩ := buildWorld_eq_ok.mp built
  obtain ⟨builtLoaded, same⟩ := setup_frame built_fresh loading
  have csr := loads_eq built_fresh loading
  obtain ⟨start, sizedStart⟩ :=
    setupRow_ring (parked_fresh.of_queues same).quiet builtLoaded.toSized csr baseRow lenRow
  obtain ⟨waiting, sizedPosted⟩ := start.postAll sizedStart addressable masked posting
  exact setupRow_enable waiting sizedPosted enableRow

theorem smemWords_pos {rows : List Row} {result : Result}
    (returns : runScenario rows smemWords sramWords = .ok result) : 0 < smemWords := by
  rw [runScenario, bind_eq_ok] at returns
  obtain ⟨w, built, -⟩ := returns
  exact Nat.pos_of_ne_zero (buildWorld_eq_ok.mp built).1.1

/-- A scenario that returns has fetched what it posted and copied the
    blocks of `ds` one after the other. -/
theorem runScenario_eq {loads : List Load} {baseaddr ringlen : Int} {result : Result}
    (addressable : smemWords ≤ 2 ^ 30) (masked : ∀ d ∈ ds, Masked d)
    (apart : ∀ d ∈ ds, Apart (maskInt baseaddr) ds.length d)
    (returns : runScenario (scenario loads baseaddr ringlen ds) smemWords sramWords = .ok result) :
    result.descsFetched = ds.map Descriptor.pack ∧
      (result.finalSmem, result.finalSram) =
        movedAll ds (result.initialSmem, result.initialSram) ∧
      ∀ d ∈ ds, d.beats ≠ 0 → MoveFits d smemWords sramWords := by
  rw [runScenario, bind_eq_ok] at returns
  obtain ⟨w, built, running⟩ := returns
  obtain ⟨s, setup, running⟩ := bind_eq_ok.mp running
  obtain ⟨waiting, sized, enabled⟩ := setup_eq addressable masked built setup
  rw [if_neg (by simp [enabled]), bind_eq_ok] at running
  obtain ⟨⟨final, fetched⟩, looped, eq⟩ := running
  obtain rfl := pure_eq_ok.mp eq
  obtain ⟨-, rfl⟩ := buildWorld_eq_ok.mp built
  obtain ⟨-, same⟩ := setup_frame built_fresh setup
  obtain ⟨descs, copied, fits⟩ :=
    eventLoop_eq waiting (parked_fresh.of_queues same).queues masked (by simpa only [Nat.zero_add] using apart) looped
  rw [sized.smem, sized.sram] at fits
  exact ⟨descs, copied, fits⟩

end AxiDma.Golden
