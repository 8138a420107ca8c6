import AxiDma.Verified.ClosedCore

/-! # The words of the descriptor fetches

While the slots in use keep their words, `sys_mem` answers every descriptor read with the
words of its slot.  What `descriptor_fetcher` pops is then the list of posted descriptors, and
no good descriptor raises `df_error`.
-/

namespace AxiDma.Verified

open AxiDma.Lib AxiDma.Rtl

namespace PostedRing

variable {ring : PostedRing} {n j : Nat}

theorem getElem?_slotWords (near : j < 4) :
    (ring.slotWords n)[j]? = some (ring.readWord (ring.slotWord n + j)) := by
  simp [slotWords, near]

theorem take_slotWords_succ (near : j < 4) :
    (ring.slotWords n).take (j + 1) =
      (ring.slotWords n).take j ++ [ring.readWord (ring.slotWord n + j)] := by
  rw [List.take_add_one, getElem?_slotWords near, Option.toList_some]

end PostedRing

namespace ClosedCore

variable {k addrWidth : Nat} {ring : PostedRing} {r : ClosedCore k addrWidth}
  {csr : RingManager.CsrIn}

/-- The slots in use hold the words they were handed over with. -/
def Kept (ring : PostedRing) (r : ClosedCore k addrWidth) : Prop :=
  ∀ n < r.posting.posted, ∀ j < 4, r.mem.ram (ring.slotWord n + j) = ring.ram (ring.slotWord n + j)

structure Fetched (ring : PostedRing) (r : ClosedCore k addrWidth) : Prop where
  finished : ∀ n read, r.pipe.reads.finished[n]? = some read → read.words = ring.slotWords n
  beat : r.pipe.core.mt.engines.axi.state = .dfR →
    r.mem.rAddr = r.pipe.reads.current.addr ∧
      r.mem.rBeat.toNat = r.pipe.reads.current.words.length
  current : r.pipe.core.mt.engines.axi.state = .dfR →
    r.pipe.reads.current.words =
      (ring.slotWords r.pipe.reads.finished.length).take r.pipe.reads.current.words.length

theorem fetched_start (ring : PostedRing) (s : DmaCore.State k addrWidth) (mem : Rtl.SysMem.State) :
    Fetched ring (start s mem) where
  finished := by simp [start, Pipeline.start]
  beat := by
    simp [start, Pipeline.start, DmaCore.reset, MovementTop.reset, Engines.reset, AxiMaster.resetState]
  current := by
    simp [start, Pipeline.start, DmaCore.reset, MovementTop.reset, Engines.reset, AxiMaster.resetState]

/-! ## One beat -/

/-- In a read state the memory has a beat. -/
theorem Inv.issues (inv : Inv ring r)
    (reads : r.pipe.core.mt.engines.axi.state = .dfR ∨ r.pipe.core.mt.engines.axi.state = .dmRdR) :
    r.mem.rState = .issue ∧ r.mem.rBeat.toNat + r.pipe.rLeft = r.mem.rLastBeat.toNat + 1 ∧
      0 < r.pipe.rLeft := by
  have burst := inv.chain.inBurst
  rw [inv.views.path, inv.views.rLeft] at burst
  have left : 0 < r.pipe.rLeft := burst.mp reads
  have owes := inv.owes
  cases fsm : r.mem.rState with
  | idle =>
    simp only [SysMem.ReadOwes, fsm] at owes
    omega
  | issue =>
    simp only [SysMem.ReadOwes, fsm] at owes
    exact ⟨rfl, owes.2, left⟩

/-- Outside of them its read FSM is idle. -/
theorem Inv.arready (inv : Inv ring r) (memWords : Nat)
    (before : r.pipe.core.mt.engines.axi.state = .dfAr ∨ r.pipe.core.mt.engines.axi.state = .dmRdAr) :
    r.mem.rState = .idle ∧ (SysMem.out memWords r.mem).arready = true := by
  have burst := inv.chain.inBurst
  rw [inv.views.path, inv.views.rLeft] at burst
  -- in an address state nothing is left of the burst before
  have none : r.pipe.rLeft = 0 := by
    have out := mt burst.mpr (by rcases before with state | state <;> simp [state, DataPath.ofMovementTop])
    omega
  have owes := inv.owes
  cases fsm : r.mem.rState with
  | idle => exact ⟨rfl, by simp [SysMem.out, fsm]⟩
  | issue =>
    simp only [SysMem.ReadOwes, fsm] at owes
    omega

/-- That beat is shown, and it is the last one when one is left. -/
theorem Inv.beat (inv : Inv ring r) (memWords : Nat)
    (reads : r.pipe.core.mt.engines.axi.state = .dfR ∨ r.pipe.core.mt.engines.axi.state = .dmRdR) :
    (SysMem.out memWords r.mem).rvalid = true ∧
      (SysMem.out memWords r.mem).rlast = decide (r.pipe.rLeft = 1) := by
  have valid : (SysMem.out memWords r.mem).rvalid = true := beq_iff_eq.mpr (inv.issues reads).1
  exact ⟨valid, (SysMem.slaveLegal_out inv.owes valid).2⟩

/-- The read in progress is the one of the next slot. -/
theorem Inv.fetching (inv : Inv ring r) (state : r.pipe.core.mt.engines.axi.state = .dfR) :
    r.pipe.reads.current.addr.toNat / 4 = ring.slotWord r.pipe.reads.finished.length ∧
      r.pipe.reads.finished.length < r.posting.posted ∧
      r.pipe.reads.current.words.length + r.pipe.rLeft = 4 := by
  have held := inv.pipe.reads_held
  simp only [AxiMaster.heldAddr, state] at held
  have here : (r.pipe.reads.finished.map DescRead.addr ++ [r.pipe.reads.current.addr])[
      r.pipe.reads.finished.length]? = some r.pipe.reads.current.addr := by
    rw [List.getElem?_append_right (by simp)]
    simp
  obtain ⟨slot, posted⟩ := inv.request (Pipeline.getElem?_of_initial held here)
  have burst := inv.pipe.fetches.burst
  simp only [AxiMaster.FetchBurst, state] at burst
  exact ⟨slot, posted, burst.1⟩

/-- The word on the bus is the next word of the slot. -/
theorem Fetched.word (fetched : Fetched ring r) (inv : Inv ring r) (kept : Kept ring r)
    (state : r.pipe.core.mt.engines.axi.state = .dfR) :
    (SysMem.out ring.memWords r.mem).rdata =
      ring.readWord (ring.slotWord r.pipe.reads.finished.length +
        r.pipe.reads.current.words.length) := by
  obtain ⟨issue, -, left⟩ := inv.issues (.inl state)
  obtain ⟨slot, posted, four⟩ := inv.fetching state
  obtain ⟨addr, beat⟩ := fetched.beat state
  have word : SysMem.beatWord r.mem.rAddr r.mem.rBeat =
      ring.slotWord r.pipe.reads.finished.length + r.pipe.reads.current.words.length := by
    rw [SysMem.beatWord_eq, addr, beat, BitVec.toNat_ushiftRight, Nat.shiftRight_eq_div_pow, ← slot]
  rw [SysMem.out, if_pos issue, SysMem.rdata, word, kept _ posted _ (by omega)]
  rfl

/-- The fetch state is entered with the AR handshake and kept until `rlast`. -/
theorem dfR_of_next {s : AxiMaster.State} {i : AxiMaster.In} (next : (AxiMaster.next s i).state = .dfR) :
    s.state = .dfAr ∧ i.axi.arready = true ∨
      s.state = .dfR ∧ (i.axi.rvalid = true → i.axi.rlast = false) := by
  cases state : s.state <;> grind [AxiMaster.next_state]

/-- A cycle that is no beat of a fetch leaves the finished reads. -/
theorem finished_of_other (other : r.pipe.core.mt.engines.axi.state ≠ .dfR) (memWords : Nat) (csr : RingManager.CsrIn) :
    (r.step memWords csr).pipe.reads.finished = r.pipe.reads.finished := by
  change (AxiMaster.Reads.step _ _ _ _).finished = _
  unfold AxiMaster.Reads.step
  split
  · rfl
  · rw [if_neg (fun both => other both.1)]

theorem reads_of_dfR (inv : Inv ring r) (state : r.pipe.core.mt.engines.axi.state = .dfR)
    (memWords : Nat) (csr : RingManager.CsrIn) :
    let read : DescRead := ⟨r.pipe.reads.current.addr,
      r.pipe.reads.current.words ++ [(SysMem.out memWords r.mem).rdata]⟩
    (r.step memWords csr).pipe.reads =
      if r.pipe.rLeft = 1 then { r.pipe.reads with finished := r.pipe.reads.finished ++ [read] }
      else { r.pipe.reads with current := read } := by
  obtain ⟨valid, last⟩ := inv.beat memWords (.inl state)
  have takes : rHs (r.axiOut memWords csr).axi (SysMem.out memWords r.mem) = true := by
    rw [rHs, valid, axiOut, MovementTop.axiOut, Engines.axiOut, AxiMaster.out_eq, state]
    rfl
  change AxiMaster.Reads.step r.pipe.reads r.pipe.core.mt.engines.axi (r.axiOut memWords csr).axi
    (SysMem.out memWords r.mem) = _
  rw [AxiMaster.Reads.step, if_neg (by simp [state]), if_pos ⟨state, takes⟩, last]
  by_cases one : r.pipe.rLeft = 1 <;> simp [one]

theorem arvalid_of_dfAr (state : r.pipe.core.mt.engines.axi.state = .dfAr) (memWords : Nat) (csr : RingManager.CsrIn) :
    (r.axiOut memWords csr).axi.arvalid = true := by
  rw [axiOut, MovementTop.axiOut, Engines.axiOut, AxiMaster.arvalid_eq, state]
  rfl

theorem reads_of_dfAr {memWords : Nat} (state : r.pipe.core.mt.engines.axi.state = .dfAr)
    (ready : (SysMem.out memWords r.mem).arready = true) :
    (r.step memWords csr).pipe.reads =
      { r.pipe.reads with current := ⟨(r.axiOut memWords csr).axi.araddr, []⟩ } := by
  have opens : arHs (r.axiOut memWords csr).axi (SysMem.out memWords r.mem) = true :=
    Bool.and_eq_true_iff.mpr ⟨arvalid_of_dfAr state memWords csr, ready⟩
  change AxiMaster.Reads.step _ _ (r.axiOut memWords csr).axi _ = _
  exact if_pos ⟨state, opens⟩

/-- A fetch goes on only before its last beat. -/
theorem Inv.more (inv : Inv ring r) {memWords : Nat}
    (state : r.pipe.core.mt.engines.axi.state = .dfR)
    (stays : (SysMem.out memWords r.mem).rvalid = true → (SysMem.out memWords r.mem).rlast = false) :
    r.pipe.rLeft ≠ 1 := by
  obtain ⟨valid, last⟩ := inv.beat memWords (.inl state)
  intro one
  rw [stays valid, one] at last
  exact absurd last (by decide)

theorem rBurst_of_dfR (inv : Inv ring r) (state : r.pipe.core.mt.engines.axi.state = .dfR)
    (more : r.pipe.rLeft ≠ 1) (memWords : Nat) (csr : RingManager.CsrIn) :
    (r.step memWords csr).mem.rAddr = r.mem.rAddr ∧
      (r.step memWords csr).mem.rBeat.toNat = r.mem.rBeat.toNat + 1 := by
  obtain ⟨issue, owes, left⟩ := inv.issues (.inl state)
  obtain ⟨addr, beat⟩ := @SysMem.rBurst_step memWords r.mem (r.axiOut memWords csr).axi
    { wrEn := false, addr := 0, wdata := 0 }
  have ready : (r.axiOut memWords csr).axi.rready = true := by
    rw [axiOut, MovementTop.axiOut, Engines.axiOut, AxiMaster.out_eq, state]
    rfl
  have bound := r.mem.rLastBeat.isLt
  have differs : r.mem.rBeat ≠ r.mem.rLastBeat := fun same => by
    have := congrArg BitVec.toNat same
    omega
  rw [if_neg (by simp [issue])] at addr
  rw [if_neg (by simp [issue]), if_pos ⟨issue, ready, differs⟩] at beat
  refine ⟨addr, (congrArg BitVec.toNat beat).trans ?_⟩
  rw [BitVec.toNat_add]
  exact Nat.mod_eq_of_lt (by change r.mem.rBeat.toNat + 1 < 256; omega)

/-! ## One cycle -/

theorem Fetched.finished_step (fetched : Fetched ring r) (inv : Inv ring r) (kept : Kept ring r) {n : Nat}
    {read : DescRead} (known : (r.step ring.memWords csr).pipe.reads.finished[n]? = some read) :
    read.words = ring.slotWords n := by
  by_cases state : r.pipe.core.mt.engines.axi.state = .dfR
  · rw [reads_of_dfR inv state] at known
    split at known
    · -- the last beat completes the four words
      rename_i one
      obtain ⟨-, -, four⟩ := inv.fetching state
      have words : r.pipe.reads.current.words ++ [(SysMem.out ring.memWords r.mem).rdata] =
          ring.slotWords r.pipe.reads.finished.length := by
        rw [fetched.word inv kept state, fetched.current state, List.length_take,
          PostedRing.length_slotWords, Nat.min_eq_left (by omega),
          ← PostedRing.take_slotWords_succ (by omega)]
        exact List.take_of_length_le (by rw [PostedRing.length_slotWords]; omega)
      rcases Nat.lt_or_ge n r.pipe.reads.finished.length with old | new
      · rw [List.getElem?_append_left old] at known
        exact fetched.finished n read known
      · rw [List.getElem?_append_right new, List.getElem?_singleton] at known
        split at known
        · obtain rfl := Option.some.inj known
          obtain rfl : n = r.pipe.reads.finished.length := by omega
          exact words
        · cases known
    · exact fetched.finished n read known
  · rw [finished_of_other state] at known
    exact fetched.finished n read known

theorem Fetched.beat_step (fetched : Fetched ring r) (inv : Inv ring r)
    (state : (r.step ring.memWords csr).pipe.core.mt.engines.axi.state = .dfR) :
    (r.step ring.memWords csr).mem.rAddr = (r.step ring.memWords csr).pipe.reads.current.addr ∧
      (r.step ring.memWords csr).mem.rBeat.toNat =
        (r.step ring.memWords csr).pipe.reads.current.words.length := by
  rcases dfR_of_next state with ⟨early, ready⟩ | ⟨early, stays⟩
  · -- the AR handshake
    obtain ⟨idle, -⟩ := inv.arready ring.memWords (.inl early)
    obtain ⟨addr, beat⟩ := @SysMem.rBurst_step ring.memWords r.mem (r.axiOut ring.memWords csr).axi
      { wrEn := false, addr := 0, wdata := 0 }
    have valid := arvalid_of_dfAr early ring.memWords csr
    rw [if_pos ⟨idle, valid⟩] at addr beat
    rw [reads_of_dfAr early ready]
    exact ⟨addr, congrArg BitVec.toNat beat⟩
  · have more := inv.more early stays
    obtain ⟨addr, beat⟩ := rBurst_of_dfR inv early more ring.memWords csr
    obtain ⟨before, count⟩ := fetched.beat early
    rw [reads_of_dfR inv early, if_neg more, addr, beat, count, before, List.length_append]
    exact ⟨rfl, rfl⟩

theorem Fetched.current_step (fetched : Fetched ring r) (inv : Inv ring r) (kept : Kept ring r)
    (state : (r.step ring.memWords csr).pipe.core.mt.engines.axi.state = .dfR) :
    (r.step ring.memWords csr).pipe.reads.current.words =
      (ring.slotWords (r.step ring.memWords csr).pipe.reads.finished.length).take
        (r.step ring.memWords csr).pipe.reads.current.words.length := by
  obtain ⟨addr, beat⟩ := fetched.beat_step inv state
  rcases dfR_of_next state with ⟨early, ready⟩ | ⟨early, stays⟩
  · -- a read that has begun has no words
    rw [reads_of_dfAr early ready]
    rfl
  · have more := inv.more early stays
    obtain ⟨-, -, left⟩ := inv.issues (.inl early)
    obtain ⟨-, -, four⟩ := inv.fetching early
    rw [reads_of_dfR inv early, if_neg more, fetched.word inv kept early]
    have near : r.pipe.reads.current.words.length < 4 := by omega
    rw [List.length_append, List.length_singleton, PostedRing.take_slotWords_succ near,
      ← fetched.current early]

theorem Fetched.step (fetched : Fetched ring r) (inv : Inv ring r) (kept : Kept ring r)
    (csr : RingManager.CsrIn) : Fetched ring (r.step ring.memWords csr) where
  finished _ _ := fetched.finished_step inv kept
  beat := fetched.beat_step inv
  current := fetched.current_step inv kept

/-! ## What is popped -/

/-- The descriptors popped are the first ones posted. -/
theorem Fetched.popped (fetched : Fetched ring r) (inv : Inv ring r) :
    r.pipe.popped = ring.descs r.pipe.popped.length ∧ r.pipe.popped.length ≤ r.posting.posted := by
  have initial := inv.pipe.popped_initial
  -- a finished read packs to the descriptor of its slot
  have all : r.pipe.reads.finished.map (packDesc ∘ DescRead.words) =
      ring.descs r.pipe.reads.finished.length := by
    refine List.ext_getElem? fun n => ?_
    rcases Nat.lt_or_ge n r.pipe.reads.finished.length with inside | beyond
    · have read := List.getElem?_eq_getElem inside
      rw [List.getElem?_map, read, PostedRing.getElem?_descs inside, Option.map_some,
        Function.comp_apply, fetched.finished n _ read, PostedRing.slotDesc]
    · rw [List.getElem?_eq_none (by simpa using beyond), List.getElem?_eq_none (by simpa using beyond)]
  rw [all] at initial
  have le := initial.length_le
  rw [PostedRing.length_descs] at le
  have accepted := inv.pipe.reads_initial.length_le
  rw [List.length_map] at accepted
  have posted := inv.accepted_le
  refine ⟨?_, by omega⟩
  have eq := List.prefix_iff_eq_take.mp initial
  rwa [PostedRing.take_descs le] at eq

/-- No good descriptor raises `df_error`. -/
theorem Fetched.errors (fetched : Fetched ring r) (inv : Inv ring r) (small : addrWidth ≤ 16)
    (good : ring.AllGood addrWidth r.posting.posted) : r.pipe.errors = [] := by
  obtain ⟨popped, le⟩ := fetched.popped inv
  rw [inv.pipe.errors, List.filter_eq_nil_iff, popped]
  intro d member
  obtain ⟨n, less, rfl⟩ := PostedRing.mem_descs.mp member
  rw [(good n (by omega)).inRange small]
  exact Bool.false_ne_true

/-- The pairs sent are those of the first descriptors posted. -/
theorem Fetched.paired (fetched : Fetched ring r) (inv : Inv ring r) (small : addrWidth ≤ 16)
    (good : ring.AllGood addrWidth r.posting.posted) :
    r.pipe.paired = ring.descs r.pipe.paired.length ∧ r.pipe.paired.length ≤ r.posting.posted := by
  obtain ⟨popped, le⟩ := fetched.popped inv
  have none := fetched.errors inv small good
  have initial := inv.pipe.paired_initial
  -- without an error everything popped goes on
  have goods : r.pipe.goods = r.pipe.popped := by
    rw [inv.pipe.errors, List.filter_eq_nil_iff] at none
    refine List.filter_eq_self.mpr fun d member => ?_
    simpa using none d member
  rw [goods, popped] at initial
  have shorter := initial.length_le
  rw [PostedRing.length_descs] at shorter
  have eq := List.prefix_iff_eq_take.mp initial
  rw [PostedRing.take_descs shorter] at eq
  exact ⟨eq, by omega⟩

end ClosedCore

end AxiDma.Verified
