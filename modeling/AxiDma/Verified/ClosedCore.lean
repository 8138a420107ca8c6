import AxiDma.Verified.Chain
import AxiDma.Verified.ExactlyOnce
import AxiDma.Verified.MemoryCopy
import AxiDma.Verified.PostedQueue

/-! # The core with its system memory

`ClosedCore` is `ring_manager`, `movement_top` and `sys_mem` after the handover of the
memories, so that what the CSR block drives is all that comes from outside.  `Pipeline`,
`Chain` and `Posting` are the logs of one and the same run, which `Views` says.
-/

namespace AxiDma.Verified

open AxiDma.Lib AxiDma.Rtl

/-! ## The block a pair writes -/

/-- Word `i` of the system memory lies in the destination. -/
def WritesRam (p : Pair) (i : Nat) : Prop :=
  p.toSram = false ∧ Job.memBase p ≤ i ∧ i < Job.memBase p + beats p.len

def WritesBram (p : Pair) (i : Nat) : Prop :=
  p.toSram = true ∧ Transfer.firstWord p ≤ i ∧ i < Transfer.firstWord p + beats p.len

instance (p : Pair) (i : Nat) : Decidable (WritesRam p i) := inferInstanceAs (Decidable (_ ∧ _))

instance (memWords addrWidth : Nat) (p : Pair) : Decidable (Fits memWords addrWidth p) :=
  decidable_of_iff (Job.memBase p + beats p.len ≤ memWords ∧
      Transfer.firstWord p + beats p.len ≤ 2 ^ addrWidth ∧ (p.toSram = false → p.len ≠ 0))
    ⟨fun ⟨mem, bram, length⟩ => ⟨mem, bram, length⟩, fun fits => ⟨fits.mem, fits.bram, fits.some⟩⟩

/-! ## The ring in memory -/

/-- A ring, and the system memory as it is handed over. -/
structure PostedRing where
  memWords : Nat
  baseaddr : Word
  ringlen : Word
  ram : Nat → Word
  pos : 0 < ringlen.toNat

namespace PostedRing

/-- First word of the slot of descriptor `n`. -/
def slotWord (ring : PostedRing) (n : Nat) : Nat :=
  Posting.slotAddr ring.baseaddr ring.ringlen.toNat n / 4

/-- A word as `sys_mem` reads it: 0 past the end. -/
def readWord (ring : PostedRing) (i : Nat) : Word := if i < ring.memWords then ring.ram i else 0

def slotWords (ring : PostedRing) (n : Nat) : List Word :=
  (List.range 4).map fun j => ring.readWord (ring.slotWord n + j)

/-- Descriptor `n`, as its slot holds it. -/
def slotDesc (ring : PostedRing) (n : Nat) : Desc := packDesc (ring.slotWords n)

/-- The first `n` descriptors. -/
def descs (ring : PostedRing) (n : Nat) : List Desc := (List.range n).map ring.slotDesc

/-- What software owes for a descriptor when `posted` slots are in use: both blocks lie in
    their memories, a write has a length, and it does not hit one of these slots. -/
structure Good (ring : PostedRing) (addrWidth posted : Nat) (d : Desc) : Prop where
  fits : Fits ring.memWords addrWidth (pairOf d)
  apart : ∀ n < posted, ∀ j < 4, ¬ WritesRam (pairOf d) (ring.slotWord n + j)

def AllGood (ring : PostedRing) (addrWidth posted : Nat) : Prop :=
  ∀ n < posted, ring.Good addrWidth posted (ring.slotDesc n)

instance (ring : PostedRing) (addrWidth posted : Nat) (d : Desc) :
    Decidable (ring.Good addrWidth posted d) :=
  decidable_of_iff (Fits ring.memWords addrWidth (pairOf d) ∧
      ∀ n < posted, ∀ j < 4, ¬ WritesRam (pairOf d) (ring.slotWord n + j))
    ⟨fun ⟨fits, apart⟩ => ⟨fits, apart⟩, fun good => ⟨good.fits, good.apart⟩⟩

instance (ring : PostedRing) (addrWidth posted : Nat) : Decidable (ring.AllGood addrWidth posted) :=
  inferInstanceAs (Decidable (∀ n < posted, _))

variable {ring : PostedRing} {addrWidth posted n : Nat} {d : Desc}

@[simp] theorem length_slotWords : (ring.slotWords n).length = 4 := by simp [slotWords]

@[simp] theorem length_descs : (ring.descs n).length = n := by simp [descs]

theorem getElem?_descs (less : n < posted) : (ring.descs posted)[n]? = some (ring.slotDesc n) := by
  simp [descs, less]

theorem mem_descs : d ∈ ring.descs posted ↔ ∃ n < posted, ring.slotDesc n = d := by simp [descs]

theorem take_descs (le : n ≤ posted) : (ring.descs posted).take n = ring.descs n := by
  rw [descs, ← List.map_take, List.take_range, Nat.min_eq_left le, descs]

theorem AllGood.mono (good : ring.AllGood addrWidth posted) (le : n ≤ posted) :
    ring.AllGood addrWidth n := fun m less =>
  have here := good m (by omega)
  ⟨here.fits, fun j within => here.apart j (by omega)⟩

theorem lastWord_eq (d : Desc) :
    DescriptorFetcher.lastWord d = Transfer.firstWord (pairOf d) + (beats (pairOf d).len - 1) := by
  have word : (DescriptorFetcher.sramInstr d).addr.toNat / 4 = Transfer.firstWord (pairOf d) := by
    rw [DescriptorFetcher.sramInstr, narrow_decodeSram, Pair.sram, Transfer.firstWord,
      BitVec.toNat_ushiftRight, Nat.shiftRight_eq_div_pow]
  have len : (DescriptorFetcher.sramInstr d).len = (pairOf d).len := by
    rw [DescriptorFetcher.sramInstr, narrow_decodeSram, Pair.sram]
  rw [DescriptorFetcher.lastWord, word, len]

/-- The check of `descriptor_fetcher` passes what lies in a BRAM of up to `2 ^ 16` words. -/
theorem Good.inRange (good : ring.Good addrWidth posted d) (small : addrWidth ≤ 16) :
    DescriptorFetcher.outOfRange d = false := by
  have fits := good.fits.bram
  have wide : 2 ^ addrWidth ≤ 2 ^ 16 := Nat.pow_le_pow_right (by decide) small
  have pos := beats_pos (pairOf d).len
  rw [DescriptorFetcher.outOfRange_eq_false_iff, lastWord_eq, maxSramAddr]
  omega

end PostedRing

/-! ## The closed system -/

structure ClosedCore (k addrWidth : Nat) where
  pipe : Pipeline k addrWidth
  chain : Chain k addrWidth
  posting : Posting maxInflight
  mem : Rtl.SysMem.State

namespace ClosedCore

variable {k addrWidth : Nat}

/-- `sys_mem` is the slave, and both init ports are at rest with `init_done` set. -/
def coreIn (memWords : Nat) (r : ClosedCore k addrWidth) (csr : RingManager.CsrIn) :
    DmaCore.In addrWidth :=
  { csr, axi := SysMem.out memWords r.mem
    init := { initDone := true, addr := 0, wrEn := false, din := 0 } }

def pathIn (memWords : Nat) (r : ClosedCore k addrWidth) (csr : RingManager.CsrIn) :
    DataPath.In addrWidth :=
  DataPath.inOfMovementTop r.pipe.core.mt (DmaCore.mtIn r.pipe.core (r.coreIn memWords csr))

def axiOut (memWords : Nat) (r : ClosedCore k addrWidth) (csr : RingManager.CsrIn) : AxiMaster.Out :=
  MovementTop.axiOut r.pipe.core.mt (DmaCore.mtIn r.pipe.core (r.coreIn memWords csr))

def step (memWords : Nat) (r : ClosedCore k addrWidth) (csr : RingManager.CsrIn) :
    ClosedCore k addrWidth :=
  { pipe := r.pipe.step (r.coreIn memWords csr)
    chain := r.chain.step (r.pathIn memWords csr)
    posting := r.posting.step (DmaCore.rmIn r.pipe.core (r.coreIn memWords csr))
    mem := SysMem.step memWords r.mem (r.axiOut memWords csr).axi
      { wrEn := false, addr := 0, wdata := 0 } }

/-- All modules after reset. -/
def start (s : DmaCore.State k addrWidth) (mem : Rtl.SysMem.State) : ClosedCore k addrWidth :=
  { pipe := Pipeline.start s, chain := Chain.start (DataPath.ofMovementTop s.mt)
    posting := Posting.start maxInflight, mem := Rtl.SysMem.reset mem }

/-- The descriptors posted up to this cycle. -/
def postedNow (r : ClosedCore k addrWidth) (csr : RingManager.CsrIn) : Nat :=
  r.posting.posted + slotDistance csr.ringlen.toNat r.posting.tail.toNat csr.tail.toNat

/-- No soft reset, a fixed ring, TAIL moves by the producer's rule, and what is posted is
    good.  ENABLE, the interrupt enable and the error clear are free in every cycle. -/
structure Legal (ring : PostedRing) (r : ClosedCore k addrWidth) (csr : RingManager.CsrIn) :
    Prop where
  noReset : csr.reset = false
  base : csr.baseaddr = ring.baseaddr
  length : csr.ringlen = ring.ringlen
  tailMove : TailMove ring.ringlen.toNat r.posting.rm.head r.posting.tail csr.tail
  good : ring.AllGood addrWidth (r.postedNow csr)

instance (ring : PostedRing) (r : ClosedCore k addrWidth) (csr : RingManager.CsrIn) :
    Decidable (Legal ring r csr) :=
  decidable_of_iff
    (csr.reset = false ∧ csr.baseaddr = ring.baseaddr ∧ csr.ringlen = ring.ringlen ∧
      TailMove ring.ringlen.toNat r.posting.rm.head r.posting.tail csr.tail ∧
      ring.AllGood addrWidth (r.postedNow csr))
    ⟨fun ⟨noReset, base, length, tailMove, good⟩ => ⟨noReset, base, length, tailMove, good⟩,
      fun legal => ⟨legal.noReset, legal.base, legal.length, legal.tailMove, legal.good⟩⟩

/-! ## One run, three logs -/

structure Views (r : ClosedCore k addrWidth) : Prop where
  path : r.chain.path = DataPath.ofMovementTop r.pipe.core.mt
  rLeft : r.chain.job.rLeft = r.pipe.rLeft
  sent : r.chain.sent = r.pipe.paired
  dmAxi : r.chain.dmAxi = r.pipe.dmAxi
  dmSram : r.chain.dmSram = r.pipe.dmSram
  finished : r.chain.finished = r.pipe.finished
  rm : r.posting.rm = r.pipe.core.rm
  requests : r.posting.requests = r.pipe.accepted

/-- The write FSM of the memory, beside the states of the AXI master. -/
def Follows (s : AxiMaster.State) (mem : Rtl.SysMem.State) : Prop :=
  match s.state with
  | .dmWrW => mem.wState = .data
  | .dmWrB => mem.wState = .resp ∨ mem.wState = .idle ∧ mem.bvalid = true
  | _ => mem.wState = .idle

/-- The three logs keep their invariants, and the memory follows the master. -/
structure Inv (ring : PostedRing) (r : ClosedCore k addrWidth) : Prop where
  views : Views r
  pipe : Pipeline.Inv r.pipe
  chain : Chain.Inv r.chain
  posting : Posting.Inv ring.baseaddr ring.ringlen r.posting
  owes : SysMem.ReadOwes r.mem r.pipe.rLeft
  follows : Follows r.pipe.core.mt.engines.axi r.mem

variable {ring : PostedRing} {r : ClosedCore k addrWidth} {csr : RingManager.CsrIn} {memWords : Nat}

theorem inv_start (ring : PostedRing) (s : DmaCore.State k addrWidth) (mem : Rtl.SysMem.State) :
    Inv ring (start s mem) where
  views := ⟨rfl, rfl, rfl, rfl, rfl, rfl, rfl, rfl⟩
  pipe := Pipeline.inv_start s
  chain := Chain.inv_start _
  posting := Posting.inv_start ring.pos
  owes := rfl
  follows := rfl

/-! ## One cycle -/

theorem Inv.pipeLegal (inv : Inv ring r) (legal : Legal ring r csr) :
    Pipeline.Legal r.pipe (r.coreIn memWords csr) :=
  ⟨legal.noReset, SysMem.slaveLegal_out inv.owes⟩

theorem Inv.chainLegal (inv : Inv ring r) (memWords : Nat) (csr : RingManager.CsrIn) :
    Chain.Legal r.chain (r.pathIn memWords csr) := by
  rw [Chain.Legal, inv.views.rLeft]
  exact SysMem.slaveLegal_out inv.owes

theorem Legal.posting (legal : Legal ring r csr) : Posting.Legal ring.baseaddr ring.ringlen r.posting
    (DmaCore.rmIn r.pipe.core (r.coreIn memWords csr)) :=
  ⟨rfl, legal.noReset, legal.base, legal.length, legal.tailMove⟩

/-- The engines of both logs. -/
theorem Inv.eng (inv : Inv ring r) : r.chain.job.eng = r.pipe.core.mt.engines := by
  rw [inv.chain.same, inv.views.path]
  rfl

theorem Inv.views_step (inv : Inv ring r) (memWords : Nat) : Views (r.step memWords csr) := by
  obtain ⟨path, rLeft, sent, dmAxi, dmSram, finished, rm, requests⟩ := inv.views
  have eng := inv.eng
  constructor
  · change DataPath.step r.chain.path _ = _
    rw [path]
    rfl
  · change (Chain.step _ _).job.rLeft = _
    rw [Chain.rLeft_step, Transfer.step, eng, rLeft, path]
    rfl
  · change _ ++ _ = _ ++ _
    rw [sent, path]
    rfl
  · change Logged.step _ _ _ = Logged.step _ _ _
    rw [dmAxi, path]
    rfl
  · change Logged.step _ _ _ = Logged.step _ _ _
    rw [dmSram, path]
    rfl
  · change _ + _ = _ + _
    rw [finished, Chain.done, path]
    rfl
  · change RingManager.step _ _ = RingManager.step _ _
    rw [rm]
  · change _ ++ _ = _ ++ _
    rw [requests, rm]
    rfl

theorem follows_step {s : AxiMaster.State} {i : AxiMaster.In} {mem : Rtl.SysMem.State}
    {init : Rtl.SysMem.Init} (follows : Follows s mem) (slave : i.axi = SysMem.out memWords mem) :
    Follows (AxiMaster.next s i) (SysMem.step memWords mem (AxiMaster.out s i).axi init) := by
  unfold Follows at *
  rw [SysMem.wState_step, SysMem.bvalid_step]
  cases state : s.state with
  | idle =>
    cases fetch : i.dfInEmpty <;> cases instr : i.dmInEmpty <;>
      simp_all [AxiMaster.next_state, AxiMaster.out_eq]
  | dfGet => simp_all [AxiMaster.next_state, AxiMaster.out_eq]
  | dfAr => cases ready : i.axi.arready <;> simp_all [AxiMaster.next_state, AxiMaster.out_eq]
  | dfR =>
    cases valid : i.axi.rvalid <;> cases last : i.axi.rlast <;>
      simp_all [AxiMaster.next_state, AxiMaster.out_eq]
  | dfPush => cases full : i.dfOutFull <;> simp_all [AxiMaster.next_state, AxiMaster.out_eq]
  | dmGet =>
    cases rw : i.dmInDout.rw <;> simp_all [AxiMaster.next_state, AxiMaster.out_eq]
  | dmRdAr =>
    cases ready : i.axi.arready <;> simp_all [AxiMaster.next_state, AxiMaster.out_eq]
  | dmRdR =>
    cases valid : i.axi.rvalid <;> cases full : i.midFull <;> cases last : i.axi.rlast <;>
      simp_all [AxiMaster.next_state, AxiMaster.out_eq]
  | dmWrAw => simp_all [AxiMaster.next_state, AxiMaster.out_eq, SysMem.out]
  | dmWrW =>
    -- the memory takes every beat, and both leave the data state with the last one
    have ready : i.axi.wready = true := by simp_all [SysMem.out]
    cases empty : i.midEmpty <;> by_cases last : s.beatIdx = s.curLen - 1 <;>
      simp_all [AxiMaster.next_state, AxiMaster.out_eq]
  | dmWrB =>
    -- `bvalid` is a register, one cycle behind the FSM
    have valid : i.axi.bvalid = mem.bvalid := by simp_all [SysMem.out]
    simp only [state] at follows
    cases answered : mem.bvalid <;> rcases follows with resp | ⟨idle, shown⟩ <;>
      simp_all [AxiMaster.next_state, AxiMaster.out_eq]
  | waitSram => cases done : i.sramDone <;> simp_all [AxiMaster.next_state, AxiMaster.out_eq]

theorem Inv.step (inv : Inv ring r) (legal : Legal ring r csr) (memWords : Nat) :
    Inv ring (r.step memWords csr) where
  views := inv.views_step memWords
  pipe := inv.pipe.step (inv.pipeLegal legal)
  chain := inv.chain.step (inv.chainLegal memWords csr)
  posting := inv.posting.step legal.posting
  owes := SysMem.readOwes_step memWords (r.axiOut memWords csr).axi _ inv.owes
  follows := follows_step inv.follows rfl

/-! ## What the logs say together -/

/-- Request `n` went to slot `n`, which was posted. -/
theorem Inv.request (inv : Inv ring r) {n : Nat} {a : Word} (known : r.pipe.accepted[n]? = some a) :
    a.toNat / 4 = ring.slotWord n ∧ n < r.posting.posted := by
  rw [← inv.views.requests] at known
  have count := (List.getElem?_eq_some_iff.mp known).1
  have le := inv.posting.view.le
  rw [inv.posting.requests n a known]
  exact ⟨rfl, by omega⟩

theorem Inv.accepted_le (inv : Inv ring r) : r.pipe.accepted.length ≤ r.posting.posted := by
  rw [← inv.views.requests]
  exact inv.posting.view.le

/-- The requests that are in flight are a window over the finished ones. -/
theorem Inv.window (inv : Inv ring r) (none : r.pipe.errors = []) :
    r.pipe.accepted.length ≤ r.pipe.finished + 4 := by
  have balance := inv.pipe.accepted_eq
  have few := inv.pipe.inside_le
  have answered := inv.pipe.answered
  have counted := inv.pipe.counted
  rw [none, List.length_nil] at answered
  omega

end ClosedCore

end AxiDma.Verified
