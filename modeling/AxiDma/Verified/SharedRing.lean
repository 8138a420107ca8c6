import AxiDma.Verified.ExactlyOnce
import AxiDma.Verified.RingPointers

/-! # The descriptor ring in memory (`csr_spec.md`, Ring Buffer Overview)

The core reads descriptors from a memory that the CPU fills under the documented rule:
it writes the four words of slot TAIL and advances TAIL unless `(TAIL + 1) % RINGLEN`
is HEAD.  HEAD moves when a request is issued, not when its descriptor has been read, so
the rule alone lets the CPU overwrite a slot too early (`unread_slot_overwritten`).  A CPU
that leaves room for the requests in flight, or that has seen the engine idle, cannot
(`Reserves`), and the words read are then the words posted (`reads_posted`).
-/

namespace AxiDma.Verified

open AxiDma.Lib AxiDma.Rtl

/-! ## Descriptor reads -/

namespace AxiMaster

open AxiDma.Rtl.AxiMaster

/-- What a cycle does to the descriptor reads. -/
inductive ReadStep (s : State) (o : Axi4Slave) (r : Reads) (s' : State) (r' : Reads) : Prop
  | opens (before : s.state = .dfAr) (ready : o.arready = true) (after : s'.state = .dfR)
      (finished : r'.finished = r.finished) (current : r'.current = ⟨s.curAddr, []⟩)
  | beat (before : s.state = .dfR) (valid : o.rvalid = true) (after : s'.state = .dfR)
      (finished : r'.finished = r.finished)
      (current : r'.current = ⟨r.current.addr, r.current.words ++ [o.rdata]⟩)
  | last (before : s.state = .dfR) (valid : o.rvalid = true) (after : s'.state = .dfPush)
      (finished : r'.finished =
        r.finished ++ [⟨r.current.addr, r.current.words ++ [o.rdata]⟩])
      (four : r.current.words.length = 3)
  | quiet (state : s'.state = .dfR ↔ s.state = .dfR) (closed : s.state = .dfR → o.rvalid = false)
      (shut : s.state = .dfAr → o.arready = false) (reads : r' = r)

theorem readStep {s : State} {i : In} {r : Reads} {rLeft : Nat} (burst : FetchBurst s r rLeft)
    (slave : SlaveLegal rLeft i.axi) :
    ReadStep s i.axi r (next s i) (r.step s (out s i).axi i.axi) := by
  cases state : s.state with
  | dfAr =>
    cases ready : i.axi.arready with
    | true =>
      refine .opens state ready ?_ ?_ ?_ <;>
        simp [next, out, comb, defaultOut, Reads.step, arHs, state, ready]
    | false =>
      refine .quiet ?_ ?_ (fun _ => ready) ?_ <;>
        simp [next, comb, Reads.step, arHs, state, ready]
  | dfR =>
    cases valid : i.axi.rvalid with
    | true =>
      have final := (slave valid).2
      simp only [FetchBurst, state] at burst
      cases rlast : i.axi.rlast with
      | true =>
        have one : rLeft = 1 := by simpa [rlast] using final.symm
        refine .last state valid ?_ ?_ (by omega) <;>
          simp [next, out, comb, Reads.step, arHs, rHs, state, valid, rlast]
      | false =>
        refine .beat state valid ?_ ?_ ?_ <;>
          simp [next, out, comb, Reads.step, arHs, rHs, state, valid, rlast]
    | false =>
      refine .quiet ?_ (fun _ => valid) ?_ ?_ <;>
        simp [next, comb, Reads.step, rHs, state, valid]
  | idle | dfGet | dfPush | dmGet | dmRdAr | dmRdR | dmWrAw | dmWrW | dmWrB | waitSram =>
    have elsewhere : (next s i).state ≠ .dfR := by grind [next, comb]
    refine .quiet ?_ ?_ ?_ ?_ <;> simp [Reads.step, state, elsewhere]

end AxiMaster

/-! ## Addresses -/

/-- Address of word `j` of slot `s`. -/
def slotWord (base s : Word) (j : Nat) : Word := base + s * descriptorSize + BitVec.ofNat 32 (4 * j)

/-- Address of the `m`-th word of the ring: word `m % 4` of the `m / 4`-th descriptor. -/
def ringWord (base ringlen : Word) (m : Nat) : Word :=
  base + BitVec.ofNat 32 (4 * (m % (4 * ringlen.toNat)))

theorem four_mul_add_mod {L n j : Nat} (pos : 0 < L) (word : j < 4) :
    (4 * n + j) % (4 * L) = 4 * (n % L) + j := by
  have bound := Nat.mod_lt n pos
  have split : 4 * n + j = 4 * (n % L) + j + 4 * L * (n / L) := by
    have turns := congrArg (4 * ·) (Nat.mod_add_div n L)
    simp only [Nat.mul_add] at turns
    rw [Nat.mul_assoc]
    omega
  rw [split, Nat.add_mul_mod_self_left, Nat.mod_eq_of_lt (by omega)]

/-- Slot `n % RINGLEN` holds the words `4 n` to `4 n + 3`. -/
theorem slotWord_eq {base ringlen s : Word} {n j : Nat} (pos : 0 < ringlen.toNat) (word : j < 4)
    (slot : s.toNat = n % ringlen.toNat) :
    slotWord base s j = ringWord base ringlen (4 * n + j) := by
  have index : s * descriptorSize + BitVec.ofNat 32 (4 * j) =
      BitVec.ofNat 32 (4 * (4 * (n % ringlen.toNat) + j)) := by
    have size : (16 : Word).toNat = 16 := rfl
    rw [← BitVec.toNat_inj, ← slot]
    simp only [descriptorSize, BitVec.toNat_add, BitVec.toNat_mul, BitVec.toNat_ofNat, size]
    omega
  rw [slotWord, ringWord, four_mul_add_mod pos word, BitVec.add_assoc, index]

/-- Within one turn, the words of a ring that fits the address space are apart. -/
theorem ringWord_ne {base ringlen : Word} (fits : ringlen.toNat ≤ 2 ^ 28) {lo hi : Nat}
    (before : lo < hi) (near : hi < lo + 4 * ringlen.toNat) :
    ringWord base ringlen lo ≠ ringWord base ringlen hi := by
  intro same
  have loBound := Nat.mod_lt lo (y := 4 * ringlen.toNat) (by omega)
  have hiBound := Nat.mod_lt hi (y := 4 * ringlen.toNat) (by omega)
  have offsets := congrArg BitVec.toNat ((BitVec.add_right_inj base).mp same)
  rw [BitVec.toNat_ofNat, BitVec.toNat_ofNat] at offsets
  have equal : hi % (4 * ringlen.toNat) = lo % (4 * ringlen.toNat) := by omega
  have := (mod_eq_mod_iff (Nat.le_of_lt before) near).mp equal
  omega

/-! ## CPU, memory and core -/

inductive CpuAct where
  | idle
  /-- Write word `j` of slot TAIL. -/
  | write (j : Fin 4) (w : Word)
  /-- Advance TAIL. -/
  | post
  deriving DecidableEq

structure SharedRing (k addrWidth : Nat) where
  pipe : Pipeline k addrWidth
  /-- The word an access at an address returns. -/
  mem : Word → Word
  /-- The memory in the cycles since the last descriptor read was accepted. -/
  seen : List (Word → Word)
  tail : Word
  /-- The value of HEAD the CPU read last. -/
  headRead : Word
  /-- STATUS was read with BUSY = 0, and HEAD not again since. -/
  idleRead : Bool
  posted : Nat
  /-- The `m`-th word of the ring, as the CPU wrote it last. -/
  written : Nat → Option Word

namespace SharedRing

structure In (addrWidth : Nat) where
  enable : Bool
  irqEn : Bool
  errorClear : Bool
  axi : Axi4Slave
  init : Engines.BramInit addrWidth
  act : CpuAct
  readHead : Bool
  readStatus : Bool
  /-- What payload transfers and others write to memory. -/
  elsewhere : Word → Option Word

variable {k addrWidth : Nat} (base ringlen : Word)

def start (s : DmaCore.State k addrWidth) (mem : Word → Word) : SharedRing k addrWidth :=
  { pipe := Pipeline.start s, mem := mem, seen := [], tail := 0, headRead := 0, idleRead := false,
    posted := 0, written := fun _ => none }

def coreIn (r : SharedRing k addrWidth) (i : In addrWidth) : DmaCore.In addrWidth :=
  { csr := { baseaddr := base, ringlen := ringlen, tail := r.tail, enable := i.enable,
             reset := false, irqEn := i.irqEn, errorClear := i.errorClear }
    axi := i.axi, init := i.init }

/-- The value of HEAD the CPU knows in this cycle. -/
def headSeen (r : SharedRing k addrWidth) (i : In addrWidth) : Word :=
  if i.readHead then r.pipe.core.rm.head else r.headRead

/-- BUSY was 0 when, or after, the CPU read the HEAD it knows in this cycle. -/
def idleSeen (r : SharedRing k addrWidth) (i : In addrWidth) : Bool :=
  (r.idleRead && !i.readHead) || (i.readStatus && !RingManager.busy r.pipe.core.rm)

/-- `(TAIL + 1) % RINGLEN`. -/
def tailNext (r : SharedRing k addrWidth) : Nat := (r.tail.toNat + 1) % ringlen.toNat

/-- Slots from the next TAIL up to the HEAD the CPU knows. -/
def slotsAhead (r : SharedRing k addrWidth) (i : In addrWidth) : Nat :=
  ((headSeen r i).toNat + (ringlen.toNat - tailNext ringlen r)) % ringlen.toNat

def memNext (r : SharedRing k addrWidth) (i : In addrWidth) : Word → Word :=
  let mem : Word → Word := fun a => (i.elsewhere a).getD (r.mem a)
  match i.act with
  | .write j w => Function.update mem (slotWord base r.tail j) w
  | _ => mem

/-- The AR handshake of a descriptor read. -/
def opensRead (r : SharedRing k addrWidth) (i : In addrWidth) : Bool :=
  r.pipe.core.mt.engines.axi.state == .dfAr && i.axi.arready

def step (r : SharedRing k addrWidth) (i : In addrWidth) : SharedRing k addrWidth :=
  { pipe := r.pipe.step (coreIn base ringlen r i)
    mem := memNext base r i
    seen := if opensRead r i then [r.mem] else r.mem :: r.seen
    tail := if i.act = .post then BitVec.ofNat 32 (tailNext ringlen r) else r.tail
    headRead := headSeen r i
    idleRead := idleSeen r i
    posted := if i.act = .post then r.posted + 1 else r.posted
    written :=
      match i.act with
      | .write j w => Function.update r.written (4 * r.posted + j) (some w)
      | _ => r.written }

/-- The slave keeps to the bursts, and returns for a word of a descriptor what the memory
    held there in some cycle since the read was accepted; nobody else writes into the
    ring; the CPU keeps to the rule. -/
structure Legal (r : SharedRing k addrWidth) (i : In addrWidth) : Prop where
  slave : SlaveLegal r.pipe.rLeft i.axi
  serves : r.pipe.core.mt.engines.axi.state = .dfR → i.axi.rvalid = true →
    ∃ mem ∈ r.mem :: r.seen, i.axi.rdata =
      mem (r.pipe.reads.current.addr + BitVec.ofNat 32 (4 * r.pipe.reads.current.words.length))
  elsewhere : ∀ m < 4 * ringlen.toNat, i.elsewhere (ringWord base ringlen m) = none
  complete : i.act = .post → ∀ j : Fin 4, (r.written (4 * r.posted + j)).isSome = true
  room : i.act = .post → tailNext ringlen r ≠ (headSeen r i).toNat

instance (r : SharedRing k addrWidth) (i : In addrWidth) : Decidable (Legal base ringlen r i) :=
  decidable_of_iff
    (SlaveLegal r.pipe.rLeft i.axi ∧
      (r.pipe.core.mt.engines.axi.state = .dfR → i.axi.rvalid = true →
        ∃ mem ∈ r.mem :: r.seen, i.axi.rdata = mem (r.pipe.reads.current.addr +
          BitVec.ofNat 32 (4 * r.pipe.reads.current.words.length))) ∧
      (∀ m < 4 * ringlen.toNat, i.elsewhere (ringWord base ringlen m) = none) ∧
      (i.act = .post → ∀ j : Fin 4, (r.written (4 * r.posted + j)).isSome = true) ∧
      (i.act = .post → tailNext ringlen r ≠ (headSeen r i).toNat))
    ⟨fun ⟨slave, serves, elsewhere, complete, room⟩ =>
      ⟨slave, serves, elsewhere, complete, room⟩,
     fun legal =>
      ⟨legal.slave, legal.serves, legal.elsewhere, legal.complete, legal.room⟩⟩

/-- Words the core has read from the ring. -/
def wordsRead (r : SharedRing k addrWidth) : Nat :=
  4 * r.pipe.reads.finished.length +
    if r.pipe.core.mt.engines.axi.state = .dfR then r.pipe.reads.current.words.length else 0

/-- The CPU posts only with more than MAX_INFLIGHT slots ahead of it, or after it has seen
    the engine idle. -/
def Reserves (r : SharedRing k addrWidth) (i : In addrWidth) : Prop :=
  i.act = .post → maxInflight < slotsAhead ringlen r i ∨ idleSeen r i = true

instance (r : SharedRing k addrWidth) (i : In addrWidth) : Decidable (Reserves ringlen r i) :=
  inferInstanceAs (Decidable (i.act = .post →
    maxInflight < slotsAhead ringlen r i ∨ idleSeen r i = true))

/-! ## The invariant -/

/-- `ws` are the ring words from `lo` on. -/
def Matches (written : Nat → Option Word) (lo : Nat) (ws : List Word) : Prop :=
  ∀ j w, ws[j]? = some w → written (lo + j) = some w

structure Inv (r : SharedRing k addrWidth) : Prop where
  pipe : r.pipe.Inv
  view : RingView ringlen.toNat r.pipe.core.rm.head r.tail r.pipe.accepted.length r.posted
  headRead : ∃ n ≤ r.pipe.accepted.length,
    r.headRead.toNat = n % ringlen.toNat ∧ r.posted < n + ringlen.toNat ∧
      (r.idleRead = true → n ≤ r.pipe.reads.finished.length)
  /-- The slot at TAIL has been read in every turn before. -/
  unread : r.posted < r.pipe.reads.finished.length + ringlen.toNat
  accepted : ∀ n a, r.pipe.accepted[n]? = some a →
    ∃ slot : Word, slot.toNat = n % ringlen.toNat ∧ a = base + slot * descriptorSize
  whole : ∀ m < 4 * r.posted, (r.written m).isSome = true
  /-- The memory holds what was written and not read, ... -/
  stored : ∀ m w, wordsRead r ≤ m → r.written m = some w → r.mem (ringWord base ringlen m) = w
  /-- ... and held it ever since the current read was accepted. -/
  kept : r.pipe.core.mt.engines.axi.state = .dfR → ∀ mem ∈ r.seen, ∀ m w, wordsRead r ≤ m →
    m < 4 * r.pipe.reads.finished.length + 4 → r.written m = some w →
      mem (ringWord base ringlen m) = w
  finished : ∀ n read, r.pipe.reads.finished[n]? = some read → Matches r.written (4 * n) read.words
  current : r.pipe.core.mt.engines.axi.state = .dfR →
    Matches r.written (4 * r.pipe.reads.finished.length) r.pipe.reads.current.words
  /-- Nothing is written past slot TAIL. -/
  fresh : ∀ m, 4 * r.posted + 4 ≤ m → r.written m = none

variable {base ringlen} {r : SharedRing k addrWidth} {i : In addrWidth}

/-! ### What the parts of a state are to each other -/

theorem getElem?_of_held {p : Pipeline k addrWidth} (inv : p.Inv) {a : Word}
    (held : AxiMaster.heldAddr p.core.mt.engines.axi p.reads = [a]) :
    p.accepted[p.reads.finished.length]? = some a := by
  have first := inv.reads_held
  rw [held] at first
  refine Pipeline.getElem?_of_initial first ?_
  rw [List.getElem?_append_right (by rw [List.length_map]), List.length_map, Nat.sub_self]
  rfl

theorem Inv.finished_le (inv : Inv base ringlen r) :
    r.pipe.reads.finished.length ≤ r.posted := by
  have reads := inv.pipe.reads_initial.length_le
  rw [List.length_map] at reads
  exact Nat.le_trans reads inv.view.le

/-- A read in progress is that of a posted descriptor. -/
theorem Inv.finished_lt (inv : Inv base ringlen r) {a : Word}
    (held : AxiMaster.heldAddr r.pipe.core.mt.engines.axi r.pipe.reads = [a]) :
    r.pipe.reads.finished.length < r.posted := by
  obtain ⟨bound, -⟩ := List.getElem?_eq_some_iff.mp (getElem?_of_held inv.pipe held)
  exact Nat.lt_of_lt_of_le bound inv.view.le

/-- Word `j` of the read in progress is at a ring address. -/
theorem Inv.readWord_eq (inv : Inv base ringlen r) (pos : 0 < ringlen.toNat) {a : Word}
    (held : AxiMaster.heldAddr r.pipe.core.mt.engines.axi r.pipe.reads = [a]) {j : Nat}
    (word : j < 4) :
    a + BitVec.ofNat 32 (4 * j) =
      ringWord base ringlen (4 * r.pipe.reads.finished.length + j) := by
  obtain ⟨slot, index, rfl⟩ := inv.accepted _ _ (getElem?_of_held inv.pipe held)
  exact slotWord_eq pos word index

theorem wordsRead_of_dfR (reading : r.pipe.core.mt.engines.axi.state = .dfR) :
    wordsRead r = 4 * r.pipe.reads.finished.length + r.pipe.reads.current.words.length := by
  rw [wordsRead, if_pos reading]

/-! ### One cycle -/

theorem Inv.readStep (inv : Inv base ringlen r) (legal : Legal base ringlen r i) :
    AxiMaster.ReadStep r.pipe.core.mt.engines.axi i.axi r.pipe.reads
      (step base ringlen r i).pipe.core.mt.engines.axi (step base ringlen r i).pipe.reads :=
  AxiMaster.readStep (i := Engines.axiIn _ (MovementTop.enginesIn _
    (DmaCore.mtIn _ (coreIn base ringlen r i)))) inv.pipe.fetches.burst legal.slave

/-- Every beat of a descriptor read is one more word read. -/
theorem Inv.wordsRead_step (inv : Inv base ringlen r) (legal : Legal base ringlen r i) :
    wordsRead (step base ringlen r i) = wordsRead r +
      (r.pipe.core.mt.engines.axi.state == .dfR && i.axi.rvalid).toNat := by
  unfold wordsRead
  cases inv.readStep legal with
  | opens before ready after finished current =>
    simp [before, after, finished, current]
  | beat before valid after finished current =>
    simp [before, valid, after, finished, current, Nat.add_assoc]
  | last before valid after finished four =>
    simp [before, valid, after, finished, four]
    omega
  | quiet state closed shut reads =>
    rw [reads]
    by_cases reading : r.pipe.core.mt.engines.axi.state = .dfR
    · simp [reading, state.mpr reading, closed reading]
    · simp [reading, mt state.mp reading]

/-- The words of posted descriptors are not written again. -/
theorem written_step_of_lt {m : Nat} (bound : m < 4 * r.posted) :
    (step base ringlen r i).written m = r.written m := by
  cases act : i.act with
  | idle | post => simp [step, act]
  | write j w =>
    simp only [step, act]
    exact Function.update_of_ne (by omega) _ _

theorem posted_le_step : r.posted ≤ (step base ringlen r i).posted := by
  simp only [step]
  split <;> omega

/-- A cycle keeps the unread words in memory. -/
theorem Inv.stored_step (inv : Inv base ringlen r) (legal : Legal base ringlen r i)
    (pos : 0 < ringlen.toNat) (fits : ringlen.toNat ≤ 2 ^ 28)
    {m : Nat} {w : Word} (unread : wordsRead r ≤ m)
    (word : (step base ringlen r i).written m = some w) :
    (step base ringlen r i).mem (ringWord base ringlen m) = w := by
  have others : i.elsewhere (ringWord base ringlen m) = none := by
    have same : ringWord base ringlen m = ringWord base ringlen (m % (4 * ringlen.toNat)) := by
      rw [ringWord, ringWord, Nat.mod_mod]
    rw [same]
    exact legal.elsewhere _ (Nat.mod_lt _ (by omega))
  have old : (i.elsewhere (ringWord base ringlen m)).getD (r.mem (ringWord base ringlen m)) =
      r.mem (ringWord base ringlen m) := by rw [others]; rfl
  simp only [step, memNext] at word ⊢
  cases act : i.act with
  | idle =>
    rw [act] at word
    exact old.trans (inv.stored m w unread word)
  | post =>
    rw [act] at word
    exact old.trans (inv.stored m w unread word)
  | write j v =>
    rw [act] at word
    simp only at word ⊢
    rw [slotWord_eq pos j.isLt inv.view.tail_eq]
    by_cases here : m = 4 * r.posted + j
    · subst here
      rw [Function.update_self] at word ⊢
      exact Option.some.inj word
    · rw [Function.update_of_ne here] at word
      -- the write is less than a turn away from every word that is still to be read
      have apart : ringWord base ringlen m ≠ ringWord base ringlen (4 * r.posted + j) := by
        have below : m < 4 * r.posted + 4 := by
          by_contra past
          rw [inv.fresh m (by omega)] at word
          exact absurd word nofun
        have inSlot := j.isLt
        have ahead : 4 * r.posted + j < wordsRead r + 4 * ringlen.toNat := by
          have read := inv.unread
          have words : 4 * r.pipe.reads.finished.length ≤ wordsRead r := Nat.le_add_right _ _
          omega
        rcases Nat.lt_or_gt_of_ne here with before | after
        · exact ringWord_ne fits before (by omega)
        · exact (ringWord_ne fits after (by omega)).symm
      rw [Function.update_of_ne apart]
      exact old.trans (inv.stored m w unread word)

/-- The slave returns the word that was posted. -/
theorem Inv.served (inv : Inv base ringlen r) (legal : Legal base ringlen r i)
    (pos : 0 < ringlen.toNat) (reading : r.pipe.core.mt.engines.axi.state = .dfR)
    (valid : i.axi.rvalid = true) :
    r.written (4 * r.pipe.reads.finished.length + r.pipe.reads.current.words.length) =
      some i.axi.rdata := by
  have held : AxiMaster.heldAddr r.pipe.core.mt.engines.axi r.pipe.reads =
      [r.pipe.reads.current.addr] := by rw [AxiMaster.heldAddr, reading]
  have short : r.pipe.reads.current.words.length < 4 := by
    have left := (legal.slave valid).1
    have burst := inv.pipe.fetches.burst
    simp only [AxiMaster.FetchBurst, reading] at burst
    omega
  have posted := inv.finished_lt held
  obtain ⟨w, word⟩ := Option.isSome_iff_exists.mp (inv.whole
    (4 * r.pipe.reads.finished.length + r.pipe.reads.current.words.length) (by omega))
  have count := wordsRead_of_dfR reading
  obtain ⟨mem, source, returned⟩ := legal.serves reading valid
  rw [inv.readWord_eq pos held short] at returned
  rw [word, returned]
  rcases List.mem_cons.mp source with rfl | earlier
  · rw [inv.stored _ w (by omega) word]
  · rw [inv.kept reading mem earlier _ w (by omega) (by omega) word]

theorem Matches.snoc {written : Nat → Option Word} {lo : Nat} {ws : List Word} {w : Word}
    (ok : Matches written lo ws) (word : written (lo + ws.length) = some w) :
    Matches written lo (ws ++ [w]) := by
  intro j v at'
  rcases Nat.lt_or_ge j ws.length with before | after
  · exact ok j v (by rwa [List.getElem?_append_left before] at at')
  · rw [List.getElem?_append_right after] at at'
    obtain ⟨last, rfl⟩ := List.getElem?_eq_some_iff.mp at'
    obtain rfl : j = ws.length := by
      rw [List.length_singleton] at last
      omega
    simpa using word

theorem Matches.step {lo : Nat} {ws : List Word} (ok : Matches r.written lo ws)
    (bound : lo + ws.length ≤ 4 * r.posted) :
    Matches (step base ringlen r i).written lo ws := by
  intro j w at'
  obtain ⟨inside, -⟩ := List.getElem?_eq_some_iff.mp at'
  rw [written_step_of_lt (by omega)]
  exact ok j w at'

theorem Inv.reads_step (inv : Inv base ringlen r) (legal : Legal base ringlen r i)
    (pos : 0 < ringlen.toNat) :
    (∀ n read, (step base ringlen r i).pipe.reads.finished[n]? = some read →
      Matches (step base ringlen r i).written (4 * n) read.words) ∧
    ((step base ringlen r i).pipe.core.mt.engines.axi.state = .dfR →
      Matches (step base ringlen r i).written
        (4 * (step base ringlen r i).pipe.reads.finished.length)
        (step base ringlen r i).pipe.reads.current.words) := by
  have held : r.pipe.core.mt.engines.axi.state = .dfR →
      AxiMaster.heldAddr r.pipe.core.mt.engines.axi r.pipe.reads =
        [r.pipe.reads.current.addr] := by
    intro reading
    rw [AxiMaster.heldAddr, reading]
  have burst := inv.pipe.fetches.burst
  have before : ∀ n read, r.pipe.reads.finished[n]? = some read →
      Matches (step base ringlen r i).written (4 * n) read.words := by
    intro n read at'
    obtain ⟨bound, rfl⟩ := List.getElem?_eq_some_iff.mp at'
    have four := inv.pipe.fetches.four _ (List.getElem_mem bound)
    have posted := inv.finished_le
    exact (inv.finished n _ at').step (by omega)
  -- the words of the read in progress, with the beat of this cycle
  have longer : r.pipe.core.mt.engines.axi.state = .dfR → i.axi.rvalid = true →
      Matches (step base ringlen r i).written (4 * r.pipe.reads.finished.length)
        (r.pipe.reads.current.words ++ [i.axi.rdata]) := by
    intro reading valid
    have left := (legal.slave valid).1
    simp only [AxiMaster.FetchBurst, reading] at burst
    have posted := inv.finished_lt (held reading)
    exact ((inv.current reading).snoc (inv.served legal pos reading valid)).step
      (by rw [List.length_append, List.length_singleton]; omega)
  cases inv.readStep legal with
  | opens dfAr ready after finished current =>
    rw [finished, current]
    refine ⟨before, fun _ j w at' => ?_⟩
    rw [List.getElem?_nil] at at'
    exact absurd at' (Option.some_ne_none w).symm
  | beat reading valid after finished current =>
    rw [finished, current]
    exact ⟨before, fun _ => longer reading valid⟩
  | last reading valid after finished four =>
    refine ⟨fun n read at' => ?_, fun again => absurd (after.symm.trans again) (by decide)⟩
    rw [finished] at at'
    rcases Nat.lt_or_ge n r.pipe.reads.finished.length with earlier | final
    · exact before n read (by rwa [List.getElem?_append_left earlier] at at')
    · rw [List.getElem?_append_right final] at at'
      obtain ⟨bound, rfl⟩ := List.getElem?_eq_some_iff.mp at'
      obtain rfl : n = r.pipe.reads.finished.length := by
        rw [List.length_singleton] at bound
        omega
      simpa using longer reading valid
  | quiet state closed shut reads =>
    rw [reads]
    refine ⟨before, fun after => ?_⟩
    have reading := state.mp after
    have posted := inv.finished_lt (held reading)
    simp only [AxiMaster.FetchBurst, reading] at burst
    exact (inv.current reading).step (by omega)

/-- The unread words of the current read stayed in memory since it was accepted. -/
theorem Inv.kept_step (inv : Inv base ringlen r) (legal : Legal base ringlen r i)
    (reading' : (step base ringlen r i).pipe.core.mt.engines.axi.state = .dfR)
    {mem : Word → Word} (source : mem ∈ (step base ringlen r i).seen) {m : Nat} {w : Word}
    (unread : wordsRead (step base ringlen r i) ≤ m)
    (inRead : m < 4 * (step base ringlen r i).pipe.reads.finished.length + 4)
    (word : (step base ringlen r i).written m = some w) :
    mem (ringWord base ringlen m) = w := by
  have count := inv.wordsRead_step legal
  have held : ∀ state, state = AxiMaster.Fsm.dfR ∨ state = AxiMaster.Fsm.dfAr →
      r.pipe.core.mt.engines.axi.state = state →
      r.pipe.reads.finished.length < r.posted := by
    rintro state (rfl | rfl) at'
    · exact inv.finished_lt (a := r.pipe.reads.current.addr) (by rw [AxiMaster.heldAddr, at'])
    · exact inv.finished_lt (a := r.pipe.core.mt.engines.axi.curAddr)
        (by rw [AxiMaster.heldAddr, at'])
  -- a word of the slot in progress was posted before this cycle and is in memory
  have now : r.pipe.reads.finished.length < r.posted →
      m < 4 * r.pipe.reads.finished.length + 4 →
      r.written m = some w ∧ r.mem (ringWord base ringlen m) = w := by
    intro posted inside
    rw [written_step_of_lt (by omega)] at word
    exact ⟨word, inv.stored m w (by omega) word⟩
  have opened : r.pipe.core.mt.engines.axi.state = .dfR → opensRead r i = false := by
    intro reading
    simp [opensRead, reading]
  -- a read that goes on may see this cycle's memory or what it has seen before
  have same : r.pipe.core.mt.engines.axi.state = .dfR →
      (step base ringlen r i).pipe.reads.finished = r.pipe.reads.finished →
      mem (ringWord base ringlen m) = w := by
    intro reading finished
    rw [finished] at inRead
    obtain ⟨word, stored⟩ := now (held _ (.inl rfl) reading) inRead
    simp only [SharedRing.step, opened reading] at source
    rcases List.mem_cons.mp source with rfl | earlier
    · exact stored
    · exact inv.kept reading mem earlier m w (by omega) inRead word
  cases inv.readStep legal with
  | opens dfAr ready after finished current =>
    rw [finished] at inRead
    obtain ⟨-, stored⟩ := now (held _ (.inr rfl) dfAr) inRead
    have opens : opensRead r i = true := by simp [opensRead, dfAr, ready]
    simp only [SharedRing.step, opens, if_true, List.mem_singleton] at source
    rw [source]
    exact stored
  | beat reading valid after finished current => exact same reading finished
  | last reading valid after finished four => exact absurd (after.symm.trans reading') (by decide)
  | quiet state closed shut reads => exact same (state.mp reading') (by rw [reads])

theorem accepted_step : (step base ringlen r i).pipe.accepted = r.pipe.accepted ++
    if DmaCore.fetchHs r.pipe.core (coreIn base ringlen r i) then
      [base + r.pipe.core.rm.head * descriptorSize] else [] := rfl

theorem head_step : (step base ringlen r i).pipe.core.rm.head = RingManager.headPtrNext r.pipe.core.rm
    (DmaCore.rmIn r.pipe.core (coreIn base ringlen r i)) := by
  have next := RingManager.step_of_run (s := r.pipe.core.rm)
    (i := DmaCore.rmIn r.pipe.core (coreIn base ringlen r i)) rfl rfl
  exact congrArg RingManager.State.head next

theorem length_accepted_step : (step base ringlen r i).pipe.accepted.length =
    r.pipe.accepted.length + (DmaCore.fetchHs r.pipe.core (coreIn base ringlen r i)).toNat := by
  rw [accepted_step, List.length_append]
  cases DmaCore.fetchHs r.pipe.core (coreIn base ringlen r i) <;> rfl

theorem Inv.accepted_step (inv : Inv base ringlen r) {n : Nat} {a : Word}
    (at' : (step base ringlen r i).pipe.accepted[n]? = some a) :
    ∃ slot : Word, slot.toNat = n % ringlen.toNat ∧ a = base + slot * descriptorSize := by
  rw [SharedRing.accepted_step] at at'
  rcases Nat.lt_or_ge n r.pipe.accepted.length with before | after
  · exact inv.accepted n a (by rwa [List.getElem?_append_left before] at at')
  · rw [List.getElem?_append_right after] at at'
    split at at'
    · obtain ⟨last, rfl⟩ := List.getElem?_eq_some_iff.mp at'
      obtain rfl : n = r.pipe.accepted.length := by
        rw [List.length_singleton] at last
        omega
      exact ⟨r.pipe.core.rm.head, inv.view.head_eq, by simp⟩
    · exact absurd at' nofun

theorem Inv.finished_le_step (inv : Inv base ringlen r) (legal : Legal base ringlen r i) :
    r.pipe.reads.finished.length ≤ (step base ringlen r i).pipe.reads.finished.length := by
  cases inv.readStep legal with
  | opens before ready after finished current => rw [finished]
  | beat before valid after finished current => rw [finished]
  | last before valid after finished four =>
    rw [finished, List.length_append]
    exact Nat.le_add_right _ _
  | quiet state closed shut reads => rw [reads]

/-- The HEAD the CPU knows is one HEAD has had, not more than a turn behind TAIL; if the CPU
    has seen BUSY = 0 since, the slots before it have been read. -/
theorem Inv.head_known (inv : Inv base ringlen r) (i : In addrWidth) :
    ∃ n ≤ r.pipe.accepted.length,
      (headSeen r i).toNat = n % ringlen.toNat ∧ r.posted < n + ringlen.toNat ∧
        (idleSeen r i = true → n ≤ r.pipe.reads.finished.length) := by
  -- not busy, nothing is in flight and every accepted request has been read
  have idle : RingManager.busy r.pipe.core.rm = false →
      r.pipe.accepted.length ≤ r.pipe.reads.finished.length := by
    intro notBusy
    have none := inv.pipe.accepted_le_finished
    simp only [RingManager.busy, decide_eq_false_iff_not, BitVec.lt_def] at notBusy
    have zero : (0 : BitVec (RingManager.countWidth maxInflight)).toNat = 0 := rfl
    omega
  cases again : i.readHead with
  | true =>
    refine ⟨_, Nat.le_refl _, ?_, inv.view.lt, ?_⟩
    · simpa [headSeen, again] using inv.view.head_eq
    · intro seen
      simp only [idleSeen, again, Bool.not_true, Bool.and_false, Bool.false_or,
        Bool.and_eq_true, Bool.not_eq_true'] at seen
      exact idle seen.2
  | false =>
    obtain ⟨n, le, head, lt, before⟩ := inv.headRead
    refine ⟨n, le, ?_, lt, ?_⟩
    · simpa [headSeen, again] using head
    · intro seen
      simp only [idleSeen, again, Bool.not_false, Bool.and_true, Bool.or_eq_true,
        Bool.and_eq_true, Bool.not_eq_true'] at seen
      cases seen with
      | inl earlier => exact before earlier
      | inr now => exact Nat.le_trans le (idle now.2)

/-- A post leaves a slot free, seen from the HEAD the CPU knows. -/
theorem Inv.headRead_step (inv : Inv base ringlen r) (legal : Legal base ringlen r i) :
    ∃ n ≤ r.pipe.accepted.length, (headSeen r i).toNat = n % ringlen.toNat ∧
      (step base ringlen r i).posted < n + ringlen.toNat ∧
        (idleSeen r i = true → n ≤ r.pipe.reads.finished.length) := by
  obtain ⟨n, le, head, lt, idle⟩ := inv.head_known i
  refine ⟨n, le, head, ?_, idle⟩
  simp only [step]
  split
  · have room := legal.room ‹_›
    have later := inv.view.le
    rw [tailNext, inv.view.tail_eq, Nat.mod_add_mod, head] at room
    by_contra full
    have turn : r.posted + 1 = n + ringlen.toNat := by omega
    rw [turn, Nat.add_mod_right] at room
    exact room rfl
  · exact lt

/-- What the CPU counts from the pointers is what is left of the turn after a post. -/
theorem slotsAhead_eq {n : Nat} (tail : r.tail.toNat = r.posted % ringlen.toNat)
    (head : (headSeen r i).toNat = n % ringlen.toNat) (le : n ≤ r.posted)
    (lt : r.posted + 1 < n + ringlen.toNat) :
    slotsAhead ringlen r i = n + ringlen.toNat - (r.posted + 1) := by
  have pos : 0 < ringlen.toNat := by omega
  have bound := Nat.mod_lt (r.posted + 1) pos
  have turns := Nat.mod_add_div (r.posted + 1) ringlen.toNat
  have same : (n + (ringlen.toNat - (r.posted + 1) % ringlen.toNat)) % ringlen.toNat =
      (n + ringlen.toNat - (r.posted + 1)) % ringlen.toNat := by
    have sum : n + (ringlen.toNat - (r.posted + 1) % ringlen.toNat) =
        n + ringlen.toNat - (r.posted + 1) +
          ringlen.toNat * ((r.posted + 1) / ringlen.toNat) := by omega
    rw [sum, Nat.add_mul_mod_self_left]
  rw [slotsAhead, head, tailNext, tail, Nat.mod_add_mod, Nat.mod_add_mod, same]
  exact Nat.mod_eq_of_lt (by omega)

/-- The slot of the next TAIL has been read too: requests that are accepted and not read are
    at most MAX_INFLIGHT. -/
theorem Inv.unread_step (inv : Inv base ringlen r) (legal : Legal base ringlen r i)
    (reserves : Reserves ringlen r i) :
    (step base ringlen r i).posted <
      (step base ringlen r i).pipe.reads.finished.length + ringlen.toNat := by
  have later := inv.finished_le_step legal
  have before := inv.unread
  obtain ⟨n, le, head, lt, idle⟩ := inv.headRead_step legal
  by_cases act : i.act = .post
  · simp only [step, act, if_true] at lt ⊢
    cases reserves act with
    | inl room =>
      have known := inv.view.le
      rw [slotsAhead_eq inv.view.tail_eq head (by omega) lt] at room
      have window := inv.pipe.accepted_le_finished
      have high : r.pipe.core.rm.inflightCount.toNat ≤ maxInflight := inv.pipe.high
      simp only [step] at later
      omega
    | inr seen =>
      have read := idle seen
      simp only [step] at later
      omega
  · simp only [step, act, if_false] at later ⊢
    omega

theorem Inv.view_step (inv : Inv base ringlen r) (legal : Legal base ringlen r i) :
    RingView ringlen.toNat (step base ringlen r i).pipe.core.rm.head (step base ringlen r i).tail
      (step base ringlen r i).pipe.accepted.length (step base ringlen r i).posted := by
  have view : RingView ringlen.toNat r.pipe.core.rm.head
      (DmaCore.rmIn r.pipe.core (coreIn base ringlen r i)).csr.tail r.pipe.accepted.length
      r.posted := inv.view
  obtain ⟨head, le⟩ := RingManager.ringView_accept view fun _ => rfl
  obtain ⟨n, known, -, lt, -⟩ := inv.headRead_step legal
  have later : r.posted ≤ (step base ringlen r i).posted := posted_le_step
  rw [head_step, length_accepted_step]
  refine ⟨head, ?_, Nat.le_trans le later, by omega⟩
  simp only [step]
  split
  · have pos : 0 < ringlen.toNat := by
      have := inv.view.le
      have := inv.view.lt
      omega
    have bound := Nat.mod_lt (r.posted + 1) pos
    have small := ringlen.isLt
    rw [tailNext, inv.view.tail_eq, Nat.mod_add_mod, BitVec.toNat_ofNat,
      Nat.mod_eq_of_lt (by omega)]
  · exact inv.view.tail_eq

theorem Inv.whole_step (inv : Inv base ringlen r) (legal : Legal base ringlen r i) {m : Nat}
    (bound : m < 4 * (step base ringlen r i).posted) :
    ((step base ringlen r i).written m).isSome = true := by
  rcases Nat.lt_or_ge m (4 * r.posted) with old | new
  · rw [written_step_of_lt old]
    exact inv.whole m old
  · cases act : i.act with
    | idle | write =>
      simp only [step, act] at bound
      exact absurd bound (by simp; omega)
    | post =>
      simp only [step, act, if_true] at bound ⊢
      have complete := legal.complete act ⟨m - 4 * r.posted, by omega⟩
      rwa [Nat.add_sub_cancel' new] at complete

theorem Inv.fresh_step (inv : Inv base ringlen r) {m : Nat}
    (past : 4 * (step base ringlen r i).posted + 4 ≤ m) :
    (step base ringlen r i).written m = none := by
  have later : r.posted ≤ (step base ringlen r i).posted := posted_le_step
  have old := inv.fresh m (by omega)
  cases act : i.act with
  | idle | post => simpa [step, act] using old
  | write j w =>
    simp only [step, act]
    rw [Function.update_of_ne (by omega)]
    exact old

theorem inv_start (s : DmaCore.State k addrWidth) (mem : Word → Word)
    (pos : 0 < ringlen.toNat) : Inv base ringlen (start s mem) where
  pipe := Pipeline.inv_start s
  view := ⟨(Nat.zero_mod _).symm, (Nat.zero_mod _).symm, Nat.le_refl _,
    by simpa [start, Pipeline.start] using pos⟩
  headRead := ⟨0, Nat.le_refl _, (Nat.zero_mod _).symm,
    by simpa [start, Pipeline.start] using pos, fun _ => Nat.le_refl _⟩
  unread := by simpa [start, Pipeline.start] using pos
  accepted := fun _ _ => nofun
  whole := fun _ => nofun
  stored := fun _ _ _ => nofun
  kept := nofun
  finished := fun _ _ => nofun
  current := nofun
  fresh := fun _ _ => rfl

theorem Inv.step (inv : Inv base ringlen r) (legal : Legal base ringlen r i)
    (reserves : Reserves ringlen r i) (pos : 0 < ringlen.toNat)
    (fits : ringlen.toNat ≤ 2 ^ 28) : Inv base ringlen (step base ringlen r i) where
  pipe := inv.pipe.step ⟨rfl, legal.slave⟩
  view := inv.view_step legal
  headRead := by
    obtain ⟨n, known, head, lt, idle⟩ := inv.headRead_step legal
    refine ⟨n, Nat.le_trans known ?_, head, lt, ?_⟩
    · rw [length_accepted_step]
      exact Nat.le_add_right _ _
    · exact fun seen => Nat.le_trans (idle seen) (inv.finished_le_step legal)
  unread := inv.unread_step legal reserves
  accepted := fun _ _ => inv.accepted_step
  whole := fun _ => inv.whole_step legal
  stored := fun _ _ unread => inv.stored_step legal pos fits
    (Nat.le_trans (by rw [inv.wordsRead_step legal]; exact Nat.le_add_right _ _) unread)
  kept := fun reading _ source _ _ => inv.kept_step legal reading source
  finished := (inv.reads_step legal pos).1
  current := (inv.reads_step legal pos).2
  fresh := fun _ => inv.fresh_step

/-- The reads so far are those of the accepted requests, and brought the words the CPU
    posted. -/
def ReadsPosted (r : SharedRing k addrWidth) : Prop :=
  r.pipe.reads.finished.map DescRead.addr <+: r.pipe.accepted ∧
    ∀ n read, r.pipe.reads.finished[n]? = some read →
      n < r.posted ∧
        read.words.map some = (List.range 4).map fun j => r.written (4 * n + j)

theorem Inv.readsPosted (inv : Inv base ringlen r) : ReadsPosted r := by
  refine ⟨inv.pipe.reads_initial, fun n read at' => ?_⟩
  obtain ⟨bound, rfl⟩ := List.getElem?_eq_some_iff.mp at'
  have words := inv.finished n _ at'
  have four := inv.pipe.fetches.four _ (List.getElem_mem bound)
  refine ⟨Nat.lt_of_lt_of_le bound inv.finished_le, List.ext_getElem (by simp [four]) ?_⟩
  intro j inside _
  rw [List.length_map] at inside
  simpa using (words j _ (List.getElem?_eq_getElem inside)).symm

end SharedRing

/-- No slot is reused too early: with a ring that fits the address space, in every legal run
    in which the CPU posts only with MAX_INFLIGHT slots to spare or after it has seen the
    engine idle, the `n`-th accepted request reads the words posted as the `n`-th
    descriptor. -/
theorem reads_posted {k addrWidth : Nat} {base ringlen : Word} {s : DmaCore.State k addrWidth}
    {mem : Word → Word} {is : List (SharedRing.In addrWidth)} (two : 2 ≤ ringlen.toNat)
    (fits : ringlen.toNat ≤ 2 ^ 28)
    (runs : LegalRun (SharedRing.step base ringlen) (SharedRing.Legal base ringlen)
      (SharedRing.start s mem) is)
    (reserves : LegalRun (SharedRing.step base ringlen) (SharedRing.Reserves ringlen)
      (SharedRing.start s mem) is) :
    (run (SharedRing.step base ringlen) (SharedRing.start s mem) is).ReadsPosted := by
  have pos : 0 < ringlen.toNat := Nat.lt_of_lt_of_le (by decide) two
  have inv : SharedRing.Inv base ringlen
      (run (SharedRing.step base ringlen) (SharedRing.start s mem) is) :=
    (runs.and reserves).invariant
      (fun _ _ inv ⟨legal, reserves⟩ => inv.step legal reserves pos fits)
      (SharedRing.inv_start s mem pos)
  exact inv.readsPosted

/-- A cycle of an enabled core with no other writer; the CPU looks at HEAD and STATUS in it. -/
def ringCycle (o : Axi4Slave) (act : CpuAct) : SharedRing.In 3 :=
  { enable := true, irqEn := false, errorClear := false, axi := o
    init := { initDone := true, addr := 0, wrEn := false, din := 0 }
    act := act, readHead := true, readStatus := true, elsewhere := fun _ => none }

/-- A descriptor is written and posted. -/
def postWords (src dst len config : Word) : List CpuAct :=
  [.write 0 src, .write 1 dst, .write 2 len, .write 3 config, .post]

/-- The slave returns the words of a descriptor. -/
def returnWords (src dst len config : Word) : List Axi4Slave :=
  [{ readySlave with rvalid := true, rdata := src },
   { readySlave with rvalid := true, rdata := dst },
   { readySlave with rvalid := true, rdata := len },
   { readySlave with rvalid := true, rdata := config, rlast := true }]

/-- A descriptor is posted and read, and the CPU waits `n` cycles. -/
def postedAndRead (src dst len config : Word) (n : Nat) : List (SharedRing.In 3) :=
  (postWords src dst len config).map (ringCycle readySlave) ++
    (List.replicate 6 readySlave ++ returnWords src dst len config ++
      List.replicate n readySlave).map (ringCycle · .idle)

/-- Two slots and three descriptors, each posted when the engine is idle again: the third
    takes the slot of the first. -/
theorem reads_posted_three :
    let is := postedAndRead 0 4 1 0 17 ++ postedAndRead 1 8 1 0 17 ++ postedAndRead 2 12 1 0 0
    let r := run (SharedRing.step 256 2) (SharedRing.start (zeroed 2 3) fun _ => 0) is
    r.ReadsPosted ∧ r.pipe.reads.finished =
      [⟨256, [0, 4, 1, 0]⟩, ⟨272, [1, 8, 1, 0]⟩, ⟨256, [2, 12, 1, 0]⟩] :=
  ⟨reads_posted (by decide) (by decide) (by decide +kernel) (by decide +kernel), by decide +kernel⟩

/-- Two slots, and the slave accepts no read until the CPU has posted three descriptors,
    each when HEAD showed a free slot: the first read returns the third descriptor. -/
theorem unread_slot_overwritten :
    let is := (postWords 0 4 1 0 ++ postWords 1 8 1 0 ++ postWords 2 12 1 0).map
        (ringCycle { readySlave with arready := false }) ++
      (readySlave :: returnWords 2 12 1 0).map (ringCycle · .idle)
    let r := run (SharedRing.step 256 2) (SharedRing.start (zeroed 2 3) fun _ => 0) is
    LegalRun (SharedRing.step 256 2) (SharedRing.Legal 256 2)
        (SharedRing.start (zeroed 2 3) fun _ => 0) is ∧
      r.pipe.reads.finished = [⟨256, [2, 12, 1, 0]⟩] ∧
      (List.range 4).map r.written = [some 0, some 4, some 1, some 0] ∧ ¬ r.ReadsPosted := by
  refine ⟨by decide, by decide, by decide, fun right => ?_⟩
  have words := (right.2 0 _ rfl).2
  exact absurd words (by decide)

end AxiDma.Verified
