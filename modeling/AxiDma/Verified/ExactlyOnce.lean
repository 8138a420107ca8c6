import AxiDma.Verified.Copy
import AxiDma.Verified.Pipeline

/-! # Every descriptor is executed exactly once

The conclusions of the pipeline invariant in the terms of the interfaces: no FIFO drops a
word, what is popped was read from the accepted addresses, and a popped descriptor either
raises `df_error` or is started by both engines, in order.
-/

namespace AxiDma.Verified

open AxiDma.Lib AxiDma.Rtl

/-! ## The check of the fetcher -/

namespace DescriptorFetcher

open AxiDma.Rtl.DescriptorFetcher

/-- The instruction the SRAM controller gets for a descriptor. -/
def sramInstr (d : Desc) : Instr := MovementTop.narrow (DataMover.decodeSram d)

/-- The last SRAM word of a descriptor, without wrapping. -/
def lastWord (d : Desc) : Nat := (sramInstr d).addr.toNat / 4 + (beats (sramInstr d).len - 1)

theorem toNat_descEndAddr (d : Desc) : (descEndAddr d).toNat = lastWord d := by
  have addr : (sramInstr d).addr = sramByteAddr d := by
    unfold sramInstr MovementTop.narrow DataMover.decodeSram sramByteAddr
    cases d.dir <;> rfl
  have len : (sramInstr d).len = d.lenBeats := by
    unfold sramInstr MovementTop.narrow DataMover.decodeSram Desc.lenBeats
    cases d.dir <;> rfl
  have bound := (sramByteAddr d).isLt
  have small := d.lenBeats.isLt
  have word : (sramWordIdx d).toNat = (sramByteAddr d).toNat / 4 := by
    simp [sramWordIdx, Nat.shiftRight_eq_div_pow]
  rw [lastWord, addr, len, descEndAddr, beats]
  split
  · rw [BitVec.toNat_setWidth, word, Nat.mod_eq_of_lt (by omega)]
    rfl
  · rename_i some
    have pos : d.lenBeats.toNat ≠ 0 := fun zero => some (BitVec.eq_of_toNat_eq zero)
    have sum : (BitVec.setWidth 33 (sramWordIdx d) + BitVec.setWidth 33 d.lenBeats).toNat =
        (sramByteAddr d).toNat / 4 + d.lenBeats.toNat := by
      rw [BitVec.toNat_add, BitVec.toNat_setWidth, BitVec.toNat_setWidth, word,
        Nat.mod_eq_of_lt (a := d.lenBeats.toNat) (by omega), Nat.mod_eq_of_lt (b := 2 ^ 33) (by omega),
        Nat.mod_eq_of_lt (by omega)]
    have one : (1 : BitVec 33).toNat = 1 := rfl
    rw [BitVec.toNat_sub_of_le (by rw [BitVec.le_def, sum, one]; omega), sum, one]
    omega

theorem outOfRange_eq_false_iff {d : Desc} : outOfRange d = false ↔ lastWord d ≤ maxSramAddr := by
  rw [outOfRange, decide_eq_false_iff_not, toNat_descEndAddr, Nat.not_lt]

theorem outOfRange_iff {d : Desc} : outOfRange d = true ↔ maxSramAddr < lastWord d := by
  rw [outOfRange, decide_eq_true_iff, toNat_descEndAddr]

end DescriptorFetcher

namespace Pipeline

variable {k addrWidth : Nat}

/-- No FIFO of the movement side is written while it is full, and MID, which has two
    writers, is not written by both. -/
structure NoDrop (mt : MovementTop.State k addrWidth) (i : MovementTop.In addrWidth) : Prop where
  dfIn : (MovementTop.dfInFifoIn mt i).wrEn = true → mt.dfInFifo.full = false
  dfOut : (MovementTop.dfOutFifoIn mt i).wrEn = true → mt.dfOutFifo.full = false
  descToDm : (MovementTop.descToDmFifoIn mt).wrEn = true → mt.descToDmFifo.full = false
  dmAxi : (MovementTop.dmFifoAxiIn mt i).wrEn = true → mt.dmFifoAxi.full = false
  dmSram : (MovementTop.dmFifoSramIn mt i).wrEn = true → mt.dmFifoSram.full = false
  mid : (Engines.midIn mt.engines (MovementTop.enginesIn mt i)).wrEn = true →
    mt.engines.mid.full = false
  midWriter : (MovementTop.axiOut mt i).midWrEn = true → (MovementTop.sramOut mt i).midWrEn = false

/-- The popped descriptors that are to be executed. -/
def goods (p : Pipeline k addrWidth) : List Desc :=
  p.popped.filter (!DescriptorFetcher.outOfRange ·)

variable {p : Pipeline k addrWidth} {i : DmaCore.In addrWidth}

/-! ## Nothing is dropped -/

theorem getElem?_of_initial {α : Type} {l m : List α} (initial : l <+: m) {n : Nat} {a : α}
    (at' : l[n]? = some a) : m[n]? = some a := by
  obtain ⟨rest, rfl⟩ := initial
  obtain ⟨short, -⟩ := List.getElem?_eq_some_iff.mp at'
  rw [List.getElem?_append_left short, at']

/-- Two started lists of the same pairs end with the two halves of one descriptor. -/
theorem rw_of_last_halves {descs : List Desc} {axi sram : List InstrWide} {n : Nat}
    (axiPairs : axi <+: descs.map DataMover.decodeAxi)
    (sramPairs : sram <+: descs.map DataMover.decodeSram)
    (axiLength : axi.length = n + 1) (sramLength : sram.length = n + 1) {w v : InstrWide}
    (axiLast : w ∈ axi.getLast?) (sramLast : v ∈ sram.getLast?) : v.rw = !w.rw := by
  rw [List.getLast?_eq_getElem?, axiLength, Nat.add_sub_cancel] at axiLast
  rw [List.getLast?_eq_getElem?, sramLength, Nat.add_sub_cancel] at sramLast
  have axiHalf := getElem?_of_initial axiPairs axiLast
  have sramHalf := getElem?_of_initial sramPairs sramLast
  rw [List.getElem?_map] at axiHalf sramHalf
  obtain ⟨d, axiDesc, rfl⟩ := Option.map_eq_some_iff.mp axiHalf
  obtain ⟨d', sramDesc, rfl⟩ := Option.map_eq_some_iff.mp sramHalf
  obtain rfl := Option.some.inj (axiDesc.symm.trans sramDesc)
  unfold DataMover.decodeAxi DataMover.decodeSram
  cases d.dir <;> rfl

/-- The engines work on one descriptor, which one of them reads and the other writes. -/
theorem Inv.midWriter (inv : Inv p)
    (axiWrites : (MovementTop.axiOut p.core.mt (DmaCore.mtIn p.core i)).midWrEn = true) :
    (MovementTop.sramOut p.core.mt (DmaCore.mtIn p.core i)).midWrEn = false := by
  have axiState : p.core.mt.engines.axi.state = .dmRdR := by
    have writes := (AxiMaster.midWrEn_eq _ _).symm.trans axiWrites
    exact beq_iff_eq.mp (Bool.and_eq_true_iff.mp (Bool.and_eq_true_iff.mp writes).1).1
  by_contra both
  rw [Bool.not_eq_false] at both
  have sramState : p.core.mt.engines.sram.state = .reading := by
    have writes := (SramController.midWrEn_eq _ _).symm.trans both
    exact beq_iff_eq.mp (Bool.and_eq_true_iff.mp writes).1
  -- both would read for the descriptor that was started last, and its halves are opposite
  obtain ⟨w, axiLast, axiReads⟩ := inv.axiReads (.inr axiState)
  obtain ⟨v, sramLast, sramReads⟩ := inv.sramReads sramState
  have axiPairs := inv.dmAxiHolds.initial
  have sramPairs := inv.dmSramHolds.initial
  rw [inv.axiPairs] at axiPairs
  rw [inv.sramPairs] at sramPairs
  have axiLength := inv.axiStarted
  have sramLength := inv.sramStarted
  simp only [axiBusy, axiState] at axiLength
  simp only [sramBusy, sramState] at sramLength
  have opposite := rw_of_last_halves axiPairs sramPairs axiLength sramLength axiLast sramLast
  rw [axiReads, sramReads] at opposite
  exact absurd opposite (by decide)

theorem Inv.noDrop (inv : Inv p) (i : DmaCore.In addrWidth) :
    NoDrop p.core.mt (DmaCore.mtIn p.core i) where
  dfIn := inv.dfInRespects.room
  dfOut := dfOutRespects.room
  descToDm := inv.descToDmRespects.room
  dmAxi := inv.dmAxiRespects.room
  dmSram := inv.dmSramRespects.room
  mid := (midRespects _ _).room
  midWriter := inv.midWriter

/-! ## What one place hands on is what the next one gets -/

/-- The reads go to the accepted addresses in order. -/
theorem Inv.reads_held (inv : Inv p) :
    p.reads.finished.map DescRead.addr ++ AxiMaster.heldAddr p.core.mt.engines.axi p.reads <+:
      p.accepted := by
  have all : p.dfIn.into.map Handle.addr <+: p.accepted := by
    refine ⟨(DescriptorFetcher.heldHandle p.core.mt.df).map Handle.addr, ?_⟩
    rw [← List.map_append, ← inv.handles, List.map_map]
    exact List.map_id _
  rw [← inv.fetches.addrs]
  exact (inv.dfInHolds.initial.map _).trans all

theorem Inv.reads_initial (inv : Inv p) :
    p.reads.finished.map DescRead.addr <+: p.accepted :=
  (List.prefix_append _ _).trans inv.reads_held

theorem Inv.popped_initial (inv : Inv p) :
    p.popped <+: p.reads.finished.map (packDesc ∘ DescRead.words) := by
  have pushed : p.dfOut.into <+: p.reads.finished.map (packDesc ∘ DescRead.words) :=
    ⟨_, inv.fetches.descs.symm⟩
  exact inv.dfOutHolds.initial.trans pushed

theorem Inv.goods_eq (inv : Inv p) :
    p.goods = p.descToDm.into ++ DescriptorFetcher.heldDesc p.core.mt.df := inv.goods

theorem Inv.paired_initial (inv : Inv p) : p.paired <+: p.goods := by
  have moved : p.paired <+: p.descToDm.outOf := ⟨_, inv.moved.symm⟩
  have handed : p.descToDm.into <+: p.goods := ⟨_, inv.goods.symm⟩
  exact (moved.trans inv.descToDmHolds.initial).trans handed

/-- A good descriptor without its pair is in `descriptor_fetcher`, the FIFO or the data
    mover. -/
theorem Inv.length_goods (inv : Inv p) :
    p.goods.length = p.paired.length + (DataMover.held p.core.mt.dataMover).length +
      p.core.mt.descToDmFifo.contents.length +
      (DescriptorFetcher.heldDesc p.core.mt.df).length := by
  have goods := congrArg List.length inv.goods_eq
  have moved := congrArg List.length inv.moved
  have queued := inv.descToDmHolds.length
  rw [List.length_append] at goods moved
  omega

theorem goods_step (p : Pipeline k addrWidth) (i : DmaCore.In addrWidth) :
    p.goods <+: (step p i).goods := by
  unfold goods
  rw [popped_step, List.filter_append]
  exact List.prefix_append _ _

/-! ## A popped descriptor gets its pair

The data mover never waits: the instruction FIFOs have room for all that is inside. -/

theorem Inv.dmSram_length_le (inv : Inv p) : p.core.mt.dmFifoSram.contents.length ≤ 4 := by
  have few := inv.inside_le
  have axiPairs := congrArg List.length inv.axiPairs
  have sramPairs := congrArg List.length inv.sramPairs
  rw [List.length_map] at axiPairs sramPairs
  have axiHeld := inv.dmAxiHolds.length
  have sramHeld := inv.dmSramHolds.length
  have axiStarted := inv.axiStarted
  have sramStarted := inv.sramStarted
  unfold inside at few
  omega

theorem Inv.dm_not_full (inv : Inv p) :
    p.core.mt.dmFifoAxi.full = false ∧ p.core.mt.dmFifoSram.full = false := by
  have few := inv.inside_le
  have sram := inv.dmSram_length_le
  unfold inside at few
  exact ⟨Fifo.full_eq_false_of_lt (by change _ < 16; omega),
    Fifo.full_eq_false_of_lt (by change _ < 16; omega)⟩

/-- Cycles before the data mover sends the next pair, when a descriptor is on its way. -/
def toSend (mt : MovementTop.State k addrWidth) : Nat :=
  match mt.dataMover.state with
  | .sendInstr => 0
  | .decode => 1
  | .getData =>
    if mt.descToDmFifo.empty = false then 2
    else if mt.descToDmFifo.contents ≠ [] then 3
    else 4

/-- Cycles before the first `n` good descriptors have their pairs, at most. -/
def toPair (n : Nat) (p : Pipeline k addrWidth) : Nat :=
  if p.paired.length < n then 5 * (n - 1 - p.paired.length) + toSend p.core.mt + 1 else 0

theorem toSend_le (mt : MovementTop.State k addrWidth) : toSend mt ≤ 4 := by
  unfold toSend
  split
  · omega
  · omega
  · split
    · omega
    · split <;> omega

/-- While a descriptor is on its way, the data mover comes nearer to the next pair. -/
theorem Inv.toSend_step (inv : Inv p) (waits : p.paired.length < p.goods.length)
    (busy : p.core.mt.dataMover.state ≠ .sendInstr) :
    toSend (p.step i).core.mt + 1 ≤ toSend p.core.mt := by
  have place := inv.length_goods
  have ok := inv.descToDmHolds.ok
  cases state : p.core.mt.dataMover.state with
  | sendInstr => exact absurd state busy
  | decode =>
    have sends : (p.step i).core.mt.dataMover.state = .sendInstr := by
      simp [Pipeline.step, DmaCore.step, MovementTop.step, DataMover.next, state]
    simp [toSend, state, sends]
  | getData =>
    cases empty : p.core.mt.descToDmFifo.empty with
    | false =>
      have decodes : (p.step i).core.mt.dataMover.state = .decode := by
        simp [Pipeline.step, DmaCore.step, MovementTop.step, DataMover.next, state, MovementTop.dmIn, empty]
      simp [toSend, state, decodes, empty]
    | true =>
      have stays : (p.step i).core.mt.dataMover.state = .getData := by
        simp [Pipeline.step, DmaCore.step, MovementTop.step, DataMover.next, state, MovementTop.dmIn, empty]
      have idle : (MovementTop.descToDmFifoIn p.core.mt).rdEn = false := by
        simp [MovementTop.descToDmFifoIn, DataMover.dfDmInRdEn, MovementTop.dmIn, empty]
      have kept := Fifo.remaining_of_idle (f := p.core.mt.descToDmFifo) idle
      by_cases word : p.core.mt.descToDmFifo.contents = []
      · -- the descriptor is still in the fetcher's write register
        have writes : p.core.mt.df.dmInWrEn = true := by
          by_contra none
          simp only [DataMover.held, state, word, DescriptorFetcher.heldDesc, none] at place
          simp only [if_true, List.length_nil] at place
          exact absurd place (by simp; omega)
        have contents : (p.step i).core.mt.descToDmFifo.contents = _ :=
          Fifo.contents_step ok (MovementTop.descToDmFifoIn p.core.mt)
        have room := inv.descToDmRespects.room writes
        have some : (p.step i).core.mt.descToDmFifo.contents ≠ [] := by
          rw [contents, Fifo.accepted, room]
          simp [MovementTop.descToDmFifoIn, writes]
        simp only [toSend, state, stays, empty, word]
        split <;> simp
      · -- the word is in the FIFO, whose flag is one cycle late
        have shows : (p.step i).core.mt.descToDmFifo.empty = false := by
          refine (Fifo.empty_step _ (MovementTop.descToDmFifoIn p.core.mt)).trans ?_
          rw [kept, List.isEmpty_eq_false_iff]
          exact word
        simp [toSend, state, stays, empty, word, shows]

theorem paired_length_step : (p.step i).paired.length = p.paired.length +
    (DataMover.wrEn p.core.mt.dataMover (MovementTop.dmIn p.core.mt)).toNat := by
  rw [Pipeline.step, List.length_append]
  cases DataMover.wrEn p.core.mt.dataMover (MovementTop.dmIn p.core.mt) <;> rfl

theorem Inv.toPair_step (inv : Inv p) {n : Nat} (popped : n ≤ p.goods.length) :
    toPair n (p.step i) ≤ toPair n p - 1 := by
  -- a pair costs five cycles at most: up to four to the send, and the send
  have grows := paired_length_step (p := p) (i := i)
  have phase := toSend_le (p.step i).core.mt
  unfold toPair
  by_cases waits : p.paired.length < n
  · rw [if_pos waits]
    by_cases sends : p.core.mt.dataMover.state = .sendInstr
    · obtain ⟨axi, sram⟩ := inv.dm_not_full
      have sent : DataMover.wrEn p.core.mt.dataMover (MovementTop.dmIn p.core.mt) = true := by
        simp [DataMover.wrEn, sends, MovementTop.dmIn, axi, sram]
      rw [sent, Bool.toNat_true] at grows
      split <;> omega
    · have nearer := inv.toSend_step (i := i) (Nat.lt_of_lt_of_le waits popped) sends
      split <;> omega
  · rw [if_neg waits, if_neg (by omega)]

/-- A list of at least the length that starts a longer one is the longer start. -/
theorem initial_of_length_le {α : Type} {l m all : List α} (first : l <+: all) (second : m <+: all)
    (shorter : l.length ≤ m.length) : l <+: m := by
  rw [List.prefix_iff_eq_take] at first second
  rw [List.prefix_iff_eq_take, second, List.take_take, Nat.min_eq_left shorter]
  exact first

theorem inv_of_legalRun (inv : Inv p) {is : List (DmaCore.In addrWidth)}
    (runs : LegalRun Pipeline.step Legal p is) : Inv (run Pipeline.step p is) :=
  runs.invariant (fun _ _ inv legal => inv.step legal) inv

theorem Inv.toPair_le (inv : Inv p) : toPair p.goods.length p ≤ 20 := by
  have few := inv.inside_le
  have place := inv.length_goods
  have phase := toSend_le p.core.mt
  unfold inside at few
  unfold toPair
  split <;> omega

theorem le_length_paired {n : Nat} (none : toPair n p = 0) : n ≤ p.paired.length := by
  unfold toPair at none
  by_contra short
  rw [if_pos (by omega)] at none
  omega

/-- Every popped descriptor in range gets its pair within 20 cycles. -/
theorem Inv.goods_paired (inv : Inv p) {is : List (DmaCore.In addrWidth)}
    (runs : LegalRun Pipeline.step Legal p is) (long : 20 ≤ is.length) :
    p.goods <+: (run Pipeline.step p is).paired := by
  -- the measure is for the descriptors good now, which stay a start of all good ones
  let Kept (q : Pipeline k addrWidth) : Prop := Inv q ∧ p.goods <+: q.goods
  have kept : ∀ q i, Kept q → Legal q i → Kept (q.step i) := fun q i ⟨inv, first⟩ legal =>
    ⟨inv.step legal, first.trans (Pipeline.goods_step q i)⟩
  have down := runs.countdown (P := Kept) (μ := toPair p.goods.length) kept
    (fun q i ⟨inv, first⟩ _ => inv.toPair_step first.length_le) ⟨inv, List.prefix_rfl⟩
  obtain ⟨inv', first⟩ := runs.invariant kept ⟨inv, List.prefix_rfl⟩
  have start := inv.toPair_le
  exact initial_of_length_le first inv'.paired_initial (le_length_paired (by omega))

/-- What exactly-once execution says at one point of a run. -/
structure ExecutesOnce (p : Pipeline k addrWidth) : Prop where
  /-- No FIFO drops a word in the next cycle, whatever its inputs. -/
  noDrop : ∀ i, NoDrop p.core.mt (DmaCore.mtIn p.core i)
  /-- The descriptor reads went to the accepted addresses, in order. -/
  addresses : p.reads.finished.map DescRead.addr <+: p.accepted
  four : ∀ read ∈ p.reads.finished, read.words.length = 4
  /-- The popped descriptors are the words of these reads, in order. -/
  words : p.popped <+: p.reads.finished.map (packDesc ∘ DescRead.words)
  /-- `df_error` pulses once for each popped descriptor whose last SRAM word is past
      `MAX_SRAM_ADDR` (`outOfRange_iff`). -/
  errors : p.errors = p.popped.filter DescriptorFetcher.outOfRange
  /-- The others get one instruction pair each, in order, ... -/
  pairs : p.paired <+: p.goods
  /-- ... and within 20 cycles. -/
  served : ∀ js, LegalRun Pipeline.step Legal p js → 20 ≤ js.length →
    p.goods <+: (run Pipeline.step p js).paired
  axiStarts : p.dmAxi.outOf <+: p.paired.map DataMover.decodeAxi
  sramStarts : p.dmSram.outOf <+: p.paired.map DataMover.decodeSram
  /-- `dm_done` pulses once for each pair both engines have finished. -/
  answered : p.tally.answered + p.core.mt.dmDone.toNat = p.errors.length + p.finished

theorem Inv.executesOnce (inv : Inv p) : ExecutesOnce p where
  noDrop := inv.noDrop
  addresses := inv.reads_initial
  four := inv.fetches.four
  words := inv.popped_initial
  errors := inv.errors
  pairs := inv.paired_initial
  served := fun _ => inv.goods_paired
  axiStarts := inv.axiPairs ▸ inv.dmAxiHolds.initial
  sramStarts := inv.sramPairs ▸ inv.dmSramHolds.initial
  answered := inv.answered

end Pipeline

/-- In every state of every legal run from hard reset no FIFO drops a
    word, every accepted request is read and popped in order, and every popped descriptor
    either raises `df_error` or is started once by both engines, in order. -/
theorem exactly_once {k addrWidth : Nat} {s : DmaCore.State k addrWidth}
    {is : List (DmaCore.In addrWidth)}
    (runs : LegalRun Pipeline.step Pipeline.Legal (Pipeline.start s) is) :
    (run Pipeline.step (Pipeline.start s) is).ExecutesOnce :=
  (Pipeline.inv_of_legalRun (Pipeline.inv_start s) runs).executesOnce

/-! ## A concrete run -/

def zeroed (k addrWidth : Nat) : DmaCore.State k addrWidth :=
  { rm := RingManager.resetState maxInflight
    mt :=
      { df := DescriptorFetcher.resetState
        dfInFifo := ⟨fun _ => ⟨0, 0⟩, 0, 0, ⟨0, 0⟩, true⟩
        dfOutFifo := ⟨fun _ => ⟨0, 0, 0, 0⟩, 0, 0, ⟨0, 0, 0, 0⟩, true⟩
        descToDmFifo := ⟨fun _ => ⟨0, 0, 0, 0⟩, 0, 0, ⟨0, 0, 0, 0⟩, true⟩
        dataMover := DataMover.resetState
        dmFifoAxi := ⟨fun _ => ⟨0, 0, false⟩, 0, 0, ⟨0, 0, false⟩, true⟩
        dmFifoSram := ⟨fun _ => ⟨0, 0, false⟩, 0, 0, ⟨0, 0, false⟩, true⟩
        engines := (Transfer.atReset k fun _ => 0).eng
        handshakeDoneD := false
        dmDone := false } }

/-- A cycle with `tail` descriptors posted from `baseaddr` on, and the slave's signals. -/
def postedCycle (baseaddr tail : Word) (o : Axi4Slave) : DmaCore.In 3 :=
  { csr := { baseaddr := baseaddr, ringlen := 4, tail := tail, enable := true, reset := false,
             irqEn := false, errorClear := false }
    axi := o, init := { initDone := true, addr := 0, wrEn := false, din := 0 } }

/-- The beats of a descriptor. -/
def descBeats (d : Desc) : List Axi4Slave :=
  [{ readySlave with rvalid := true, rdata := d.w0 }, { readySlave with rvalid := true, rdata := d.w1 },
    { readySlave with rvalid := true, rdata := d.w2 },
    { readySlave with rvalid := true, rdata := d.w3, rlast := true }]

/-- Of two descriptors the first asks for SRAM word 65536, which is refused; the word of the second
    one is stored to address 4. -/
theorem exactly_once_two :
    let is := (List.replicate 6 readySlave ++ descBeats ⟨0x40000, 4, 1, 0⟩ ++ List.replicate 4 readySlave ++
      descBeats ⟨0, 4, 1, 0⟩ ++ List.replicate 18 readySlave).map (postedCycle 256 2)
    let p := run Pipeline.step (Pipeline.start (zeroed 2 3)) is
    p.ExecutesOnce ∧ p.errors = [⟨0x40000, 4, 1, 0⟩] ∧ p.paired = [⟨0, 4, 1, 0⟩] ∧ p.finished = 1 :=
  ⟨exactly_once (by decide), by decide⟩

end AxiDma.Verified
