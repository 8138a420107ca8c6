import AxiDma.Lib.Run
import AxiDma.Rtl.Packed
import AxiDma.Verified.GoldenMove

/-! # The instruction pairs of the data mover

`Mover` is `data_mover` on packed vectors with the descriptors it has popped and the words it
has written to the two instruction FIFOs.  In every run, whatever the three FIFOs signal, the
words narrowed to 41 bits are the pairs of `_desc_to_instr_pair`, in order.
-/

namespace AxiDma.Verified

open AxiDma.Lib AxiDma.Rtl
open AxiDma.Golden (build65 narrow65To41 descToInstrPair mask32)

/-! ## Bits and numbers

The slices of the RTL are the shifts and masks of the golden model. -/

theorem toNat_narrowBits (wide : BitVec 65) :
    (MovementTop.narrowBits wide).toNat = narrow65To41 wide.toNat := by
  have low (n : Nat) : n &&& 0xFFFFFFFF = n % 2 ^ 32 := Golden.and_mask32 n
  have mid (n : Nat) : n &&& 0xFF = n % 2 ^ 8 := Golden.and_0xFF n
  have top (n : Nat) : n &&& 1 = n % 2 ^ 1 := Golden.and_0x1 n
  rw [narrow65To41, low, mid, top, MovementTop.narrowBits, BitVec.toNat_append,
    BitVec.toNat_append, BitVec.extractLsb'_toNat, BitVec.extractLsb'_toNat,
    BitVec.extractLsb'_toNat, Nat.shiftLeft_or_distrib, ← Nat.shiftLeft_add, Nat.shiftRight_zero,
    Nat.or_comm, Nat.or_comm (_ <<< (8 + 32)), Nat.or_assoc]
  rfl

theorem toNat_build (rw : BitVec 1) (len addr : Word) :
    (rw ++ len ++ addr).toNat = build65 addr.toNat len.toNat rw.toNat := by
  have low (n : Nat) : n &&& 0xFFFFFFFF = n % 2 ^ 32 := Golden.and_mask32 n
  have top (n : Nat) : n &&& 1 = n % 2 ^ 1 := Golden.and_0x1 n
  rw [build65, low, low, top, Nat.mod_eq_of_lt addr.isLt, Nat.mod_eq_of_lt len.isLt,
    Nat.mod_eq_of_lt rw.isLt, BitVec.toNat_append, BitVec.toNat_append, Nat.shiftLeft_or_distrib,
    ← Nat.shiftLeft_add, Nat.or_comm, Nat.or_comm (_ <<< (32 + 32)), Nat.or_assoc]

/-- A word of the packed descriptor, masked once more. -/
theorem and_mask32_slice (d : BitVec 128) (i : Nat) :
    d.toNat >>> i &&& mask32 = (d.extractLsb' i 32).toNat := by
  rw [Golden.and_mask32, BitVec.extractLsb'_toNat]

theorem and_mask32_word (w : Word) : w.toNat &&& mask32 = w.toNat := by
  rw [Golden.and_mask32, Nat.mod_eq_of_lt w.isLt]

/-- `from_packed` reads the four words of the descriptor. -/
theorem fromPacked_eq (d : BitVec 128) :
    Golden.Descriptor.fromPacked d.toNat =
      { w0 := (d.extractLsb' 0 32).toNat, w1 := (d.extractLsb' 32 32).toNat,
        w2 := (d.extractLsb' 64 32).toNat, w3 := (d.extractLsb' 96 32).toNat } := by
  have whole : d.toNat &&& (1 <<< 128 - 1) = d.toNat := by
    rw [show 1 <<< 128 - 1 = 2 ^ 128 - 1 from rfl, Nat.and_two_pow_sub_one_eq_mod,
      Nat.mod_eq_of_lt d.isLt]
  have w0 := and_mask32_slice d 0
  rw [Nat.shiftRight_zero] at w0
  simp only [Golden.Descriptor.fromPacked, Golden.Descriptor.init, whole, w0, and_mask32_slice,
    and_mask32_word]

/-- `FLAGS[0]` is bit 96. -/
theorem dirBit_iff (d : BitVec 128) :
    (d.extractLsb' 96 32).toNat &&& 1 ≠ 0 ↔ d.getLsbD 96 = true := by
  have bit : d.getLsbD 96 = (d.extractLsb' 96 32).getLsbD 0 := by simp
  rw [bit, BitVec.getLsbD, Nat.testBit_zero, decide_eq_true_iff, Golden.and_0x1]
  omega

/-- Both decoded words, narrowed, are the pair of the golden model. -/
theorem narrowed_eq_pair (d : BitVec 128) :
    ((MovementTop.narrowBits (DataMoverBits.decodeAxi d)).toNat,
        (MovementTop.narrowBits (DataMoverBits.decodeSram d)).toNat) =
      descToInstrPair (.fromPacked d.toNat) := by
  rw [toNat_narrowBits, toNat_narrowBits, fromPacked_eq, descToInstrPair]
  simp only [and_mask32_word, dirBit_iff, DataMoverBits.decodeAxi, DataMoverBits.decodeSram]
  cases dir : d.getLsbD 96 with
  | true =>
    simp only [if_true, toNat_build]
    rfl
  | false =>
    simp only [Bool.false_eq_true, if_false, toNat_build]
    rfl

/-! ## Runs -/

/-- The data mover with what it has popped and written. -/
structure Mover where
  dm : DataMoverBits.State
  popped : List (BitVec 128)
  axi : List (BitVec 65)
  sram : List (BitVec 65)

namespace Mover

open DataMoverBits

def start : Mover := { dm := resetState, popped := [], axi := [], sram := [] }

def step (m : Mover) (i : In) : Mover :=
  let o := out m.dm i
  { dm := next m.dm i
    popped := m.popped ++ if o.dfDmInRdEn then [i.dfDmInDout] else []
    axi := m.axi ++ if o.dmAxiOutWrEn then [o.dmAxiOutDin] else []
    sram := m.sram ++ if o.dmSramOutWrEn then [o.dmSramOutDin] else [] }

structure Emits (m : Mover) : Prop where
  /-- The words written so far are the pairs of the first descriptors popped, in order. -/
  axi : m.axi.map (fun wide => (MovementTop.narrowBits wide).toNat) =
    (m.popped.take m.axi.length).map fun d => (descToInstrPair (.fromPacked d.toNat)).1
  sram : m.sram.map (fun wide => (MovementTop.narrowBits wide).toNat) =
    (m.popped.take m.sram.length).map fun d => (descToInstrPair (.fromPacked d.toNat)).2
  lockstep : m.axi.length = m.sram.length
  /-- One descriptor at most is popped and not emitted. -/
  behind : m.popped.length ≤ m.axi.length + 1
  /-- When none is, the next is popped as soon as it is there, and not before. -/
  pops : ∀ i, (out m.dm i).dfDmInRdEn = true ↔
    i.dfDmInEmpty = false ∧ m.popped.length = m.axi.length
  together : ∀ i, (out m.dm i).dmAxiOutWrEn = (out m.dm i).dmSramOutWrEn
  room : ∀ i, (out m.dm i).dmAxiOutWrEn = true →
    i.dmAxiOutFull = false ∧ i.dmSramOutFull = false
  /-- Two cycles are enough, if both FIFOs have room in the second. -/
  soon : ∀ i j, j.dmAxiOutFull = false → j.dmSramOutFull = false →
    m.popped.length ≤ ((m.step i).step j).axi.length

/-! ## The invariant -/

theorem enables_eq (s : State) (i : In) :
    (out s i).dfDmInRdEn = (s.state == .getData && !i.dfDmInEmpty) ∧
      (out s i).dmAxiOutWrEn = (s.state == .sendInstr && !i.dmSramOutFull && !i.dmAxiOutFull) ∧
      (out s i).dmSramOutWrEn =
        (s.state == .sendInstr && !i.dmSramOutFull && !i.dmAxiOutFull) := by
  cases state : s.state with
  | getData => cases empty : i.dfDmInEmpty <;> simp [out, comb, state, empty]
  | decode => simp [out, comb, state]
  | sendInstr =>
    cases sramFull : i.dmSramOutFull <;> cases axiFull : i.dmAxiOutFull <;>
      simp [out, comb, state, sramFull, axiFull]

theorem length_axi_step (m : Mover) (i : In) :
    (m.step i).axi.length = m.axi.length + (out m.dm i).dmAxiOutWrEn.toNat := by
  cases writes : (out m.dm i).dmAxiOutWrEn <;> simp [step, writes]

/-- `sent` are the descriptors whose pair is written; at most one more is held. -/
structure Inv (m : Mover) (sent : List (BitVec 128)) : Prop where
  popped : m.popped = sent ++ if m.dm.state = .getData then [] else [m.dm.inputData]
  axi : m.axi = sent.map decodeAxi
  sram : m.sram = sent.map decodeSram
  decoded : m.dm.state = .sendInstr →
    m.dm.instrAxi = decodeAxi m.dm.inputData ∧ m.dm.instrSram = decodeSram m.dm.inputData

variable {m : Mover} {sent : List (BitVec 128)}

theorem inv_start : Inv start [] where
  popped := rfl
  axi := rfl
  sram := rfl
  decoded := fun sends => absurd sends (by decide)

theorem Inv.step (inv : Inv m sent) (i : In) :
    Inv (m.step i) (sent ++ if (out m.dm i).dmAxiOutWrEn then [m.dm.inputData] else []) := by
  obtain ⟨popped, axi, sram, decoded⟩ := inv
  cases state : m.dm.state with
  | getData =>
    cases empty : i.dfDmInEmpty <;> constructor <;>
      simp_all [Mover.step, out, next, comb]
  | decode => constructor <;> simp_all [Mover.step, out, next, comb]
  | sendInstr =>
    -- the pair of the descriptor held is written, or everything waits
    obtain ⟨axiWord, sramWord⟩ := decoded state
    cases axiFull : i.dmAxiOutFull <;> cases sramFull : i.dmSramOutFull <;> constructor <;>
      simp_all [Mover.step, out, next, comb]

/-- A descriptor held in `DECODE` is in `SEND_INSTR` next, where it waits for room. -/
theorem soon (m : Mover) {i j : In} (held : m.dm.state ≠ .getData) (axiRoom : j.dmAxiOutFull = false)
    (sramRoom : j.dmSramOutFull = false) :
    m.axi.length + 1 ≤ ((m.step i).step j).axi.length := by
  rw [length_axi_step, length_axi_step, (enables_eq _ j).2.1, (enables_eq _ i).2.1, axiRoom,
    sramRoom]
  have next : (m.step i).dm.state = (next m.dm i).state := rfl
  rw [next]
  cases state : m.dm.state with
  | getData => exact absurd state held
  | decode => simp [DataMoverBits.next, comb, state]
  | sendInstr =>
    cases sramFull : i.dmSramOutFull <;> cases axiFull : i.dmAxiOutFull <;>
      simp [DataMoverBits.next, comb, state, sramFull, axiFull]

theorem Inv.emits (inv : Inv m sent) : Emits m := by
  obtain ⟨popped, axi, sram, decoded⟩ := inv
  have axiCount : m.axi.length = sent.length := by rw [axi, List.length_map]
  have sramCount : m.sram.length = sent.length := by rw [sram, List.length_map]
  have first : m.popped.take sent.length = sent := by rw [popped, List.take_left]
  have behind : m.popped.length ≤ sent.length + 1 := by
    rw [popped, List.length_append]
    split <;> simp
  constructor
  · rw [axiCount, first, axi, List.map_map]
    exact List.map_congr_left fun d _ => congrArg Prod.fst (narrowed_eq_pair d)
  · rw [sramCount, first, sram, List.map_map]
    exact List.map_congr_left fun d _ => congrArg Prod.snd (narrowed_eq_pair d)
  · rw [axiCount, sramCount]
  · rw [axiCount]
    exact behind
  · intro i
    -- nothing is held exactly in `GET_DATA`
    have free : m.popped.length = m.axi.length ↔ m.dm.state = .getData := by
      rw [axiCount, popped, List.length_append]
      split <;> simp_all
    rw [(enables_eq m.dm i).1, Bool.and_eq_true, beq_iff_eq, free, Bool.not_eq_true', and_comm]
  · intro i
    rw [(enables_eq m.dm i).2.1, (enables_eq m.dm i).2.2]
  · intro i writes
    rw [(enables_eq m.dm i).2.1, Bool.and_eq_true, Bool.and_eq_true] at writes
    exact ⟨Bool.eq_false_of_not_eq_true' writes.2, Bool.eq_false_of_not_eq_true' writes.1.2⟩
  · intro i j axiRoom sramRoom
    by_cases held : m.dm.state = .getData
    · rw [popped, if_pos held, List.append_nil, ← axiCount, length_axi_step, length_axi_step]
      omega
    · have emitted := soon m (i := i) held axiRoom sramRoom
      omega

end Mover

/-- The data mover emits the pairs of the golden model, in every state of every run, for any
    descriptors and any pattern of `empty` and of the two `full` flags. -/
theorem data_mover_emits_pairs (is : List DataMoverBits.In) :
    Mover.Emits (run Mover.step Mover.start is) := by
  have inv : ∃ sent, Mover.Inv (run Mover.step Mover.start is) sent := by
    apply run_invariant (P := fun m => ∃ sent, Mover.Inv m sent)
    · rintro m i ⟨sent, inv⟩
      exact ⟨_, inv.step i⟩
    · exact ⟨_, Mover.inv_start⟩
  obtain ⟨_, inv⟩ := inv
  exact inv.emits

/-- A cycle that offers `d`, with the two `full` flags. -/
def moverCycle (d : BitVec 128) (axiFull sramFull : Bool) : DataMoverBits.In :=
  { dfDmInDout := d, dfDmInEmpty := false, dmAxiOutFull := axiFull, dmSramOutFull := sramFull }

/-- A descriptor to the SRAM whose pair waits for the AXI FIFO, and one from the SRAM whose pair
    waits for the other. -/
theorem data_mover_emits_pairs_two :
    let d : BitVec 128 := 0x00000001000000020000000800000010
    let e : BitVec 128 := 0x00000000000000030000004000000004
    let is := List.replicate 2 (moverCycle d false false) ++
      [moverCycle e true false, moverCycle e false false] ++
      List.replicate 2 (moverCycle e false false) ++
      [moverCycle d false true, moverCycle d false false]
    let m := run Mover.step Mover.start is
    m.Emits ∧ m.popped = [d, e] ∧
      m.axi.map (fun wide => (MovementTop.narrowBits wide).toNat) =
        [(descToInstrPair (.fromPacked d.toNat)).1, (descToInstrPair (.fromPacked e.toNat)).1] :=
  ⟨data_mover_emits_pairs _, by decide, by decide⟩

end AxiDma.Verified
