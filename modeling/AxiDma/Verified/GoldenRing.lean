import AxiDma.Verified.GoldenMove

/-! # The golden ring, call by call

`fetchNextDescriptor_eq_ok` and `enqueue_eq_ok` say when a call of the ring returns, and what
it leaves: a fetch reads the four words of the slot under HEAD and changes nothing, a
post writes the four words of the slot under TAIL and moves TAIL on.
-/

namespace AxiDma.Golden

open AxiDma.Lib

/-! ## Registers -/

@[simp] theorem CSR.read_set_self (c : CSR) (offset value : Nat) :
    (c.set offset value).read offset = value := Function.update_self ..

theorem CSR.read_set_of_ne {c : CSR} {offset other value : Nat} (distinct : other ≠ offset) :
    (c.set offset value).read other = c.read other := Function.update_of_ne distinct ..

theorem maskInt_natCast {n : Nat} (small : n < 2 ^ 32) : maskInt n = n := by
  rw [maskInt]
  omega

theorem maskInt_lt (x : Int) : maskInt x < 2 ^ 32 := by
  rw [maskInt]
  omega

/-! ## Descriptors in memory -/

theorem and_mask128 (n : Nat) : n &&& (1 <<< 128 - 1) = n % 2 ^ 128 :=
  Nat.and_two_pow_sub_one_eq_mod n 128

theorem packDescriptorWords_eq {a b c d : Nat} (masked : Masked ⟨a, b, c, d⟩) :
    packDescriptorWords [a, b, c, d] = a + b * 2 ^ 32 + c * 2 ^ 64 + d * 2 ^ 96 := by
  obtain ⟨w0, w1, w2, w3⟩ := masked
  dsimp only at w0 w1 w2 w3
  have words : packDescriptorWords [a, b, c, d] =
      (0 ||| (a &&& mask32) <<< (32 * 0) ||| (b &&& mask32) <<< (32 * 1) |||
        (c &&& mask32) <<< (32 * 2) ||| (d &&& mask32) <<< (32 * 3)) &&& (1 <<< 128 - 1) := rfl
  rw [words, and_mask128, and_mask32, and_mask32, and_mask32, and_mask32,
    Nat.mod_eq_of_lt w0, Nat.mod_eq_of_lt w1, Nat.mod_eq_of_lt w2, Nat.mod_eq_of_lt w3,
    Nat.zero_or, Nat.shiftLeft_zero, or_shiftLeft w0]
  have low : a + b * 2 ^ (32 * 1) < 2 ^ (32 * 2) := by omega
  rw [or_shiftLeft low, or_shiftLeft (by omega)]
  omega

/-- The packed words of a descriptor are its `pack`, and unpack to it. -/
theorem fromPacked_words {d : Descriptor} (masked : Masked d) :
    Descriptor.fromPacked (packDescriptorWords [d.w0, d.w1, d.w2, d.w3]) = d := by
  rw [packDescriptorWords_eq masked]
  obtain ⟨w0, w1, w2, w3⟩ := masked
  cases d
  simp only [Descriptor.fromPacked, Descriptor.init, and_mask128, and_mask32, Nat.shiftRight_eq_div_pow,
    Descriptor.mk.injEq] at *
  omega

variable {w w' : World} {d : Descriptor}

/-- The four words from `a` on, as the engines read them. -/
def descAt (mem : List Nat) (a : Nat) : Descriptor :=
  .init ((mem[a]?).getD 0) ((mem[a + 1]?).getD 0) ((mem[a + 2]?).getD 0) ((mem[a + 3]?).getD 0)

theorem descAt_congr {mem mem' : List Nat} {a : Nat}
    (same : ∀ i, a ≤ i → i < a + 4 → mem'[i]? = mem[i]?) : descAt mem' a = descAt mem a := by
  rw [descAt, descAt, same a (by omega) (by omega), same (a + 1) (by omega) (by omega),
    same (a + 2) (by omega) (by omega), same (a + 3) (by omega) (by omega)]

theorem masked_init (a b c d : Nat) : Masked (Descriptor.init a b c d) := by
  constructor <;>
  · simp only [Descriptor.init, and_mask32]
    omega

theorem masked_descAt (mem : List Nat) (a : Nat) : Masked (descAt mem a) := masked_init ..

theorem block_four (mem : List Nat) (a : Nat) :
    block mem a 4 =
      [(descAt mem a).w0, (descAt mem a).w1, (descAt mem a).w2, (descAt mem a).w3] := by
  simp only [block, descAt, Descriptor.init, List.range, List.range.loop, List.map, Nat.add_zero]

theorem fromPacked_block (mem : List Nat) (a : Nat) :
    Descriptor.fromPacked (packDescriptorWords (block mem a 4)) = descAt mem a := by
  rw [block_four, fromPacked_words (masked_descAt mem a)]

/-- The four words from `a` on are `d`. -/
structure Holds (mem : List Nat) (a : Nat) (d : Descriptor) : Prop where
  w0 : mem[a]? = some d.w0
  w1 : mem[a + 1]? = some d.w1
  w2 : mem[a + 2]? = some d.w2
  w3 : mem[a + 3]? = some d.w3

theorem Holds.of_eq {mem mem' : List Nat} {a : Nat} {d : Descriptor} (holds : Holds mem a d)
    (same : ∀ i, a ≤ i → i < a + 4 → mem'[i]? = mem[i]?) : Holds mem' a d where
  w0 := (same _ (by omega) (by omega)).trans holds.w0
  w1 := (same _ (by omega) (by omega)).trans holds.w1
  w2 := (same _ (by omega) (by omega)).trans holds.w2
  w3 := (same _ (by omega) (by omega)).trans holds.w3

theorem Holds.descAt_eq {mem : List Nat} {a : Nat} (holds : Holds mem a d) (masked : Masked d) :
    descAt mem a = d := by
  rw [descAt, holds.w0, holds.w1, holds.w2, holds.w3]
  simp only [Option.getD_some, Descriptor.init, and_mask32, Nat.mod_eq_of_lt masked.w0,
    Nat.mod_eq_of_lt masked.w1, Nat.mod_eq_of_lt masked.w2, Nat.mod_eq_of_lt masked.w3]

/-! ## The fetch -/

/-- Nothing is under way between the ring and the master. -/
structure FetchReady (w : World) : Prop where
  dfIn : w.dfIn.buffer = []
  dfOut : w.dfOut.buffer = []
  dfInTakes : w.dfIn.queueLength ≠ 0
  dfOutTakes : w.dfOut.queueLength ≠ 0

theorem Quiet.fetchReady {w : World} (quiet : Quiet w) (queues : Queues w) : FetchReady w :=
  ⟨quiet.dfIn, quiet.dfOut, queues.dfIn, queues.dfOut⟩

theorem fields_packHandle (addr : Nat) :
    packHandle addr descWords &&& mask32 = addr % 2 ^ 32 ∧
      (packHandle addr descWords >>> lenLsb) &&& 0xFF = 4 := by
  have packed : packHandle addr descWords = addr % 2 ^ 32 + 4 * 2 ^ 32 := by
    rw [packHandle, and_mask32]
    exact or_shiftLeft (Nat.mod_lt _ (by decide)) 4
  rw [packed, and_mask32, and_0xFF, lenLsb, Nat.shiftRight_eq_div_pow]
  omega

/-- A handle brings the four words it points to. -/
theorem doDescriptorFetch_eq_ok {addr : Nat} (ready : FetchReady w) :
    AXI4MasterGolden.doDescriptorFetch
      { w with dfIn := { w.dfIn with buffer := [packHandle addr descWords] } } = .ok w' ↔
    BurstFits w.sysmem.mem (addr % 2 ^ 32) 4 ∧
      w' = { w with dfOut := { w.dfOut with
        buffer := [packDescriptorWords (block w.sysmem.mem (addr % 2 ^ 32 / 4) 4)] } } := by
  obtain ⟨addrField, lenField⟩ := fields_packHandle addr
  have small : addr % 2 ^ 32 < 2 ^ 32 := Nat.mod_lt _ (by decide)
  have takes : w.dfOut.buffer.length ≠ w.dfOut.queueLength := by
    rw [ready.dfOut]
    exact ready.dfOutTakes.symm
  have same : { w.dfIn with buffer := [] } = w.dfIn := FIFOQueue.emptied ready.dfIn
  simp only [AXI4MasterGolden.doDescriptorFetch, FIFOQueue.dequeue, pure_bind, addrField, lenField,
    bind_eq_ok, pure_eq_ok, raiseIf_eq_ok, exists_const,
    AXI4MasterGolden.memReadWords_eq_ok small (by decide : 4 ≠ 0), FIFOQueue.enqueue_eq_ok, same]
  constructor
  · rintro ⟨-, words, ⟨fits, rfl⟩, -, dfOut, ⟨-, rfl⟩, rfl⟩
    exact ⟨fits, by rw [ready.dfOut, List.nil_append]⟩
  · rintro ⟨fits, rfl⟩
    refine ⟨by decide, _, ⟨fits, rfl⟩, ?_, _, ⟨takes, rfl⟩, ?_⟩
    · simp [FIFOQueue.isFull, takes]
    · rw [ready.dfOut, List.nil_append]

/-- One call of the master ends the wait. -/
theorem RingManager.awaitDescriptor_eq_ok {addr left : Nat} (ready : FetchReady w) :
    awaitDescriptor (left + 1)
      { w with dfIn := { w.dfIn with buffer := [packHandle addr descWords] } } = .ok w' ↔
    BurstFits w.sysmem.mem (addr % 2 ^ 32) 4 ∧
      w' = { w with dfOut := { w.dfOut with
        buffer := [packDescriptorWords (block w.sysmem.mem (addr % 2 ^ 32 / 4) 4)] } } := by
  have none : w.dfOut.isEmpty = true := by simp [FIFOQueue.isEmpty, ready.dfOut]
  -- the next test of the loop finds the descriptor
  have ends {next : World} (has : DescriptorFetcher.hasDescriptor next = true) :
      awaitDescriptor left next = .ok next := by
    cases left <;> rw [awaitDescriptor, if_pos has] <;> rfl
  rw [awaitDescriptor, if_neg (by simp [DescriptorFetcher.hasDescriptor, none]),
    AXI4MasterGolden.processOne, if_pos (by simp [FIFOQueue.isEmpty])]
  simp only [bind_eq_ok, doDescriptorFetch_eq_ok ready, pure_eq_ok, raiseIf_eq_ok]
  constructor
  · rintro ⟨_, ⟨fetched, ⟨fits, rfl⟩, rfl⟩, _, -, rest⟩
    refine ⟨fits, ?_⟩
    rw [ends (by rfl), Except.ok.injEq] at rest
    exact rest.symm
  · rintro ⟨fits, rfl⟩
    exact ⟨_, ⟨_, ⟨fits, rfl⟩, rfl⟩, (), by simp, ends (by rfl)⟩

/-- The byte address of the slot under HEAD, as the handle holds it. -/
def headAddr (w : World) : Nat :=
  (RingManager.base w + RingManager.head w % (w.csr.ringlen &&& mask32) * descriptorSizeBytes) % 2 ^ 32

/-- A fetch takes the descriptor under HEAD and leaves the world as it was. -/
theorem RingManager.fetchNextDescriptor_eq_ok {out : Option Descriptor × World}
    (ready : FetchReady w) (more : isEmpty w = false) :
    fetchNextDescriptor w = .ok out ↔
      (w.csr.ringlen &&& mask32 ≠ 0 ∧ BurstFits w.sysmem.mem (headAddr w) 4) ∧
        out = (some (descAt w.sysmem.mem (headAddr w / 4)), w) := by
  have takes : w.dfIn.buffer.length ≠ w.dfIn.queueLength := by
    rw [ready.dfIn]
    exact ready.dfInTakes.symm
  have same : { w.dfOut with buffer := [] } = w.dfOut := FIFOQueue.emptied ready.dfOut
  rw [fetchNextDescriptor, if_neg (by simp [more])]
  simp only [ringlen, slotByteAddr, DescriptorFetcher.submitHandle, DescriptorFetcher.takeDescriptor,
    bind_eq_ok, pure_eq_ok, raiseIf_eq_ok, exists_const, FIFOQueue.enqueue_eq_ok]
  constructor
  · rintro ⟨_, ⟨set, rfl⟩, _, ⟨_, ⟨-, rfl⟩, rfl⟩, _, ⟨_, ⟨-, rfl⟩, rfl⟩, fetched, awaited, ⟨desc, left⟩,
      ⟨⟨packed, dfOut⟩, taken, eq⟩, rfl⟩
    rw [Nat.mod_mod, ready.dfIn, List.nil_append] at awaited
    obtain ⟨fits, rfl⟩ := (awaitDescriptor_eq_ok ready).mp awaited
    obtain ⟨rfl, rfl⟩ := Prod.mk.inj (pure_eq_ok.mp taken)
    obtain ⟨rfl, rfl⟩ := Prod.mk.inj eq
    exact ⟨⟨set, fits⟩, by rw [fromPacked_block, same]; rfl⟩
  · rintro ⟨⟨set, fits⟩, rfl⟩
    let packed := packDescriptorWords (block w.sysmem.mem (headAddr w / 4) 4)
    refine ⟨_, ⟨set, rfl⟩, _, ⟨_, ⟨set, rfl⟩, rfl⟩, _, ⟨_, ⟨takes, rfl⟩, rfl⟩,
      { w with dfOut := { w.dfOut with buffer := [packed] } }, ?_, _,
      ⟨(packed, { w.dfOut with buffer := [] }), rfl, rfl⟩, ?_⟩
    · rw [Nat.mod_mod, ready.dfIn, List.nil_append]
      exact (awaitDescriptor_eq_ok ready).mpr ⟨fits, rfl⟩
    · rw [fromPacked_block, same]

theorem RingManager.fetchNextDescriptor_of_isEmpty (empty : isEmpty w = true) :
    fetchNextDescriptor w = .ok (none, w) := by
  rw [fetchNextDescriptor, if_pos empty]
  rfl

/-! ## The post -/

def writeSlot (mem : List Nat) (a : Nat) (d : Descriptor) : List Nat :=
  (((mem.set (a + 0) d.w0).set (a + 1) d.w1).set (a + 2) d.w2).set (a + 3) d.w3

theorem length_writeSlot (mem : List Nat) (a : Nat) (d : Descriptor) :
    (writeSlot mem a d).length = mem.length := by
  simp only [writeSlot, List.length_set]

theorem holds_writeSlot {mem : List Nat} {a : Nat} (fits : a + 3 < mem.length) :
    Holds (writeSlot mem a d) a d := by
  constructor <;>
  · simp only [writeSlot, List.getElem?_set, List.length_set]
    grind

/-- The words a post does not reach. -/
theorem getElem?_writeSlot {mem : List Nat} {a i : Nat} (outside : i < a ∨ a + 4 ≤ i) :
    (writeSlot mem a d)[i]? = mem[i]? := by
  rw [writeSlot, List.getElem?_set_ne (by omega), List.getElem?_set_ne (by omega),
    List.getElem?_set_ne (by omega), List.getElem?_set_ne (by omega)]

/-- The word index of the slot under TAIL. -/
def tailWord (w : World) : Nat :=
  (RingManager.base w + RingManager.tail w % (w.csr.ringlen &&& mask32) * descriptorSizeBytes) / 4 %
    2 ^ 32

theorem RingManager.writeDescToMem_eq_ok {addr : Nat} :
    writeDescToMem w addr d = .ok w' ↔
      (addr / 4 % 2 ^ 32 + 4 ≤ w.sysmem.size ∧ addr / 4 % 2 ^ 32 + 3 < w.sysmem.mem.length) ∧
        w' = { w with
          sysmem := { w.sysmem with mem := writeSlot w.sysmem.mem (addr / 4 % 2 ^ 32) d } } := by
  have index : (addr >>> 2) &&& mask32 = addr / 4 % 2 ^ 32 := by
    rw [and_mask32, Nat.shiftRight_eq_div_pow]
  simp only [writeDescToMem, index, bind_eq_ok, pure_eq_ok, raiseIf_eq_ok, exists_const,
    store_eq_ok, descWords]
  constructor
  · rintro ⟨fits, _, ⟨-, rfl⟩, _, ⟨-, rfl⟩, _, ⟨-, rfl⟩, _, ⟨last, rfl⟩, rfl⟩
    simp only [List.length_set] at last
    exact ⟨⟨by omega, last⟩, rfl⟩
  · rintro ⟨⟨fits, last⟩, rfl⟩
    refine ⟨by omega, _, ⟨by omega, rfl⟩, _, ⟨?_, rfl⟩, _, ⟨?_, rfl⟩, _, ⟨?_, rfl⟩, rfl⟩ <;>
    · simp only [List.length_set]
      omega

theorem CSR.write_regTail {n : Nat} (c : CSR) (small : n < 2 ^ 32) :
    c.write regTail n = c.set regTail n := by
  rw [write, if_neg (by decide), if_neg (by decide), if_neg (by decide), maskInt_natCast small]

/-- What a post leaves. -/
def World.posted (w : World) (d : Descriptor) : World :=
  { w with
    sysmem := { w.sysmem with mem := writeSlot w.sysmem.mem (tailWord w) d }
    csr := w.csr.set CSR.regTail
      ((RingManager.tail w + 1) % (w.csr.ringlen &&& mask32)) }

theorem RingManager.isFull_eq_ok {full : Bool} :
    isFull w = .ok full ↔
      w.csr.ringlen &&& mask32 ≠ 0 ∧
        ((tail w % (w.csr.ringlen &&& mask32) + 1) % (w.csr.ringlen &&& mask32) ==
          head w % (w.csr.ringlen &&& mask32)) = full := by
  simp only [isFull, ringlen, bind_eq_ok, pure_eq_ok, raiseIf_eq_ok, exists_const]
  constructor
  · rintro ⟨_, ⟨set, rfl⟩, eq⟩
    exact ⟨set, eq⟩
  · rintro ⟨set, eq⟩
    exact ⟨_, ⟨set, rfl⟩, eq⟩

/-- A post writes the slot under TAIL and moves TAIL on. -/
theorem RingManager.enqueue_eq_ok :
    enqueue w d = .ok w' ↔
      (w.csr.ringlen &&& mask32 ≠ 0 ∧ isFull w = .ok false ∧ tailWord w + 4 ≤ w.sysmem.size ∧
        tailWord w + 3 < w.sysmem.mem.length) ∧ w' = w.posted d := by
  have wide : w.csr.ringlen &&& mask32 < 2 ^ 32 := by
    rw [and_mask32]
    omega
  have tailWritten (set : w.csr.ringlen &&& mask32 ≠ 0) :
      w.csr.write CSR.regTail ↑((tail w + 1) % (w.csr.ringlen &&& mask32)) =
        w.csr.set CSR.regTail ((tail w + 1) % (w.csr.ringlen &&& mask32)) :=
    CSR.write_regTail _ ((Nat.mod_lt _ (Nat.pos_of_ne_zero set)).trans wide)
  simp only [enqueue, ringlen, slotByteAddr, bind_eq_ok, pure_eq_ok, raiseIf_eq_ok, exists_const,
    writeDescToMem_eq_ok, Bool.not_eq_true]
  constructor
  · rintro ⟨_, ⟨set, rfl⟩, full, notFull, rfl, _, ⟨_, ⟨-, rfl⟩, rfl⟩, _, ⟨fits, rfl⟩, rfl⟩
    rw [Nat.mod_mod] at fits
    refine ⟨⟨set, notFull, fits⟩, ?_⟩
    rw [tailWritten set, Nat.mod_mod]
    rfl
  · rintro ⟨⟨set, notFull, fits⟩, rfl⟩
    refine ⟨_, ⟨set, rfl⟩, false, notFull, rfl, _, ⟨_, ⟨set, rfl⟩, rfl⟩, _, ⟨?_, rfl⟩, ?_⟩
    · rwa [Nat.mod_mod]
    · rw [tailWritten set, Nat.mod_mod]
      rfl

end AxiDma.Golden
