import AxiDma.Golden.RunGolden

/-! # What the golden engines do with a descriptor

With empty queues, `move_descriptor` copies `LEN[7:0]` words from one memory over the other:
`moved` says which, and `moveDescriptor_eq_ok` that a call that returns has done that, has
found both blocks inside their memories, and leaves the queues empty.
-/

namespace AxiDma.Golden

open AxiDma.Lib

/-! ## Bits -/

theorem and_mask32 (n : Nat) : n &&& mask32 = n % 2 ^ 32 := Nat.and_two_pow_sub_one_eq_mod n 32

theorem and_0xFF (n : Nat) : n &&& 0xFF = n % 256 := Nat.and_two_pow_sub_one_eq_mod n 8

theorem and_0x3 (n : Nat) : n &&& 0x3 = n % 4 := Nat.and_two_pow_sub_one_eq_mod n 2

theorem and_0x1 (n : Nat) : n &&& 1 = n % 2 := Nat.and_two_pow_sub_one_eq_mod n 1

/-- Fields that do not overlap are added. -/
theorem or_shiftLeft {a i : Nat} (low : a < 2 ^ i) (b : Nat) : a ||| b <<< i = a + b * 2 ^ i := by
  rw [Nat.or_comm, ← Nat.shiftLeft_add_eq_or_of_lt low, Nat.shiftLeft_eq, Nat.add_comm]

theorem build65_eq (addr len32 rw : Nat) :
    build65 addr len32 rw =
      addr % 2 ^ 32 + len32 % 2 ^ 32 * 2 ^ 32 + rw % 2 * 2 ^ 64 := by
  have fold (n : Nat) : n &&& 0xFFFFFFFF = n % 2 ^ 32 := and_mask32 n
  rw [build65, fold, fold, and_0x1, or_shiftLeft (Nat.mod_lt _ (by decide)), or_shiftLeft]
  omega

theorem narrow_eq (addr len32 rw : Nat) :
    narrow65To41 (build65 addr len32 rw) =
      addr % 2 ^ 32 + len32 % 256 * 2 ^ 32 + rw % 2 * 2 ^ 40 := by
  have fold (n : Nat) : n &&& 0xFFFFFFFF = n % 2 ^ 32 := and_mask32 n
  rw [narrow65To41, fold, and_0xFF, and_0x1, lenLsb, rwBit,
    or_shiftLeft (Nat.mod_lt _ (by decide)), or_shiftLeft (by omega), build65_eq,
    Nat.shiftRight_eq_div_pow, Nat.shiftRight_eq_div_pow]
  omega

/-- The fields the engines read back from an instruction. -/
structure Fields (instr addr beats : Nat) (isWrite : Bool) : Prop where
  addr : instr &&& mask32 = addr
  beats : (instr >>> lenLsb) &&& 0xFF = beats
  isWrite : ((instr >>> rwBit) &&& 1 != 0) = isWrite

theorem fields_narrow (addr len32 : Nat) (rw : Bool) :
    Fields (narrow65To41 (build65 addr len32 rw.toNat)) (addr % 2 ^ 32) (len32 % 256) rw := by
  have small := rw.toNat_le
  constructor
  · rw [narrow_eq, and_mask32]
    omega
  · rw [narrow_eq, and_0xFF, lenLsb, Nat.shiftRight_eq_div_pow]
    omega
  · rw [narrow_eq, and_0x1, rwBit, Nat.shiftRight_eq_div_pow]
    cases rw
    · have zero : (addr % 2 ^ 32 + len32 % 256 * 2 ^ 32 + false.toNat % 2 * 2 ^ 40) / 2 ^ 40 % 2 = 0 := by
        rw [Bool.toNat_false]
        omega
      rw [zero]
      rfl
    · have one : (addr % 2 ^ 32 + len32 % 256 * 2 ^ 32 + true.toNat % 2 * 2 ^ 40) / 2 ^ 40 % 2 = 1 := by
        rw [Bool.toNat_true]
        omega
      rw [one]
      rfl

/-! ## Blocks of words -/

/-- The words `a` to `a + n - 1`, as the engines read them. -/
def block (mem : List Nat) (a n : Nat) : List Nat :=
  (List.range n).map fun i => (mem[a + i]?).getD 0 &&& mask32

@[simp] theorem length_block (mem : List Nat) (a n : Nat) : (block mem a n).length = n := by
  simp [block]

@[simp] theorem length_storeWords (mem : List Nat) (a : Nat) (ws : List Nat) :
    (storeWords mem a ws).length = mem.length := by
  induction ws generalizing mem a with
  | nil => rfl
  | cons w ws ih => rw [storeWords, ih, List.length_set]

theorem block_succ (mem : List Nat) (a n : Nat) :
    block mem a (n + 1) = ((mem[a]?).getD 0 &&& mask32) :: block mem (a + 1) n := by
  rw [block, List.range_succ_eq_map, List.map_cons, List.map_map, Nat.add_zero, block]
  congr 1
  refine List.map_congr_left fun i _ => ?_
  rw [Function.comp, Nat.add_right_comm, Nat.add_assoc]

theorem storeWords_map_mask (mem : List Nat) (a : Nat) (ws : List Nat) :
    storeWords mem a (ws.map (· &&& mask32)) = storeWords mem a ws := by
  induction ws generalizing mem a with
  | nil => rfl
  | cons w ws ih => rw [List.map_cons, storeWords, storeWords, ih, Nat.and_assoc, Nat.and_self]

/-! ## Queues -/

theorem FIFOQueue.enqueue_eq_ok {q q' : FIFOQueue} {v : Nat} :
    q.enqueue v = .ok q' ↔
      q.buffer.length ≠ q.queueLength ∧ q' = { q with buffer := q.buffer ++ [v] } := by
  simp only [enqueue, isFull, bind_eq_ok, raiseIf_eq_ok, pure_eq_ok, beq_iff_eq, exists_const]
  exact and_congr_right fun _ => eq_comm

theorem FIFOQueue.emptied {q : FIFOQueue} (empty : q.buffer = []) : { q with buffer := [] } = q := by
  rw [← empty]

/-- The room that is left decides whether a burst goes in. -/
theorem enqueueAll_eq_ok {ws : List Nat} {q q' : FIFOQueue}
    (room : q.buffer.length ≤ q.queueLength) :
    ws.foldlM FIFOQueue.enqueue q = .ok q' ↔
      q.buffer.length + ws.length ≤ q.queueLength ∧ q' = { q with buffer := q.buffer ++ ws } := by
  induction ws generalizing q with
  | nil =>
    rw [List.foldlM_nil, pure_eq_ok, List.append_nil]
    exact ⟨fun eq => ⟨room, eq.symm⟩, fun ⟨_, eq⟩ => eq.symm⟩
  | cons w ws ih =>
    simp only [List.foldlM_cons, bind_eq_ok, FIFOQueue.enqueue_eq_ok, List.length_cons]
    constructor
    · rintro ⟨next, ⟨notFull, rfl⟩, rest⟩
      have one : (q.buffer ++ [w]).length ≤ q.queueLength := by
        rw [List.length_append, List.length_singleton]
        omega
      obtain ⟨fits, rfl⟩ := (ih one).mp rest
      simp only [List.length_append, List.length_singleton] at fits
      exact ⟨by omega, by simp⟩
    · rintro ⟨fits, rfl⟩
      have one : (q.buffer ++ [w]).length ≤ q.queueLength := by
        rw [List.length_append, List.length_singleton]
        omega
      refine ⟨_, ⟨by omega, rfl⟩, (ih one).mpr ⟨?_, by simp⟩⟩
      simp only [List.length_append, List.length_singleton]
      omega

/-- A queue that holds just the words asked for. -/
theorem dequeueWords_all (q : FIFOQueue) (ws : List Nat) :
    dequeueWords ws.length { q with buffer := ws } =
      .ok (ws.map (· &&& mask32), { q with buffer := [] }) := by
  induction ws with
  | nil => rfl
  | cons w ws ih =>
    rw [List.length_cons, dequeueWords]
    simp [FIFOQueue.dequeue, ih]

/-! ## The AXI side -/

/-- What the master needs of the system memory for a burst. -/
def BurstFits (mem : List Nat) (byteAddr numBeats : Nat) : Prop :=
  byteAddr % 4 = 0 ∧ byteAddr / 4 + numBeats ≤ mem.length

theorem wordIndex_eq_ok {byteAddr w0 : Nat} (small : byteAddr < 2 ^ 32) :
    wordIndex byteAddr = .ok w0 ↔ byteAddr % 4 = 0 ∧ w0 = byteAddr / 4 := by
  have index : (byteAddr >>> 2) &&& mask32 = byteAddr / 4 := by
    rw [and_mask32, Nat.shiftRight_eq_div_pow]
    omega
  simp only [wordIndex, bind_eq_ok, raiseIf_eq_ok, pure_eq_ok, exists_const, and_0x3, index,
    ne_eq, not_not]
  exact and_congr_right fun _ => eq_comm

namespace AXI4MasterGolden

theorem memReadWords_eq_ok {w : World} {byteAddr n : Nat} {words : List Nat}
    (small : byteAddr < 2 ^ 32) (some : n ≠ 0) :
    memReadWords w byteAddr n = .ok words ↔
      BurstFits w.sysmem.mem byteAddr n ∧ words = block w.sysmem.mem (byteAddr / 4) n := by
  simp only [memReadWords, bind_eq_ok, wordIndex_eq_ok small, if_neg some, raiseIf_eq_ok,
    pure_eq_ok, exists_const, not_lt]
  constructor
  · rintro ⟨_, ⟨aligned, rfl⟩, fits, rfl⟩
    exact ⟨⟨aligned, fits⟩, rfl⟩
  · rintro ⟨⟨aligned, fits⟩, rfl⟩
    exact ⟨_, ⟨aligned, rfl⟩, fits, rfl⟩

theorem memWriteWords_eq_ok {w w' : World} {byteAddr : Nat} {words : List Nat}
    (small : byteAddr < 2 ^ 32) :
    memWriteWords w byteAddr words = .ok w' ↔
      BurstFits w.sysmem.mem byteAddr words.length ∧
        w' = { w with sysmem :=
          { w.sysmem with mem := storeWords w.sysmem.mem (byteAddr / 4) words } } := by
  simp only [memWriteWords, bind_eq_ok, wordIndex_eq_ok small, raiseIf_eq_ok, pure_eq_ok,
    exists_const, not_lt]
  constructor
  · rintro ⟨_, ⟨aligned, rfl⟩, fits, rfl⟩
    exact ⟨⟨aligned, fits⟩, rfl⟩
  · rintro ⟨⟨aligned, fits⟩, rfl⟩
    exact ⟨_, ⟨aligned, rfl⟩, fits, rfl⟩

/-- A read instruction pushes its block. -/
theorem doInstruction_read {w w' : World} {instr byteAddr n : Nat} {rest : List Nat}
    (queue : w.dmAxi.buffer = instr :: rest) (fields : Fields instr byteAddr n false)
    (small : byteAddr < 2 ^ 32) (room : w.mid.buffer.length ≤ w.mid.queueLength) :
    doInstruction w = .ok w' ↔
      ((n ≠ 0 → BurstFits w.sysmem.mem byteAddr n) ∧
        w.mid.buffer.length + n ≤ w.mid.queueLength) ∧
      w' = { w with dmAxi := { w.dmAxi with buffer := rest }
                    mid := { w.mid with
                      buffer := w.mid.buffer ++ block w.sysmem.mem (byteAddr / 4) n } } := by
  rw [doInstruction, FIFOQueue.dequeue, queue, pure_bind]
  simp only [fields.addr, fields.beats, fields.isWrite]
  -- the model returns on an empty burst before it looks at the address
  by_cases none : n = 0
  · have nothing : block w.sysmem.mem (byteAddr / 4) n = [] := by rw [none]; rfl
    rw [if_pos none, pure_eq_ok, nothing, List.append_nil]
    exact ⟨fun eq => ⟨⟨fun some => absurd none some, by omega⟩, eq.symm⟩, fun ⟨_, eq⟩ => eq.symm⟩
  · simp only [if_neg none, Bool.false_eq_true, if_false, bind_eq_ok, pure_eq_ok, raiseIf_eq_ok,
      memReadWords_eq_ok small none, enqueueAll_eq_ok room, exists_const, not_lt]
    rw [FIFOQueue.len]
    constructor
    · rintro ⟨free, words, ⟨fits, rfl⟩, mid, ⟨-, rfl⟩, rfl⟩
      exact ⟨⟨fun _ => fits, by omega⟩, rfl⟩
    · rintro ⟨⟨fits, free⟩, rfl⟩
      exact ⟨by omega, _, ⟨fits none, rfl⟩, _, ⟨by rwa [length_block], rfl⟩, rfl⟩

/-- A write instruction stores all of MID. -/
theorem doInstruction_write {w w' : World} {instr byteAddr n : Nat} {rest : List Nat}
    (queue : w.dmAxi.buffer = instr :: rest) (fields : Fields instr byteAddr n true)
    (small : byteAddr < 2 ^ 32) (all : w.mid.buffer.length = n) :
    doInstruction w = .ok w' ↔
      (n ≠ 0 → BurstFits w.sysmem.mem byteAddr n) ∧
      w' = { w with dmAxi := { w.dmAxi with buffer := rest }
                    mid := { w.mid with buffer := [] }
                    sysmem := { w.sysmem with
                      mem := storeWords w.sysmem.mem (byteAddr / 4) w.mid.buffer } } := by
  rw [doInstruction, FIFOQueue.dequeue, queue, pure_bind]
  simp only [fields.addr, fields.beats, fields.isWrite]
  -- an empty burst finds MID empty, as it is after every descriptor
  by_cases none : n = 0
  · have empty : w.mid.buffer = [] := List.length_eq_zero_iff.mp (all.trans none)
    rw [if_pos none, pure_eq_ok, empty, storeWords, FIFOQueue.emptied empty]
    exact ⟨fun eq => ⟨fun some => absurd none some, eq.symm⟩, fun ⟨_, eq⟩ => eq.symm⟩
  · -- MID holds exactly the words of the burst, so all of it is taken
    have taken : dequeueWords n w.mid = _ := all ▸ dequeueWords_all w.mid w.mid.buffer
    have enough : ¬ w.mid.len < n := by rw [FIFOQueue.len, all]; omega
    have passes {e : PyError} : raiseIf (w.mid.len < n) e = .ok () := raiseIf_eq_ok.mpr enough
    rw [if_neg none, if_pos trivial, passes, ok_bind, taken, ok_bind, memWriteWords_eq_ok small,
      List.length_map, all, storeWords_map_mask]
    exact and_congr_left fun _ => ⟨fun fits _ => fits, fun fits => fits none⟩

end AXI4MasterGolden

/-! ## The SRAM side -/

theorem load_eq_ok {mem : List Nat} {i v : Nat} : load mem i = .ok v ↔ mem[i]? = some v := by
  unfold load
  cases mem[i]? <;> simp

theorem store_eq_ok {mem mem' : List Nat} {i v : Nat} :
    store mem i v = .ok mem' ↔ i < mem.length ∧ mem' = mem.set i v := by
  have index : pyIndex mem.length i = if i < mem.length then some i else none := by
    simp [pyIndex]
  unfold store
  rw [index]
  by_cases inside : i < mem.length
  · rw [if_pos inside]
    exact ⟨fun returns => ⟨inside, (pure_eq_ok.mp returns).symm⟩,
      fun ⟨_, eq⟩ => pure_eq_ok.mpr eq.symm⟩
  · rw [if_neg inside]
    simp [inside]

namespace SRAMController

/-- Every load tests its own index, so the last one tests the block. -/
theorem readWords_eq_ok {n a : Nat} {w w' : World} (room : w.mid.buffer.length ≤ w.mid.queueLength) :
    readWords n a w = .ok w' ↔
      ((n ≠ 0 → a + n ≤ w.sram.mem.length) ∧ w.mid.buffer.length + n ≤ w.mid.queueLength) ∧
      w' = { w with mid := { w.mid with buffer := w.mid.buffer ++ block w.sram.mem a n } } := by
  -- the queue is one word longer in every turn, so the room is an index of the induction
  induction n generalizing a w with
  | zero =>
    rw [readWords, pure_eq_ok, show block w.sram.mem a 0 = [] from rfl, List.append_nil]
    exact ⟨fun eq => ⟨⟨fun some => absurd rfl some, room⟩, eq.symm⟩, fun ⟨_, eq⟩ => eq.symm⟩
  | succ n ih =>
    simp only [readWords, bind_eq_ok, load_eq_ok, FIFOQueue.enqueue_eq_ok]
    have one (v : Nat) (notFull : w.mid.buffer.length ≠ w.mid.queueLength) :
        (w.mid.buffer ++ [v]).length ≤ w.mid.queueLength := by
      rw [List.length_append, List.length_singleton]
      omega
    constructor
    · rintro ⟨data, loaded, _, ⟨notFull, rfl⟩, rest⟩
      obtain ⟨⟨fits, free⟩, rfl⟩ := (ih (one _ notFull)).mp rest
      obtain ⟨inside, -⟩ := List.getElem?_eq_some_iff.mp loaded
      simp only [List.length_append, List.length_singleton] at free
      refine ⟨⟨fun _ => ?_, by omega⟩, ?_⟩
      · by_cases last : n = 0
        · omega
        · have := fits last
          dsimp only at this
          omega
      · rw [block_succ, loaded]
        simp
    · rintro ⟨⟨fits, free⟩, rfl⟩
      have inside := fits (Nat.succ_ne_zero n)
      have loaded : w.sram.mem[a]? = some w.sram.mem[a] := List.getElem?_eq_getElem (by omega)
      have notFull : w.mid.buffer.length ≠ w.mid.queueLength := by omega
      refine ⟨_, loaded, _, ⟨notFull, rfl⟩, (ih (one _ notFull)).mpr ⟨⟨fun _ => ?_, ?_⟩, ?_⟩⟩
      · dsimp only
        omega
      · simp only [List.length_append, List.length_singleton]
        omega
      · rw [block_succ, loaded]
        simp

theorem writeWords_eq_ok {ws : List Nat} {a : Nat} {w w' : World} (all : w.mid.buffer = ws) :
    writeWords ws.length a w = .ok w' ↔
      (ws.length ≠ 0 → a + ws.length ≤ w.sram.mem.length) ∧
      w' = { w with mid := { w.mid with buffer := [] }
                    sram := { w.sram with mem := storeWords w.sram.mem a ws } } := by
  induction ws generalizing a w with
  | nil =>
    rw [List.length_nil, writeWords, pure_eq_ok, storeWords, FIFOQueue.emptied all]
    exact ⟨fun eq => ⟨fun some => absurd rfl some, eq.symm⟩, fun ⟨_, eq⟩ => eq.symm⟩
  | cons v ws ih =>
    simp only [List.length_cons, writeWords, FIFOQueue.dequeue, all, pure_bind, bind_eq_ok,
      store_eq_ok]
    constructor
    · rintro ⟨_, ⟨inside, rfl⟩, rest⟩
      obtain ⟨fits, rfl⟩ := (ih rfl).mp rest
      refine ⟨fun _ => ?_, rfl⟩
      by_cases last : ws.length = 0
      · omega
      · have := fits last
        rw [List.length_set] at this
        omega
    · rintro ⟨fits, rfl⟩
      have inside := fits (Nat.succ_ne_zero _)
      refine ⟨_, ⟨by omega, rfl⟩, (ih rfl).mpr ⟨fun _ => ?_, rfl⟩⟩
      rw [List.length_set]
      omega

/-- The fields decide what runs, without the instruction in the queue. -/
theorem processOne_eq {w : World} {instr byteAddr n : Nat} {isWrite : Bool} {rest : List Nat}
    (queue : w.dmSram.buffer = instr :: rest) (fields : Fields instr byteAddr n isWrite) :
    processOne w =
      (if isWrite then writeWords n (byteAddr / 4) else readWords n (byteAddr / 4))
        { w with dmSram := { w.dmSram with buffer := rest } } >>= fun w => pure (true, w) := by
  have some : w.dmSram.isEmpty = false := by simp [FIFOQueue.isEmpty, queue]
  have word : byteAddr >>> 2 = byteAddr / 4 := Nat.shiftRight_eq_div_pow ..
  rw [processOne, if_neg (by simp [some]), FIFOQueue.dequeue, queue, pure_bind]
  simp only [fields.addr, fields.beats, fields.isWrite, word]
  cases isWrite <;> rfl

theorem processOne_read {w : World} {instr byteAddr n : Nat} {rest : List Nat} {out : Bool × World}
    (queue : w.dmSram.buffer = instr :: rest) (fields : Fields instr byteAddr n false)
    (room : w.mid.buffer.length ≤ w.mid.queueLength) :
    processOne w = .ok out ↔
      ((n ≠ 0 → byteAddr / 4 + n ≤ w.sram.mem.length) ∧
        w.mid.buffer.length + n ≤ w.mid.queueLength) ∧
      out = (true, { w with dmSram := { w.dmSram with buffer := rest }
                            mid := { w.mid with
                              buffer := w.mid.buffer ++ block w.sram.mem (byteAddr / 4) n } }) := by
  rw [processOne_eq queue fields, if_neg Bool.false_ne_true, bind_eq_ok]
  simp only [readWords_eq_ok (w := { w with dmSram := { w.dmSram with buffer := rest } }) room,
    pure_eq_ok]
  constructor
  · rintro ⟨_, ⟨fits, rfl⟩, rfl⟩
    exact ⟨fits, rfl⟩
  · rintro ⟨fits, rfl⟩
    exact ⟨_, ⟨fits, rfl⟩, rfl⟩

theorem processOne_write {w : World} {instr byteAddr n : Nat} {rest : List Nat} {out : Bool × World}
    (queue : w.dmSram.buffer = instr :: rest) (fields : Fields instr byteAddr n true)
    (all : w.mid.buffer.length = n) :
    processOne w = .ok out ↔
      (n ≠ 0 → byteAddr / 4 + n ≤ w.sram.mem.length) ∧
      out = (true, { w with dmSram := { w.dmSram with buffer := rest }
                            mid := { w.mid with buffer := [] }
                            sram := { w.sram with
                              mem := storeWords w.sram.mem (byteAddr / 4) w.mid.buffer } }) := by
  rw [processOne_eq queue fields, if_pos rfl, ← all, bind_eq_ok]
  simp only [writeWords_eq_ok (w := { w with dmSram := { w.dmSram with buffer := rest } }) rfl,
    pure_eq_ok]
  constructor
  · rintro ⟨_, ⟨fits, rfl⟩, rfl⟩
    exact ⟨fits, rfl⟩
  · rintro ⟨fits, rfl⟩
    exact ⟨_, ⟨fits, rfl⟩, rfl⟩

end SRAMController

/-! ## One descriptor -/

/-- All queues are empty. -/
structure Quiet (w : World) : Prop where
  dfIn : w.dfIn.buffer = []
  dfOut : w.dfOut.buffer = []
  dmAxi : w.dmAxi.buffer = []
  dmSram : w.dmSram.buffer = []
  mid : w.mid.buffer = []

theorem drain_of_idle {idle : World → Bool} {processOne : World → Py (Bool × World)}
    {stalled : PyError} {w : World} (done : idle w = true) (left : Nat) :
    drain idle processOne stalled left w = .ok w := by
  cases left <;> rw [drain, if_pos done] <;> rfl

/-- The queue is empty after the first call, so the loop ends there. -/
theorem drain_one {idle : World → Bool} {processOne : World → Py (Bool × World)}
    {stalled : PyError} {left : Nat} {w w' : World} (busy : idle w = false)
    (once : ∀ out, processOne w = .ok out → out.1 = true ∧ idle out.2 = true) :
    drain idle processOne stalled (left + 1) w = .ok w' ↔ processOne w = .ok (true, w') := by
  rw [drain, if_neg (by simp [busy]), bind_eq_ok]
  constructor
  · rintro ⟨⟨ran, next⟩, step, rest⟩
    obtain ⟨rfl, done⟩ := once _ step
    change drain idle processOne stalled left next = .ok w' at rest
    rw [drain_of_idle done, Except.ok.injEq] at rest
    exact rest ▸ step
  · intro step
    obtain ⟨-, done⟩ := once _ step
    exact ⟨(true, w'), step, drain_of_idle done left⟩

/-- A drain of the AXI path runs its one instruction, if that returns with its queue empty. -/
theorem drainAxiDm_eq {w w' : World} {instr shown : Nat} (noFetch : w.dfIn.buffer = [])
    (queue : w.dmAxi.buffer = [instr])
    (empties : ∀ next, AXI4MasterGolden.doInstruction w = .ok next →
      next.dfIn.buffer = [] ∧ next.dmAxi.buffer = []) :
    drainAxiDm w shown = .ok w' ↔ AXI4MasterGolden.doInstruction w = .ok w' := by
  have empty : w.dfIn.isEmpty = true := by simp [FIFOQueue.isEmpty, noFetch]
  have some : w.dmAxi.isEmpty = false := by simp [FIFOQueue.isEmpty, queue]
  have call {out : Bool × World} : AXI4MasterGolden.processOne w = .ok out ↔
      ∃ next, AXI4MasterGolden.doInstruction w = .ok next ∧ (true, next) = out := by
    rw [AXI4MasterGolden.processOne, if_neg (by simp [empty]), if_pos (by simp [some]), bind_eq_ok]
    simp only [pure_eq_ok]
  have busy : AXI4MasterGolden.idle w = false := by rw [AXI4MasterGolden.idle, some, Bool.and_false]
  rw [drainAxiDm, drain_one busy, call]
  · constructor
    · rintro ⟨next, done, eq⟩
      obtain ⟨-, rfl⟩ := Prod.mk.inj eq
      exact done
    · intro done
      exact ⟨w', done, rfl⟩
  · intro out ran
    obtain ⟨next, done, rfl⟩ := call.mp ran
    obtain ⟨dfIn, dmAxi⟩ := empties next done
    exact ⟨rfl, by simp [AXI4MasterGolden.idle, FIFOQueue.isEmpty, dfIn, dmAxi]⟩

theorem drainSramDm_eq {w w' : World} {instr shown : Nat} (queue : w.dmSram.buffer = [instr])
    (empties : ∀ out, SRAMController.processOne w = .ok out →
      out.1 = true ∧ out.2.dmSram.buffer = []) :
    drainSramDm w shown = .ok w' ↔ SRAMController.processOne w = .ok (true, w') := by
  have busy : SRAMController.idle w = false := by simp [SRAMController.idle, FIFOQueue.isEmpty, queue]
  rw [drainSramDm, drain_one busy]
  intro out ran
  obtain ⟨done, dmSram⟩ := empties out ran
  exact ⟨done, by simp [SRAMController.idle, FIFOQueue.isEmpty, dmSram]⟩

theorem drainAxiDm_read {w w' : World} {instr shown byteAddr n : Nat}
    (noFetch : w.dfIn.buffer = []) (queue : w.dmAxi.buffer = [instr])
    (fields : Fields instr byteAddr n false) (small : byteAddr < 2 ^ 32)
    (room : w.mid.buffer.length ≤ w.mid.queueLength) :
    drainAxiDm w shown = .ok w' ↔
      ((n ≠ 0 → BurstFits w.sysmem.mem byteAddr n) ∧
        w.mid.buffer.length + n ≤ w.mid.queueLength) ∧
      w' = { w with dmAxi := { w.dmAxi with buffer := [] }
                    mid := { w.mid with
                      buffer := w.mid.buffer ++ block w.sysmem.mem (byteAddr / 4) n } } := by
  rw [drainAxiDm_eq noFetch queue, AXI4MasterGolden.doInstruction_read queue fields small room]
  intro next done
  obtain ⟨-, rfl⟩ := (AXI4MasterGolden.doInstruction_read queue fields small room).mp done
  exact ⟨noFetch, rfl⟩

theorem drainAxiDm_write {w w' : World} {instr shown byteAddr n : Nat}
    (noFetch : w.dfIn.buffer = []) (queue : w.dmAxi.buffer = [instr])
    (fields : Fields instr byteAddr n true) (small : byteAddr < 2 ^ 32)
    (all : w.mid.buffer.length = n) :
    drainAxiDm w shown = .ok w' ↔
      (n ≠ 0 → BurstFits w.sysmem.mem byteAddr n) ∧
      w' = { w with dmAxi := { w.dmAxi with buffer := [] }
                    mid := { w.mid with buffer := [] }
                    sysmem := { w.sysmem with
                      mem := storeWords w.sysmem.mem (byteAddr / 4) w.mid.buffer } } := by
  rw [drainAxiDm_eq noFetch queue, AXI4MasterGolden.doInstruction_write queue fields small all]
  intro next done
  obtain ⟨-, rfl⟩ := (AXI4MasterGolden.doInstruction_write queue fields small all).mp done
  exact ⟨noFetch, rfl⟩

theorem drainSramDm_read {w w' : World} {instr shown byteAddr n : Nat}
    (queue : w.dmSram.buffer = [instr]) (fields : Fields instr byteAddr n false)
    (room : w.mid.buffer.length ≤ w.mid.queueLength) :
    drainSramDm w shown = .ok w' ↔
      ((n ≠ 0 → byteAddr / 4 + n ≤ w.sram.mem.length) ∧
        w.mid.buffer.length + n ≤ w.mid.queueLength) ∧
      w' = { w with dmSram := { w.dmSram with buffer := [] }
                    mid := { w.mid with
                      buffer := w.mid.buffer ++ block w.sram.mem (byteAddr / 4) n } } := by
  rw [drainSramDm_eq queue, SRAMController.processOne_read queue fields room]
  · exact and_congr_right fun _ => ⟨fun eq => (Prod.mk.inj eq).2, fun eq => congrArg (Prod.mk true) eq⟩
  · intro out ran
    obtain ⟨-, rfl⟩ := (SRAMController.processOne_read queue fields room).mp ran
    exact ⟨rfl, rfl⟩

theorem drainSramDm_write {w w' : World} {instr shown byteAddr n : Nat}
    (queue : w.dmSram.buffer = [instr]) (fields : Fields instr byteAddr n true)
    (all : w.mid.buffer.length = n) :
    drainSramDm w shown = .ok w' ↔
      (n ≠ 0 → byteAddr / 4 + n ≤ w.sram.mem.length) ∧
      w' = { w with dmSram := { w.dmSram with buffer := [] }
                    mid := { w.mid with buffer := [] }
                    sram := { w.sram with
                      mem := storeWords w.sram.mem (byteAddr / 4) w.mid.buffer } } := by
  rw [drainSramDm_eq queue, SRAMController.processOne_write queue fields all]
  · exact and_congr_right fun _ => ⟨fun eq => (Prod.mk.inj eq).2, fun eq => congrArg (Prod.mk true) eq⟩
  · intro out ran
    obtain ⟨-, rfl⟩ := (SRAMController.processOne_write queue fields all).mp ran
    exact ⟨rfl, rfl⟩

/-! ## The copy -/

/-- `LEN[7:0]`. -/
def Descriptor.beats (d : Descriptor) : Nat := d.w2 % 256

/-- DIR = 1, from system memory to SRAM. -/
def Descriptor.toSram (d : Descriptor) : Bool := d.w3 % 2 == 1

/-- Both memories after the copy of `d`. -/
def moved (d : Descriptor) (m : List Nat × List Nat) : List Nat × List Nat :=
  if d.toSram then (m.1, storeWords m.2 (d.w1 / 4) (block m.1 (d.w0 / 4) d.beats))
  else (storeWords m.1 (d.w1 / 4) (block m.2 (d.w0 / 4) d.beats), m.2)

/-- The blocks that the engines have found inside their memories. -/
structure MoveFits (d : Descriptor) (smemWords sramWords : Nat) : Prop where
  aligned : (if d.toSram then d.w0 else d.w1) % 4 = 0
  smem : (if d.toSram then d.w0 else d.w1) / 4 + d.beats ≤ smemWords
  sram : (if d.toSram then d.w1 else d.w0) / 4 + d.beats ≤ sramWords

/-- The words of a descriptor are masked. -/
structure Masked (d : Descriptor) : Prop where
  w0 : d.w0 < 2 ^ 32
  w1 : d.w1 < 2 ^ 32
  w2 : d.w2 < 2 ^ 32
  w3 : d.w3 < 2 ^ 32

def advanced (w : World) : CSR :=
  w.csr.hwSetHead
    ((RingManager.head w % (w.csr.ringlen &&& mask32) + 1) % (w.csr.ringlen &&& mask32))

theorem RingManager.complete_eq_ok {w w' : World} :
    RingManager.complete w = .ok w' ↔
      (RingManager.isEmpty w = false ∧ w.csr.ringlen &&& mask32 ≠ 0) ∧
        w' = { w with csr := advanced w } := by
  simp only [RingManager.complete, RingManager.ringlen, bind_eq_ok, raiseIf_eq_ok, pure_eq_ok,
    exists_const, Bool.not_eq_true]
  constructor
  · rintro ⟨some, _, ⟨set, rfl⟩, rfl⟩
    exact ⟨⟨some, set⟩, rfl⟩
  · rintro ⟨⟨some, set⟩, rfl⟩
    exact ⟨some, _, ⟨set, rfl⟩, rfl⟩

/-- What `moveDescriptor` leaves. -/
def World.after (w : World) (d : Descriptor) : World :=
  { w with sysmem := { w.sysmem with mem := (moved d (w.sysmem.mem, w.sram.mem)).1 }
           sram := { w.sram with mem := (moved d (w.sysmem.mem, w.sram.mem)).2 }
           csr := advanced w }

theorem descToInstrPair_toSram {d : Descriptor} (masked : Masked d) (dir : d.toSram = true) :
    Fields (descToInstrPair d).1 d.w0 d.beats false ∧
      Fields (descToInstrPair d).2 d.w1 d.beats true := by
  have set : d.w3 &&& 1 ≠ 0 := by
    rw [and_0x1, beq_iff_eq.mp dir]
    decide
  rw [descToInstrPair, if_pos set]
  simp only [and_mask32, Nat.mod_eq_of_lt masked.w0, Nat.mod_eq_of_lt masked.w1,
    Nat.mod_eq_of_lt masked.w2]
  have read := fields_narrow d.w0 d.w2 false
  have write := fields_narrow d.w1 d.w2 true
  rw [Nat.mod_eq_of_lt masked.w0] at read
  rw [Nat.mod_eq_of_lt masked.w1] at write
  exact ⟨read, write⟩

theorem descToInstrPair_fromSram {d : Descriptor} (masked : Masked d) (dir : d.toSram = false) :
    Fields (descToInstrPair d).1 d.w1 d.beats true ∧
      Fields (descToInstrPair d).2 d.w0 d.beats false := by
  have clear : ¬ d.w3 &&& 1 ≠ 0 := by
    have := beq_eq_false_iff_ne.mp dir
    rw [and_0x1]
    omega
  rw [descToInstrPair, if_neg clear]
  simp only [and_mask32, Nat.mod_eq_of_lt masked.w0, Nat.mod_eq_of_lt masked.w1,
    Nat.mod_eq_of_lt masked.w2]
  have write := fields_narrow d.w1 d.w2 true
  have read := fields_narrow d.w0 d.w2 false
  rw [Nat.mod_eq_of_lt masked.w0] at read
  rw [Nat.mod_eq_of_lt masked.w1] at write
  exact ⟨write, read⟩

/-- What a call needs: both blocks inside their memories, and room for the words in MID. -/
structure Accepts (w : World) (d : Descriptor) : Prop where
  fits : d.beats ≠ 0 → MoveFits d w.sysmem.mem.length w.sram.mem.length
  mid : d.beats ≤ w.mid.queueLength

/-- Every queue takes a word. -/
structure Queues (w : World) : Prop where
  dfIn : w.dfIn.queueLength ≠ 0
  dfOut : w.dfOut.queueLength ≠ 0
  dmAxi : w.dmAxi.queueLength ≠ 0
  dmSram : w.dmSram.queueLength ≠ 0

/-- Both instructions of `d` are in their queues. -/
def World.loaded (w : World) (d : Descriptor) : World :=
  { w with dmAxi := { w.dmAxi with buffer := [(descToInstrPair d).1] }
           dmSram := { w.dmSram with buffer := [(descToInstrPair d).2] } }

def World.copied (w : World) (d : Descriptor) : World :=
  { w with sysmem := { w.sysmem with mem := (moved d (w.sysmem.mem, w.sram.mem)).1 }
           sram := { w.sram with mem := (moved d (w.sysmem.mem, w.sram.mem)).2 } }

/-- The AXI side fills MID, the SRAM side empties it. -/
theorem copies_toSram {w w' : World} {d : Descriptor} {shown shown' : Nat} (quiet : Quiet w)
    (masked : Masked d) (dir : d.toSram = true) :
    (do let w ← drainAxiDm (w.loaded d) shown
        drainSramDm w shown') = .ok w' ↔ Accepts w d ∧ w' = w.copied d := by
  obtain ⟨axi, sram⟩ := descToInstrPair_toSram masked dir
  have room : (w.loaded d).mid.buffer.length ≤ (w.loaded d).mid.queueLength := by
    simp [World.loaded, quiet.mid]
  have first {next : World} : drainAxiDm (w.loaded d) shown = .ok next ↔ _ :=
    drainAxiDm_read quiet.dfIn rfl axi masked.w0 room
  have ends : w.copied d =
      { w with sram :=
        { w.sram with mem := storeWords w.sram.mem (d.w1 / 4) (block w.sysmem.mem (d.w0 / 4) d.beats) } } := by
    simp [World.copied, moved, dir]
  rw [bind_eq_ok]
  constructor
  · rintro ⟨read, firstRan, secondRan⟩
    -- the first engine has found its block and room in MID, the second one its block
    obtain ⟨⟨fitsAxi, free⟩, rfl⟩ := first.mp firstRan
    obtain ⟨fitsSram, rfl⟩ := (drainSramDm_write (by rfl) sram (by simp [World.loaded, quiet.mid])).mp secondRan
    refine ⟨⟨fun some => ⟨?_, ?_, ?_⟩, ?_⟩, ?_⟩
    · simpa [dir, World.loaded] using (fitsAxi some).1
    · simpa [dir, World.loaded] using (fitsAxi some).2
    · simpa [dir, World.loaded] using fitsSram some
    · simpa [World.loaded, quiet.mid] using free
    · rw [ends]
      simp only [World.loaded, quiet.mid, List.nil_append, FIFOQueue.emptied quiet.dmAxi,
        FIFOQueue.emptied quiet.dmSram, FIFOQueue.emptied quiet.mid]
  · rintro ⟨accepts, rfl⟩
    refine ⟨_, first.mpr ⟨⟨fun some => ?_, ?_⟩, rfl⟩,
      (drainSramDm_write (by rfl) sram (by simp [World.loaded, quiet.mid])).mpr ⟨fun some => ?_, ?_⟩⟩
    · have fits := accepts.fits some
      exact ⟨by simpa [dir, World.loaded] using fits.aligned, by simpa [dir, World.loaded] using fits.smem⟩
    · simpa [World.loaded, quiet.mid] using accepts.mid
    · simpa [dir, World.loaded] using (accepts.fits some).sram
    · rw [ends]
      simp only [World.loaded, quiet.mid, List.nil_append, FIFOQueue.emptied quiet.dmAxi,
        FIFOQueue.emptied quiet.dmSram, FIFOQueue.emptied quiet.mid]

theorem copies_fromSram {w w' : World} {d : Descriptor} {shown shown' : Nat} (quiet : Quiet w)
    (masked : Masked d) (dir : d.toSram = false) :
    (do let w ← drainSramDm (w.loaded d) shown
        drainAxiDm w shown') = .ok w' ↔ Accepts w d ∧ w' = w.copied d := by
  obtain ⟨axi, sram⟩ := descToInstrPair_fromSram masked dir
  have room : (w.loaded d).mid.buffer.length ≤ (w.loaded d).mid.queueLength := by
    simp [World.loaded, quiet.mid]
  have first {next : World} : drainSramDm (w.loaded d) shown = .ok next ↔ _ :=
    drainSramDm_read rfl sram room
  have ends : w.copied d =
      { w with sysmem :=
        { w.sysmem with mem := storeWords w.sysmem.mem (d.w1 / 4) (block w.sram.mem (d.w0 / 4) d.beats) } } := by
    simp [World.copied, moved, dir]
  rw [bind_eq_ok]
  constructor
  · rintro ⟨read, firstRan, secondRan⟩
    -- the same with the engines the other way round
    obtain ⟨⟨fitsSram, free⟩, rfl⟩ := first.mp firstRan
    obtain ⟨fitsAxi, rfl⟩ := (drainAxiDm_write (by exact quiet.dfIn) (by rfl) axi masked.w1
      (by simp [World.loaded, quiet.mid])).mp secondRan
    refine ⟨⟨fun some => ⟨?_, ?_, ?_⟩, ?_⟩, ?_⟩
    · simpa [dir, World.loaded] using (fitsAxi some).1
    · simpa [dir, World.loaded] using (fitsAxi some).2
    · simpa [dir, World.loaded] using fitsSram some
    · simpa [World.loaded, quiet.mid] using free
    · rw [ends]
      simp only [World.loaded, quiet.mid, List.nil_append, FIFOQueue.emptied quiet.dmAxi,
        FIFOQueue.emptied quiet.dmSram, FIFOQueue.emptied quiet.mid]
  · rintro ⟨accepts, rfl⟩
    refine ⟨_, first.mpr ⟨⟨fun some => ?_, ?_⟩, rfl⟩,
      (drainAxiDm_write (by exact quiet.dfIn) (by rfl) axi masked.w1
        (by simp [World.loaded, quiet.mid])).mpr ⟨fun some => ?_, ?_⟩⟩
    · simpa [dir, World.loaded] using (accepts.fits some).sram
    · simpa [World.loaded, quiet.mid] using accepts.mid
    · have fits := accepts.fits some
      exact ⟨by simpa [dir, World.loaded] using fits.aligned, by simpa [dir, World.loaded] using fits.smem⟩
    · rw [ends]
      simp only [World.loaded, quiet.mid, List.nil_append, FIFOQueue.emptied quiet.dmAxi,
        FIFOQueue.emptied quiet.dmSram, FIFOQueue.emptied quiet.mid]

/-- A call returns exactly if it can, and has then copied the block and
    advanced HEAD. -/
theorem moveDescriptor_eq_ok {w w' : World} {d : Descriptor} (quiet : Quiet w) (masked : Masked d)
    (queues : Queues w) :
    moveDescriptor w d = .ok w' ↔
      (Accepts w d ∧ RingManager.isEmpty w = false ∧ w.csr.ringlen &&& mask32 ≠ 0) ∧
        w' = w.after d := by
  have axi : w.dmAxi.enqueue (descToInstrPair d).1 =
      .ok { w.dmAxi with buffer := [(descToInstrPair d).1] } := by
    rw [FIFOQueue.enqueue_eq_ok, quiet.dmAxi]
    exact ⟨queues.dmAxi.symm, rfl⟩
  have sram : w.dmSram.enqueue (descToInstrPair d).2 =
      .ok { w.dmSram with buffer := [(descToInstrPair d).2] } := by
    rw [FIFOQueue.enqueue_eq_ok, quiet.dmSram]
    exact ⟨queues.dmSram.symm, rfl⟩
  have copies (next : World) :
      (if d.w3 &&& 1 ≠ 0 then do
          let w ← drainAxiDm (w.loaded d) (descToInstrPair d).1
          drainSramDm w (descToInstrPair d).2
        else do
          let w ← drainSramDm (w.loaded d) (descToInstrPair d).2
          drainAxiDm w (descToInstrPair d).1) = .ok next ↔ Accepts w d ∧ next = w.copied d := by
    cases dir : d.toSram with
    | true =>
      have set : d.w3 &&& 1 ≠ 0 := by
        rw [and_0x1, beq_iff_eq.mp dir]
        decide
      rw [if_pos set, copies_toSram quiet masked dir]
    | false =>
      rw [if_neg (by simpa [and_0x1] using beq_eq_false_iff_ne.mp dir),
        copies_fromSram quiet masked dir]
  rw [moveDescriptor]
  simp only [axi, sram, ok_bind]
  rw [bind_eq_ok]
  constructor
  · rintro ⟨next, ran, completed⟩
    obtain ⟨accepts, rfl⟩ := (copies next).mp ran
    obtain ⟨more, rfl⟩ := RingManager.complete_eq_ok.mp completed
    exact ⟨⟨accepts, more⟩, rfl⟩
  · rintro ⟨⟨accepts, more⟩, rfl⟩
    exact ⟨w.copied d, (copies _).mpr ⟨accepts, rfl⟩, RingManager.complete_eq_ok.mpr ⟨more, rfl⟩⟩

end AxiDma.Golden
