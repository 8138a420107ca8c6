import AxiDma.Golden.RingCalls
import AxiDma.Lib.BoundedQueue
import AxiDma.Lib.RingIndex
import AxiDma.Lib.Run
import AxiDma.Verified.GoldenSetup

/-! # The golden ring is a bounded queue

Two unbounded counters tell how many descriptors were completed and posted; HEAD and TAIL are
their residues, and the pending descriptors lie in the slots between.  `RingQueue` says so of a
world, every call keeps it, and `ring_is_bounded_queue` reads off what a call does.
-/

namespace AxiDma.Golden

open AxiDma.Lib

/-- A ring of `length` slots in a memory of `size` words. -/
structure RingArea where
  base : Nat
  length : Nat
  size : Nat
  aligned : base % 4 = 0
  pos : 0 < length
  inside : base + 16 * length ≤ 4 * size
  /-- every slot starts at a 32-bit address -/
  addressed : base + 16 * (length - 1) < 2 ^ 32

variable {area : RingArea} {q : List Descriptor} {completed : Nat} {w w' : World} {d : Descriptor}

/-- The word index of a slot. -/
def RingArea.slotWord (area : RingArea) (n : Nat) : Nat := area.base / 4 + 4 * (n % area.length)

theorem RingArea.slotWord_le (area : RingArea) (n : Nat) :
    area.slotWord n + 4 ≤ area.base / 4 + 4 * area.length := by
  have bound := Nat.mod_lt n area.pos
  rw [slotWord]
  omega

/-- Slots less than one turn apart do not overlap. -/
theorem RingArea.slotWord_apart {i j : Nat} (less : i < j) (near : j < i + area.length) :
    area.slotWord i + 4 ≤ area.slotWord j ∨ area.slotWord j + 4 ≤ area.slotWord i := by
  have differ := (mod_eq_mod_iff less.le near).not.mpr less.ne'
  rw [slotWord, slotWord]
  omega

/-! ## The representation -/

/-- The pending descriptors are `q`, and `completed` were completed before them. -/
structure RingQueue (area : RingArea) (q : List Descriptor) (completed : Nat) (w : World) : Prop where
  ready : FetchReady w
  base_eq : RingManager.base w = area.base
  ringlen_eq : w.csr.ringlen &&& mask32 = area.length
  head_eq : RingManager.head w = completed % area.length
  tail_eq : RingManager.tail w = (completed + q.length) % area.length
  room : q.length < area.length
  size_eq : w.sysmem.size = area.size
  mem_eq : w.sysmem.mem.length = area.size
  slots : ∀ j d, q[j]? = some d →
    Masked d ∧ Holds w.sysmem.mem (area.slotWord (completed + j)) d

theorem RingQueue.wide (ring : RingQueue area q completed w) : area.length < 2 ^ 32 + 1 := by
  have length := ring.ringlen_eq
  rw [and_mask32] at length
  omega

theorem RingQueue.tailWord_eq (ring : RingQueue area q completed w) :
    tailWord w = area.slotWord (completed + q.length) := by
  have space := area.addressed
  have bound := Nat.mod_lt (completed + q.length) area.pos
  rw [tailWord, ring.base_eq, ring.tail_eq, ring.ringlen_eq, Nat.mod_mod, descriptorSizeBytes,
    RingArea.slotWord]
  omega

theorem RingQueue.headAddr_eq (ring : RingQueue area q completed w) :
    headAddr w = 4 * area.slotWord completed := by
  have space := area.addressed
  have aligned := area.aligned
  have bound := Nat.mod_lt completed area.pos
  rw [headAddr, ring.base_eq, ring.head_eq, ring.ringlen_eq, Nat.mod_mod, descriptorSizeBytes,
    RingArea.slotWord]
  omega

/-! ## Status -/

theorem RingQueue.isEmpty_eq (ring : RingQueue area q completed w) :
    RingManager.isEmpty w = q.isEmpty := by
  have room := ring.room
  have same := mod_eq_mod_iff (Nat.le_add_right completed q.length) (by omega : _ < completed + area.length)
  rw [Bool.eq_iff_iff, RingManager.isEmpty, ring.head_eq, ring.tail_eq, beq_iff_eq, eq_comm, same,
    List.isEmpty_iff_length_eq_zero]
  omega

theorem RingQueue.isFull_eq (ring : RingQueue area q completed w) :
    RingManager.isFull w = .ok (q.length == area.length - 1) := by
  have room := ring.room
  rw [RingManager.isFull_eq_ok, ring.head_eq, ring.tail_eq, ring.ringlen_eq, Nat.mod_mod,
    Nat.mod_mod, Nat.mod_add_mod, Bool.eq_iff_iff, beq_iff_eq, beq_iff_eq]
  refine ⟨area.pos.ne', ?_⟩
  by_cases full : q.length = area.length - 1
  · have turn : completed + q.length + 1 = completed + area.length := by omega
    rw [turn, Nat.add_mod_right]
    exact ⟨fun _ => full, fun _ => rfl⟩
  · rw [mod_eq_mod_iff (by omega) (by omega : _ < completed + area.length)]
    omega

theorem RingQueue.pendingCount_eq (ring : RingQueue area q completed w) :
    RingManager.pendingCount w = .ok q.length := by
  have room := ring.room
  have apart := slotDistance_mod (Nat.le_add_right completed q.length)
    (by omega : _ < completed + area.length)
  have bound := Nat.mod_lt completed area.pos
  simp only [RingManager.pendingCount, RingManager.ringlen, bind_eq_ok, raiseIf_eq_ok, pure_eq_ok,
    exists_const, ring.ringlen_eq, ring.head_eq, ring.tail_eq]
  refine ⟨_, ⟨area.pos.ne', rfl⟩, ?_⟩
  rw [slotDistance] at apart
  have turn : (((completed + q.length) % area.length + area.length - completed % area.length : Nat) : Int) =
      ((completed + q.length) % area.length : Nat) - (completed % area.length : Nat) + area.length := by
    omega
  have value := congrArg (Nat.cast (R := Int)) apart
  rw [Int.natCast_mod, turn, Int.add_emod_right] at value
  rw [Nat.mod_mod, Nat.mod_mod, value, Int.toNat_natCast, Nat.add_sub_cancel_left]

/-! ## Calls -/

theorem Method.run_eval {α : Type} (f : World → Py α) (w : World) :
    (Method.eval f).run w = match f w with
      | .ok a => .ok a w
      | .error e => .error e w := by
  simp only [Method.eval, EStateM.run_bind, EStateM.run_get]
  cases f w <;> rfl

namespace RingManager

theorem ringlen_eq_ok {r : Nat} :
    ringlen w = .ok r ↔ w.csr.ringlen &&& mask32 ≠ 0 ∧ r = w.csr.ringlen &&& mask32 := by
  simp only [ringlen, bind_eq_ok, raiseIf_eq_ok, exists_const, pure_eq_ok]
  exact and_congr_right fun _ => eq_comm

theorem run_storeWord {i v : Nat} (inside : i < w.sysmem.mem.length) :
    (storeWord i v).run w =
      .ok () { w with sysmem := { w.sysmem with mem := w.sysmem.mem.set i v } } := by
  have stored : store w.sysmem.mem i v = .ok (w.sysmem.mem.set i v) :=
    store_eq_ok.mpr ⟨inside, rfl⟩
  simp only [storeWord, EStateM.run_bind, Method.run_eval, stored, EStateM.run_modify]

theorem run_writeDescToMemCall {addr : Nat} (size : addr / 4 % 2 ^ 32 + 4 ≤ w.sysmem.size)
    (length : addr / 4 % 2 ^ 32 + 4 ≤ w.sysmem.mem.length) :
    (writeDescToMemCall addr d).run w = .ok ()
      { w with sysmem := { w.sysmem with mem := writeSlot w.sysmem.mem (addr / 4 % 2 ^ 32) d } } := by
  have index : (addr >>> 2) &&& mask32 = addr / 4 % 2 ^ 32 := by
    rw [and_mask32, Nat.shiftRight_eq_div_pow]
  have fits : ¬ w.sysmem.size < addr / 4 % 2 ^ 32 + descWords := by
    rw [descWords]
    omega
  simp only [writeDescToMemCall, index, EStateM.run_bind, EStateM.run_get, if_neg fits]
  rw [run_storeWord (by omega)]
  dsimp only
  rw [run_storeWord (by simp only [List.length_set]; omega)]
  dsimp only
  rw [run_storeWord (by simp only [List.length_set]; omega)]
  dsimp only
  rw [run_storeWord (by simp only [List.length_set]; omega)]
  rfl

/-- A full ring turns the descriptor down before it has changed anything. -/
theorem run_enqueueCall_full (set : w.csr.ringlen &&& mask32 ≠ 0) (full : isFull w = .ok true) :
    (enqueueCall d).run w = .error (.overflowError "Descriptor ring is full") w := by
  simp only [enqueueCall, EStateM.run_bind, Method.run_eval, ringlen_eq_ok.mpr ⟨set, rfl⟩, full,
    if_true, EStateM.run_throw]

theorem run_enqueueCall (set : w.csr.ringlen &&& mask32 ≠ 0) (notFull : isFull w = .ok false)
    (size : tailWord w + 4 ≤ w.sysmem.size) (length : tailWord w + 4 ≤ w.sysmem.mem.length) :
    (enqueueCall d).run w = .ok () (w.posted d) := by
  have addr : slotByteAddr w (tail w % (w.csr.ringlen &&& mask32)) =
      .ok (base w + tail w % (w.csr.ringlen &&& mask32) * descriptorSizeBytes) := by
    rw [slotByteAddr, ringlen_eq_ok.mpr ⟨set, rfl⟩, ok_bind, Nat.mod_mod]
    rfl
  have wide : w.csr.ringlen &&& mask32 < 2 ^ 32 := by
    rw [and_mask32]
    omega
  have below := Nat.mod_lt (tail w + 1) (Nat.pos_of_ne_zero set)
  simp only [enqueueCall, EStateM.run_bind, Method.run_eval, ringlen_eq_ok.mpr ⟨set, rfl⟩, notFull,
    Bool.false_eq_true, if_false, EStateM.run_get, addr]
  rw [run_writeDescToMemCall size length]
  simp only [EStateM.run_modify]
  rw [CSR.write_regTail _ (by omega)]
  rfl

theorem run_fetchNextDescriptorCall {out : Option Descriptor × World}
    (returns : fetchNextDescriptor w = .ok out) :
    fetchNextDescriptorCall.run w = .ok out.1 out.2 := by
  rw [EStateM.run, fetchNextDescriptorCall, returns]

theorem run_completeCall_empty (empty : isEmpty w = true) :
    completeCall.run w = .error (.runtimeError "No pending descriptor to complete") w := by
  simp only [completeCall, EStateM.run_bind, EStateM.run_get, empty, if_true, EStateM.run_throw]

theorem run_completeCall (more : isEmpty w = false) (set : w.csr.ringlen &&& mask32 ≠ 0) :
    completeCall.run w = .ok () { w with csr := advanced w } := by
  simp only [completeCall, EStateM.run_bind, EStateM.run_get, more, Bool.false_eq_true, if_false,
    Method.run_eval, ringlen_eq_ok.mpr ⟨set, rfl⟩, EStateM.run_modify]
  rfl

end RingManager

/-! ## What a call keeps -/

theorem RingQueue.posted (ring : RingQueue area q completed w) (masked : Masked d)
    (free : q.length + 1 < area.length) : RingQueue area (q ++ [d]) completed (w.posted d) := by
  have wide := ring.wide
  have fits := area.slotWord_le (completed + q.length)
  have inside := area.inside
  have aligned := area.aligned
  have slot := ring.tailWord_eq
  have length : (q ++ [d]).length = q.length + 1 := List.length_append
  have other {offset : Nat} (distinct : offset ≠ CSR.regTail) :
      (w.posted d).csr.read offset = w.csr.read offset := CSR.read_set_of_ne distinct
  have bound := Nat.mod_lt (completed + (q.length + 1)) area.pos
  exact
    { ready := { ring.ready with }
      base_eq := (congrArg (· &&& mask32) (other (by decide))).trans ring.base_eq
      ringlen_eq := (congrArg (· &&& mask32) (other (by decide))).trans ring.ringlen_eq
      head_eq := (congrArg (· &&& mask32) (other (by decide))).trans ring.head_eq
      tail_eq := by
        rw [length, RingManager.tail, World.posted, CSR.read_set_self, ring.tail_eq, ring.ringlen_eq,
          Nat.mod_add_mod, and_mask32, Nat.add_assoc]
        exact Nat.mod_eq_of_lt (by omega)
      room := by
        rw [length]
        exact free
      size_eq := ring.size_eq
      mem_eq := (length_writeSlot ..).trans ring.mem_eq
      slots := fun j e known => by
        -- the other slots of one turn do not overlap the one written
        rcases Nat.lt_or_ge j q.length with before | new
        · rw [List.getElem?_append_left before] at known
          obtain ⟨maskedHere, held⟩ := ring.slots j e known
          refine ⟨maskedHere, held.of_eq fun i low high => getElem?_writeSlot ?_⟩
          have apart := area.slotWord_apart (Nat.add_lt_add_left before completed) (by omega)
          omega
        · have inList := (List.getElem?_eq_some_iff.mp known).1
          rw [length] at inList
          obtain rfl : j = q.length := by omega
          rw [List.getElem?_concat_length, Option.some.injEq] at known
          subst known
          refine ⟨masked, ?_⟩
          rw [World.posted, slot]
          exact holds_writeSlot (by rw [ring.mem_eq]; omega) }

theorem RingQueue.advanced (ring : RingQueue area (d :: q) completed w) :
    RingQueue area q (completed + 1) { w with csr := advanced w } := by
  have wide := ring.wide
  have length : (d :: q).length = q.length + 1 := rfl
  have room := ring.room
  have tail := ring.tail_eq
  rw [length] at room tail
  have other {offset : Nat} (distinct : offset ≠ CSR.regHead) :
      (Golden.advanced w).read offset = w.csr.read offset := CSR.read_set_of_ne distinct
  have bound := Nat.mod_lt (completed + 1) area.pos
  exact
    { ready := { ring.ready with }
      base_eq := (congrArg (· &&& mask32) (other (by decide))).trans ring.base_eq
      ringlen_eq := (congrArg (· &&& mask32) (other (by decide))).trans ring.ringlen_eq
      head_eq := by
        rw [RingManager.head, Golden.advanced, CSR.hwSetHead, CSR.read_set_self, ring.head_eq,
          ring.ringlen_eq, Nat.mod_mod, Nat.mod_add_mod, and_mask32, and_mask32, Nat.mod_mod]
        exact Nat.mod_eq_of_lt (by omega)
      tail_eq := by
        refine (congrArg (· &&& mask32) (other (by decide))).trans (tail.trans ?_)
        rw [Nat.add_assoc, Nat.add_comm 1]
      room := by omega
      size_eq := ring.size_eq
      mem_eq := ring.mem_eq
      slots := fun j e known => by
        have held := ring.slots (j + 1) e known
        rwa [show completed + (j + 1) = completed + 1 + j by omega] at held }

theorem RingQueue.elsewhere {i v : Nat} (ring : RingQueue area q completed w)
    (off : i < area.base / 4 ∨ area.base / 4 + 4 * area.length ≤ i) :
    RingQueue area q completed
      { w with sysmem := { w.sysmem with mem := w.sysmem.mem.set i v } } :=
  { ring with
    ready := { ring.ready with }
    mem_eq := List.length_set.trans ring.mem_eq
    slots := fun j e known => by
      obtain ⟨masked, held⟩ := ring.slots j e known
      refine ⟨masked, held.of_eq fun k low high => List.getElem?_set_ne ?_⟩
      have fits := area.slotWord_le (completed + j)
      rw [RingArea.slotWord] at fits low high
      omega }

/-! ## Sequences of calls -/

/-- A call of the ring, or a store of another writer. -/
inductive RingCall where
  | enqueue (desc : { d : Descriptor // Masked d })
  | fetchNextDescriptor
  | complete
  | elsewhere (i v : Nat)

def RingCall.method : RingCall → Method (Option Descriptor)
  | .enqueue desc => do
    RingManager.enqueueCall desc
    pure none
  | .fetchNextDescriptor => RingManager.fetchNextDescriptorCall
  | .complete => do
    RingManager.completeCall
    pure none
  | .elsewhere i v => do
    modify fun w => { w with sysmem := { w.sysmem with mem := w.sysmem.mem.set i v } }
    pure none

/-- The world the caller goes on with, also after an exception. -/
def worldAfter (w : World) (call : RingCall) : World :=
  match call.method.run w with
  | .ok _ w => w
  | .error _ w => w

def RingCall.op : RingCall → QueueOp Descriptor
  | .enqueue desc => .push desc
  | .complete => .pop
  | .fetchNextDescriptor | .elsewhere .. => .look

/-- Another writer stays off the ring. -/
def RingCall.OffRing (area : RingArea) : RingCall → Prop
  | .elsewhere i _ => i < area.base / 4 ∨ area.base / 4 + 4 * area.length ≤ i
  | _ => True

/-- What each method does while `q` is pending. -/
structure BehavesAs (area : RingArea) (q : List Descriptor) (w : World) : Prop where
  enqueue_full : q.length = area.length - 1 → ∀ d,
    (RingManager.enqueueCall d).run w = .error (.overflowError "Descriptor ring is full") w
  enqueue_room : q.length ≠ area.length - 1 → ∀ d, Masked d →
    ∃ w', (RingManager.enqueueCall d).run w = .ok () w'
  fetch : RingManager.fetchNextDescriptorCall.run w = .ok q.head? w
  complete_none : q = [] → RingManager.completeCall.run w =
    .error (.runtimeError "No pending descriptor to complete") w
  complete_some : q ≠ [] → ∃ w', RingManager.completeCall.run w = .ok () w'
  pendingCount : RingManager.pendingCount w = .ok q.length
  isEmpty : RingManager.isEmpty w = q.isEmpty
  isFull : RingManager.isFull w = .ok (q.length == area.length - 1)

theorem RingQueue.set (ring : RingQueue area q completed w) : w.csr.ringlen &&& mask32 ≠ 0 := by
  rw [ring.ringlen_eq]
  exact area.pos.ne'

theorem RingQueue.run_enqueue (ring : RingQueue area q completed w)
    (free : q.length ≠ area.length - 1) :
    (RingManager.enqueueCall d).run w = .ok () (w.posted d) := by
  have fits := area.slotWord_le (completed + q.length)
  have inside := area.inside
  have aligned := area.aligned
  have notFull : RingManager.isFull w = .ok false := by
    rw [ring.isFull_eq, beq_eq_false_iff_ne.mpr free]
  refine RingManager.run_enqueueCall ring.set notFull ?_ ?_
  · rw [ring.tailWord_eq, ring.size_eq]
    omega
  · rw [ring.tailWord_eq, ring.mem_eq]
    omega

theorem RingQueue.run_enqueue_full (ring : RingQueue area q completed w)
    (full : q.length = area.length - 1) : (RingManager.enqueueCall d).run w =
      .error (.overflowError "Descriptor ring is full") w :=
  RingManager.run_enqueueCall_full ring.set (by rw [ring.isFull_eq, full, beq_self_eq_true])

theorem RingQueue.run_fetch (ring : RingQueue area q completed w) :
    RingManager.fetchNextDescriptorCall.run w = .ok q.head? w := by
  cases q with
  | nil =>
    have empty : RingManager.isEmpty w = true := ring.isEmpty_eq
    exact RingManager.run_fetchNextDescriptorCall
      (RingManager.fetchNextDescriptor_of_isEmpty empty)
  | cons d q =>
    have more : RingManager.isEmpty w = false := ring.isEmpty_eq
    have fits := area.slotWord_le completed
    have inside := area.inside
    have aligned := area.aligned
    obtain ⟨masked, held⟩ := ring.slots 0 d rfl
    rw [Nat.add_zero] at held
    have word : headAddr w / 4 = area.slotWord completed := by
      rw [ring.headAddr_eq]
      omega
    have burst : BurstFits w.sysmem.mem (headAddr w) 4 := by
      refine ⟨by rw [ring.headAddr_eq]; omega, ?_⟩
      rw [word, ring.mem_eq]
      omega
    have returns := (RingManager.fetchNextDescriptor_eq_ok ring.ready more).mpr
      ⟨⟨ring.set, burst⟩, rfl⟩
    rw [word, held.descAt_eq masked] at returns
    exact RingManager.run_fetchNextDescriptorCall returns

theorem RingQueue.behaves (ring : RingQueue area q completed w) : BehavesAs area q w where
  enqueue_full full _ := ring.run_enqueue_full full
  enqueue_room free d _ := ⟨w.posted d, ring.run_enqueue free⟩
  fetch := ring.run_fetch
  complete_none none := by
    refine RingManager.run_completeCall_empty ?_
    rw [ring.isEmpty_eq, none]
    rfl
  complete_some some := by
    refine ⟨_, RingManager.run_completeCall ?_ ring.set⟩
    rw [ring.isEmpty_eq]
    exact List.isEmpty_eq_false_iff.mpr some
  pendingCount := ring.pendingCount_eq
  isEmpty := ring.isEmpty_eq
  isFull := ring.isFull_eq

/-- One call, on the ring and on the queue. -/
theorem RingQueue.step (ring : RingQueue area q completed w) {call : RingCall}
    (off : call.OffRing area) :
    ∃ completed', RingQueue area (queueStep (area.length - 1) q call.op) completed'
      (worldAfter w call) := by
  have room := ring.room
  cases call with
  | enqueue desc =>
    by_cases full : q.length = area.length - 1
    · refine ⟨completed, ?_⟩
      simp only [worldAfter, RingCall.method, RingCall.op, EStateM.run_bind, ring.run_enqueue_full full]
      rw [queueStep_push_full full]
      exact ring
    · refine ⟨completed, ?_⟩
      simp only [worldAfter, RingCall.method, RingCall.op, EStateM.run_bind, EStateM.run_pure,
        ring.run_enqueue full]
      rw [queueStep_push (by omega)]
      exact ring.posted desc.property (by omega)
  | fetchNextDescriptor =>
    refine ⟨completed, ?_⟩
    simp only [worldAfter, RingCall.method, RingCall.op, ring.run_fetch]
    exact ring
  | complete =>
    cases q with
    | nil =>
      refine ⟨completed, ?_⟩
      simp only [worldAfter, RingCall.method, RingCall.op, EStateM.run_bind,
        RingManager.run_completeCall_empty ring.isEmpty_eq]
      exact ring
    | cons d q =>
      refine ⟨completed + 1, ?_⟩
      simp only [worldAfter, RingCall.method, RingCall.op, EStateM.run_bind, EStateM.run_pure,
        RingManager.run_completeCall ring.isEmpty_eq ring.set]
      exact ring.advanced
  | elsewhere i v =>
    exact ⟨completed, ring.elsewhere off⟩

theorem RingQueue.run {calls : List RingCall} (ring : RingQueue area q completed w)
    (off : ∀ call ∈ calls, call.OffRing area) :
    ∃ completed', RingQueue area (run (queueStep (area.length - 1)) q (calls.map RingCall.op))
      completed' (run worldAfter w calls) := by
  induction calls generalizing q completed w with
  | nil => exact ⟨completed, ring⟩
  | cons call calls ih =>
    obtain ⟨_, next⟩ := ring.step (off call List.mem_cons_self)
    exact ih next fun later member => off later (List.mem_cons_of_mem call member)

/-- The ring after a reset, with its registers set. -/
structure FreshRing (area : RingArea) (w : World) : Prop where
  ready : FetchReady w
  baseaddr : w.csr.read CSR.regBaseaddr = area.base
  ringlen : w.csr.read CSR.regRinglen = area.length
  head : w.csr.read CSR.regHead = 0
  tail : w.csr.read CSR.regTail = 0
  size_eq : w.sysmem.size = area.size
  mem_eq : w.sysmem.mem.length = area.size

theorem FreshRing.ringQueue (fresh : FreshRing area w) (wide : area.length < 2 ^ 32) :
    RingQueue area [] 0 w where
  ready := fresh.ready
  base_eq := by
    have space := area.addressed
    rw [RingManager.base, CSR.baseaddr, fresh.baseaddr, and_mask32, Nat.mod_eq_of_lt (by omega)]
  ringlen_eq := by rw [CSR.ringlen, fresh.ringlen, and_mask32, Nat.mod_eq_of_lt wide]
  head_eq := by rw [RingManager.head, fresh.head, Nat.zero_and, Nat.zero_mod]
  tail_eq := by rw [RingManager.tail, fresh.tail, Nat.zero_and, List.length_nil, Nat.zero_mod]
  room := area.pos
  size_eq := fresh.size_eq
  mem_eq := fresh.mem_eq
  slots j d known := by simp at known

/-- The ring is a bounded queue.  After any calls, each method does what the abstract queue
    of the descriptors pending then tells. -/
theorem ring_is_bounded_queue (fresh : FreshRing area w) (calls : List RingCall)
    (off : ∀ call ∈ calls, call.OffRing area) :
    BehavesAs area (run (queueStep (area.length - 1)) [] (calls.map RingCall.op))
      (run worldAfter w calls) := by
  have space := area.addressed
  obtain ⟨_, ring⟩ := (fresh.ringQueue (by omega)).run off
  exact ring.behaves

/-- A zeroed memory, and a ring of `length` slots at `base`. -/
def ringWorld (base length size : Nat) : World :=
  { World.fresh size 1 with
    csr := (CSR.init.set CSR.regBaseaddr base).set CSR.regRinglen length }

theorem ringWorld_fresh (area : RingArea) :
    FreshRing area (ringWorld area.base area.length area.size) where
  ready := ⟨rfl, rfl, Nat.succ_ne_zero 63, Nat.succ_ne_zero 63⟩
  baseaddr := rfl
  ringlen := rfl
  head := rfl
  tail := rfl
  size_eq := rfl
  mem_eq := List.length_replicate

def smallArea : RingArea :=
  ⟨16, 3, 16, by decide, by decide, by decide, by decide⟩

def wrappingCalls : List RingCall :=
  [.enqueue ⟨⟨0, 0, 1, 1⟩, by constructor <;> decide⟩,
    .enqueue ⟨⟨4, 0, 2, 1⟩, by constructor <;> decide⟩, .complete, .elsewhere 2 7,
    .enqueue ⟨⟨8, 0, 3, 0⟩, by constructor <;> decide⟩]

/-- Three posts and a completion in a ring of three slots: the third descriptor goes into the
    last slot, and TAIL wraps. -/
theorem wrapped_ring_behaves :
    BehavesAs smallArea [⟨4, 0, 2, 1⟩, ⟨8, 0, 3, 0⟩]
      (run worldAfter (ringWorld 16 3 16) wrappingCalls) := by
  have off : ∀ call ∈ wrappingCalls, call.OffRing smallArea := by
    simp [wrappingCalls, RingCall.OffRing, smallArea]
  exact ring_is_bounded_queue (ringWorld_fresh smallArea) wrappingCalls off

/-- A ring whose second slot starts at the byte address 2 ^ 32, after one post. -/
def farPosted (size : Nat) (posted : Descriptor) : World := (ringWorld (2 ^ 32 - 16) 2 size).posted posted

def farCompleted (size : Nat) (posted : Descriptor) : World :=
  { farPosted size posted with csr := advanced (farPosted size posted) }

/-- A handle cannot hold that address: the second descriptor goes to word 2 ^ 30, and a fetch
    brings the four words from 0 on. -/
theorem second_slot_misread {size : Nat} (reaches : 2 ^ 30 + 4 ≤ size) (posted : Descriptor) :
    ∃ w', (do RingManager.enqueueCall posted
              RingManager.completeCall
              RingManager.enqueueCall posted
              RingManager.fetchNextDescriptorCall : Method (Option Descriptor)).run
        (ringWorld (2 ^ 32 - 16) 2 size) = .ok (some ⟨0, 0, 0, 0⟩) w' := by
  let second := (farCompleted size posted).posted posted
  -- the registers do not depend on the memory
  have slot₁ : tailWord (ringWorld (2 ^ 32 - 16) 2 size) = 2 ^ 30 - 4 :=
    (by decide : tailWord (ringWorld (2 ^ 32 - 16) 2 1) = 2 ^ 30 - 4)
  have slot₂ : tailWord (farCompleted size posted) = 2 ^ 30 :=
    (by decide : tailWord (farCompleted 1 ⟨0, 0, 0, 0⟩) = 2 ^ 30)
  have addr : headAddr second = 0 :=
    (by decide : headAddr ((farCompleted 1 ⟨0, 0, 0, 0⟩).posted ⟨0, 0, 0, 0⟩) = 0)
  have length₁ : (ringWorld (2 ^ 32 - 16) 2 size).sysmem.mem.length = size := List.length_replicate
  have length₂ : (farCompleted size posted).sysmem.mem.length = size :=
    (length_writeSlot ..).trans length₁
  have length : second.sysmem.mem.length = size := (length_writeSlot ..).trans length₂
  have post₁ : (RingManager.enqueueCall posted).run (ringWorld (2 ^ 32 - 16) 2 size) =
      .ok () (farPosted size posted) := by
    refine RingManager.run_enqueueCall
      (by decide : (ringWorld (2 ^ 32 - 16) 2 1).csr.ringlen &&& mask32 ≠ 0)
      (by decide : RingManager.isFull (ringWorld (2 ^ 32 - 16) 2 1) = .ok false) ?_ ?_
    · rw [slot₁]
      exact (by decide : 2 ^ 30 - 4 + 4 ≤ 2 ^ 30 + 4).trans reaches
    · rw [slot₁, length₁]
      omega
  have complete : RingManager.completeCall.run (farPosted size posted) =
      .ok () (farCompleted size posted) :=
    RingManager.run_completeCall
      (by decide : RingManager.isEmpty (farPosted 1 ⟨0, 0, 0, 0⟩) = false)
      (by decide : (farPosted 1 ⟨0, 0, 0, 0⟩).csr.ringlen &&& mask32 ≠ 0)
  have post₂ : (RingManager.enqueueCall posted).run (farCompleted size posted) = .ok () second := by
    refine RingManager.run_enqueueCall
      (by decide : (farCompleted 1 ⟨0, 0, 0, 0⟩).csr.ringlen &&& mask32 ≠ 0)
      (by decide : RingManager.isFull (farCompleted 1 ⟨0, 0, 0, 0⟩) = .ok false) ?_ ?_
    · rw [slot₂]
      exact reaches
    · rw [slot₂, length₂]
      exact reaches
  have ready : FetchReady second := ⟨rfl, rfl, Nat.succ_ne_zero 63, Nat.succ_ne_zero 63⟩
  have untouched (i : Nat) (near : i < 4) : second.sysmem.mem[i]? = (List.replicate size 0)[i]? := by
    change (writeSlot (writeSlot (List.replicate size 0) (tailWord (ringWorld (2 ^ 32 - 16) 2 size))
      posted) (tailWord (farCompleted size posted)) posted)[i]? = _
    rw [slot₁, slot₂, getElem?_writeSlot (.inl (by omega)), getElem?_writeSlot (.inl (by omega))]
  have zero (i : Nat) : ((List.replicate size 0)[i]?).getD 0 = 0 := by
    rw [List.getElem?_replicate]
    split <;> rfl
  have found : descAt second.sysmem.mem (0 / 4) = ⟨0, 0, 0, 0⟩ := by
    have same : descAt second.sysmem.mem (0 / 4) = descAt (List.replicate size 0) (0 / 4) :=
      descAt_congr fun i _ near => untouched i near
    rw [same, descAt, zero, zero, zero, zero]
    rfl
  have burst : BurstFits second.sysmem.mem (headAddr second) 4 := by
    rw [addr]
    exact ⟨rfl, by rw [length]; omega⟩
  have fetch := RingManager.run_fetchNextDescriptorCall
    ((RingManager.fetchNextDescriptor_eq_ok ready
      (by decide : RingManager.isEmpty ((farCompleted 1 ⟨0, 0, 0, 0⟩).posted ⟨0, 0, 0, 0⟩) = false)).mpr
      ⟨⟨(by decide : ((farCompleted 1 ⟨0, 0, 0, 0⟩).posted ⟨0, 0, 0, 0⟩).csr.ringlen &&& mask32 ≠ 0),
        burst⟩, rfl⟩)
  rw [addr, found] at fetch
  exact ⟨second, by simp only [EStateM.run_bind, post₁, complete, post₂, fetch]⟩

theorem slot_beyond_space_misread :
    (2 ^ 32 - 16) % 4 = 0 ∧ 2 ^ 32 - 16 + 16 * 2 ≤ 4 * (2 ^ 30 + 4) ∧
      Masked ⟨4, 0, 1, 1⟩ ∧
      ∃ w', (do RingManager.enqueueCall ⟨4, 0, 1, 1⟩
                RingManager.completeCall
                RingManager.enqueueCall ⟨4, 0, 1, 1⟩
                RingManager.fetchNextDescriptorCall : Method (Option Descriptor)).run
          (ringWorld (2 ^ 32 - 16) 2 (2 ^ 30 + 4)) = .ok (some ⟨0, 0, 0, 0⟩) w' :=
  ⟨by decide, by decide, by constructor <;> decide, second_slot_misread (Nat.le_refl _) _⟩

end AxiDma.Golden
