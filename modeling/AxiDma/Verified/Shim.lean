import AxiDma.Firmware.UartReadWrite
import AxiDma.Rtl.MemAccessCtrl

/-! # The memory shim

What the access controller is for: MicroBlaze sees two memories behind an address
register, a data register and a readback register.  `Shim.access` executes one access at
once and leaves out the bus; on it the four accessors of the firmware are the writes and
reads of two memories, so a read returns what was written last (`exec_runOps`).
-/

namespace AxiDma.Verified

open AxiDma.Lib AxiDma.Rtl AxiDma.Firmware

inductive Memory where
  | sram
  | sysmem
  deriving DecidableEq, Repr

structure Shim where
  initAddr : Word
  initData : Word
  rdata : Word
  mem : Memory → Nat → Word

/-- The word of a memory that a byte address selects. -/
def wordOf (depth : Memory → Nat) (m : Memory) (byteAddr : Word) : Nat :=
  byteAddr.toNat / 4 % depth m

/-- One word changes. -/
def store (mem : Memory → Nat → Word) (m : Memory) (n : Nat) (v : Word) : Memory → Nat → Word :=
  fun m' n' => if m' = m ∧ n' = n then v else mem m' n'

namespace Shim

variable {depth : Memory → Nat} {s : Shim}

/-- The write strobe of a memory. -/
def strobeWrite (depth : Memory → Nat) (m : Memory) (data : Word) (s : Shim) : Shim :=
  if data.getLsbD 0 then { s with mem := store s.mem m (wordOf depth m s.initAddr) s.initData } else s

/-- The read strobe of a memory. -/
def strobeRead (depth : Memory → Nat) (m : Memory) (data : Word) (s : Shim) : Shim :=
  if data.getLsbD 0 then { s with rdata := s.mem m (wordOf depth m s.initAddr) } else s

def write (depth : Memory → Nat) (reg : BitVec 8) (data : Word) (s : Shim) : Shim :=
  if reg = MemAccessCtrl.regInitAddr then { s with initAddr := data }
  else if reg = MemAccessCtrl.regInitData then { s with initData := data }
  else if reg = MemAccessCtrl.regSramWr then strobeWrite depth .sram data s
  else if reg = MemAccessCtrl.regSramRd then strobeRead depth .sram data s
  else if reg = MemAccessCtrl.regMemWr then strobeWrite depth .sysmem data s
  else if reg = MemAccessCtrl.regMemRd then strobeRead depth .sysmem data s
  else s

def read (reg : BitVec 8) (s : Shim) : Word :=
  if reg = MemAccessCtrl.regInitAddr then s.initAddr
  else if reg = MemAccessCtrl.regInitData then s.initData
  else if reg = MemAccessCtrl.regRdata then s.rdata
  else 0

/-- An access of the program, at once; the serial line is elsewhere. -/
def access (depth : Memory → Nat) (s : Shim) : (op : Op) → Answer op × Shim
  | .out32 addr data => ((), s.write depth (addr.setWidth 8) data)
  | .in32 addr => (s.read (addr.setWidth 8), s)
  | .uartWriteByte _ => ((), s)
  | .xilPrintf _ _ => ((), s)

/-! ## The accessors -/

@[simp] theorem exec_sramWrite (byteAddr data : Word) :
    (sramWrite byteAddr data).exec (access depth) s =
      ((), { s with initAddr := byteAddr, initData := data,
                    mem := store s.mem .sram (wordOf depth .sram byteAddr) data }) := rfl

@[simp] theorem exec_sysmemWrite (byteAddr data : Word) :
    (sysmemWrite byteAddr data).exec (access depth) s =
      ((), { s with initAddr := byteAddr, initData := data,
                    mem := store s.mem .sysmem (wordOf depth .sysmem byteAddr) data }) := rfl

@[simp] theorem exec_sramRead (byteAddr : Word) :
    (sramRead byteAddr).exec (access depth) s =
      (s.mem .sram (wordOf depth .sram byteAddr),
        { s with initAddr := byteAddr, rdata := s.mem .sram (wordOf depth .sram byteAddr) }) := rfl

@[simp] theorem exec_sysmemRead (byteAddr : Word) :
    (sysmemRead byteAddr).exec (access depth) s =
      (s.mem .sysmem (wordOf depth .sysmem byteAddr),
        { s with initAddr := byteAddr, rdata := s.mem .sysmem (wordOf depth .sysmem byteAddr) }) :=
  rfl

end Shim

/-! ## Sequences of accessors -/

inductive MemOp where
  | write (m : Memory) (byteAddr data : Word)
  | read (m : Memory) (byteAddr : Word)
  deriving DecidableEq, Repr

namespace MemOp

/-- The accessor, with the value of a read. -/
def prog : MemOp → Prog (Option Word)
  | .write .sram byteAddr data => do
    sramWrite byteAddr data
    return none
  | .write .sysmem byteAddr data => do
    sysmemWrite byteAddr data
    return none
  | .read .sram byteAddr => do
    let val ← sramRead byteAddr
    return some val
  | .read .sysmem byteAddr => do
    let val ← sysmemRead byteAddr
    return some val

/-- What the operation writes to word `n` of `m`. -/
def writesTo (depth : Memory → Nat) (m : Memory) (n : Nat) : MemOp → Option Word
  | .write m' byteAddr data => if m = m' ∧ n = wordOf depth m' byteAddr then some data else none
  | .read _ _ => none

end MemOp

/-- One accessor after the other, with the values of the reads. -/
def runOps : List MemOp → Prog (List (Option Word))
  | [] => pure []
  | op :: ops => do
    let val ← op.prog
    let vals ← runOps ops
    return val :: vals

/-- The value of the latest write to word `n` of `m`, or the initial content. -/
def latest (depth : Memory → Nat) (initial : Memory → Nat → Word) (ops : List MemOp) (m : Memory)
    (n : Nat) : Word :=
  (ops.reverse.findSome? (MemOp.writesTo depth m n)).getD (initial m n)

section Latest

variable {depth : Memory → Nat} {initial : Memory → Nat → Word} {ops : List MemOp} {s : Shim}

theorem latest_cons (op : MemOp) (m : Memory) (n : Nat) :
    latest depth initial (op :: ops) m n =
      latest depth (fun m n => (op.writesTo depth m n).getD (initial m n)) ops m n := by
  unfold latest
  rw [List.reverse_cons, List.findSome?_append]
  cases later : ops.reverse.findSome? (MemOp.writesTo depth m n) <;> simp

theorem latest_append (ops ops' : List MemOp) :
    latest depth initial (ops ++ ops') = latest depth (latest depth initial ops) ops' := by
  induction ops generalizing initial with
  | nil => rfl
  | cons op ops ih =>
    have first : latest depth initial (op :: ops) =
        latest depth (fun m n => (op.writesTo depth m n).getD (initial m n)) ops := by
      funext m n
      exact latest_cons op m n
    funext m n
    rw [List.cons_append, latest_cons, ih, first]

theorem latest_outside {m : Memory} {n : Nat} (some : 0 < depth m) (outside : depth m ≤ n) (ops : List MemOp) :
    latest depth initial ops m n = initial m n := by
  induction ops generalizing initial with
  | nil => rfl
  | cons op ops ih =>
    rw [latest_cons, ih]
    cases op with
    | write m' byteAddr data =>
      rw [MemOp.writesTo, if_neg]
      · rfl
      · rintro ⟨rfl, rfl⟩
        exact absurd (Nat.mod_lt _ some) (Nat.not_lt.mpr outside)
    | read m' byteAddr => rfl

/-- One word is the latest write. -/
theorem store_eq_latest (depth : Memory → Nat) (m : Memory) (byteAddr data : Word) :
    store initial m (wordOf depth m byteAddr) data = latest depth initial [.write m byteAddr data] := by
  funext m' n
  simp only [store, latest, List.reverse_singleton, List.findSome?_singleton, MemOp.writesTo]
  split <;> rfl

theorem exec_prog (op : MemOp) :
    (op.prog.exec (Shim.access depth) s).2.mem =
      fun m n => (op.writesTo depth m n).getD (s.mem m n) := by
  cases op with
  | write m byteAddr data =>
    funext m' n'
    cases m <;> simp [MemOp.prog, MemOp.writesTo, store] <;> split <;> rfl
  | read m byteAddr => cases m <;> rfl

theorem exec_prog_read (m : Memory) (byteAddr : Word) :
    ((MemOp.read m byteAddr).prog.exec (Shim.access depth) s).1 =
      some (s.mem m (wordOf depth m byteAddr)) := by
  cases m <;> rfl

theorem length_trace_runOps (ops : List MemOp) (s : Shim) :
    ((runOps ops).trace (Shim.access depth) s).length = 3 * ops.length := by
  induction ops generalizing s with
  | nil => rfl
  | cons op ops ih =>
    have three : (op.prog.trace (Shim.access depth) s).length = 3 := by
      cases op with
      | write m byteAddr data => cases m <;> rfl
      | read m byteAddr => cases m <;> rfl
    simp only [runOps, Program.trace_bind, List.length_append, three, ih, List.length_cons]
    simp only [Program.pure_eq, Program.trace_done, List.length_nil]
    omega

/-- The shim is two memories.  A read returns the latest write to its word, and each
    word is left with the latest write to it. -/
theorem exec_runOps (depth : Memory → Nat) (ops : List MemOp) (s : Shim) :
    (∀ n m byteAddr, ops[n]? = some (.read m byteAddr) →
      ((runOps ops).exec (Shim.access depth) s).1[n]? =
        some (some (latest depth s.mem (ops.take n) m (wordOf depth m byteAddr)))) ∧
      ((runOps ops).exec (Shim.access depth) s).2.mem = latest depth s.mem ops := by
  induction ops generalizing s with
  | nil => exact ⟨fun n m byteAddr read => by simp at read, rfl⟩
  | cons op ops ih =>
    obtain ⟨reads, words⟩ := ih (op.prog.exec (Shim.access depth) s).2
    rw [exec_prog] at reads words
    constructor
    · intro n m byteAddr read
      cases n with
      | zero =>
        obtain rfl : op = .read m byteAddr := by simpa using read
        simp only [runOps, Program.exec_bind, exec_prog_read]
        rfl
      | succ n =>
        have rest := reads n m byteAddr (by simpa using read)
        rw [List.take_succ_cons, latest_cons, ← rest]
        simp [runOps]
    · funext m n
      rw [latest_cons, ← words]
      simp [runOps]

end Latest

end AxiDma.Verified
