import AxiDma.Lib.Run
import AxiDma.Verified.BoardMemory

/-! # Preload and readback through the access controller

`Preload` runs a program of MicroBlaze against `vivado_config`, with any delay on each
channel of the init port.  While MicroBlaze has the memories, the board refines `Shim`: a
commit executes a write, the data taken on R execute a read, and every other cycle is a
wait (`Inv.advances`).
-/

namespace AxiDma.Verified

open AxiDma.Lib AxiDma.Rtl AxiDma.Firmware

/-! ## MicroBlaze on the init port -/

/-- The board and what is left of MicroBlaze's program. -/
structure Preload (k addrWidth : Nat) (α : Type) where
  board : VivadoConfig.State k addrWidth
  prog : Prog α

namespace Preload

variable {k addrWidth memWords log : Nat} {α : Type}

/-- The channels MicroBlaze is active on, if it has an access, and the ring manager's side. -/
structure In where
  aw : Bool
  w : Bool
  b : Bool
  ar : Bool
  r : Bool
  rmDfAddr : Word
  rmDfValid : Bool
  deriving DecidableEq, Repr

def start (b : VivadoConfig.State k addrWidth) (prog : Prog α) : Preload k addrWidth α :=
  { board := VivadoConfig.reset b, prog }

/-- The signals of the access the program waits for. -/
def bus (p : Preload k addrWidth α) (i : In) : AxiLiteMaster :=
  match p.prog with
  | .act (.out32 addr data) _ =>
    { Csr.busIdle with awaddr := addr, awvalid := i.aw, wdata := data, wstrb := 15,
                       wvalid := i.w, bready := i.b }
  | .act (.in32 addr) _ => { Csr.busIdle with araddr := addr, arvalid := i.ar, rready := i.r }
  | _ => Csr.busIdle

def boardIn (p : Preload k addrWidth α) (i : In) : VivadoConfig.In :=
  { bus := p.bus i, rmDfAddr := i.rmDfAddr, rmDfValid := i.rmDfValid }

/-- An access holds the program until its response. -/
def progNext (p : Preload k addrWidth α) (i : In) : Prog α :=
  match p.prog with
  | .done a => .done a
  | .act (.out32 addr data) next =>
    if p.board.memInit.bvalid && i.b then next () else .act (.out32 addr data) next
  | .act (.in32 addr) next =>
    if p.board.memInit.rvalid && i.r then next p.board.memInit.rdata else .act (.in32 addr) next
  | .act (.uartWriteByte _) next => next ()
  | .act (.xilPrintf _ _) next => next ()

def step (memWords : Nat) (p : Preload k addrWidth α) (i : In) : Preload k addrWidth α :=
  { board := VivadoConfig.step memWords p.board (p.boardIn i), prog := p.progNext i }

def Legal (memWords : Nat) (p : Preload k addrWidth α) (i : In) : Prop :=
  Undisturbed memWords p.board (p.boardIn i)

instance (memWords : Nat) (p : Preload k addrWidth α) (i : In) : Decidable (Legal memWords p i) :=
  inferInstanceAs (Decidable (Undisturbed _ _ _))

def active (i : In) : Bool := i.aw && i.w && i.b && i.ar && i.r

/-! ## The invariant -/

def port (p : Preload k addrWidth α) : WritePort := MemAccessCtrl.writePort p.board.memInit

def shim (memWords : Nat) (p : Preload k addrWidth α) : Shim := shimOf memWords p.board

/-- What is left of the program, after what is committed. -/
def rest (p : Preload k addrWidth α) : Prog α :=
  match p.prog with
  | .act (.out32 addr data) next =>
    if p.board.memInit.bvalid then next () else .act (.out32 addr data) next
  | prog => prog

/-- The write port holds the write the program waits for, or nothing. -/
def PortOk (p : Preload k addrWidth α) : Prop :=
  match p.prog with
  | .act (.out32 addr data) _ => p.port.Serves addr data
  | _ => p.port.Clean

structure Inv (memWords : Nat) (p : Preload k addrWidth α) : Prop where
  port : PortOk p
  /-- Read data that wait to be taken are still those of the register. -/
  read : p.board.memInit.rvalid = true → ∃ addr next, p.prog = .act (.in32 addr) next ∧
    p.board.memInit.rdata = (p.shim memWords).read (addr.setWidth 8)
  settled : p.board.memInit.awPending = true → Settled memWords p.board

/-- The cycles in which the program waits for each other before its next commit or answer. -/
def wait (p : Preload k addrWidth α) : Nat :=
  match p.prog with
  | .act (.out32 _ _) _ =>
    if p.board.memInit.bvalid then 3
    else (!p.board.memInit.awPending).toNat + (!p.board.memInit.wPending).toNat
  | .act (.in32 _) _ => (!p.board.memInit.rvalid).toNat
  | _ => 0

variable {p : Preload k addrWidth α} {i : In}

theorem wait_le_of_clean (clean : p.port.Clean) : p.wait ≤ 2 := by
  obtain ⟨-, -, noAnswer⟩ := clean
  have noAnswer : p.board.memInit.bvalid = false := noAnswer
  unfold wait
  split
  · have aw := Bool.toNat_le (!p.board.memInit.awPending)
    have w := Bool.toNat_le (!p.board.memInit.wPending)
    rw [noAnswer, if_neg Bool.false_ne_true]
    omega
  · have := Bool.toNat_le (!p.board.memInit.rvalid)
    omega
  · exact Nat.zero_le 2

theorem rest_of_clean (clean : p.port.Clean) : p.rest = p.prog := by
  obtain ⟨-, -, noAnswer⟩ := clean
  have noAnswer : p.board.memInit.bvalid = false := noAnswer
  unfold rest
  split
  · rename_i addr data next write
    rw [noAnswer, write]
    rfl
  · rfl

theorem portOk_of_clean (clean : p.port.Clean) : PortOk p := by
  unfold PortOk
  split
  · exact clean.serves
  · exact clean

theorem port_step : (step memWords p i).port = p.port.next (p.bus i) :=
  MemAccessCtrl.writePort_step ..

theorem clean_step_idle (memWords : Nat) (clean : p.port.Clean) (free : p.bus i = Csr.busIdle) :
    (step memWords p i).port.Clean := by
  rw [port_step, free]
  exact clean.next rfl rfl

/-! ## One cycle -/

/-- What a cycle is to the shim: an access that is executed, a wait, or nothing at the end. -/
inductive Advances (memWords : Nat) (p p' : Preload k addrWidth α) (active : Bool) : Prop where
  | executes (op : Op) (next : Answer op → Prog α) (before : p.rest = .act op next)
      (after : p'.rest = next ((p.shim memWords).access (depths addrWidth memWords) op).1)
      (leaves : p'.shim memWords = ((p.shim memWords).access (depths addrWidth memWords) op).2)
      (soon : p'.wait ≤ 3)
  | waits (rest : p'.rest = p.rest) (shim : p'.shim memWords = p.shim memWords)
      (falls : p'.wait + active.toNat ≤ p.wait)
  | ended (a : α) (before : p.prog = .done a) (after : p'.prog = .done a)
      (shim : p'.shim memWords = p.shim memWords)

/-- A cycle without a commit leaves the shim. -/
theorem shim_of_no_commit (legal : Legal (2 ^ log) p i)
    (noCommit : MemAccessCtrl.commits p.board.memInit = false) :
    (step (2 ^ log) p i).shim (2 ^ log) = p.shim (2 ^ log) := by
  have same := shimOf_step (b := p.board) (i := p.boardIn i) legal
  rw [noCommit] at same
  exact same (fun commits => absurd commits Bool.false_ne_true)
    (fun commits => absurd commits Bool.false_ne_true)

theorem rvalid_step : (step memWords p i).board.memInit.rvalid =
    (MemAccessCtrl.arHs p.board.memInit (VivadoConfig.memInitIn p.board (p.boardIn i)) ||
      p.board.memInit.rvalid && !(p.bus i).rready) := MemAccessCtrl.rvalid_step ..

/-! ### A write -/

section Write

variable {addr data : Word} {next : Answer (.out32 addr data) → Prog α}

theorem rest_write (write : p.prog = .act (.out32 addr data) next) :
    p.rest = if p.board.memInit.bvalid then next () else .act (.out32 addr data) next := by
  rw [rest, write]

theorem wait_write (write : p.prog = .act (.out32 addr data) next) :
    p.wait = if p.board.memInit.bvalid then 3
      else (!p.board.memInit.awPending).toNat + (!p.board.memInit.wPending).toNat := by
  rw [wait, write]

theorem prog_step_write (memWords : Nat) (write : p.prog = .act (.out32 addr data) next) :
    (step memWords p i).prog =
      if p.board.memInit.bvalid && i.b then next () else .act (.out32 addr data) next := by
  change p.progNext i = _
  rw [progNext, write]

theorem port_step_write (memWords : Nat) (write : p.prog = .act (.out32 addr data) next) :
    (step memWords p i).port = p.port.next
      { Csr.busIdle with awaddr := addr, awvalid := i.aw, wdata := data, wstrb := 15,
                         wvalid := i.w, bready := i.b } := by
  rw [port_step, bus, write]

theorem serves_of_write (write : p.prog = .act (.out32 addr data) next) (port : PortOk p) :
    p.port.Serves addr data := by
  rwa [PortOk, write] at port

theorem bvalid_step_write (memWords : Nat) (write : p.prog = .act (.out32 addr data) next) :
    (step memWords p i).board.memInit.bvalid =
      (MemAccessCtrl.commits p.board.memInit || p.board.memInit.bvalid && !i.b) := by
  change (step memWords p i).port.bvalid = _
  rw [port_step_write _ write]
  rfl

/-- The response of a committed write is waited for, and then taken. -/
theorem advances_respond (write : p.prog = .act (.out32 addr data) next) (port : PortOk p)
    (legal : Legal (2 ^ log) p i) (answers : p.board.memInit.bvalid = true) :
    Advances (2 ^ log) p (step (2 ^ log) p i) (active i) := by
  have noCommit : MemAccessCtrl.commits p.board.memInit = false := by
    rw [MemAccessCtrl.commits, answers]
    rfl
  have shim := shim_of_no_commit legal noCommit
  have rest := rest_write write
  have wait := wait_write write
  have prog := prog_step_write (2 ^ log) (i := i) write
  rw [answers, if_pos rfl] at rest wait
  rw [answers, Bool.true_and] at prog
  cases ready : i.b with
  | true =>
    have clean : (step (2 ^ log) p i).port.Clean := by
      rw [port_step_write _ write]
      exact (serves_of_write write port).clean_next answers ready
    have soon := wait_le_of_clean clean
    have atMost := Bool.toNat_le (active i)
    rw [ready, if_pos rfl] at prog
    refine .waits ?_ shim (by omega)
    rw [rest_of_clean clean, prog, rest]
  | false =>
    have idle : active i = false := by simp [active, ready]
    have bvalid' := bvalid_step_write (2 ^ log) (i := i) write
    rw [noCommit, answers, ready] at bvalid'
    rw [ready, if_neg Bool.false_ne_true] at prog
    refine .waits ?_ shim ?_
    · rw [rest_write prog, bvalid', rest]
      rfl
    · rw [wait_write prog, bvalid', wait, idle]
      exact Nat.le_refl _

/-- A commit executes the write. -/
theorem advances_commit (write : p.prog = .act (.out32 addr data) next) (inv : Inv (2 ^ log) p)
    (legal : Legal (2 ^ log) p i) (commits : MemAccessCtrl.commits p.board.memInit = true) :
    Advances (2 ^ log) p (step (2 ^ log) p i) (active i) := by
  obtain ⟨address, value, whole⟩ := (serves_of_write write inv.port).of_commits commits
  obtain ⟨⟨noAnswer, captured⟩, -⟩ : (p.board.memInit.bvalid = false ∧
      p.board.memInit.awPending = true) ∧ p.board.memInit.wPending = true := by
    simpa [MemAccessCtrl.commits] using commits
  have executes := shimOf_step (b := p.board) (i := p.boardIn i) legal
    (fun _ => inv.settled captured) (fun _ => whole)
  have address : p.board.memInit.awAddr = addr := address
  have value : p.board.memInit.wdData = data := value
  rw [commits, if_pos rfl, MemAccessCtrl.wrAddrLsb, address, value] at executes
  have rest := rest_write write
  have prog := prog_step_write (2 ^ log) (i := i) write
  have bvalid' := bvalid_step_write (2 ^ log) (i := i) write
  rw [noAnswer, if_neg Bool.false_ne_true] at rest
  rw [noAnswer, Bool.false_and, if_neg Bool.false_ne_true] at prog
  rw [commits, Bool.true_or] at bvalid'
  refine .executes _ next rest ?_ executes ?_
  · rw [rest_write prog, bvalid']
    rfl
  · rw [wait_write prog, bvalid']
    exact Nat.le_refl _

/-- Before that, halves of the write are captured. -/
theorem advances_capture (write : p.prog = .act (.out32 addr data) next)
    (legal : Legal (2 ^ log) p i) (noAnswer : p.board.memInit.bvalid = false)
    (noCommit : MemAccessCtrl.commits p.board.memInit = false) :
    Advances (2 ^ log) p (step (2 ^ log) p i) (active i) := by
  have shim := shim_of_no_commit legal noCommit
  have rest := rest_write write
  have wait := wait_write write
  have prog := prog_step_write (2 ^ log) (i := i) write
  have bvalid' := bvalid_step_write (2 ^ log) (i := i) write
  rw [noAnswer, if_neg Bool.false_ne_true] at rest wait
  rw [noAnswer, Bool.false_and, if_neg Bool.false_ne_true] at prog
  rw [noCommit, noAnswer] at bvalid'
  have awPending' : (step (2 ^ log) p i).board.memInit.awPending =
      (i.aw || p.board.memInit.awPending) := by
    change (step (2 ^ log) p i).port.awPending = (i.aw || p.port.awPending)
    have noCommit : p.port.commits = false := noCommit
    have noAnswer : p.port.bvalid = false := noAnswer
    rw [port_step_write _ write, WritePort.next, noCommit, WritePort.awHs, noAnswer]
    cases p.port.awPending <;> cases i.aw <;> rfl
  have wPending' : (step (2 ^ log) p i).board.memInit.wPending =
      (i.w || p.board.memInit.wPending) := by
    change (step (2 ^ log) p i).port.wPending = (i.w || p.port.wPending)
    have noCommit : p.port.commits = false := noCommit
    have noAnswer : p.port.bvalid = false := noAnswer
    rw [port_step_write _ write, WritePort.next, noCommit, WritePort.wHs, noAnswer]
    cases p.port.wPending <;> cases i.w <;> rfl
  have wait' : (step (2 ^ log) p i).wait = (!(i.aw || p.board.memInit.awPending)).toNat +
      (!(i.w || p.board.memInit.wPending)).toNat := by
    rw [wait_write prog, bvalid', awPending', wPending']
    rfl
  refine .waits ?_ shim ?_
  · rw [rest_write prog, bvalid', rest]
    rfl
  · cases busy : active i with
    | true =>
      have both : i.aw = true ∧ i.w = true := by
        simp only [active, Bool.and_eq_true] at busy
        exact busy.1.1.1
      rw [wait', wait, both.1, both.2]
      -- one half at least is missing
      rw [MemAccessCtrl.commits, noAnswer] at noCommit
      revert noCommit
      cases p.board.memInit.awPending <;> cases p.board.memInit.wPending <;> simp
    | false =>
      rw [wait, wait']
      cases i.aw <;> cases i.w <;> cases p.board.memInit.awPending <;>
        cases p.board.memInit.wPending <;> simp

end Write

/-! ### A read, and the end -/

section Read

variable {addr : Word} {next : Answer (.in32 addr) → Prog α}

theorem prog_step_read (memWords : Nat) (reads : p.prog = .act (.in32 addr) next) :
    (step memWords p i).prog =
      if p.board.memInit.rvalid && i.r then next p.board.memInit.rdata
      else .act (.in32 addr) next := by
  change p.progNext i = _
  rw [progNext, reads]

theorem wait_read (reads : p.prog = .act (.in32 addr) next) :
    p.wait = (!p.board.memInit.rvalid).toNat := by
  rw [wait, reads]

theorem clean_of_read (reads : p.prog = .act (.in32 addr) next) (port : PortOk p) :
    p.port.Clean := by
  rwa [PortOk, reads] at port

theorem clean_step_read (memWords : Nat) (reads : p.prog = .act (.in32 addr) next)
    (port : PortOk p) : (step memWords p i).port.Clean := by
  rw [port_step, bus, reads]
  exact (clean_of_read reads port).next rfl rfl

theorem rvalid_step_read (memWords : Nat) (reads : p.prog = .act (.in32 addr) next) :
    (step memWords p i).board.memInit.rvalid =
      if p.board.memInit.rvalid then !i.r else i.ar := by
  change (MemAccessCtrl.step _ _).rvalid = _
  rw [MemAccessCtrl.rvalid_step, MemAccessCtrl.arHs, VivadoConfig.memInitIn, boardIn, bus, reads,
    MemAccessCtrl.arready]
  cases p.board.memInit.rvalid <;> simp

theorem rdata_step_read (memWords : Nat) (reads : p.prog = .act (.in32 addr) next)
    (waits : p.board.memInit.rvalid = false) (accepts : i.ar = true) :
    (step memWords p i).board.memInit.rdata =
      MemAccessCtrl.readData p.board.memInit (addr.setWidth 8) := by
  change (MemAccessCtrl.step _ _).rdata = _
  rw [MemAccessCtrl.rdata_step, MemAccessCtrl.arHs, VivadoConfig.memInitIn, boardIn, bus, reads,
    MemAccessCtrl.arready, waits]
  simp [accepts]

/-- The data taken execute the read. -/
theorem advances_read (reads : p.prog = .act (.in32 addr) next) (inv : Inv (2 ^ log) p)
    (legal : Legal (2 ^ log) p i) : Advances (2 ^ log) p (step (2 ^ log) p i) (active i) := by
  have clean := clean_of_read reads inv.port
  have clean' := clean_step_read (2 ^ log) (i := i) reads inv.port
  have shim := shim_of_no_commit legal clean.commits
  have rest : p.rest = .act (.in32 addr) next := (rest_of_clean clean).trans reads
  have prog := prog_step_read (2 ^ log) (i := i) reads
  have rvalid' := rvalid_step_read (2 ^ log) (i := i) reads
  cases answers : p.board.memInit.rvalid with
  | true =>
    rw [answers, Bool.true_and] at prog
    rw [answers, if_pos rfl] at rvalid'
    cases ready : i.r with
    | true =>
      obtain ⟨addr', next', access, word⟩ := inv.read answers
      obtain rfl : addr' = addr := by
        rw [reads] at access
        cases access
        rfl
      rw [ready, if_pos rfl, word] at prog
      have soon := wait_le_of_clean clean'
      refine .executes _ next rest ?_ shim (by omega)
      rw [rest_of_clean clean', prog]
      rfl
    | false =>
      have idle : active i = false := by simp [active, ready]
      rw [ready, if_neg Bool.false_ne_true] at prog
      refine .waits ?_ shim ?_
      · rw [rest_of_clean clean', prog, rest]
      · rw [wait_read prog, rvalid', ready, idle]
        exact Nat.zero_le _
  | false =>
    rw [answers, Bool.false_and, if_neg Bool.false_ne_true] at prog
    rw [answers, if_neg Bool.false_ne_true] at rvalid'
    refine .waits ?_ shim ?_
    · rw [rest_of_clean clean', prog, rest]
    · rw [wait_read prog, wait_read reads, rvalid', answers]
      cases accepts : i.ar with
      | true => simpa using Bool.toNat_le (active i)
      | false => simp [active, accepts]

end Read

/-- What is not on the bus is executed at once. -/
theorem advances_at_once {op : Op} {next : Answer op → Prog α} (prog : p.prog = .act op next)
    (clean : p.port.Clean) (free : p.bus i = Csr.busIdle) (legal : Legal (2 ^ log) p i)
    (prog' : p.progNext i = next ((p.shim (2 ^ log)).access (depths addrWidth (2 ^ log)) op).1)
    (same : ((p.shim (2 ^ log)).access (depths addrWidth (2 ^ log)) op).2 = p.shim (2 ^ log)) :
    Advances (2 ^ log) p (step (2 ^ log) p i) (active i) := by
  have clean' := clean_step_idle (2 ^ log) clean free
  have soon := wait_le_of_clean clean'
  refine .executes op next ((rest_of_clean clean).trans prog) ?_ ?_ (by omega)
  · rw [rest_of_clean clean', ← prog']
    rfl
  · rw [same, shim_of_no_commit legal clean.commits]

/-- The board refines the shim. -/
theorem Inv.advances (inv : Inv (2 ^ log) p) (legal : Legal (2 ^ log) p i) :
    Advances (2 ^ log) p (step (2 ^ log) p i) (active i) := by
  have port := inv.port
  cases prog : p.prog with
  | done a =>
    have port : p.port.Clean := by rwa [PortOk, prog] at port
    refine .ended a prog ?_ (shim_of_no_commit legal port.commits)
    change p.progNext i = _
    rw [progNext, prog]
  | act op next =>
    cases op with
    | out32 addr data =>
      cases answers : p.board.memInit.bvalid with
      | true => exact advances_respond prog port legal answers
      | false =>
        cases commits : MemAccessCtrl.commits p.board.memInit with
        | true => exact advances_commit prog inv legal commits
        | false => exact advances_capture prog legal answers commits
    | in32 addr => exact advances_read prog inv legal
    | uartWriteByte data =>
      have clean : p.port.Clean := by rwa [PortOk, prog] at port
      exact advances_at_once prog clean (by rw [bus, prog]) legal (by rw [progNext, prog]) rfl
    | xilPrintf format args =>
      have clean : p.port.Clean := by rwa [PortOk, prog] at port
      exact advances_at_once prog clean (by rw [bus, prog]) legal (by rw [progNext, prog]) rfl

/-! ## The invariant over a cycle -/

theorem portOk_step (port : PortOk p) : PortOk (step memWords p i) := by
  cases prog : p.prog with
  | done a =>
    have clean : p.port.Clean := by rwa [PortOk, prog] at port
    exact portOk_of_clean (clean_step_idle memWords clean (by rw [bus, prog]))
  | act op next =>
    cases op with
    | out32 addr data =>
      have serves := serves_of_write prog port
      have prog' := prog_step_write memWords (i := i) prog
      cases taken : p.board.memInit.bvalid && i.b with
      | true =>
        rw [Bool.and_eq_true] at taken
        apply portOk_of_clean
        rw [port_step_write _ prog]
        exact serves.clean_next taken.1 taken.2
      | false =>
        rw [taken, if_neg Bool.false_ne_true] at prog'
        rw [PortOk, prog', port_step_write _ prog]
        exact serves.next rfl rfl rfl
    | in32 addr => exact portOk_of_clean (clean_step_read _ prog port)
    | uartWriteByte data =>
      have clean : p.port.Clean := by rwa [PortOk, prog] at port
      exact portOk_of_clean (clean_step_idle memWords clean (by rw [bus, prog]))
    | xilPrintf format args =>
      have clean : p.port.Clean := by rwa [PortOk, prog] at port
      exact portOk_of_clean (clean_step_idle memWords clean (by rw [bus, prog]))

/-- Without a read nothing comes up on R. -/
theorem no_rvalid_step (quiet : p.board.memInit.rvalid = false) (free : (p.bus i).arvalid = false) :
    (step memWords p i).board.memInit.rvalid = false := by
  change (MemAccessCtrl.step _ _).rvalid = _
  rw [MemAccessCtrl.rvalid_step, MemAccessCtrl.arHs, VivadoConfig.memInitIn, boardIn, free, quiet]
  rfl

theorem Inv.no_rvalid (inv : Inv memWords p)
    (other : ∀ addr next, p.prog ≠ .act (.in32 addr) next) : p.board.memInit.rvalid = false := by
  cases answers : p.board.memInit.rvalid with
  | false => rfl
  | true =>
    obtain ⟨addr, next, reads, -⟩ := inv.read answers
    exact absurd reads (other addr next)

/-- What the read mux answers is the shim's. -/
theorem readData_eq (noInitDone : p.board.memInit.initDone = false) (reg : BitVec 8) :
    MemAccessCtrl.readData p.board.memInit reg = (p.shim memWords).read reg := by
  rw [MemAccessCtrl.readData, noInitDone]
  exact if_congr Iff.rfl rfl (if_congr Iff.rfl rfl (if_congr Iff.rfl rfl (ite_self _)))

theorem Inv.read_step (inv : Inv (2 ^ log) p) (legal : Legal (2 ^ log) p i)
    (answers : (step (2 ^ log) p i).board.memInit.rvalid = true) :
    ∃ addr next, (step (2 ^ log) p i).prog = .act (.in32 addr) next ∧
      (step (2 ^ log) p i).board.memInit.rdata =
        ((step (2 ^ log) p i).shim (2 ^ log)).read (addr.setWidth 8) := by
  by_cases reading : ∃ addr next, p.prog = .act (.in32 addr) next
  · obtain ⟨addr, next, reads⟩ := reading
    have shim := shim_of_no_commit legal (clean_of_read reads inv.port).commits
    have prog := prog_step_read (2 ^ log) (i := i) reads
    rw [rvalid_step_read _ reads] at answers
    rw [shim]
    cases before : p.board.memInit.rvalid with
    | true =>
      rw [before, if_pos rfl, Bool.not_eq_true'] at answers
      rw [before, answers, Bool.and_false, if_neg Bool.false_ne_true] at prog
      obtain ⟨addr', next', access, word⟩ := inv.read before
      rw [reads] at access
      cases access
      refine ⟨addr, next, prog, ?_⟩
      rw [← word]
      change (MemAccessCtrl.step _ _).rdata = _
      rw [MemAccessCtrl.rdata_step, MemAccessCtrl.arHs, MemAccessCtrl.arready, before]
      simp
    | false =>
      rw [before, if_neg Bool.false_ne_true] at answers
      rw [before, Bool.false_and, if_neg Bool.false_ne_true] at prog
      refine ⟨addr, next, prog, ?_⟩
      rw [rdata_step_read _ reads before answers, readData_eq legal.initDone]
  · have free : (p.bus i).arvalid = false := by
      unfold bus
      split
      · rfl
      · rename_i addr next reads
        exact absurd ⟨addr, next, reads⟩ reading
      · rfl
    have before := inv.no_rvalid fun addr next reads => reading ⟨addr, next, reads⟩
    rw [no_rvalid_step before free] at answers
    exact absurd answers Bool.false_ne_true

theorem settled_of_captured (legal : Legal (2 ^ log) p i)
    (captured : (step (2 ^ log) p i).board.memInit.awPending = true) :
    Settled (2 ^ log) (step (2 ^ log) p i).board := by
  apply settled_step legal
  cases commits : MemAccessCtrl.commits p.board.memInit with
  | false => rfl
  | true =>
    -- a commit frees the place
    have freed : (step (2 ^ log) p i).port.awPending = true := captured
    have commits : p.port.commits = true := commits
    rw [port_step, WritePort.next, commits] at freed
    exact absurd freed Bool.false_ne_true

theorem Inv.step (inv : Inv (2 ^ log) p) (legal : Legal (2 ^ log) p i) :
    Inv (2 ^ log) (step (2 ^ log) p i) where
  port := portOk_step inv.port
  read := inv.read_step legal
  settled := settled_of_captured legal

/-! ## Whole runs -/

/-- What is left of the program gives the result, and leaves the shim, that the whole
    program gives and leaves at once. -/
structure Follows (memWords : Nat) (result : α × Shim) (p : Preload k addrWidth α) : Prop where
  inv : Inv memWords p
  exec : p.rest.exec (Shim.access (depths addrWidth memWords)) (p.shim memWords) = result

/-- The accesses that are left, each with the cycles it can wait for the other side. -/
def left (memWords : Nat) (p : Preload k addrWidth α) : Nat :=
  4 * (p.rest.trace (Shim.access (depths addrWidth memWords)) (p.shim memWords)).length + p.wait

theorem Follows.step {result : α × Shim} (follows : Follows (2 ^ log) result p)
    (legal : Legal (2 ^ log) p i) : Follows (2 ^ log) result (step (2 ^ log) p i) := by
  obtain ⟨inv, exec⟩ := follows
  refine ⟨inv.step legal, ?_⟩
  cases inv.advances legal with
  | executes op next before after leaves soon =>
    rw [after, leaves, ← exec, before]
    rfl
  | waits rest shim falls => rw [rest, shim, exec]
  | ended a before after shim =>
    rw [rest, before] at exec
    rw [rest, after, shim]
    exact exec

theorem left_step (inv : Inv (2 ^ log) p) (legal : Legal (2 ^ log) p i) :
    left (2 ^ log) (step (2 ^ log) p i) ≤ left (2 ^ log) p - (active i).toNat := by
  have atMost := Bool.toNat_le (active i)
  cases inv.advances legal with
  | executes op next before after leaves soon =>
    rw [left, left, after, leaves, before, Program.trace_act, List.length_cons]
    omega
  | waits rest shim falls =>
    rw [left, left, rest, shim]
    omega
  | ended a before after shim => simp [left, rest, wait, before, after]

theorem ended_of_left (memWords : Nat) (noneLeft : left memWords p = 0) : ∃ a, p.prog = .done a := by
  cases prog : p.prog with
  | done a => exact ⟨a, rfl⟩
  | act op next =>
    exfalso
    cases op with
    | out32 addr data =>
      rw [left, rest_write prog, wait_write prog] at noneLeft
      cases answers : p.board.memInit.bvalid <;> simp [answers] at noneLeft
    | _ => simp [left, rest, prog] at noneLeft

theorem inv_start (b : VivadoConfig.State k addrWidth) (prog : Prog α) :
    Inv memWords (start b prog) := by
  have clean : (start b prog).port.Clean := ⟨rfl, rfl, rfl⟩
  constructor
  · exact portOk_of_clean clean
  · intro answers
    exact absurd answers Bool.false_ne_true
  · intro captured
    exact absurd captured Bool.false_ne_true

/-- A program on the board has the result it has on the shim, and ends. -/
theorem board_runs (b : VivadoConfig.State k addrWidth) (prog : Prog α) {is : List In}
    (runs : LegalRun (step (2 ^ log)) (Legal (2 ^ log)) (start b prog) is) :
    let shim := shimOf (2 ^ log) (VivadoConfig.reset b)
    let p := run (step (2 ^ log)) (start b prog) is
    (∀ a, p.prog = .done a →
      (a, p.shim (2 ^ log)) = prog.exec (Shim.access (depths addrWidth (2 ^ log))) shim) ∧
    (4 * (prog.trace (Shim.access (depths addrWidth (2 ^ log))) shim).length + 2 ≤ is.countP active →
      ∃ a, p.prog = .done a) := by
  intro shim p
  have clean : (start b prog).port.Clean := ⟨rfl, rfl, rfl⟩
  have whole : (start b prog).rest = prog := rest_of_clean clean
  constructor
  · intro a ended
    have follows := runs.invariant (P := Follows (2 ^ log) (prog.exec _ shim))
      (fun _ _ follows legal => follows.step legal)
      ⟨inv_start b prog, by rw [whole]; rfl⟩
    have exec := follows.exec
    rw [rest, ended] at exec
    exact exec
  · intro enough
    have falls := runs.exhaust (P := Inv (2 ^ log)) (μ := left (2 ^ log)) active
      (fun _ _ inv legal => inv.step legal) (fun _ _ inv legal => left_step inv legal)
      (inv_start b prog)
    have initially : left (2 ^ log) (start b prog) ≤
        4 * (prog.trace (Shim.access (depths addrWidth (2 ^ log))) shim).length + 2 := by
      rw [left, whole]
      exact Nat.add_le_add_left (wait_le_of_clean clean) _
    have lowers : left (2 ^ log) p ≤ left (2 ^ log) (start b prog) - is.countP active := falls
    apply ended_of_left (2 ^ log)
    omega

end Preload

/-! ## The accessors of the firmware -/

open Preload in
/-- Preload and readback behave as a memory.  MicroBlaze runs any sequence of accessors,
    with INIT_DONE at 0, no W beat from the DMA and any delays on the five channels.  Each
    read returns the latest write to its word, or the initial content; each word is left with
    the latest write to it; and the sequence ends. -/
theorem preload_reads_back {k addrWidth log : Nat} (b : VivadoConfig.State k addrWidth)
    (ops : List MemOp) {is : List Preload.In}
    (runs : LegalRun (step (2 ^ log)) (Legal (2 ^ log)) (start b (runOps ops)) is) :
    let depth := depths addrWidth (2 ^ log)
    let initial := contents (2 ^ log) b
    let p := run (step (2 ^ log)) (start b (runOps ops)) is
    (∀ vals, p.prog = .done vals →
      (∀ n m byteAddr, ops[n]? = some (.read m byteAddr) →
        vals[n]? = some (some (latest depth initial (ops.take n) m (wordOf depth m byteAddr)))) ∧
      contents (2 ^ log) p.board = latest depth initial ops) ∧
    (12 * ops.length + 2 ≤ is.countP active → ∃ vals, p.prog = .done vals) := by
  intro depth initial p
  obtain ⟨result, ends⟩ := board_runs b (runOps ops) runs
  constructor
  · intro vals ended
    obtain ⟨reads, words⟩ := exec_runOps depth ops (shimOf (2 ^ log) (VivadoConfig.reset b))
    rw [← result vals ended] at reads words
    exact ⟨reads, words⟩
  · intro enough
    apply ends
    rw [length_trace_runOps]
    omega

/-- A cycle in which every channel is free and the ring manager quiet. -/
def freeCycle : Preload.In :=
  { aw := true, w := true, b := true, ar := true, r := true, rmDfAddr := 0, rmDfValid := false }

/-- Byte addresses 8 and 40 are the same word of eight. -/
theorem preload_reads_back_wrapped :
    let ops : List MemOp := [.write .sysmem 8 5, .read .sysmem 40]
    let p := run (Preload.step (2 ^ 3)) (Preload.start (boardOf fun _ => 0) (runOps ops))
      (List.replicate 26 freeCycle)
    ∃ vals, p.prog = .done vals ∧ vals[1]? = some (some 5) ∧
      contents (2 ^ 3) p.board .sysmem 2 = 5 := by
  intro ops p
  have runs : LegalRun (Preload.step (2 ^ 3)) (Preload.Legal (2 ^ 3))
      (Preload.start (boardOf fun _ => 0) (runOps ops)) (List.replicate 26 freeCycle) := by decide
  obtain ⟨result, ends⟩ := preload_reads_back (boardOf fun _ => 0) ops runs
  obtain ⟨vals, ended⟩ := ends (by decide)
  obtain ⟨reads, words⟩ := result vals ended
  refine ⟨vals, ended, ?_, ?_⟩
  · rw [reads 1 .sysmem 40 rfl]
    decide
  · rw [words]
    decide

end AxiDma.Verified
