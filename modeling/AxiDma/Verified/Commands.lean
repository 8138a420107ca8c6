import AxiDma.Verified.AxiLitePort
import AxiDma.Verified.CsrFields
import AxiDma.Verified.FirmwareModes

/-! # The firmware waits for the bus

A write port holds nothing but the write the firmware waits for, and the read data of
CTRL have RESET clear (`Waits`).  So what is left of a command (`rest`) goes on with the
commits of the registers, not with the responses: `rest_of_commits` and `rest_step`.
-/

namespace AxiDma.Verified

open AxiDma.Lib AxiDma.Rtl AxiDma.Firmware

namespace Board

open AxiDma.Firmware.Board

variable {maxInflight : Nat}

/-! ## What is left of a command -/

/-- The write channels of a target; what is not modelled never holds a write. -/
def port (b : Board maxInflight) : Target → WritePort
  | .csr => Csr.writePort b.sys.csr
  | .memAccessCtrl => MemAccessCtrl.writePort b.mac
  | .other => .idle

/-- The rest of the command, after what is committed. -/
def rest (interconnect : Interconnect) (b : Board maxInflight) : Prog Unit :=
  match b.thread with
  | .receive _ => .done ()
  | .execute (.act (.out32 addr data) next) =>
    if (port b (interconnect.route addr)).bvalid then next () else .act (.out32 addr data) next
  | .execute prog => prog

/-- The write the firmware waits for at a target. -/
def writeTo (interconnect : Interconnect) (target : Target) : Thread → Option (Word × Word)
  | .execute (.act (.out32 addr data) _) =>
    if interconnect.route addr = target then some (addr, data) else none
  | _ => none

def PortOk (p : WritePort) : Option (Word × Word) → Prop
  | none => p.Clean
  | some (addr, data) => p.Serves addr data

def PortsOk (interconnect : Interconnect) (b : Board maxInflight) : Prop :=
  ∀ target, PortOk (port b target) (writeTo interconnect target b.thread)

structure Waits (interconnect : Interconnect) (b : Board maxInflight) : Prop where
  ports : ∀ target, PortOk (port b target) (writeTo interconnect target b.thread)
  /-- The read data of CTRL that wait to be taken have RESET clear. -/
  csrRead : b.sys.csr.rvalid = true → ∃ addr next, b.thread = .execute (.act (.in32 addr) next) ∧
    interconnect.route addr = .csr ∧
      (addr.setWidth 8 = Csr.regCtrl → b.sys.csr.rdata.getLsbD 1 = false)
  readback : b.sys.csr.ctrlReadbackData.getLsbD 1 = false

variable {interconnect : Interconnect} {b : Board maxInflight} {i : In}

/-! ## The write ports -/

variable {target : Target} {p : WritePort} {t : Thread}

theorem thread_of_writeTo {addr data : Word}
    (awaited : writeTo interconnect target t = some (addr, data)) :
    ∃ next, t = .execute (.act (.out32 addr data) next) ∧ interconnect.route addr = target := by
  unfold writeTo at awaited
  split at awaited
  · split at awaited
    · rename_i next here
      cases awaited
      exact ⟨next, rfl, here⟩
    · cases awaited
  · cases awaited

/-- The bus carries the write the firmware waits for. -/
theorem busOf_writeTo {addr data : Word} (awaited : writeTo interconnect target t = some (addr, data)) :
    (busOf interconnect t target i).awaddr = addr ∧ (busOf interconnect t target i).wdata = data ∧
      (busOf interconnect t target i).wstrb = 15 ∧ (busOf interconnect t target i).bready = i.b := by
  obtain ⟨next, rfl, here⟩ := thread_of_writeTo awaited
  simp [busOf, accessTarget, accessBus, here]

/-- Otherwise nothing is to be captured. -/
theorem busOf_none (awaited : writeTo interconnect target t = none) :
    (busOf interconnect t target i).awvalid = false ∧
      (busOf interconnect t target i).wvalid = false := by
  unfold busOf
  split
  · rename_i target' op access
    split
    · rename_i here
      unfold accessTarget at access
      split at access
      · cases access
        simp [writeTo, here] at awaited
      · cases access
        exact ⟨rfl, rfl⟩
      · cases access
    · exact ⟨rfl, rfl⟩
  · exact ⟨rfl, rfl⟩

theorem PortOk.of_clean (clean : p.Clean) (write : Option (Word × Word)) : PortOk p write := by
  cases write with
  | none => exact clean
  | some write => exact clean.serves

theorem PortOk.clear {write : Option (Word × Word)} (ok : PortOk p write) : p.Clear := by
  cases write with
  | none =>
    obtain ⟨-, -, noAnswer⟩ := ok
    exact fun answers => absurd (noAnswer.symm.trans answers) (by decide)
  | some write => exact ok.b

theorem PortOk.next (ok : PortOk p (writeTo interconnect target t)) :
    PortOk (p.next (busOf interconnect t target i)) (writeTo interconnect target t) := by
  cases awaited : writeTo interconnect target t with
  | none =>
    rw [awaited] at ok
    obtain ⟨noAw, noW⟩ := busOf_none (i := i) awaited
    exact WritePort.Clean.next ok noAw noW
  | some write =>
    rw [awaited] at ok
    obtain ⟨awaddr, wdata, wstrb, -⟩ := busOf_writeTo (i := i) awaited
    exact WritePort.Serves.next ok awaddr wdata wstrb

theorem writeResponds_eq {b : Board maxInflight} (modelled : target ≠ .other) :
    writeResponds b target i = ((port b target).bvalid && i.b) := by
  cases target with
  | csr | memAccessCtrl => rfl
  | other => exact absurd rfl modelled

theorem port_step (modelled : target ≠ .other) :
    port (step interconnect b i) target =
      (port b target).next (busOf interconnect b.thread target i) := by
  cases target with
  | csr => exact Csr.writePort_next ..
  | memAccessCtrl => exact MemAccessCtrl.writePort_step ..
  | other => exact absurd rfl modelled

/-- The firmware goes on only past clean ports. -/
theorem PortsOk.clean_of_moves (ports : PortsOk interconnect b)
    (moves : ∀ addr data next, b.thread = .execute (.act (.out32 addr data) next) →
      writeResponds b (interconnect.route addr) i = true) (target : Target) :
    (port (step interconnect b i) target).Clean := by
  by_cases modelled : target = .other
  · rw [modelled]
    exact WritePort.clean_idle
  rw [port_step modelled]
  have ok := ports target
  cases awaited : writeTo interconnect target b.thread with
  | none =>
    rw [awaited] at ok
    obtain ⟨noAw, noW⟩ := busOf_none (i := i) awaited
    exact WritePort.Clean.next ok noAw noW
  | some write =>
    rw [awaited] at ok
    obtain ⟨next, thread, here⟩ := thread_of_writeTo awaited
    have responds := moves _ _ _ thread
    rw [here, writeResponds_eq modelled, Bool.and_eq_true] at responds
    obtain ⟨-, -, -, bready⟩ := busOf_writeTo (i := i) awaited
    exact WritePort.Serves.clean_next ok responds.1 (bready.trans responds.2)

theorem PortsOk.stays_or_clean (ports : PortsOk interconnect b) (i : In) :
    threadNext interconnect b i = b.thread ∨
      ∀ target, (port (step interconnect b i) target).Clean := by
  by_cases moves : ∀ addr data next, b.thread = .execute (.act (.out32 addr data) next) →
      writeResponds b (interconnect.route addr) i = true
  · exact .inr (ports.clean_of_moves moves)
  · left
    push Not at moves
    obtain ⟨addr, data, next, thread, silent⟩ := moves
    simp [threadNext, thread, silent]

theorem PortsOk.next (ports : PortsOk interconnect b) (target : Target) :
    PortOk (port (step interconnect b i) target)
      (writeTo interconnect target (step interconnect b i).thread) := by
  rcases ports.stays_or_clean i with stays | clean
  · by_cases modelled : target = .other
    · rw [modelled]
      exact .of_clean WritePort.clean_idle _
    rw [show (step interconnect b i).thread = b.thread from stays, port_step modelled]
    exact (ports target).next
  · exact .of_clean (clean target) _

/-! ## Steps of a command -/

theorem rest_out32 {addr data : Word} {next : Unit → Prog Unit}
    (thread : b.thread = .execute (.act (.out32 addr data) next)) :
    rest interconnect b =
      if (port b (interconnect.route addr)).bvalid then next () else .act (.out32 addr data) next := by
  simp only [rest, thread]

theorem rest_of_clean {prog : Prog Unit} (thread : b.thread = .execute prog)
    (clean : ∀ target, (port b target).Clean) : rest interconnect b = prog := by
  unfold rest
  rw [thread]
  split
  · rename_i received
    cases received
  · rename_i addr data next write
    cases write
    obtain ⟨-, -, noAnswer⟩ := clean (interconnect.route addr)
    rw [noAnswer]
    rfl
  · rename_i write
    cases write
    rfl

/-- Only one target commits, the one the firmware waits for. -/
theorem PortsOk.writeTo_of_commits (ports : PortsOk interconnect b)
    (commits : (port b target).commits = true) :
    ∃ write, writeTo interconnect target b.thread = some write := by
  have ok := ports target
  cases awaited : writeTo interconnect target b.thread with
  | none =>
    rw [awaited] at ok
    exact absurd (commits.symm.trans (WritePort.Clean.commits ok)) (by decide)
  | some write => exact ⟨write, rfl⟩

theorem PortsOk.commits_unique (ports : PortsOk interconnect b) (target target' : Target)
    (commits : (port b target).commits = true) (commits' : (port b target').commits = true) :
    target = target' := by
  obtain ⟨⟨addr, data⟩, awaited⟩ := ports.writeTo_of_commits commits
  obtain ⟨⟨addr', data'⟩, awaited'⟩ := ports.writeTo_of_commits commits'
  obtain ⟨next, thread, here⟩ := thread_of_writeTo awaited
  obtain ⟨next', thread', here'⟩ := thread_of_writeTo awaited'
  rw [thread] at thread'
  cases thread'
  exact here.symm.trans here'

/-- A commit takes the write off the command. -/
theorem PortsOk.rest_of_commits (ports : PortsOk interconnect b) (target : Target) (i : In)
    (commits : (port b target).commits = true) :
    ∃ addr data next, interconnect.route addr = target ∧
      writeTo interconnect target b.thread = some (addr, data) ∧
        (port b target).Serves addr data ∧
          rest interconnect b = .act (.out32 addr data) next ∧
            rest interconnect (step interconnect b i) = next () := by
  have ok := ports target
  obtain ⟨⟨addr, data⟩, awaited⟩ := ports.writeTo_of_commits commits
  rw [awaited] at ok
  obtain ⟨next, thread, here⟩ := thread_of_writeTo awaited
  have modelled : target ≠ .other := by
    rintro rfl
    cases commits
  have noAnswer : (port b target).bvalid = false := by
    simp only [WritePort.commits, Bool.and_eq_true, Bool.not_eq_true'] at commits
    exact commits.1.1
  have stays : (step interconnect b i).thread = .execute (.act (.out32 addr data) next) := by
    change threadNext interconnect b i = _
    simp [threadNext, thread, here, writeResponds_eq modelled, noAnswer]
  refine ⟨addr, data, next, here, awaited, ok, ?_, ?_⟩
  · rw [rest_out32 thread, here, noAnswer]
    rfl
  · rw [rest_out32 stays, here, port_step modelled]
    simp [WritePort.next, commits]

/-- An operation that writes no register file is answered, or nothing happens. -/
inductive Advance (interconnect : Interconnect) : Prog Unit → Prog Unit → Prop
  | stays (prog : Prog Unit) : Advance interconnect prog prog
  | answered (op : Op) (next : Answer op → Prog Unit) (answer : Answer op)
      (free : ∀ mode, (ownership interconnect).after mode op = some mode)
      (given : Answered interconnect op answer) :
      Advance interconnect (.act op next) (next answer)

theorem Advance.conforms {prog prog' : Prog Unit} {mode : Mode}
    (advance : Advance interconnect prog prog') (conforms : Conforms interconnect mode prog) :
    Conforms interconnect mode prog' := by
  cases advance with
  | stays => exact conforms
  | answered op next answer free given =>
    obtain ⟨mode', leads, continues⟩ := conforms
    obtain rfl : mode = mode' := Option.some.inj ((free mode).symm.trans leads)
    exact continues answer given

def dispatched (b : Board maxInflight) (i : In) : Option Packet :=
  match b.thread, i.rx with
  | .receive parser, some byte => (parser.feed byte).getRight?
  | _, _ => none

theorem PortsOk.rest_of_dispatch {p : Packet} (ports : PortsOk interconnect b)
    (packet : dispatched b i = some p) :
    rest interconnect b = .done () ∧ rest interconnect (step interconnect b i) = process p := by
  unfold dispatched at packet
  split at packet
  · rename_i parser byte thread rx
    refine ⟨by simp only [rest, thread], ?_⟩
    refine rest_of_clean ?_ (ports.clean_of_moves fun _ _ _ other => ?_)
    · change threadNext interconnect b i = _
      cases fed : parser.feed byte with
      | inl parser' => simp [fed] at packet
      | inr packet' =>
        obtain rfl : packet' = p := by simpa [fed] using packet
        simp only [threadNext, thread, rx, fed]
    · rw [thread] at other
      cases other
  · cases packet

/-- The data of a read have RESET clear, if CTRL is read. -/
theorem Waits.answered (waits : Waits interconnect b) {addr data : Word}
    {next : Word → Prog Unit} (thread : b.thread = .execute (.act (.in32 addr) next))
    (responds : readResponds b (interconnect.route addr) i = some data) :
    Answered interconnect (.in32 addr) data := by
  intro here ctrl
  rw [here, readResponds] at responds
  split at responds
  · rename_i valid
    obtain rfl := Option.some.inj responds
    obtain ⟨addr', next', thread', -, noReset⟩ :=
      waits.csrRead (Bool.and_eq_true_iff.mp valid).1
    rw [thread] at thread'
    cases thread'
    exact noReset ctrl
  · cases responds

/-- The command goes on past an answered operation. -/
theorem PortsOk.rest_of_moves {prog : Prog Unit} (ports : PortsOk interconnect b)
    (thread : threadNext interconnect b i = .execute prog)
    (moves : ∀ addr data next, b.thread = .execute (.act (.out32 addr data) next) →
      writeResponds b (interconnect.route addr) i = true) :
    rest interconnect (step interconnect b i) = prog :=
  rest_of_clean thread (ports.clean_of_moves moves)

/-- How an operation is answered in a cycle in which no write commits. -/
def Responds (interconnect : Interconnect) (b : Board maxInflight) (i : In) :
    (op : Op) → Answer op → Prop
  | .out32 addr _, _ => interconnect.route addr = .other
  | .in32 addr, data => readResponds b (interconnect.route addr) i = some data
  | .uartWriteByte _, _ | .xilPrintf _ _, _ => i.tx = true

theorem PortsOk.rest_step_out32 {addr data : Word} {next : Unit → Prog Unit}
    (ports : PortsOk interconnect b) (noCommit : ∀ target, (port b target).commits = false)
    (thread : b.thread = .execute (.act (.out32 addr data) next)) :
    rest interconnect (step interconnect b i) = rest interconnect b ∨
      interconnect.route addr = .other ∧ rest interconnect b = .act (.out32 addr data) next ∧
        rest interconnect (step interconnect b i) = next () := by
  cases responds : writeResponds b (interconnect.route addr) i with
  | true =>
    have after : rest interconnect (step interconnect b i) = next () := by
      refine ports.rest_of_moves (by simp [threadNext, thread, responds]) ?_
      intro addr' data' next' thread'
      rw [thread] at thread'
      cases thread'
      exact responds
    rw [after, rest_out32 thread]
    split
    · exact .inl rfl
    · rename_i silent
      -- only what is not modelled answers without a commit
      have other : interconnect.route addr = .other := by
        by_contra modelled
        rw [writeResponds_eq modelled, Bool.and_eq_true] at responds
        exact silent responds.1
      exact .inr ⟨other, rfl, rfl⟩
  | false =>
    have stays : (step interconnect b i).thread = .execute (.act (.out32 addr data) next) := by
      change threadNext interconnect b i = _
      simp [threadNext, thread, responds]
    have same : (port (step interconnect b i) (interconnect.route addr)).bvalid =
        (port b (interconnect.route addr)).bvalid := by
      by_cases modelled : interconnect.route addr = .other
      · rw [modelled]
        rfl
      have awaited : writeTo interconnect (interconnect.route addr) b.thread = some (addr, data) := by
        simp [writeTo, thread]
      obtain ⟨-, -, -, bready⟩ := busOf_writeTo (i := i) awaited
      rw [writeResponds_eq modelled] at responds
      rw [port_step modelled, WritePort.next, noCommit, bready]
      grind
    left
    rw [rest_out32 stays, rest_out32 thread, same]

theorem rest_act {op : Op} {next : Answer op → Prog Unit}
    (thread : b.thread = .execute (.act op next)) (notWrite : ∀ addr data, op ≠ .out32 addr data) :
    rest interconnect b = .act op next := by
  unfold rest
  rw [thread]
  split
  · rename_i received
    cases received
  · rename_i addr data next write
    cases write
    exact absurd rfl (notWrite addr data)
  · rename_i write
    cases write
    rfl

theorem PortsOk.rest_step_act {op : Op} {next : Answer op → Prog Unit}
    (ports : PortsOk interconnect b) (thread : b.thread = .execute (.act op next))
    (notWrite : ∀ addr data, op ≠ .out32 addr data)
    (goes : threadNext interconnect b i = .execute (.act op next) ∨
      ∃ answer, threadNext interconnect b i = .execute (next answer) ∧
        Responds interconnect b i op answer) :
    rest interconnect (step interconnect b i) = rest interconnect b ∨
      ∃ answer, Responds interconnect b i op answer ∧ rest interconnect b = .act op next ∧
        rest interconnect (step interconnect b i) = next answer := by
  have before : rest interconnect b = .act op next := rest_act thread notWrite
  rcases goes with stays | ⟨answer, moves, given⟩
  · left
    rw [before, rest_act (b := step interconnect b i) stays notWrite]
  · refine .inr ⟨answer, given, before, ports.rest_of_moves moves fun addr data next' thread' => ?_⟩
    rw [thread] at thread'
    cases thread'
    exact absurd rfl (notWrite addr data)

/-- Without a commit or a packet at most one operation is answered. -/
theorem PortsOk.rest_step (ports : PortsOk interconnect b)
    (noCommit : ∀ target, (port b target).commits = false) (noPacket : dispatched b i = none) :
    rest interconnect (step interconnect b i) = rest interconnect b ∨
      ∃ op next answer, b.thread = .execute (.act op next) ∧ Responds interconnect b i op answer ∧
        rest interconnect b = .act op next ∧
          rest interconnect (step interconnect b i) = next answer := by
  cases thread : b.thread with
  | receive parser =>
    -- a byte that completes no packet starts no program
    have still : ∃ parser', threadNext interconnect b i = .receive parser' := by
      cases rx : i.rx with
      | none => exact ⟨parser, by simp only [threadNext, thread, rx]⟩
      | some byte =>
        cases fed : parser.feed byte with
        | inl parser' => exact ⟨parser', by simp only [threadNext, thread, rx, fed]⟩
        | inr packet => simp [dispatched, thread, rx, fed] at noPacket
    obtain ⟨parser', thread'⟩ := still
    left
    simp only [rest, step, thread, thread']
  | execute prog =>
    cases prog with
    | done =>
      left
      simp only [rest, step, threadNext, thread]
    | act op next =>
      cases op with
      | out32 addr data =>
        refine (ports.rest_step_out32 noCommit thread).imp_right ?_
        rintro ⟨other, before, after⟩
        exact ⟨_, _, (), rfl, other, before, after⟩
      -- the others are answered when the bus or the serial line is ready, or wait
      | in32 addr =>
        have goes : threadNext interconnect b i = .execute (.act (.in32 addr) next) ∨
            ∃ data, threadNext interconnect b i = .execute (next data) ∧
              Responds interconnect b i (.in32 addr) data := by
          cases responds : readResponds b (interconnect.route addr) i with
          | none => exact .inl (by simp only [threadNext, thread, responds])
          | some data => exact .inr ⟨data, by simp only [threadNext, thread, responds], responds⟩
        refine (ports.rest_step_act thread (fun _ _ => by simp) goes).imp_right ?_
        rintro ⟨answer, given⟩
        exact ⟨_, _, answer, rfl, given⟩
      | uartWriteByte data =>
        have goes : threadNext interconnect b i = .execute (.act (.uartWriteByte data) next) ∨
            ∃ answer, threadNext interconnect b i = .execute (next answer) ∧
              Responds interconnect b i (.uartWriteByte data) answer := by
          cases tx : i.tx with
          | false => exact .inl (by simp [threadNext, thread, tx])
          | true => exact .inr ⟨(), by simp [threadNext, thread, tx], tx⟩
        refine (ports.rest_step_act thread (fun _ _ => by simp) goes).imp_right ?_
        rintro ⟨answer, given⟩
        exact ⟨_, _, answer, rfl, given⟩
      | xilPrintf format args =>
        have goes : threadNext interconnect b i = .execute (.act (.xilPrintf format args) next) ∨
            ∃ answer, threadNext interconnect b i = .execute (next answer) ∧
              Responds interconnect b i (.xilPrintf format args) answer := by
          cases tx : i.tx with
          | false => exact .inl (by simp [threadNext, thread, tx])
          | true => exact .inr ⟨(), by simp [threadNext, thread, tx], tx⟩
        refine (ports.rest_step_act thread (fun _ _ => by simp) goes).imp_right ?_
        rintro ⟨answer, given⟩
        exact ⟨_, _, answer, rfl, given⟩

theorem Waits.rest_step (waits : Waits interconnect b)
    (noCommit : ∀ target, (port b target).commits = false) (noPacket : dispatched b i = none) :
    Advance interconnect (rest interconnect b) (rest interconnect (step interconnect b i)) := by
  rcases PortsOk.rest_step waits.ports noCommit noPacket with
    stays | ⟨op, next, answer, thread, responds, before, after⟩
  · rw [stays]
    exact .stays _
  rw [before, after]
  cases op with
  | out32 addr data =>
    refine .answered (Op.out32 addr data) next answer (fun mode => ?_) trivial
    change afterWrite interconnect mode addr data = some mode
    simp only [afterWrite, show interconnect.route addr = .other from responds]
  | in32 addr =>
    exact .answered (Op.in32 addr) next answer (fun _ => rfl) (waits.answered thread responds)
  | uartWriteByte data =>
    exact .answered (Op.uartWriteByte data) next answer (fun _ => rfl) trivial
  | xilPrintf format args =>
    exact .answered (Op.xilPrintf format args) next answer (fun _ => rfl) trivial

/-! ## The invariant -/

theorem readback_step (readback : b.sys.csr.ctrlReadbackData.getLsbD 1 = false) :
    (step interconnect b i).sys.csr.ctrlReadbackData.getLsbD 1 = false := by
  change (Csr.next b.sys.csr _).ctrlReadbackData.getLsbD 1 = false
  rw [Csr.next_ctrlReadbackData]
  split
  · simp
  · exact readback

/-- An AR handshake belongs to a read the firmware waits for. -/
theorem thread_of_arvalid (arvalid : (busOf interconnect b.thread .csr i).arvalid = true) :
    ∃ addr next, b.thread = .execute (.act (.in32 addr) next) ∧ interconnect.route addr = .csr ∧
      (busOf interconnect b.thread .csr i).araddr = addr := by
  unfold busOf accessTarget at arvalid ⊢
  split at arvalid
  · rename_i target op access
    split at access
    · cases access
      split at arvalid <;> cases arvalid
    · rename_i addr next thread
      cases access
      split at arvalid
      · rename_i here
        exact ⟨addr, next, thread, here, by simp [here, accessBus]⟩
      · cases arvalid
    · cases access
  · cases arvalid

/-- A read of a CSR stays until its data are taken. -/
theorem Waits.csrRead_step (waits : Waits interconnect b)
    (valid : (step interconnect b i).sys.csr.rvalid = true) :
    ∃ addr next, (step interconnect b i).thread = .execute (.act (.in32 addr) next) ∧
      interconnect.route addr = .csr ∧
        (addr.setWidth 8 = Csr.regCtrl → (step interconnect b i).sys.csr.rdata.getLsbD 1 = false) := by
  change (Csr.next b.sys.csr (CsrRing.csrIn b.sys (sysIn interconnect b i))).rvalid = true at valid
  rw [Csr.next_rvalid, Bool.or_eq_true] at valid
  rcases valid with handshake | held
  · have accepted := handshake
    obtain ⟨arvalid, ready⟩ := Bool.and_eq_true_iff.mp handshake
    obtain ⟨addr, next, thread, here, araddr⟩ := thread_of_arvalid arvalid
    have noData : b.sys.csr.rvalid = false := by simpa [Csr.arready] using ready
    refine ⟨addr, next, ?_, here, fun ctrl => ?_⟩
    · simp [step, threadNext, thread, here, readResponds, noData]
    · change (Csr.next b.sys.csr (CsrRing.csrIn b.sys (sysIn interconnect b i))).rdata.getLsbD 1 = _
      rw [Csr.next_rdata, if_pos accepted]
      change (Csr.readData b.sys.csr _
        ((busOf interconnect b.thread .csr i).araddr.setWidth 8)).getLsbD 1 = _
      rw [araddr, ctrl]
      exact Csr.readData_ctrl_reset _ waits.readback
  · obtain ⟨data, notReady⟩ := Bool.and_eq_true_iff.mp held
    obtain ⟨addr, next, thread, here, noReset⟩ := waits.csrRead data
    have notTaken : i.r = false := by
      simpa [CsrRing.csrIn, sysIn, busOf, accessTarget, accessBus, thread, here] using notReady
    refine ⟨addr, next, ?_, here, fun ctrl => ?_⟩
    · simp [step, threadNext, thread, here, readResponds, notTaken]
    · change (Csr.next b.sys.csr (CsrRing.csrIn b.sys (sysIn interconnect b i))).rdata.getLsbD 1 = _
      rw [Csr.next_rdata, if_neg (by simp [Csr.arHs, Csr.arready, data])]
      exact noReset ctrl

theorem Waits.step (waits : Waits interconnect b) (i : In) :
    Waits interconnect (step interconnect b i) where
  ports := PortsOk.next waits.ports
  csrRead := waits.csrRead_step
  readback := readback_step waits.readback

theorem waits_start : Waits interconnect (start maxInflight) where
  ports target := by cases target <;> exact ⟨rfl, rfl, rfl⟩
  csrRead valid := by cases valid
  readback := BitVec.getLsbD_zero

end Board

end AxiDma.Verified
