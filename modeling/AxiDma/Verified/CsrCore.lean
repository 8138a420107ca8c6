import AxiDma.Firmware.DmaTests
import AxiDma.Lib.Device
import AxiDma.Verified.CoreDrains
import AxiDma.Verified.CsrTraffic

/-! # The CSR block in front of the core, and a program in front of both

`CsrCore` is `dma_top` with its system memory.  A program on MicroBlaze operates it over AXI4-Lite
(`device`); every delay of a channel is an input.  The rules at the end are total correctness of
one access: what it needs and keeps is a predicate on the state, or for a write a family of
predicates on the registers.
-/

namespace AxiDma.Verified

open AxiDma.Lib AxiDma.Rtl AxiDma.Firmware

structure CsrCore (k addrWidth : Nat) where
  csr : Csr.State
  core : ClosedCore k addrWidth

namespace CsrCore

variable {k addrWidth : Nat}

/-- The channels MicroBlaze is active on, and room on the serial line. -/
structure Delays where
  aw : Bool
  w : Bool
  b : Bool
  ar : Bool
  r : Bool
  tx : Bool
  deriving DecidableEq, Repr

/-- The signals of a 32-bit access. -/
def bus (i : Delays) : Option Op → AxiLiteMaster
  | some (.out32 addr data) =>
    { Csr.busIdle with awaddr := addr, awvalid := i.aw, wdata := data, wstrb := 15,
                       wvalid := i.w, bready := i.b }
  | some (.in32 addr) => { Csr.busIdle with araddr := addr, arvalid := i.ar, rready := i.r }
  | _ => Csr.busIdle

def csrIn (memWords : Nat) (s : CsrCore k addrWidth) (bus : AxiLiteMaster) : Csr.In :=
  { rstN := true
    bus := bus
    ring :=
      { head := s.core.pipe.core.rm.head
        busy := RingManager.busy s.core.pipe.core.rm
        ringEmpty := RingManager.ringEmpty s.core.pipe.core.rm (Csr.toRing s.csr)
        irqEmptySet := RingManager.irqEmptySet s.core.pipe.core.rm (Csr.toRing s.csr)
        errorSet := RingManager.errorSet
          (DmaCore.rmIn s.core.pipe.core (s.core.coreIn memWords (Csr.toRing s.csr))) } }

def step (memWords : Nat) (s : CsrCore k addrWidth) (i : Delays) (op : Option Op) : CsrCore k addrWidth :=
  { csr := Csr.next s.csr (s.csrIn memWords (bus i op))
    core := s.core.step memWords (Csr.toRing s.csr) }

/-- Every access is one to the CSR block; a byte of output takes a cycle with room for it. -/
def device (k addrWidth memWords : Nat) : Device (CsrCore k addrWidth) Delays Op Answer where
  step := step memWords
  answer s i op :=
    match op with
    | .out32 _ _ => if s.csr.bvalid && i.b then some () else none
    | .in32 _ => if s.csr.rvalid && i.r then some s.csr.rdata else none
    | .uartWriteByte _ | .xilPrintf _ _ => if i.tx then some () else none
  prompt i := i.aw && i.w && i.b && i.ar && i.r && i.tx

/-- Not a write. -/
def Reads : Option Op → Prop
  | some (.out32 _ _) => False
  | _ => True

/-- The write channels are clean, and no error clear is due. -/
structure Unwritten (csr : Csr.State) : Prop where
  port : (Csr.writePort csr).Clean
  noClear : csr.irqClearErrorPending = false

variable {memWords : Nat} {s : CsrCore k addrWidth} {i : Delays} {op : Option Op} {addr data : Word}

theorem csr_step : (step memWords s i op).csr = Csr.next s.csr (s.csrIn memWords (bus i op)) := rfl

theorem core_step : (step memWords s i op).core = s.core.step memWords (Csr.toRing s.csr) := rfl

theorem Reads.awvalid (reads : Reads op) : (bus i op).awvalid = false := by
  unfold bus
  split
  · cases reads
  · rfl
  · rfl

theorem Reads.wvalid (reads : Reads op) : (bus i op).wvalid = false := by
  unfold bus
  split
  · cases reads
  · rfl
  · rfl

theorem Unwritten.commits (unwritten : Unwritten s.csr) : Csr.commits s.csr = false :=
  unwritten.port.commits

theorem Unwritten.step (unwritten : Unwritten s.csr) (reads : Reads op) :
    Unwritten (step memWords s i op).csr where
  port := by
    rw [csr_step, Csr.writePort_next]
    exact unwritten.port.next reads.awvalid reads.wvalid
  noClear := by
    rw [csr_step, Csr.next_irqClearErrorPending, Csr.irqClearPulseError, Csr.commitsTo,
      unwritten.commits, unwritten.noClear]
    rfl

/-- Only a read raises `rvalid`. -/
theorem rvalid_step (noData : s.csr.rvalid = false) (noRead : ∀ addr, op ≠ some (.in32 addr)) :
    (step memWords s i op).csr.rvalid = false := by
  have noAr : (bus i op).arvalid = false := by
    unfold bus
    split
    · rfl
    · exact absurd rfl (noRead _)
    · rfl
  rw [csr_step, Csr.next_rvalid, Csr.arHs, noData]
  simp [csrIn, noAr]

/-! ## Reads and output -/

theorem and_bit_eq_zero (w : Word) {n : Nat} (less : n < 32) :
    w &&& BitVec.twoPow 32 n = 0 ↔ w.getLsbD n = false := by
  rw [BitVec.and_twoPow]
  cases bit : w.getLsbD n with
  | false => simp
  | true =>
    simp only [if_true, Bool.true_eq_false, iff_false]
    intro zero
    have one := congrArg (BitVec.getLsbD · n) zero
    simp [less] at one

theorem driven_in32 (s : CsrCore k addrWidth) (i : Delays) :
    Driven.step (device k addrWidth memWords) ⟨s, in32 addr⟩ i = ⟨step memWords s i (some (.in32 addr)),
      if s.csr.rvalid && i.r then .done s.csr.rdata else in32 addr⟩ := by
  simp only [Driven.step, device, in32, Program.call]
  cases s.csr.rvalid && i.r <;> rfl

theorem driven_xilPrintf (s : CsrCore k addrWidth) (i : Delays) (format : String) (args : List Word) :
    Driven.step (device k addrWidth memWords) ⟨s, xilPrintf format args⟩ i =
      ⟨step memWords s i (some (.xilPrintf format args)),
        if i.tx then .done () else xilPrintf format args⟩ := by
  simp only [Driven.step, device, xilPrintf, Program.call]
  cases i.tx <;> rfl

theorem rvalid_in32 : (step memWords s i (some (.in32 addr))).csr.rvalid =
    if s.csr.rvalid then !i.r else i.ar := by
  rw [csr_step, Csr.next_rvalid, Csr.arHs, Csr.arready]
  cases s.csr.rvalid <;> simp [csrIn, bus]

theorem rdata_in32 : (step memWords s i (some (.in32 addr))).csr.rdata =
    if !s.csr.rvalid && i.ar then
      Csr.readData s.csr (s.csrIn memWords (bus i (some (.in32 addr)))).ring (addr.setWidth 8)
    else s.csr.rdata := by
  rw [csr_step, Csr.next_rdata, Csr.arHs, Csr.arready, Bool.and_comm]
  rfl

section Reading

variable {K : CsrCore k addrWidth → Prop} {V : Word → CsrCore k addrWidth → Prop}

/-- A read before its data are latched, or with them. -/
def Reading (V : Word → CsrCore k addrWidth → Prop) (n : Nat) (s : CsrCore k addrWidth) : Prop :=
  match s.csr.rvalid with
  | false => 2 ≤ n
  | true => V s.csr.rdata s ∧ 1 ≤ n

theorem Reading.pos {n : Nat} (reading : Reading V n s) : 0 < n := by
  unfold Reading at reading
  split at reading
  · omega
  · exact reading.2

/-- A read takes two cycles: the data is that of the first, and `V` says what follows from it. -/
theorem ensures_in32 (kept : ∀ s i op, Reads op → K s → K (step memWords s i op))
    (latched : ∀ s i, K s → V (Csr.readData s.csr (s.csrIn memWords (bus i (some (.in32 addr)))).ring
      (addr.setWidth 8)) (step memWords s i (some (.in32 addr))))
    (stays : ∀ v s i op, Reads op → K s → V v s → V v (step memWords s i op))
    (holds : K s) (noData : s.csr.rvalid = false) :
    Ensures (device k addrWidth memWords) (fun v s => K s ∧ V v s ∧ s.csr.rvalid = false) 2
      ⟨s, in32 addr⟩ := by
  -- the read before the latch or with its data, and returned
  refine Ensures.of_inv (fun n c => K c.state ∧ (c.prog = in32 addr ∧ Reading V n c.state ∨
    ∃ v, c.prog = .done v ∧ V v c.state ∧ c.state.csr.rvalid = false)) ?_ ?_
    ⟨holds, .inl ⟨rfl, by simp [Reading, noData]⟩⟩
  · intro n c i inv
    obtain ⟨s, prog⟩ := c
    obtain ⟨holds, waits⟩ := inv
    have prompt : ((device k addrWidth memWords).prompt i).toNat ≤ 1 := Bool.toNat_le _
    cases waits with
    | inl reading =>
      obtain ⟨rfl, reading⟩ := reading
      rw [driven_in32]
      refine ⟨kept s i _ trivial holds, ?_⟩
      unfold Reading at reading
      cases shown : s.csr.rvalid with
      | false =>
        rw [shown] at reading
        refine .inl ⟨rfl, ?_⟩
        have next : (step memWords s i (some (.in32 addr))).csr.rvalid = i.ar := by
          rw [rvalid_in32, shown]
          rfl
        cases ar : i.ar with
        | true =>
          have data : (step memWords s i (some (.in32 addr))).csr.rdata = _ := rdata_in32
          rw [shown, ar, Bool.not_false, Bool.true_and, if_pos rfl] at data
          simp only [Reading, next, ar, data]
          exact ⟨latched s i holds, by omega⟩
        | false => simpa [Reading, next, ar, device] using reading
      | true =>
        rw [shown] at reading
        have next : (step memWords s i (some (.in32 addr))).csr.rvalid = !i.r := by
          rw [rvalid_in32, shown]
          rfl
        -- the data wait for RREADY
        have value := stays s.csr.rdata s i (some (.in32 addr)) trivial holds reading.1
        cases r : i.r with
        | true => exact .inr ⟨s.csr.rdata, rfl, value, by rw [next, r]; rfl⟩
        | false =>
          have data : (step memWords s i (some (.in32 addr))).csr.rdata = _ := rdata_in32
          rw [shown, Bool.not_true, Bool.false_and, if_neg Bool.false_ne_true] at data
          refine .inl ⟨rfl, ?_⟩
          simp only [Reading, next, r, data]
          exact ⟨value, by simpa [device, r] using reading.2⟩
    | inr returned =>
      obtain ⟨v, rfl, value, noData⟩ := returned
      exact ⟨kept s i none trivial holds, .inr ⟨v, rfl, stays v s i none trivial holds value,
        rvalid_step noData (by simp)⟩⟩
  · intro n c inv
    obtain ⟨s, prog⟩ := c
    obtain ⟨holds, ⟨rfl, reading⟩ | ⟨v, rfl, value, noData⟩⟩ := inv
    · exact reading.pos
    · exact ⟨holds, value, noData⟩

/-- Output takes one cycle. -/
theorem ensures_xilPrintf (kept : ∀ s i op, Reads op → K s → K (step memWords s i op)) (holds : K s)
    (noData : s.csr.rvalid = false) (format : String) (args : List Word) :
    Ensures (device k addrWidth memWords) (fun _ s => K s ∧ s.csr.rvalid = false) 1
      ⟨s, xilPrintf format args⟩ := by
  refine Ensures.of_inv (fun n c => K c.state ∧ c.state.csr.rvalid = false ∧
    (c.prog = xilPrintf format args ∧ 1 ≤ n ∨ c.prog = .done ())) ?_ ?_
    ⟨holds, noData, .inl ⟨rfl, Nat.le_refl 1⟩⟩
  · intro n c i inv
    obtain ⟨s, prog⟩ := c
    obtain ⟨holds, noData, waits⟩ := inv
    cases waits with
    | inl prints =>
      obtain ⟨rfl, left⟩ := prints
      rw [driven_xilPrintf]
      refine ⟨kept s i _ trivial holds, rvalid_step noData (by simp), ?_⟩
      cases tx : i.tx with
      | true => exact .inr rfl
      | false => exact .inl ⟨rfl, by simpa [device, tx] using left⟩
    | inr returned =>
      obtain rfl := returned
      exact ⟨kept s i none trivial holds, rvalid_step noData (by simp), .inr rfl⟩
  · intro n c inv
    obtain ⟨s, prog⟩ := c
    obtain ⟨holds, noData, ⟨rfl, left⟩ | rfl⟩ := inv
    · exact left
    · exact ⟨holds, noData⟩

end Reading

/-! ## Writes -/

/-- A family that a cycle keeps, and a commit that is `allowed` moves as it moves the registers. -/
structure Family (memWords : Nat) (allowed : Csr.Regs → Word → Word → Prop)
    (J : Csr.Regs → CsrCore k addrWidth → Prop) : Prop where
  holds : ∀ r s i op, Csr.commits s.csr = false → J r s → J r (step memWords s i op)
  writes : ∀ r s i op addr data, Csr.commits s.csr = true → s.csr.awaddr = addr → s.csr.wdata = data →
    s.csr.wstrb = 15 → allowed r addr data → J r s → J (r.write (addr, data, 15)) (step memWords s i op)
  noReset : ∀ r s, J r s → s.csr.ctrl.getLsbD 1 = false

section Writing

variable {allowed : Csr.Regs → Word → Word → Prop} {J : Csr.Regs → CsrCore k addrWidth → Prop}
  {r : Csr.Regs}

/-- What a write leaves: an error clear goes out after an IRQ_CLEAR only. -/
structure Written (J : Csr.Regs → CsrCore k addrWidth → Prop) (r : Csr.Regs) (addr : Word)
    (s : CsrCore k addrWidth) : Prop where
  holds : J r s
  unwritten : Unwritten s.csr
  noData : s.csr.rvalid = false
  noPulse : addr.setWidth 8 ≠ Csr.regIrqClear → s.csr.ringMgrErrorClear = false

theorem Unwritten.noPulse (unwritten : Unwritten s.csr) (noReset : s.csr.ctrl.getLsbD 1 = false) :
    (CsrCore.step memWords s i op).csr.ringMgrErrorClear = false := by
  rw [csr_step, Csr.next_ringMgrErrorClear, Csr.softResets_of_noReset noReset, unwritten.noClear]
  simp

theorem Written.step (family : Family memWords allowed J) (written : Written J r addr s)
    (reads : Reads op) (noRead : ∀ addr, op ≠ some (.in32 addr)) :
    Written J r addr (CsrCore.step memWords s i op) where
  holds := family.holds r s i op written.unwritten.commits written.holds
  unwritten := written.unwritten.step reads
  noData := rvalid_step written.noData noRead
  noPulse _ := written.unwritten.noPulse (family.noReset r s written.holds)

/-- A write before its commit. -/
structure Asking (J : Csr.Regs → CsrCore k addrWidth → Prop) (r : Csr.Regs) (addr data : Word) (n : Nat)
    (s : CsrCore k addrWidth) : Prop where
  holds : J r s
  serves : (Csr.writePort s.csr).Serves addr data
  noAnswer : s.csr.bvalid = false
  noClear : s.csr.irqClearErrorPending = false
  noData : s.csr.rvalid = false
  left : (if Csr.commits s.csr then 2 else 3) ≤ n

/-- A write between its commit and its response. -/
structure Answered (J : Csr.Regs → CsrCore k addrWidth → Prop) (r : Csr.Regs) (addr data : Word) (n : Nat)
    (s : CsrCore k addrWidth) : Prop where
  holds : J r s
  serves : (Csr.writePort s.csr).Serves addr data
  answer : s.csr.bvalid = true
  noClear : addr.setWidth 8 ≠ Csr.regIrqClear → s.csr.irqClearErrorPending = false
  noPulse : s.csr.ringMgrErrorClear = false
  noData : s.csr.rvalid = false
  left : 1 ≤ n

theorem serves_step (serves : (Csr.writePort s.csr).Serves addr data) :
    (Csr.writePort (step memWords s i (some (.out32 addr data))).csr).Serves addr data := by
  rw [csr_step, Csr.writePort_next]
  exact serves.next rfl rfl rfl

theorem Asking.step (family : Family memWords allowed J) {n : Nat} (asking : Asking J r addr data n s)
    (ok : allowed r addr data) :
    Asking J r addr data (n - ((device k addrWidth memWords).prompt i).toNat)
        (CsrCore.step memWords s i (some (.out32 addr data))) ∨
      Answered J (r.write (addr, data, 15)) addr data (n - ((device k addrWidth memWords).prompt i).toNat)
        (CsrCore.step memWords s i (some (.out32 addr data))) := by
  obtain ⟨holds, serves, noAnswer, noClear, noData, left⟩ := asking
  have prompt : ((device k addrWidth memWords).prompt i).toNat ≤ 1 := Bool.toNat_le _
  have noData' : (CsrCore.step memWords s i (some (.out32 addr data))).csr.rvalid = false :=
    rvalid_step noData (by simp)
  cases commits : Csr.commits s.csr with
  | true =>
    rw [commits, if_pos rfl] at left
    obtain ⟨toAddr, toData, full⟩ := serves.of_commits commits
    right
    exact
      { holds := family.writes r s i _ addr data commits toAddr toData full ok holds
        serves := serves_step serves
        answer := by rw [csr_step, Csr.next_bvalid, commits, Bool.true_or]
        noClear := fun other => by
          have elsewhere : (Csr.wrAddrLsb s.csr == Csr.regIrqClear) = false := by
            rw [Csr.wrAddrLsb, show s.csr.awaddr = addr from toAddr]
            simpa using other
          rw [csr_step, Csr.next_irqClearErrorPending, Csr.irqClearPulseError, Csr.commitsTo, elsewhere,
            noClear]
          simp
        noPulse := by
          rw [csr_step, Csr.next_ringMgrErrorClear, Csr.softResets_of_noReset (family.noReset r s holds),
            noClear]
          simp
        noData := noData'
        left := by omega }
  | false =>
    rw [commits, if_neg Bool.false_ne_true] at left
    left
    refine ⟨family.holds r s i _ commits holds, serves_step serves, ?_, ?_, noData', ?_⟩
    · rw [csr_step, Csr.next_bvalid, commits, noAnswer]
      rfl
    · rw [csr_step, Csr.next_irqClearErrorPending, Csr.irqClearPulseError, Csr.commitsTo, commits, noClear]
      rfl
    · -- a prompt cycle captures both halves
      cases all : (device k addrWidth memWords).prompt i with
      | false =>
        rw [Bool.toNat_false]
        split <;> omega
      | true =>
        have aw : i.aw = true := by simp_all [device]
        have w : i.w = true := by simp_all [device]
        have both : Csr.commits (CsrCore.step memWords s i (some (.out32 addr data))).csr = true := by
          rw [Csr.commits, csr_step, Csr.next_bvalid, Csr.next_awPending, Csr.next_wPending, commits, noAnswer]
          simp [Rtl.Csr.awHs, Rtl.Csr.wHs, Csr.awready, Csr.wready, csrIn, bus, aw, w, noAnswer]
        rw [both, if_pos rfl, Bool.toNat_true]
        omega

theorem Answered.step (family : Family memWords allowed J) {n : Nat} (answered : Answered J r addr data n s) :
    (i.b = true → Written J r addr (CsrCore.step memWords s i (some (.out32 addr data)))) ∧
      (i.b = false → Answered J r addr data n (CsrCore.step memWords s i (some (.out32 addr data)))) := by
  obtain ⟨holds, serves, answer, noClear, noPulse, noData, left⟩ := answered
  have noCommit : Csr.commits s.csr = false := by simp [Csr.commits, answer]
  have holds' := family.holds r s i (some (.out32 addr data)) noCommit holds
  have noData' : (CsrCore.step memWords s i (some (.out32 addr data))).csr.rvalid = false :=
    rvalid_step noData (by simp)
  constructor
  · intro b
    -- the response is taken, and with it the pending error clear goes out
    refine ⟨holds', ⟨?_, ?_⟩, noData', fun other => ?_⟩
    · rw [csr_step, Csr.writePort_next]
      exact serves.clean_next answer b
    · rw [csr_step, Csr.next_irqClearErrorPending, Csr.irqClearPulseError, Csr.commitsTo, noCommit, answer]
      simp [csrIn, bus, b]
    · rw [csr_step, Csr.next_ringMgrErrorClear, Csr.softResets_of_noReset (family.noReset r s holds),
        noClear other]
      simp
  · intro b
    -- the response waits, and the error clear with it
    refine ⟨holds', serves_step serves, ?_, fun other => ?_, ?_, noData', left⟩
    · rw [csr_step, Csr.next_bvalid, noCommit, answer]
      simp [csrIn, bus, b]
    · rw [csr_step, Csr.next_irqClearErrorPending, Csr.irqClearPulseError, Csr.commitsTo, noCommit,
        noClear other]
      rfl
    · rw [csr_step, Csr.next_ringMgrErrorClear, Csr.softResets_of_noReset (family.noReset r s holds)]
      simp [csrIn, bus, b]

theorem driven_out32 (s : CsrCore k addrWidth) (i : Delays) :
    Driven.step (device k addrWidth memWords) ⟨s, out32 addr data⟩ i =
      ⟨step memWords s i (some (.out32 addr data)),
        if s.csr.bvalid && i.b then .done () else out32 addr data⟩ := by
  simp only [Driven.step, device, out32, Program.call]
  cases s.csr.bvalid && i.b <;> rfl

/-- A write takes three cycles: capture, commit and response. -/
theorem ensures_out32 (family : Family memWords allowed J) (ok : allowed r addr data) (holds : J r s)
    (unwritten : Unwritten s.csr) (noData : s.csr.rvalid = false) :
    Ensures (device k addrWidth memWords) (fun _ => Written J (r.write (addr, data, 15)) addr) 3
      ⟨s, out32 addr data⟩ := by
  refine Ensures.of_inv (fun n c =>
    c.prog = out32 addr data ∧ (Asking J r addr data n c.state ∨
        Answered J (r.write (addr, data, 15)) addr data n c.state) ∨
      c.prog = .done () ∧ Written J (r.write (addr, data, 15)) addr c.state) ?_ ?_
    (.inl ⟨rfl, .inl ⟨holds, unwritten.port.serves, unwritten.port.2.2, unwritten.noClear, noData, ?_⟩⟩)
  · intro n c i inv
    obtain ⟨s, prog⟩ := c
    cases inv with
    | inl waits =>
      obtain ⟨rfl, waits⟩ := waits
      rw [driven_out32]
      cases waits with
      | inl asking =>
        have none : s.csr.bvalid = false := asking.noAnswer
        rw [none]
        exact .inl ⟨rfl, asking.step family ok⟩
      | inr answered =>
        have answer : s.csr.bvalid = true := answered.answer
        rw [answer]
        cases b : i.b with
        | true => exact .inr ⟨rfl, (answered.step family).1 b⟩
        | false =>
          have slow : (device k addrWidth memWords).prompt i = false := by simp [device, b]
          rw [slow]
          exact .inl ⟨rfl, .inr ((answered.step family).2 b)⟩
    | inr returned =>
      obtain ⟨rfl, written⟩ := returned
      exact .inr ⟨rfl, written.step family trivial (by simp)⟩
  · intro n c inv
    obtain ⟨s, prog⟩ := c
    rcases inv with ⟨rfl, asking | answered⟩ | ⟨rfl, written⟩
    · have left := asking.left
      change 0 < n
      split at left <;> omega
    · exact answered.left
    · exact written
  · rw [unwritten.commits]
    exact Nat.le_refl 3

end Writing

end CsrCore

end AxiDma.Verified
