import AxiDma.Golden.Irq
import AxiDma.Lib.Run
import AxiDma.Verified.AxiLitePort
import AxiDma.Verified.CsrFields
import AxiDma.Verified.GoldenRing

/-! # The CSR model beside the CSR block

`Twin` runs the CSR block and the Python model side by side: the model executes a write when
the block commits it, and takes over the lines of the ring manager in every cycle.  They differ
in two places: a write to IRQ_STATUS, and the enable of the empty interrupt.
-/

namespace AxiDma.Verified

open AxiDma.Lib AxiDma.Rtl AxiDma.Rtl.Csr
open AxiDma.Golden (CSR)

/-! ## Registers of the model -/

/-- STATUS as the model keeps it. -/
def statusNat (busy empty error : Bool) : Nat := busy.toNat + 2 * empty.toNat + 4 * error.toNat

def irqStatusNat (empty error : Bool) : Nat := empty.toNat + 2 * error.toNat

/-- A bit of a number taken away. -/
def withoutBit (n bit : Nat) : Nat := if n.testBit bit then n - 1 <<< bit else n

section Model

variable {c : CSR} {offset bit : Nat}

theorem read_setBit_self : (c.setBit offset bit).read offset = c.read offset ||| 1 <<< bit :=
  CSR.read_set_self ..

theorem read_setBit_of_ne {other : Nat} (distinct : other ≠ offset) :
    (c.setBit offset bit).read other = c.read other := CSR.read_set_of_ne distinct

theorem read_clearBit_self : (c.clearBit offset bit).read offset = withoutBit (c.read offset) bit := by
  rw [CSR.clearBit, withoutBit]
  split
  · rw [CSR.read_set_self]
  · rfl

theorem read_clearBit_of_ne {other : Nat} (distinct : other ≠ offset) :
    (c.clearBit offset bit).read other = c.read other := by
  rw [CSR.clearBit]
  split
  · rw [CSR.read_set_of_ne distinct]
  · rfl

theorem withoutBit_status (busy empty error : Bool) :
    withoutBit (statusNat busy empty error) 0 = statusNat false empty error ∧
      withoutBit (statusNat busy empty error) 1 = statusNat busy false error ∧
      withoutBit (statusNat busy empty error) 2 = statusNat busy empty false := by
  revert busy empty error
  decide

theorem withBit_status (busy empty error : Bool) :
    statusNat busy empty error ||| 1 <<< 0 = statusNat true empty error ∧
      statusNat busy empty error ||| 1 <<< 1 = statusNat busy true error ∧
      statusNat busy empty error ||| 1 <<< 2 = statusNat busy empty true := by
  revert busy empty error
  decide

theorem withoutBit_irqStatus (empty error : Bool) :
    withoutBit (irqStatusNat empty error) 0 = irqStatusNat false error ∧
      withoutBit (irqStatusNat empty error) 1 = irqStatusNat empty false := by
  revert empty error
  decide

/-! ### Writes -/

theorem dataBit_word (data : Word) (bit : Nat) : CSR.dataBit ↑data.toNat bit = data.getLsbD bit := by
  have power : ((2 : Int) ^ bit) = ((2 ^ bit : Nat) : Int) := by push_cast; rfl
  rw [CSR.dataBit, BitVec.getLsbD, Nat.testBit_eq_decide_div_mod_eq, power, ← Int.natCast_ediv]
  have half : ((data.toNat / 2 ^ bit : Nat) : Int) % 2 = ((data.toNat / 2 ^ bit % 2 : Nat) : Int) := by
    omega
  rw [half]
  rcases Nat.mod_two_eq_zero_or_one (data.toNat / 2 ^ bit) with even | odd
  · rw [even]
    rfl
  · rw [odd]
    rfl

/-- A write leaves the other registers alone, but for those that IRQ_CLEAR clears. -/
theorem read_write_of_ne {data : Int} {other : Nat} (distinct : other ≠ offset)
    (status : other ≠ CSR.regStatus) (irqStatus : other ≠ CSR.regIrqStatus) :
    (c.write offset data).read other = c.read other := by
  have empty (c : CSR) (b : Bool) :
      (if b then c.clearBit CSR.regIrqStatus CSR.irqEmptyBit else c).read other = c.read other := by
    split
    · exact read_clearBit_of_ne irqStatus
    · rfl
  unfold CSR.write
  split
  · rfl
  · split
    · dsimp only
      split
      · rw [read_clearBit_of_ne status, read_clearBit_of_ne irqStatus, empty]
      · exact empty c _
    · split
      · next here => exact CSR.read_set_of_ne (here ▸ distinct)
      · exact CSR.read_set_of_ne distinct

theorem read_write_of_ne_clear {data : Int} {other : Nat} (distinct : other ≠ offset)
    (clear : offset ≠ CSR.regIrqClear) : (c.write offset data).read other = c.read other := by
  unfold CSR.write
  rw [if_neg clear]
  split
  · rfl
  · split
    · next here => exact CSR.read_set_of_ne (here ▸ distinct)
    · exact CSR.read_set_of_ne distinct

theorem write_readOnly {data : Int} (readOnly : offset = CSR.regHead ∨ offset = CSR.regStatus) :
    c.write offset data = c := if_pos readOnly

/-- The registers that hold what was written. -/
theorem read_write_self (data : Word)
    (plain : offset ∈ [CSR.regBaseaddr, CSR.regRinglen, CSR.regTail, CSR.regIrqStatus]) :
    (c.write offset ↑data.toNat).read offset = data.toNat := by
  have stored : c.write offset ↑data.toNat = c.set offset data.toNat := by
    simp only [List.mem_cons, List.not_mem_nil, or_false] at plain
    rcases plain with rfl | rfl | rfl | rfl <;>
      rw [CSR.write, if_neg (by decide), if_neg (by decide), if_neg (by decide),
        Golden.maskInt_natCast data.isLt]
  rw [stored, CSR.read_set_self]

theorem read_write_ctrl (data : Word) :
    (c.write CSR.regCtrl ↑data.toNat).read CSR.regCtrl = (data &&& 7).toNat := by
  have low : data.toNat &&& 7 = data.toNat % 8 := Nat.and_two_pow_sub_one_eq_mod data.toNat 3
  rw [CSR.write, if_neg (by decide), if_neg (by decide), if_pos rfl, CSR.read_set_self,
    BitVec.toNat_and]
  change _ = data.toNat &&& 7
  omega

theorem read_write_irqClear {data : Int} :
    (c.write CSR.regIrqClear data).read CSR.regIrqClear = c.read CSR.regIrqClear := by
  have empty (c : CSR) (b : Bool) :
      (if b then c.clearBit CSR.regIrqStatus CSR.irqEmptyBit else c).read CSR.regIrqClear =
        c.read CSR.regIrqClear := by
    split
    · exact read_clearBit_of_ne (by decide)
    · rfl
  rw [CSR.write, if_neg (by decide), if_pos rfl]
  dsimp only
  split
  · rw [read_clearBit_of_ne (by decide), read_clearBit_of_ne (by decide), empty]
  · exact empty c _

theorem read_write_status {data : Word} {busy empty error : Bool}
    (held : c.read CSR.regStatus = statusNat busy empty error) :
    (c.write CSR.regIrqClear ↑data.toNat).read CSR.regStatus =
      statusNat busy empty (error && !data.getLsbD 1) := by
  have first (b : Bool) :
      (if b then c.clearBit CSR.regIrqStatus CSR.irqEmptyBit else c).read CSR.regStatus =
        statusNat busy empty error := by
    split
    · rw [read_clearBit_of_ne (by decide), held]
    · exact held
  rw [CSR.write, if_neg (by decide), if_pos rfl]
  simp only [dataBit_word]
  cases clears : data.getLsbD CSR.irqErrorBit with
  | true =>
    have bit : data.getLsbD 1 = true := clears
    rw [if_pos rfl, read_clearBit_self, read_clearBit_of_ne (by decide), first, bit, Bool.not_true,
      Bool.and_false]
    exact (withoutBit_status busy empty error).2.2
  | false =>
    have bit : data.getLsbD 1 = false := clears
    rw [if_neg (by decide), first, bit, Bool.not_false, Bool.and_true]

theorem read_write_irqStatus {data : Word} {empty error : Bool}
    (held : c.read CSR.regIrqStatus = irqStatusNat empty error) :
    (c.write CSR.regIrqClear ↑data.toNat).read CSR.regIrqStatus =
      irqStatusNat (empty && !data.getLsbD 0) (error && !data.getLsbD 1) := by
  have first : (if data.getLsbD CSR.irqEmptyBit then c.clearBit CSR.regIrqStatus CSR.irqEmptyBit
      else c).read CSR.regIrqStatus = irqStatusNat (empty && !data.getLsbD 0) error := by
    cases clears : data.getLsbD CSR.irqEmptyBit with
    | true =>
      have bit : data.getLsbD 0 = true := clears
      rw [if_pos rfl, read_clearBit_self, held, bit, Bool.not_true, Bool.and_false]
      exact (withoutBit_irqStatus empty error).1
    | false =>
      have bit : data.getLsbD 0 = false := clears
      rw [if_neg (by decide), held, bit, Bool.not_false, Bool.and_true]
  rw [CSR.write, if_neg (by decide), if_pos rfl]
  simp only [dataBit_word]
  cases clears : data.getLsbD CSR.irqErrorBit with
  | true =>
    have bit : data.getLsbD 1 = true := clears
    rw [if_pos rfl, read_clearBit_of_ne (by decide), read_clearBit_self, first, bit, Bool.not_true,
      Bool.and_false]
    exact (withoutBit_irqStatus _ error).2
  | false =>
    have bit : data.getLsbD 1 = false := clears
    rw [if_neg (by decide), first, bit, Bool.not_false, Bool.and_true]

end Model

/-! ## Both of them -/

structure Twin where
  csr : State
  model : CSR
  ring : RingIn

namespace Twin

/-- The write that the block commits. -/
def written (t : Twin) : CSR :=
  if commits t.csr then t.model.write (wrAddrLsb t.csr).toNat ↑t.csr.wdata.toNat else t.model

/-- The lines of the ring manager. -/
def driven (c : CSR) (ring : RingIn) : CSR :=
  let c := c.hwSetHead ring.head.toNat
  let c := c.hwSetBusy ring.busy
  let c := c.hwSetRingEmpty ring.ringEmpty
  let c := if ring.irqEmptySet then c.hwSetEmptyIrq else c
  if ring.errorSet then c.hwSetError else c

def step (t : Twin) (i : In) : Twin :=
  { csr := Csr.step t.csr i, model := driven t.written i.ring, ring := i.ring }

/-- After a reset, with nothing driven yet. -/
def start : Twin where
  csr := resetState
  model := CSR.init
  ring := { head := 0, busy := false, ringEmpty := false, irqEmptySet := false, errorSet := false }

def mapped : List (BitVec 8) :=
  [regBaseaddr, regRinglen, regHead, regTail, regCtrl, regStatus, regIrqStatus, regIrqClear]

/-- Writes have a full strobe and a mapped offset, and leave RESET clear; there is no hard
    reset. -/
def Env (t : Twin) (i : In) : Prop :=
  i.rstN = true ∧ (commits t.csr = true → t.csr.wstrb = 15 ∧ wrAddrLsb t.csr ∈ mapped ∧
    (wrAddrLsb t.csr = regCtrl → t.csr.wdata.getLsbD 1 = false))

instance (t : Twin) (i : In) : Decidable (Env t i) :=
  inferInstanceAs (Decidable (_ ∧ (_ → _ ∧ _ ∧ (_ → _))))

/-- The model reads as the block does, and raises the same interrupts. -/
structure Agree (t : Twin) : Prop where
  read : ∀ offset ∈ mapped, t.model.read offset.toNat = (readData t.csr t.ring offset).toNat
  irqEmpty : Golden.IRQ.isIrqEmpty t.model = Csr.irqEmpty t.csr
  irqError : Golden.IRQ.isIrqError t.model = Csr.irqError t.csr
  any : Golden.IRQ.anyPending t.model = Csr.irq t.csr

/-- The events of the cycle, at their place in IRQ_STATUS. -/
def eventBits (ring : RingIn) : Nat := irqStatusNat ring.irqEmptySet ring.errorSet

/-- The empty interrupt is pending after the cycle. -/
def pendingAfter (s : State) (i : In) : Bool :=
  i.ring.irqEmptySet || (s.irqEmpty && !irqClearPulseEmpty s)

def ctrlAfter (s : State) : Word := if commitsTo s regCtrl then s.wdata &&& 7 else s.ctrl

/-- A write to IRQ_STATUS writes what is there, and ENABLE is IRQ_EN while the empty interrupt
    is pending. -/
def Same (t : Twin) (i : In) : Prop :=
  (commitsTo t.csr regIrqStatus = true →
    t.csr.wdata.toNat ||| eventBits i.ring = (irqStatusWord t.csr).toNat ||| eventBits i.ring) ∧
  (pendingAfter t.csr i = true →
    (ctrlAfter t.csr).getLsbD 0 = (ctrlAfter t.csr).getLsbD 2)

/-! ### The lines of the ring manager -/

section Driven

variable {c : CSR} {ring : RingIn} {other : Nat}

theorem read_hwSetBusy_of_ne {busy : Bool} (status : other ≠ CSR.regStatus) :
    (c.hwSetBusy busy).read other = c.read other := by
  unfold CSR.hwSetBusy
  split
  · exact read_setBit_of_ne status
  · exact read_clearBit_of_ne status

theorem read_hwSetRingEmpty_of_ne {empty : Bool} (status : other ≠ CSR.regStatus) :
    (c.hwSetRingEmpty empty).read other = c.read other := by
  unfold CSR.hwSetRingEmpty
  split
  · exact read_setBit_of_ne status
  · exact read_clearBit_of_ne status

theorem read_emptyIrq_of_ne {event : Bool} (irqStatus : other ≠ CSR.regIrqStatus) :
    (if event then c.hwSetEmptyIrq else c).read other = c.read other := by
  split
  · exact read_setBit_of_ne irqStatus
  · rfl

theorem read_error_of_ne {event : Bool} (status : other ≠ CSR.regStatus)
    (irqStatus : other ≠ CSR.regIrqStatus) :
    (if event then c.hwSetError else c).read other = c.read other := by
  split
  · exact (read_setBit_of_ne irqStatus).trans (read_setBit_of_ne status)
  · rfl

theorem read_driven_of_ne (head : other ≠ CSR.regHead) (status : other ≠ CSR.regStatus)
    (irqStatus : other ≠ CSR.regIrqStatus) : (driven c ring).read other = c.read other := by
  unfold driven
  dsimp only
  rw [read_error_of_ne status irqStatus, read_emptyIrq_of_ne irqStatus,
    read_hwSetRingEmpty_of_ne status, read_hwSetBusy_of_ne status, CSR.hwSetHead,
    CSR.read_set_of_ne head]

theorem read_driven_head : (driven c ring).read CSR.regHead = ring.head.toNat := by
  unfold driven
  dsimp only
  rw [read_error_of_ne (by decide) (by decide), read_emptyIrq_of_ne (by decide),
    read_hwSetRingEmpty_of_ne (by decide), read_hwSetBusy_of_ne (by decide), CSR.hwSetHead,
    CSR.read_set_self, Golden.and_mask32, Nat.mod_eq_of_lt ring.head.isLt]

theorem read_driven_status {busy empty error : Bool}
    (held : c.read CSR.regStatus = statusNat busy empty error) :
    (driven c ring).read CSR.regStatus = statusNat ring.busy ring.ringEmpty (error || ring.errorSet) := by
  have afterHead : (c.hwSetHead ring.head.toNat).read CSR.regStatus = statusNat busy empty error :=
    (CSR.read_set_of_ne (by decide)).trans held
  have afterBusy (c : CSR) (held : c.read CSR.regStatus = statusNat busy empty error) :
      (c.hwSetBusy ring.busy).read CSR.regStatus = statusNat ring.busy empty error := by
    unfold CSR.hwSetBusy
    cases ring.busy with
    | true =>
      rw [if_pos rfl, read_setBit_self, held]
      exact (withBit_status busy empty error).1
    | false =>
      rw [if_neg (by decide), read_clearBit_self, held]
      exact (withoutBit_status busy empty error).1
  have afterEmpty (c : CSR) (held : c.read CSR.regStatus = statusNat ring.busy empty error) :
      (c.hwSetRingEmpty ring.ringEmpty).read CSR.regStatus =
        statusNat ring.busy ring.ringEmpty error := by
    unfold CSR.hwSetRingEmpty
    cases ring.ringEmpty with
    | true =>
      rw [if_pos rfl, read_setBit_self, held]
      exact (withBit_status ring.busy empty error).2.1
    | false =>
      rw [if_neg (by decide), read_clearBit_self, held]
      exact (withoutBit_status ring.busy empty error).2.1
  unfold driven
  dsimp only
  cases ring.errorSet with
  | true =>
    rw [if_pos rfl, CSR.hwSetError, read_setBit_of_ne (by decide), read_setBit_self,
      read_emptyIrq_of_ne (by decide), afterEmpty _ (afterBusy _ afterHead), Bool.or_true]
    exact (withBit_status ring.busy ring.ringEmpty error).2.2
  | false =>
    rw [if_neg (by decide), read_emptyIrq_of_ne (by decide), afterEmpty _ (afterBusy _ afterHead),
      Bool.or_false]

theorem read_driven_irqStatus :
    (driven c ring).read CSR.regIrqStatus = c.read CSR.regIrqStatus ||| eventBits ring := by
  have before : (((c.hwSetHead ring.head.toNat).hwSetBusy ring.busy).hwSetRingEmpty
      ring.ringEmpty).read CSR.regIrqStatus = c.read CSR.regIrqStatus := by
    rw [read_hwSetRingEmpty_of_ne (by decide), read_hwSetBusy_of_ne (by decide), CSR.hwSetHead,
      CSR.read_set_of_ne (by decide)]
  have afterEmpty (c : CSR) : (if ring.irqEmptySet then c.hwSetEmptyIrq else c).read CSR.regIrqStatus =
      c.read CSR.regIrqStatus ||| ring.irqEmptySet.toNat := by
    cases ring.irqEmptySet with
    | true =>
      rw [if_pos rfl, CSR.hwSetEmptyIrq, read_setBit_self]
      rfl
    | false => rw [if_neg (by decide), Bool.toNat_false, Nat.or_zero]
  have both (empty error : Bool) : irqStatusNat empty error = empty.toNat ||| 2 * error.toNat := by
    revert empty error
    decide
  unfold driven
  dsimp only
  rw [eventBits, both, ← Nat.or_assoc]
  cases ring.errorSet with
  | true =>
    rw [if_pos rfl, CSR.hwSetError, read_setBit_self, read_setBit_of_ne (by decide), afterEmpty, before]
    rfl
  | false =>
    rw [if_neg (by decide), afterEmpty, before, Bool.toNat_false, Nat.mul_zero, Nat.or_zero]

end Driven

/-! ## One cycle -/

/-- RESET is clear, so CTRL reads as it is. -/
structure Inv (t : Twin) : Prop where
  noReset : t.csr.ctrl.getLsbD 1 = false
  noReadback : t.csr.ctrlReadbackPending = false
  low : t.csr.ctrl &&& 7 = t.csr.ctrl

variable {t : Twin} {i : In}

theorem ctrlData_reset (env : Env t i) :
    (commitsTo t.csr regCtrl && (ctrlWriteData t.csr).getLsbD 1) = false := by
  cases here : commitsTo t.csr regCtrl with
  | false => rfl
  | true =>
    obtain ⟨commits, addr⟩ := Bool.and_eq_true_iff.mp here
    obtain ⟨full, -, clear⟩ := env.2 commits
    rw [ctrlWriteData, full, applyWstrb_full, clear (beq_iff_eq.mp addr), Bool.and_false]

theorem Inv.step (inv : Inv t) (env : Env t i) : Inv (t.step i) where
  noReset := by
    rw [Twin.step, Csr.step, env.1]
    exact noReset_next inv.noReset (ctrlData_reset env)
  noReadback := by
    rw [Twin.step, Csr.step, env.1]
    change (next t.csr i).ctrlReadbackPending = false
    rw [next_ctrlReadbackPending, ctrlData_reset env, inv.noReadback, Bool.or_false, Bool.and_false]
  low := by
    rw [Twin.step, Csr.step, env.1]
    change (next t.csr i).ctrl &&& 7 = (next t.csr i).ctrl
    rw [next_ctrl, softResets_of_noReset inv.noReset, if_neg Bool.false_ne_true]
    split
    · rw [BitVec.and_assoc, BitVec.and_self]
    · exact inv.low

/-! ### What the model has written -/

theorem commitsTo_eq {reg : BitVec 8} (commits : Csr.commits t.csr = true) :
    commitsTo t.csr reg = (wrAddrLsb t.csr == reg) := by
  rw [commitsTo, commits, Bool.true_and]

theorem written_of_commits (commits : Csr.commits t.csr = true) :
    t.written = t.model.write (wrAddrLsb t.csr).toNat ↑t.csr.wdata.toNat := if_pos commits

theorem written_of_quiet (quiet : Csr.commits t.csr = false) : t.written = t.model :=
  if_neg (by simp [quiet])

theorem commitsTo_of_quiet {reg : BitVec 8} (quiet : Csr.commits t.csr = false) :
    commitsTo t.csr reg = false := by
  rw [commitsTo, quiet, Bool.false_and]

theorem read_written_plain {reg : BitVec 8}
    (plain : reg.toNat ∈ [CSR.regBaseaddr, CSR.regRinglen, CSR.regTail]) :
    t.written.read reg.toNat =
      if commitsTo t.csr reg then t.csr.wdata.toNat else t.model.read reg.toNat := by
  cases commits : Csr.commits t.csr with
  | false => rw [written_of_quiet commits, commitsTo_of_quiet commits, if_neg Bool.false_ne_true]
  | true =>
    rw [written_of_commits commits, commitsTo_eq commits]
    by_cases here : wrAddrLsb t.csr = reg
    · rw [here, beq_self_eq_true, if_pos rfl]
      refine read_write_self t.csr.wdata ?_
      simp only [List.mem_cons, List.not_mem_nil, or_false] at plain ⊢
      rcases plain with base | ringlen | tail
      · exact .inl base
      · exact .inr (.inl ringlen)
      · exact .inr (.inr (.inl tail))
    · rw [if_neg (by simpa using here)]
      refine read_write_of_ne (fun same => here (BitVec.eq_of_toNat_eq same.symm)) ?_ ?_ <;>
      · intro same
        rw [same] at plain
        exact absurd plain (by decide)

theorem read_written_ctrl :
    t.written.read CSR.regCtrl =
      if commitsTo t.csr regCtrl then (t.csr.wdata &&& 7).toNat else t.model.read CSR.regCtrl := by
  cases commits : Csr.commits t.csr with
  | false => rw [written_of_quiet commits, commitsTo_of_quiet commits, if_neg Bool.false_ne_true]
  | true =>
    rw [written_of_commits commits, commitsTo_eq commits]
    by_cases here : wrAddrLsb t.csr = regCtrl
    · rw [here, beq_self_eq_true, if_pos rfl]
      exact read_write_ctrl t.csr.wdata
    · rw [if_neg (by simpa using here)]
      exact read_write_of_ne (fun same => here (BitVec.eq_of_toNat_eq same.symm)) (by decide) (by decide)

theorem read_written_irqClear : t.written.read CSR.regIrqClear = t.model.read CSR.regIrqClear := by
  cases commits : Csr.commits t.csr with
  | false => rw [written_of_quiet commits]
  | true =>
    rw [written_of_commits commits]
    by_cases here : wrAddrLsb t.csr = regIrqClear
    · rw [here]
      exact read_write_irqClear
    · exact read_write_of_ne (fun same => here (BitVec.eq_of_toNat_eq same.symm)) (by decide) (by decide)

theorem writeDataMasked_eq (env : Env t i) (commits : Csr.commits t.csr = true) :
    writeDataMasked t.csr = t.csr.wdata := by
  rw [writeDataMasked, (env.2 commits).1, applyWstrb_full]

theorem read_written_status {busy empty error : Bool} (env : Env t i)
    (held : t.model.read CSR.regStatus = statusNat busy empty error) :
    t.written.read CSR.regStatus = statusNat busy empty (error && !irqClearPulseError t.csr) := by
  cases commits : Csr.commits t.csr with
  | false =>
    rw [written_of_quiet commits, irqClearPulseError, commitsTo_of_quiet commits, Bool.false_and,
      Bool.not_false, Bool.and_true, held]
  | true =>
    rw [written_of_commits commits, irqClearPulseError, commitsTo_eq commits,
      writeDataMasked_eq env commits]
    by_cases clear : wrAddrLsb t.csr = regIrqClear
    · rw [clear, beq_self_eq_true, Bool.true_and]
      exact read_write_status held
    · rw [beq_eq_false_iff_ne.mpr clear, Bool.false_and, Bool.not_false, Bool.and_true, ← held]
      by_cases here : wrAddrLsb t.csr = regStatus
      · rw [here]
        exact congrArg (CSR.read · CSR.regStatus) (write_readOnly (.inr rfl))
      · exact read_write_of_ne_clear (fun same => here (BitVec.eq_of_toNat_eq same.symm))
          fun same => clear (BitVec.eq_of_toNat_eq same)

/-- The one register where the model stores what the block ignores. -/
theorem read_written_irqStatus {empty error : Bool} (env : Env t i)
    (held : t.model.read CSR.regIrqStatus = irqStatusNat empty error) :
    t.written.read CSR.regIrqStatus =
      if commitsTo t.csr regIrqStatus then t.csr.wdata.toNat
      else irqStatusNat (empty && !irqClearPulseEmpty t.csr) (error && !irqClearPulseError t.csr) := by
  cases commits : Csr.commits t.csr with
  | false =>
    rw [written_of_quiet commits, irqClearPulseEmpty, irqClearPulseError, commitsTo_of_quiet commits,
      commitsTo_of_quiet commits, if_neg Bool.false_ne_true, Bool.false_and, Bool.false_and,
      Bool.not_false, Bool.and_true, Bool.and_true, held]
  | true =>
    rw [written_of_commits commits, irqClearPulseEmpty, irqClearPulseError, commitsTo_eq commits,
      commitsTo_eq commits, writeDataMasked_eq env commits]
    by_cases here : wrAddrLsb t.csr = regIrqStatus
    · rw [here, beq_self_eq_true, if_pos rfl]
      exact read_write_self t.csr.wdata (by decide)
    · rw [if_neg (by simpa using here)]
      by_cases clear : wrAddrLsb t.csr = regIrqClear
      · rw [clear, beq_self_eq_true, Bool.true_and, Bool.true_and]
        exact read_write_irqStatus held
      · rw [beq_eq_false_iff_ne.mpr clear, Bool.false_and, Bool.false_and, Bool.not_false,
          Bool.and_true, Bool.and_true, ← held]
        exact read_write_of_ne_clear (fun same => here (BitVec.eq_of_toNat_eq same.symm))
          fun same => clear (BitVec.eq_of_toNat_eq same)

/-! ### The block -/

theorem toNat_statusWord (s : State) (ring : RingIn) :
    (statusWord s ring).toNat = statusNat ring.busy ring.ringEmpty s.statusError := by
  unfold statusWord
  cases ring.busy <;> cases ring.ringEmpty <;> cases s.statusError <;> rfl

theorem toNat_irqStatusWord (s : State) :
    (irqStatusWord s).toNat = irqStatusNat s.irqEmpty s.irqError := by
  unfold irqStatusWord
  cases s.irqEmpty <;> cases s.irqError <;> rfl

theorem Inv.ctrlView (inv : Inv t) : Csr.ctrlView t.csr = t.csr.ctrl := by
  rw [Csr.ctrlView, inv.noReadback, if_neg Bool.false_ne_true]
  apply BitVec.eq_of_getLsbD_eq
  intro j bound
  have two : ∀ j < 32, (2 : Word).getLsbD j = (j == 1) := by decide
  rw [BitVec.getLsbD_and, BitVec.getLsbD_not, two j bound, decide_eq_true bound, Bool.true_and]
  by_cases reset : j = 1
  · rw [reset, inv.noReset, Bool.false_and]
  · rw [beq_eq_false_iff_ne.mpr reset, Bool.not_false, Bool.and_true]

/-- All registers but IRQ_STATUS keep up with the block. -/
theorem Agree.read_step (inv : Inv t) (agree : Agree t) (env : Env t i) :
    ∀ offset ∈ mapped, offset ≠ regIrqStatus →
      (t.step i).model.read offset.toNat = (readData (t.step i).csr (t.step i).ring offset).toNat := by
  have next_ : (t.step i).csr = next t.csr i := by
    rw [Twin.step, Csr.step, env.1]
    rfl
  have noSoft := softResets_of_noReset (i := i) inv.noReset
  have full (commits : Csr.commits t.csr = true) (old : Word) :
      applyWstrb old t.csr.wdata t.csr.wstrb = t.csr.wdata := by
    rw [(env.2 commits).1, applyWstrb_full]
  have plain {reg : BitVec 8} {value : Word}
      (isPlain : reg.toNat ∈ [CSR.regBaseaddr, CSR.regRinglen, CSR.regTail])
      (held : t.model.read reg.toNat = value.toNat) :
      (t.step i).model.read reg.toNat =
        (if commitsTo t.csr reg then applyWstrb value t.csr.wdata t.csr.wstrb else value).toNat := by
    have distinct (reg' : Nat) (out : reg' ∉ [CSR.regBaseaddr, CSR.regRinglen, CSR.regTail]) :
        reg.toNat ≠ reg' := fun same => out (same ▸ isPlain)
    rw [Twin.step, read_driven_of_ne (distinct _ (by decide)) (distinct _ (by decide))
      (distinct _ (by decide)), read_written_plain isPlain, held]
    split
    · next commits => rw [full (Bool.and_eq_true_iff.mp commits).1]
    · rfl
  intro offset member other
  simp only [mapped, List.mem_cons, List.not_mem_nil, or_false] at member
  rw [next_]
  rcases member with rfl | rfl | rfl | rfl | rfl | rfl | rfl | rfl
  · rw [plain (by decide) (agree.read regBaseaddr (by decide))]
    change _ = (next t.csr i).baseaddr.toNat
    rw [next_baseaddr, noSoft, if_neg Bool.false_ne_true]
    rfl
  · rw [plain (by decide) (agree.read regRinglen (by decide))]
    change _ = (next t.csr i).ringlen.toNat
    rw [next_ringlen, noSoft, if_neg Bool.false_ne_true]
    rfl
  · exact read_driven_head
  · rw [plain (by decide) (agree.read regTail (by decide))]
    change _ = (next t.csr i).tail.toNat
    rw [next_tail, noSoft, if_neg Bool.false_ne_true]
    rfl
  · have held : t.model.read CSR.regCtrl = t.csr.ctrl.toNat := by
      rw [← inv.ctrlView]
      exact agree.read regCtrl (by decide)
    have view := (inv.step env).ctrlView
    rw [next_] at view
    change (driven t.written i.ring).read CSR.regCtrl = (Csr.ctrlView (next t.csr i)).toNat
    rw [view, read_driven_of_ne (by decide) (by decide) (by decide), read_written_ctrl, next_ctrl,
      noSoft, if_neg Bool.false_ne_true, held]
    split
    · next commits => rw [ctrlWriteData, full (Bool.and_eq_true_iff.mp commits).1]
    · rfl
  · have held : t.model.read CSR.regStatus =
        statusNat t.ring.busy t.ring.ringEmpty t.csr.statusError := by
      rw [← toNat_statusWord]
      exact agree.read regStatus (by decide)
    change (driven t.written i.ring).read CSR.regStatus = (statusWord (next t.csr i) i.ring).toNat
    rw [read_driven_status (read_written_status env held), toNat_statusWord, next_statusError, noSoft,
      if_neg Bool.false_ne_true]
    cases i.ring.errorSet <;> cases irqClearPulseError t.csr <;> simp
  · exact absurd rfl other
  · change (driven t.written i.ring).read CSR.regIrqClear = 0
    rw [read_driven_of_ne (by decide) (by decide) (by decide), read_written_irqClear]
    exact agree.read regIrqClear (by decide)

theorem irqEmpty_step (inv : Inv t) (env : Env t i) :
    (t.step i).csr.irqEmpty = pendingAfter t.csr i ∧
      (t.step i).csr.irqError = (i.ring.errorSet || (t.csr.irqError && !irqClearPulseError t.csr)) ∧
      (t.step i).csr.ctrl = ctrlAfter t.csr := by
  have next_ : (t.step i).csr = next t.csr i := by
    rw [Twin.step, Csr.step, env.1]
    rfl
  have noSoft := softResets_of_noReset (i := i) inv.noReset
  rw [next_, next_irqEmpty, next_irqError, next_ctrl, noSoft, pendingAfter, ctrlAfter]
  refine ⟨?_, ?_, ?_⟩
  · cases i.ring.irqEmptySet <;> cases irqClearPulseEmpty t.csr <;> simp
  · cases i.ring.errorSet <;> cases irqClearPulseError t.csr <;> simp
  · rw [if_neg Bool.false_ne_true]
    split
    · next commits =>
      rw [ctrlWriteData, (env.2 (Bool.and_eq_true_iff.mp commits).1).1, applyWstrb_full]
    · rfl

/-- IRQ_STATUS keeps up unless the write changes it. -/
theorem Agree.irqStatus_step (inv : Inv t) (agree : Agree t) (env : Env t i) :
    (t.step i).model.read CSR.regIrqStatus = (irqStatusWord (t.step i).csr).toNat ↔
      (commitsTo t.csr regIrqStatus = true →
        t.csr.wdata.toNat ||| eventBits i.ring =
          (irqStatusWord t.csr).toNat ||| eventBits i.ring) := by
  have held : t.model.read CSR.regIrqStatus = irqStatusNat t.csr.irqEmpty t.csr.irqError := by
    rw [← toNat_irqStatusWord]
    exact agree.read regIrqStatus (by decide)
  have joined : ∀ a b e r : Bool,
      irqStatusNat (e || a) (r || b) = irqStatusNat a b ||| irqStatusNat e r := by decide
  obtain ⟨empty, error, -⟩ := irqEmpty_step inv env
  rw [toNat_irqStatusWord, empty, error, pendingAfter, joined, ← eventBits, toNat_irqStatusWord]
  change (driven t.written i.ring).read CSR.regIrqStatus = _ ↔ _
  rw [read_driven_irqStatus, read_written_irqStatus env held]
  cases here : commitsTo t.csr regIrqStatus with
  | false => simp
  | true =>
    obtain ⟨commits, addr⟩ := Bool.and_eq_true_iff.mp here
    -- such a write is no IRQ_CLEAR
    have noClear : commitsTo t.csr regIrqClear = false := by
      rw [commitsTo_eq commits, beq_iff_eq.mp addr]
      rfl
    rw [if_pos rfl, irqClearPulseEmpty, irqClearPulseError, noClear, Bool.false_and, Bool.false_and,
      Bool.not_false, Bool.and_true, Bool.and_true]
    simp

/-! ### Interrupts -/

theorem and_bit (w : Word) : (w.toNat &&& 1 <<< 0 != 0) = w.getLsbD 0 ∧
    (w.toNat &&& 1 <<< 2 != 0) = w.getLsbD 2 := by
  have bit (k : Nat) : (w.toNat &&& 2 ^ k != 0) = w.getLsbD k := by
    rw [Nat.and_two_pow, BitVec.getLsbD]
    cases w.toNat.testBit k <;> simp
  exact ⟨bit 0, bit 2⟩

theorem irqs_iff (inv : Inv t) (read : ∀ offset ∈ mapped,
    t.model.read offset.toNat = (readData t.csr t.ring offset).toNat) :
    (Golden.IRQ.isIrqEmpty t.model = Csr.irqEmpty t.csr ↔
      (t.csr.irqEmpty = true → t.csr.ctrl.getLsbD 0 = t.csr.ctrl.getLsbD 2)) ∧
    Golden.IRQ.isIrqError t.model = Csr.irqError t.csr := by
  have ctrl : t.model.read CSR.regCtrl = t.csr.ctrl.toNat := by
    rw [← inv.ctrlView]
    exact read regCtrl (by decide)
  have status : t.model.read CSR.regIrqStatus = irqStatusNat t.csr.irqEmpty t.csr.irqError := by
    rw [← toNat_irqStatusWord]
    exact read regIrqStatus (by decide)
  have pending : ∀ e r : Bool, ((irqStatusNat e r >>> CSR.irqEmptyBit) &&& 1 != 0) = e ∧
      ((irqStatusNat e r >>> CSR.irqErrorBit) &&& 1 != 0) = r := by decide
  obtain ⟨enable, irqEn⟩ := and_bit t.csr.ctrl
  have enabled : t.model.isEnabled = t.csr.ctrl.getLsbD 0 := by
    rw [CSR.isEnabled, ctrl]
    exact enable
  have gated : t.model.irqEn = t.csr.ctrl.getLsbD 2 := by
    rw [CSR.irqEn, ctrl]
    exact irqEn
  rw [Golden.IRQ.isIrqEmpty, Golden.IRQ.isIrqError, Csr.irqEmpty, Csr.irqError, status,
    (pending _ _).1, (pending _ _).2, enabled, gated]
  refine ⟨?_, Bool.and_comm _ _⟩
  cases t.csr.irqEmpty <;> simp

/-- One cycle keeps the two together exactly if it is harmless. -/
theorem Agree.step_iff (inv : Inv t) (agree : Agree t) (env : Env t i) :
    Agree (t.step i) ↔ Same t i := by
  have reads := agree.read_step inv env
  have irqStatus := agree.irqStatus_step inv env
  obtain ⟨empty, -, ctrl⟩ := irqEmpty_step inv env
  have all (first : (t.step i).model.read CSR.regIrqStatus = (irqStatusWord (t.step i).csr).toNat) :
      ∀ offset ∈ mapped, (t.step i).model.read offset.toNat =
        (readData (t.step i).csr (t.step i).ring offset).toNat := by
    intro offset member
    by_cases here : offset = regIrqStatus
    · rw [here]
      exact first
    · exact reads offset member here
  constructor
  · intro agree'
    refine ⟨irqStatus.mp (agree'.read regIrqStatus (by decide)), ?_⟩
    have gate := (irqs_iff (inv.step env) agree'.read).1.mp agree'.irqEmpty
    rwa [empty, ctrl] at gate
  · rintro ⟨kept, gate⟩
    have read := all (irqStatus.mpr kept)
    obtain ⟨emptyIff, error⟩ := irqs_iff (inv.step env) read
    rw [empty, ctrl] at emptyIff
    have irqEmpty := emptyIff.mpr gate
    refine ⟨read, irqEmpty, error, ?_⟩
    rw [Golden.IRQ.anyPending, irqEmpty, error]
    rfl

theorem inv_start : Inv start := ⟨rfl, rfl, rfl⟩

theorem agree_start : Agree start where
  read := by decide
  irqEmpty := rfl
  irqError := rfl
  any := rfl

/-- The model and the block agree after every cycle exactly if every cycle is harmless. -/
theorem models_agree_iff {is : List In} (runs : LegalRun step Env start is) :
    LegalRun step Same start is ↔ ∀ pre, pre <+: is → Agree (run step start pre) := by
  have exact : LegalRun step Same start is ↔
      ∀ pre, pre <+: is → Inv (run step start pre) ∧ Agree (run step start pre) := by
    refine LegalRun.iff_always (P := fun t => Inv t ∧ Agree t) ?_ ⟨inv_start, agree_start⟩ runs
    rintro t i ⟨inv, agree⟩ env
    rw [agree.step_iff inv env]
    exact and_iff_right (inv.step env)
  rw [exact]
  constructor
  · intro both pre within
    exact (both pre within).2
  · intro agree pre within
    refine ⟨?_, agree pre within⟩
    obtain ⟨rest, rfl⟩ := within
    exact LegalRun.invariant (fun t i inv env => inv.step env) inv_start (legalRun_append.mp runs).1

/-- A cycle in which the ring runs empty. -/
def emptyCycle : In :=
  { besideIdleRing busIdle with
    ring := { head := 0, busy := false, ringEmpty := true, irqEmptySet := true, errorSet := false } }

/-- CTRL is written, and then the ring runs empty. -/
def ctrlThenEmpty (ctrl : Word) : List In :=
  (writeCycles regCtrl ctrl).map besideIdleRing ++ [emptyCycle]

theorem agree_with_both_enabled : Agree (run step start (ctrlThenEmpty 5)) := by
  have runs : LegalRun step Env start (ctrlThenEmpty 5) := by decide
  refine (models_agree_iff runs).mp ?_ _ (List.prefix_refl _)
  simp only [ctrlThenEmpty, writeCycles, List.map_cons, List.map_nil, List.cons_append,
    List.nil_append, LegalRun, Same]
  decide

/-- IRQ_EN without ENABLE hides the empty interrupt of the model; a write to IRQ_STATUS stays
    in the model. -/
theorem models_disagree :
    (LegalRun step Env start (ctrlThenEmpty 4) ∧
      let t := run step start (ctrlThenEmpty 4)
      Csr.irqEmpty t.csr = true ∧ Golden.IRQ.isIrqEmpty t.model = false) ∧
    (let is := (writeCycles regIrqStatus 2).map besideIdleRing
     LegalRun step Env start is ∧
      let t := run step start is
      readData t.csr t.ring regIrqStatus = 0 ∧ t.model.read regIrqStatus.toNat = 2) := by
  decide

end Twin

end AxiDma.Verified
