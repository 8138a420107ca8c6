import AxiDma.Verified.CoreAtRest
import AxiDma.Verified.CsrCore

/-! # A test on the DMA

What the tests of the suite do with the CSR block, on the whole DMA: the writes that configure and
start a ring and the polls of STATUS, under any delays of the bus.  `Sound` is kept by every cycle from the
first write on; `Waits` is what holds once ENABLE is set.
-/

namespace AxiDma.Verified

open AxiDma.Lib AxiDma.Rtl AxiDma.Firmware

/-- What a test owes to the DMA: the first `tail` slots of the ring hold good descriptors. -/
structure Offers (k addrWidth : Nat) (ring : PostedRing) (tail : Word) : Prop where
  deep : 6 ≤ k
  small : addrWidth ≤ 16
  some : 0 < ring.memWords
  pos : tail ≠ 0
  room : tail.toNat < ring.ringlen.toNat
  good : ring.AllGood addrWidth tail.toNat

namespace CsrCore

variable {k addrWidth : Nat} {ring : PostedRing} {bram : BitVec addrWidth → Word}
  {tail ctrl : Word} {s : CsrCore k addrWidth} {r r' : Csr.Regs} {i : Delays} {op : Option Op} {d : Nat}

/-! ## Up to the start -/

def Before (r : Csr.Regs) : Prop := r.tail = 0 ∧ r.ctrl = 0

/-- TAIL is written, behind BASEADDR and RINGLEN. -/
structure Posted (ring : PostedRing) (tail : Word) (r : Csr.Regs) : Prop where
  base : r.baseaddr = ring.baseaddr
  length : r.ringlen = ring.ringlen
  tail : r.tail = tail
  noReset : r.ctrl.getLsbD 1 = false

def Moves (ring : PostedRing) (tail : Word) (r r' : Csr.Regs) : Prop :=
  Before r ∧ (Before r' ∨ Posted ring tail r') ∨ Posted ring tail r ∧ Posted ring tail r'

/-- The writes of the tests. -/
def Allowed (ring : PostedRing) (tail : Word) (r : Csr.Regs) (addr data : Word) : Prop :=
  (addr.setWidth 8 = Csr.regIrqClear → Before r) ∧ Moves ring tail r (r.write (addr, data, 15))

/-- The interrupt is latched, or is raised in this cycle. -/
def Announced (s : CsrCore k addrWidth) : Prop :=
  s.csr.irqEmpty = true ∨ s.core.pipe.core.rm.wasEmpty = false

/-- The core has nothing to do yet, or it works on the ring. -/
structure Sound (ring : PostedRing) (bram : BitVec addrWidth → Word) (tail : Word) (r : Csr.Regs)
    (s : CsrCore k addrWidth) : Prop where
  regs : Csr.regs s.csr = r
  stage : Before r ∧ ClosedCore.Ready ring bram s.core ∨
    Posted ring tail r ∧ ClosedCore.Held ring bram (Csr.toRing s.csr) tail.toNat s.core
  noError : s.csr.statusError = false
  announced : Posted ring tail r →
    RingManager.ringEmpty s.core.pipe.core.rm (Csr.toRing s.csr) = true → Announced s

theorem Before.noReset (before : Before r) : r.ctrl.getLsbD 1 = false := by
  rw [before.2]
  rfl

theorem Sound.noReset (sound : Sound ring bram tail r s) : s.csr.ctrl.getLsbD 1 = false := by
  have ctrl : s.csr.ctrl = r.ctrl := congrArg Csr.Regs.ctrl sound.regs
  rw [ctrl]
  rcases sound.stage with ⟨before, -⟩ | ⟨posted, -⟩
  · exact before.noReset
  · exact posted.noReset

theorem Sound.moves (sound : Sound ring bram tail r s) : Moves ring tail r r := by
  rcases sound.stage with ⟨before, -⟩ | ⟨posted, -⟩
  · exact .inl ⟨before, .inl before⟩
  · exact .inr ⟨posted, posted⟩

/-- The registers are what the ring manager gets. -/
theorem Posted.postsRing {csr : Csr.State} (posted : Posted ring tail r) (regs : Csr.regs csr = r) :
    ClosedCore.PostsRing ring tail.toNat (Csr.toRing csr) where
  base := (congrArg Csr.Regs.baseaddr regs).trans posted.base
  length := (congrArg Csr.Regs.ringlen regs).trans posted.length
  tail := congrArg BitVec.toNat ((congrArg Csr.Regs.tail regs).trans posted.tail)
  noReset := by
    have ctrl : csr.ctrl = r.ctrl := congrArg Csr.Regs.ctrl regs
    change csr.ctrl.getLsbD 1 = false
    rw [ctrl]
    exact posted.noReset

/-- The core of the next cycle, under the registers of this one. -/
theorem Sound.core_step (sound : Sound ring bram tail r s) (offers : Offers k addrWidth ring tail) :
    Before r ∧ ClosedCore.Ready ring bram (s.core.step ring.memWords (Csr.toRing s.csr)) ∨
      Posted ring tail r ∧
        ClosedCore.Held ring bram (Csr.toRing s.csr) tail.toNat
          (s.core.step ring.memWords (Csr.toRing s.csr)) := by
  obtain ⟨deep, small, some, -, -, -⟩ := offers
  rcases sound.stage with ⟨before, ready⟩ | ⟨posted, held⟩
  · have ctrl : s.csr.ctrl = 0 := (congrArg Csr.Regs.ctrl sound.regs).trans before.2
    refine .inl ⟨before, ready.step small some deep ?_ ((congrArg Csr.Regs.tail sound.regs).trans before.1) ?_⟩
    · rw [Csr.toRing, ctrl]
      rfl
    · rw [Csr.toRing, ctrl]
      rfl
  · exact .inr ⟨posted, held.step small some deep⟩

theorem Sound.noDfError (sound : Sound ring bram tail r s) (offers : Offers k addrWidth ring tail)
    (bus : AxiLiteMaster) : (s.csrIn ring.memWords bus).ring.errorSet = false := by
  rcases sound.core_step offers with ⟨-, ready⟩ | ⟨-, held⟩
  · exact ClosedCore.dfError_of_none (ready.runs.none offers.small)
  · exact ClosedCore.dfError_of_none (held.runs.none offers.small)

/-- One cycle, whatever the bus does, with the registers it leads to. -/
theorem Sound.step (sound : Sound ring bram tail r s) (offers : Offers k addrWidth ring tail)
    (regs : Csr.regs (step ring.memWords s i op).csr = r') (moves : Moves ring tail r r')
    (noClear : Before r ∨ Csr.irqClearPulseEmpty s.csr = false) :
    Sound ring bram tail r' (step ring.memWords s i op) where
  regs := regs
  stage := by
    rcases sound.core_step offers with ⟨before, ready⟩ | ⟨posted, held⟩
    · rcases moves with ⟨-, before' | posted'⟩ | ⟨posted, -⟩
      · exact .inl ⟨before', ready⟩
      · exact .inr ⟨posted', ready.held (posted'.postsRing regs) offers.room offers.good⟩
      · exact absurd (posted.tail.symm.trans before.1) offers.pos
    · rcases moves with ⟨before, -⟩ | ⟨-, posted'⟩
      · exact absurd (posted.tail.symm.trans before.1) offers.pos
      · have old := posted.postsRing sound.regs
        have new := posted'.postsRing regs
        exact .inr ⟨posted', held.congr (new.base.trans old.base.symm) (new.length.trans old.length.symm)
          (BitVec.eq_of_toNat_eq (new.tail.trans old.tail.symm)) new.noReset⟩
  noError := by
    rw [csr_step, Csr.next_statusError, Csr.softResets_of_noReset sound.noReset,
      sound.noDfError offers, sound.noError]
    simp
  announced posted' empty := by
    have tail' : (CsrCore.step ring.memWords s i op).csr.tail = tail :=
      (congrArg Csr.Regs.tail regs).trans posted'.tail
    rcases sound.core_step offers with ⟨before, ready⟩ | ⟨posted, -⟩
    · -- TAIL has just been written, and HEAD is still 0
      have same := beq_iff_eq.mp empty
      rw [CsrCore.core_step, ready.head] at same
      exact absurd (same.trans tail').symm offers.pos
    · have toRing : (Csr.toRing s.csr).tail = tail :=
        (congrArg Csr.Regs.tail sound.regs).trans posted.tail
      have reset : (Csr.toRing s.csr).reset = false := sound.noReset
      have was : (CsrCore.step ring.memWords s i op).core.pipe.core.rm.wasEmpty =
          RingManager.ringEmpty s.core.pipe.core.rm (Csr.toRing s.csr) := by
        rw [CsrCore.core_step, ClosedCore.rm_step reset]
      cases now : RingManager.ringEmpty s.core.pipe.core.rm (Csr.toRing s.csr) with
      | false => exact .inr (was.trans now)
      | true =>
        have kept : Csr.irqClearPulseEmpty s.csr = false := by
          rcases noClear with before | kept
          · exact absurd (posted.tail.symm.trans before.1) offers.pos
          · exact kept
        left
        rw [csr_step, Csr.next_irqEmpty, Csr.softResets_of_noReset sound.noReset, kept]
        rcases sound.announced posted now with latched | raised
        · simp [latched]
        · have set : (s.csrIn ring.memWords (bus i op)).ring.irqEmptySet = true := by
            simp [csrIn, RingManager.irqEmptySet, raised, now]
          simp [set]

theorem family_sound (offers : Offers k addrWidth ring tail) :
    Family ring.memWords (Allowed ring tail) (Sound (k := k) ring bram tail) where
  holds r s i op noCommit sound := by
    refine sound.step offers ?_ sound.moves (.inr ?_)
    · rw [csr_step, Csr.regs_next, Csr.softResets_of_noReset sound.noReset, noCommit, sound.regs]
      rfl
    · rw [Csr.irqClearPulseEmpty, Csr.commitsTo, noCommit]
      rfl
  writes r s i op addr data commits toAddr toData full allowed sound := by
    refine sound.step offers ?_ allowed.2 ?_
    · rw [csr_step, Csr.regs_next, Csr.softResets_of_noReset sound.noReset, commits, sound.regs, toAddr,
        toData, full]
      rfl
    · by_cases clears : addr.setWidth 8 = Csr.regIrqClear
      · exact .inl (allowed.1 clears)
      · right
        have elsewhere : (Csr.wrAddrLsb s.csr == Csr.regIrqClear) = false := by
          rw [Csr.wrAddrLsb, toAddr]
          simpa using clears
        rw [Csr.irqClearPulseEmpty, Csr.commitsTo, elsewhere]
        simp
  noReset _ _ sound := sound.noReset

/-! ## After the start -/

/-- The core works on the ring, nothing but reads comes over the bus, and within `d` cycles the
    status is idle. -/
structure Waits (ring : PostedRing) (bram : BitVec addrWidth → Word) (tail ctrl : Word) (d : Nat)
    (s : CsrCore k addrWidth) : Prop where
  sound : Sound ring bram tail (Csr.regs s.csr) s
  posted : Posted ring tail (Csr.regs s.csr)
  started : s.csr.ctrl = ctrl
  unwritten : Unwritten s.csr
  noPulse : s.csr.ringMgrErrorClear = false
  within : ∃ n ≤ d, ClosedCore.Idle ((fun c => c.step ring.memWords (Csr.toRing s.csr))^[n] s.core)
    (Csr.toRing s.csr)

theorem Sound.held (sound : Sound ring bram tail r s) (offers : Offers k addrWidth ring tail)
    (posted : Posted ring tail r) : ClosedCore.Held ring bram (Csr.toRing s.csr) tail.toNat s.core := by
  rcases sound.stage with ⟨before, -⟩ | ⟨-, held⟩
  · exact absurd (posted.tail.symm.trans before.1) offers.pos
  · exact held

theorem Waits.mono {d' : Nat} (waits : Waits ring bram tail ctrl d s) (le : d ≤ d') : Waits ring bram tail ctrl d' s :=
  { waits with
    within := by
      obtain ⟨n, within, idle⟩ := waits.within
      exact ⟨n, Nat.le_trans within le, idle⟩ }

theorem Waits.regs_step (waits : Waits ring bram tail ctrl d s) :
    Csr.regs (step ring.memWords s i op).csr = Csr.regs s.csr := by
  rw [csr_step, Csr.regs_next, Csr.softResets_of_noReset waits.sound.noReset, waits.unwritten.commits]
  rfl

theorem Waits.toRing_step (waits : Waits ring bram tail ctrl d s) :
    Csr.toRing (step ring.memWords s i op).csr = Csr.toRing s.csr := by
  have regs : Csr.regs (step ring.memWords s i op).csr = Csr.regs s.csr := waits.regs_step
  have pulse : (step ring.memWords s i op).csr.ringMgrErrorClear = false :=
    waits.unwritten.noPulse waits.sound.noReset
  have same (csr : Csr.State) : Csr.toRing csr =
      { baseaddr := (Csr.regs csr).baseaddr, ringlen := (Csr.regs csr).ringlen
        tail := (Csr.regs csr).tail, enable := (Csr.regs csr).ctrl.getLsbD 0
        reset := (Csr.regs csr).ctrl.getLsbD 1, irqEn := (Csr.regs csr).ctrl.getLsbD 2
        errorClear := csr.ringMgrErrorClear } := rfl
  rw [same, same s.csr, regs, pulse, waits.noPulse]

theorem Waits.step (waits : Waits ring bram tail ctrl d s) (offers : Offers k addrWidth ring tail)
    (reads : Reads op) : Waits ring bram tail ctrl (d - 1) (step ring.memWords s i op) where
  sound := by
    rw [waits.regs_step]
    exact (family_sound offers).holds _ s i op waits.unwritten.commits waits.sound
  posted := by
    rw [waits.regs_step]
    exact waits.posted
  started := (congrArg Csr.Regs.ctrl waits.regs_step).trans waits.started
  unwritten := waits.unwritten.step reads
  noPulse := waits.unwritten.noPulse waits.sound.noReset
  within := by
    rw [waits.toRing_step]
    obtain ⟨n, within, idle⟩ := waits.within
    cases n with
    | zero =>
      have held := waits.sound.held offers waits.posted
      exact ⟨0, Nat.zero_le _, held.idle_step offers.small offers.some offers.deep idle⟩
    | succ n => exact ⟨n, by omega, idle⟩

/-- The status is idle, and the interrupt is latched. -/
structure Finished (ring : PostedRing) (bram : BitVec addrWidth → Word) (tail ctrl : Word)
    (s : CsrCore k addrWidth) : Prop where
  waits : Waits ring bram tail ctrl 0 s
  irqEmpty : s.csr.irqEmpty = true

theorem Waits.idle (waits : Waits ring bram tail ctrl 0 s) :
    ClosedCore.Idle s.core (Csr.toRing s.csr) := by
  obtain ⟨n, within, idle⟩ := waits.within
  obtain rfl := Nat.le_zero.mp within
  exact idle

theorem irqEmpty_step (unwritten : Unwritten s.csr) (noReset : s.csr.ctrl.getLsbD 1 = false)
    {memWords : Nat} (announced : s.csr.irqEmpty = true ∨
      (s.csrIn memWords (bus i op)).ring.irqEmptySet = true) :
    (CsrCore.step memWords s i op).csr.irqEmpty = true := by
  have kept : Csr.irqClearPulseEmpty s.csr = false := by
    rw [Csr.irqClearPulseEmpty, Csr.commitsTo, unwritten.commits]
    rfl
  rw [csr_step, Csr.next_irqEmpty, Csr.softResets_of_noReset noReset, kept]
  rcases announced with latched | raised
  · simp [latched]
  · simp [raised]

theorem Finished.step (finished : Finished ring bram tail ctrl s) (offers : Offers k addrWidth ring tail)
    (reads : Reads op) : Finished ring bram tail ctrl (step ring.memWords s i op) where
  waits := finished.waits.step offers reads
  irqEmpty := irqEmpty_step finished.waits.unwritten finished.waits.sound.noReset (.inl finished.irqEmpty)

/-- An idle status has announced itself by the next cycle. -/
theorem Waits.finished_step (waits : Waits ring bram tail ctrl d s) (offers : Offers k addrWidth ring tail)
    (reads : Reads op) (idle : ClosedCore.Idle s.core (Csr.toRing s.csr)) :
    Finished ring bram tail ctrl (CsrCore.step ring.memWords s i op) where
  waits := by
    have now : Waits ring bram tail ctrl 0 s := { waits with within := ⟨0, Nat.le_refl 0, idle⟩ }
    exact now.step offers reads
  irqEmpty := by
    apply irqEmpty_step waits.unwritten waits.sound.noReset
    rcases waits.sound.announced waits.posted idle.1 with latched | raised
    · exact .inl latched
    · exact .inr (by simp [csrIn, RingManager.irqEmptySet, raised, idle.1])

/-- With a status that is not idle time has passed. -/
theorem Waits.busy_step (waits : Waits ring bram tail ctrl d s) (offers : Offers k addrWidth ring tail)
    (reads : Reads op) (works : ¬ ClosedCore.Idle s.core (Csr.toRing s.csr)) :
    ∃ d' < d, Waits ring bram tail ctrl d' (CsrCore.step ring.memWords s i op) := by
  have next := waits.step (i := i) offers reads
  obtain ⟨n, within, idle⟩ := waits.within
  cases n with
  | zero => exact absurd idle works
  | succ n => exact ⟨d - 1, by omega, next⟩

/-! ## The loop -/

/-- The bits that a poll looks at. -/
def Shows (v : Word) : Prop := v &&& statusEmpty ≠ 0 ∧ v &&& statusBusy = 0

theorem shows_statusWord {csr : Csr.State} {ring : Csr.RingIn} : Shows (Csr.statusWord csr ring) ↔
    ring.ringEmpty = true ∧ ring.busy = false := by
  have busy := and_bit_eq_zero (Csr.statusWord csr ring) (n := 0) (by decide)
  have empty := and_bit_eq_zero (Csr.statusWord csr ring) (n := 1) (by decide)
  rw [Csr.statusWord_busy] at busy
  rw [Csr.statusWord_ringEmpty] at empty
  exact and_congr ((not_congr empty).trans (by simp)) busy

theorem noError_statusWord {csr : Csr.State} (ring : Csr.RingIn) (noError : csr.statusError = false) :
    Csr.statusWord csr ring &&& statusError = 0 := by
  have error := and_bit_eq_zero (Csr.statusWord csr ring) (n := 2) (by decide)
  rw [Csr.statusWord_error] at error
  exact error.mpr noError

/-- A read of STATUS on the way. -/
structure Polled (ring : PostedRing) (bram : BitVec addrWidth → Word) (tail ctrl : Word) (d : Nat) (v : Word)
    (s : CsrCore k addrWidth) : Prop where
  noError : v &&& statusError = 0
  idle : Shows v → Finished ring bram tail ctrl s
  busy : ¬ Shows v → ∃ d' < d, Waits ring bram tail ctrl d' s

theorem ensures_status (offers : Offers k addrWidth ring tail) (waits : Waits ring bram tail ctrl d s)
    (noData : s.csr.rvalid = false) :
    Ensures (device k addrWidth ring.memWords)
      (fun v s => Waits ring bram tail ctrl d s ∧ Polled ring bram tail ctrl d v s ∧ s.csr.rvalid = false) 2
      ⟨s, csrRead csrRegStatus⟩ := by
  refine ensures_in32 (fun s i op reads waits => (waits.step offers reads).mono (Nat.sub_le d 1))
    (fun s i waits => ?_) (fun v s i op reads waits polled => ?_) waits noData
  · have offset : (csrAccessBase + csrRegStatus).setWidth 8 = Csr.regStatus := by decide
    rw [offset, Csr.readData_status]
    refine ⟨noError_statusWord _ waits.sound.noError, fun shows' => ?_, fun works => ?_⟩
    · exact waits.finished_step offers trivial (shows_statusWord.mp shows')
    · exact waits.busy_step offers trivial fun idle => works (shows_statusWord.mpr idle)
  · refine ⟨polled.noError, fun shows' => (polled.idle shows').step offers reads, fun works => ?_⟩
    obtain ⟨d', less, waits⟩ := polled.busy works
    exact ⟨d', less, (waits.step offers reads).mono (Nat.sub_le d' 1)⟩

/-- What `wait_for_dma_done` says: a timeout needs fewer polls than the DMA may take cycles. -/
def Outcome (ring : PostedRing) (bram : BitVec addrWidth → Word) (tail ctrl : Word) (timeout d : Nat)
    (done : Bool) (s : CsrCore k addrWidth) : Prop :=
  s.csr.rvalid = false ∧ (done = true ∧ Finished ring bram tail ctrl s ∨ done = false ∧ timeout ≤ d)

theorem Outcome.step {timeout : Nat} {done : Bool} (outcome : Outcome ring bram tail ctrl timeout d done s)
    (offers : Offers k addrWidth ring tail) (i : Delays) :
    Outcome ring bram tail ctrl timeout d done (CsrCore.step ring.memWords s i none) := by
  obtain ⟨noData, ⟨rfl, finished⟩ | gone⟩ := outcome
  · exact ⟨rvalid_step noData (by simp), .inl ⟨rfl, finished.step offers trivial⟩⟩
  · exact ⟨rvalid_step noData (by simp), .inr gone⟩

/-- The wait loop, by induction on the polls that are left. -/
theorem ensures_waitForDmaDone (offers : Offers k addrWidth ring tail) (timeout : Nat)
    (waits : Waits ring bram tail ctrl d s) (noData : s.csr.rvalid = false) :
    Ensures (device k addrWidth ring.memWords) (Outcome ring bram tail ctrl timeout d) (2 * d + 3)
      ⟨s, waitForDmaDone timeout⟩ := by
  induction timeout generalizing d s with
  | zero =>
    have printed := ensures_xilPrintf (fun s i op reads (waits : Waits ring bram tail ctrl d s) =>
      (waits.step offers reads).mono (Nat.sub_le d 1)) waits noData
      "  TIMEOUT waiting for DMA done\r\n" []
    refine (printed.bind (n := 0) fun _ s after => ?_).within (by omega)
    exact Ensures.done (fun s i outcome => outcome.step offers i) ⟨after.2, .inr ⟨rfl, Nat.zero_le d⟩⟩
  | succ timeout ih =>
    refine ((ensures_status offers waits noData).bind (n := 2 * d + 1) fun v s after => ?_).within (by omega)
    obtain ⟨-, polled, noData⟩ := after
    rw [if_neg (not_not.mpr polled.noError)]
    by_cases shows' : v &&& statusEmpty ≠ 0 ∧ v &&& statusBusy = 0
    · rw [if_pos shows']
      exact Ensures.done (fun s i outcome => outcome.step offers i) ⟨noData, .inl ⟨rfl, polled.idle shows'⟩⟩
    · rw [if_neg shows']
      obtain ⟨d', less, waits⟩ := polled.busy shows'
      refine (ih waits noData).mono (fun done s outcome => ?_) (by omega)
      exact ⟨outcome.1, outcome.2.imp id fun gone => ⟨gone.1, by omega⟩⟩

/-! ## The writes -/

/-- The CSR block as a reset leaves it, or an earlier probe of BASEADDR and RINGLEN. -/
structure Fresh (csr : Csr.State) : Prop where
  before : Before (Csr.regs csr)
  unwritten : Unwritten csr
  noData : csr.rvalid = false
  noError : csr.statusError = false

theorem Fresh.sound {csr : Csr.State} (fresh : Fresh csr) (core : DmaCore.State k addrWidth)
    {mem : Rtl.SysMem.State} (loaded : mem.ram = ring.ram) (pos : tail ≠ 0) :
    Sound ring core.mt.engines.bram.mem tail (Csr.regs csr) ⟨csr, ClosedCore.start core mem⟩ where
  regs := rfl
  stage := .inl ⟨fresh.before, ClosedCore.ready_start core loaded⟩
  noError := fresh.noError
  announced posted := absurd (posted.tail.symm.trans fresh.before.1) pos

/-- A state between two accesses, in which the registers are `r`. -/
structure Between (ring : PostedRing) (bram : BitVec addrWidth → Word) (tail : Word) (r : Csr.Regs)
    (s : CsrCore k addrWidth) : Prop where
  sound : Sound ring bram tail r s
  unwritten : Unwritten s.csr

theorem Between.step (between : Between ring bram tail r s) (offers : Offers k addrWidth ring tail)
    (reads : Reads op) : Between ring bram tail r (step ring.memWords s i op) :=
  ⟨(family_sound offers).holds r s i op between.unwritten.commits between.sound,
    between.unwritten.step reads⟩

theorem Written.between {addr : Word} (written : Written (Sound ring bram tail) r addr s) :
    Between ring bram tail r s := ⟨written.holds, written.unwritten⟩

theorem ensures_csrWrite (offers : Offers k addrWidth ring tail) {offset data : Word}
    (allowed : Allowed ring tail r (csrAccessBase + offset) data)
    (written : r.write (csrAccessBase + offset, data, 15) = r') (between : Between ring bram tail r s)
    (noData : s.csr.rvalid = false) :
    Ensures (device k addrWidth ring.memWords)
      (fun _ => Written (Sound ring bram tail) r' (csrAccessBase + offset)) 3 ⟨s, csrWrite offset data⟩ :=
  written ▸ ensures_out32 (family_sound offers) allowed between.sound between.unwritten noData

/-- A write that leaves TAIL and CTRL clear. -/
theorem ensures_before (offers : Offers k addrWidth ring tail) {offset data : Word}
    (written : r.write (csrAccessBase + offset, data, 15) = r') (before : Before r) (before' : Before r')
    (between : Between ring bram tail r s) (noData : s.csr.rvalid = false) :
    Ensures (device k addrWidth ring.memWords)
      (fun _ => Written (Sound ring bram tail) r' (csrAccessBase + offset)) 3 ⟨s, csrWrite offset data⟩ :=
  ensures_csrWrite offers ⟨fun _ => before, .inl ⟨before, .inl (written ▸ before')⟩⟩ written between noData

/-- The three writes in front of TAIL. -/
def configured (ring : PostedRing) : Csr.Regs :=
  { baseaddr := ring.baseaddr, ringlen := ring.ringlen, tail := 0, ctrl := 0 }

theorem ensures_configure (offers : Offers k addrWidth ring tail) {β : Type} {post : β → CsrCore k addrWidth → Prop}
    {cycles : Nat} {next : Prog β} (before : Before r) (between : Between ring bram tail r s)
    (noData : s.csr.rvalid = false)
    (continues : ∀ s : CsrCore k addrWidth, Between ring bram tail (configured ring) s → s.csr.rvalid = false →
      Ensures (device k addrWidth ring.memWords) post cycles ⟨s, next⟩) :
    Ensures (device k addrWidth ring.memWords) post (9 + cycles) ⟨s, do
      csrWrite csrRegIrqClear (irqEmptyBit ||| irqErrorBit)
      csrWrite csrRegBaseaddr ring.baseaddr
      csrWrite csrRegRinglen ring.ringlen
      next⟩ := by
  obtain ⟨baseaddr, ringlen, tail', ctrl⟩ := r
  obtain ⟨rfl, rfl⟩ := before
  have clear : Csr.Regs.write ⟨baseaddr, ringlen, 0, 0⟩
      (csrAccessBase + csrRegIrqClear, irqEmptyBit ||| irqErrorBit, 15) = ⟨baseaddr, ringlen, 0, 0⟩ :=
    Csr.Regs.write_of_irqClear _ _ (by decide)
  have base : Csr.Regs.write ⟨baseaddr, ringlen, 0, 0⟩
      (csrAccessBase + csrRegBaseaddr, ring.baseaddr, 15) = ⟨ring.baseaddr, ringlen, 0, 0⟩ :=
    Csr.Regs.write_of_baseaddr _ _ (by decide)
  have length : Csr.Regs.write ⟨ring.baseaddr, ringlen, 0, 0⟩
      (csrAccessBase + csrRegRinglen, ring.ringlen, 15) = configured ring :=
    Csr.Regs.write_of_ringlen _ _ (by decide)
  refine ((ensures_before offers clear ⟨rfl, rfl⟩ ⟨rfl, rfl⟩ between noData).bind
    (n := 6 + cycles) fun _ s w => ?_).within (by omega)
  refine ((ensures_before offers base ⟨rfl, rfl⟩ ⟨rfl, rfl⟩ w.between w.noData).bind
    (n := 3 + cycles) fun _ s w => ?_).within (by omega)
  exact (ensures_before offers length ⟨rfl, rfl⟩ ⟨rfl, rfl⟩ w.between w.noData).bind fun _ s w =>
    continues s w.between w.noData

/-- Once ENABLE is written the DMA works. -/
theorem Written.waits {addr : Word} (written : Written (Sound ring bram tail) r addr s)
    (offers : Offers k addrWidth ring tail) (posted : Posted ring tail r) (enabled : r.ctrl.getLsbD 0 = true)
    (other : addr.setWidth 8 ≠ Csr.regIrqClear) :
    Waits ring bram tail r.ctrl (ClosedCore.drains tail.toNat) s := by
  have regs := written.holds.regs
  have held := written.holds.held offers posted
  have value : s.csr.ctrl = r.ctrl := congrArg Csr.Regs.ctrl regs
  have enabled : (Csr.toRing s.csr).enable = true := by
    rw [Csr.toRing, value]
    exact enabled
  obtain ⟨n, within, idle, -⟩ := held.drains offers.small offers.some offers.deep enabled
  have le : ClosedCore.drains (tail.toNat - s.core.pipe.finished) ≤ ClosedCore.drains tail.toNat := by
    unfold ClosedCore.drains
    omega
  exact
    { sound := regs ▸ written.holds
      posted := regs ▸ posted
      started := value
      unwritten := written.unwritten
      noPulse := written.noPulse other
      within := ⟨n, Nat.le_trans within le, idle⟩ }

/-- TAIL and ENABLE set the DMA to work. -/
theorem ensures_start (offers : Offers k addrWidth ring tail) {β : Type} {post : β → CsrCore k addrWidth → Prop}
    {cycles : Nat} {next : Prog β} (between : Between ring bram tail (configured ring) s)
    (noData : s.csr.rvalid = false)
    (continues : ∀ s : CsrCore k addrWidth,
      Waits ring bram tail (ctrlEnable ||| ctrlIrqEn) (ClosedCore.drains tail.toNat) s →
        s.csr.rvalid = false → Ensures (device k addrWidth ring.memWords) post cycles ⟨s, next⟩) :
    Ensures (device k addrWidth ring.memWords) post (6 + cycles) ⟨s, do
      csrWrite csrRegTail tail
      csrWrite csrRegCtrl (ctrlEnable ||| ctrlIrqEn)
      next⟩ := by
  have post : (configured ring).write (csrAccessBase + csrRegTail, tail, 15) =
      { configured ring with tail := tail } := Csr.Regs.write_of_tail _ _ (by decide)
  have ctrl : Csr.Regs.write { configured ring with tail := tail }
      (csrAccessBase + csrRegCtrl, ctrlEnable ||| ctrlIrqEn, 15) =
        { configured ring with tail := tail, ctrl := ctrlEnable ||| ctrlIrqEn } :=
    Csr.Regs.write_of_ctrl _ _ (by decide)
  have posted : Posted ring tail { configured ring with tail := tail } :=
    ⟨rfl, rfl, rfl, BitVec.getLsbD_zero⟩
  have started : Posted ring tail { configured ring with tail := tail, ctrl := ctrlEnable ||| ctrlIrqEn } :=
    ⟨rfl, rfl, rfl, show (ctrlEnable ||| ctrlIrqEn).getLsbD 1 = false by decide⟩
  refine ((ensures_csrWrite offers ⟨fun other => absurd other (by decide), .inl ⟨⟨rfl, rfl⟩, .inr ?_⟩⟩ post
    between noData).bind (n := 3 + cycles) fun _ s w => ?_).within (by omega)
  · rw [post]
    exact posted
  refine (ensures_csrWrite offers ⟨fun other => absurd other (by decide), .inr ⟨posted, ?_⟩⟩ ctrl
    w.between w.noData).bind fun _ s w => continues s (w.waits offers started (show (ctrlEnable ||| ctrlIrqEn).getLsbD 0 = true by decide) (by decide)) w.noData
  rw [ctrl]
  exact started

theorem Finished.memories (finished : Finished ring bram tail ctrl s) (offers : Offers k addrWidth ring tail) :
    let copied := ClosedCore.copies ring bram tail.toNat
    s.core.mem.ram = copied.ram ∧ s.core.pipe.core.mt.engines.bram.mem = copied.bram ∧
      s.core.pipe.errors = [] ∧ Csr.irq s.csr = ctrl.getLsbD 2 := by
  have held := finished.waits.sound.held offers finished.waits.posted
  have order := held.runs.inOrder offers.small offers.some held.legal
  obtain ⟨-, ram, bram⟩ := order.idle finished.waits.idle
  rw [held.target] at ram bram
  have up : Csr.irq s.csr = ctrl.getLsbD 2 := by
    rw [Csr.irq, Csr.irqEmpty, Csr.irqError, finished.waits.started, finished.irqEmpty]
    cases ctrl.getLsbD 2 <;> rfl
  exact ⟨ram, bram, order.noError, up⟩

end CsrCore

open CsrCore

/-- The core comes from reset, the CSR block is fresh, the memories are loaded, TAIL is neither 0 nor past the
    ring, and the slots below it hold good descriptors: under any delays, configuring, starting and waiting
    returns within the given number of prompt cycles.  It returns true with the memories copied, no error and
    the interrupt up, or false when it was given no more polls than the DMA may take cycles. -/
theorem runRing_ensures {k addrWidth : Nat} {ring : PostedRing} {tail : Word}
    (offers : Offers k addrWidth ring tail) (core : DmaCore.State k addrWidth) {mem : Rtl.SysMem.State}
    (loaded : mem.ram = ring.ram) {csr : Csr.State} (fresh : Fresh csr) (timeout : Nat) :
    let copied := ClosedCore.copies ring core.mt.engines.bram.mem tail.toNat
    Ensures (device k addrWidth ring.memWords)
      (fun done c =>
        done = true ∧ c.core.mem.ram = copied.ram ∧ c.core.pipe.core.mt.engines.bram.mem = copied.bram ∧
            c.core.pipe.errors = [] ∧ Csr.irq c.csr = true ∨
          done = false ∧ timeout ≤ ClosedCore.drains tail.toNat)
      (2 * ClosedCore.drains tail.toNat + 18)
      ⟨⟨csr, ClosedCore.start core mem⟩, runRing ring.baseaddr ring.ringlen tail timeout⟩ := by
  intro copied
  have begun : Between ring core.mt.engines.bram.mem tail (Csr.regs csr) ⟨csr, ClosedCore.start core mem⟩ :=
    ⟨fresh.sound core loaded offers.pos, fresh.unwritten⟩
  have whole := ensures_configure offers fresh.before begun fresh.noData fun s between noData =>
    ensures_start offers between noData fun s waits noData =>
      ensures_waitForDmaDone offers timeout waits noData
  refine whole.mono (fun done c outcome => ?_) (by omega)
  obtain ⟨-, ⟨rfl, finished⟩ | gone⟩ := outcome
  · exact .inl ⟨rfl, finished.memories offers⟩
  · exact .inr gone

theorem fresh_resetState : Fresh Csr.resetState := ⟨⟨rfl, rfl⟩, ⟨⟨rfl, rfl, rfl⟩, rfl⟩, rfl, rfl⟩

theorem offers_thereAndBack : Offers 6 3 ClosedCore.thereAndBack 2 where
  deep := by decide
  small := by decide
  some := by decide
  pos := by decide
  room := by decide
  good := by decide +kernel

theorem runRing_there_and_back : (2 : Word) ≠ 0 ∧
    Ensures (device 6 3 32)
      (fun done c => done = true ∧ c.core.mem.ram 2 = 7 ∨
        done = false ∧ 1000000 ≤ ClosedCore.drains 2) (2 * ClosedCore.drains 2 + 18)
      ⟨⟨Csr.resetState, ClosedCore.start (zeroed 6 3) (ClosedCore.handedOver ClosedCore.thereAndBack)⟩,
        runRing 64 4 2 1000000⟩ := by
  refine ⟨by decide, (runRing_ensures offers_thereAndBack (zeroed 6 3)
    (rfl : (ClosedCore.handedOver ClosedCore.thereAndBack).ram = _) fresh_resetState 1000000).mono
      (fun done c outcome => ?_) (Nat.le_refl _)⟩
  exact outcome.imp (fun ends => ⟨ends.1, (congrFun ends.2.1 2).trans (by decide +kernel)⟩) id

/-! ## `test_status_and_irq` -/

namespace CsrCore

variable {k addrWidth : Nat} {ring : PostedRing} {bram : BitVec addrWidth → Word}
  {tail ctrl : Word} {s : CsrCore k addrWidth}

/-- A read after the last descriptor. -/
theorem ensures_final (offers : Offers k addrWidth ring tail) {offset : Word} {V : Word → Prop}
    (value : ∀ (s : CsrCore k addrWidth) bus, Finished ring bram tail ctrl s →
      V (Csr.readData s.csr (s.csrIn ring.memWords bus).ring ((csrAccessBase + offset).setWidth 8)))
    (finished : Finished ring bram tail ctrl s) (noData : s.csr.rvalid = false) :
    Ensures (device k addrWidth ring.memWords)
      (fun v s => Finished ring bram tail ctrl s ∧ V v ∧ s.csr.rvalid = false) 2 ⟨s, csrRead offset⟩ :=
  ensures_in32 (fun _ _ _ reads finished => finished.step offers reads) (fun s _ finished => value s _ finished)
    (fun _ _ _ _ _ _ known => known) finished noData

theorem Finished.head (finished : Finished ring bram tail ctrl s) : s.core.pipe.core.rm.head = tail :=
  (beq_iff_eq.mp finished.waits.idle.1).trans finished.waits.posted.tail

theorem ensures_finalStatus (offers : Offers k addrWidth ring tail) (finished : Finished ring bram tail ctrl s)
    (noData : s.csr.rvalid = false) :
    Ensures (device k addrWidth ring.memWords)
      (fun pass s => (Finished ring bram tail ctrl s ∧ s.csr.rvalid = false) ∧ pass = true) 11
      ⟨s, finalStatus⟩ := by
  have status (s : CsrCore k addrWidth) (bus : AxiLiteMaster) (finished : Finished ring bram tail ctrl s) :
      Shows (Csr.readData s.csr (s.csrIn ring.memWords bus).ring ((csrAccessBase + csrRegStatus).setWidth 8)) ∧
        Csr.readData s.csr (s.csrIn ring.memWords bus).ring ((csrAccessBase + csrRegStatus).setWidth 8) &&&
          statusError = 0 := by
    have offset : (csrAccessBase + csrRegStatus).setWidth 8 = Csr.regStatus := by decide
    rw [offset, Csr.readData_status]
    exact ⟨shows_statusWord.mpr finished.waits.idle, noError_statusWord _ finished.waits.sound.noError⟩
  have irqStatus (s : CsrCore k addrWidth) (bus : AxiLiteMaster) (finished : Finished ring bram tail ctrl s) :
      Csr.readData s.csr (s.csrIn ring.memWords bus).ring ((csrAccessBase + csrRegIrqStatus).setWidth 8) &&&
        irqEmptyBit ≠ 0 := by
    have read : Csr.readData s.csr (s.csrIn ring.memWords bus).ring
        ((csrAccessBase + csrRegIrqStatus).setWidth 8) = Csr.irqStatusWord s.csr := rfl
    have bit : (Csr.irqStatusWord s.csr).getLsbD 0 = true := by
      rw [Csr.irqStatusWord, finished.irqEmpty]
      cases s.csr.irqError <;> rfl
    rw [read, show irqEmptyBit = BitVec.twoPow 32 0 from rfl, ne_eq, and_bit_eq_zero _ (by decide), bit]
    decide
  have head (s : CsrCore k addrWidth) (bus : AxiLiteMaster) (finished : Finished ring bram tail ctrl s) :
      Csr.readData s.csr (s.csrIn ring.memWords bus).ring ((csrAccessBase + csrRegHead).setWidth 8) = tail :=
    finished.head
  have tail' (s : CsrCore k addrWidth) (bus : AxiLiteMaster) (finished : Finished ring bram tail ctrl s) :
      Csr.readData s.csr (s.csrIn ring.memWords bus).ring ((csrAccessBase + csrRegTail).setWidth 8) = tail :=
    finished.waits.posted.tail
  have printed {s : CsrCore k addrWidth} (finished : Finished ring bram tail ctrl s) (noData : s.csr.rvalid = false)
      (format : String) (args : List Word) := ensures_xilPrintf
    (fun s i op reads (finished : Finished ring bram tail ctrl s) => finished.step offers reads)
    finished noData format args
  refine (ensures_final offers (V := fun v => Shows v ∧ v &&& statusError = 0) status finished noData).bind (n := 9) fun v s after => ?_
  obtain ⟨finished, ⟨shows', noError⟩, noData⟩ := after
  refine (ensures_final offers (V := fun v => v &&& irqEmptyBit ≠ 0) irqStatus finished noData).bind (n := 7) fun irq s after => ?_
  obtain ⟨finished, up, noData⟩ := after
  refine (ensures_final offers (V := (· = tail)) head finished noData).bind (n := 5) fun _ s after => ?_
  obtain ⟨finished, headEq, noData⟩ := after
  refine (ensures_final offers (V := (· = tail)) tail' finished noData).bind (n := 3) fun _ s after => ?_
  obtain ⟨finished, tailEq, noData⟩ := after
  refine (printed finished noData _ _).bind (n := 2) fun _ s after => ?_
  refine (printed after.1 after.2 _ _).bind (n := 1) fun _ s after => ?_
  -- all four checks pass
  have passes : (v &&& statusEmpty != 0) = true ∧ (v &&& statusError == 0) = true ∧
      (irq &&& irqEmptyBit != 0) = true := ⟨bne_iff_ne.mpr shows'.1, beq_iff_eq.mpr noError, bne_iff_ne.mpr up⟩
  simp only [check, passes, headEq, tailEq, beq_self_eq_true, if_true, Program.pure_eq, Program.done_bind, Bool.and_self]
  refine (printed after.1 after.2 _ _).bind (n := 0) fun _ s after => ?_
  exact Ensures.done (fun s i held => ⟨⟨held.1.1.step offers trivial, rvalid_step held.1.2 (by simp)⟩, held.2⟩)
    ⟨after, rfl⟩

/-- A read of STATUS before TAIL is written. -/
theorem ensures_statusBefore (offers : Offers k addrWidth ring tail) {r : Csr.Regs} (before : Before r)
    (between : Between ring bram tail r s) (noData : s.csr.rvalid = false) :
    Ensures (device k addrWidth ring.memWords)
      (fun v s => Between ring bram tail r s ∧ v &&& statusEmpty ≠ 0 ∧ s.csr.rvalid = false) 2
      ⟨s, csrRead csrRegStatus⟩ := by
  refine ensures_in32 (V := fun v _ => v &&& statusEmpty ≠ 0)
    (fun _ _ _ reads between => between.step offers reads) (fun s i between => ?_)
    (fun _ _ _ _ _ _ known => known) between noData
  have offset : (csrAccessBase + csrRegStatus).setWidth 8 = Csr.regStatus := by decide
  have empty : RingManager.ringEmpty s.core.pipe.core.rm (Csr.toRing s.csr) = true := by
    rcases between.sound.stage with ⟨-, ready⟩ | ⟨posted, -⟩
    · have tail' : s.csr.tail = 0 := (congrArg Csr.Regs.tail between.sound.regs).trans before.1
      rw [RingManager.ringEmpty, ready.head, Csr.toRing, tail']
      rfl
    · exact absurd (posted.tail.symm.trans before.1) offers.pos
  have bit := Csr.statusWord_ringEmpty s.csr
    (s.csrIn ring.memWords (bus i (some (.in32 (csrAccessBase + csrRegStatus))))).ring
  rw [offset, Csr.readData_status, show statusEmpty = BitVec.twoPow 32 1 from rfl, ne_eq,
    and_bit_eq_zero _ (by decide), bit]
  simp [csrIn, empty]

/-- From the configuration on, with polls enough for the DMA. -/
theorem ensures_statusAndIrq (offers : Offers k addrWidth ring tail) {r : Csr.Regs} {timeout : Nat}
    (enough : ClosedCore.drains tail.toNat < timeout) (before : Before r) (between : Between ring bram tail r s)
    (noData : s.csr.rvalid = false) :
    Ensures (device k addrWidth ring.memWords)
      (fun pass s => (Finished ring bram tail (ctrlEnable ||| ctrlIrqEn) s ∧ s.csr.rvalid = false) ∧ pass = true)
      (2 * ClosedCore.drains tail.toNat + 35)
      ⟨s, statusAndIrq ring.baseaddr ring.ringlen tail timeout⟩ := by
  refine (ensures_configure offers before between noData fun s between noData => ?_).within
    (Nat.le_of_eq (show 9 + (2 * ClosedCore.drains tail.toNat + 26) = _ by omega))
  refine ((ensures_statusBefore offers ⟨rfl, rfl⟩ between noData).bind
    (n := 2 * ClosedCore.drains tail.toNat + 24) fun v s after => ?_).within (by omega)
  obtain ⟨between, empty, noData⟩ := after
  refine ((ensures_xilPrintf (fun _ _ _ reads between => between.step offers reads) between noData _ _).bind
    (n := 2 * ClosedCore.drains tail.toNat + 23) fun _ s after => ?_).within (by omega)
  rw [if_neg empty]
  refine (ensures_start offers after.1 after.2 fun s waits noData => ?_).within
    (Nat.le_of_eq (show 6 + (2 * ClosedCore.drains tail.toNat + 17) = _ by omega))
  refine ((ensures_status offers waits noData).bind
    (n := 2 * ClosedCore.drains tail.toNat + 15) fun v s after => ?_).within (by omega)
  refine ((ensures_xilPrintf (fun s i op reads (waits : Waits ring _ tail _ _ s) =>
    (waits.step offers reads).mono (Nat.sub_le _ 1)) after.1 after.2.2 _ _).bind
    (n := 2 * ClosedCore.drains tail.toNat + 14) fun _ s after => ?_).within (by omega)
  refine (ensures_waitForDmaDone offers timeout after.1 after.2).bind (n := 11) fun done s outcome => ?_
  obtain ⟨noData, ⟨rfl, finished⟩ | gone⟩ := outcome
  · exact ensures_finalStatus offers finished noData
  · exact absurd gone.2 (Nat.not_le.mpr enough)

end CsrCore

end AxiDma.Verified
