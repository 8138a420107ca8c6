import AxiDma.Lib.Run
import AxiDma.Verified.AxiLitePort
import AxiDma.Verified.CsrFields

/-! # Writes and reads of the CSR block over whole runs

`Traffic` logs what passes on the five channels and what commits.  `Accounted` reads the
port and the registers off these logs: the accepted AW and W words are the committed
writes and what is captured, every commit is answered once, and the registers are the
fold of the commits over a register file.  It holds in every run without a RESET write.
-/

namespace AxiDma.Verified

open AxiDma.Lib AxiDma.Rtl

namespace Csr

open AxiDma.Rtl.Csr

/-! ## The register file -/

/-- The bits of the bytes a strobe selects. -/
def strobeMask (wstrb : BitVec 4) : Word :=
  (if wstrb.getLsbD 0 then 0x000000FF else 0) ||| (if wstrb.getLsbD 1 then 0x0000FF00 else 0) |||
    (if wstrb.getLsbD 2 then 0x00FF0000 else 0) ||| (if wstrb.getLsbD 3 then 0xFF000000 else 0)

def merge (old new : Word) (wstrb : BitVec 4) : Word :=
  (old &&& ~~~ strobeMask wstrb) ||| (new &&& strobeMask wstrb)

/-- The registers that writes define. -/
structure Regs where
  baseaddr : Word
  ringlen : Word
  tail : Word
  ctrl : Word
  deriving DecidableEq, Repr

/-- A write: its address, its data and its strobe. -/
abbrev Write := Word × Word × BitVec 4

def Regs.zero : Regs := { baseaddr := 0, ringlen := 0, tail := 0, ctrl := 0 }

/-- CTRL keeps three bits; HEAD, STATUS, IRQ_STATUS, IRQ_CLEAR and unmapped offsets define
    no register. -/
def Regs.write (r : Regs) : Write → Regs
  | (addr, data, wstrb) =>
    let offset : BitVec 8 := addr.setWidth 8
    if offset = regBaseaddr then { r with baseaddr := merge r.baseaddr data wstrb }
    else if offset = regRinglen then { r with ringlen := merge r.ringlen data wstrb }
    else if offset = regTail then { r with tail := merge r.tail data wstrb }
    else if offset = regCtrl then { r with ctrl := merge r.ctrl data wstrb &&& 7 }
    else r

/-- Bit `n` of a word, or 0. -/
def bitWord (set : Bool) (n : Nat) : Word := if set then BitVec.twoPow 32 n else 0

/-- The word of a register as software sees it.  STATUS is BUSY, RING_EMPTY and ERROR, IRQ_STATUS is
    EMPTY and ERROR. -/
def registerWord (s : State) (ring : RingIn) (offset : BitVec 8) : Word :=
  if offset = regBaseaddr then s.baseaddr
  else if offset = regRinglen then s.ringlen
  else if offset = regHead then ring.head
  else if offset = regTail then s.tail
  else if offset = regCtrl then s.ctrl
  else if offset = regStatus then
    bitWord ring.busy 0 ||| bitWord ring.ringEmpty 1 ||| bitWord s.statusError 2
  else if offset = regIrqStatus then bitWord s.irqEmpty 0 ||| bitWord s.irqError 1
  else 0

theorem statusWord_eq (s : State) (ring : RingIn) : statusWord s ring =
    bitWord ring.busy 0 ||| bitWord ring.ringEmpty 1 ||| bitWord s.statusError 2 := by
  rw [statusWord]
  cases ring.busy <;> cases ring.ringEmpty <;> cases s.statusError <;> rfl

theorem irqStatusWord_eq (s : State) :
    irqStatusWord s = bitWord s.irqEmpty 0 ||| bitWord s.irqError 1 := by
  rw [irqStatusWord]
  cases s.irqEmpty <;> cases s.irqError <;> rfl

theorem getLsbD_strobeMask (wstrb : BitVec 4) (j : Nat) (bound : j < 32) :
    (strobeMask wstrb).getLsbD j = wstrb.getLsbD (j / 8) := by
  revert wstrb j
  decide

theorem getLsbD_applyWstrb (old new : Word) (wstrb : BitVec 4) {j : Nat} (bound : j < 32) :
    (applyWstrb old new wstrb).getLsbD j =
      if wstrb.getLsbD (j / 8) then new.getLsbD j else old.getLsbD j := by
  -- bit `j` is bit `m` of byte `n`
  obtain ⟨n, m, byte, bit, rfl⟩ : ∃ n m, n < 4 ∧ m < 8 ∧ j = 8 * n + m :=
    ⟨j / 8, j % 8, by omega, by omega, by omega⟩
  have index : (8 * n + m) / 8 = n := by omega
  simp only [applyWstrb, BitVec.getLsbD_append, index]
  obtain rfl | rfl | rfl | rfl : n = 0 ∨ n = 1 ∨ n = 2 ∨ n = 3 := by omega
  · rw [if_pos (by omega)]
    split <;> simp [bit]
  · rw [if_neg (by omega), if_pos (by omega)]
    split <;> simp [bit]
  · have place : 8 * 2 + m - 8 - 8 = m := by omega
    rw [if_neg (by omega), if_neg (by omega), if_pos (by omega), place]
    split <;> simp [bit]
  · have place : 8 * 3 + m - 8 - 8 - 8 = m := by omega
    rw [if_neg (by omega), if_neg (by omega), if_neg (by omega), place]
    split <;> simp [bit]

/-- The byte loop of `apply_wstrb` is the merge. -/
theorem applyWstrb_eq_merge (old new : Word) (wstrb : BitVec 4) :
    applyWstrb old new wstrb = merge old new wstrb := by
  apply BitVec.eq_of_getLsbD_eq
  intro j bound
  rw [getLsbD_applyWstrb old new wstrb bound, merge]
  simp only [BitVec.getLsbD_or, BitVec.getLsbD_and, BitVec.getLsbD_not, bound, decide_true,
    Bool.true_and, getLsbD_strobeMask wstrb j bound]
  cases wstrb.getLsbD (j / 8) <;> simp

def regs (s : State) : Regs :=
  { baseaddr := s.baseaddr, ringlen := s.ringlen, tail := s.tail, ctrl := s.ctrl }

/-- The registers move by the write that commits, unless a soft reset clears them. -/
theorem regs_next (s : State) (i : In) :
    regs (next s i) =
      if softResets s i then Regs.zero
      else if commits s then (regs s).write (s.awaddr, s.wdata, s.wstrb)
      else regs s := by
  rw [regs, next_baseaddr, next_ringlen, next_tail, next_ctrl]
  cases softResets s i with
  | true => rfl
  | false =>
    cases committing : commits s with
    | false => simp [commitsTo, committing, regs]
    | true =>
      simp only [commitsTo, committing, ctrlWriteData, applyWstrb_eq_merge, Regs.write, regs,
        Bool.true_and, wrAddrLsb, Bool.false_eq_true, if_false, if_true, beq_iff_eq]
      split_ifs <;> simp_all [regBaseaddr, regRinglen, regTail, regCtrl]

theorem merge_full (old new : Word) : merge old new 15 = new :=
  (applyWstrb_eq_merge old new 15).symm.trans (applyWstrb_full old new)

section WriteOf

variable (r : Regs) {addr : Word} (data : Word)

theorem Regs.write_of_baseaddr (here : addr.setWidth 8 = regBaseaddr) :
    r.write (addr, data, 15) = { r with baseaddr := data } := by
  have moves : r.write (addr, data, 15) = { r with baseaddr := merge r.baseaddr data 15 } := by
    simp [Regs.write, here]
  rw [moves, merge_full]

theorem Regs.write_of_ringlen (here : addr.setWidth 8 = regRinglen) :
    r.write (addr, data, 15) = { r with ringlen := data } := by
  have moves : r.write (addr, data, 15) = { r with ringlen := merge r.ringlen data 15 } := by
    simp +decide [Regs.write, here]
  rw [moves, merge_full]

theorem Regs.write_of_tail (here : addr.setWidth 8 = regTail) :
    r.write (addr, data, 15) = { r with tail := data } := by
  have moves : r.write (addr, data, 15) = { r with tail := merge r.tail data 15 } := by
    simp +decide [Regs.write, here]
  rw [moves, merge_full]

theorem Regs.write_of_ctrl (here : addr.setWidth 8 = regCtrl) :
    r.write (addr, data, 15) = { r with ctrl := data &&& 7 } := by
  have moves : r.write (addr, data, 15) = { r with ctrl := merge r.ctrl data 15 &&& 7 } := by
    simp +decide [Regs.write, here]
  rw [moves, merge_full]

theorem Regs.write_of_irqClear (here : addr.setWidth 8 = regIrqClear) :
    r.write (addr, data, 15) = r := by
  simp +decide [Regs.write, here]

end WriteOf

/-- A bit of CTRL that is clear, and not set by the write, stays clear. -/
theorem Regs.write_ctrl_clear {r : Regs} {addr data : Word} {n : Nat}
    (clear : r.ctrl.getLsbD n = false)
    (written : addr.setWidth 8 = regCtrl → data.getLsbD n = false) :
    (r.write (addr, data, 15)).ctrl.getLsbD n = false := by
  by_cases ctrl : addr.setWidth 8 = regCtrl
  · rw [Regs.write_of_ctrl r data ctrl, BitVec.getLsbD_and, written ctrl, Bool.false_and]
  · simp only [Regs.write, if_neg ctrl, apply_ite Regs.ctrl, ite_self]
    exact clear

/-! ## The logs -/

structure Traffic where
  csr : State
  /-- Accepted write addresses. -/
  aws : List Word
  /-- Accepted write data with strobes. -/
  ws : List (Word × BitVec 4)
  commits : List Write
  /-- Responses taken on B. -/
  bs : List (BitVec 2)
  /-- Register words at the AR handshakes. -/
  words : List Word
  /-- Data taken on R. -/
  rs : List Word
  deriving DecidableEq

namespace Traffic

def start : Traffic :=
  { csr := resetState, aws := [], ws := [], commits := [], bs := [], words := [], rs := [] }

def step (t : Traffic) (i : In) : Traffic :=
  { csr := Csr.step t.csr i
    aws := t.aws ++ if Rtl.Csr.awHs t.csr i then [i.bus.awaddr] else []
    ws := t.ws ++ if Rtl.Csr.wHs t.csr i then [(i.bus.wdata, i.bus.wstrb)] else []
    commits := t.commits ++
      if Csr.commits t.csr then [(t.csr.awaddr, t.csr.wdata, t.csr.wstrb)] else []
    bs := t.bs ++ if t.csr.bvalid && i.bus.bready then [t.csr.bresp] else []
    words := t.words ++
      if Rtl.Csr.arHs t.csr i then [registerWord t.csr i.ring (i.bus.araddr.setWidth 8)] else []
    rs := t.rs ++ if t.csr.rvalid && i.bus.rready then [t.csr.rdata] else [] }

/-- No hard reset, and the write that commits, if any, does not set RESET.  The five
    channels and the ring manager are free. -/
def Legal (t : Traffic) (i : In) : Prop :=
  i.rstN = true ∧ (commitsTo t.csr regCtrl && (ctrlWriteData t.csr).getLsbD 1) = false

instance (t : Traffic) (i : In) : Decidable (Legal t i) := inferInstanceAs (Decidable (_ ∧ _))

end Traffic

/-- What the port and the registers have to do with the logs. -/
structure Accounted (t : Traffic) : Prop where
  /-- The `n`-th write address is that of the `n`-th commit, or it is captured. -/
  aws : t.aws = t.commits.map Prod.fst ++ if t.csr.awPending then [t.csr.awaddr] else []
  ws : t.ws = t.commits.map Prod.snd ++ if t.csr.wPending then [(t.csr.wdata, t.csr.wstrb)] else []
  /-- A complete write commits in the cycle it is found complete. -/
  commits : t.csr.awPending = true → t.csr.wPending = true → Csr.commits t.csr = true
  /-- Every commit but one that waits is answered, and nothing commits while it waits. -/
  answers : t.commits.length = t.bs.length + t.csr.bvalid.toNat
  precedes : Csr.commits t.csr = true → t.commits.length = t.bs.length
  okay : ∀ b ∈ t.bs, b = axiRespOkay
  bresp : t.csr.bresp = axiRespOkay
  regs : regs t.csr = t.commits.foldl Regs.write Regs.zero
  /-- The words of the reads are taken in order; the one that waits is on R. -/
  reads : t.words = t.rs ++ if t.csr.rvalid then [t.csr.rdata] else []

namespace Traffic

/-- The invariant: the logs, nothing captured behind a response, and no trace of RESET. -/
structure Inv (t : Traffic) : Prop where
  aws : t.aws = t.commits.map Prod.fst ++ if t.csr.awPending then [t.csr.awaddr] else []
  ws : t.ws = t.commits.map Prod.snd ++ if t.csr.wPending then [(t.csr.wdata, t.csr.wstrb)] else []
  answers : t.commits.length = t.bs.length + t.csr.bvalid.toNat
  okay : ∀ b ∈ t.bs, b = axiRespOkay
  bresp : t.csr.bresp = axiRespOkay
  regs : regs t.csr = t.commits.foldl Regs.write Regs.zero
  reads : t.words = t.rs ++ if t.csr.rvalid then [t.csr.rdata] else []
  clear : (writePort t.csr).Clear
  noReset : t.csr.ctrl.getLsbD 1 = false
  noReadback : t.csr.ctrlReadbackPending = false

theorem inv_start : Inv start := by
  constructor <;>
    simp [start, resetState, Csr.regs, Regs.zero, writePort, WritePort.Clear]

theorem Inv.accounted {t : Traffic} (inv : Inv t) : Accounted t where
  aws := inv.aws
  ws := inv.ws
  commits := by
    intro aw w
    cases b : t.csr.bvalid with
    | true => exact absurd ((inv.clear b).1.symm.trans aw) (by decide)
    | false => simp [Csr.commits, aw, w, b]
  answers := inv.answers
  precedes := by
    intro commits
    rw [inv.answers, bvalid_of_commits commits]
    rfl
  okay := inv.okay
  bresp := inv.bresp
  regs := inv.regs
  reads := inv.reads

/-! ## One cycle -/

variable {t : Traffic} {i : In}

theorem csr_step (legal : Legal t i) : (step t i).csr = next t.csr i := by
  simp [step, Csr.step, legal.1]

theorem Inv.aws_step (inv : Inv t) (legal : Legal t i) :
    (step t i).aws = (step t i).commits.map Prod.fst ++
      if (step t i).csr.awPending then [(step t i).csr.awaddr] else [] := by
  rw [csr_step legal, next_awPending, next_awaddr]
  show t.aws ++ (if Rtl.Csr.awHs t.csr i then [i.bus.awaddr] else []) = List.map Prod.fst (t.commits ++ _) ++ _
  rw [inv.aws, List.map_append]
  cases committing : Csr.commits t.csr with
  | true =>
    -- the captured address leaves, and the place is not free yet
    have captured : t.csr.awPending = true := by
      simp only [Csr.commits, Bool.and_eq_true] at committing
      exact committing.1.2
    simp [Rtl.Csr.awHs, awready, captured]
  | false =>
    cases captured : t.csr.awPending with
    | true => simp [Rtl.Csr.awHs, awready, captured]
    | false => cases hs : Rtl.Csr.awHs t.csr i <;> simp

theorem Inv.ws_step (inv : Inv t) (legal : Legal t i) :
    (step t i).ws = (step t i).commits.map Prod.snd ++
      if (step t i).csr.wPending then [((step t i).csr.wdata, (step t i).csr.wstrb)] else [] := by
  rw [csr_step legal, next_wPending, next_wdata, next_wstrb]
  show t.ws ++ (if Rtl.Csr.wHs t.csr i then [(i.bus.wdata, i.bus.wstrb)] else []) =
    List.map Prod.snd (t.commits ++ _) ++ _
  rw [inv.ws, List.map_append]
  cases committing : Csr.commits t.csr with
  | true =>
    have captured : t.csr.wPending = true := by
      simp only [Csr.commits, Bool.and_eq_true] at committing
      exact committing.2
    simp [Rtl.Csr.wHs, wready, captured]
  | false =>
    cases captured : t.csr.wPending with
    | true => simp [Rtl.Csr.wHs, wready, captured]
    | false => cases hs : Rtl.Csr.wHs t.csr i <;> simp

theorem Inv.answers_step (inv : Inv t) (legal : Legal t i) :
    (step t i).commits.length = (step t i).bs.length + (step t i).csr.bvalid.toNat := by
  rw [csr_step legal, next_bvalid]
  show (t.commits ++ _).length = (t.bs ++ _).length + _
  have answers := inv.answers
  rw [List.length_append, List.length_append, answers]
  cases committing : Csr.commits t.csr with
  | true => simp [bvalid_of_commits committing]
  | false =>
    cases b : t.csr.bvalid with
    | false => simp
    | true => cases ready : i.bus.bready <;> simp

theorem Inv.okay_step (inv : Inv t) : ∀ b ∈ (step t i).bs, b = axiRespOkay := by
  intro b member
  rcases List.mem_append.mp member with old | new
  · exact inv.okay b old
  · split at new
    · rw [List.mem_singleton.mp new, inv.bresp]
    · simp at new

/-- Without a soft reset the registers move by the write that commits. -/
theorem regs_step (noReset : t.csr.ctrl.getLsbD 1 = false) (legal : Legal t i) :
    regs (step t i).csr =
      if Csr.commits t.csr then (regs t.csr).write (t.csr.awaddr, t.csr.wdata, t.csr.wstrb)
      else regs t.csr := by
  rw [csr_step legal, regs_next, softResets_of_noReset noReset]
  rfl

theorem Inv.regs_step (inv : Inv t) (legal : Legal t i) :
    Csr.regs (step t i).csr = (step t i).commits.foldl Regs.write Regs.zero := by
  rw [Traffic.regs_step inv.noReset legal]
  show _ = (t.commits ++ _).foldl Regs.write Regs.zero
  rw [List.foldl_append, ← inv.regs]
  cases Csr.commits t.csr <;> rfl

/-- Without a RESET write the read mux shows the registers. -/
theorem readData_eq_registerWord {s : State} (noReset : s.ctrl.getLsbD 1 = false)
    (noReadback : s.ctrlReadbackPending = false) (ring : RingIn) (offset : BitVec 8) :
    readData s ring offset = registerWord s ring offset := by
  have view : ctrlView s = s.ctrl := by
    rw [ctrlView, noReadback, if_neg Bool.false_ne_true]
    apply BitVec.eq_of_getLsbD_eq
    intro j bound
    by_cases reset : j = 1
    · rw [reset, noReset]
      simp
    · have mask : (~~~2 : Word).getLsbD j = true := by
        revert j
        decide
      rw [BitVec.getLsbD_and, mask, Bool.and_true]
  rw [readData, view, registerWord, statusWord_eq, irqStatusWord_eq]

theorem Inv.reads_step (inv : Inv t) (legal : Legal t i) :
    (step t i).words = (step t i).rs ++
      if (step t i).csr.rvalid then [(step t i).csr.rdata] else [] := by
  rw [csr_step legal, next_rvalid, next_rdata,
    readData_eq_registerWord inv.noReset inv.noReadback]
  show t.words ++ _ = t.rs ++ _ ++ _
  rw [inv.reads]
  cases waiting : t.csr.rvalid with
  | true => cases ready : i.bus.rready <;> simp [Rtl.Csr.arHs, arready, waiting]
  | false => cases hs : Rtl.Csr.arHs t.csr i <;> simp

theorem Inv.noReadback_step (inv : Inv t) (legal : Legal t i) :
    (step t i).csr.ctrlReadbackPending = false := by
  rw [csr_step legal, next_ctrlReadbackPending, legal.2, inv.noReadback]
  simp

theorem Inv.step (inv : Inv t) (legal : Legal t i) : Inv (step t i) where
  aws := inv.aws_step legal
  ws := inv.ws_step legal
  answers := inv.answers_step legal
  okay := inv.okay_step
  bresp := by rw [csr_step legal]; exact next_bresp inv.bresp i
  regs := inv.regs_step legal
  reads := inv.reads_step legal
  clear := by
    rw [csr_step legal, writePort_next]
    exact inv.clear.next
  noReset := by rw [csr_step legal]; exact noReset_next inv.noReset legal.2
  noReadback := inv.noReadback_step legal

end Traffic

/-- A response that is not taken stays as it is. -/
structure Held (t : Traffic) (i : In) : Prop where
  b : t.csr.bvalid = true → i.bus.bready = false → (t.step i).csr.bvalid = true
  r : t.csr.rvalid = true → i.bus.rready = false →
    (t.step i).csr.rvalid = true ∧ (t.step i).csr.rdata = t.csr.rdata

theorem held {t : Traffic} {i : In} (legal : Traffic.Legal t i) : Held t i where
  b := by
    intro answering waits
    rw [Traffic.csr_step legal, next_bvalid, answering, waits]
    simp
  r := by
    intro answering waits
    rw [Traffic.csr_step legal, next_rvalid, next_rdata]
    simp [Rtl.Csr.arHs, arready, answering, waits]

/-- Writes and reads are atomic and happen exactly once.  In every run in which no
    write sets RESET, whatever the master does on the five channels, the port and the
    registers are accounted for by the logs, and responses are held. -/
theorem accounted_of_run {is : List In}
    (runs : LegalRun Traffic.step Traffic.Legal Traffic.start is) :
    let t := run Traffic.step Traffic.start is
    Accounted t ∧ ∀ i, Traffic.Legal t i → Held t i := by
  have inv := runs.invariant (P := Traffic.Inv) (fun _ _ inv legal => inv.step legal)
    Traffic.inv_start
  exact ⟨inv.accounted, fun _ legal => held legal⟩

namespace Traffic

/-- The two lower bytes of TAIL are written, address first; TAIL is read while the data
    arrives and again after the commit, before the response is taken. -/
def overlapped : List In :=
  [{ busIdle with awaddr := 0x0C, awvalid := true },
   { busIdle with wdata := 0x01020304, wstrb := 3, wvalid := true, araddr := 0x0C,
                  arvalid := true },
   { busIdle with rready := true },
   readCycle regTail,
   { busIdle with bready := true, rready := true }].map besideIdleRing

theorem accounted_overlapped :
    Accounted (run step start overlapped) ∧ (run step start overlapped).rs = [0, 0x0304] :=
  ⟨(accounted_of_run (by decide)).1, by decide⟩

end Traffic

end Csr

end AxiDma.Verified
