import AxiDma.Lib.Run
import AxiDma.Verified.CsrFields

/-! # Reads of CTRL

A RESET write arms a shadow of CTRL that the next read takes away, whatever is written in
between.  `History` keeps the CTRL writes and the reads since the last hard reset; a CTRL
read is stale if it finds a RESET write that no read has followed and that is not the last
CTRL write any more.  The runs without such reads are exactly those in which every CTRL
read is current.
-/

namespace AxiDma.Verified

open AxiDma.Lib AxiDma.Rtl

namespace Csr

open AxiDma.Rtl.Csr

/-! ## Histories -/

inductive Event where
  /-- A CTRL write that commits, with its merged data. -/
  | ctrlWrite (data : Word)
  /-- An AR handshake, of any address. -/
  | read
  deriving DecidableEq, Repr

/-- Newest first. -/
abbrev History := List Event

/-- `{reg_ctrl[2], 0, reg_ctrl[0]}`. -/
def maskedCtrl (data : Word) : Word := data &&& 5

def lastWrite : History → Option Word
  | [] => none
  | .ctrlWrite data :: _ => some data
  | .read :: older => lastWrite older

/-- The last RESET write, unless a read has followed it. -/
def unread : History → Option Word
  | [] => none
  | .ctrlWrite data :: older => if data.getLsbD 1 then some data else unread older
  | .read :: _ => none

/-- What a CTRL read may return: the register, or the last CTRL write if it is a RESET. -/
def Allowed (h : History) (ctrl value : Word) : Prop :=
  value = maskedCtrl ctrl ∨
    ∃ data, lastWrite h = some data ∧ data.getLsbD 1 = true ∧ value = maskedCtrl data

/-- A RESET write waits for a read although another CTRL write has followed it. -/
def Stale (h : History) (ctrl : Word) : Prop :=
  ∃ data, unread h = some data ∧ (∀ last, lastWrite h = some last → last.getLsbD 1 = false) ∧
    maskedCtrl data ≠ maskedCtrl ctrl

/-- What the shadow shows is allowed unless it is stale. -/
theorem allowed_iff {h : History} {data ctrl : Word} (waits : unread h = some data) :
    Allowed h ctrl (maskedCtrl data) ↔ ¬ Stale h ctrl := by
  -- a RESET write that is still the last one is the one that waits
  have same : ∀ last, lastWrite h = some last → last.getLsbD 1 = true → last = data := by
    intro last known reset
    cases h with
    | nil => cases waits
    | cons event older =>
      cases event with
      | read => cases waits
      | ctrlWrite written =>
        obtain rfl : written = last := Option.some.inj known
        rw [unread, if_pos reset] at waits
        exact Option.some.inj waits
  constructor
  · rintro (current | ⟨last, known, reset, -⟩) ⟨stale, waits', older, differs⟩
    · obtain rfl := Option.some.inj (waits.symm.trans waits')
      exact differs current
    · exact Bool.false_ne_true ((older last known).symm.trans reset)
  · intro fresh
    by_cases current : maskedCtrl data = maskedCtrl ctrl
    · exact .inl current
    · by_cases resets : ∃ last, lastWrite h = some last ∧ last.getLsbD 1 = true
      · obtain ⟨last, known, reset⟩ := resets
        exact .inr ⟨last, known, reset, by rw [same last known reset]⟩
      · refine absurd ⟨data, waits, ?_, current⟩ fresh
        intro last known
        cases reset : last.getLsbD 1 with
        | false => rfl
        | true => exact absurd ⟨last, known, reset⟩ resets

/-! ## The block with its history -/

structure Recorded where
  csr : State
  history : History
  /-- History and CTRL in the AR handshake of the last read, if that was of CTRL. -/
  asked : Option (History × Word)
  deriving DecidableEq

namespace Recorded

def start : Recorded := { csr := resetState, history := [], asked := none }

/-- What happens in a cycle; a commit comes before an AR handshake. -/
def newEvents (r : Recorded) (i : In) : History :=
  (if Rtl.Csr.arHs r.csr i then [.read] else []) ++
    if commitsTo r.csr regCtrl then [.ctrlWrite (ctrlWriteData r.csr)] else []

def asksCtrl (r : Recorded) (i : In) : Bool :=
  Rtl.Csr.arHs r.csr i && i.bus.araddr.setWidth 8 == regCtrl

def step (r : Recorded) (i : In) : Recorded :=
  if i.rstN then
    { csr := Csr.step r.csr i
      history := r.newEvents i ++ r.history
      asked :=
        if r.asksCtrl i then some (r.history, r.csr.ctrl)
        else if Rtl.Csr.arHs r.csr i then none else r.asked }
  else { csr := Csr.step r.csr i, history := [], asked := none }

/-- No read of CTRL is accepted while the shadow is stale.  Hard resets and everything on
    the five channels are free. -/
def Legal (r : Recorded) (i : In) : Prop :=
  i.rstN = true → r.asksCtrl i = true → ¬ Stale r.history r.csr.ctrl

/-- The CTRL read on the R channel is current. -/
def Correct (r : Recorded) : Prop :=
  r.csr.rvalid = true → ∀ h ctrl, r.asked = some (h, ctrl) → Allowed h ctrl r.csr.rdata

/-- The shadow is the RESET write that no read has followed. -/
structure Inv (r : Recorded) : Prop where
  low : r.csr.ctrl &&& 7 = r.csr.ctrl
  shadow : r.csr.ctrlReadbackPending = (unread r.history).isSome
  data : ∀ data, unread r.history = some data → r.csr.ctrlReadbackData = maskedCtrl data

variable {r : Recorded} {i : In}

theorem unread_new (r : Recorded) (i : In) :
    unread (r.newEvents i ++ r.history) =
      if Rtl.Csr.arHs r.csr i then none
      else if commitsTo r.csr regCtrl && (ctrlWriteData r.csr).getLsbD 1 then
        some (ctrlWriteData r.csr)
      else unread r.history := by
  unfold newEvents
  cases Rtl.Csr.arHs r.csr i with
  | true => rfl
  | false =>
    cases commitsTo r.csr regCtrl with
    | false => rfl
    | true =>
      change (if _ then _ else _) = _
      rw [Bool.true_and]
      rfl

theorem inv_start : Inv start where
  low := by decide
  shadow := rfl
  data := fun _ waits => by cases waits

theorem Inv.step (inv : Inv r) (i : In) : Inv (step r i) := by
  cases rstN : i.rstN with
  | false =>
    have reset : Recorded.step r i = start := by
      simp [Recorded.step, Csr.step, rstN, start]
    rw [reset]
    exact inv_start
  | true =>
    have csr : (Recorded.step r i).csr = next r.csr i := by
      simp [Recorded.step, Csr.step, rstN]
    have history : (Recorded.step r i).history = r.newEvents i ++ r.history := by
      simp [Recorded.step, rstN]
    constructor
    · rw [csr, next_ctrl]
      split
      · rfl
      · split
        · rw [BitVec.and_assoc]
          rfl
        · exact inv.low
    · rw [csr, history, next_ctrlReadbackPending, unread_new, inv.shadow]
      cases Rtl.Csr.arHs r.csr i with
      | true => rfl
      | false =>
        cases commitsTo r.csr regCtrl && (ctrlWriteData r.csr).getLsbD 1 <;> rfl
    · rw [csr, history, unread_new, next_ctrlReadbackData]
      intro data waits
      cases reads : Rtl.Csr.arHs r.csr i with
      | true =>
        rw [if_pos reads] at waits
        cases waits
      | false =>
        rw [if_neg (by rw [reads]; decide)] at waits
        by_cases resets : (commitsTo r.csr regCtrl && (ctrlWriteData r.csr).getLsbD 1) = true
        · rw [if_pos resets, Option.some.injEq] at waits
          rw [if_pos resets, ← waits]
          rfl
        · rw [if_neg resets] at waits
          rw [if_neg resets]
          exact inv.data data waits

/-- The read mux shows the shadow, or the register. -/
theorem Inv.readData_ctrl (inv : Inv r) (ring : RingIn) :
    readData r.csr ring regCtrl = maskedCtrl ((unread r.history).getD r.csr.ctrl) := by
  have mux : readData r.csr ring regCtrl = ctrlView r.csr := by
    simp [readData, regBaseaddr, regRinglen, regHead, regTail, regCtrl]
  rw [mux, ctrlView, inv.shadow]
  cases waits : unread r.history with
  | some data => exact inv.data data waits
  | none =>
    have bits : (7 : Word) &&& ~~~2 = 5 := by decide
    change r.csr.ctrl &&& ~~~2 = r.csr.ctrl &&& 5
    rw [← inv.low, BitVec.and_assoc, bits, BitVec.and_assoc]
    rfl

/-- One cycle: a CTRL read that is accepted is current exactly if it is not stale. -/
theorem correct_step_iff (inv : Inv r) (correct : Correct r) : Correct (step r i) ↔ Legal r i := by
  cases rstN : i.rstN with
  | false =>
    have quiet : (step r i).csr.rvalid = false := by simp [step, Csr.step, rstN, resetState]
    simp [Correct, Legal, quiet, rstN]
  | true =>
    have csr : (step r i).csr = next r.csr i := by simp [step, Csr.step, rstN]
    have asked : (step r i).asked =
        if r.asksCtrl i then some (r.history, r.csr.ctrl)
        else if Rtl.Csr.arHs r.csr i then none else r.asked := by simp [step, rstN]
    rw [Correct, Legal, csr, asked, next_rvalid, next_rdata]
    cases asks : r.asksCtrl i with
    | true =>
      obtain ⟨reads, ctrl⟩ : Rtl.Csr.arHs r.csr i = true ∧ i.bus.araddr.setWidth 8 = regCtrl := by
        simpa [asksCtrl] using asks
      rw [reads, ctrl, if_pos rfl, if_pos rfl, inv.readData_ctrl, Bool.true_or]
      cases waits : unread r.history with
      | none =>
        have fresh : ¬ Stale r.history r.csr.ctrl := by
          rintro ⟨data, waits', -⟩
          rw [waits] at waits'
          cases waits'
        simp [fresh, rstN, Allowed]
      | some data => simp [rstN, allowed_iff waits]
    | false =>
      cases reads : Rtl.Csr.arHs r.csr i with
      | true => simp
      | false =>
        have held : (r.csr.rvalid && !i.bus.rready) = true → ∀ h ctrl, r.asked = some (h, ctrl) →
            Allowed h ctrl r.csr.rdata := by
          intro waits
          exact correct (Bool.and_eq_true_iff.mp waits).1
        rw [Bool.false_or]
        exact iff_of_true held fun _ asks => absurd asks Bool.false_ne_true

/-- The runs in which every CTRL read is current are those without stale reads. -/
theorem ctrl_reads_current_iff {is : List In} :
    LegalRun step Legal start is ↔ ∀ pre, pre <+: is → Correct (run step start pre) := by
  have always : ∀ pre, Inv (run step start pre) :=
    run_invariant (fun _ i inv => inv.step i) inv_start
  have exact : LegalRun step Legal start is ↔
      ∀ pre, pre <+: is → Inv (run step start pre) ∧ Correct (run step start pre) := by
    refine legalRun_iff_always (P := fun r => Inv r ∧ Correct r) ?_ ?_
    · rintro r i ⟨inv, correct⟩
      rw [← correct_step_iff inv correct]
      exact and_iff_right (inv.step i)
    · exact ⟨inv_start, fun waits => absurd waits Bool.false_ne_true⟩
  rw [exact]
  constructor
  · intro both pre within
    exact (both pre within).2
  · intro correct pre within
    exact ⟨always pre, correct pre within⟩

/-- RESET and ENABLE are written, then 0, and then CTRL is read. -/
def resetThenZero : List In :=
  (writeCycles regCtrl 3 ++ writeCycles regCtrl 0 ++ [readCycle regCtrl]).map besideIdleRing

/-- The read returns ENABLE, which no register holds. -/
theorem ctrl_read_stale :
    let r := run step start resetThenZero
    ¬ Correct r ∧ r.csr.rvalid = true ∧ r.csr.rdata = 1 ∧ r.csr.ctrl = 0 ∧
      lastWrite r.history = some 0 := by
  intro r
  have asked : r.asked = some ([.ctrlWrite 0, .ctrlWrite 3], 0) := by decide
  refine ⟨?_, by decide, by decide, by decide, by decide⟩
  intro correct
  rcases correct (by decide) _ _ asked with current | ⟨data, known, reset, -⟩
  · exact absurd current (by decide)
  · obtain rfl : 0 = data := Option.some.inj known
    exact absurd reset (by decide)

end Recorded

end Csr

end AxiDma.Verified
