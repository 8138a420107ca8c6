import AxiDma.Lib.Run
import AxiDma.Verified.SysMemFsm

/-! # Write responses of the system memory

`sys_mem` raises `bvalid` one cycle after it enters `W_RESP`, and leaves `W_RESP` on any `bready`,
also on one that has met no response yet.  So the response of a burst is held and lowered as AXI
asks exactly if `bready` is high in a cycle with `bvalid` when the FSM has already left, and low
when it has not: `Timely`.
-/

namespace AxiDma.Verified

open AxiDma.Lib AxiDma.Rtl

/-- What a subordinate has not accepted is offered again. -/
structure HeldUntilReady (before : Axi4Master) (o : Axi4Slave) (m : Axi4Master) : Prop where
  aw : before.awvalid = true → o.awready = false →
    m.awvalid = true ∧ m.awaddr = before.awaddr ∧ m.awlen = before.awlen
  w : before.wvalid = true → o.wready = false →
    m.wvalid = true ∧ m.wdata = before.wdata ∧ m.wlast = before.wlast
  ar : before.arvalid = true → o.arready = false →
    m.arvalid = true ∧ m.araddr = before.araddr ∧ m.arlen = before.arlen

instance (before : Axi4Master) (o : Axi4Slave) (m : Axi4Master) :
    Decidable (HeldUntilReady before o m) :=
  decidable_of_iff
    ((before.awvalid = true → o.awready = false →
        m.awvalid = true ∧ m.awaddr = before.awaddr ∧ m.awlen = before.awlen) ∧
      (before.wvalid = true → o.wready = false →
        m.wvalid = true ∧ m.wdata = before.wdata ∧ m.wlast = before.wlast) ∧
      (before.arvalid = true → o.arready = false →
        m.arvalid = true ∧ m.araddr = before.araddr ∧ m.arlen = before.arlen))
    ⟨fun ⟨aw, w, ar⟩ => ⟨aw, w, ar⟩, fun held => ⟨held.aw, held.w, held.ar⟩⟩

/-- The memory with what the write channels have seen. -/
structure Responses where
  mem : SysMem.State
  /-- The signals of the last cycle. -/
  last : Option (Axi4Master × Axi4Slave)
  /-- The address of the last accepted AW, and its beats so far and to come. -/
  awaddr : Word
  beat : Nat
  wLeft : Nat
  /-- Accepted beats with `wlast`. -/
  completed : Nat
  /-- B handshakes. -/
  answered : Nat

namespace Responses

open AxiDma.Verified.SysMem

def start (s : SysMem.State) : Responses :=
  { mem := SysMem.reset s, last := none, awaddr := 0, beat := 0, wLeft := 0, completed := 0,
    answered := 0 }

abbrev In := Axi4Master × SysMem.Init

variable (memWords : Nat)

def step (r : Responses) (i : In) : Responses :=
  let o := SysMem.out memWords r.mem
  let aw := awHs i.1 o
  let w := wHs i.1 o
  { mem := SysMem.step memWords r.mem i.1 i.2
    last := some (i.1, o)
    awaddr := if aw then i.1.awaddr else r.awaddr
    beat := if aw then 0 else if w then r.beat + 1 else r.beat
    wLeft := if aw then i.1.awlen.toNat + 1 else if w then r.wLeft - 1 else r.wLeft
    completed := r.completed + (w && i.1.wlast).toNat
    answered := r.answered + (o.bvalid && i.1.bready).toNat }

/-- A master that holds what it offers and ends a burst on beat `awlen + 1`.  `bready`, the
    read side and the init port are free in every cycle. -/
structure MasterLegal (r : Responses) (i : In) : Prop where
  held : ∀ c ∈ r.last, HeldUntilReady c.1 c.2 i.1
  bursts : wHs i.1 (SysMem.out memWords r.mem) = true → i.1.wlast = decide (r.wLeft = 1)

instance (r : Responses) (i : In) : Decidable (MasterLegal memWords r i) :=
  decidable_of_iff
    ((∀ c ∈ r.last, HeldUntilReady c.1 c.2 i.1) ∧
      (wHs i.1 (SysMem.out memWords r.mem) = true → i.1.wlast = decide (r.wLeft = 1)))
    ⟨fun ⟨held, bursts⟩ => ⟨held, bursts⟩, fun legal => ⟨legal.held, legal.bursts⟩⟩

/-! ## What the memory promises -/

/-- A response stays until `bready` takes it, and is gone in the cycle after. -/
structure Kept (r : Responses) : Prop where
  held : ∀ c ∈ r.last, c.2.bvalid = true → c.1.bready = false → r.mem.bvalid = true
  lowered : ∀ c ∈ r.last, c.2.bvalid = true → c.1.bready = true → r.mem.bvalid = false

/-- The memory after a cycle of the master, without the init port. -/
def Writes (r : Responses) (i : In) : Prop :=
  ∀ word, (step memWords r i).mem.ram word =
    if wHs i.1 (SysMem.out memWords r.mem) = true ∧ word = (r.awaddr >>> 2).toNat + r.beat ∧
      word < memWords then i.1.wdata else r.mem.ram word

structure Answers (r : Responses) : Prop where
  kept : Kept r
  counted : r.answered ≤ r.completed
  writes : ∀ i, MasterLegal memWords r i → i.2.wrEn = false → Writes memWords r i

/-- The response meets a `bready` exactly when the FSM has left `W_RESP`.  The FSM leaves on the `bready`
    of the cycle before, so either the master was ready ahead of the response and still is, or it never
    takes the response. -/
def Timely (r : Responses) (i : In) : Prop :=
  r.mem.bvalid = true → (i.1.bready = true ↔ r.mem.wState ≠ .resp)

instance (r : Responses) (i : In) : Decidable (Timely r i) :=
  inferInstanceAs (Decidable (_ → (_ ↔ _)))

/-! ## Responses -/

variable {memWords} {r : Responses} {i : In}

/-- A cycle is timely exactly if it keeps its response. -/
theorem kept_step : Kept (step memWords r i) ↔ Timely r i := by
  have next : (step memWords r i).mem.bvalid = (r.mem.wState == .resp) := bvalid_step
  have last : (step memWords r i).last = some (i.1, SysMem.out memWords r.mem) := rfl
  constructor
  · intro kept valid
    constructor
    · intro ready resp
      have gone := kept.lowered _ last valid ready
      rw [next, resp] at gone
      exact absurd gone (by decide)
    · intro left
      cases ready : i.1.bready with
      | true => rfl
      | false =>
        have stays := kept.held _ last valid ready
        rw [next, beq_iff_eq] at stays
        exact absurd stays left
  · intro timely
    constructor
    · intro c seen valid stall
      obtain rfl := Option.some.inj (last.symm.trans seen)
      rw [next, beq_iff_eq]
      by_contra left
      exact Bool.false_ne_true (stall.symm.trans ((timely valid).mpr left))
    · intro c seen valid ready
      obtain rfl := Option.some.inj (last.symm.trans seen)
      rw [next, beq_eq_false_iff_ne]
      exact (timely valid).mp ready

/-- A completed burst waits for its response in `W_RESP`, or with `bvalid` after it. -/
def Waits (r : Responses) : Prop := r.mem.wState = .resp ∨ r.mem.bvalid = true

instance (r : Responses) : Decidable (Waits r) := inferInstanceAs (Decidable (_ ∨ _))

/-- In a timely run one completed burst at most is unanswered. -/
structure Counted (r : Responses) : Prop where
  counts : r.completed = r.answered + (decide (Waits r)).toNat
  inData : r.mem.wState = .data → r.mem.bvalid = false

theorem Counted.step (counted : Counted r) (timely : Timely r i) :
    Counted (step memWords r i) := by
  have bvalid : (Responses.step memWords r i).mem.bvalid = (r.mem.wState == .resp) := bvalid_step
  have wState : (Responses.step memWords r i).mem.wState = _ := wState_step
  obtain ⟨counts, inData⟩ := counted
  constructor
  · simp only [Waits, bvalid, wState]
    change r.completed + (wHs i.1 (SysMem.out memWords r.mem) && i.1.wlast).toNat =
      r.answered + (r.mem.bvalid && i.1.bready).toNat + _
    rw [counts]
    cases state : r.mem.wState with
    | idle =>
      have noBeat : wHs i.1 (SysMem.out memWords r.mem) = false := by
        simp [wHs, SysMem.out, state]
      cases valid : r.mem.bvalid with
      | false => cases opens : i.1.awvalid <;> simp [Waits, state, valid, noBeat]
      | true =>
        -- the FSM has left: the response is taken now
        have ready : i.1.bready = true := (timely valid).mpr (by simp [state])
        cases opens : i.1.awvalid <;> simp [Waits, state, valid, ready, noBeat]
    | data =>
      have valid := inData state
      cases beat : i.1.wvalid <;> cases final : i.1.wlast <;>
        simp [Waits, state, valid, beat, wHs, SysMem.out]
    | resp =>
      have stalls : r.mem.bvalid = true → i.1.bready = false := by
        intro valid
        simpa [state] using timely valid
      cases valid : r.mem.bvalid with
      | false => simp [Waits, state, valid, wHs, SysMem.out]
      | true => simp [Waits, state, valid, stalls valid, wHs, SysMem.out]
  · rw [wState, bvalid]
    cases state : r.mem.wState with
    | idle => simp
    | data => simp
    | resp => cases ready : i.1.bready <;> simp

/-! ## The memory -/

/-- The burst registers follow the burst on the wire. -/
def InBurst (r : Responses) : Prop :=
  r.mem.wState = .data →
    r.mem.wAddr = r.awaddr ∧ r.mem.wBeat.toNat = r.beat ∧ 0 < r.wLeft ∧ r.beat + r.wLeft ≤ 256

theorem InBurst.step (inBurst : InBurst r) (legal : MasterLegal memWords r i) :
    InBurst (step memWords r i) := by
  have wState : (Responses.step memWords r i).mem.wState = _ := wState_step
  obtain ⟨wAddr, wBeat⟩ := @wBurst_step memWords r.mem i.1 i.2
  intro data
  rw [wState] at data
  change (SysMem.step memWords r.mem i.1 i.2).wAddr = _ ∧
    (SysMem.step memWords r.mem i.1 i.2).wBeat.toNat = _ ∧ _
  rw [wAddr, wBeat]
  cases state : r.mem.wState with
  | idle =>
    -- an accepted AW opens the burst
    have opens : i.1.awvalid = true := by simpa [state] using data
    have short := i.1.awlen.isLt
    simp [Responses.step, awHs, SysMem.out, state, opens]
    omega
  | data =>
    obtain ⟨addr, beat, left, bound⟩ := inBurst state
    cases valid : i.1.wvalid with
    | false => simp [Responses.step, awHs, wHs, SysMem.out, state, valid, addr, beat, left, bound]
    | true =>
      have more : i.1.wlast = false := by simpa [state, valid] using data
      have notLast : r.wLeft ≠ 1 := by
        have final := legal.bursts (by simp [wHs, SysMem.out, state, valid])
        simpa [more] using final.symm
      have up : (r.mem.wBeat + 1).toNat = r.beat + 1 := by
        rw [BitVec.toNat_add, beat]
        exact Nat.mod_eq_of_lt (by change r.beat + 1 < 256; omega)
      simp [Responses.step, awHs, wHs, SysMem.out, state, valid, more, addr]
      omega
  | resp => cases ready : i.1.bready <;> simp [state, ready] at data

theorem InBurst.writes (inBurst : InBurst r) (noInit : i.2.wrEn = false) :
    Writes memWords r i := by
  intro word
  have ram : (Responses.step memWords r i).mem.ram = _ := SysMem.ram_step noInit
  rw [ram]
  by_cases beat : r.mem.wState = .data ∧ i.1.wvalid = true
  · obtain ⟨addr, count, -, -⟩ := inBurst beat.1
    have here : SysMem.beatWord r.mem.wAddr r.mem.wBeat = (r.awaddr >>> 2).toNat + r.beat := by
      rw [beatWord_eq, addr, count]
    have takes : wHs i.1 (SysMem.out memWords r.mem) = true := by
      simp [wHs, SysMem.out, beat.1, beat.2]
    rw [here]
    by_cases same : word = (r.awaddr >>> 2).toNat + r.beat
    · rw [← same]
      by_cases bound : word < memWords
      · rw [if_pos ⟨beat, bound⟩, Function.update_self, if_pos ⟨takes, rfl, bound⟩]
      · rw [if_neg fun both => bound both.2, if_neg fun all => bound all.2.2]
    · have other : ¬ (wHs i.1 (SysMem.out memWords r.mem) = true ∧
          word = (r.awaddr >>> 2).toNat + r.beat ∧ word < memWords) := fun all => same all.2.1
      rw [if_neg other]
      split
      · exact Function.update_of_ne same _ _
      · rfl
  · have none : ¬ wHs i.1 (SysMem.out memWords r.mem) = true := by
      intro takes
      rw [wHs, Bool.and_eq_true, SysMem.out, beq_iff_eq] at takes
      exact beat ⟨takes.2, takes.1⟩
    rw [if_neg fun both => beat both.1, if_neg fun all => none all.1]

theorem counted_start (s : SysMem.State) : Counted (start s) where
  counts := rfl
  inData := by simp [start, SysMem.reset]

theorem inBurst_start (s : SysMem.State) : InBurst (start s) := by
  simp [InBurst, start, SysMem.reset]

theorem kept_start (s : SysMem.State) : Kept (start s) where
  held := by simp [start]
  lowered := by simp [start]

/-- Each write burst is answered exactly once if and only if every cycle is timely.  For
    every legal master, with any `bready`, reads and init port; the memory itself takes exactly
    the beats in every legal run. -/
theorem answered_once_iff (s : SysMem.State) {is : List In}
    (legal : LegalRun (step memWords) (MasterLegal memWords) (start s) is) :
    LegalRun (step memWords) Timely (start s) is ↔
      ∀ pre, pre <+: is → Answers memWords (run (step memWords) (start s) pre) := by
  have keeps : LegalRun (step memWords) Timely (start s) is ↔
      ∀ pre, pre <+: is → Kept (run (step memWords) (start s) pre) :=
    legalRun_iff_always (fun _ _ _ => kept_step) (kept_start s)
  constructor
  · intro timely pre prefixed
    have kept := keeps.mp timely pre prefixed
    obtain ⟨rest, rfl⟩ := prefixed
    have counted : Counted (run (step memWords) (start s) pre) :=
      (legalRun_append.mp timely).1.invariant (fun _ _ counted => counted.step) (counted_start s)
    have inBurst : InBurst (run (step memWords) (start s) pre) :=
      (legalRun_append.mp legal).1.invariant (fun _ _ inBurst => inBurst.step) (inBurst_start s)
    exact
      { kept
        counted := counted.counts ▸ Nat.le_add_right _ _
        writes := fun _ _ noInit => inBurst.writes noInit }
  · intro always
    exact keeps.mpr fun pre prefixed => (always pre prefixed).kept

def zeroMem : SysMem.State :=
  { ram := fun _ => 0, initWordAddr := 0, rState := .idle, rAddr := 0, rLastBeat := 0, rBeat := 0,
    wState := .idle, wAddr := 0, wLastBeat := 0, wBeat := 0, bvalid := false }

/-- A burst of one beat to address 4, and then `bready` as given. -/
def burstOf (ready : List Bool) : List In :=
  let quiet : Axi4Master :=
    { awvalid := false, awaddr := 4, awlen := 0, wvalid := false, wdata := 7, wlast := true,
      bready := false, arvalid := false, araddr := 0, arlen := 0, rready := false }
  let noInit : SysMem.Init := { wrEn := false, addr := 0, wdata := 0 }
  [({ quiet with awvalid := true }, noInit), ({ quiet with wvalid := true }, noInit)] ++
    ready.map fun bready => ({ quiet with bready }, noInit)

theorem answered_once_at_once :
    Answers 4 (run (step 4) (start zeroMem) (burstOf [true, true, false])) ∧
      (run (step 4) (start zeroMem) (burstOf [true, true, false])).answered = 1 :=
  ⟨(answered_once_iff zeroMem (by decide)).mp (by decide) _ (List.prefix_refl _), by decide⟩

/-- `bready` comes one cycle late: it leaves `W_RESP` when it takes the response, so the
    response is shown, and taken, once more. -/
theorem response_taken_twice :
    LegalRun (step 4) (MasterLegal 4) (start zeroMem) (burstOf [false, true, true]) ∧
      (run (step 4) (start zeroMem) (burstOf [false, true, true])).completed = 1 ∧
      (run (step 4) (start zeroMem) (burstOf [false, true, true])).answered = 2 := by
  decide

-- `bready` is high one cycle before the response and low when it comes: nobody takes it
example :
    LegalRun (step 4) (MasterLegal 4) (start zeroMem) (burstOf [true, false, true]) ∧
      (run (step 4) (start zeroMem) (burstOf [true])).mem.bvalid = true ∧
      (run (step 4) (start zeroMem) (burstOf [true, false])).mem.bvalid = false ∧
      (run (step 4) (start zeroMem) (burstOf [true, false, true])).answered = 0 := by
  decide

end Responses

end AxiDma.Verified
