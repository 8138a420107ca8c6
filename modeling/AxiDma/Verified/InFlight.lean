import AxiDma.Lib.Run
import AxiDma.Rtl.RingManager

/-! # The in-flight counter of the ring manager

`Tally` counts accepted fetch requests and answers (`as_done` and `df_error`
pulses).  The counter never falls below the number of outstanding requests
(`count_step`), because a cycle that answers two requests, or that answers one by
`df_error` while it issues another, takes at most one off.  For the same reason
it can stay above it forever; it is exact while `df_error` comes alone
(`count_step_eq`).
-/

namespace AxiDma.Verified

open AxiDma.Lib AxiDma.Rtl AxiDma.Rtl.RingManager

/-! ## Tally of requests and answers -/

structure Tally where
  accepted : Nat
  answered : Nat
  deriving DecidableEq, Repr

namespace Tally

def zero : Tally := ⟨0, 0⟩

def record (t : Tally) (fetchHs asDone dfError : Bool) : Tally :=
  { accepted := t.accepted + fetchHs.toNat
    answered := t.answered + asDone.toNat + dfError.toNat }

end Tally

/-! ## One cycle of the counter -/

namespace RingManager

variable {maxInflight : Nat}

theorem count_lt_of_fetchHs {s : State maxInflight} {i : In} (hs : fetchHs s i = true) :
    s.inflightCount.toNat < maxInflight := (fetchHs_iff.mp hs).2.2.2.1

/-- A width that holds a positive number holds 1. -/
theorem toNat_one_of_lt {w n : Nat} (pos : 0 < n) (bound : n < 2 ^ w) :
    (1 : BitVec w).toNat = 1 := by
  have wide : 1 < 2 ^ w := by omega
  simpa using Nat.mod_eq_of_lt wide

/-- What the counter takes off in a cycle: with a request issued, `as_done` only. -/
def retires (s : State maxInflight) (i : In) : Bool :=
  if fetchHs s i then i.asDone else i.asDone || i.dfError

/-- The counter moves up by the issued request and down by what it retires, as long
    as it does not go below zero. -/
theorem inflightCountNext_balance {s : State maxInflight} {i : In}
    (some : fetchHs s i = false → retires s i = true → 0 < s.inflightCount.toNat) :
    (inflightCountNext s i).toNat + (retires s i).toNat =
      s.inflightCount.toNat + (fetchHs s i).toNat := by
  have bound := s.inflightCount.isLt
  cases issue : fetchHs s i with
  | true =>
    have room := count_lt_of_fetchHs issue
    have width := maxInflight_lt_two_pow maxInflight
    have one := toNat_one_of_lt (by omega) width
    have up : (s.inflightCount + 1).toNat = s.inflightCount.toNat + 1 := by
      rw [BitVec.toNat_add, one, Nat.mod_eq_of_lt (by omega)]
    cases done : i.asDone with
    -- issue and completion cancel out
    | true => simp only [inflightCountNext, retires, issue, done]; rfl
    | false => simp only [inflightCountNext, retires, issue, done]; exact up
  | false =>
    cases answer : i.asDone || i.dfError with
    | true =>
      have off : retires s i = true := by simp only [retires, issue]; exact answer
      have lower : inflightCountNext s i = s.inflightCount - 1 := by
        simp [inflightCountNext, issue, answer]
      -- only here could the counter wrap
      have positive := some issue off
      have one := toNat_one_of_lt positive bound
      rw [lower, off, BitVec.toNat_sub_of_le (by rw [BitVec.le_def, one]; exact positive), one]
      exact Nat.sub_add_cancel positive
    | false => simp [inflightCountNext, retires, issue, answer]

/-- The counter stays between the outstanding requests and `MAX_INFLIGHT`, whatever
    coincides in the cycle. -/
theorem count_step {s : State maxInflight} {i : In} {t : Tally}
    (low : t.accepted ≤ t.answered + s.inflightCount.toNat)
    (high : s.inflightCount.toNat ≤ maxInflight)
    (asked : t.answered + i.asDone.toNat + i.dfError.toNat
      ≤ t.accepted + (fetchHs s i).toNat) :
    let t' := t.record (fetchHs s i) i.asDone i.dfError
    t'.accepted ≤ t'.answered + (inflightCountNext s i).toNat ∧
      (inflightCountNext s i).toNat ≤ maxInflight := by
  have room := count_lt_of_fetchHs (s := s) (i := i)
  have balance := inflightCountNext_balance (s := s) (i := i)
  unfold retires at balance
  cases issue : fetchHs s i <;> cases done : i.asDone <;> cases bad : i.dfError <;>
    simp [Tally.record, issue, done, bad] at asked room balance ⊢ <;> omega

/-- No `df_error` falls into a cycle that also issues a request or completes one. -/
def ErrorAlone (s : State maxInflight) (i : In) : Prop :=
  i.dfError = true → fetchHs s i = false ∧ i.asDone = false

instance (s : State maxInflight) (i : In) : Decidable (ErrorAlone s i) :=
  inferInstanceAs (Decidable (_ → _))

/-- With `df_error` alone the counter is exact. -/
theorem count_step_eq {s : State maxInflight} {i : In} {t : Tally}
    (exact : t.accepted = t.answered + s.inflightCount.toNat)
    (asked : t.answered + i.asDone.toNat + i.dfError.toNat
      ≤ t.accepted + (fetchHs s i).toNat)
    (alone : ErrorAlone s i) :
    let t' := t.record (fetchHs s i) i.asDone i.dfError
    t'.accepted = t'.answered + (inflightCountNext s i).toNat := by
  have balance := inflightCountNext_balance (s := s) (i := i)
  unfold retires at balance
  unfold ErrorAlone at alone
  cases issue : fetchHs s i <;> cases done : i.asDone <;> cases bad : i.dfError <;>
    simp [Tally.record, issue, done, bad] at asked alone balance ⊢ <;> omega

/-! ## Runs of the ring manager -/

/-- The ring manager with the tally of its requests. -/
structure Counted (maxInflight : Nat) where
  rm : State maxInflight
  tally : Tally
  deriving DecidableEq

namespace Counted

def start (maxInflight : Nat) : Counted maxInflight :=
  { rm := resetState maxInflight, tally := .zero }

def step (c : Counted maxInflight) (i : In) : Counted maxInflight :=
  { rm := RingManager.step c.rm i
    tally := c.tally.record (fetchHs c.rm i) i.asDone i.dfError }

/-- No reset, and the environment answers nothing it was not asked for. -/
def Environment (c : Counted maxInflight) (i : In) : Prop :=
  i.rstN = true ∧ i.csr.reset = false ∧
    c.tally.answered + i.asDone.toNat + i.dfError.toNat
      ≤ c.tally.accepted + (fetchHs c.rm i).toNat

instance (c : Counted maxInflight) (i : In) : Decidable (Environment c i) :=
  inferInstanceAs (Decidable (_ ∧ _))

/-- A cycle that asks for a request with nothing in its way but the window, and
    brings no answer. -/
def Demands (c : Counted maxInflight) (i : In) : Prop :=
  i.rstN = true ∧ i.csr.reset = false ∧ c.rm.head ≠ i.csr.tail ∧ i.csr.enable = true ∧
    0 < i.csr.ringlen ∧ c.rm.intStatusError = false ∧ i.fetchReqReady = true ∧
      i.asDone = false ∧ i.dfError = false

instance (c : Counted maxInflight) (i : In) : Decidable (Demands c i) :=
  inferInstanceAs (Decidable (_ ∧ _))

theorem exact_step {c : Counted maxInflight} {i : In}
    (exact : c.tally.accepted = c.tally.answered + c.rm.inflightCount.toNat)
    (env : Environment c i) (alone : ErrorAlone c.rm i) :
    (step c i).tally.accepted =
      (step c i).tally.answered + (step c i).rm.inflightCount.toNat := by
  obtain ⟨rstN, reset, asked⟩ := env
  simpa only [step, step_of_run rstN reset] using count_step_eq exact asked alone

/-- A demand is accepted while the window is open, and fills one place of it. -/
theorem demand_step {c : Counted maxInflight} {i : In} (demand : Demands c i)
    (room : c.rm.inflightCount.toNat < maxInflight) :
    (step c i).tally.accepted = c.tally.accepted + 1 ∧
      (step c i).rm.inflightCount.toNat = c.rm.inflightCount.toNat + 1 := by
  obtain ⟨rstN, reset, pending, enable, ringlen, noError, ready, notDone, notBad⟩ := demand
  have issue : fetchHs c.rm i = true :=
    fetchHs_iff.mpr ⟨pending, enable, ringlen, room, noError, ready⟩
  have keep : retires c.rm i = false := by simp [retires, issue, notDone]
  have balance := inflightCountNext_balance (s := c.rm) (i := i) (by simp [issue])
  rw [issue, keep] at balance
  refine ⟨by simp [step, Tally.record, issue], ?_⟩
  simp only [step, step_of_run rstN reset]
  exact balance

theorem demands_accepted {c : Counted maxInflight} {is : List In}
    (room : c.rm.inflightCount.toNat + is.length ≤ maxInflight)
    (demands : LegalRun step Demands c is) :
    (run step c is).tally.accepted = c.tally.accepted + is.length := by
  induction is generalizing c with
  | nil => rfl
  | cons i is ih =>
    simp only [List.length_cons] at room ⊢
    obtain ⟨taken, filled⟩ := demand_step demands.1 (by omega)
    rw [run_cons, ih (by omega) demands.2, taken]
    omega

end Counted

/-- The window reopens in every run in which `df_error` pulses come alone: once
    all accepted requests are answered the counter is 0, BUSY reads 0, and the next
    `MAX_INFLIGHT` demands are all accepted. -/
theorem window_reopens {maxInflight : Nat} {is : List In}
    (runs : LegalRun Counted.step
      (fun c i => Counted.Environment c i ∧ ErrorAlone c.rm i) (Counted.start maxInflight) is)
    (all : (run Counted.step (Counted.start maxInflight) is).tally.answered =
      (run Counted.step (Counted.start maxInflight) is).tally.accepted) :
    let c := run Counted.step (Counted.start maxInflight) is
    c.rm.inflightCount = 0 ∧ busy c.rm = false ∧
      ∀ js : List In, js.length = maxInflight → LegalRun Counted.step Counted.Demands c js →
        (run Counted.step c js).tally.accepted = c.tally.accepted + maxInflight := by
  intro c
  -- with `df_error` alone the window is never left short
  have exact : c.tally.accepted = c.tally.answered + c.rm.inflightCount.toNat :=
    runs.invariant
      (P := fun c => c.tally.accepted = c.tally.answered + c.rm.inflightCount.toNat)
      (fun c i inv legal => Counted.exact_step inv legal.1 legal.2)
      (by simp [Counted.start, Tally.zero, resetState])
  have answeredAll : c.tally.answered = c.tally.accepted := all
  have none : c.rm.inflightCount.toNat = 0 := by omega
  have zero : c.rm.inflightCount = 0 := BitVec.eq_of_toNat_eq (by simpa using none)
  refine ⟨zero, by simp [busy, zero], ?_⟩
  intro js count demands
  rw [Counted.demands_accepted (by omega) demands, count]

/-- A cycle with one posted descriptor, ENABLE set and the fetcher ready. -/
def pendingCycle (tail : Word) (asDone dfError : Bool) : In :=
  { rstN := true
    csr := { baseaddr := 0, ringlen := 8, tail := tail, enable := true, reset := false,
             irqEn := false, errorClear := false }
    fetchReqReady := true, dfError := dfError, asDone := asDone }

/-- Four requests are issued, answered by `as_done`, and four more are accepted. -/
theorem window_reopens_after_four :
    let is := List.replicate 4 (pendingCycle 4 false false) ++
      List.replicate 4 (pendingCycle 4 true false)
    let c := run Counted.step (Counted.start 4) is
    (c.rm.inflightCount = 0 ∧ busy c.rm = false ∧
      ∀ js : List In, js.length = 4 → LegalRun Counted.step Counted.Demands c js →
        (run Counted.step c js).tally.accepted = c.tally.accepted + 4) ∧
    LegalRun Counted.step Counted.Demands c (List.replicate 4 (pendingCycle 0 false false)) :=
  ⟨window_reopens (by decide) (by decide), by decide⟩

/-- Two requests: the first is answered by `df_error` in the cycle that issues the
    second, which is then answered by `as_done`. -/
def lostDecrement : List In :=
  [pendingCycle 2 false false, pendingCycle 2 false true, pendingCycle 2 true false]

/-- A `df_error` in an issuing cycle is never taken off the counter: everything is
    answered and BUSY still reads 1. -/
theorem window_stays_shut :
    LegalRun Counted.step Counted.Environment (Counted.start 4) lostDecrement ∧
      (run Counted.step (Counted.start 4) lostDecrement).tally = ⟨2, 2⟩ ∧
      (run Counted.step (Counted.start 4) lostDecrement).rm.inflightCount = 1 ∧
      busy (run Counted.step (Counted.start 4) lostDecrement).rm = true := by decide

end RingManager

end AxiDma.Verified
