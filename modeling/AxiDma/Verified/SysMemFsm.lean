import AxiDma.Rtl.SysMem
import AxiDma.Verified.AxiBursts

/-! # The FSMs of the system memory

One lemma for each register of `sys_mem`.  The read FSM issues the beats it owes, so the
memory is a slave that keeps to its bursts; the write FSM takes beats between AW and `wlast`.
-/

namespace AxiDma.Verified

open AxiDma.Lib AxiDma.Rtl

namespace SysMem

open AxiDma.Rtl.SysMem

variable {memWords rLeft : Nat} {s : State} {m : Axi4Master} {init : Init}

/-- The read FSM issues exactly while beats are left, and counts them. -/
def ReadOwes (s : State) (rLeft : Nat) : Prop :=
  match s.rState with
  | .idle => rLeft = 0
  | .issue => 0 < rLeft ∧ s.rBeat.toNat + rLeft = s.rLastBeat.toNat + 1

theorem slaveLegal_out (owes : ReadOwes s rLeft) : SlaveLegal rLeft (out memWords s) := by
  intro valid
  have issues : s.rState = .issue := beq_iff_eq.mp valid
  simp only [ReadOwes, issues] at owes
  refine ⟨owes.1, ?_⟩
  rw [out, issues, Bool.eq_iff_iff, decide_eq_true_iff]
  simp only [beq_self_eq_true, Bool.true_and, beq_iff_eq, ← BitVec.toNat_inj]
  omega

/-- The write FSM and the init port leave the read FSM alone. -/
theorem readFsm_step :
    (step memWords s m init).rState = (readNext m s).rState ∧
      (step memWords s m init).rBeat = (readNext m s).rBeat ∧
        (step memWords s m init).rLastBeat = (readNext m s).rLastBeat := by
  cases state : (readNext m s).wState <;> grind [step, initNext, writeNext]

theorem readOwes_step (memWords : Nat) (m : Axi4Master) (init : Init) (owes : ReadOwes s rLeft) :
    ReadOwes (step memWords s m init) (rLeftNext rLeft m (out memWords s)) := by
  obtain ⟨state, beat, last⟩ := @readFsm_step memWords s m init
  unfold ReadOwes
  rw [state, beat, last]
  cases fsm : s.rState with
  | idle =>
    simp only [ReadOwes, fsm] at owes
    cases valid : m.arvalid <;>
      simp [readNext, fsm, valid, rLeftNext, arHs, rHs, out, owes]
  | issue =>
    simp only [ReadOwes, fsm] at owes
    have bound := s.rLastBeat.isLt
    have small := s.rBeat.isLt
    cases ready : m.rready with
    | false => simpa [readNext, fsm, ready, rLeftNext, arHs, rHs, out] using owes
    | true =>
      by_cases final : s.rBeat = s.rLastBeat
      · have count := congrArg BitVec.toNat final
        simp [readNext, fsm, ready, rLeftNext, arHs, rHs, out, final]
        omega
      · have count := mt BitVec.toNat_inj.mp final
        simp [readNext, fsm, ready, rLeftNext, arHs, rHs, out, final]
        omega

/-- The read FSM leaves the write side alone. -/
theorem readNext_frame (m : Axi4Master) (s : State) :
    (readNext m s).ram = s.ram ∧ (readNext m s).wState = s.wState ∧
      (readNext m s).wAddr = s.wAddr ∧ (readNext m s).wBeat = s.wBeat := by
  cases state : s.rState <;> grind [readNext]

theorem wState_step :
    (step memWords s m init).wState =
      match s.wState with
      | .idle => if m.awvalid then .data else .idle
      | .data => if m.wvalid && m.wlast then .resp else .data
      | .resp => if m.bready then .idle else .resp := by
  obtain ⟨-, frame, -⟩ := readNext_frame m s
  cases state : s.wState <;> grind [step, initNext, writeNext]

theorem bvalid_step : (step memWords s m init).bvalid = (s.wState == .resp) := by
  obtain ⟨-, frame, -⟩ := readNext_frame m s
  cases state : s.wState <;> grind [step, initNext, writeNext]

/-- The memory after the W beat of a cycle, if there is one. -/
def afterBeat (memWords : Nat) (s : State) (m : Axi4Master) : Nat → Word :=
  if (s.wState = .data ∧ m.wvalid = true) ∧ beatWord s.wAddr s.wBeat < memWords then
    Function.update s.ram (beatWord s.wAddr s.wBeat) m.wdata
  else s.ram

/-- The init port wins over the beat. -/
theorem ram_step_init :
    (step memWords s m init).ram =
      if init.wrEn then
        Function.update (afterBeat memWords s m) (initWord memWords init.addr) init.wdata
      else afterBeat memWords s m := by
  obtain ⟨ram, wState, wAddr, wBeat⟩ := readNext_frame m s
  unfold afterBeat
  cases state : s.wState <;> grind [step, initNext, writeNext]

theorem ram_step (noInit : init.wrEn = false) :
    (step memWords s m init).ram =
      if (s.wState = .data ∧ m.wvalid = true) ∧ beatWord s.wAddr s.wBeat < memWords then
        Function.update s.ram (beatWord s.wAddr s.wBeat) m.wdata
      else s.ram := by
  rw [ram_step_init, noInit]
  rfl

theorem afterBeat_of_no_beat (noBeat : m.wvalid = false) : afterBeat memWords s m = s.ram := by
  simp [afterBeat, noBeat]

theorem wBurst_step :
    (step memWords s m init).wAddr = (if s.wState = .idle ∧ m.awvalid = true then m.awaddr
      else s.wAddr) ∧
    (step memWords s m init).wBeat = (if s.wState = .idle ∧ m.awvalid = true then 0
      else if s.wState = .data ∧ m.wvalid = true ∧ m.wlast = false then s.wBeat + 1
      else s.wBeat) := by
  obtain ⟨ram, wState, wAddr, wBeat⟩ := readNext_frame m s
  cases state : s.wState <;> grind [step, initNext, writeNext]

theorem rBurst_step :
    (step memWords s m init).rAddr = (if s.rState = .idle ∧ m.arvalid = true then m.araddr
      else s.rAddr) ∧
    (step memWords s m init).rBeat = (if s.rState = .idle ∧ m.arvalid = true then 0
      else if s.rState = .issue ∧ m.rready = true ∧ s.rBeat ≠ s.rLastBeat then s.rBeat + 1
      else s.rBeat) := by
  have frame : (step memWords s m init).rAddr = (readNext m s).rAddr := by
    cases state : (readNext m s).wState <;> grind [step, initNext, writeNext]
  rw [frame, (readFsm_step (s := s)).2.1]
  cases state : s.rState <;> grind [readNext]

/-- The word of a beat: the addition does not wrap. -/
theorem beatWord_eq (addr : Word) (beat : BitVec 8) :
    beatWord addr beat = (addr >>> 2).toNat + beat.toNat := by
  have small := beat.isLt
  have bound : (addr >>> 2).toNat < 2 ^ 30 := by
    have := addr.isLt
    rw [BitVec.toNat_ushiftRight, Nat.shiftRight_eq_div_pow]
    omega
  rw [beatWord, BitVec.toNat_add, BitVec.toNat_setWidth]
  omega

end SysMem

end AxiDma.Verified
