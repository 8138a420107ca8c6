import AxiDma.Lib.Run
import AxiDma.Rtl.AxiMaster

/-! # Bursts of the AXI master

What the environment may do on the AXI interface, and what the master then does with
one burst: `InBurst` ties its two read states to the beats the slave still owes, and
`AxiSide` counts the beats of the instruction it executes.
-/

namespace AxiDma.Verified

open AxiDma.Rtl

/-! ## The slave -/

/-- With `rLeft` beats left in the read burst, `rvalid` comes only inside the burst and
    `rlast` on its last beat.  All other signals are free. -/
def SlaveLegal (rLeft : Nat) (o : Axi4Slave) : Prop :=
  o.rvalid = true → 0 < rLeft ∧ o.rlast = decide (rLeft = 1)

instance (rLeft : Nat) (o : Axi4Slave) : Decidable (SlaveLegal rLeft o) :=
  inferInstanceAs (Decidable (_ → _))

def arHs (m : Axi4Master) (o : Axi4Slave) : Bool := m.arvalid && o.arready
def rHs (m : Axi4Master) (o : Axi4Slave) : Bool := o.rvalid && m.rready
def awHs (m : Axi4Master) (o : Axi4Slave) : Bool := m.awvalid && o.awready
def wHs (m : Axi4Master) (o : Axi4Slave) : Bool := m.wvalid && o.wready

/-- The beats left after a cycle: an accepted AR opens a burst of `arlen + 1` beats. -/
def rLeftNext (rLeft : Nat) (m : Axi4Master) (o : Axi4Slave) : Nat :=
  if arHs m o then m.arlen.toNat + 1 else if rHs m o then rLeft - 1 else rLeft

/-! ## Lengths -/

/-- Beats of a read burst, and turns of the SRAM loop, for a length field. -/
def beats (len : BitVec 8) : Nat := if len = 0 then 1 else len.toNat

/-- Beats up to `wlast` of a write burst for a length field: `beat_idx == cur_len - 1`
    in 8 bits meets beat 255 when the length is 0. -/
def writeBeats (len : BitVec 8) : Nat := if len = 0 then 256 else len.toNat

theorem beats_of_ne_zero {len : BitVec 8} (some : len ≠ 0) : beats len = len.toNat := if_neg some

theorem writeBeats_of_ne_zero {len : BitVec 8} (some : len ≠ 0) : writeBeats len = len.toNat :=
  if_neg some

theorem beats_pos (len : BitVec 8) : 0 < beats len := by
  unfold beats
  split
  · decide
  · rename_i some
    exact Nat.pos_of_ne_zero fun zero => some (BitVec.eq_of_toNat_eq zero)

theorem beats_le (len : BitVec 8) : beats len ≤ 255 := by
  revert len
  decide

theorem toNat_burstLen (len : BitVec 8) : (AxiMaster.burstLen len).toNat + 1 = beats len := by
  revert len
  decide

theorem toNat_sub_one (len : BitVec 8) : (len - 1).toNat + 1 = writeBeats len := by
  revert len
  decide

/-- The last-beat comparison of the write burst. -/
theorem eq_sub_one_iff {idx len : BitVec 8} : idx = len - 1 ↔ idx.toNat + 1 = writeBeats len := by
  rw [← BitVec.toNat_inj, ← toNat_sub_one]
  omega

theorem writeBeats_pos (len : BitVec 8) : 0 < writeBeats len := by
  rw [← toNat_sub_one]
  exact Nat.succ_pos _

theorem writeBeats_le (len : BitVec 8) : writeBeats len ≤ 256 := by
  have := (len - 1).isLt
  rw [← toNat_sub_one]
  omega

theorem beats_le_writeBeats (len : BitVec 8) : beats len ≤ writeBeats len := by
  unfold beats writeBeats
  split
  · decide
  · exact Nat.le_refl _

namespace AxiMaster

open AxiDma.Rtl.AxiMaster

variable {s : State} {i : In} {rLeft : Nat}

/-! ## Outputs -/

/-- Every output in one place: a state drives its own signals, the rest are the defaults. -/
theorem out_eq (s : State) (i : In) :
    out s i =
      { dfInRdEn := s.state == .dfGet
        dfOutWrEn := s.state == .dfPush && !i.dfOutFull
        dfOutDin := s.descBuf
        dmInRdEn := s.state == .dmGet
        midWrEn := s.state == .dmRdR && i.axi.rvalid && !i.midFull
        midDin := if s.state == .dmRdR && i.axi.rvalid && !i.midFull then i.axi.rdata else 0
        midRdEn := s.state == .dmWrW && !i.midEmpty && i.axi.wready
        axi :=
          { awvalid := s.state == .dmWrAw, awaddr := s.curAddr, awlen := burstLen s.curLen
            wvalid := s.state == .dmWrW && !i.midEmpty, wdata := i.midDout
            wlast := s.state == .dmWrW && !i.midEmpty && s.beatIdx == s.curLen - 1
            bready := s.state == .dmWrB
            arvalid := s.state == .dfAr || s.state == .dmRdAr, araddr := s.curAddr
            arlen := burstLen s.curLen
            rready := s.state == .dfR || s.state == .dmRdR && !i.midFull } } := by
  cases state : s.state with
  | dfPush => cases full : i.dfOutFull <;> simp [out, comb, defaultOut, state, full]
  | dmRdR =>
    cases valid : i.axi.rvalid <;> cases full : i.midFull <;>
      simp [out, comb, defaultOut, state, valid, full]
  | dmWrW =>
    cases empty : i.midEmpty <;> cases ready : i.axi.wready <;>
      simp [out, comb, defaultOut, state, empty, ready]
  | idle =>
    cases fetch : i.dfInEmpty <;> cases instr : i.dmInEmpty <;>
      simp [out, comb, defaultOut, state, fetch, instr]
  | _ => simp [out, comb, defaultOut, state]

theorem next_state (s : State) (i : In) :
    (next s i).state =
      match s.state with
      | .idle => if i.dfInEmpty = false then .dfGet else if i.dmInEmpty = false then .dmGet else .idle
      | .dfGet => .dfAr
      | .dfAr => if i.axi.arready then .dfR else .dfAr
      | .dfR => if i.axi.rvalid ∧ i.axi.rlast then .dfPush else .dfR
      | .dfPush => if i.dfOutFull then .dfPush else .idle
      | .dmGet => if i.dmInDout.rw then .dmWrAw else .dmRdAr
      | .dmRdAr => if i.axi.arready then .dmRdR else .dmRdAr
      | .dmRdR => if i.axi.rvalid ∧ i.midFull = false ∧ i.axi.rlast then .waitSram else .dmRdR
      | .dmWrAw => if i.axi.awready then .dmWrW else .dmWrAw
      | .dmWrW =>
        if i.midEmpty = false ∧ i.axi.wready ∧ s.beatIdx = s.curLen - 1 then .dmWrB else .dmWrW
      | .dmWrB => if i.axi.bvalid then .waitSram else .dmWrB
      | .waitSram => if i.sramDone then .idle else .waitSram := by
  cases state : s.state with
  | idle =>
    cases fetch : i.dfInEmpty <;> cases instr : i.dmInEmpty <;>
      simp [next, comb, state, fetch, instr]
  | dfGet => simp [next, comb, state]
  | dfAr => cases ready : i.axi.arready <;> simp [next, comb, state, ready]
  | dfR => cases valid : i.axi.rvalid <;> simp [next, comb, state, valid]
  | dfPush => cases full : i.dfOutFull <;> simp [next, comb, state, full]
  | dmGet => simp [next, comb, state]
  | dmRdAr => cases ready : i.axi.arready <;> simp [next, comb, state, ready]
  | dmRdR =>
    cases valid : i.axi.rvalid <;> cases full : i.midFull <;>
      simp [next, comb, state, valid, full]
  | dmWrAw => cases ready : i.axi.awready <;> simp [next, comb, state, ready]
  | dmWrW =>
    cases empty : i.midEmpty <;> cases ready : i.axi.wready <;>
      simp [next, comb, state, empty, ready]
  | dmWrB => cases valid : i.axi.bvalid <;> simp [next, comb, state, valid]
  | waitSram => cases done : i.sramDone <;> simp [next, comb, state, done]

theorem dfInRdEn_eq (s : State) (i : In) : (out s i).dfInRdEn = (s.state == .dfGet) := by
  rw [out_eq]

theorem dfOutWrEn_eq (s : State) (i : In) :
    (out s i).dfOutWrEn = (s.state == .dfPush && !i.dfOutFull) := by
  rw [out_eq]

theorem dmInRdEn_eq (s : State) (i : In) : (out s i).dmInRdEn = (s.state == .dmGet) := by
  rw [out_eq]

theorem midWrEn_eq (s : State) (i : In) :
    (out s i).midWrEn = (s.state == .dmRdR && i.axi.rvalid && !i.midFull) := by
  rw [out_eq]

theorem midDin_eq (s : State) (i : In) (writes : (out s i).midWrEn = true) :
    (out s i).midDin = i.axi.rdata := by
  rw [out_eq] at writes ⊢
  exact if_pos writes

theorem midRdEn_eq (s : State) (i : In) :
    (out s i).midRdEn = (s.state == .dmWrW && !i.midEmpty && i.axi.wready) := by
  rw [out_eq]

theorem awvalid_eq (s : State) (i : In) : (out s i).axi.awvalid = (s.state == .dmWrAw) := by
  rw [out_eq]

theorem wvalid_eq (s : State) (i : In) :
    (out s i).axi.wvalid = (s.state == .dmWrW && !i.midEmpty) := by
  rw [out_eq]

theorem arvalid_eq (s : State) (i : In) :
    (out s i).axi.arvalid = (s.state == .dfAr || s.state == .dmRdAr) := by
  rw [out_eq]

theorem awaddr_eq (s : State) (i : In) : (out s i).axi.awaddr = s.curAddr := by
  rw [out_eq]

theorem araddr_eq (s : State) (i : In) : (out s i).axi.araddr = s.curAddr := by
  rw [out_eq]

/-- A W beat leaves exactly when MID is read, and carries what MID shows. -/
theorem wHs_eq (s : State) (i : In) : wHs (out s i).axi i.axi = (out s i).midRdEn := by
  rw [wHs, out_eq]

theorem wdata_eq (s : State) (i : In) : (out s i).axi.wdata = i.midDout := by
  rw [out_eq]

theorem wlast_eq (s : State) (i : In) (writes : (out s i).midRdEn = true) :
    (out s i).axi.wlast = (s.beatIdx == s.curLen - 1) := by
  rw [out_eq] at writes ⊢
  simp_all

/-- The payload R beats of a cycle are the words written to MID. -/
theorem payloadRBeat_eq (s : State) (i : In) :
    (if s.state = .dmRdR ∧ rHs (out s i).axi i.axi = true then [i.axi.rdata] else []) =
      if (out s i).midWrEn then [(out s i).midDin] else [] := by
  rw [out_eq, rHs]
  by_cases state : s.state = .dmRdR
  · cases i.axi.rvalid <;> cases i.midFull <;> simp [state]
  · simp [state]

theorem dmRdR_rready_eq (s : State) (i : In) (state : s.state = .dmRdR) :
    (out s i).axi.rready = !i.midFull := by
  rw [out_eq, state]
  rfl

/-- The payload read state is entered with the AR handshake and kept until `rlast`. -/
theorem dmRdR_of_next (next : (next s i).state = .dmRdR) :
    s.state = .dmRdAr ∧ i.axi.arready = true ∨
      s.state = .dmRdR ∧ ((out s i).midWrEn = true → i.axi.rlast = false) := by
  cases state : s.state <;> grind [AxiMaster.next, out, comb, defaultOut]

/-- The W state is entered with the AW handshake and kept until `wlast`. -/
theorem dmWrW_of_next (next : (next s i).state = .dmWrW) :
    s.state = .dmWrAw ∧ i.axi.awready = true ∨
      s.state = .dmWrW ∧ ((out s i).midRdEn = true → (out s i).axi.wlast = false) := by
  cases state : s.state <;> grind [AxiMaster.next, out, comb, defaultOut]

/-! ## Read bursts -/

/-- The master is in a read state exactly while the slave owes beats. -/
def InBurst (s : State) (rLeft : Nat) : Prop :=
  (s.state = .dfR ∨ s.state = .dmRdR) ↔ 0 < rLeft

theorem inBurst_step (inBurst : InBurst s rLeft) (slave : SlaveLegal rLeft i.axi) :
    InBurst (next s i) (rLeftNext rLeft (out s i).axi i.axi) := by
  unfold InBurst SlaveLegal at *
  cases state : s.state <;> grind [next, out, comb, defaultOut, rLeftNext, arHs, rHs]

/-! ## The burst of one instruction -/

/-- An address handshake of a payload burst. -/
structure Burst where
  write : Bool
  addr : Word
  len : BitVec 8
  deriving DecidableEq, Repr

def payloadBursts (s : State) (m : Axi4Master) (o : Axi4Slave) : List Burst :=
  if s.state = .dmRdAr ∧ arHs m o = true then [⟨false, m.araddr, m.arlen⟩]
  else if awHs m o then [⟨true, m.awaddr, m.awlen⟩]
  else []

def burstOf (instr : Instr) : Burst := ⟨instr.rw, instr.addr, burstLen instr.len⟩

/-- How far the master is with `instr` after `n` beats; `rLeft` are the read beats left.
    The states before `dmGet` serve descriptor fetches. -/
def AxiSide (instr : Instr) (s : State) (bursts : List Burst) (n rLeft : Nat) : Prop :=
  match s.state with
  | .idle | .dfGet | .dfAr | .dfR | .dfPush | .dmGet => bursts = [] ∧ n = 0
  | .dmRdAr =>
    instr.rw = false ∧ s.curAddr = instr.addr ∧ s.curLen = instr.len ∧ bursts = [] ∧ n = 0
  | .dmRdR => instr.rw = false ∧ bursts = [burstOf instr] ∧ n + rLeft = beats instr.len
  | .dmWrAw =>
    instr.rw = true ∧ s.curAddr = instr.addr ∧ s.curLen = instr.len ∧ bursts = [] ∧ n = 0
  | .dmWrW =>
    instr.rw = true ∧ s.curLen = instr.len ∧ bursts = [burstOf instr] ∧ s.beatIdx.toNat = n ∧
      n < writeBeats instr.len
  | .dmWrB => instr.rw = true ∧ bursts = [burstOf instr] ∧ n = writeBeats instr.len
  | .waitSram =>
    bursts = [burstOf instr] ∧ n = if instr.rw then writeBeats instr.len else beats instr.len

/-- Beats that pass between the master and MID in a cycle. -/
def moved (s : State) (i : In) : Nat := (out s i).midWrEn.toNat + (out s i).midRdEn.toNat

theorem axiSide_step {instr : Instr} {bursts : List Burst} {n : Nat}
    (side : AxiSide instr s bursts n rLeft)
    (slave : SlaveLegal rLeft i.axi) (presented : s.state = .dmGet → i.dmInDout = instr)
    (waits : s.state = .waitSram → i.sramDone = false) :
    AxiSide instr (next s i) (bursts ++ payloadBursts s (out s i).axi i.axi) (n + moved s i)
      (rLeftNext rLeft (out s i).axi i.axi) := by
  unfold SlaveLegal at slave
  cases state : s.state with
  | idle =>
    cases fetch : i.dfInEmpty <;> cases instr : i.dmInEmpty <;>
      simp_all [AxiSide, next, out, comb, defaultOut, payloadBursts, arHs, awHs, moved]
  | dfGet => simp_all [AxiSide, next, out, comb, defaultOut, payloadBursts, arHs, awHs, moved]
  | dfAr =>
    cases ready : i.axi.arready <;>
      simp_all [AxiSide, next, out, comb, defaultOut, payloadBursts, arHs, awHs, moved]
  | dfR =>
    cases valid : i.axi.rvalid <;> cases last : i.axi.rlast <;>
      simp_all [AxiSide, next, out, comb, defaultOut, payloadBursts, arHs, awHs, moved]
  | dfPush =>
    cases full : i.dfOutFull <;>
      simp_all [AxiSide, next, out, comb, defaultOut, payloadBursts, arHs, awHs, moved]
  | dmGet =>
    cases rw : i.dmInDout.rw <;>
      simp_all [AxiSide, next, out, comb, defaultOut, payloadBursts, arHs, awHs, moved]
  | dmRdAr =>
    cases ready : i.axi.arready <;>
      simp_all [AxiSide, next, out, comb, defaultOut, payloadBursts, arHs, awHs, moved,
        rLeftNext, burstOf, toNat_burstLen]
  | dmRdR =>
    cases valid : i.axi.rvalid <;> cases full : i.midFull <;> cases last : i.axi.rlast <;>
      simp_all [AxiSide, next, out, comb, defaultOut, payloadBursts, arHs, awHs, moved,
        rLeftNext, rHs]
    all_goals omega
  | dmWrAw =>
    cases ready : i.axi.awready <;>
      simp_all [AxiSide, next, out, comb, defaultOut, payloadBursts, arHs, awHs, moved, burstOf,
        writeBeats_pos]
  | dmWrW =>
    simp only [AxiSide, state] at side
    -- the index is a byte, and for length 0 the last beat is number 255
    obtain ⟨rw, lenEq, logged, count, less⟩ := side
    have last : s.beatIdx = s.curLen - 1 ↔ n + 1 = writeBeats instr.len := by
      rw [eq_sub_one_iff, lenEq, count]
    have up : n + 1 ≠ writeBeats instr.len → (s.beatIdx + 1).toNat = n + 1 := by
      have small := writeBeats_le instr.len
      rw [BitVec.toNat_add, count]
      intro more
      exact Nat.mod_eq_of_lt (by change n + 1 < 256; omega)
    cases empty : i.midEmpty <;> cases ready : i.axi.wready <;>
      by_cases final : n + 1 = writeBeats instr.len <;>
      simp_all [AxiSide, next, out, comb, defaultOut, payloadBursts, arHs, awHs, moved]
    omega
  | dmWrB =>
    cases valid : i.axi.bvalid <;>
      simp_all [AxiSide, next, out, comb, defaultOut, payloadBursts, arHs, awHs, moved]
  | waitSram => simp_all [AxiSide, next, out, comb, defaultOut, payloadBursts, arHs, awHs, moved]

theorem AxiSide.le {instr : Instr} {bursts : List Burst} {n : Nat}
    (side : AxiSide instr s bursts n rLeft) :
    n ≤ if instr.rw then writeBeats instr.len else beats instr.len := by
  cases state : s.state <;> simp only [AxiSide, state] at side <;> grind

/-- A read instruction takes nothing out of MID. -/
theorem AxiSide.midRdEn_eq_false {instr : Instr} {bursts : List Burst} {n : Nat}
    (side : AxiSide instr s bursts n rLeft) (reads : instr.rw = false) :
    (out s i).midRdEn = false := by
  rw [midRdEn_eq]
  cases state : s.state <;> simp_all [AxiSide]

/-- A write instruction puts nothing into MID. -/
theorem AxiSide.midWrEn_eq_false {instr : Instr} {bursts : List Burst} {n : Nat}
    (side : AxiSide instr s bursts n rLeft) (writes : instr.rw = true) :
    (out s i).midWrEn = false := by
  rw [midWrEn_eq]
  cases state : s.state <;> simp_all [AxiSide]

theorem AxiSide.moved_of_read {instr : Instr} {bursts : List Burst} {n : Nat}
    (side : AxiSide instr s bursts n rLeft) (reads : instr.rw = false) :
    moved s i = (out s i).midWrEn.toNat := by
  rw [moved, side.midRdEn_eq_false reads]
  rfl

theorem AxiSide.moved_of_write {instr : Instr} {bursts : List Burst} {n : Nat}
    (side : AxiSide instr s bursts n rLeft) (writes : instr.rw = true) :
    moved s i = (out s i).midRdEn.toNat := by
  rw [moved, side.midWrEn_eq_false writes, Bool.toNat_false, Nat.zero_add]

/-- `wlast` marks the last beat of the instruction. -/
theorem AxiSide.wlast_eq {instr : Instr} {bursts : List Burst} {n : Nat}
    (side : AxiSide instr s bursts n rLeft) (writes : (out s i).midRdEn = true) :
    (out s i).axi.wlast = decide (n + 1 = writeBeats instr.len) := by
  have state : s.state = .dmWrW := by
    rw [midRdEn_eq] at writes
    simp_all
  simp only [AxiSide, state] at side
  obtain ⟨-, lenEq, -, count, -⟩ := side
  rw [AxiMaster.wlast_eq s i writes, Bool.eq_iff_iff, beq_iff_eq, eq_sub_one_iff, lenEq, count,
    decide_eq_true_iff]

end AxiMaster

end AxiDma.Verified
