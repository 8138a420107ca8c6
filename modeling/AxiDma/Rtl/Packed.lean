import AxiDma.Rtl.MovementTop

/-! # The data mover on packed vectors (`data_mover.sv`, and the narrowing of `movement_top.sv`)

The same module as `DataMover`, with the slices of the source: descriptors are `logic [127:0]`,
instructions `logic [64:0]`, and the two write enables are signals of their own.  `ofBits` reads
the slices as the fields of the structures; under it this module is `DataMover` (`ofBits_comb`).
-/

namespace AxiDma.Rtl

/-! ## Slices -/

/-- The middle field of `{x, y, z}`. -/
theorem extractLsb'_middle {a b c : Nat} (x : BitVec a) (y : BitVec b) (z : BitVec c) :
    (x ++ y ++ z).extractLsb' c b = y := by
  ext i bound
  rw [BitVec.getElem_extractLsb', BitVec.getLsbD_append, BitVec.getLsbD_append]
  simp [bound]

/-- The flag in front of two fields. -/
theorem getLsbD_flag {b c : Nat} (x : BitVec 1) (y : BitVec b) (z : BitVec c) :
    (x ++ y ++ z).getLsbD (c + b) = x.getLsbD 0 := by
  rw [BitVec.getLsbD_append, if_neg (by omega), BitVec.getLsbD_append, if_neg (by omega)]
  simp

def Desc.ofBits (v : BitVec 128) : Desc :=
  { w0 := v.extractLsb' 0 32, w1 := v.extractLsb' 32 32, w2 := v.extractLsb' 64 32,
    w3 := v.extractLsb' 96 32 }

def InstrWide.ofBits (v : BitVec 65) : InstrWide :=
  { addr := v.extractLsb' 0 32, len := v.extractLsb' 32 32, rw := v.getLsbD 64 }

def Instr.ofBits (v : BitVec 41) : Instr :=
  { addr := v.extractLsb' 0 32, len := v.extractLsb' 32 8, rw := v.getLsbD 40 }

/-- `{wide[64], wide[39:32], wide[31:0]}`. -/
def MovementTop.narrowBits (wide : BitVec 65) : BitVec 41 :=
  wide.extractLsb' 64 1 ++ wide.extractLsb' 32 8 ++ wide.extractLsb' 0 32

theorem MovementTop.ofBits_narrowBits (wide : BitVec 65) :
    Instr.ofBits (narrowBits wide) = narrow (InstrWide.ofBits wide) := by
  rw [Instr.ofBits, narrow, Instr.mk.injEq]
  refine ⟨?_, ?_, ?_⟩
  · exact BitVec.extractLsb'_append_eq_right
  · refine (extractLsb'_middle _ _ _).trans ?_
    ext i bound
    simp [InstrWide.ofBits, BitVec.getLsbD_extractLsb']
    omega
  · refine (getLsbD_flag _ _ _).trans ?_
    simp [InstrWide.ofBits]

namespace DataMoverBits

open DataMover (Fsm)

structure State where
  state : Fsm
  inputData : BitVec 128
  instrAxi : BitVec 65
  instrSram : BitVec 65
  deriving DecidableEq, Repr

structure In where
  dfDmInEmpty : Bool
  dfDmInDout : BitVec 128
  dmSramOutFull : Bool
  dmAxiOutFull : Bool
  deriving DecidableEq, Repr

structure Out where
  dfDmInRdEn : Bool
  dmSramOutWrEn : Bool
  dmSramOutDin : BitVec 65
  dmAxiOutWrEn : Bool
  dmAxiOutDin : BitVec 65
  deriving DecidableEq, Repr

def resetState : State := { state := .getData, inputData := 0, instrAxi := 0, instrSram := 0 }

/-- `instr_axi_next` in `DECODE`. -/
def decodeAxi (inputData : BitVec 128) : BitVec 65 :=
  if inputData.getLsbD 96 then
    0#1 ++ inputData.extractLsb' 64 32 ++ inputData.extractLsb' 0 32
  else 1#1 ++ inputData.extractLsb' 64 32 ++ inputData.extractLsb' 32 32

/-- `instr_sram_next` in `DECODE`. -/
def decodeSram (inputData : BitVec 128) : BitVec 65 :=
  if inputData.getLsbD 96 then
    1#1 ++ inputData.extractLsb' 64 32 ++ inputData.extractLsb' 32 32
  else 0#1 ++ inputData.extractLsb' 64 32 ++ inputData.extractLsb' 0 32

def comb (s : State) (i : In) : Out × State :=
  let o : Out :=
    { dfDmInRdEn := false, dmSramOutWrEn := false, dmSramOutDin := s.instrSram,
      dmAxiOutWrEn := false, dmAxiOutDin := s.instrAxi }
  match s.state with
  | .getData =>
    if !i.dfDmInEmpty then
      ({ o with dfDmInRdEn := true }, { s with state := .decode, inputData := i.dfDmInDout })
    else (o, s)
  | .decode =>
    (o, { s with state := .sendInstr, instrAxi := decodeAxi s.inputData,
                 instrSram := decodeSram s.inputData })
  | .sendInstr =>
    if !i.dmSramOutFull && !i.dmAxiOutFull then
      ({ o with dmAxiOutWrEn := true, dmSramOutWrEn := true }, { s with state := .getData })
    else (o, s)

def out (s : State) (i : In) : Out := (comb s i).1

def next (s : State) (i : In) : State := (comb s i).2

/-! ## The fields of the slices -/

theorem ofBits_instr (rw : BitVec 1) (len addr : Word) :
    InstrWide.ofBits (rw ++ len ++ addr) = { addr, len, rw := rw.getLsbD 0 } := by
  rw [InstrWide.ofBits, InstrWide.mk.injEq]
  refine ⟨?_, ?_, ?_⟩
  · exact BitVec.extractLsb'_append_eq_right
  · exact extractLsb'_middle rw len addr
  · exact getLsbD_flag rw len addr

theorem dir_ofBits (v : BitVec 128) : (Desc.ofBits v).dir = v.getLsbD 96 := by
  simp [Desc.ofBits, Desc.dir]

theorem ofBits_decodeAxi (v : BitVec 128) :
    InstrWide.ofBits (decodeAxi v) = DataMover.decodeAxi (Desc.ofBits v) := by
  rw [decodeAxi, DataMover.decodeAxi, dir_ofBits]
  split <;> exact ofBits_instr _ _ _

theorem ofBits_decodeSram (v : BitVec 128) :
    InstrWide.ofBits (decodeSram v) = DataMover.decodeSram (Desc.ofBits v) := by
  rw [decodeSram, DataMover.decodeSram, dir_ofBits]
  split <;> exact ofBits_instr _ _ _

def State.fields (s : State) : DataMover.State :=
  { state := s.state, inputData := Desc.ofBits s.inputData,
    instrAxi := InstrWide.ofBits s.instrAxi, instrSram := InstrWide.ofBits s.instrSram }

def In.fields (i : In) : DataMover.In :=
  { dfDmInEmpty := i.dfDmInEmpty, dfDmInDout := Desc.ofBits i.dfDmInDout,
    dmSramOutFull := i.dmSramOutFull, dmAxiOutFull := i.dmAxiOutFull }

/-- A cycle on packed vectors is a cycle of `DataMover` on their fields. -/
theorem ofBits_comb (s : State) (i : In) :
    (next s i).fields = DataMover.next s.fields i.fields ∧
      (out s i).dfDmInRdEn = DataMover.dfDmInRdEn s.fields i.fields ∧
      (out s i).dmAxiOutWrEn = DataMover.wrEn s.fields i.fields ∧
      (out s i).dmSramOutWrEn = DataMover.wrEn s.fields i.fields := by
  cases state : s.state with
  | getData =>
    cases empty : i.dfDmInEmpty <;>
      simp [next, out, comb, State.fields, In.fields, DataMover.next, DataMover.dfDmInRdEn,
        DataMover.wrEn, state, empty]
  | decode =>
    simp [next, out, comb, State.fields, DataMover.next, DataMover.dfDmInRdEn, DataMover.wrEn,
      state, ofBits_decodeAxi, ofBits_decodeSram]
  | sendInstr =>
    cases sramFull : i.dmSramOutFull <;> cases axiFull : i.dmAxiOutFull <;>
      simp [next, out, comb, State.fields, In.fields, DataMover.next, DataMover.dfDmInRdEn,
        DataMover.wrEn, state, sramFull, axiFull]

end DataMoverBits

end AxiDma.Rtl
