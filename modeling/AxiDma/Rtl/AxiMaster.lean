import AxiDma.Rtl.DmaPkg

/-! # AXI4 master (`axi_4_master.sv`)

`comb` is the combinational block of the source: from the state and the inputs of
a cycle to the outputs of the cycle and the next state, case by case.
-/

namespace AxiDma.Rtl.AxiMaster

inductive Fsm where
  | idle
  | dfGet
  | dfAr
  | dfR
  | dfPush
  | dmGet
  | dmRdAr
  | dmRdR
  | dmWrAw
  | dmWrW
  | dmWrB
  | waitSram
  deriving DecidableEq, Repr

structure State where
  state : Fsm
  curAddr : Word
  curLen : BitVec 8
  curWrite : Bool
  beatIdx : BitVec 8
  descBuf : Desc
  deriving DecidableEq, Repr

structure In where
  dfInEmpty : Bool
  dfInDout : Handle
  dfOutFull : Bool
  dmInEmpty : Bool
  dmInDout : Instr
  midFull : Bool
  midEmpty : Bool
  midDout : Word
  sramDone : Bool
  axi : Axi4Slave
  deriving DecidableEq, Repr

structure Out where
  dfInRdEn : Bool
  dfOutWrEn : Bool
  dfOutDin : Desc
  dmInRdEn : Bool
  midWrEn : Bool
  midDin : Word
  midRdEn : Bool
  axi : Axi4Master
  deriving DecidableEq, Repr

def resetState : State :=
  { state := .idle, curAddr := 0, curLen := 0, curWrite := false, beatIdx := 0,
    descBuf := ⟨0, 0, 0, 0⟩ }

/-- `axi_done`: the AXI side of the current transaction is finished. -/
def axiDone (s : State) : Bool := s.state == .waitSram

/-- `awlen` and `arlen`. -/
def burstLen (len : BitVec 8) : BitVec 8 := if len = 0 then 0 else len - 1

/-- The outputs every state starts from. -/
def defaultOut (s : State) (i : In) : Out :=
  { dfInRdEn := false, dfOutWrEn := false, dfOutDin := s.descBuf, dmInRdEn := false,
    midWrEn := false, midDin := 0, midRdEn := false,
    axi :=
      { awvalid := false, awaddr := s.curAddr, awlen := burstLen s.curLen,
        wvalid := false, wdata := i.midDout, wlast := false, bready := false,
        arvalid := false, araddr := s.curAddr, arlen := burstLen s.curLen,
        rready := false } }

def comb (s : State) (i : In) : Out × State :=
  let o := defaultOut s i
  match s.state with
  | .idle =>
    -- descriptor fetches have priority
    if !i.dfInEmpty then (o, { s with state := .dfGet })
    else if !i.dmInEmpty then (o, { s with state := .dmGet })
    else (o, s)
  | .dfGet =>
    ({ o with dfInRdEn := true },
      { s with curAddr := i.dfInDout.addr, curLen := i.dfInDout.len, beatIdx := 0,
               descBuf := ⟨0, 0, 0, 0⟩, state := .dfAr })
  | .dfAr =>
    ({ o with axi := { o.axi with arvalid := true } },
      if i.axi.arready then { s with state := .dfR } else s)
  | .dfR =>
    ({ o with axi := { o.axi with rready := true } },
      if i.axi.rvalid then
        -- the beats fill the descriptor in order
        { s with descBuf := s.descBuf.setWord s.beatIdx i.axi.rdata, beatIdx := s.beatIdx + 1,
                 state := if i.axi.rlast then .dfPush else .dfR }
      else s)
  | .dfPush =>
    if !i.dfOutFull then ({ o with dfOutWrEn := true }, { s with state := .idle }) else (o, s)
  | .dmGet =>
    ({ o with dmInRdEn := true },
      { s with curAddr := i.dmInDout.addr, curLen := i.dmInDout.len,
               curWrite := i.dmInDout.rw, beatIdx := 0,
               state := if i.dmInDout.rw then .dmWrAw else .dmRdAr })
  | .dmRdAr =>
    ({ o with axi := { o.axi with arvalid := true } },
      if i.axi.arready then { s with state := .dmRdR } else s)
  | .dmRdR =>
    -- a full MID holds the slave back, so no beat is lost
    let rready := !i.midFull
    if i.axi.rvalid && rready then
      ({ o with axi := { o.axi with rready := rready }, midDin := i.axi.rdata, midWrEn := true },
        { s with state := if i.axi.rlast then .waitSram else .dmRdR })
    else ({ o with axi := { o.axi with rready := rready } }, s)
  | .dmWrAw =>
    ({ o with axi := { o.axi with awvalid := true } },
      if i.axi.awready then { s with beatIdx := 0, state := .dmWrW } else s)
  | .dmWrW =>
    if !i.midEmpty then
      -- in 8 bits: for length 0 the last beat is number 255
      let wlast := s.beatIdx == s.curLen - 1
      let axi := { o.axi with wvalid := true, wdata := i.midDout, wlast := wlast }
      if i.axi.wready then
        ({ o with axi := axi, midRdEn := true },
          { s with beatIdx := s.beatIdx + 1, state := if wlast then .dmWrB else .dmWrW })
      else ({ o with axi := axi }, s)
    else (o, s)
  | .dmWrB =>
    ({ o with axi := { o.axi with bready := true } },
      if i.axi.bvalid then { s with state := .waitSram } else s)
  | .waitSram => (o, if i.sramDone then { s with state := .idle } else s)

def out (s : State) (i : In) : Out := (comb s i).1

def next (s : State) (i : In) : State := (comb s i).2

end AxiDma.Rtl.AxiMaster
