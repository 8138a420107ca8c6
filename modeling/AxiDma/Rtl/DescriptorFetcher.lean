import AxiDma.Rtl.DmaPkg

/-! # Descriptor fetcher (`descriptor_fetcher.sv`)

Both outgoing write ports are registered, so a write decided in one cycle reaches
the FIFO in the next one.  `fetch_req_ready`, `df_out_rd_en` and `df_error` are
combinational.
-/

namespace AxiDma.Rtl.DescriptorFetcher

inductive Fsm where
  | error
  | normal
  deriving DecidableEq, Repr

structure State where
  state : Fsm
  dmInWrEn : Bool
  dmInDin : Desc
  dfInWrEn : Bool
  dfInDin : Handle
  deriving DecidableEq, Repr

structure In where
  dfInFull : Bool
  dfOutEmpty : Bool
  dfOutDout : Desc
  dmInFull : Bool
  fetchReqValid : Bool
  rmDfAddr : Word
  deriving DecidableEq, Repr

def resetState : State :=
  { state := .normal, dmInWrEn := false, dmInDin := ⟨0, 0, 0, 0⟩, dfInWrEn := false,
    dfInDin := ⟨0, 0⟩ }

/-! ## Bounds check of the SRAM side -/

def sramByteAddr (d : Desc) : Word := if d.dir then d.w1 else d.w0

def sramWordIdx (d : Desc) : Word := sramByteAddr d >>> 2

/-- Index of the last SRAM word, in 33 bits. -/
def descEndAddr (d : Desc) : BitVec 33 :=
  if d.lenBeats = 0 then (sramWordIdx d).setWidth 33
  else (sramWordIdx d).setWidth 33 + d.lenBeats.setWidth 33 - 1

/-- `desc_end_addr > MAX_SRAM_ADDR`. -/
def outOfRange (d : Desc) : Bool := decide (maxSramAddr < (descEndAddr d).toNat)

/-! ## Outputs and next state -/

def fetchReqReady (i : In) : Bool := !i.dfInFull

/-- A handle is taken over from the ring manager in this cycle. -/
def takesReq (i : In) : Bool := !i.dfInFull && i.fetchReqValid

/-- A descriptor is popped from the callback FIFO in this cycle. -/
def dfOutRdEn (i : In) : Bool := !i.dfOutEmpty && !i.dmInFull

def dfError (i : In) : Bool := dfOutRdEn i && outOfRange i.dfOutDout

/-- The handle has a fixed length of four words. -/
def handleOf (addr : Word) : Handle := { addr := addr, len := 4 }

/-- A bad descriptor moves the FSM to `s_error`, an accepted request moves it back;
    both states pass handles and descriptors alike. -/
def stateNext (s : State) (i : In) : Fsm :=
  match s.state with
  | .normal => if dfError i then .error else .normal
  | .error => if takesReq i then .normal else .error

def next (s : State) (i : In) : State :=
  { state := stateNext s i
    -- a bad descriptor is popped too, and goes no further
    dmInWrEn := dfOutRdEn i && !outOfRange i.dfOutDout
    dmInDin := if dfOutRdEn i && !outOfRange i.dfOutDout then i.dfOutDout else ⟨0, 0, 0, 0⟩
    -- `full` is tested in the cycle before the write that it guards
    dfInWrEn := takesReq i
    dfInDin := if takesReq i then handleOf i.rmDfAddr else ⟨0, 0⟩ }

end AxiDma.Rtl.DescriptorFetcher
