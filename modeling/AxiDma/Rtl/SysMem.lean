import AxiDma.Rtl.DmaPkg

/-! # System memory (`sys_mem.sv`)

The AXI4 subordinate with its two FSMs and the init port of the access controller.
`ram` has `memWords` words; beats past its end read 0 and write nothing.  `bresp`
and `rresp` are constant and left out.
-/

namespace AxiDma.Rtl.SysMem

inductive ReadFsm where
  | idle
  | issue
  deriving DecidableEq, Repr

inductive WriteFsm where
  | idle
  | data
  | resp
  deriving DecidableEq, Repr

structure State where
  ram : Nat → Word
  initWordAddr : Nat
  rState : ReadFsm
  rAddr : Word
  rLastBeat : BitVec 8
  rBeat : BitVec 8
  wState : WriteFsm
  wAddr : Word
  wLastBeat : BitVec 8
  wBeat : BitVec 8
  bvalid : Bool

structure Init where
  wrEn : Bool
  addr : Word
  wdata : Word
  deriving DecidableEq, Repr

/-- Both FSMs after `rst_n`; `ram` and the init address register are not reset. -/
def reset (s : State) : State :=
  { s with rState := .idle, rAddr := 0, rLastBeat := 0, rBeat := 0, wState := .idle, wAddr := 0,
           wLastBeat := 0, wBeat := 0, bvalid := false }

/-- `init_addr[MEM_WORD_ADDR_WIDTH+1:2]`. -/
def initWord (memWords : Nat) (addr : Word) : Nat := (addr.toNat / 4) % 2 ^ clog2 memWords

/-! ## Outputs -/

/-- `(addr >> 2) + beat`, in 32 bits. -/
def beatWord (addr : Word) (beat : BitVec 8) : Nat := (addr >>> 2 + beat.setWidth 32).toNat

def initRdata (s : State) : Word := s.ram s.initWordAddr

def rdata (memWords : Nat) (s : State) : Word :=
  if beatWord s.rAddr s.rBeat < memWords then s.ram (beatWord s.rAddr s.rBeat) else 0

def out (memWords : Nat) (s : State) : Axi4Slave :=
  { awready := s.wState == .idle
    wready := s.wState == .data
    bvalid := s.bvalid
    arready := s.rState == .idle
    rvalid := s.rState == .issue
    rdata := if s.rState = .issue then rdata memWords s else 0
    rlast := s.rState == .issue && s.rBeat == s.rLastBeat }

/-! ## Next state -/

def readNext (m : Axi4Master) (s : State) : State :=
  match s.rState with
  | .idle =>
    if m.arvalid then
      { s with rAddr := m.araddr, rLastBeat := m.arlen, rBeat := 0, rState := .issue }
    else s
  | .issue =>
    if m.rready then
      -- the data are combinational, so a taken beat only moves the index
      if s.rBeat = s.rLastBeat then { s with rState := .idle } else { s with rBeat := s.rBeat + 1 }
    else s

/-- Write FSM; `bvalid` is a register, set in `W_RESP` and cleared in the others. -/
def writeNext (memWords : Nat) (m : Axi4Master) (s : State) : State :=
  match s.wState with
  | .idle =>
    let s := { s with bvalid := false }
    if m.awvalid then
      { s with wAddr := m.awaddr, wLastBeat := m.awlen, wBeat := 0, wState := .data }
    else s
  | .data =>
    let s := { s with bvalid := false }
    if m.wvalid then
      -- a beat past the end is taken and dropped
      let s :=
        if beatWord s.wAddr s.wBeat < memWords then
          { s with ram := Function.update s.ram (beatWord s.wAddr s.wBeat) m.wdata }
        else s
      if m.wlast then { s with wState := .resp } else { s with wBeat := s.wBeat + 1 }
    else s
  | .resp =>
    let s := { s with bvalid := true }
    -- a `bready` ahead of `bvalid` ends the state as well
    if m.bready then { s with wState := .idle } else s

/-- The init port comes last in the write block. -/
def initNext (memWords : Nat) (i : Init) (s : State) : State :=
  -- INIT_DONE is not looked at; on a collision with a beat the init port wins
  let ram := if i.wrEn then Function.update s.ram (initWord memWords i.addr) i.wdata else s.ram
  { s with ram := ram, initWordAddr := initWord memWords i.addr }

def step (memWords : Nat) (s : State) (m : Axi4Master) (i : Init) : State :=
  initNext memWords i (writeNext memWords m (readNext m s))

end AxiDma.Rtl.SysMem
