import AxiDma.Rtl.DmaPkg

/-! # Ring manager (`ring_manager.sv`)

The ring indices, the in-flight counter and the two flags are one state record;
the combinational outputs are functions of the state and of the CSR side of
`csr_ring_manager_if`.  `head` lives here, since the module drives it.
-/

namespace AxiDma.Rtl.RingManager

/-- Width of `inflight_count`: `$clog2(MAX_INFLIGHT + 1)`. -/
abbrev countWidth (maxInflight : Nat) : Nat := clog2 (maxInflight + 1)

structure State (maxInflight : Nat) where
  head : Word
  inflightCount : BitVec (countWidth maxInflight)
  wasEmpty : Bool
  intStatusError : Bool
  swRstEnable : Bool
  deriving DecidableEq, Repr

/-- The configuration and control values the CSR block drives. -/
structure CsrIn where
  baseaddr : Word
  ringlen : Word
  tail : Word
  enable : Bool
  reset : Bool
  irqEn : Bool
  errorClear : Bool
  deriving DecidableEq, Repr

structure In where
  rstN : Bool
  csr : CsrIn
  fetchReqReady : Bool
  dfError : Bool
  asDone : Bool
  deriving DecidableEq, Repr

/-- The value the reset branch loads. -/
def resetState (maxInflight : Nat) : State maxInflight :=
  { head := 0, inflightCount := 0, wasEmpty := true, intStatusError := false,
    swRstEnable := false }

variable {maxInflight : Nat}

/-! ## Combinational outputs -/

def ringEmpty (s : State maxInflight) (csr : CsrIn) : Bool := s.head == csr.tail

def fetchReqValid (s : State maxInflight) (csr : CsrIn) : Bool :=
  !ringEmpty s csr && csr.enable && decide (0 < csr.ringlen)
    && decide (s.inflightCount.toNat < maxInflight) && !s.intStatusError

def rmDfAddr (s : State maxInflight) (csr : CsrIn) : Word :=
  csr.baseaddr + s.head * descriptorSize

def busy (s : State maxInflight) : Bool := decide (0 < s.inflightCount)

/-- One-cycle pulse on the non-empty to empty transition. -/
def irqEmptySet (s : State maxInflight) (csr : CsrIn) : Bool := !s.wasEmpty && ringEmpty s csr

def errorSet (i : In) : Bool := i.dfError

def irqEmpty (s : State maxInflight) (csr : CsrIn) : Bool := csr.irqEn && irqEmptySet s csr

def irqError (i : In) : Bool := i.csr.irqEn && errorSet i

/-- `fetch_req_valid && fetch_req_ready`: a request changes hands in this cycle. -/
def fetchHs (s : State maxInflight) (i : In) : Bool := fetchReqValid s i.csr && i.fetchReqReady

/-! ## Next state -/

def headPtrNext (s : State maxInflight) (i : In) : Word :=
  if fetchHs s i then
    -- the wrap is a comparison with the last slot, no modulo
    if s.head = i.csr.ringlen - 1 then 0 else s.head + 1
  else s.head

def inflightCountNext (s : State maxInflight) (i : In) : BitVec (countWidth maxInflight) :=
  -- issue and completion together: net zero
  if fetchHs s i && i.asDone then s.inflightCount
  else if fetchHs s i then s.inflightCount + 1
  -- both answers in one cycle count as one
  else if i.asDone || i.dfError then s.inflightCount - 1
  else s.inflightCount

/-- `error_clear` wins over a `df_error` of the same cycle. -/
def intStatusErrorNext (s : State maxInflight) (i : In) : Bool :=
  if i.csr.errorClear then false else if i.dfError then true else s.intStatusError

/-- Computed and registered, but no other logic of the module reads it. -/
def swRstEnableNext (s : State maxInflight) (i : In) : Bool :=
  if i.csr.errorClear then false
  else if !s.intStatusError && decide (s.inflightCount = 0) then true
  else s.swRstEnable

/-- The clock edge; the soft reset is the synchronous reset branch. -/
def step (s : State maxInflight) (i : In) : State maxInflight :=
  if !i.rstN || i.csr.reset then resetState maxInflight
  else
    { head := headPtrNext s i
      inflightCount := inflightCountNext s i
      wasEmpty := ringEmpty s i.csr
      intStatusError := intStatusErrorNext s i
      swRstEnable := swRstEnableNext s i }

/-! ## What a cycle does -/

theorem fetchHs_iff {s : State maxInflight} {i : In} :
    fetchHs s i = true ↔
      s.head ≠ i.csr.tail ∧ i.csr.enable = true ∧ 0 < i.csr.ringlen ∧
        s.inflightCount.toNat < maxInflight ∧ s.intStatusError = false ∧
          i.fetchReqReady = true := by
  simp [fetchHs, fetchReqValid, ringEmpty, and_assoc]

theorem step_of_reset {s : State maxInflight} {i : In} (reset : i.csr.reset = true) :
    step s i = resetState maxInflight := by
  simp [step, reset]

theorem step_of_run {s : State maxInflight} {i : In} (rstN : i.rstN = true)
    (reset : i.csr.reset = false) :
    step s i =
      { head := headPtrNext s i
        inflightCount := inflightCountNext s i
        wasEmpty := ringEmpty s i.csr
        intStatusError := intStatusErrorNext s i
        swRstEnable := swRstEnableNext s i } := by
  simp [step, rstN, reset]

theorem maxInflight_lt_two_pow (maxInflight : Nat) :
    maxInflight < 2 ^ countWidth maxInflight :=
  Nat.lt_of_succ_le (Nat.le_pow_clog (by decide) _)

end AxiDma.Rtl.RingManager
