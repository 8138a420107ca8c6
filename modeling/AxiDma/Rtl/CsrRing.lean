import AxiDma.Rtl.Csr
import AxiDma.Rtl.DescriptorFetcher

/-! # CSR block and ring manager (`csr_ring_manager_if`)

The two modules share the clock and the interface; `dma_top` wires them straight
through.  Fetch readiness, completions and descriptor errors come from outside.
-/

namespace AxiDma.Rtl.CsrRing

structure State (maxInflight : Nat) where
  csr : Csr.State
  rm : RingManager.State maxInflight
  deriving DecidableEq

structure In where
  rstN : Bool
  bus : AxiLiteMaster
  fetchReqReady : Bool
  asDone : Bool
  dfError : Bool
  deriving DecidableEq, Repr

variable {maxInflight : Nat}

def resetState (maxInflight : Nat) : State maxInflight :=
  { csr := Csr.resetState, rm := RingManager.resetState maxInflight }

def rmIn (s : State maxInflight) (i : In) : RingManager.In :=
  { rstN := i.rstN, csr := Csr.toRing s.csr, fetchReqReady := i.fetchReqReady,
    dfError := i.dfError, asDone := i.asDone }

def csrIn (s : State maxInflight) (i : In) : Csr.In :=
  { rstN := i.rstN
    bus := i.bus
    ring :=
      { head := s.rm.head
        busy := RingManager.busy s.rm
        ringEmpty := RingManager.ringEmpty s.rm (Csr.toRing s.csr)
        irqEmptySet := RingManager.irqEmptySet s.rm (Csr.toRing s.csr)
        errorSet := RingManager.errorSet (rmIn s i) } }

def step (s : State maxInflight) (i : In) : State maxInflight :=
  { csr := Csr.step s.csr (csrIn s i), rm := RingManager.step s.rm (rmIn s i) }

theorem csr_step_of_run {s : State maxInflight} {i : In} (rstN : i.rstN = true) :
    (step s i).csr = Csr.next s.csr (csrIn s i) := by
  simp [step, Csr.step, csrIn, rstN]

/-- A fetch request is accepted in this cycle. -/
def fetchHs (s : State maxInflight) (i : In) : Bool := RingManager.fetchHs s.rm (rmIn s i)

/-- The STATUS word a read of this cycle would latch. -/
def status (s : State maxInflight) (i : In) : Word := Csr.statusWord s.csr (csrIn s i).ring

end AxiDma.Rtl.CsrRing

/-! # With the descriptor fetcher (`rm_df_if`)

The fetcher decides `fetch_req_ready` and `df_error`; its FIFOs are inputs. -/

namespace AxiDma.Rtl.CsrRingFetcher

structure State (maxInflight : Nat) where
  sys : CsrRing.State maxInflight
  df : DescriptorFetcher.State
  deriving DecidableEq

structure In where
  rstN : Bool
  bus : AxiLiteMaster
  asDone : Bool
  dfInFull : Bool
  dfOutEmpty : Bool
  dfOutDout : Desc
  dmInFull : Bool
  deriving DecidableEq, Repr

variable {maxInflight : Nat}

def resetState (maxInflight : Nat) : State maxInflight :=
  { sys := CsrRing.resetState maxInflight, df := DescriptorFetcher.resetState }

def dfIn (s : State maxInflight) (i : In) : DescriptorFetcher.In :=
  { dfInFull := i.dfInFull, dfOutEmpty := i.dfOutEmpty, dfOutDout := i.dfOutDout,
    dmInFull := i.dmInFull
    fetchReqValid := RingManager.fetchReqValid s.sys.rm (Csr.toRing s.sys.csr)
    rmDfAddr := RingManager.rmDfAddr s.sys.rm (Csr.toRing s.sys.csr) }

def sysIn (s : State maxInflight) (i : In) : CsrRing.In :=
  { rstN := i.rstN, bus := i.bus, asDone := i.asDone
    fetchReqReady := DescriptorFetcher.fetchReqReady (dfIn s i)
    dfError := DescriptorFetcher.dfError (dfIn s i) }

def step (s : State maxInflight) (i : In) : State maxInflight :=
  { sys := CsrRing.step s.sys (sysIn s i)
    df := if i.rstN then DescriptorFetcher.next s.df (dfIn s i)
      else DescriptorFetcher.resetState }

/-- `fetch_req_valid` and `fetch_req_ready` are both high. -/
def fetchHs (s : State maxInflight) (i : In) : Bool := CsrRing.fetchHs s.sys (sysIn s i)

end AxiDma.Rtl.CsrRingFetcher
