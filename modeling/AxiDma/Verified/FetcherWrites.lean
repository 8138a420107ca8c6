import AxiDma.Lib.Run
import AxiDma.Verified.Stages

/-! # The registered writes of the descriptor fetcher

The fetcher looks at `full` in the cycle it accepts a request or pops a descriptor, and
writes in the next one.  `Fetching` is the fetcher between any requester, any callback FIFO
and any readers of its two outgoing FIFOs.  A word is lost exactly if it is accepted while
the FIFO is one short of full, the word before it goes in and none is read.
-/

namespace AxiDma.Verified

open AxiDma.Lib AxiDma.Rtl

/-! ## A registered write -/

section Registered

variable {k : Nat} {α : Type} {f : Fifo k α} {i : Fifo.In α}

/-- The FIFO is full after the write of the cycle. -/
def Fills (f : Fifo k α) (i : Fifo.In α) : Prop :=
  i.wrEn = true ∧ i.rdEn = false ∧ f.level + 1 = 2 ^ k

instance : Decidable (Fills f i) := inferInstanceAs (Decidable (_ ∧ _ ∧ _))

theorem full_step_iff (deep : 0 < k) (ok : f.Ok) (room : f.full = false) :
    (f.step i).full = true ↔ Fills f i := by
  have two : 2 ^ 1 ≤ 2 ^ k := Nat.pow_le_pow_right (by decide) deep
  have short := Fifo.full_eq_false_iff.mp room
  have bound := ok.length_le
  rw [Fifo.length_contents] at short bound
  rw [Fifo.full_iff, Fifo.contents_step ok, List.length_append, Fifo.remaining, Fifo.accepted, room,
    Fills]
  -- a word that is read leaves its place to the one written
  cases reads : i.rdEn with
  | true => cases i.wrEn <;> simp <;> omega
  | false =>
    cases i.wrEn with
    | true => simp
    | false => simpa using short

/-- What a register held goes into a FIFO that is not full. -/
theorem stored_step {into stored new : List α} (room : i.wrEn = true → f.full = false)
    (held : into = stored ++ Fifo.written i) :
    into ++ new = (stored ++ f.accepted i) ++ new := by
  have accepts : f.accepted i = Fifo.written i := by
    cases writes : i.wrEn with
    | true => simp [Fifo.accepted, Fifo.written, writes, room writes]
    | false => simp [Fifo.accepted, Fifo.written, writes]
  rw [held, accepts]

end Registered

/-! ## The fetcher between its FIFOs -/

/-- The fetcher, its outgoing FIFOs of depth at least two, and what was accepted and stored. -/
structure Fetching (k m : Nat) where
  df : DescriptorFetcher.State
  dfInFifo : Fifo (k + 1) Handle
  descToDmFifo : Fifo (m + 1) Desc
  /-- Addresses of the accepted requests. -/
  requests : List Word
  /-- Handles stored in `df_in`. -/
  handles : List Handle
  /-- Descriptors popped without `df_error`. -/
  popped : List Desc
  /-- Descriptors stored for the data mover. -/
  copies : List Desc

namespace Fetching

/-- The requester, the callback FIFO and the readers. -/
structure In where
  fetchReqValid : Bool
  rmDfAddr : Word
  dfOutEmpty : Bool
  dfOutDout : Desc
  dfInRdEn : Bool
  dmInRdEn : Bool
  deriving DecidableEq, Repr

variable {k m : Nat}

def start (dfIn : Fifo (k + 1) Handle) (descToDm : Fifo (m + 1) Desc) : Fetching k m :=
  { df := DescriptorFetcher.resetState, dfInFifo := dfIn.reset, descToDmFifo := descToDm.reset,
    requests := [], handles := [], popped := [], copies := [] }

def dfIn (t : Fetching k m) (i : In) : DescriptorFetcher.In :=
  { dfInFull := t.dfInFifo.full, dfOutEmpty := i.dfOutEmpty, dfOutDout := i.dfOutDout,
    dmInFull := t.descToDmFifo.full, fetchReqValid := i.fetchReqValid, rmDfAddr := i.rmDfAddr }

def dfInFifoIn (t : Fetching k m) (i : In) : Fifo.In Handle :=
  { wrEn := t.df.dfInWrEn, din := t.df.dfInDin, rdEn := i.dfInRdEn }

def descToDmFifoIn (t : Fetching k m) (i : In) : Fifo.In Desc :=
  { wrEn := t.df.dmInWrEn, din := t.df.dmInDin, rdEn := i.dmInRdEn }

def popsGood (t : Fetching k m) (i : In) : Bool :=
  DescriptorFetcher.dfOutRdEn (t.dfIn i) && !DescriptorFetcher.dfError (t.dfIn i)

def step (t : Fetching k m) (i : In) : Fetching k m :=
  { df := DescriptorFetcher.next t.df (t.dfIn i)
    dfInFifo := t.dfInFifo.step (t.dfInFifoIn i)
    descToDmFifo := t.descToDmFifo.step (t.descToDmFifoIn i)
    requests := t.requests ++ if DescriptorFetcher.takesReq (t.dfIn i) then [i.rmDfAddr] else []
    handles := t.handles ++ t.dfInFifo.accepted (t.dfInFifoIn i)
    popped := t.popped ++ if t.popsGood i then [i.dfOutDout] else []
    copies := t.copies ++ t.descToDmFifo.accepted (t.descToDmFifoIn i) }

/-- The condition: no request is accepted in a cycle in which the write on its way
    fills `df_in`, and no good descriptor is popped in a cycle in which that fills the
    data mover's FIFO. -/
def Legal (t : Fetching k m) (i : In) : Prop :=
  (DescriptorFetcher.takesReq (t.dfIn i) = true → ¬ Fills t.dfInFifo (t.dfInFifoIn i)) ∧
    (t.popsGood i = true → ¬ Fills t.descToDmFifo (t.descToDmFifoIn i))

instance (t : Fetching k m) (i : In) : Decidable (Legal t i) := inferInstanceAs (Decidable (_ ∧ _))

/-- Each accepted request is a stored handle, and each good descriptor a stored copy, but
    for the ones on their way, and no write meets a full FIFO. -/
structure Lossless (t : Fetching k m) : Prop where
  handles : t.requests.map DescriptorFetcher.handleOf = t.handles ++ DescriptorFetcher.heldHandle t.df
  copies : t.popped = t.copies ++ DescriptorFetcher.heldDesc t.df
  dfInRoom : t.df.dfInWrEn = true → t.dfInFifo.full = false
  dmInRoom : t.df.dmInWrEn = true → t.descToDmFifo.full = false

variable {t : Fetching k m} {i : In}

theorem popsGood_eq :
    t.popsGood i = (DescriptorFetcher.dfOutRdEn (t.dfIn i) &&
      !DescriptorFetcher.outOfRange i.dfOutDout) := by
  rw [popsGood, DescriptorFetcher.dfError]
  cases DescriptorFetcher.dfOutRdEn (t.dfIn i) <;> rfl

theorem handles_step (lossless : Lossless t) :
    (step t i).requests.map DescriptorFetcher.handleOf =
      (step t i).handles ++ DescriptorFetcher.heldHandle (step t i).df := by
  have new : (if DescriptorFetcher.takesReq (t.dfIn i) then [i.rmDfAddr] else []).map
      DescriptorFetcher.handleOf = DescriptorFetcher.heldHandle (step t i).df := by
    change _ = DescriptorFetcher.heldHandle (DescriptorFetcher.next t.df (t.dfIn i))
    rw [DescriptorFetcher.heldHandle_next]
    split <;> rfl
  -- what the register held is stored, and what is accepted now takes its place
  change (t.requests ++ _).map _ = (t.handles ++ t.dfInFifo.accepted (t.dfInFifoIn i)) ++ _
  rw [List.map_append, new]
  exact stored_step lossless.dfInRoom lossless.handles

theorem copies_step (lossless : Lossless t) :
    (step t i).popped = (step t i).copies ++ DescriptorFetcher.heldDesc (step t i).df := by
  have new : (if t.popsGood i then [i.dfOutDout] else []) =
      DescriptorFetcher.heldDesc (step t i).df := by
    change _ = DescriptorFetcher.heldDesc (DescriptorFetcher.next t.df (t.dfIn i))
    rw [DescriptorFetcher.heldDesc_next, popsGood_eq]
    cases DescriptorFetcher.dfOutRdEn (t.dfIn i) <;>
      cases bad : DescriptorFetcher.outOfRange i.dfOutDout <;> simp [bad, dfIn]
  change t.popped ++ _ = (t.copies ++ t.descToDmFifo.accepted (t.descToDmFifoIn i)) ++ _
  rw [new]
  exact stored_step lossless.dmInRoom lossless.copies

/-- The write of the next cycle meets a full FIFO exactly if this one fills it. -/
theorem dfInRoom_step_iff (ok : t.dfInFifo.Ok) :
    ((step t i).df.dfInWrEn = true → (step t i).dfInFifo.full = false) ↔
      (DescriptorFetcher.takesReq (t.dfIn i) = true → ¬ Fills t.dfInFifo (t.dfInFifoIn i)) := by
  have wrEn : (step t i).df.dfInWrEn = DescriptorFetcher.takesReq (t.dfIn i) := rfl
  rw [wrEn]
  refine forall_congr' fun takes => ?_
  -- a request is accepted only while `full` is low
  have room : t.dfInFifo.full = false := by
    simp only [DescriptorFetcher.takesReq, Bool.and_eq_true, Bool.not_eq_true'] at takes
    exact takes.1
  rw [← full_step_iff (Nat.succ_pos k) ok room, Bool.not_eq_true]
  rfl

theorem dmInRoom_step_iff (ok : t.descToDmFifo.Ok) :
    ((step t i).df.dmInWrEn = true → (step t i).descToDmFifo.full = false) ↔
      (t.popsGood i = true → ¬ Fills t.descToDmFifo (t.descToDmFifoIn i)) := by
  have wrEn : (step t i).df.dmInWrEn = t.popsGood i := popsGood_eq.symm
  rw [wrEn]
  refine forall_congr' fun pops => ?_
  have room : t.descToDmFifo.full = false := by
    simp only [popsGood, DescriptorFetcher.dfOutRdEn, Bool.and_eq_true, Bool.not_eq_true'] at pops
    exact pops.1.2
  rw [← full_step_iff (Nat.succ_pos m) ok room, Bool.not_eq_true]
  rfl

/-- Both FIFOs, and nothing lost so far. -/
structure Inv (t : Fetching k m) : Prop where
  dfIn : t.dfInFifo.Ok
  descToDm : t.descToDmFifo.Ok
  lossless : Lossless t

/-- One cycle loses nothing exactly if it meets the condition. -/
theorem Inv.step_iff (inv : Inv t) (i : In) : Inv (step t i) ↔ Legal t i := by
  constructor
  · intro inv'
    exact ⟨(dfInRoom_step_iff inv.dfIn).mp inv'.lossless.dfInRoom,
      (dmInRoom_step_iff inv.descToDm).mp inv'.lossless.dmInRoom⟩
  · rintro ⟨dfIn, descToDm⟩
    exact {
      dfIn := Fifo.ok_step inv.dfIn _
      descToDm := Fifo.ok_step inv.descToDm _
      lossless := {
        handles := handles_step inv.lossless
        copies := copies_step inv.lossless
        dfInRoom := (dfInRoom_step_iff inv.dfIn).mpr dfIn
        dmInRoom := (dmInRoom_step_iff inv.descToDm).mpr descToDm } }

theorem inv_start (dfIn : Fifo (k + 1) Handle) (descToDm : Fifo (m + 1) Desc) :
    Inv (start dfIn descToDm) where
  dfIn := Fifo.ok_reset dfIn
  descToDm := Fifo.ok_reset descToDm
  lossless := by constructor <;> simp [start, DescriptorFetcher.heldHandle,
    DescriptorFetcher.heldDesc, DescriptorFetcher.resetState]

theorem ok_run (dfIn : Fifo (k + 1) Handle) (descToDm : Fifo (m + 1) Desc) (is : List In) :
    (run step (start dfIn descToDm) is).dfInFifo.Ok ∧
      (run step (start dfIn descToDm) is).descToDmFifo.Ok :=
  run_invariant (P := fun t : Fetching k m => t.dfInFifo.Ok ∧ t.descToDmFifo.Ok)
    (fun _ _ ok => ⟨Fifo.ok_step ok.1 _, Fifo.ok_step ok.2 _⟩)
    ⟨Fifo.ok_reset dfIn, Fifo.ok_reset descToDm⟩ is

/-- The runs that lose nothing are those whose cycles meet the condition. -/
theorem lossless_iff (dfIn : Fifo (k + 1) Handle) (descToDm : Fifo (m + 1) Desc) {is : List In} :
    LegalRun step Legal (start dfIn descToDm) is ↔
      ∀ pre, pre <+: is → Lossless (run step (start dfIn descToDm) pre) := by
  -- the flags of both FIFOs are right in every run, so only `lossless` says something
  rw [legalRun_iff_always (fun _ i inv => inv.step_iff i) (inv_start dfIn descToDm)]
  refine forall_congr' fun pre => forall_congr' fun _ => ?_
  obtain ⟨okDfIn, okDescToDm⟩ := ok_run dfIn descToDm pre
  exact ⟨fun inv => inv.lossless, fun lossless => ⟨okDfIn, okDescToDm, lossless⟩⟩

/-- A cycle with or without a request, in which a handle is read or not. -/
def requestCycle (n : Nat) (valid reads : Bool) : In :=
  { fetchReqValid := valid, rmDfAddr := BitVec.ofNat 32 (16 * n), dfOutEmpty := true,
    dfOutDout := ⟨0, 0, 0, 0⟩, dfInRdEn := reads, dmInRdEn := false }

/-- A third request while the second one is written, and a handle is read in that cycle; then the
    FIFO fills up, and the fourth request waits until there is room again. -/
def spacedRequests : List In :=
  [requestCycle 0 true false, requestCycle 1 true false, requestCycle 2 true true, requestCycle 3 false false,
    requestCycle 3 true true, requestCycle 3 true false, requestCycle 4 false false]

/-- With two places a run that comes to a full FIFO loses nothing. -/
theorem lossless_when_spaced :
    let dfIn : Fifo 1 Handle := ⟨fun _ => ⟨0, 0⟩, 0, 0, ⟨0, 0⟩, true⟩
    let descToDm : Fifo 1 Desc := ⟨fun _ => ⟨0, 0, 0, 0⟩, 0, 0, ⟨0, 0, 0, 0⟩, true⟩
    let full := run step (start dfIn descToDm) (spacedRequests.take 4)
    let t := run step (start dfIn descToDm) spacedRequests
    Lossless t ∧ full.dfInFifo.full = true ∧ t.requests = [0, 16, 32, 48] := by
  intro dfIn descToDm full t
  have legal : LegalRun step Legal (start dfIn descToDm) spacedRequests := by decide
  exact ⟨(lossless_iff dfIn descToDm).mp legal spacedRequests List.prefix_rfl, by decide, by decide⟩

/-- Requests in four cycles on end, and no reader. -/
def fourRequests : List In := (List.range 4).map fun n => requestCycle n true false

/-- With two places the third request accepted is written to a full FIFO. -/
theorem third_request_lost :
    let dfIn : Fifo 1 Handle := ⟨fun _ => ⟨0, 0⟩, 0, 0, ⟨0, 0⟩, true⟩
    let descToDm : Fifo 1 Desc := ⟨fun _ => ⟨0, 0, 0, 0⟩, 0, 0, ⟨0, 0, 0, 0⟩, true⟩
    let t := run step (start dfIn descToDm) fourRequests
    ¬ Lossless t ∧ t.requests = [0, 16, 32] ∧ t.handles = [⟨0, 4⟩, ⟨16, 4⟩] ∧
      DescriptorFetcher.heldHandle t.df = [] := by
  intro dfIn descToDm t
  refine ⟨?_, by decide, by decide, by decide⟩
  intro lossless
  exact absurd lossless.handles (by decide)

end Fetching

end AxiDma.Verified
