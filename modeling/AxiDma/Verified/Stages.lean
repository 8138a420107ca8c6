import AxiDma.Rtl.MovementTop
import AxiDma.Verified.AxiBursts
import AxiDma.Verified.FifoQueue

/-! # The stages of the descriptor path

For each module between two FIFOs: what it holds, and that a cycle takes in and hands on
exactly that (`heldHandle_next`, `heldDesc_next`, `held_next`, `fetchSide_step`).  A
FIFO between two modules is the pair of its logs, `Logged`.
-/

namespace AxiDma.Verified

open AxiDma.Lib AxiDma.Rtl

/-! ## FIFOs -/

/-- Everything written to a FIFO and everything taken from it. -/
structure Logged (α : Type) where
  into : List α
  outOf : List α
  deriving DecidableEq

namespace Logged

variable {k : Nat} {α : Type}

def none : Logged α := ⟨[], []⟩

def step (l : Logged α) (f : Fifo k α) (i : Fifo.In α) : Logged α :=
  { into := l.into ++ Fifo.written i, outOf := l.outOf ++ f.taken i }

theorem length_outOf_step (l : Logged α) (f : Fifo k α) (i : Fifo.In α) :
    (l.step f i).outOf.length = l.outOf.length + i.rdEn.toNat := by
  rw [step, List.length_append, Fifo.length_taken]

/-- The FIFO holds what was written and not taken. -/
structure Holds (l : Logged α) (f : Fifo k α) : Prop where
  ok : f.Ok
  held : l.into = l.outOf ++ f.contents

theorem holds_reset (f : Fifo k α) : (none : Logged α).Holds f.reset :=
  ⟨Fifo.ok_reset f, (Fifo.contents_reset f).symm⟩

theorem Holds.step {l : Logged α} {f : Fifo k α} (holds : l.Holds f) {i : Fifo.In α}
    (respects : f.Respects i) : (l.step f i).Holds (f.step i) :=
  ⟨Fifo.ok_step holds.ok i, respects.conserve holds.ok holds.held⟩

theorem Holds.initial {l : Logged α} {f : Fifo k α} (holds : l.Holds f) : l.outOf <+: l.into :=
  ⟨f.contents, holds.held.symm⟩

theorem Holds.length {l : Logged α} {f : Fifo k α} (holds : l.Holds f) :
    l.into.length = l.outOf.length + f.contents.length := by
  rw [holds.held, List.length_append]

/-- The word a FIFO shows was written to it. -/
theorem Holds.dout_mem {l : Logged α} {f : Fifo k α} (holds : l.Holds f)
    (shows : f.empty = false) : f.dout ∈ l.into := by
  rw [holds.held, holds.ok.contents_eq_cons shows]
  simp

end Logged

/-! ## Descriptor fetcher -/

namespace DescriptorFetcher

open AxiDma.Rtl.DescriptorFetcher

/-- The handle on its way to the FIFO. -/
def heldHandle (s : State) : List Handle := if s.dfInWrEn then [s.dfInDin] else []

def heldDesc (s : State) : List Desc := if s.dmInWrEn then [s.dmInDin] else []

theorem heldHandle_next (s : State) (i : In) :
    heldHandle (next s i) = if takesReq i then [handleOf i.rmDfAddr] else [] := by
  cases takes : takesReq i <;> simp [heldHandle, next, takes]

/-- A popped descriptor is handed on unless it is out of range. -/
theorem heldDesc_next (s : State) (i : In) :
    heldDesc (next s i) =
      (if dfOutRdEn i then [i.dfOutDout] else []).filter (!outOfRange ·) := by
  cases pops : dfOutRdEn i <;> cases bad : outOfRange i.dfOutDout <;>
    simp [heldDesc, next, pops, bad]

/-- `df_error` pulses exactly with a popped descriptor that is out of range. -/
theorem dfError_eq (i : In) :
    (if dfError i then [i.dfOutDout] else []) =
      (if dfOutRdEn i then [i.dfOutDout] else []).filter outOfRange := by
  cases pops : dfOutRdEn i <;> cases bad : outOfRange i.dfOutDout <;> simp [dfError, pops, bad]

end DescriptorFetcher

/-! ## Data mover -/

namespace DataMover

open AxiDma.Rtl.DataMover

/-- The descriptor being turned into an instruction pair. -/
def held (s : State) : List Desc := if s.state = .getData then [] else [s.inputData]

/-- The pair that is sent is the one of the descriptor held. -/
def Decoded (s : State) : Prop :=
  s.state = .sendInstr →
    s.instrAxi = decodeAxi s.inputData ∧ s.instrSram = decodeSram s.inputData

theorem held_next (s : State) (i : In) :
    held s ++ (if dfDmInRdEn s i then [i.dfDmInDout] else []) =
      (if wrEn s i then [s.inputData] else []) ++ held (next s i) := by
  cases state : s.state with
  | getData => cases empty : i.dfDmInEmpty <;> simp [held, dfDmInRdEn, wrEn, next, state, empty]
  | decode => simp [held, dfDmInRdEn, wrEn, next, state]
  | sendInstr =>
    cases sramFull : i.dmSramOutFull <;> cases axiFull : i.dmAxiOutFull <;>
      simp [held, dfDmInRdEn, wrEn, next, state, sramFull, axiFull]

theorem decoded_next {s : State} (decoded : Decoded s) (i : In) : Decoded (next s i) := by
  intro sends
  cases state : s.state with
  | getData => cases empty : i.dfDmInEmpty <;> simp [next, state, empty] at sends
  | decode => simp [next, state]
  | sendInstr =>
    cases sramFull : i.dmSramOutFull <;> cases axiFull : i.dmAxiOutFull <;>
      simp_all [next, Decoded]

end DataMover

/-! ## Descriptor reads of the AXI master -/

/-- A read of a descriptor: its address and its words. -/
structure DescRead where
  addr : Word
  words : List Word
  deriving DecidableEq, Repr

/-- The descriptor of up to four words; missing ones are 0. -/
def packDesc (ws : List Word) : Desc :=
  { w0 := ws.getD 0 0, w1 := ws.getD 1 0, w2 := ws.getD 2 0, w3 := ws.getD 3 0 }

theorem packDesc_snoc {ws : List Word} {idx : BitVec 8} (short : ws.length < 4)
    (at' : idx.toNat = ws.length) (w : Word) :
    (packDesc ws).setWord idx w = packDesc (ws ++ [w]) := by
  unfold Desc.setWord
  rw [at']
  match ws, short with
  | [], _ => rfl
  | [_], _ => rfl
  | [_, _], _ => rfl
  | [_, _, _], _ => rfl

namespace AxiMaster

open AxiDma.Rtl.AxiMaster

variable {s : State} {i : In} {rLeft : Nat}

/-- The reads on the bus: those finished, and the one whose beats are coming in. -/
structure Reads where
  finished : List DescRead
  current : DescRead
  deriving DecidableEq

/-- The reads after a cycle: an accepted AR of `dfAr` begins one, `rlast` ends it. -/
def Reads.step (r : Reads) (s : State) (m : Axi4Master) (o : Axi4Slave) : Reads :=
  if s.state = .dfAr ∧ arHs m o = true then { r with current := ⟨m.araddr, []⟩ }
  else if s.state = .dfR ∧ rHs m o = true then
    let read : DescRead := ⟨r.current.addr, r.current.words ++ [o.rdata]⟩
    if o.rlast then { r with finished := r.finished ++ [read] } else { r with current := read }
  else r

/-- The address of a handle that was taken and whose read is not finished. -/
def heldAddr (s : State) (r : Reads) : List Word :=
  match s.state with
  | .dfAr => [s.curAddr]
  | .dfR => [r.current.addr]
  | _ => []

/-- The descriptor that was read and not pushed. -/
def heldDesc (s : State) : List Desc := if s.state = .dfPush then [s.descBuf] else []

/-- The burst of a descriptor read. -/
def FetchBurst (s : State) (r : Reads) (rLeft : Nat) : Prop :=
  match s.state with
  | .dfAr => s.curLen = 4 ∧ s.beatIdx = 0 ∧ s.descBuf = packDesc []
  | .dfR =>
    r.current.words.length + rLeft = 4 ∧ s.beatIdx.toNat = r.current.words.length ∧
      s.descBuf = packDesc r.current.words
  | _ => True

/-- Handles taken, reads and descriptors pushed, at the AXI master. -/
structure FetchSide (s : State) (rLeft : Nat) (handles : List Handle) (r : Reads)
    (fetched : List Desc) : Prop where
  addrs : handles.map Handle.addr = r.finished.map DescRead.addr ++ heldAddr s r
  descs : r.finished.map (packDesc ∘ DescRead.words) = fetched ++ heldDesc s
  four : ∀ read ∈ r.finished, read.words.length = 4
  burst : FetchBurst s r rLeft

theorem fetchSide_step {handles : List Handle} {r : Reads} {fetched : List Desc}
    (side : FetchSide s rLeft handles r fetched) (slave : SlaveLegal rLeft i.axi)
    (fourBeats : s.state = .dfGet → i.dfInDout.len = 4) :
    FetchSide (next s i) (rLeftNext rLeft (out s i).axi i.axi)
      (handles ++ if (out s i).dfInRdEn then [i.dfInDout] else [])
      (r.step s (out s i).axi i.axi)
      (fetched ++ if (out s i).dfOutWrEn then [(out s i).dfOutDin] else []) := by
  obtain ⟨addrs, descs, four, burst⟩ := side
  rw [dfInRdEn_eq, dfOutWrEn_eq]
  cases state : s.state with
  | dfGet =>
    have len := fourBeats state
    refine ⟨?_, ?_, ?_, ?_⟩ <;>
      simp_all [heldAddr, heldDesc, FetchBurst, Reads.step, next, comb, packDesc]
  | dfAr =>
    cases ready : i.axi.arready with
    | false =>
      have stays : next s i = s := by simp [next, comb, state, ready]
      have noHs : arHs (out s i).axi i.axi = false := by simp [arHs, ready]
      refine ⟨?_, ?_, ?_, ?_⟩ <;>
        simp_all [heldAddr, heldDesc, FetchBurst, Reads.step]
    | true =>
      refine ⟨?_, ?_, ?_, ?_⟩ <;>
        simp_all [heldAddr, heldDesc, FetchBurst, Reads.step, next, out, comb, defaultOut, arHs,
          rLeftNext, burstLen]
  | dfR =>
    -- a beat extends the read in progress, and the last one finishes it
    cases valid : i.axi.rvalid with
    | false =>
      have stays : next s i = s := by simp [next, comb, state, valid]
      refine ⟨?_, ?_, ?_, ?_⟩ <;>
        simp_all [heldAddr, heldDesc, FetchBurst, Reads.step, rLeftNext, rHs, arHs, out, comb,
          defaultOut]
    | true =>
      obtain ⟨left, last⟩ := slave valid
      simp only [FetchBurst, state] at burst
      obtain ⟨total, idx, buf⟩ := burst
      have pack := packDesc_snoc (by omega) idx i.axi.rdata
      have beat : rHs (out s i).axi i.axi = true := by
        simp [rHs, valid, out, comb, state]
      have noAr : arHs (out s i).axi i.axi = false := by
        simp [arHs, out, comb, defaultOut, state]
      have up : (s.beatIdx + 1).toNat = r.current.words.length + 1 := by
        rw [BitVec.toNat_add, idx]
        exact Nat.mod_eq_of_lt (by change r.current.words.length + 1 < 256; omega)
      cases final : i.axi.rlast with
      | false =>
        have more : rLeft ≠ 1 := by simpa [final] using last.symm
        have rest : r.current.words.length + 1 + (rLeft - 1) = 4 := by omega
        refine ⟨?_, ?_, ?_, ?_⟩ <;>
          simp_all [heldAddr, heldDesc, FetchBurst, Reads.step, next, comb, rLeftNext]
      | true =>
        -- `rlast` comes with the fourth word
        have one : rLeft = 1 := by simpa [final] using last.symm
        refine ⟨?_, ?_, ?_, ?_⟩ <;>
          simp_all [heldAddr, heldDesc, FetchBurst, Reads.step, next, comb]
        rintro read (before | rfl)
        · exact four read before
        · simp [total]
  | dfPush =>
    cases full : i.dfOutFull <;> refine ⟨?_, ?_, ?_, ?_⟩ <;>
      simp_all [heldAddr, heldDesc, FetchBurst, Reads.step, next, out, comb, defaultOut]
  | idle | dmGet | dmRdAr | dmRdR | dmWrAw | dmWrW | dmWrB | waitSram =>
    -- no fetch is in progress before or after the cycle
    have elsewhere : (next s i).state ≠ .dfAr ∧ (next s i).state ≠ .dfR ∧
        (next s i).state ≠ .dfPush := by
      grind [next, comb]
    refine ⟨?_, ?_, ?_, ?_⟩ <;>
      simp_all [heldAddr, heldDesc, FetchBurst, Reads.step]

end AxiMaster

end AxiDma.Verified
