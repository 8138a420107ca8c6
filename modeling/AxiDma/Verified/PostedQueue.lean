import AxiDma.Lib.Run
import AxiDma.Verified.RingPointers

/-! # The ring manager as a queue of posted descriptors

The producer moves TAIL, the ring manager accepts requests; both pointers wrap at
RINGLEN.  `Posting` counts the slots TAIL has passed and logs the accepted requests,
without a bound.  `ring_refines_queue` reads the pointers and the addresses off these
two: the requests are for the posted descriptors, one each and in order.
-/

namespace AxiDma.Verified

open AxiDma.Lib AxiDma.Rtl

/-- The ring manager, TAIL of the last cycle, the slots TAIL has passed so far and the
    addresses of the accepted requests. -/
structure Posting (maxInflight : Nat) where
  rm : RingManager.State maxInflight
  tail : Word
  posted : Nat
  requests : List Word
  deriving DecidableEq

namespace Posting

variable {maxInflight : Nat}

def start (maxInflight : Nat) : Posting maxInflight :=
  { rm := RingManager.resetState maxInflight, tail := 0, posted := 0, requests := [] }

/-- The descriptors posted up to this cycle. -/
def postedNow (q : Posting maxInflight) (i : RingManager.In) : Nat :=
  q.posted + slotDistance i.csr.ringlen.toNat q.tail.toNat i.csr.tail.toNat

def step (q : Posting maxInflight) (i : RingManager.In) : Posting maxInflight :=
  { rm := RingManager.step q.rm i
    tail := i.csr.tail
    posted := postedNow q i
    requests := q.requests ++
      if RingManager.fetchHs q.rm i then [RingManager.rmDfAddr q.rm i.csr] else [] }

/-- No reset, a fixed ring, and TAIL moves by the producer's rule; ENABLE, the window, the
    fetcher, completions, errors and clears are free. -/
structure Legal (baseaddr ringlen : Word) (q : Posting maxInflight) (i : RingManager.In) :
    Prop where
  rstN : i.rstN = true
  reset : i.csr.reset = false
  base : i.csr.baseaddr = baseaddr
  length : i.csr.ringlen = ringlen
  tailMove : TailMove ringlen.toNat q.rm.head q.tail i.csr.tail

instance (baseaddr ringlen : Word) (q : Posting maxInflight) (i : RingManager.In) :
    Decidable (Legal baseaddr ringlen q i) :=
  decidable_of_iff
    (i.rstN = true ∧ i.csr.reset = false ∧ i.csr.baseaddr = baseaddr ∧ i.csr.ringlen = ringlen ∧
      TailMove ringlen.toNat q.rm.head q.tail i.csr.tail)
    ⟨fun ⟨rstN, reset, base, length, tailMove⟩ => ⟨rstN, reset, base, length, tailMove⟩,
     fun ⟨rstN, reset, base, length, tailMove⟩ => ⟨rstN, reset, base, length, tailMove⟩⟩

/-- The address of the `n`-th descriptor of a ring of `L` slots. -/
def slotAddr (baseaddr : Word) (L n : Nat) : Nat := (baseaddr.toNat + 16 * (n % L)) % 2 ^ 32

/-- The pointers are the residues of the counters, and the `n`-th request is for the
    `n`-th descriptor. -/
structure Inv (baseaddr ringlen : Word) (q : Posting maxInflight) : Prop where
  view : RingView ringlen.toNat q.rm.head q.tail q.requests.length q.posted
  requests : ∀ n a, q.requests[n]? = some a → a.toNat = slotAddr baseaddr ringlen.toNat n

variable {baseaddr ringlen : Word} {q : Posting maxInflight} {i : RingManager.In}

theorem inv_start (pos : 0 < ringlen.toNat) : Inv baseaddr ringlen (start maxInflight) where
  view := ⟨by simp [start, RingManager.resetState], by simp [start], le_refl _, by simpa [start]⟩
  requests := by simp [start]

/-! ## One cycle -/

/-- In the cycle itself TAIL has moved and HEAD has not. -/
theorem Inv.viewNow (inv : Inv baseaddr ringlen q) (legal : Legal baseaddr ringlen q i) :
    RingView ringlen.toNat q.rm.head i.csr.tail q.requests.length (postedNow q i) := by
  rw [postedNow, legal.length]
  exact inv.view.post legal.tailMove

theorem toNat_rmDfAddr {L n : Nat} (legal : i.csr.baseaddr = baseaddr)
    (head : q.rm.head.toNat = n % L) :
    (RingManager.rmDfAddr q.rm i.csr).toNat = slotAddr baseaddr L n := by
  have size : (descriptorSize : Word).toNat = 16 := rfl
  rw [RingManager.rmDfAddr, legal, BitVec.toNat_add, BitVec.toNat_mul, head, size, Nat.add_mod_mod,
    Nat.mul_comm, slotAddr]

theorem length_requests_step :
    (step q i).requests.length = q.requests.length + (RingManager.fetchHs q.rm i).toNat := by
  cases hs : RingManager.fetchHs q.rm i <;> simp [step, hs]

theorem Inv.step (inv : Inv baseaddr ringlen q) (legal : Legal baseaddr ringlen q i) :
    Inv baseaddr ringlen (step q i) where
  view := by
    have now := inv.viewNow legal
    obtain ⟨head, le⟩ := RingManager.ringView_accept now fun _ => by rw [legal.length]
    have room := now.lt
    rw [length_requests_step]
    show RingView _ (RingManager.step q.rm i).head i.csr.tail _ (postedNow q i)
    rw [RingManager.step_of_run legal.rstN legal.reset]
    exact ⟨head, now.tail_eq, le, by omega⟩
  requests := by
    intro n a request
    cases hs : RingManager.fetchHs q.rm i with
    | false => exact inv.requests n a (by simpa [Posting.step, hs] using request)
    | true =>
      have log : (q.requests ++ [RingManager.rmDfAddr q.rm i.csr])[n]? = some a := by
        simpa [Posting.step, hs] using request
      -- the new request is the last one
      rcases Nat.lt_or_ge n q.requests.length with old | new
      · rw [List.getElem?_append_left old] at log
        exact inv.requests n a log
      · rw [List.getElem?_append_right new] at log
        obtain ⟨last, rfl⟩ : n - q.requests.length = 0 ∧ RingManager.rmDfAddr q.rm i.csr = a := by
          simpa [List.getElem?_singleton] using log
        obtain rfl : n = q.requests.length := by omega
        exact toNat_rmDfAddr legal.base inv.view.head_eq

theorem Inv.run {is : List RingManager.In} (pos : 0 < ringlen.toNat)
    (runs : LegalRun Posting.step (Legal baseaddr ringlen) (start maxInflight) is) :
    Inv baseaddr ringlen (run Posting.step (start maxInflight) is) :=
  runs.invariant (fun _ _ inv legal => inv.step legal) (inv_start pos)

end Posting

/-- The ring manager refines a queue of posted descriptors.  In every cycle of a run
    with a fixed ring and no reset, HEAD and TAIL are the residues of `issued` and
    `posted`, which are less than RINGLEN apart; the ring is empty exactly if they are
    equal; and the `n`-th request goes to the `n`-th posted descriptor. -/
theorem ring_refines_queue {maxInflight : Nat} {baseaddr ringlen : Word}
    (pos : 0 < ringlen.toNat) {is : List RingManager.In} {i : RingManager.In}
    (runs : LegalRun Posting.step (Posting.Legal baseaddr ringlen) (Posting.start maxInflight)
      (is ++ [i])) :
    let q := run Posting.step (Posting.start maxInflight) is
    let issued := q.requests.length
    let posted := Posting.postedNow q i
    (issued ≤ posted ∧ posted ≤ issued + ringlen.toNat - 1) ∧
      q.rm.head.toNat = issued % ringlen.toNat ∧ i.csr.tail.toNat = posted % ringlen.toNat ∧
        (RingManager.ringEmpty q.rm i.csr = true ↔ issued = posted) ∧
          ∀ n a, (Posting.step q i).requests[n]? = some a →
            n < posted ∧ a.toNat = Posting.slotAddr baseaddr ringlen.toNat n := by
  obtain ⟨before, legal⟩ := legalRun_snoc.mp runs
  have inv := Posting.Inv.run pos before
  have now := inv.viewNow legal
  have room := now.lt
  intro q issued posted
  refine ⟨⟨now.le, Nat.le_sub_one_of_lt room⟩, now.head_eq, now.tail_eq, ?_, fun n a request => ⟨?_, ?_⟩⟩
  · rw [RingManager.ringEmpty, beq_iff_eq, now.head_eq_tail_iff, eq_comm]
  · have short := (List.getElem?_eq_some_iff.mp request).1
    exact Nat.lt_of_lt_of_le short (inv.step legal).view.le
  · exact (inv.step legal).requests n a request

namespace Posting

/-- A ring of two slots at address 256 with its fetcher ready, and TAIL at `tail`. -/
def ready (tail : Word) : RingManager.In :=
  { rstN := true
    csr :=
      { baseaddr := 256, ringlen := 2, tail := tail, enable := true, reset := false, irqEn := false,
        errorClear := false }
    fetchReqReady := true
    dfError := false
    asDone := false }

/-- The third descriptor lies in the first slot again. -/
theorem third_request_wraps :
    let q := run step (start 4) [ready 0, ready 1, ready 0]
    2 < postedNow q (ready 1) ∧ (256 : Word).toNat = slotAddr 256 2 2 := by
  have runs : LegalRun step (Legal 256 2) (start 4) ([ready 0, ready 1, ready 0] ++ [ready 1]) := by
    decide
  obtain ⟨-, -, -, -, requests⟩ := ring_refines_queue (by decide) runs
  exact requests 2 256 (by decide)

end Posting

end AxiDma.Verified
