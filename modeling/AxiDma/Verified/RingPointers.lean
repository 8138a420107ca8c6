import AxiDma.Lib.RingIndex
import AxiDma.Rtl.RingManager

/-! # HEAD and TAIL as residues of two counters

`RingView` reads the two 32-bit pointers as the residues of the number of accepted
requests and the number of posted descriptors.  One cycle, in which the ring
manager may accept a request and the producer may move TAIL, keeps it.
-/

namespace AxiDma.Verified

open AxiDma.Lib AxiDma.Rtl AxiDma.Rtl.RingManager

/-- A ring of `L` slots whose `posted - accepted` pending slots start at HEAD. -/
structure RingView (L : Nat) (head tail : Word) (accepted posted : Nat) : Prop where
  head_eq : head.toNat = accepted % L
  tail_eq : tail.toNat = posted % L
  le : accepted ≤ posted
  lt : posted < accepted + L

/-- The producer's rule for a move of TAIL to `tail'`: it stays, or it moves forward to
    an index of the ring without entering or passing the full condition. -/
def TailMove (L : Nat) (head tail tail' : Word) : Prop :=
  tail' = tail ∨
    tail'.toNat < L ∧
      slotDistance L head.toNat tail.toNat + slotDistance L tail.toNat tail'.toNat < L

instance (L : Nat) (head tail tail' : Word) : Decidable (TailMove L head tail tail') :=
  inferInstanceAs (Decidable (_ ∨ _))

namespace RingView

variable {L accepted posted : Nat} {head tail : Word}

theorem head_eq_tail_iff (view : RingView L head tail accepted posted) :
    head = tail ↔ posted = accepted := by
  rw [← BitVec.toNat_inj, view.head_eq, view.tail_eq, eq_comm, mod_eq_mod_iff view.le view.lt]

/-- A legal move of TAIL posts as many descriptors as it passes slots. -/
theorem post (view : RingView L head tail accepted posted) {tail' : Word}
    (move : TailMove L head tail tail') :
    RingView L head tail' accepted (posted + slotDistance L tail.toNat tail'.toNat) := by
  obtain rfl | ⟨bound, room⟩ := move
  · simpa using view
  · rw [view.head_eq, view.tail_eq, slotDistance_mod view.le view.lt] at room
    have le := view.le
    refine ⟨view.head_eq, ?_, by omega, ?_⟩
    · rw [view.tail_eq, add_slotDistance_mod bound]
    · rw [view.tail_eq]
      omega

end RingView

namespace RingManager

variable {maxInflight : Nat} {s : State maxInflight} {i : In}

theorem toNat_headPtrNext_of_fetchHs (hs : fetchHs s i = true)
    (bound : s.head.toNat < i.csr.ringlen.toNat) :
    (headPtrNext s i).toNat = nextSlot i.csr.ringlen.toNat s.head.toNat := by
  have length := i.csr.ringlen.isLt
  have one : (1 : Word).toNat = 1 := rfl
  have last : (i.csr.ringlen - 1).toNat = i.csr.ringlen.toNat - 1 :=
    BitVec.toNat_sub_of_le (by rw [BitVec.le_def, one]; omega)
  have wraps : s.head = i.csr.ringlen - 1 ↔ s.head.toNat = i.csr.ringlen.toNat - 1 := by
    rw [← BitVec.toNat_inj, last]
  rw [headPtrNext, if_pos hs, nextSlot]
  by_cases wrap : s.head.toNat = i.csr.ringlen.toNat - 1
  · rw [if_pos (wraps.mpr wrap), if_pos wrap]
    rfl
  · rw [if_neg (mt wraps.mp wrap), if_neg wrap, BitVec.toNat_add, one, Nat.mod_eq_of_lt (by omega)]

/-- An accepted request moves HEAD by one slot, a quiet cycle leaves it. -/
theorem ringView_accept {L accepted posted : Nat}
    (view : RingView L s.head i.csr.tail accepted posted)
    (ringLength : fetchHs s i = true → i.csr.ringlen.toNat = L) :
    (headPtrNext s i).toNat = (accepted + (fetchHs s i).toNat) % L ∧
      accepted + (fetchHs s i).toNat ≤ posted := by
  cases hs : fetchHs s i with
  | false => exact ⟨by simpa [headPtrNext, hs] using view.head_eq, view.le⟩
  | true =>
    have length := ringLength hs
    have pos : 0 < L := by
      have := (fetchHs_iff.mp hs).2.2.1
      rw [BitVec.lt_def, length] at this
      exact this
    have bound : s.head.toNat < i.csr.ringlen.toNat := by
      rw [length, view.head_eq]
      exact Nat.mod_lt _ pos
    have pending : posted ≠ accepted := mt view.head_eq_tail_iff.mpr (fetchHs_iff.mp hs).1
    have le := view.le
    refine ⟨?_, by rw [Bool.toNat_true]; omega⟩
    rw [toNat_headPtrNext_of_fetchHs hs bound, length, view.head_eq, nextSlot_mod pos]
    rfl

/-- One cycle of the ring: a request may be accepted while TAIL moves. -/
theorem ringView_step {L accepted posted : Nat} {tail' : Word}
    (view : RingView L s.head i.csr.tail accepted posted)
    (ringLength : fetchHs s i = true → i.csr.ringlen.toNat = L)
    (move : TailMove L s.head i.csr.tail tail') :
    RingView L (headPtrNext s i) tail' (accepted + (fetchHs s i).toNat)
      (posted + slotDistance L i.csr.tail.toNat tail'.toNat) := by
  obtain ⟨headEq, le⟩ := ringView_accept view ringLength
  have moved := view.post move
  have near := moved.lt
  exact ⟨headEq, moved.tail_eq, by omega, by omega⟩

end RingManager

end AxiDma.Verified
