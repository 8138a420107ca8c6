import Mathlib.Data.Nat.ModEq

/-! # Indices of a ring of `L` slots

Two unbounded counters, `done ≤ posted < done + L`, seen through their residues.
-/

namespace AxiDma.Lib

/-- The next slot index, wrapping after `L - 1`. -/
def nextSlot (L h : Nat) : Nat := if h = L - 1 then 0 else h + 1

theorem nextSlot_mod {L : Nat} (pos : 0 < L) (n : Nat) : nextSlot L (n % L) = (n + 1) % L := by
  have bound := Nat.mod_lt n pos
  rw [nextSlot, ← Nat.mod_add_mod n L 1]
  split
  · have full : n % L + 1 = L := by omega
    rw [full, Nat.mod_self]
  · exact (Nat.mod_eq_of_lt (by omega)).symm

theorem nextSlot_of_lt {L h : Nat} (bound : h < L) : nextSlot L h = (h + 1) % L := by
  have shift := nextSlot_mod (Nat.zero_lt_of_lt bound) h
  rwa [Nat.mod_eq_of_lt bound] at shift

/-- Within one turn, equal residues are equal counters. -/
theorem mod_eq_mod_iff {L lo hi : Nat} (le : lo ≤ hi) (near : hi < lo + L) :
    hi % L = lo % L ↔ hi = lo := by
  constructor
  · intro same
    have turns : L ∣ hi - lo := (Nat.modEq_iff_dvd' le).mp same.symm
    by_contra other
    exact absurd (Nat.le_of_dvd (by omega) turns) (by omega)
  · rintro rfl
    rfl

/-- Number of slots from index `a` forward to index `b`. -/
def slotDistance (L a b : Nat) : Nat := (b + L - a) % L

@[simp] theorem slotDistance_self (L a : Nat) : slotDistance L a a = 0 := by
  rw [slotDistance, Nat.add_sub_cancel_left, Nat.mod_self]

/-- Within one turn, the distance of the residues is the distance of the counters. -/
theorem slotDistance_mod {L lo hi : Nat} (le : lo ≤ hi) (near : hi < lo + L) :
    slotDistance L (lo % L) (hi % L) = hi - lo := by
  have loBound := Nat.mod_lt lo (by omega : 0 < L)
  have same : hi % L + L - lo % L + lo ≡ hi - lo + lo [MOD L] := by
    have split : hi % L + L - lo % L + lo = hi % L + (L * (lo / L) + L) := by
      have := Nat.mod_add_div lo L
      omega
    rw [Nat.sub_add_cancel le, split, ← Nat.mul_succ]
    exact (Nat.add_mul_mod_self_left ..).trans (Nat.mod_mod ..)
  have cancel := Nat.ModEq.add_right_cancel' lo same
  rw [slotDistance, cancel, Nat.mod_eq_of_lt (by omega)]

/-- Moving a residue forward by its distance to another index reaches it. -/
theorem add_slotDistance_mod {L n b : Nat} (bound : b < L) :
    (n + slotDistance L (n % L) b) % L = b := by
  have residue := Nat.mod_lt n (by omega : 0 < L)
  have turn : n % L + (b + L - n % L) = b + L := by omega
  rw [slotDistance, Nat.add_mod_mod, ← Nat.mod_add_mod, turn, Nat.add_mod_right,
    Nat.mod_eq_of_lt bound]

end AxiDma.Lib
