import Mathlib.Data.BitVec
import Mathlib.Logic.Function.Iterate
import Mathlib.Tactic.Ring

/-! # The cells of a circular buffer

A circular buffer is read through a pointer that some `next` moves on, wrapping
as it likes.  `cells read next p n` lists the `n` cells from `p` on; popping
moves `p`, pushing appends the cell `n` places further.
-/

namespace AxiDma.Lib

variable {π α : Type*}

/-- The contents of `n` consecutive cells, the one under `p` first. -/
def cells (read : π → α) (next : π → π) : π → Nat → List α
  | _, 0 => []
  | p, n + 1 => read p :: cells read next (next p) n

variable {read read' : π → α} {next : π → π}

@[simp] theorem cells_zero (p : π) : cells read next p 0 = [] := rfl

@[simp] theorem cells_succ (p : π) (n : Nat) :
    cells read next p (n + 1) = read p :: cells read next (next p) n := rfl

@[simp] theorem length_cells (p : π) (n : Nat) : (cells read next p n).length = n := by
  induction n generalizing p with
  | zero => rfl
  | succ n ih => simp [ih]

theorem cells_snoc (p : π) (n : Nat) :
    cells read next p (n + 1) = cells read next p n ++ [read (next^[n] p)] := by
  induction n generalizing p with
  | zero => rfl
  | succ n ih =>
    rw [cells_succ, ih (next p), cells_succ, Function.iterate_succ_apply]
    rfl

/-- Two buffers that agree on the cells of a window have the same window. -/
theorem cells_congr {p : π} {n : Nat}
    (agree : ∀ j < n, read (next^[j] p) = read' (next^[j] p)) :
    cells read next p n = cells read' next p n := by
  induction n generalizing p with
  | zero => rfl
  | succ n ih =>
    have first : read p = read' p := agree 0 (Nat.succ_pos n)
    have rest : cells read next (next p) n = cells read' next (next p) n := by
      apply ih
      intro j bound
      simpa only [Function.iterate_succ_apply] using agree (j + 1) (Nat.succ_lt_succ bound)
    rw [cells_succ, cells_succ, first, rest]

/-! ## Pointers with a wrap bit

A pointer of `k + 1` bits into a buffer of `2 ^ k` cells: the low `k` bits index
the buffer and the top bit tells a full buffer from an empty one. -/

section WrapBit

variable {k : Nat}

theorem iterate_add_one (p : BitVec k) (n : Nat) :
    (fun q : BitVec k => q + 1)^[n] p = p + BitVec.ofNat k n := by
  induction n with
  | zero => simp
  | succ n ih =>
    rw [Function.iterate_succ_apply', ih, BitVec.add_assoc, BitVec.ofNat_add]
    rfl

/-- The number of cells between two pointers. -/
def distance (rd wr : BitVec (k + 1)) : Nat := (wr - rd).toNat

theorem add_distance (rd wr : BitVec (k + 1)) :
    rd + BitVec.ofNat (k + 1) (distance rd wr) = wr := by
  rw [distance, BitVec.ofNat_toNat, BitVec.setWidth_eq, BitVec.add_comm, BitVec.sub_add_cancel]

theorem distance_eq_zero_iff {rd wr : BitVec (k + 1)} : distance rd wr = 0 ↔ wr = rd := by
  constructor
  · intro none
    have := add_distance rd wr
    rw [none] at this
    simpa using this.symm
  · rintro rfl
    simp [distance]

theorem distance_advance_wr {rd wr : BitVec (k + 1)} (room : distance rd wr < 2 ^ k) :
    distance rd (wr + 1) = distance rd wr + 1 := by
  have shift : wr + 1 - rd = (wr - rd) + 1 := by ring
  have pow : 2 ^ (k + 1) = 2 * 2 ^ k := by rw [Nat.pow_succ, Nat.mul_comm]
  have one : (1 : BitVec (k + 1)).toNat = 1 := by simp
  unfold distance at room ⊢
  rw [shift, BitVec.toNat_add, one, Nat.mod_eq_of_lt (by omega)]

theorem distance_advance_rd {rd wr : BitVec (k + 1)} (some : distance rd wr ≠ 0) :
    distance (rd + 1) wr = distance rd wr - 1 := by
  have shift : wr - (rd + 1) = (wr - rd) - 1 := by ring
  have one : (1 : BitVec (k + 1)).toNat = 1 := by simp
  have small := (wr - rd).isLt
  unfold distance at some ⊢
  rw [shift, BitVec.toNat_sub, one]
  have split : 2 ^ (k + 1) - 1 + (wr - rd).toNat = (wr - rd).toNat - 1 + 2 ^ (k + 1) := by omega
  rw [split, Nat.add_mod_right, Nat.mod_eq_of_lt (by omega)]

/-- Pointers that agree in the index and differ in the wrap bit are `2 ^ k` cells apart. -/
theorem distance_eq_two_pow_iff {rd wr : BitVec (k + 1)} :
    distance rd wr = 2 ^ k ↔ wr.setWidth k = rd.setWidth k ∧ wr.msb ≠ rd.msb := by
  have pow : 2 ^ (k + 1) = 2 * 2 ^ k := by rw [Nat.pow_succ, Nat.mul_comm]
  have rdBound := rd.isLt
  have wrBound := wr.isLt
  have index : ∀ {x : Nat}, x < 2 * 2 ^ k →
      x % 2 ^ k = if 2 ^ k ≤ x then x - 2 ^ k else x := by
    intro x bound
    split
    · rw [Nat.mod_eq_sub_mod ‹_›, Nat.mod_eq_of_lt (by omega)]
    · exact Nat.mod_eq_of_lt (by omega)
  have apart : distance rd wr =
      if rd.toNat ≤ wr.toNat then wr.toNat - rd.toNat else wr.toNat + 2 * 2 ^ k - rd.toNat := by
    rw [distance, BitVec.toNat_sub, pow]
    split
    · have turn : 2 * 2 ^ k - rd.toNat + wr.toNat = wr.toNat - rd.toNat + 2 * 2 ^ k := by omega
      rw [turn, Nat.add_mod_right, Nat.mod_eq_of_lt (by omega)]
    · rw [Nat.mod_eq_of_lt (by omega)]
      omega
  rw [apart, ← BitVec.toNat_inj, BitVec.toNat_setWidth, BitVec.toNat_setWidth,
    index (by omega), index (by omega), BitVec.msb_eq_decide, BitVec.msb_eq_decide,
    Nat.add_sub_cancel, ne_eq, decide_eq_decide]
  split <;> split <;> split <;> omega

/-- Cells less than `2 ^ k` apart have different indices. -/
theorem setWidth_add_ne {p : BitVec (k + 1)} {i j : Nat} (less : i < j) (near : j < i + 2 ^ k) :
    (p + BitVec.ofNat (k + 1) i).setWidth k ≠ (p + BitVec.ofNat (k + 1) j).setWidth k := by
  intro same
  rw [BitVec.setWidth_add _ _ (Nat.le_succ k), BitVec.setWidth_add _ _ (Nat.le_succ k),
    BitVec.add_right_inj, BitVec.setWidth_ofNat_of_le (Nat.le_succ k),
    BitVec.setWidth_ofNat_of_le (Nat.le_succ k)] at same
  have mods : i % 2 ^ k = j % 2 ^ k := by simpa using congrArg BitVec.toNat same
  have turns : 2 ^ k ∣ j - i := (Nat.modEq_iff_dvd' less.le).mp mods
  exact absurd (Nat.le_of_dvd (by omega) turns) (by omega)

end WrapBit

end AxiDma.Lib
