import Mathlib.Data.BitVec
import Mathlib.Logic.Function.Iterate

/-! # Reflected cyclic redundancy checks

`crc` is the shift register of the definition: one step for each bit of the message, least
significant bit of a byte first.  A step is linear over exclusive or, so a block of bits can be
put into the register at once (`iterate_shift_xor`); from that one law come the byte-wise form
of the register and the table that replaces eight of its steps.
-/

namespace AxiDma.Lib.Crc

variable {w : Nat} (poly : BitVec w)

/-- A step of the register without input. -/
def shift (c : BitVec w) : BitVec w := if c.getLsbD 0 then poly ^^^ (c >>> 1) else c >>> 1

/-- A step of the register: the bit that leaves meets the bit of the message. -/
def bitStep (c : BitVec w) (b : Bool) : BitVec w :=
  if c.getLsbD 0 ^^ b then poly ^^^ (c >>> 1) else c >>> 1

/-- The lowest `n` bits, lowest first. -/
def lowBits {v : Nat} (n : Nat) (x : BitVec v) : List Bool := (List.range n).map x.getLsbD

/-- The register after the bytes of a message. -/
def feed (c : BitVec w) (bytes : List (BitVec 8)) : BitVec w :=
  (bytes.flatMap (lowBits 8)).foldl (bitStep poly) c

def crc (init xorOut : BitVec w) (bytes : List (BitVec 8)) : BitVec w :=
  feed poly init bytes ^^^ xorOut

/-! ## Linearity -/

@[simp] theorem bitStep_false (c : BitVec w) : bitStep poly c false = shift poly c := by
  rw [bitStep, shift, Bool.xor_false]

/-- What is put on the register before a step is, but for its lowest bit, still there after. -/
theorem shift_xor (c x : BitVec w) :
    shift poly (c ^^^ x) = bitStep poly c (x.getLsbD 0) ^^^ (x >>> 1) := by
  rw [shift, bitStep, BitVec.getLsbD_xor, BitVec.ushiftRight_xor_distrib]
  split
  · rw [BitVec.xor_assoc]
  · rfl

theorem lowBits_succ {v : Nat} (n : Nat) (x : BitVec v) :
    lowBits (n + 1) x = x.getLsbD 0 :: lowBits n (x >>> 1) := by
  rw [lowBits, List.range_succ_eq_map, List.map_cons, List.map_map, lowBits]
  congr 1
  apply List.map_congr_left
  intro i _
  rw [Function.comp_apply, BitVec.getLsbD_ushiftRight, Nat.succ_eq_add_one, Nat.add_comm]

/-- `n` bits at once: to put them on the register and shift `n` times is to feed them one
    by one. -/
theorem iterate_shift_xor (n : Nat) (c x : BitVec w) :
    (shift poly)^[n] (c ^^^ x) = (lowBits n x).foldl (bitStep poly) c ^^^ (x >>> n) := by
  induction n generalizing c x with
  | zero => simp [lowBits]
  | succ n ih =>
    rw [Function.iterate_succ_apply, shift_xor, ih, lowBits_succ, List.foldl_cons,
      ← BitVec.shiftRight_add, Nat.add_comm]

/-! ## Bytes -/

theorem feed_cons (c : BitVec w) (b : BitVec 8) (bytes : List (BitVec 8)) :
    feed poly c (b :: bytes) = feed poly ((lowBits 8 b).foldl (bitStep poly) c) bytes := by
  rw [feed, List.flatMap_cons, List.foldl_append]
  rfl

theorem feed_append (c : BitVec w) (as bs : List (BitVec 8)) :
    feed poly c (as ++ bs) = feed poly (feed poly c as) bs := by
  rw [feed, List.flatMap_append, List.foldl_append]
  rfl

theorem lowBits_setWidth (wide : 8 ≤ w) (b : BitVec 8) : lowBits 8 (b.setWidth w) = lowBits 8 b := by
  apply List.map_congr_left
  intro i within
  have small := List.mem_range.mp within
  rw [BitVec.getLsbD_setWidth, decide_eq_true (by omega), Bool.true_and]

theorem setWidth_ushiftRight_eight (b : BitVec 8) : b.setWidth w >>> 8 = 0#w := by
  apply BitVec.eq_of_getLsbD_eq
  intro i _
  rw [BitVec.getLsbD_ushiftRight, BitVec.getLsbD_setWidth, BitVec.getLsbD_of_ge b (8 + i) (by omega)]
  simp

/-- A byte goes onto the low end of the register. -/
theorem feed_byte (wide : 8 ≤ w) (c : BitVec w) (b : BitVec 8) :
    (lowBits 8 b).foldl (bitStep poly) c = (shift poly)^[8] (c ^^^ b.setWidth w) := by
  rw [iterate_shift_xor, lowBits_setWidth wide, setWidth_ushiftRight_eight, BitVec.xor_zero]

/-! ## The table -/

theorem foldl_zeros (n : Nat) (c : BitVec w) :
    (List.replicate n false).foldl (bitStep poly) c = (shift poly)^[n] c := by
  induction n generalizing c with
  | zero => rfl
  | succ n ih => rw [List.replicate_succ, List.foldl_cons, bitStep_false, ih,
      Function.iterate_succ_apply]

theorem lowBits_high (c : BitVec w) :
    lowBits 8 (c ^^^ (c.setWidth 8).setWidth w) = List.replicate 8 false := by
  rw [List.eq_replicate_iff]
  refine ⟨by simp [lowBits], ?_⟩
  intro bit member
  obtain ⟨i, within, rfl⟩ := List.mem_map.mp member
  have small : i < 8 := List.mem_range.mp within
  rw [BitVec.getLsbD_xor, BitVec.getLsbD_setWidth, BitVec.getLsbD_setWidth, decide_eq_true small,
    Bool.true_and]
  by_cases inside : i < w
  · rw [decide_eq_true inside, Bool.true_and, Bool.xor_self]
  · rw [BitVec.getLsbD_of_ge c i (by omega), Bool.and_false, Bool.xor_self]

/-- Eight steps are one look-up: the entry of the lowest byte, and the rest moved down. -/
theorem iterate_shift_eight (c : BitVec w) :
    (shift poly)^[8] c = (shift poly)^[8] ((c.setWidth 8).setWidth w) ^^^ (c >>> 8) := by
  -- the low byte and the rest go through the register one by one, and the rest only moves
  have split : c = (c.setWidth 8).setWidth w ^^^ (c ^^^ (c.setWidth 8).setWidth w) := by
    rw [BitVec.xor_comm c, ← BitVec.xor_assoc, BitVec.xor_self, BitVec.zero_xor]
  have high : (c ^^^ (c.setWidth 8).setWidth w) >>> 8 = c >>> 8 := by
    rw [BitVec.ushiftRight_xor_distrib, setWidth_ushiftRight_eight, BitVec.xor_zero]
  conv_lhs => rw [split, iterate_shift_xor, lowBits_high, foldl_zeros, high]

/-! ## Detection

With the top bit in the polynomial no step of the register loses anything: the bit that left can
be told from the top bit of the result.  So a difference within `w` consecutive bits of the
message is still there at the end.
-/

section Detection

variable {poly} (top : poly.msb = true)

include top

theorem msb_bitStep (c : BitVec w) (b : Bool) : (bitStep poly c b).msb = (c.getLsbD 0 ^^ b) := by
  have shifted : (c >>> 1).msb = false := by simp [BitVec.msb_ushiftRight]
  cases left : c.getLsbD 0 ^^ b with
  | true => rw [bitStep, if_pos left, BitVec.msb_xor, top, shifted, Bool.xor_false]
  | false => rw [bitStep, if_neg (by simp [left]), shifted]

theorem bitStep_injective (b : Bool) : Function.Injective fun c => bitStep poly c b := by
  intro c d same
  -- the bit that was shifted out
  have low : c.getLsbD 0 = d.getLsbD 0 := by
    have tops := congrArg BitVec.msb same
    simp only [msb_bitStep top] at tops
    exact Bool.xor_left_inj.mp tops
  have rest : c >>> 1 = d >>> 1 := by
    simp only [bitStep, low] at same
    split at same
    · exact (BitVec.xor_right_inj _).mp same
    · exact same
  apply BitVec.eq_of_getLsbD_eq
  intro i _
  cases i with
  | zero => exact low
  | succ i =>
    have here := congrArg (BitVec.getLsbD · i) rest
    simpa only [BitVec.getLsbD_ushiftRight, Nat.add_comm 1] using here

theorem foldl_bitStep_injective (bits : List Bool) :
    Function.Injective fun c => bits.foldl (bitStep poly) c := by
  induction bits with
  | nil => exact fun _ _ same => same
  | cons b bits ih =>
    intro c d same
    exact bitStep_injective top b (ih same)

theorem feed_injective (bytes : List (BitVec 8)) : Function.Injective fun c => feed poly c bytes :=
  foldl_bitStep_injective top _

/-- A burst: two blocks of at most `w` bits lead from one register to different ones. -/
theorem block_injective {n : Nat} {x y : BitVec w} (c : BitVec w) (high : x >>> n = y >>> n)
    (same : (lowBits n x).foldl (bitStep poly) c = (lowBits n y).foldl (bitStep poly) c) : x = y := by
  have shifted : (shift poly)^[n] (c ^^^ x) = (shift poly)^[n] (c ^^^ y) := by
    rw [iterate_shift_xor, iterate_shift_xor, same, high]
  have step : Function.Injective (shift poly) := by
    intro c d same
    apply bitStep_injective top false
    simpa only [bitStep_false] using same
  have put := step.iterate n shifted
  simpa using congrArg (c ^^^ ·) put

/-- The messages differ in one block only, of the register's width. -/
theorem crc_block_injective {x y : BitVec w} {xs ys before after : List (BitVec 8)} {init xorOut : BitVec w}
    (xBits : xs.flatMap (lowBits 8) = lowBits w x) (yBits : ys.flatMap (lowBits 8) = lowBits w y)
    (same : crc poly init xorOut (before ++ (xs ++ after)) = crc poly init xorOut (before ++ (ys ++ after))) :
    x = y := by
  have none (z : BitVec w) : z >>> w = 0#w := BitVec.ushiftRight_eq_zero (Nat.le_refl w)
  rw [crc, crc] at same
  have whole := (BitVec.xor_left_inj _).mp same
  rw [feed_append, feed_append, feed_append, feed_append] at whole
  have block := feed_injective top after whole
  simp only [feed, xBits, yBits] at block
  exact block_injective top _ ((none x).trans (none y).symm) block

end Detection

end AxiDma.Lib.Crc
