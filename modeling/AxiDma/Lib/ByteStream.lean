import Mathlib.Data.Nat.Digits.Defs
import Mathlib.Data.List.Infix
import Mathlib.Tactic.Ring

/-! # Byte streams with a sync word

Words go over a serial line low byte first, and a receiver finds the start of a frame by
shifting the bytes through a 32-bit window.  If the sync word has no border, a window that
starts at 0 shows it for the first time at its own last byte, whatever comes before it.
-/

namespace AxiDma.Lib

/-! ## Words, low byte first -/

/-- The word of at most four bytes. -/
def wordLe (bs : List (BitVec 8)) : BitVec 32 :=
  BitVec.ofNat 32 (Nat.ofDigits 256 (bs.map BitVec.toNat))

def bytesLe (w : BitVec 32) : List (BitVec 8) :=
  [w.setWidth 8, (w >>> 8).setWidth 8, (w >>> 16).setWidth 8, (w >>> 24).setWidth 8]

@[simp] theorem length_bytesLe (w : BitVec 32) : (bytesLe w).length = 4 := rfl

theorem ofDigits_lt (bs : List (BitVec 8)) :
    Nat.ofDigits 256 (bs.map BitVec.toNat) < 256 ^ bs.length := by
  have small : ∀ d ∈ bs.map BitVec.toNat, d < 256 := by
    intro d member
    obtain ⟨b, -, rfl⟩ := List.mem_map.mp member
    exact b.isLt
  simpa using Nat.ofDigits_lt_base_pow_length (by decide) small

theorem toNat_wordLe {bs : List (BitVec 8)} (short : bs.length ≤ 4) :
    (wordLe bs).toNat = Nat.ofDigits 256 (bs.map BitVec.toNat) := by
  have bound := ofDigits_lt bs
  have within : 256 ^ bs.length ≤ 256 ^ 4 := Nat.pow_le_pow_right (by decide) short
  rw [wordLe, BitVec.toNat_ofNat, Nat.mod_eq_of_lt (by omega)]

/-- One more byte is or-ed into its lane. -/
theorem or_shiftLeft_eq_wordLe {bs : List (BitVec 8)} (short : bs.length < 4) (b : BitVec 8) :
    wordLe bs ||| b.setWidth 32 <<< (8 * bs.length) = wordLe (bs ++ [b]) := by
  have bound := ofDigits_lt bs
  have small := b.isLt
  have power : (256 : Nat) ^ bs.length = 2 ^ (8 * bs.length) := by
    rw [show (256 : Nat) = 2 ^ 8 by norm_num, ← Nat.pow_mul]
  have lane : (b.setWidth 32 <<< (8 * bs.length)).toNat = b.toNat <<< (8 * bs.length) := by
    have within : 2 ^ (8 * bs.length) ≤ 2 ^ 24 := Nat.pow_le_pow_right (by decide) (by omega)
    have top : b.toNat * 2 ^ (8 * bs.length) < 2 ^ 8 * 2 ^ 24 :=
      Nat.mul_lt_mul_of_lt_of_le small within (by decide)
    have whole : b.toNat % 2 ^ 32 = b.toNat := Nat.mod_eq_of_lt (by omega)
    rw [BitVec.toNat_shiftLeft, BitVec.toNat_setWidth, whole, Nat.shiftLeft_eq,
      Nat.mod_eq_of_lt (by omega)]
  have longer : (bs ++ [b]).length ≤ 4 := by
    rw [List.length_append, List.length_singleton]
    omega
  apply BitVec.eq_of_toNat_eq
  rw [BitVec.toNat_or, lane, toNat_wordLe (by omega), toNat_wordLe longer, List.map_append,
    Nat.ofDigits_append, List.length_map, Nat.or_comm,
    ← Nat.shiftLeft_add_eq_or_of_lt (power ▸ bound), Nat.shiftLeft_eq, power]
  simp only [List.map_cons, List.map_nil, Nat.ofDigits_singleton]
  ring

theorem toNat_bytesLe (w : BitVec 32) :
    (bytesLe w).map BitVec.toNat =
      [w.toNat % 256, w.toNat / 2 ^ 8 % 256, w.toNat / 2 ^ 16 % 256, w.toNat / 2 ^ 24 % 256] := by
  simp [bytesLe, Nat.shiftRight_eq_div_pow]

theorem wordLe_bytesLe (w : BitVec 32) : wordLe (bytesLe w) = w := by
  have bound := w.isLt
  apply BitVec.eq_of_toNat_eq
  rw [toNat_wordLe (Nat.le_of_eq (length_bytesLe w)), toNat_bytesLe]
  simp only [Nat.ofDigits_cons, Nat.ofDigits_nil]
  omega

theorem bytesLe_injective : Function.Injective bytesLe := by
  intro v w same
  rw [← wordLe_bytesLe v, same, wordLe_bytesLe]

/-! ## The window -/

/-- A byte enters the window at the top. -/
def shiftIn (window : BitVec 32) (b : BitVec 8) : BitVec 32 := window >>> 8 ||| b.setWidth 32 <<< 24

theorem bytesLe_shiftIn (window : BitVec 32) (b : BitVec 8) :
    bytesLe (shiftIn window b) = (bytesLe window).tail ++ [b] := by
  simp only [bytesLe, shiftIn, List.tail_cons, List.cons_append, List.nil_append, List.cons.injEq,
    and_true]
  refine ⟨?_, ?_, ?_, ?_⟩ <;>
    · apply BitVec.eq_of_getLsbD_eq
      intro i bound
      simp <;> grind

/-- The window after a stream that began with the window at 0. -/
def windowOf (bs : List (BitVec 8)) : BitVec 32 := bs.foldl shiftIn 0

theorem windowOf_snoc (bs : List (BitVec 8)) (b : BitVec 8) :
    windowOf (bs ++ [b]) = shiftIn (windowOf bs) b := by
  rw [windowOf, List.foldl_append]
  rfl

theorem bytesLe_windowOf (bs : List (BitVec 8)) :
    bytesLe (windowOf bs) = ([0, 0, 0, 0] ++ bs).drop bs.length := by
  induction bs using List.reverseRecOn with
  | nil => rfl
  | append_singleton bs b ih =>
    have within : (bs ++ [b]).length ≤ ([0, 0, 0, 0] ++ bs).length := by
      simp only [List.length_append, List.length_cons, List.length_nil]
      omega
    rw [windowOf_snoc, bytesLe_shiftIn, ih, List.tail_drop, ← List.append_assoc,
      List.drop_append_of_le_length within, List.length_append, List.length_singleton]

/-- The window shows a sync word without a 0 byte after the bytes of that word. -/
theorem windowOf_eq_iff {sync : BitVec 32} (nonzero : 0 ∉ bytesLe sync) (bs : List (BitVec 8)) :
    windowOf bs = sync ↔ bytesLe sync <:+ bs := by
  rw [← bytesLe_injective.eq_iff, bytesLe_windowOf]
  constructor
  · intro shows
    have suffix : bytesLe sync <:+ [0, 0, 0, 0] ++ bs := by
      rw [← shows]
      exact List.drop_suffix _ _
    rcases List.suffix_or_suffix_of_suffix suffix (List.suffix_append _ bs) with whole | ⟨zeros, eq⟩
    · exact whole
    · -- the bytes before the stream are zeros
      rw [← eq, List.suffix_append_self_iff] at suffix
      cases zeros with
      | nil => exact eq ▸ List.suffix_refl _
      | cons z zs =>
        have zero : z ∈ ([0, 0, 0, 0] : List (BitVec 8)) := suffix.subset List.mem_cons_self
        obtain rfl : z = 0 := by simpa using zero
        rw [← eq] at nonzero
        exact absurd List.mem_cons_self nonzero
  · intro suffix
    have longer : bytesLe sync <:+ [0, 0, 0, 0] ++ bs := suffix.trans (List.suffix_append _ _)
    rw [List.suffix_iff_eq_drop] at longer
    rw [longer]
    simp

/-! ## Sync words without a border -/

section Border

variable {α : Type*} {pat noise : List α}

/-- No proper part of the pattern both begins and ends it. -/
def Unbordered (pat : List α) : Prop :=
  ∀ n < pat.length, pat.take n <:+ pat → n = 0

instance [DecidableEq α] : Decidable (Unbordered pat) := inferInstanceAs (Decidable (∀ _ < _, _ → _))

/-- After noise that does not contain it, the pattern occurs first where it is put. -/
theorem Unbordered.first (unbordered : Unbordered pat) (absent : ¬ pat <:+: noise) {n : Nat}
    (early : n < pat.length) : ¬ pat <:+ noise ++ pat.take n := by
  intro occurs
  have shorter : (pat.take n).length ≤ pat.length := List.length_take_le' n pat
  have border : pat.take n <:+ pat :=
    List.suffix_of_suffix_length_le (List.suffix_append _ _) occurs shorter
  obtain rfl := unbordered n early border
  rw [List.take_zero, List.append_nil] at occurs
  exact absent occurs.isInfix

end Border

/-! ## The search -/

/-- What follows the first sync word, with the window as given. -/
def scan (sync : BitVec 32) : BitVec 32 → List (BitVec 8) → Option (List (BitVec 8))
  | _, [] => none
  | window, b :: bs =>
    if shiftIn window b = sync then some bs else scan sync (shiftIn window b) bs

theorem scan_of_absent {sync : BitVec 32} {seen bs rest : List (BitVec 8)}
    (absent : ∀ n ≤ bs.length, 0 < n → windowOf (seen ++ bs.take n) ≠ sync) :
    scan sync (windowOf seen) (bs ++ rest) = scan sync (windowOf (seen ++ bs)) rest := by
  induction bs generalizing seen with
  | nil => simp
  | cons b bs ih =>
    have first := absent 1 (by simp) (by decide)
    rw [List.take_succ_cons, List.take_zero, windowOf_snoc] at first
    rw [List.cons_append, scan, if_neg first, ← windowOf_snoc, ih ?_]
    · rw [List.append_assoc]
      rfl
    · intro n within positive
      have later := absent (n + 1) (by simpa using within) (by omega)
      rwa [List.take_succ_cons, List.append_cons] at later

/-- The search stops at the sync word: not in the noise, not across the two, and right
    after the word. -/
theorem scan_sync {sync : BitVec 32} (nonzero : 0 ∉ bytesLe sync)
    (unbordered : Unbordered (bytesLe sync)) {noise : List (BitVec 8)}
    (absent : ¬ bytesLe sync <:+: noise) (rest : List (BitVec 8)) :
    scan sync 0 (noise ++ bytesLe sync ++ rest) = some rest := by
  have pattern : bytesLe sync = (bytesLe sync).take 3 ++ [(sync >>> 24).setWidth 8] := rfl
  have before : scan sync 0 ((noise ++ (bytesLe sync).take 3) ++ (sync >>> 24).setWidth 8 :: rest) =
      scan sync (windowOf (noise ++ (bytesLe sync).take 3)) ((sync >>> 24).setWidth 8 :: rest) := by
    refine @scan_of_absent sync [] _ _ ?_
    intro n within _ shows
    rw [List.nil_append, windowOf_eq_iff nonzero, List.take_append] at shows
    by_cases inNoise : n ≤ noise.length
    · rw [Nat.sub_eq_zero_of_le inNoise, List.take_zero, List.append_nil] at shows
      exact absent (shows.isInfix.trans (List.take_prefix n noise).isInfix)
    · rw [List.take_of_length_le (by omega), List.take_take] at shows
      refine unbordered.first absent ?_ shows
      rw [length_bytesLe]
      omega
  have last : shiftIn (windowOf (noise ++ (bytesLe sync).take 3)) ((sync >>> 24).setWidth 8) =
      sync := by
    rw [← windowOf_snoc, List.append_assoc, ← pattern, windowOf_eq_iff nonzero]
    exact List.suffix_append _ _
  rw [pattern, List.append_assoc, List.append_assoc, List.singleton_append, ← List.append_assoc,
    before, scan, if_pos last]

end AxiDma.Lib
