import Mathlib.Data.BitVec
import Mathlib.Logic.Function.Basic

/-! # A block of words over a memory

`overlay mem base ws` is the memory after the words `ws` were written from address
`base` on, one after the other.
-/

namespace AxiDma.Lib

variable {w : Nat} {α : Type*}

/-- The words `ws` from `base` on, `mem` everywhere else. -/
def overlay (mem : BitVec w → α) (base : Nat) (ws : List α) : BitVec w → α := fun a =>
  if base ≤ a.toNat then (ws[a.toNat - base]?).getD (mem a) else mem a

variable {mem : BitVec w → α} {base : Nat} {ws : List α}

@[simp] theorem overlay_nil : overlay mem base [] = mem := by
  funext a
  simp [overlay]

theorem getElem?_snoc_of_ne {n : Nat} (other : n ≠ ws.length) (v : α) :
    (ws ++ [v])[n]? = ws[n]? := by
  rw [List.getElem?_append]
  split
  · rfl
  · rw [List.getElem?_eq_none (by simp; omega), List.getElem?_eq_none (by omega)]

/-- Writing the next word extends the block. -/
theorem overlay_snoc {a : BitVec w} (next : a.toNat = base + ws.length) (v : α) :
    Function.update (overlay mem base ws) a v = overlay mem base (ws ++ [v]) := by
  funext b
  by_cases same : b = a
  · subst same
    simp [overlay, next]
  · have other : b.toNat ≠ base + ws.length := by
      rw [← next]
      exact mt BitVec.toNat_inj.mp same
    rw [Function.update_of_ne same, overlay, overlay]
    split
    · rw [getElem?_snoc_of_ne (by omega)]
    · rfl

theorem overlay_of_lt {i : Nat} (inBlock : i < ws.length) (fits : base + i < 2 ^ w) :
    overlay mem base ws (BitVec.ofNat w (base + i)) = ws[i] := by
  have addr : (BitVec.ofNat w (base + i)).toNat = base + i := by
    rw [BitVec.toNat_ofNat, Nat.mod_eq_of_lt fits]
  simp [overlay, addr, inBlock]

theorem overlay_outside {a : BitVec w} (outside : a.toNat < base ∨ base + ws.length ≤ a.toNat) :
    overlay mem base ws a = mem a := by
  rw [overlay]
  split
  · rw [List.getElem?_eq_none (by omega)]
    rfl
  · rfl

/-! ## Memories indexed by numbers -/

def overlayNat (mem : Nat → α) (base : Nat) (ws : List α) : Nat → α := fun a =>
  if base ≤ a then (ws[a - base]?).getD (mem a) else mem a

variable {mem : Nat → α}

@[simp] theorem overlayNat_nil : overlayNat mem base [] = mem := by
  funext a
  simp [overlayNat]

theorem overlayNat_outside {a : Nat} (outside : a < base ∨ base + ws.length ≤ a) :
    overlayNat mem base ws a = mem a := by
  rw [overlayNat]
  split
  · rw [List.getElem?_eq_none (by omega)]
    rfl
  · rfl

theorem overlayNat_snoc (v : α) :
    Function.update (overlayNat mem base ws) (base + ws.length) v =
      overlayNat mem base (ws ++ [v]) := by
  funext a
  by_cases same : a = base + ws.length
  · subst same
    simp [overlayNat]
  · rw [Function.update_of_ne same, overlayNat, overlayNat]
    split
    · rw [getElem?_snoc_of_ne (by omega)]
    · rfl

theorem overlayNat_cons (v : α) :
    overlayNat mem base (v :: ws) = overlayNat (Function.update mem base v) (base + 1) ws := by
  funext a
  rcases Nat.lt_trichotomy a base with below | rfl | above
  · rw [overlayNat, overlayNat, if_neg (by omega), if_neg (by omega),
      Function.update_of_ne (by omega)]
  · rw [overlayNat, overlayNat, if_pos (Nat.le_refl a), if_neg (by omega), Function.update_self,
      Nat.sub_self]
    rfl
  · rw [overlayNat, overlayNat, if_pos (by omega), if_pos (by omega),
      Function.update_of_ne (by omega), show a - base = a - (base + 1) + 1 by omega,
      List.getElem?_cons_succ]

end AxiDma.Lib
