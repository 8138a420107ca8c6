import Mathlib.Data.List.Nodup
import Mathlib.Logic.Function.Basic

/-! # Sequences of moves

A move copies the content of one cell to another.  Moves only carry contents about, so a cell
ends with what its origin held at the start, whatever the contents are.
-/

namespace AxiDma.Lib

variable {κ α β : Type} [DecidableEq κ]

structure Move (κ : Type) where
  dst : κ
  src : κ
  deriving DecidableEq

def Move.exec (m : Move κ) (mem : κ → α) : κ → α := Function.update mem m.dst (mem m.src)

def execMoves (ms : List (Move κ)) (mem : κ → α) : κ → α := ms.foldl (fun mem m => m.exec mem) mem

/-- The cell whose content the moves leave in `c`. -/
def origin (ms : List (Move κ)) (c : κ) : κ := execMoves ms id c

variable {ms : List (Move κ)} {mem : κ → α} {c : κ}

theorem execMoves_append (ms ms' : List (Move κ)) (mem : κ → α) :
    execMoves (ms ++ ms') mem = execMoves ms' (execMoves ms mem) := List.foldl_append

theorem Move.exec_comp (m : Move κ) (f : α → β) (mem : κ → α) :
    m.exec (f ∘ mem) = f ∘ m.exec mem := (Function.comp_update f mem m.dst (mem m.src)).symm

theorem execMoves_comp (f : α → β) : execMoves ms (f ∘ mem) = f ∘ execMoves ms mem := by
  induction ms generalizing mem with
  | nil => rfl
  | cons m ms ih =>
    rw [execMoves, List.foldl_cons, m.exec_comp]
    exact ih

/-- The content of a cell afterwards is that of its origin before. -/
theorem execMoves_eq (ms : List (Move κ)) (mem : κ → α) (c : κ) :
    execMoves ms mem c = mem (origin ms c) := by
  have images : execMoves ms (mem ∘ id) = mem ∘ execMoves ms id := execMoves_comp mem
  exact congrFun images c

theorem execMoves_of_ne (other : ∀ m ∈ ms, m.dst ≠ c) : execMoves ms mem c = mem c := by
  induction ms generalizing mem with
  | nil => rfl
  | cons m ms ih =>
    rw [execMoves, List.foldl_cons]
    refine (ih fun m' later => other m' (List.mem_cons_of_mem m later)).trans ?_
    exact Function.update_of_ne (other m List.mem_cons_self).symm _ _

/-- Moves whose destinations differ, and are not sources, are made all at once. -/
theorem execMoves_parallel {dst src : Nat → κ} {n j : Nat} (distinct : Function.Injective dst)
    (apart : ∀ i j, dst i ≠ src j) (within : j < n) :
    execMoves ((List.range n).map fun j => ⟨dst j, src j⟩) mem (dst j) = mem (src j) := by
  induction n with
  | zero => exact absurd within (Nat.not_lt_zero j)
  | succ n ih =>
    rw [List.range_succ, List.map_append, execMoves_append]
    by_cases last : j = n
    · subst last
      refine (Function.update_self ..).trans (execMoves_of_ne fun m member => ?_)
      obtain ⟨i, -, rfl⟩ := List.mem_map.mp member
      exact apart i j
    · refine (Function.update_of_ne (fun same => last (distinct same)) _ _).trans (ih ?_)
      omega

end AxiDma.Lib
