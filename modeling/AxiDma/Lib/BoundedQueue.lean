import Mathlib.Tactic.TypeStar

/-! # A bounded first-in first-out queue

The abstract queue that an implementation is compared with: a list with a capacity.  A push
into a full queue and a pop of an empty one change nothing.
-/

namespace AxiDma.Lib

inductive QueueOp (α : Type*) where
  | push (a : α)
  | pop
  | look

variable {α : Type*} {capacity : Nat} {q : List α}

def queueStep (capacity : Nat) (q : List α) : QueueOp α → List α
  | .push a => if q.length < capacity then q ++ [a] else q
  | .pop => q.tail
  | .look => q

theorem queueStep_push (room : q.length < capacity) (a : α) :
    queueStep capacity q (.push a) = q ++ [a] := if_pos room

theorem queueStep_push_full (full : q.length = capacity) (a : α) :
    queueStep capacity q (.push a) = q := if_neg (by omega)

end AxiDma.Lib
