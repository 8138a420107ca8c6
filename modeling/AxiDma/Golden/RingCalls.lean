import AxiDma.Golden.Ring

/-! # The methods of `RingManager` as their caller sees them

A caller that catches the exception of a method goes on with the objects as the method left
them.  Here a method is a program with state whose effects stay when it raises.
-/

namespace AxiDma.Golden

/-- A method: its effects on the world, and its value or its exception. -/
abbrev Method := EStateM PyError World

/-- An expression that has no effect. -/
def Method.eval {α : Type} (f : World → Py α) : Method α := do
  match f (← get) with
  | .ok a => pure a
  | .error e => throw e

namespace RingManager

/-- `self.mem.mem[i] = v`. -/
def storeWord (i : Nat) (v : Nat) : Method Unit := do
  let mem ← Method.eval fun w => store w.sysmem.mem i v
  modify fun w => { w with sysmem := { w.sysmem with mem } }

def writeDescToMemCall (byteAddr : Nat) (desc : Descriptor) : Method Unit := do
  let w0 := (byteAddr >>> 2) &&& mask32
  if (← get).sysmem.size < w0 + descWords then
    throw (.valueError "Descriptor write out of bounds of SystemMemory")
  storeWord (w0 + 0) desc.w0
  storeWord (w0 + 1) desc.w1
  storeWord (w0 + 2) desc.w2
  storeWord (w0 + 3) desc.w3

def enqueueCall (desc : Descriptor) : Method Unit := do
  let rlen ← Method.eval ringlen
  if ← Method.eval isFull then
    throw (.overflowError "Descriptor ring is full")
  let tail := tail (← get)
  let ti := tail % rlen
  writeDescToMemCall (← Method.eval (slotByteAddr · ti)) desc
  let newTail := (tail + 1) % rlen
  modify fun w => { w with csr := w.csr.write CSR.regTail newTail }

/-- What a step of the master leaves when it raises is not modelled. -/
def fetchNextDescriptorCall : Method (Option Descriptor) := fun w =>
  match fetchNextDescriptor w with
  | .ok (desc, w) => .ok desc w
  | .error e => .error e w

def completeCall : Method Unit := do
  if isEmpty (← get) then
    throw (.runtimeError "No pending descriptor to complete")
  let head := head (← get)
  let rlen ← Method.eval ringlen
  let hi := head % rlen
  let newHead := (hi + 1) % rlen
  modify fun w => { w with csr := w.csr.hwSetHead newHead }

end RingManager

end AxiDma.Golden
