import Mathlib.Init

/-! # Programs that act on their surroundings

A program is a tree of operations; the answer to each selects what follows.  A
`Protocol` tells which operations are allowed in which mode, and what may be assumed of
the answers; `Conforms` is checked along the program and composes over `bind`.  `exec` runs
a program against surroundings with a state of their own, and `trace` lists what it does;
`Upto` checks it against surroundings that may answer in several ways.
-/

namespace AxiDma.Lib

inductive Program (Op : Type) (Answer : Op → Type) (α : Type) where
  | done (a : α)
  | act (op : Op) (next : Answer op → Program Op Answer α)

namespace Program

variable {Op : Type} {Answer : Op → Type} {α β : Type}

def bind : Program Op Answer α → (α → Program Op Answer β) → Program Op Answer β
  | .done a, f => f a
  | .act op next, f => .act op fun answer => (next answer).bind f

instance : Monad (Program Op Answer) where
  pure := .done
  bind := .bind

@[simp] theorem pure_eq (a : α) : (pure a : Program Op Answer α) = .done a := rfl

@[simp] theorem done_bind (a : α) (f : α → Program Op Answer β) : (.done a >>= f) = f a := rfl

@[simp] theorem act_bind (op : Op) (next : Answer op → Program Op Answer α)
    (f : α → Program Op Answer β) : (.act op next >>= f) = .act op fun answer => next answer >>= f :=
  rfl

/-- The program of a single operation. -/
def call (op : Op) : Program Op Answer (Answer op) := .act op .done

@[simp] theorem call_bind (op : Op) (f : Answer op → Program Op Answer β) :
    (call op >>= f) = .act op f := rfl

theorem bind_assoc {γ : Type} (p : Program Op Answer α) (f : α → Program Op Answer β)
    (g : β → Program Op Answer γ) : (p >>= f) >>= g = p >>= fun a => f a >>= g := by
  induction p with
  | done a => rfl
  | act op next ih => simp only [act_bind, ih]

/-! ## Execution -/

section Execution

variable {σ : Type*}

/-- The result, and the state the surroundings are left in. -/
def exec (env : σ → (op : Op) → Answer op × σ) : σ → Program Op Answer α → α × σ
  | s, .done a => (a, s)
  | s, .act op next => exec env (env s op).2 (next (env s op).1)

/-- The operations in their order. -/
def trace (env : σ → (op : Op) → Answer op × σ) : σ → Program Op Answer α → List Op
  | _, .done _ => []
  | s, .act op next => op :: trace env (env s op).2 (next (env s op).1)

/-- What the operations cost together. -/
def total (env : σ → (op : Op) → Answer op × σ) (cost : Op → Nat) : σ → Program Op Answer α → Nat
  | _, .done _ => 0
  | s, .act op next => cost op + total env cost (env s op).2 (next (env s op).1)

variable {env : σ → (op : Op) → Answer op × σ} {s : σ}

@[simp] theorem exec_done (a : α) : exec env s (.done a : Program Op Answer α) = (a, s) := rfl

@[simp] theorem exec_act (op : Op) (next : Answer op → Program Op Answer α) :
    exec env s (.act op next) = exec env (env s op).2 (next (env s op).1) := rfl

@[simp] theorem exec_call (op : Op) : exec env s (call op) = env s op := rfl

@[simp] theorem trace_done (a : α) : trace env s (.done a : Program Op Answer α) = [] := rfl

@[simp] theorem trace_act (op : Op) (next : Answer op → Program Op Answer α) :
    trace env s (.act op next) = op :: trace env (env s op).2 (next (env s op).1) := rfl

@[simp] theorem trace_call (op : Op) : trace env s (call op) = [op] := rfl

/-- Sequencing: the second program runs in the surroundings the first one leaves. -/
@[simp] theorem exec_bind (p : Program Op Answer α) (f : α → Program Op Answer β) :
    exec env s (p >>= f) = exec env (exec env s p).2 (f (exec env s p).1) := by
  induction p generalizing s with
  | done a => rfl
  | act op next ih => simp only [act_bind, exec_act, ih]

@[simp] theorem trace_bind (p : Program Op Answer α) (f : α → Program Op Answer β) :
    trace env s (p >>= f) = trace env s p ++ trace env (exec env s p).2 (f (exec env s p).1) := by
  induction p generalizing s with
  | done a => rfl
  | act op next ih => simp only [act_bind, trace_act, exec_act, ih, List.cons_append]

/-- Every operation of an execution is allowed where it is reached. -/
def Along (env : σ → (op : Op) → Answer op × σ) (allowed : σ → Op → Prop) : σ → Program Op Answer α → Prop
  | _, .done _ => True
  | s, .act op next => allowed s op ∧ Along env allowed (env s op).2 (next (env s op).1)

@[simp] theorem along_bind {allowed : σ → Op → Prop} (p : Program Op Answer α) (f : α → Program Op Answer β) :
    Along env allowed s (p >>= f) ↔
      Along env allowed s p ∧ Along env allowed (exec env s p).2 (f (exec env s p).1) := by
  induction p generalizing s with
  | done a => simp [Along]
  | act op next ih => simp only [act_bind, Along, exec_act, ih, and_assoc]

end Execution

/-! ## The operations alone -/

/-- Every operation that the program may come to satisfies `P`. -/
def Only (P : Op → Prop) : Program Op Answer α → Prop
  | .done _ => True
  | .act op next => P op ∧ ∀ answer, Only P (next answer)

variable {P : Op → Prop}

theorem Only.bind {p : Program Op Answer α} {f : α → Program Op Answer β} (first : Only P p)
    (second : ∀ a, Only P (f a)) : Only P (p >>= f) := by
  induction p with
  | done a => exact second a
  | act op next ih => exact ⟨first.1, fun answer => ih answer (first.2 answer)⟩

end Program

/-- Modes, the mode each operation leads to where it is allowed, and the answers the
    surroundings may give. -/
structure Protocol (Op : Type) (Answer : Op → Type) (Mode : Type) where
  after : Mode → Op → Option Mode
  answers : (op : Op) → Answer op → Prop

namespace Program

variable {Op : Type} {Answer : Op → Type} {Mode α β : Type}

/-- Every operation is allowed in the mode it is reached in, and the program ends in a
    mode that meets `post`. -/
def Conforms (protocol : Protocol Op Answer Mode) (post : Mode → α → Prop) :
    Mode → Program Op Answer α → Prop
  | mode, .done a => post mode a
  | mode, .act op next =>
    ∃ mode' ∈ protocol.after mode op,
      ∀ answer, protocol.answers op answer → Conforms protocol post mode' (next answer)

variable {protocol : Protocol Op Answer Mode} {post : Mode → β → Prop}

/-- Sequencing: the second program starts in the mode the first one ends in. -/
theorem Conforms.bind {mid : Mode → α → Prop} {mode : Mode} {p : Program Op Answer α}
    {f : α → Program Op Answer β} (first : Conforms protocol mid mode p)
    (second : ∀ mode a, mid mode a → Conforms protocol post mode (f a)) :
    Conforms protocol post mode (p >>= f) := by
  induction p generalizing mode with
  | done a => exact second mode a first
  | act op next inductionHypothesis =>
    obtain ⟨mode', leads, continues⟩ := first
    exact ⟨mode', leads, fun answer given => inductionHypothesis answer (continues answer given)⟩

theorem Conforms.mono {weaker : Mode → β → Prop} {mode : Mode} {p : Program Op Answer β}
    (conforms : Conforms protocol post mode p) (implies : ∀ mode b, post mode b → weaker mode b) :
    Conforms protocol weaker mode p := by
  induction p generalizing mode with
  | done b => exact implies mode b conforms
  | act op next inductionHypothesis =>
    obtain ⟨mode', leads, continues⟩ := conforms
    exact ⟨mode', leads, fun answer given => inductionHypothesis answer (continues answer given)⟩

/-! ## Up to an operation -/

/-- What the surroundings allow along the program up to the first operation that `stops`;
    `can` relates the state before an operation to the answers and states it may lead to. -/
def Upto {σ : Type*} (can : σ → (op : Op) → Answer op → σ → Prop) (stops : Op → Prop)
    (allowed : σ → Op → Prop) : σ → Program Op Answer α → Prop
  | _, .done _ => True
  | s, .act op next => allowed s op ∧
      (¬ stops op → ∀ answer s', can s op answer s' → Upto can stops allowed s' (next answer))

end Program

end AxiDma.Lib
