import Mathlib.Data.List.Induction

/-! # Programs that raise

A program that may raise an exception is a value of `Except ε`.  `raiseIf` is the test that
raises; the lemmas take a run that returned apart into its steps.
-/

namespace AxiDma.Lib

variable {ε α β : Type}

/-- `if c: raise e`. -/
def raiseIf (c : Prop) [Decidable c] (e : ε) : Except ε Unit := if c then .error e else .ok ()

@[simp] theorem raiseIf_eq_ok {c : Prop} [Decidable c] {e : ε} {u : Unit} :
    raiseIf c e = .ok u ↔ ¬ c := by
  unfold raiseIf
  split <;> simp [*]

/-- A run returns through a value that its first step returned. -/
@[simp] theorem bind_eq_ok {x : Except ε α} {f : α → Except ε β} {b : β} :
    x >>= f = .ok b ↔ ∃ a, x = .ok a ∧ f a = .ok b := by
  cases x <;> simp [bind, Except.bind]

theorem ok_bind {a : α} {f : α → Except ε β} : (.ok a : Except ε α) >>= f = f a := rfl

@[simp] theorem pure_eq_ok {a b : α} : (pure a : Except ε α) = .ok b ↔ a = b := by
  simp [pure, Except.pure]

@[simp] theorem throw_ne_ok {e : ε} {a : α} : (throw e : Except ε α) ≠ .ok a := by
  intro returns
  cases returns

theorem exists_of_isOk {x : Except ε α} (ok : x.isOk = true) : ∃ a, x = .ok a := by
  cases x with
  | ok a => exact ⟨a, rfl⟩
  | error => cases ok

/-! ## Loops over a list -/

section Loop

variable {σ : Type} {f : σ → α → Except ε σ} {P : List α → σ → Prop} {xs : List α} {s s' : σ}

theorem foldlM_snoc {x : α} : (xs ++ [x]).foldlM f s = .ok s' ↔
    ∃ t, xs.foldlM f s = .ok t ∧ f t x = .ok s' := by
  simp only [List.foldlM_append, List.foldlM_cons, List.foldlM_nil, bind_pure, bind_eq_ok]

/-- What every pass that returned keeps holds after the loop; `P` sees the elements done. -/
theorem foldlM_invariant
    (step : ∀ seen x t t', seen ++ [x] <+: xs → P seen t → f t x = .ok t' → P (seen ++ [x]) t')
    (start : P [] s) (returns : xs.foldlM f s = .ok s') : P xs s' := by
  induction xs using List.reverseRecOn generalizing s' with
  | nil =>
    obtain rfl := pure_eq_ok.mp returns
    exact start
  | append_singleton seen x ih =>
    obtain ⟨t, before, last⟩ := foldlM_snoc.mp returns
    have held : P seen t :=
      ih (fun seen' y u u' within => step seen' y u u' (within.trans (List.prefix_append ..))) before
    exact step seen x t s' (List.prefix_refl _) held last

/-- A loop whose passes all return, while `P` holds, returns. -/
theorem foldlM_returns
    (step : ∀ seen x t, seen ++ [x] <+: xs → P seen t → ∃ t', f t x = .ok t' ∧ P (seen ++ [x]) t')
    (start : P [] s) : ∃ s', xs.foldlM f s = .ok s' ∧ P xs s' := by
  induction xs using List.reverseRecOn with
  | nil => exact ⟨s, rfl, start⟩
  | append_singleton seen x ih =>
    obtain ⟨t, before, held⟩ :=
      ih fun seen' y u within => step seen' y u (within.trans (List.prefix_append ..))
    obtain ⟨t', last, kept⟩ := step seen x t (List.prefix_refl _) held
    exact ⟨t', foldlM_snoc.mpr ⟨t, before, last⟩, kept⟩

end Loop

section Count

variable {f : Nat → α → Except ε Nat} {xs : List α} {n n' : Nat}

/-- A counter that no pass lowers is not lowered by the loop. -/
theorem foldlM_le (grows : ∀ n x n', f n x = .ok n' → n ≤ n') (returns : xs.foldlM f n = .ok n') :
    n ≤ n' :=
  foldlM_invariant (P := fun _ t => n ≤ t)
    (fun _ x t t' _ low step => Nat.le_trans low (grows t x t' step)) (Nat.le_refl n) returns

/-- It ends where it started exactly if no pass counts. -/
theorem foldlM_eq_start (grows : ∀ n x n', f n x = .ok n' → n ≤ n') :
    xs.foldlM f n = .ok n ↔ ∀ x ∈ xs, f n x = .ok n := by
  induction xs with
  | nil => simp
  | cons x xs ih =>
    rw [List.foldlM_cons, bind_eq_ok, List.forall_mem_cons, ← ih]
    constructor
    · rintro ⟨t, first, rest⟩
      obtain rfl := Nat.le_antisymm (grows n x t first) (foldlM_le grows rest)
      exact ⟨first, rest⟩
    · rintro ⟨first, rest⟩
      exact ⟨n, first, rest⟩

end Count

end AxiDma.Lib
