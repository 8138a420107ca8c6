import AxiDma.Lib.Run
import Mathlib.Data.List.Induction

/-! # Sticky bits

A sticky bit is set by some cycles and dropped by others.  `HeldSince` says over the
whole history what the bit should show: some cycle set it, and no later cycle dropped it.
-/

namespace AxiDma.Lib

variable {σ ι : Type*}

/-- Some cycle of the run from `s` on `is` meets `sets`, and every later one meets `keeps`. -/
def HeldSince (step : σ → ι → σ) (sets keeps : σ → ι → Prop) (s : σ) (is : List ι) : Prop :=
  ∃ pre i post, is = pre ++ i :: post ∧ sets (run step s pre) i ∧
    LegalRun step keeps (run step s (pre ++ [i])) post

/-- What one cycle does to a sticky bit: a cycle that sets it wins over a drop. -/
def IsLatch (step : σ → ι → σ) (sets keeps : σ → ι → Prop) (bit : σ → Bool) : Prop :=
  ∀ s i, bit (step s i) = true ↔ sets s i ∨ keeps s i ∧ bit s = true

variable {step : σ → ι → σ} {sets keeps : σ → ι → Prop} {bit : σ → Bool} {s : σ}

theorem not_heldSince_nil : ¬ HeldSince step sets keeps s [] := by
  rintro ⟨pre, i, post, split, -⟩
  exact absurd split (by simp)

/-- The last cycle sets the bit, or it keeps what the run before it held. -/
theorem heldSince_snoc {is : List ι} {i : ι} :
    HeldSince step sets keeps s (is ++ [i]) ↔
      sets (run step s is) i ∨ keeps (run step s is) i ∧ HeldSince step sets keeps s is := by
  constructor
  · rintro ⟨pre, j, post, split, set, kept⟩
    -- the cycle `j` is the last one or one of `is`
    induction post using List.reverseRecOn with
    | nil =>
      obtain ⟨rfl, rfl⟩ : is = pre ∧ i = j := by simpa using split
      exact Or.inl set
    | append_singleton post k =>
      obtain ⟨rfl, rfl⟩ : is = pre ++ j :: post ∧ i = k := by
        have assoc : is ++ [i] = (pre ++ j :: post) ++ [k] := by simpa using split
        simpa using List.append_inj' assoc rfl
      rw [legalRun_snoc, ← run_append] at kept
      rw [List.append_assoc, List.singleton_append] at kept
      exact Or.inr ⟨kept.2, pre, j, post, rfl, set, kept.1⟩
  · rintro (set | ⟨kept, pre, j, post, rfl, set, before⟩)
    · exact ⟨is, i, [], rfl, set, trivial⟩
    · refine ⟨pre, j, post ++ [i], by simp, set, legalRun_snoc.mpr ⟨before, ?_⟩⟩
      rw [← run_append, List.append_assoc]
      exact kept

/-- A bit that starts low and is set and dropped cycle by cycle shows its history. -/
theorem IsLatch.run_iff (latch : IsLatch step sets keeps bit) (low : bit s = false)
    (is : List ι) : bit (run step s is) = true ↔ HeldSince step sets keeps s is := by
  induction is using List.reverseRecOn with
  | nil => simp [low, not_heldSince_nil]
  | append_singleton is i ih => rw [run_snoc, latch, ih, heldSince_snoc]

end AxiDma.Lib
