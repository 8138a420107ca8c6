import Mathlib.Logic.Function.Iterate

/-! # Runs of a synchronous machine

A clocked design is a function `step : σ → ι → σ` from the state before a clock
edge and the inputs of the cycle to the state after the edge.  `run` iterates it
over a list of inputs, one for each cycle; `LegalRun` restricts every cycle to
what the environment may do in the state it meets.  Since both quantify over
lists of any length, a statement about the last state of every legal run is a
statement about every reachable state.
-/

namespace AxiDma.Lib

variable {σ ι : Type*}

/-! ## Runs -/

/-- The state reached from `s` on the inputs `is`, one for each clock cycle. -/
def run (step : σ → ι → σ) : σ → List ι → σ
  | s, [] => s
  | s, i :: is => run step (step s i) is

/-- Every cycle of the run from `s` on `is` meets `legal` in its own state. -/
def LegalRun (step : σ → ι → σ) (legal : σ → ι → Prop) : σ → List ι → Prop
  | _, [] => True
  | s, i :: is => legal s i ∧ LegalRun step legal (step s i) is

instance LegalRun.decidable {step : σ → ι → σ} {legal : σ → ι → Prop}
    [∀ s i, Decidable (legal s i)] : ∀ s is, Decidable (LegalRun step legal s is)
  | _, [] => isTrue trivial
  | s, i :: is =>
    match (inferInstance : Decidable (legal s i)), decidable (step s i) is with
    | isTrue first, isTrue rest => isTrue ⟨first, rest⟩
    | isFalse first, _ => isFalse fun both => first both.1
    | _, isFalse rest => isFalse fun both => rest both.2

variable {step : σ → ι → σ} {legal : σ → ι → Prop}

@[simp] theorem run_nil (s : σ) : run step s [] = s := rfl

@[simp] theorem run_cons (s : σ) (i : ι) (is : List ι) :
    run step s (i :: is) = run step (step s i) is := rfl

theorem run_append (s : σ) (is js : List ι) :
    run step s (is ++ js) = run step (run step s is) js := by
  induction is generalizing s with
  | nil => rfl
  | cons i is ih => exact ih (step s i)

theorem run_snoc (s : σ) (is : List ι) (i : ι) :
    run step s (is ++ [i]) = step (run step s is) i := run_append s is [i]

theorem legalRun_append {s : σ} {is js : List ι} :
    LegalRun step legal s (is ++ js) ↔
      LegalRun step legal s is ∧ LegalRun step legal (run step s is) js := by
  induction is generalizing s with
  | nil => simp [LegalRun]
  | cons i is ih => simp only [List.cons_append, LegalRun, run_cons, ih, and_assoc]

theorem legalRun_snoc {s : σ} {is : List ι} {i : ι} :
    LegalRun step legal s (is ++ [i]) ↔
      LegalRun step legal s is ∧ legal (run step s is) i := by
  simp [legalRun_append, LegalRun]

theorem LegalRun.mono {legal' : σ → ι → Prop} (weaker : ∀ s i, legal s i → legal' s i)
    {s : σ} {is : List ι} (runs : LegalRun step legal s is) : LegalRun step legal' s is := by
  induction is generalizing s with
  | nil => trivial
  | cons i is ih => exact ⟨weaker s i runs.1, ih runs.2⟩

theorem LegalRun.and {legal' : σ → ι → Prop} {s : σ} {is : List ι}
    (runs : LegalRun step legal s is) (runs' : LegalRun step legal' s is) :
    LegalRun step (fun s i => legal s i ∧ legal' s i) s is := by
  induction is generalizing s with
  | nil => trivial
  | cons i is ih => exact ⟨⟨runs.1, runs'.1⟩, ih runs.2 runs'.2⟩

/-! ## The invariant rule -/

/-- A predicate that a legal step preserves holds in every state of a legal run. -/
theorem LegalRun.invariant {P : σ → Prop}
    (preserved : ∀ s i, P s → legal s i → P (step s i))
    {s : σ} (initial : P s) {is : List ι} (runs : LegalRun step legal s is) :
    P (run step s is) := by
  induction is generalizing s with
  | nil => exact initial
  | cons i is ih => exact ih (preserved s i initial runs.1) runs.2

/-- A predicate that every step preserves holds in every state of a run. -/
theorem run_invariant {P : σ → Prop} (preserved : ∀ s i, P s → P (step s i)) {s : σ}
    (initial : P s) (is : List ι) : P (run step s is) := by
  induction is generalizing s with
  | nil => exact initial
  | cons i is ih => exact ih (preserved s i initial)

/-- In runs of an environment `env`: if the legal steps are exactly those that keep a
    predicate, the legal runs are exactly those that meet it in every state they reach. -/
theorem LegalRun.iff_always {env : σ → ι → Prop} {P : σ → Prop}
    (exact : ∀ s i, P s → env s i → (P (step s i) ↔ legal s i)) {s : σ} (initial : P s) {is : List ι}
    (runs : LegalRun step env s is) :
    LegalRun step legal s is ↔ ∀ pre, pre <+: is → P (run step s pre) := by
  induction is generalizing s with
  | nil => simpa [LegalRun] using initial
  | cons i is ih =>
    constructor
    · rintro ⟨first, rest⟩ pre prefixed
      cases pre with
      | nil => exact initial
      | cons j pre =>
        obtain ⟨rfl, tail⟩ := List.cons_prefix_cons.mp prefixed
        exact (ih ((exact s j initial runs.1).mpr first) runs.2).mp rest pre tail
    · intro always
      have next : P (step s i) := always [i] (by simp)
      refine ⟨(exact s i initial runs.1).mp next, (ih next runs.2).mpr fun pre prefixed => ?_⟩
      exact always (i :: pre) (List.cons_prefix_cons.mpr ⟨rfl, prefixed⟩)

theorem legalRun_true (s : σ) (is : List ι) : LegalRun step (fun _ _ => True) s is := by
  induction is generalizing s with
  | nil => trivial
  | cons i is ih => exact ⟨trivial, ih (step s i)⟩

theorem legalRun_iff_always {P : σ → Prop}
    (exact : ∀ s i, P s → (P (step s i) ↔ legal s i)) {s : σ} (initial : P s) {is : List ι} :
    LegalRun step legal s is ↔ ∀ pre, pre <+: is → P (run step s pre) :=
  LegalRun.iff_always (fun s i held _ => exact s i held) initial (legalRun_true s is)

/-- A measure that no legal step raises, and every active one lowers until it is 0, bounds
    the active steps to 0. -/
theorem LegalRun.exhaust {P : σ → Prop} {μ : σ → Nat} (active : ι → Bool)
    (preserved : ∀ s i, P s → legal s i → P (step s i))
    (falls : ∀ s i, P s → legal s i → μ (step s i) ≤ μ s - (active i).toNat)
    {s : σ} (initial : P s) {is : List ι} (runs : LegalRun step legal s is) :
    μ (run step s is) ≤ μ s - is.countP active := by
  induction is generalizing s with
  | nil => exact Nat.le_refl _
  | cons i is ih =>
    have rest := ih (preserved s i initial runs.1) runs.2
    have first := falls s i initial runs.1
    rw [run_cons, List.countP_cons]
    cases works : active i with
    | true =>
      rw [works, Bool.toNat_true] at first
      rw [if_pos rfl]
      omega
    | false =>
      rw [works, Bool.toNat_false] at first
      rw [if_neg Bool.false_ne_true]
      omega

/-- A measure that every legal step lowers, until it is 0, bounds the steps to 0. -/
theorem LegalRun.countdown {P : σ → Prop} {μ : σ → Nat}
    (preserved : ∀ s i, P s → legal s i → P (step s i))
    (falls : ∀ s i, P s → legal s i → μ (step s i) ≤ μ s - 1)
    {s : σ} (initial : P s) {is : List ι} (runs : LegalRun step legal s is) :
    μ (run step s is) ≤ μ s - is.length := by
  have bound := runs.exhaust (fun _ => true) preserved falls initial
  rwa [List.countP_true] at bound

/-! ## Termination of a closed machine -/

/-- A closed machine with a measure that falls in every cycle before `done` reaches `done` in
    at most as many cycles, and meets its invariant there. -/
theorem exists_iterate_le_of_measure {step : σ → σ} {Inv : σ → Prop} (done : σ → Prop) (μ : σ → Nat)
    (progress : ∀ s, Inv s → ¬ done s → Inv (step s) ∧ μ (step s) < μ s)
    {s : σ} (initial : Inv s) : ∃ n ≤ μ s, done (step^[n] s) ∧ Inv (step^[n] s) := by
  induction bound : μ s using Nat.strongRecOn generalizing s with
  | ind m ih =>
    by_cases finished : done s
    · exact ⟨0, Nat.zero_le m, finished, initial⟩
    · obtain ⟨inv, falls⟩ := progress s initial finished
      obtain ⟨n, within, reached⟩ := ih (μ (step s)) (bound ▸ falls) inv rfl
      exact ⟨n + 1, by omega, by simpa only [Function.iterate_succ_apply] using reached⟩

/-- A closed machine with a measure that falls in every cycle before `done`
    reaches `done`, and meets its invariant there. -/
theorem exists_iterate_of_measure {step : σ → σ} {Inv : σ → Prop} (done : σ → Prop) (μ : σ → Nat)
    (progress : ∀ s, Inv s → ¬ done s → Inv (step s) ∧ μ (step s) < μ s)
    {s : σ} (initial : Inv s) : ∃ n, done (step^[n] s) ∧ Inv (step^[n] s) := by
  obtain ⟨n, -, reached⟩ := exists_iterate_le_of_measure done μ progress initial
  exact ⟨n, reached⟩

/-- A closed machine in which every cycle before `done` has one of at most `most` events, or
    none while a detail of at most `deep` gets smaller. -/
theorem exists_iterate_le_of_events {step : σ → σ} {Inv : σ → Prop} (done : σ → Prop)
    (events detail : σ → Nat) {most deep : Nat}
    (few : ∀ s, Inv s → events s ≤ most) (short : ∀ s, Inv s → detail s ≤ deep)
    (preserved : ∀ s, Inv s → Inv (step s))
    (progress : ∀ s, Inv s → ¬ done s → events s < events (step s) ∨
      events (step s) = events s ∧ detail (step s) < detail s)
    {s : σ} (initial : Inv s) :
    ∃ n ≤ (deep + 1) * (most - events s) + deep, done (step^[n] s) ∧ Inv (step^[n] s) := by
  obtain ⟨n, within, reached⟩ := exists_iterate_le_of_measure done
    (fun s => (deep + 1) * (most - events s) + detail s) (fun s inv running => by
      refine ⟨preserved s inv, ?_⟩
      have next := preserved s inv
      have bounded := few _ next
      have small := short _ next
      rcases progress s inv running with event | ⟨same, falls⟩
      · -- an event pays for any detail
        have left : most - events s = most - events (step s) + (events (step s) - events s) := by omega
        have one : deep + 1 ≤ (deep + 1) * (events (step s) - events s) :=
          Nat.le_mul_of_pos_right _ (by omega)
        rw [left, Nat.mul_add]
        omega
      · rw [same]
        omega) initial
  have small := short s initial
  exact ⟨n, by omega, reached⟩

theorem iterate_invariant {step : σ → σ} {P : σ → Prop}
    (preserved : ∀ s, P s → P (step s)) {s : σ} (initial : P s) (n : Nat) :
    P (step^[n] s) := by
  induction n with
  | zero => exact initial
  | succ n ih => rw [Function.iterate_succ_apply']; exact preserved _ ih

/-- A bit that is clear at first, stays when it is set, and is set at some time rises exactly once. -/
theorem exists_rise {bit : Nat → Bool} (stays : ∀ n, bit n = true → bit (n + 1) = true)
    (clear : bit 0 = false) {m : Nat} (set : bit m = true) :
    ∃ n < m, bit n = false ∧ bit (n + 1) = true ∧ ∀ j, bit j = false → bit (j + 1) = true → j = n := by
  have kept {a b : Nat} (le : a ≤ b) (set : bit a = true) : bit b = true := by
    obtain ⟨d, rfl⟩ := Nat.exists_eq_add_of_le le
    induction d with
    | zero => exact set
    | succ d ih => exact stays _ (ih (Nat.le_add_right a d))
  induction m with
  | zero => exact absurd (clear.symm.trans set) Bool.false_ne_true
  | succ m ih =>
    cases before : bit m with
    | true =>
      obtain ⟨n, less, rise⟩ := ih before
      exact ⟨n, Nat.lt_succ_of_lt less, rise⟩
    | false =>
      refine ⟨m, Nat.lt_succ_self m, before, set, fun j low high => ?_⟩
      rcases Nat.lt_trichotomy j m with less | rfl | greater
      · exact absurd (before.symm.trans (kept less high)) Bool.false_ne_true
      · rfl
      · exact absurd (low.symm.trans (kept greater set)) Bool.false_ne_true

end AxiDma.Lib
