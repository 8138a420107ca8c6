import AxiDma.Lib.Program
import AxiDma.Lib.Run

/-! # Programs on a clocked device

A program waits at every operation until the device answers, and the device is clocked all the
while.  `Ensures` is total correctness of such a program under any delays: the environment may
hold up what it likes, and only the cycles in which it holds up nothing are counted.
-/

namespace AxiDma.Lib

/-- A device that a program operates. -/
structure Device (σ ι Op : Type) (Answer : Op → Type) where
  /-- The clock edge, beside the operation that waits. -/
  step : σ → ι → Option Op → σ
  answer : σ → ι → (op : Op) → Option (Answer op)
  /-- The environment holds up nothing in this cycle. -/
  prompt : ι → Bool

structure Driven (σ Op : Type) (Answer : Op → Type) (α : Type) where
  state : σ
  prog : Program Op Answer α

variable {σ ι Op α β : Type} {Answer : Op → Type} {d : Device σ ι Op Answer}

/-- One cycle: an operation that is answered hands over to the next one. -/
def Driven.step (d : Device σ ι Op Answer) (c : Driven σ Op Answer α) (i : ι) : Driven σ Op Answer α :=
  match c.prog with
  | .done a => ⟨d.step c.state i none, .done a⟩
  | .act op next =>
    ⟨d.step c.state i (some op),
      match d.answer c.state i op with
      | some answer => next answer
      | none => .act op next⟩

/-- The program has returned and `post` holds, or it has cycles left. -/
def Driven.Meets (post : α → σ → Prop) (cycles : Nat) (c : Driven σ Op Answer α) : Prop :=
  match c.prog with
  | .done a => post a c.state
  | .act _ _ => 0 < cycles

/-- The program returns within `cycles` prompt cycles, and from then on `post` holds. -/
def Ensures (d : Device σ ι Op Answer) (post : α → σ → Prop) (cycles : Nat)
    (c : Driven σ Op Answer α) : Prop :=
  ∀ is, (run (Driven.step d) c is).Meets post (cycles - is.countP d.prompt)

theorem countP_cons (active : ι → Bool) (i : ι) (is : List ι) :
    (i :: is).countP active = (active i).toNat + is.countP active := by
  cases works : active i <;> simp [works, Nat.add_comm]

namespace Ensures

variable {post : α → σ → Prop} {cycles : Nat} {c : Driven σ Op Answer α} {s : σ}

theorem meets (ensures : Ensures d post cycles c) : c.Meets post cycles := ensures []

/-- The invariant rule, with the cycles that are left as an index. -/
theorem of_inv (inv : Nat → Driven σ Op Answer α → Prop)
    (preserved : ∀ n c i, inv n c → inv (n - (d.prompt i).toNat) (c.step d i))
    (sound : ∀ n c, inv n c → c.Meets post n) (initial : inv cycles c) : Ensures d post cycles c := by
  intro is
  induction is generalizing cycles c with
  | nil => exact sound _ _ initial
  | cons i is ih =>
    rw [run_cons, countP_cons, ← Nat.sub_sub]
    exact ih (preserved cycles c i initial)

theorem step (ensures : Ensures d post cycles c) (i : ι) :
    Ensures d post (cycles - (d.prompt i).toNat) (c.step d i) := by
  intro is
  have whole := ensures (i :: is)
  rwa [run_cons, countP_cons, ← Nat.sub_sub] at whole

/-- What holds of a program that has returned stays so if the device keeps it by itself. -/
theorem done {a : α} (kept : ∀ s i, post a s → post a (d.step s i none)) (holds : post a s) :
    Ensures d post cycles ⟨s, .done a⟩ :=
  of_inv (fun _ c => c.prog = .done a ∧ post a c.state)
    (fun _ c i inv => by
      obtain ⟨state, prog⟩ := c
      obtain ⟨rfl, holds⟩ := inv
      exact ⟨rfl, kept state i holds⟩)
    (fun _ c inv => by
      obtain ⟨state, prog⟩ := c
      obtain ⟨rfl, holds⟩ := inv
      exact holds)
    ⟨rfl, holds⟩

theorem mono {post' : α → σ → Prop} {cycles' : Nat} (ensures : Ensures d post cycles c)
    (weaker : ∀ a s, post a s → post' a s) (more : cycles ≤ cycles') : Ensures d post' cycles' c := by
  intro is
  have meets := ensures is
  unfold Driven.Meets at *
  split at meets
  · exact weaker _ _ meets
  · omega

theorem within {cycles' : Nat} (ensures : Ensures d post cycles c) (more : cycles ≤ cycles') :
    Ensures d post cycles' c := ensures.mono (fun _ _ => id) more

/-- Sequencing: the cycles of both programs add up. -/
theorem bind {mid : α → σ → Prop} {post : β → σ → Prop} {m n : Nat} {p : Program Op Answer α}
    {f : α → Program Op Answer β} (first : Ensures d mid m ⟨s, p⟩)
    (second : ∀ a s, mid a s → Ensures d post n ⟨s, f a⟩) : Ensures d post (m + n) ⟨s, p >>= f⟩ := by
  intro is
  induction is generalizing m s p with
  | nil =>
    cases p with
    | done a => exact ((second a s first.meets).within (Nat.le_add_left n m)).meets
    | act op next => exact Nat.lt_of_lt_of_le first.meets (Nat.le_add_right m n)
  | cons i is ih =>
    cases p with
    | done a => exact (second a s first.meets).within (Nat.le_add_left n m) (i :: is)
    | act op next =>
      have some : 0 < m := first.meets
      have rest := ih (first.step i)
      have prompt := Bool.toNat_le (d.prompt i)
      have same : (⟨s, .act op next >>= f⟩ : Driven σ Op Answer β).step d i =
          ⟨((⟨s, .act op next⟩ : Driven σ Op Answer α).step d i).state,
            ((⟨s, .act op next⟩ : Driven σ Op Answer α).step d i).prog >>= f⟩ := by
        simp only [Driven.step, Program.act_bind]
        cases d.answer s i op <;> rfl
      have left : m + n - (d.prompt i).toNat = m - (d.prompt i).toNat + n := by omega
      rw [run_cons, countP_cons, ← Nat.sub_sub, left, same]
      exact rest

/-- Execution: where each operation has the effect of `env` within its `cost`, so has the
    program, at their total cost. -/
theorem exec {τ : Type} {env : τ → (op : Op) → Answer op × τ} {allowed : τ → Op → Prop}
    {At : τ → σ → Prop} {cost : Op → Nat} (each : ∀ t s op, allowed t op → At t s →
      Ensures d (fun a s => a = (env t op).1 ∧ At (env t op).2 s) (cost op) ⟨s, .call op⟩)
    (kept : ∀ t s i, At t s → At t (d.step s i none)) {t : τ} {p : Program Op Answer α}
    (along : p.Along env allowed t) (at' : At t s) :
    Ensures d (fun a s => a = (p.exec env t).1 ∧ At (p.exec env t).2 s) (p.total env cost t) ⟨s, p⟩ := by
  induction p generalizing t s with
  | done a => exact done (fun s i held => ⟨held.1, kept t s i held.2⟩) ⟨rfl, at'⟩
  | act op next ih =>
    obtain ⟨allows, along⟩ := along
    refine (each t s op allows at').bind (f := next) fun a s held => ?_
    obtain ⟨rfl, at'⟩ := held
    exact ih _ along at'

end Ensures

/-- Simulation: a device `d'` that follows `d` in every cycle, as long as the operations are
    `allowed`, and holds up no more. -/
structure Simulates {σ' ι' : Type} (d : Device σ ι Op Answer) (d' : Device σ' ι' Op Answer)
    (allowed : Op → Prop) (inputs : ι' → ι) (R : σ → σ' → Prop) : Prop where
  step : ∀ s s' i op, (∀ o, op = some o → allowed o) → R s s' →
    R (d.step s (inputs i) op) (d'.step s' i op)
  answer : ∀ s s' i op, allowed op → R s s' → d'.answer s' i op = d.answer s (inputs i) op
  prompt : ∀ i, d'.prompt i = true → d.prompt (inputs i) = true

section Simulation

variable {σ' ι' : Type} {d' : Device σ' ι' Op Answer} {allowed : Op → Prop} {inputs : ι' → ι}
  {R : σ → σ' → Prop} {s : σ} {s' : σ'} {p : Program Op Answer α}

theorem Simulates.driven (simulates : Simulates d d' allowed inputs R) (only : p.Only allowed)
    (related : R s s') (i : ι') : ∃ p' : Program Op Answer α, p'.Only allowed ∧
      R (Driven.step d ⟨s, p⟩ (inputs i)).state (Driven.step d' ⟨s', p⟩ i).state ∧
        (Driven.step d ⟨s, p⟩ (inputs i)).prog = p' ∧ (Driven.step d' ⟨s', p⟩ i).prog = p' := by
  cases p with
  | done a => exact ⟨.done a, only, simulates.step s s' i none (fun o some => by cases some) related, rfl, rfl⟩
  | act op next =>
    have next' := simulates.step s s' i (some op) (fun o some => by cases some; exact only.1) related
    have same := simulates.answer s s' i op only.1 related
    cases answered : d.answer s (inputs i) op with
    | none =>
      rw [answered] at same
      exact ⟨.act op next, only, next', by simp only [Driven.step, answered], by simp only [Driven.step, same]⟩
    | some answer =>
      rw [answered] at same
      exact ⟨next answer, only.2 answer, next', by simp only [Driven.step, answered],
        by simp only [Driven.step, same]⟩

/-- What a program ensures on `d` it ensures on a device that follows `d`. -/
theorem Ensures.transfer {post : α → σ → Prop} {cycles : Nat} (simulates : Simulates d d' allowed inputs R)
    (only : p.Only allowed) (related : R s s') (ensures : Ensures d post cycles ⟨s, p⟩) :
    Ensures d' (fun a s' => ∃ s, R s s' ∧ post a s) cycles ⟨s', p⟩ := by
  refine Ensures.of_inv (fun n c' => ∃ s, R s c'.state ∧ c'.prog.Only allowed ∧
    Ensures d post n ⟨s, c'.prog⟩) ?_ ?_ ⟨s, related, only, ensures⟩
  · intro n c' i inv
    obtain ⟨s', p⟩ := c'
    obtain ⟨s, related, only, ensures⟩ := inv
    obtain ⟨p', only', related', same, same'⟩ := simulates.driven only related i
    have next := ensures.step (inputs i)
    refine ⟨_, related', same'.symm ▸ only', ?_⟩
    have prompt : (d'.prompt i).toNat ≤ (d.prompt (inputs i)).toNat := by
      cases all : d'.prompt i with
      | false => exact Nat.zero_le _
      | true => exact Nat.le_of_eq (congrArg Bool.toNat (simulates.prompt i all).symm)
    have both : (Driven.step d ⟨s, p⟩ (inputs i)) =
        ⟨(Driven.step d ⟨s, p⟩ (inputs i)).state, (Driven.step d' ⟨s', p⟩ i).prog⟩ := by
      rw [same', ← same]
    rw [← both]
    exact next.within (Nat.sub_le_sub_left prompt n)
  · intro n c' inv
    obtain ⟨s', p⟩ := c'
    obtain ⟨s, related, -, ensures⟩ := inv
    cases p with
    | done a => exact ⟨s, related, ensures.meets⟩
    | act op next => exact ensures.meets

end Simulation

end AxiDma.Lib
