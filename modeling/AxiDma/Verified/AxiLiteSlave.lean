import AxiDma.Verified.CsrCore

/-! # One access to one of several slaves

A device may have several AXI4-Lite slaves, each with its window of addresses.  `Slave` is one of
them with the laws of its channels; the rules below are total correctness of a single access to it,
in terms of what a cycle without a commit keeps, what the commit does and what holds after it.
-/

namespace AxiDma.Verified

open AxiDma.Lib AxiDma.Rtl AxiDma.Firmware
open CsrCore (Delays bus)

/-- What a slave gets to see of an operation. -/
def asked (mine : Word → Bool) : Option Op → Option Op
  | some (.out32 addr data) => if mine addr then some (.out32 addr data) else none
  | some (.in32 addr) => if mine addr then some (.in32 addr) else none
  | _ => none

structure Slave {σ ι : Type} (d : Device σ ι Op Answer) where
  acts : ι → Delays
  mine : Word → Bool
  port : σ → WritePort
  rvalid : σ → Bool
  rdata : σ → Word
  /-- What the read mux shows. -/
  readData : σ → Word → Word
  port_step : ∀ s i op, port (d.step s i op) = (port s).next (bus (acts i) (asked mine op))
  rvalid_step : ∀ s i op, rvalid (d.step s i op) = if rvalid s then
    !(bus (acts i) (asked mine op)).rready else (bus (acts i) (asked mine op)).arvalid
  rdata_step : ∀ s i op, rdata (d.step s i op) =
    if !rvalid s && (bus (acts i) (asked mine op)).arvalid then
      readData s (bus (acts i) (asked mine op)).araddr else rdata s
  answer_out : ∀ s i addr data, mine addr = true →
    d.answer s i (.out32 addr data) = if (port s).bvalid && (acts i).b then some () else none
  answer_in : ∀ s i addr, mine addr = true →
    d.answer s i (.in32 addr) = if rvalid s && (acts i).r then some (rdata s) else none
  prompt : ∀ i, d.prompt i = true →
    ((acts i).aw = true ∧ (acts i).w = true ∧ (acts i).b = true) ∧ (acts i).ar = true ∧ (acts i).r = true

namespace Slave

variable {σ ι : Type} {d : Device σ ι Op Answer} {v : Slave d} {s : σ} {i : ι} {op : Option Op}
  {addr data : Word} {n : Nat}

/-- No access is under way. -/
structure Rest (v : Slave d) (s : σ) : Prop where
  port : (v.port s).Clean
  noData : v.rvalid s = false

theorem asked_out (here : v.mine addr = true) (data : Word) :
    asked v.mine (some (.out32 addr data)) = some (.out32 addr data) := if_pos here

theorem asked_in (here : v.mine addr = true) : asked v.mine (some (.in32 addr)) = some (.in32 addr) :=
  if_pos here

theorem Rest.step (rest : v.Rest s) (elsewhere : asked v.mine op = none) : v.Rest (d.step s i op) where
  port := by
    rw [v.port_step, elsewhere]
    exact rest.port.next rfl rfl
  noData := by
    rw [v.rvalid_step, elsewhere, rest.noData]
    rfl

/-! ## Writes -/

section Writing

variable {Before After : σ → Prop}

/-- A write before its commit. -/
structure Asking (v : Slave d) (Before : σ → Prop) (addr data : Word) (n : Nat) (s : σ) : Prop where
  holds : Before s
  serves : (v.port s).Serves addr data
  noAnswer : (v.port s).bvalid = false
  noData : v.rvalid s = false
  left : (if (v.port s).commits then 2 else 3) ≤ n

/-- A write between its commit and its response. -/
structure Answered (v : Slave d) (After : σ → Prop) (addr data : Word) (n : Nat) (s : σ) : Prop where
  holds : After s
  serves : (v.port s).Serves addr data
  answer : (v.port s).bvalid = true
  noData : v.rvalid s = false
  left : 1 ≤ n

/-- What one write has to show: what waits is kept up to the commit, which brings about what holds
    from then on, under the response and after it. -/
structure Writes (v : Slave d) (addr data : Word) (Before After : σ → Prop) : Prop where
  waits : ∀ s i, (v.port s).commits = false → v.rvalid s = false → Before s →
    Before (d.step s i (some (.out32 addr data)))
  lands : ∀ s i, (v.port s).commits = true → (v.port s).awaddr = addr → (v.port s).wdata = data →
    (v.port s).wstrb = 15 → v.rvalid s = false → Before s → After (d.step s i (some (.out32 addr data)))
  answers : ∀ s i, (v.port s).bvalid = true → v.rvalid s = false → After s →
    After (d.step s i (some (.out32 addr data)))
  stays : ∀ s i, v.Rest s → After s → After (d.step s i none)

theorem noData_out (here : v.mine addr = true) (noData : v.rvalid s = false) :
    v.rvalid (d.step s i (some (.out32 addr data))) = false := by
  rw [v.rvalid_step, asked_out here, noData]
  rfl

theorem port_out (here : v.mine addr = true) : v.port (d.step s i (some (.out32 addr data))) =
    (v.port s).next (bus (v.acts i) (some (.out32 addr data))) := by
  rw [v.port_step, asked_out here]

theorem Asking.step (here : v.mine addr = true) (writes : v.Writes addr data Before After)
    (asking : v.Asking Before addr data n s) :
    v.Asking Before addr data (n - (d.prompt i).toNat) (d.step s i (some (.out32 addr data))) ∨
      v.Answered After addr data (n - (d.prompt i).toNat) (d.step s i (some (.out32 addr data))) := by
  obtain ⟨holds, serves, noAnswer, noData, left⟩ := asking
  have prompt : (d.prompt i).toNat ≤ 1 := Bool.toNat_le _
  have noData' : v.rvalid (d.step s i (some (.out32 addr data))) = false := noData_out here noData
  have serves' : (v.port (d.step s i (some (.out32 addr data)))).Serves addr data := by
    rw [port_out here]
    exact serves.next rfl rfl rfl
  cases commits : (v.port s).commits with
  | true =>
    rw [commits, if_pos rfl] at left
    obtain ⟨toAddr, toData, full⟩ := serves.of_commits commits
    right
    exact
      { holds := writes.lands s i commits toAddr toData full noData holds
        serves := serves'
        answer := by
          rw [port_out here, WritePort.next, commits]
          rfl
        noData := noData'
        left := by omega }
  | false =>
    rw [commits, if_neg Bool.false_ne_true] at left
    left
    refine ⟨writes.waits s i commits noData holds, serves', ?_, noData', ?_⟩
    · rw [port_out here, WritePort.next, commits, noAnswer]
      rfl
    · -- a prompt cycle captures both halves
      cases all : d.prompt i with
      | false =>
        rw [Bool.toNat_false]
        split <;> omega
      | true =>
        obtain ⟨⟨aw, w, -⟩, -⟩ := v.prompt i all
        have one : (v.port s).awPending = true → (v.port s).wPending = false := by
          simpa [WritePort.commits, noAnswer] using commits
        have both : (v.port (d.step s i (some (.out32 addr data)))).commits = true := by
          rw [port_out here]
          cases first : (v.port s).awPending <;>
            simp [WritePort.commits, WritePort.next, noAnswer, WritePort.awHs, WritePort.wHs, bus, aw, w,
              first, one]
        rw [both, if_pos rfl, Bool.toNat_true]
        omega

theorem driven_out (here : v.mine addr = true) (s : σ) (i : ι) :
    Driven.step d ⟨s, out32 addr data⟩ i = ⟨d.step s i (some (.out32 addr data)),
      if (v.port s).bvalid && (v.acts i).b then .done () else out32 addr data⟩ := by
  simp only [Driven.step, out32, Program.call, v.answer_out s i addr data here]
  cases (v.port s).bvalid && (v.acts i).b <;> rfl

/-- A write takes three cycles: capture, commit and response. -/
theorem ensures_out32 (here : v.mine addr = true) (writes : v.Writes addr data Before After)
    (holds : Before s) (rest : v.Rest s) :
    Ensures d (fun _ s => After s ∧ v.Rest s) 3 ⟨s, out32 addr data⟩ := by
  -- the stages of a write: before the commit, before the response, returned
  refine Ensures.of_inv (fun n c => c.prog = out32 addr data ∧ (v.Asking Before addr data n c.state ∨
    v.Answered After addr data n c.state) ∨ c.prog = .done () ∧ After c.state ∧ v.Rest c.state) ?_ ?_ ?_
  · intro n c i inv
    obtain ⟨s, prog⟩ := c
    have prompt : (d.prompt i).toNat ≤ 1 := Bool.toNat_le _
    rcases inv with ⟨rfl, asking | answered⟩ | ⟨rfl, holds, rest⟩
    · rw [driven_out here, asking.noAnswer]
      exact .inl ⟨rfl, asking.step here writes⟩
    · obtain ⟨holds, serves, answer, noData, left⟩ := answered
      rw [driven_out here, answer, Bool.true_and]
      have holds' := writes.answers s i answer noData holds
      have noData' : v.rvalid (d.step s i (some (.out32 addr data))) = false := noData_out here noData
      cases ready : (v.acts i).b with
      | true =>
        refine .inr ⟨rfl, holds', ?_, noData'⟩
        rw [port_out here]
        exact serves.clean_next answer ready
      | false =>
        refine .inl ⟨rfl, .inr ⟨holds', ?_, ?_, noData', ?_⟩⟩
        · rw [port_out here]
          exact serves.next rfl rfl rfl
        · rw [port_out here, WritePort.next, answer]
          simp [bus, ready]
        · -- a prompt cycle takes the response
          cases all : d.prompt i with
          | false => exact left
          | true => exact absurd ((v.prompt i all).1.2.2.symm.trans ready) (by decide)
    · exact .inr ⟨rfl, writes.stays s i rest holds, rest.step rfl⟩
  · intro n c inv
    obtain ⟨s, prog⟩ := c
    rcases inv with ⟨rfl, asking | answered⟩ | ⟨rfl, after⟩
    · have left := asking.left
      change 0 < n
      split at left <;> omega
    · exact answered.left
    · exact after
  · refine .inl ⟨rfl, .inl ⟨holds, rest.port.serves, rest.port.2.2, rest.noData, ?_⟩⟩
    rw [rest.port.commits]
    exact Nat.le_refl 3

end Writing

/-! ## Reads -/

section Reading

variable {K : σ → Prop} {V : Word → σ → Prop}

/-- What one read has to show: `V` says of the value that is latched what goes on to hold. -/
structure Reads (v : Slave d) (addr : Word) (K : σ → Prop) (V : Word → σ → Prop) : Prop where
  kept : ∀ s i op, op = some (.in32 addr) ∨ op = none → (v.port s).Clean → K s → K (d.step s i op)
  latched : ∀ s i, (v.port s).Clean → K s → V (v.readData s addr) (d.step s i (some (.in32 addr)))
  stays : ∀ w s i op, op = some (.in32 addr) ∨ op = none → (v.port s).Clean → K s → V w s → V w (d.step s i op)

/-- A read before its data are latched, or with them. -/
def Waiting (v : Slave d) (V : Word → σ → Prop) (n : Nat) (s : σ) : Prop :=
  match v.rvalid s with
  | false => 2 ≤ n
  | true => V (v.rdata s) s ∧ 1 ≤ n

theorem driven_in (here : v.mine addr = true) (s : σ) (i : ι) :
    Driven.step d ⟨s, in32 addr⟩ i = ⟨d.step s i (some (.in32 addr)),
      if v.rvalid s && (v.acts i).r then .done (v.rdata s) else in32 addr⟩ := by
  simp only [Driven.step, in32, Program.call, v.answer_in s i addr here]
  cases v.rvalid s && (v.acts i).r <;> rfl

theorem clean_in (clean : (v.port s).Clean) (some : op = some (.in32 addr) ∨ op = none) :
    (v.port (d.step s i op)).Clean := by
  rw [v.port_step]
  cases some with
  | inl reads =>
    rw [reads, asked]
    split
    · exact clean.next rfl rfl
    · exact clean.next rfl rfl
  | inr none =>
    rw [none]
    exact clean.next rfl rfl

theorem Waiting.step (here : v.mine addr = true) (reads : v.Reads addr K V) (clean : (v.port s).Clean)
    (holds : K s) (waiting : v.Waiting V n s) :
    (v.rvalid s = true ∧ (v.acts i).r = true ∧ V (v.rdata s) (d.step s i (some (.in32 addr))) ∧
        v.rvalid (d.step s i (some (.in32 addr))) = false) ∨
      (v.rvalid s && (v.acts i).r) = false ∧
        v.Waiting V (n - (d.prompt i).toNat) (d.step s i (some (.in32 addr))) := by
  have prompt : (d.prompt i).toNat ≤ 1 := Bool.toNat_le _
  have valid := v.rvalid_step s i (some (.in32 addr))
  have latches := v.rdata_step s i (some (.in32 addr))
  rw [asked_in here] at valid latches
  unfold Waiting at waiting
  cases shown : v.rvalid s with
  | false =>
    rw [shown] at waiting valid latches
    right
    refine ⟨rfl, ?_⟩
    have next : v.rvalid (d.step s i (some (.in32 addr))) = (v.acts i).ar := valid
    cases ar : (v.acts i).ar with
    | true =>
      have data : v.rdata (d.step s i (some (.in32 addr))) = v.readData s addr := by
        rw [latches]
        simp [bus, ar]
      simp only [Waiting, next, ar, data]
      exact ⟨reads.latched s i clean holds, by omega⟩
    | false =>
      have late : d.prompt i = false := by
        by_contra all
        exact absurd ((v.prompt i (by simpa using all)).2.1.symm.trans ar) (by decide)
      simp only [Waiting, next, ar, late]
      exact waiting
  | true =>
    rw [shown] at waiting valid latches
    -- the data are out: they are taken, or held for the next cycle
    have value := reads.stays _ s i _ (.inl rfl) clean holds waiting.1
    have next : v.rvalid (d.step s i (some (.in32 addr))) = !(v.acts i).r := valid
    cases r : (v.acts i).r with
    | true => exact .inl ⟨rfl, rfl, value, by rw [next, r]; rfl⟩
    | false =>
      have data : v.rdata (d.step s i (some (.in32 addr))) = v.rdata s := latches
      have late : d.prompt i = false := by
        by_contra all
        exact absurd ((v.prompt i (by simpa using all)).2.2.symm.trans r) (by decide)
      right
      refine ⟨rfl, ?_⟩
      simp only [Waiting, next, r, data, late]
      exact ⟨value, waiting.2⟩

/-- A read takes two cycles: the data is that of the first. -/
theorem ensures_in32 (here : v.mine addr = true) (reads : v.Reads addr K V) (holds : K s)
    (rest : v.Rest s) : Ensures d (fun w s => (K s ∧ V w s) ∧ v.Rest s) 2 ⟨s, in32 addr⟩ := by
  -- waiting for the data or with them, and returned; the write channels stay clean throughout
  refine Ensures.of_inv (fun n c => (K c.state ∧ (v.port c.state).Clean) ∧ (c.prog = in32 addr ∧
    v.Waiting V n c.state ∨ ∃ w, c.prog = .done w ∧ V w c.state ∧ v.rvalid c.state = false)) ?_ ?_
    ⟨⟨holds, rest.port⟩, .inl ⟨rfl, by simp [Waiting, rest.noData]⟩⟩
  · intro n c i inv
    obtain ⟨s, prog⟩ := c
    obtain ⟨⟨holds, clean⟩, waits⟩ := inv
    cases waits with
    | inl waits =>
      obtain ⟨rfl, waiting⟩ := waits
      rw [driven_in here]
      refine ⟨⟨reads.kept s i _ (.inl rfl) clean holds, clean_in clean (.inl rfl)⟩, ?_⟩
      cases waiting.step (i := i) here reads clean holds with
      | inl taken =>
        obtain ⟨shown, ready, value, noData⟩ := taken
        rw [shown, ready]
        exact .inr ⟨v.rdata s, rfl, value, noData⟩
      | inr waits =>
        rw [waits.1]
        exact .inl ⟨rfl, waits.2⟩
    | inr returned =>
      obtain ⟨w, rfl, value, noData⟩ := returned
      have rest : v.Rest (d.step s i none) := Rest.step ⟨clean, noData⟩ rfl
      exact ⟨⟨reads.kept s i none (.inr rfl) clean holds, rest.port⟩,
        .inr ⟨w, rfl, reads.stays w s i none (.inr rfl) clean holds value, rest.noData⟩⟩
  · intro n c inv
    obtain ⟨s, prog⟩ := c
    obtain ⟨⟨holds, clean⟩, ⟨rfl, waiting⟩ | ⟨w, rfl, value, noData⟩⟩ := inv
    · unfold Waiting at waiting
      change 0 < n
      split at waiting
      · omega
      · exact waiting.2
    · exact ⟨⟨holds, value⟩, clean, noData⟩

end Reading

end Slave

end AxiDma.Verified
