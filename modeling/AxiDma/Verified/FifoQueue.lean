import AxiDma.Lib.CircularBuffer
import AxiDma.Rtl.Fifo

/-! # The FIFO as a queue

`contents` reads a state of `Fifo` as the list of its untaken words.  A cycle
removes the head when `rd_en` meets a word, appends `din` when `wr_en` meets a
FIFO that is not full, and computes `empty` from what is left before the append
(`contents_step`, `empty_step`).  The users of the FIFO cite these equations and
never look at pointers.
-/

namespace AxiDma.Rtl.Fifo

open AxiDma.Lib

variable {k : Nat} {α : Type}

/-- The number of words accepted and not taken. -/
def level (f : Fifo k α) : Nat := distance f.rdAddr f.wrAddr

/-- The untaken words, oldest first. -/
def contents (f : Fifo k α) : List α :=
  cells (fun p : BitVec (k + 1) => f.fifoBuf (p.setWidth k)) (· + 1) f.rdAddr f.level

/-- At most `2 ^ k` words are held, and a low `empty` shows the oldest one. -/
structure Ok (f : Fifo k α) : Prop where
  level_le : f.level ≤ 2 ^ k
  shown : f.empty = false → f.level ≠ 0 ∧ f.dout = f.fifoBuf (f.rdAddr.setWidth k)

def accepted (f : Fifo k α) (i : In α) : List α := if i.wrEn && !f.full then [i.din] else []

/-- The words a cycle leaves in the queue before it accepts one. -/
def remaining (f : Fifo k α) (i : In α) : List α :=
  if i.rdEn then f.contents.tail else f.contents

/-! ## Reading a state -/

@[simp] theorem length_contents (f : Fifo k α) : f.contents.length = f.level := length_cells ..

theorem contents_eq_nil_iff {f : Fifo k α} : f.contents = [] ↔ f.level = 0 := by
  rw [← List.length_eq_zero_iff, length_contents]

theorem emptyT_eq_false_iff {f : Fifo k α} : f.emptyT = false ↔ f.level ≠ 0 := by
  rw [emptyT, beq_eq_false_iff_ne, level, ne_eq, ne_eq, distance_eq_zero_iff]

theorem full_iff {f : Fifo k α} : f.full = true ↔ f.contents.length = 2 ^ k := by
  simp [full, level, distance_eq_two_pow_iff]

theorem full_eq_false_iff {f : Fifo k α} : f.full = false ↔ f.contents.length ≠ 2 ^ k := by
  rw [← Bool.not_eq_true, full_iff]

theorem full_eq_false_of_lt {f : Fifo k α} (room : f.contents.length < 2 ^ k) :
    f.full = false := full_eq_false_iff.mpr (Nat.ne_of_lt room)

/-- A low `empty` shows the oldest untaken word. -/
theorem Ok.contents_eq_cons {f : Fifo k α} (ok : f.Ok) (shows : f.empty = false) :
    f.contents = f.dout :: f.contents.tail := by
  obtain ⟨some, head⟩ := ok.shown shows
  obtain ⟨n, count⟩ := Nat.exists_eq_succ_of_ne_zero some
  rw [contents, count, cells_succ, head]
  rfl

theorem Ok.length_le {f : Fifo k α} (ok : f.Ok) : f.contents.length ≤ 2 ^ k := by
  rw [length_contents]; exact ok.level_le

/-! ## Reset -/

theorem level_reset (f : Fifo k α) : f.reset.level = 0 := by simp [level, reset, distance]

@[simp] theorem contents_reset (f : Fifo k α) : f.reset.contents = [] :=
  contents_eq_nil_iff.mpr (level_reset f)

theorem ok_reset (f : Fifo k α) : f.reset.Ok :=
  ⟨by rw [level_reset]; exact Nat.zero_le _, by simp [reset]⟩

/-! ## One cycle -/

/-- The distance from the next read pointer to the old write pointer. -/
theorem distance_rdAddrT (f : Fifo k α) (i : In α) :
    distance (f.rdAddrT i) f.wrAddr = (f.remaining i).length := by
  by_cases reads : i.rdEn = true
  · by_cases word : f.level = 0
    · have none : f.emptyT = true := by
        simpa using mt (emptyT_eq_false_iff (f := f)).mp (not_not.mpr word)
      simp only [rdAddrT, remaining, reads, none, Bool.not_true, Bool.and_false, if_true,
        List.length_tail, length_contents, word]
      exact word
    · have some : f.emptyT = false := emptyT_eq_false_iff.mpr word
      simp only [rdAddrT, remaining, reads, some, Bool.not_false, Bool.and_true, if_true,
        List.length_tail, length_contents]
      exact distance_advance_rd word
  · simp [rdAddrT, remaining, reads, level]

/-- The cells from the next read pointer to the old write pointer. -/
theorem cells_rdAddrT (f : Fifo k α) (i : In α) :
    cells (fun p : BitVec (k + 1) => f.fifoBuf (p.setWidth k)) (· + 1) (f.rdAddrT i)
      (f.remaining i).length = f.remaining i := by
  by_cases reads : i.rdEn = true
  · by_cases word : f.level = 0
    · have nothing : f.remaining i = [] := by
        simp [remaining, reads, contents_eq_nil_iff.mpr word]
      simp [nothing]
    · have some : f.emptyT = false := emptyT_eq_false_iff.mpr word
      obtain ⟨n, count⟩ := Nat.exists_eq_succ_of_ne_zero word
      have rest : f.remaining i =
          cells (fun p : BitVec (k + 1) => f.fifoBuf (p.setWidth k)) (· + 1) (f.rdAddr + 1) n := by
        rw [remaining, if_pos reads, contents, count, cells_succ, List.tail_cons]
      rw [rest, length_cells, rdAddrT, reads, some]
      rfl
  · have all : f.remaining i = f.contents := by simp [remaining, reads]
    have stays : f.rdAddrT i = f.rdAddr := by simp [rdAddrT, reads]
    rw [all, length_contents, stays, contents]

theorem length_remaining_le (f : Fifo k α) (i : In α) :
    (f.remaining i).length ≤ f.contents.length := by
  rw [remaining]
  split
  · rw [List.length_tail]; omega
  · exact Nat.le_refl _

theorem room_of_writes {f : Fifo k α} (ok : f.Ok) {i : In α}
    (writes : (i.wrEn && !f.full) = true) : f.contents.length < 2 ^ k := by
  have notFull : f.full = false := by simp_all
  have := full_eq_false_iff.mp notFull
  have := ok.length_le
  omega

/-- The word written in a cycle lies past every word that stays. -/
theorem cells_step_rdAddrT {f : Fifo k α} (ok : f.Ok) (i : In α) :
    cells (fun p : BitVec (k + 1) => (f.step i).fifoBuf (p.setWidth k)) (· + 1) (f.rdAddrT i)
      (f.remaining i).length = f.remaining i := by
  by_cases writes : (i.wrEn && !f.full) = true
  · have room := room_of_writes ok writes
    have bound := length_remaining_le f i
    rw [← cells_rdAddrT f i, length_cells]
    apply cells_congr
    intro j before
    have other : ((· + 1)^[j] (f.rdAddrT i)).setWidth k ≠ f.wrAddr.setWidth k := by
      rw [← add_distance (f.rdAddrT i) f.wrAddr, distance_rdAddrT, iterate_add_one]
      exact setWidth_add_ne before (by omega)
    simp only [step, writes, if_true, Function.update_of_ne other]
  · have same : (f.step i).fifoBuf = f.fifoBuf := by simp only [step, writes]; rfl
    rw [same, cells_rdAddrT]

/-- A cycle of the FIFO on its contents. -/
theorem contents_step {f : Fifo k α} (ok : f.Ok) (i : In α) :
    (f.step i).contents = f.remaining i ++ f.accepted i := by
  by_cases writes : (i.wrEn && !f.full) = true
  · have room := room_of_writes ok writes
    have bound := length_remaining_le f i
    have far : (f.step i).level = (f.remaining i).length + 1 := by
      simp only [level, step, wrAddrT, writes, if_true]
      rw [distance_advance_wr, distance_rdAddrT]
      rw [distance_rdAddrT]
      omega
    have last : (· + 1)^[(f.remaining i).length] (f.rdAddrT i) = f.wrAddr := by
      rw [iterate_add_one, ← distance_rdAddrT, add_distance]
    have added : (f.step i).fifoBuf (f.wrAddr.setWidth k) = i.din := by
      simp [step, writes]
    rw [contents, far, cells_snoc]
    change cells _ _ (f.rdAddrT i) _ ++ [(f.step i).fifoBuf
      (((· + 1)^[(f.remaining i).length] (f.rdAddrT i)).setWidth k)] = _
    rw [cells_step_rdAddrT ok, last, added, accepted, if_pos writes]
  · have same : (f.step i).level = (f.remaining i).length := by
      simp only [level, step, wrAddrT, writes]
      exact distance_rdAddrT f i
    rw [contents, same, accepted, if_neg writes, List.append_nil]
    exact cells_step_rdAddrT ok i

/-- `empty` looks at the old write pointer: the word of this cycle is not seen yet. -/
theorem empty_step (f : Fifo k α) (i : In α) :
    (f.step i).empty = (f.remaining i).isEmpty := by
  rw [Bool.eq_iff_iff, List.isEmpty_iff, ← List.length_eq_zero_iff, ← distance_rdAddrT,
    distance_eq_zero_iff]
  exact beq_iff_eq

theorem ok_step {f : Fifo k α} (ok : f.Ok) (i : In α) : (f.step i).Ok := by
  have count := congrArg List.length (contents_step ok i)
  rw [length_contents, List.length_append] at count
  constructor
  · have bound := length_remaining_le f i
    have := ok.length_le
    rw [count, accepted]
    split
    · have := room_of_writes ok (i := i) ‹_›
      rw [List.length_singleton]
      omega
    · rw [List.length_nil]
      omega
  · intro shows
    rw [empty_step, List.isEmpty_eq_false_iff_exists_mem] at shows
    obtain ⟨_, member⟩ := shows
    have some := List.length_pos_of_mem member
    obtain ⟨n, length⟩ := Nat.exists_eq_succ_of_ne_zero some.ne'
    -- the buffers before and after the write agree on the first cell that stays
    have agree := (cells_rdAddrT f i).trans (cells_step_rdAddrT ok i).symm
    rw [length, cells_succ, cells_succ, List.cons.injEq] at agree
    exact ⟨by omega, agree.1⟩

/-! ## The writer's and the reader's side

A writer that stops at `full` loses nothing; a reader that raises `rd_en` only when
`empty` is low takes exactly `dout`. -/

def written (i : In α) : List α := if i.wrEn then [i.din] else []

/-- The words a cycle shows to a reader that takes them. -/
def taken (f : Fifo k α) (i : In α) : List α := if i.rdEn then [f.dout] else []

@[simp] theorem length_written (i : In α) : (written i).length = i.wrEn.toNat := by
  cases writes : i.wrEn <;> simp [written, writes]

@[simp] theorem length_taken (f : Fifo k α) (i : In α) : (f.taken i).length = i.rdEn.toNat := by
  cases reads : i.rdEn <;> simp [taken, reads]

/-- The two sides keep to their flags. -/
structure Respects (f : Fifo k α) (i : In α) : Prop where
  room : i.wrEn = true → f.full = false
  shows : i.rdEn = true → f.empty = false

theorem contents_of_read {f : Fifo k α} (ok : f.Ok) {i : In α} (reads : i.rdEn = true)
    (shows : f.empty = false) : f.contents = f.dout :: f.remaining i := by
  rw [remaining, if_pos reads]
  exact ok.contents_eq_cons shows

/-- A reader that keeps to `empty` takes the oldest word. -/
theorem contents_eq_taken {f : Fifo k α} (ok : f.Ok) {i : In α}
    (shows : i.rdEn = true → f.empty = false) : f.contents = f.taken i ++ f.remaining i := by
  cases reads : i.rdEn with
  | true => simpa [taken, reads] using contents_of_read ok reads (shows reads)
  | false => simp [taken, remaining, reads]

/-- Conservation: what was held and what is written is what is taken and what is
    held after the cycle. -/
theorem Respects.flow {f : Fifo k α} {i : In α} (respects : f.Respects i) (ok : f.Ok) :
    f.contents ++ written i = f.taken i ++ (f.step i).contents := by
  have accepts : f.accepted i = written i := by
    cases writes : i.wrEn with
    | true => simp [accepted, written, writes, respects.room writes]
    | false => simp [accepted, written, writes]
  rw [contents_step ok, accepts, ← List.append_assoc, ← contents_eq_taken ok respects.shows]

/-- Two logs that a queue separates, after a cycle. -/
theorem Respects.conserve {f : Fifo k α} {i : In α} (respects : f.Respects i) (ok : f.Ok)
    {into outOf : List α} (held : into = outOf ++ f.contents) :
    into ++ written i = (outOf ++ f.taken i) ++ (f.step i).contents := by
  rw [held, List.append_assoc, respects.flow ok, List.append_assoc]

theorem remaining_of_idle {f : Fifo k α} {i : In α} (idle : i.rdEn = false) :
    f.remaining i = f.contents := by simp [remaining, idle]

/-- Without a read, a word that is shown stays shown. -/
theorem shows_of_idle {f : Fifo k α} (ok : f.Ok) {i : In α} (idle : i.rdEn = false)
    (shows : f.empty = false) : (f.step i).empty = false := by
  rw [empty_step, remaining_of_idle idle, ok.contents_eq_cons shows]
  rfl

/-- Without a read, the word itself stays as well, whatever is written behind it. -/
theorem dout_of_idle {f : Fifo k α} (ok : f.Ok) {i : In α} (idle : i.rdEn = false)
    (shows : f.empty = false) : (f.step i).dout = f.dout := by
  have after := (ok_step ok i).contents_eq_cons (shows_of_idle ok idle shows)
  rw [contents_step ok, remaining_of_idle idle, ok.contents_eq_cons shows, List.cons_append] at after
  exact (List.cons.inj after).1.symm

end AxiDma.Rtl.Fifo
