import AxiDma.Lib.Run
import AxiDma.Verified.FifoQueue

/-! # The FIFO over whole runs

`History` logs the words the FIFO accepts and the words its reader takes.  The contents
are what separates the two logs, so the flags can be read off them.
-/

namespace AxiDma.Verified

open AxiDma.Lib AxiDma.Rtl

/-- A FIFO, the words it has accepted and the words taken from it. -/
structure History (k : Nat) (α : Type) where
  fifo : Fifo k α
  accepted : List α
  taken : List α

namespace History

variable {k : Nat} {α : Type}

/-- After the reset, whatever the buffer and the output register hold. -/
def start (f : Fifo k α) : History k α := { fifo := f.reset, accepted := [], taken := [] }

def step (h : History k α) (i : Fifo.In α) : History k α :=
  { fifo := h.fifo.step i
    accepted := h.accepted ++ h.fifo.accepted i
    taken := h.taken ++ h.fifo.taken i }

/-- The reader raises `rd_en` only while `empty` is low; the writer is free. -/
def Reads (h : History k α) (i : Fifo.In α) : Prop := i.rdEn = true → h.fifo.empty = false

instance (h : History k α) (i : Fifo.In α) : Decidable (Reads h i) :=
  inferInstanceAs (Decidable (_ → _))

structure Inv (h : History k α) : Prop where
  ok : h.fifo.Ok
  held : h.accepted = h.taken ++ h.fifo.contents

theorem inv_start (f : Fifo k α) : Inv (start f) := ⟨Fifo.ok_reset f, by simp [start]⟩

variable {h : History k α} {i j : Fifo.In α}

theorem Inv.step (inv : Inv h) (reads : Reads h i) : Inv (step h i) where
  ok := Fifo.ok_step inv.ok i
  held := by
    have queue := Fifo.contents_eq_taken inv.ok reads
    show h.accepted ++ h.fifo.accepted i = h.taken ++ h.fifo.taken i ++ (h.fifo.step i).contents
    rw [Fifo.contents_step inv.ok, inv.held, queue]
    simp only [List.append_assoc]

/-! ## Reading the flags off the logs -/

theorem Inv.full_iff (inv : Inv h) :
    h.fifo.full = true ↔ h.accepted.length = h.taken.length + 2 ^ k := by
  rw [Fifo.full_iff, inv.held, List.length_append, Nat.add_left_cancel_iff]

theorem Inv.oldest (inv : Inv h) (shows : h.fifo.empty = false) :
    h.accepted[h.taken.length]? = some h.fifo.dout := by
  rw [inv.held, List.getElem?_append_right (Nat.le_refl _), Nat.sub_self,
    inv.ok.contents_eq_cons shows]
  rfl

/-- The word of an empty queue is in `contents` after one cycle and shown after two. -/
theorem Inv.shown_after_two (inv : Inv h) (reads : LegalRun History.step Reads h [i, j])
    (drained : h.accepted = h.taken) (writes : i.wrEn = true) :
    (run History.step h [i, j]).fifo.empty = false := by
  have nothing : h.fifo.contents = [] := by
    have held := inv.held
    simpa [drained] using held
  have room : h.fifo.full = false :=
    Fifo.full_eq_false_of_lt (by rw [nothing]; exact Nat.two_pow_pos k)
  have stored : (History.step h i).fifo.contents = [i.din] := by
    show (h.fifo.step i).contents = _
    rw [Fifo.contents_step inv.ok, Fifo.remaining, Fifo.accepted, nothing, writes, room]
    simp
  have hidden : (History.step h i).fifo.empty = true := by
    show (h.fifo.step i).empty = true
    rw [Fifo.empty_step, Fifo.remaining, nothing]
    simp
  -- so the reader cannot take it in the second cycle
  have waits : j.rdEn = false := by
    by_contra takes
    rw [Bool.not_eq_false] at takes
    exact absurd (reads.2.1 takes) (by rw [hidden]; decide)
  show ((History.step h i).fifo.step j).empty = false
  rw [Fifo.empty_step, Fifo.remaining_of_idle waits, stored]
  rfl

end History

/-- The FIFO refines a bounded queue.  Over every run from the reset in which the
    reader keeps to `empty`: the taken words are a prefix of the accepted ones, `full` is
    up exactly with `2 ^ k` words untaken, a low `empty` shows the oldest untaken word,
    and a word accepted into an empty queue is shown two cycles later. -/
theorem fifo_refines_queue {k : Nat} {α : Type} (f : Fifo k α) {is : List (Fifo.In α)}
    (runs : LegalRun History.step History.Reads (History.start f) is) :
    let h := run History.step (History.start f) is
    h.taken <+: h.accepted ∧
      (h.fifo.full = true ↔ h.accepted.length = h.taken.length + 2 ^ k) ∧
        (h.fifo.empty = false → h.accepted[h.taken.length]? = some h.fifo.dout) ∧
          ∀ i j, LegalRun History.step History.Reads h [i, j] → h.accepted = h.taken →
            i.wrEn = true → (run History.step h [i, j]).fifo.empty = false := by
  have inv := runs.invariant (P := History.Inv) (fun _ _ inv reads => inv.step reads)
    (History.inv_start f)
  intro h
  refine ⟨⟨_, inv.held.symm⟩, inv.full_iff, inv.oldest, ?_⟩
  intro i j reads drained writes
  exact inv.shown_after_two reads drained writes

namespace History

/-- A FIFO of two cells of unknown contents. -/
def twoCells : Fifo 1 Nat :=
  { fifoBuf := fun _ => 9, wrAddr := 3, rdAddr := 2, dout := 9, empty := false }

/-- Three words are offered; the third meets a full FIFO, and the first is taken. -/
def threeOffered : List (Fifo.In Nat) :=
  [⟨true, 5, false⟩, ⟨true, 6, false⟩, ⟨true, 7, true⟩]

theorem threeOffered_oldest :
    (run step (start twoCells) threeOffered).accepted[1]? = some 6 := by
  have runs : LegalRun step Reads (start twoCells) threeOffered := by decide
  exact (fifo_refines_queue twoCells runs).2.2.1 (by decide)

end History

end AxiDma.Verified
