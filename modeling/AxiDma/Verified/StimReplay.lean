import AxiDma.Host.Stimulus
import AxiDma.Verified.Sequential

/-! # The stimulus of a scenario, replayed

The driver writes a line for every change its rows make, and computes the address of a slot
a second time for it.  Sent to zeroed memories the lines give the memories and the registers
of the setup phase, and no TAIL write comes before the words of the slot it exposes.
-/

namespace AxiDma.Host.Stimulus

open AxiDma.Golden AxiDma.Lib

variable {smemWords sramWords : Nat} {t t' : Target} {w : World} {row : Row} {rows : List Row}

/-! ## Lines -/

def op : Stim → List Char
  | .sysmemWrite .. => sysmemWrite
  | .sramWrite .. => sramWrite
  | .csrWrite .. => csrWrite

def addr : Stim → Int
  | .sysmemWrite addr _ | .sramWrite addr _ => addr
  | .csrWrite offset _ => offset

def data : Stim → Int
  | .sysmemWrite _ data | .sramWrite _ data => data
  | .csrWrite _ data => data

/-- The text of a line is read back as its operation, address and data. -/
theorem sendLine_text (t : Target) (line : Stim) :
    sendLine t (text line) = send t (op line) (addr line) (data line) := by
  obtain ⟨width, shape⟩ :
      ∃ width, words line = [op line, formatHex width (addr line), formatHex 8 (data line)] := by
    cases line <;> exact ⟨_, rfl⟩
  have word : op line ≠ [] ∧ (op line).all (fun c => !isSpace c) = true ∧ (op line).head? ≠ some '#' := by
    cases line <;> exact ⟨List.cons_ne_nil _ _, rfl, by simp [op, sysmemWrite, sramWrite, csrWrite]⟩
  have plain : ∀ c ∈ op line, isSpace c = false := by simpa using word.2.1
  have split : splitWords (text line) = words line := by
    rw [text, shape]
    refine splitWords_intercalate (by simp) fun part member => ?_
    simp only [List.mem_cons, List.not_mem_nil, or_false] at member
    rcases member with rfl | rfl | rfl
    · exact ⟨word.1, plain⟩
    · exact ⟨formatHex_ne_nil _ _, fun _ => isSpace_of_mem_formatHex⟩
    · exact ⟨formatHex_ne_nil _ _, fun _ => isSpace_of_mem_formatHex⟩
  have number (width : Nat) (x : Int) : parseInt (formatHex width x) = .ok x := by
    rw [parseInt, readHex_formatHex]
    rfl
  rw [sendLine, split, shape]
  dsimp only
  rw [if_neg word.2.2, number, ok_bind, number, ok_bind]

theorem sendStim_append (t : Target) (first second : List (List Char)) :
    sendStim t (first ++ second) = sendStim t first >>= fun t => sendStim t second :=
  List.foldlM_append

theorem sendStim_cons (t : Target) (line : Stim) (lines : List Stim) :
    sendStim t ((line :: lines).map text) =
      send t (op line) (addr line) (data line) >>= fun t => sendStim t (lines.map text) := by
  rw [List.map_cons, sendStim, List.foldlM_cons, sendLine_text]
  rfl

/-! ## One row -/

/-- The target holds the memories of the model, and its registers but for CTRL. -/
structure Mirrors (t : Target) (w : World) : Prop where
  smem : t.smem = w.sysmem.mem
  sram : t.sram = w.sram.mem
  csr : ∀ offset, offset ≠ CSR.regCtrl → t.csr.read offset = w.csr.read offset

theorem send_sysmem {a v : Int} {i : Nat} (index : pyIndex t.smem.length (a >>> (2 : Nat)) = some i) :
    send t sysmemWrite a v = .ok { t with smem := t.smem.set i (maskInt v) } := by
  rw [send, if_pos rfl, store_int_eq_ok.mpr ⟨i, index, rfl⟩]
  rfl

theorem send_sram {a v : Int} {i : Nat} (index : pyIndex t.sram.length (a >>> (2 : Nat)) = some i) :
    send t sramWrite a v = .ok { t with sram := t.sram.set i (maskInt v) } := by
  rw [send, if_neg (by decide), if_pos rfl, store_int_eq_ok.mpr ⟨i, index, rfl⟩]
  rfl

theorem send_csr {offset : Nat} {v : Int} (other : offset ≠ 0x10) :
    send t csrWrite offset v = .ok { t with csr := t.csr.write offset v } := by
  rw [send, if_neg (by decide), if_neg (by decide), if_pos rfl, if_neg (by omega), Int.toNat_natCast]
  rfl

theorem Mirrors.set (mirrors : Mirrors t w) (offset value : Nat) :
    Mirrors { t with csr := t.csr.set offset value } { w with csr := w.csr.set offset value } where
  smem := mirrors.smem
  sram := mirrors.sram
  csr other plain := by
    by_cases here : other = offset
    · subst here
      rw [CSR.read_set_self, CSR.read_set_self]
    · rw [CSR.read_set_of_ne here, CSR.read_set_of_ne here]
      exact mirrors.csr other plain

theorem word_of_row (wi : Int) : (wi * 4) >>> (2 : Nat) = wi := by
  rw [Int.shiftRight_eq_div_pow]
  omega

theorem word_of_slot (slot i : Nat) : ((slot + 4 * i : Nat) : Int) >>> (2 : Nat) =
    ((slot / 4 + i : Nat) : Int) := by
  rw [Int.shiftRight_eq_div_pow]
  omega

theorem pyIndex_natCast {length i : Nat} (inside : i < length) : pyIndex length i = some i := by
  rw [pyIndex_eq_some]
  omega

theorem Mirrors.sendRow_plain (mirrors : Mirrors t w) (accepted : row.Accepted w)
    (plain : row.isDesc = false) :
    ∃ t', sendStim t ((row.lines w).map text) = .ok t' ∧ Mirrors t' (row.applied w) := by
  cases row with
  | smem wi value =>
    obtain ⟨i, index⟩ := Option.isSome_iff_exists.mp accepted
    rw [Row.lines, sendStim_cons, op, addr, data, send_sysmem (i := i)]
    · refine ⟨_, rfl, ?_, mirrors.sram, mirrors.csr⟩
      rw [maskInt_natCast (maskInt_lt value), mirrors.smem, Row.applied, index]
      rfl
    · rw [word_of_row, mirrors.smem, index]
  | sram wi value =>
    obtain ⟨i, index⟩ := Option.isSome_iff_exists.mp accepted
    rw [Row.lines, sendStim_cons, op, addr, data, send_sram (i := i)]
    · refine ⟨_, rfl, mirrors.smem, ?_, mirrors.csr⟩
      rw [maskInt_natCast (maskInt_lt value), mirrors.sram, Row.applied, index]
      rfl
    · rw [word_of_row, mirrors.sram, index]
  | csrBaseaddr value =>
    rw [Row.lines, sendStim_cons, op, addr, data, send_csr (by decide)]
    refine ⟨_, rfl, ?_⟩
    rw [CSR.write_plain _ (.inl rfl), maskInt_natCast (maskInt_lt value)]
    exact mirrors.set CSR.regBaseaddr (maskInt value)
  | csrRinglen value =>
    rw [Row.lines, sendStim_cons, op, addr, data, send_csr (by decide)]
    refine ⟨_, rfl, ?_⟩
    rw [CSR.write_plain _ (.inr rfl)]
    exact mirrors.set CSR.regRinglen (maskInt value)
  | enable =>
    refine ⟨t, rfl, mirrors.smem, mirrors.sram, fun offset other => ?_⟩
    rw [Row.applied, CSR.write_ctrl, CSR.read_set_of_ne other]
    exact mirrors.csr offset other
  | other => exact ⟨t, rfl, mirrors⟩
  | desc => cases plain

/-- The lines of a post but for the TAIL write. -/
def slotLines (w : World) (src dst len flags : Int) : List Stim :=
  [.sysmemWrite ↑(slotOf w + 0) (maskInt src), .sysmemWrite ↑(slotOf w + 4) (maskInt dst),
    .sysmemWrite ↑(slotOf w + 8) (maskInt len), .sysmemWrite ↑(slotOf w + 12) (maskInt flags)]

theorem descOf_words (src dst len flags : Int) :
    descOf src dst len flags = ⟨maskInt src, maskInt dst, maskInt len, maskInt flags⟩ := by
  have small (x : Int) : maskInt x &&& mask32 = maskInt x := by
    rw [and_mask32, Nat.mod_eq_of_lt (maskInt_lt x)]
  rw [descOf, Descriptor.init, small, small, small, small]

/-- They write the four words of the slot. -/
theorem sendSlot {src dst len flags : Int} {a : Nat} (slot : slotOf w / 4 = a)
    (fits : a + 4 ≤ t.smem.length) :
    sendStim t ((slotLines w src dst len flags).map text) =
      .ok { t with smem := writeSlot t.smem a (descOf src dst len flags) } := by
  have word {mem : List Nat} (i : Nat) (near : i < 4) (length : mem.length = t.smem.length) :
      pyIndex mem.length (((slotOf w + 4 * i : Nat) : Int) >>> (2 : Nat)) = some (a + i) := by
    rw [word_of_slot, slot, length]
    exact pyIndex_natCast (by omega)
  have masked (x : Int) : maskInt ↑(maskInt x) = maskInt x := maskInt_natCast (maskInt_lt x)
  rw [slotLines, sendStim_cons, op, addr, data, send_sysmem (word 0 (by decide) rfl), ok_bind,
    sendStim_cons, op, addr, data, send_sysmem (word 1 (by decide) (by simp only [List.length_set])),
    ok_bind, sendStim_cons, op, addr, data,
    send_sysmem (word 2 (by decide) (by simp only [List.length_set])), ok_bind, sendStim_cons, op,
    addr, data, send_sysmem (word 3 (by decide) (by simp only [List.length_set])), ok_bind, masked,
    masked, masked, masked, writeSlot, descOf_words]
  rfl

theorem Mirrors.sendDesc {n : Nat} {src dst len flags : Int} (mirrors : Mirrors t w)
    (posting : Posting n w) (accepted : (Row.desc src dst len flags).Accepted w)
    (slot : slotOf w / 4 = tailWord w) :
    sendStim t ((slotLines w src dst len flags).map text) =
      .ok { t with smem := writeSlot t.smem (tailWord w) (descOf src dst len flags) } ∧
    ∃ t', sendStim t (((Row.desc src dst len flags).lines w).map text) = .ok t' ∧
      Mirrors t' ((Row.desc src dst len flags).applied w) := by
  have room := posting.below accepted
  have wide : w.csr.ringlen &&& mask32 < 2 ^ 32 := by
    rw [and_mask32]
    omega
  have words : sendStim t ((slotLines w src dst len flags).map text) = _ :=
    sendSlot slot (by rw [mirrors.smem]; exact accepted.2.2)
  have split : (Row.desc src dst len flags).lines w = slotLines w src dst len flags ++
      [.csrWrite CSR.regTail ↑((w.posted (descOf src dst len flags)).csr.read CSR.regTail)] := rfl
  refine ⟨words, ?_⟩
  rw [split, List.map_append, sendStim_append, words, ok_bind, sendStim_cons, op, addr, data,
    send_csr (by decide)]
  refine ⟨_, rfl, ?_⟩
  have tail : (w.posted (descOf src dst len flags)).csr.read CSR.regTail = n + 1 := by
    rw [World.posted, CSR.read_set_self, posting.tail, Nat.mod_eq_of_lt room]
  rw [tail, CSR.write_regTail _ (by omega)]
  constructor
  · rw [Row.applied, World.posted, mirrors.smem]
  · exact mirrors.sram
  · intro offset other
    by_cases here : offset = CSR.regTail
    · subst here
      rw [CSR.read_set_self]
      exact tail.symm
    · rw [CSR.read_set_of_ne here, mirrors.csr offset other]
      exact (CSR.read_set_of_ne here).symm

/-! ## The whole file -/

/-- Whatever comes before a TAIL write has filled the slot that the write exposes. -/
def TailFollows (start : Target) (rows : List Row) (stim : List Stim) : Prop :=
  ∀ before (v : Int), before ++ [.csrWrite CSR.regTail v] <+: stim →
    ∃ r d, sendStim start (before.map text) = .ok r ∧
      (rows.filterMap Row.desc?)[r.csr.read CSR.regTail]? = some d ∧
      v = ↑(r.csr.read CSR.regTail) + 1 ∧
      Holds r.smem ((r.csr.read CSR.regBaseaddr + 16 * r.csr.read CSR.regTail) / 4) d

theorem prefix_of_notMem {α : Type} {before xs ys : List α} {x : α}
    (within : before ++ [x] <+: xs ++ ys) (other : x ∉ ys) : before ++ [x] <+: xs := by
  induction ys using List.reverseRecOn with
  | nil => rwa [List.append_nil] at within
  | append_singleton ys y ih =>
    rw [List.mem_append, List.mem_singleton, not_or] at other
    rw [← List.append_assoc, List.prefix_concat_iff] at within
    rcases within with whole | shorter
    · exact absurd (List.append_inj' whole rfl).2 (by simpa using other.2)
    · exact ih shorter other.1

theorem TailFollows.more {start : Target} {stim lines : List Stim}
    (follows : TailFollows start rows stim) (row : Row)
    (silent : ∀ v, .csrWrite CSR.regTail v ∉ lines) :
    TailFollows start (rows ++ [row]) (stim ++ lines) := by
  intro before v within
  obtain ⟨r, d, sent, known, eq, held⟩ := follows before v (prefix_of_notMem within (silent v))
  refine ⟨r, d, sent, ?_, eq, held⟩
  have inList := (List.getElem?_eq_some_iff.mp known).1
  rw [List.filterMap_append, List.getElem?_append_left inList, known]

/-- What has been sent after the rows `seen`. -/
structure Replayed (start : Target) (s : Setup) (seen : List Row) (t : Setup) : Prop where
  reached : seen.foldlM setupRow s = .ok t
  mirrored : ∃ r, sendStim start (t.stim.map text) = .ok r ∧ Mirrors r t.world
  follows : TailFollows start seen t.stim

/-- The driver computes the address that the post computes. -/
theorem slotOf_div {n : Nat} (posting : Posting n w) (below : n < w.csr.ringlen &&& mask32)
    (inside : RingManager.base w / 4 + 4 * n < 2 ^ 32) :
    slotOf w / 4 = tailWord w ∧ (RingManager.base w + 16 * n) / 4 = tailWord w := by
  have slot : slotOf w = RingManager.base w + n * 16 := by
    rw [slotOf, posting.tail_eq, Nat.mod_eq_of_lt below]
    rfl
  rw [slot, tailWord, posting.tail, Nat.mod_eq_of_lt below, descriptorSizeBytes]
  omega

theorem Replayed.next {start : Target} {s t t' : Setup} {seen : List Row}
    (built : Built smemWords sramWords s.world) (fresh : Posting 0 s.world)
    (low : s.world.csr.baseaddr < 2 ^ 32) (ordered : RegistersFirst rows)
    (small : smemWords < 2 ^ 32) (within : seen ++ [row] <+: rows)
    (replayed : Replayed start s seen t) (step : setupRow t row = .ok t') :
    Replayed start s (seen ++ [row]) t' := by
  obtain ⟨reached, ⟨r, sent, mirrors⟩, follows⟩ := replayed
  have before : RegistersFirst seen :=
    List.Pairwise.sublist ((List.prefix_append _ _).trans within).sublist ordered
  have builtHere := (setup_frame built reached).1
  have posting := setup_posting built fresh before reached
  obtain ⟨accepted, rfl⟩ := (setupRow_eq_ok builtHere).mp step
  have further {lines : List Stim} : sendStim start ((t.stim ++ lines).map text) =
      sendStim r (lines.map text) := by
    rw [List.map_append, sendStim_append, sent, ok_bind]
  have extended := foldlM_snoc.mpr ⟨t, reached, step⟩
  cases kind : row.isDesc with
  | false =>
    obtain ⟨r', sentRow, mirrors'⟩ := mirrors.sendRow_plain accepted kind
    refine ⟨extended, ⟨r', further.trans sentRow, mirrors'⟩, follows.more row fun v => ?_⟩
    cases row <;> simp [Row.lines, CSR.regTail, CSR.regBaseaddr, CSR.regRinglen, Row.isDesc] at kind ⊢
  | true =>
    obtain ⟨src, dst, len, flags, rfl⟩ :
        ∃ src dst len flags, row = .desc src dst len flags := by
      cases row <;> simp [Row.isDesc] at kind ⊢
    have room := posting.below accepted
    have inside : RingManager.base t.world / 4 + 4 * seen.countP Row.isDesc < 2 ^ 32 := by
      by_cases first : seen.countP Row.isDesc = 0
      · rw [first, RingManager.base, and_mask32]
        omega
      · have := setup_inside built fresh before small reached first
        omega
    obtain ⟨slot, address⟩ := slotOf_div posting (by omega) inside
    obtain ⟨words, r', sentRow, mirrors'⟩ := mirrors.sendDesc posting accepted slot
    refine ⟨extended, ⟨r', further.trans sentRow, mirrors'⟩, fun before v within => ?_⟩
    have split : (t.emit ((Row.desc src dst len flags).applied t.world)
        ((Row.desc src dst len flags).lines t.world)).stim =
        (t.stim ++ slotLines t.world src dst len flags) ++ [.csrWrite CSR.regTail
          ↑((t.world.posted (descOf src dst len flags)).csr.read CSR.regTail)] := by
      rw [List.append_assoc]
      rfl
    rw [split, List.prefix_concat_iff] at within
    rcases within with whole | earlier
    · obtain ⟨rfl, last⟩ := List.append_inj' whole rfl
      obtain rfl := (Stim.csrWrite.inj (List.singleton_inj.mp last)).2
      have tail : r.csr.read CSR.regTail = seen.countP Row.isDesc := by
        rw [mirrors.csr _ (by decide), posting.tail_eq]
      have base : r.csr.read CSR.regBaseaddr = t.world.csr.baseaddr := mirrors.csr _ (by decide)
      refine ⟨_, descOf src dst len flags, further.trans words, ?_, ?_, ?_⟩
      · rw [tail, List.filterMap_append, ← length_descs, List.getElem?_append_right (Nat.le_refl _),
          Nat.sub_self]
        rfl
      · rw [World.posted, CSR.read_set_self, posting.tail, Nat.mod_eq_of_lt room, tail]
        rfl
      · have plain : t.world.csr.baseaddr = RingManager.base t.world := by
          have lower := selects_baseaddr.read_lt low seen
          rw [← setup_world built reached] at lower
          rw [RingManager.base, and_mask32]
          exact (Nat.mod_eq_of_lt lower).symm
        have fits := accepted.2.2
        rw [base, tail, plain, address]
        refine holds_writeSlot ?_
        rw [mirrors.smem]
        omega
    · exact follows.more _ (by simp [slotLines]) before v earlier

/-- What a run returns of its setup phase. -/
theorem returned_setup {setup : Setup} {result : Result}
    (returns : (do let world ← buildWorld smemWords sramWords
                   rows.foldlM setupRow { world, stim := [] }) = .ok setup)
    (run : runScenario rows smemWords sramWords = .ok result) :
    result.stimLines = setup.stim ∧
      (result.initialSmem, result.initialSram) = setup.world.memories := by
  obtain ⟨world, built, rest⟩ := bind_eq_ok.mp returns
  rw [runScenario, built, ok_bind, rest, ok_bind] at run
  dsimp only at run
  split at run
  · obtain rfl := pure_eq_ok.mp run
    exact ⟨rfl, rfl⟩
  · obtain ⟨_, -, eq⟩ := bind_eq_ok.mp run
    obtain rfl := pure_eq_ok.mp eq
    exact ⟨rfl, rfl⟩

/-- The stimulus is faithful.  Sent to zeroed memories and reset registers, the lines of a
    setup phase that returned leave the memories a run returns as the initial ones, and the
    ring registers of the model; the lines before a TAIL write have filled the slot that the
    write exposes. -/
theorem stim_faithful {setup : Setup} (ordered : RegistersFirst rows) (small : smemWords < 2 ^ 32)
    (returns : (do let world ← buildWorld smemWords sramWords
                   rows.foldlM setupRow { world, stim := [] }) = .ok setup) :
    (∃ t, sendStim (.reset smemWords sramWords) (setup.stim.map text) = .ok t ∧
      (t.smem, t.sram) = setup.world.memories ∧
      ∀ offset ∈ [CSR.regBaseaddr, CSR.regRinglen, CSR.regTail],
        t.csr.read offset = setup.world.csr.read offset) ∧
    (∀ result, runScenario rows smemWords sramWords = .ok result →
      result.stimLines = setup.stim ∧
        (result.initialSmem, result.initialSram) = setup.world.memories) ∧
    TailFollows (.reset smemWords sramWords) rows setup.stim := by
  have rest := (setup_returns.mp returns).2
  obtain ⟨-, ⟨t, sent, mirrors⟩, follows⟩ := foldlM_invariant
    (P := Replayed (.reset smemWords sramWords) { world := .fresh smemWords sramWords, stim := [] })
    (fun seen row t t' within replayed step =>
      replayed.next built_fresh posting_fresh (Nat.two_pow_pos 32) ordered small within step)
    ⟨rfl, ⟨_, rfl, rfl, rfl, fun _ _ => rfl⟩, fun before v within => by simp at within⟩ rest
  refine ⟨⟨t, sent, Prod.ext mirrors.smem mirrors.sram, fun offset member => ?_⟩,
    fun result => returned_setup returns, follows⟩
  refine mirrors.csr offset ?_
  rintro rfl
  simp [CSR.regCtrl, CSR.regBaseaddr, CSR.regRinglen, CSR.regTail] at member

/-- A preload into the ring, an unaligned base, and a preload behind the posts. -/
def overlapping : List Row :=
  [.smem 5 9, .csrBaseaddr 18, .csrRinglen 4, .desc 0 4 1 1, .smem 5 77, .desc 4 8 1 0, .sram 2 6,
    .enable]

theorem overlapping_is_faithful :
    ∃ t, sendStim (.reset 16 4) ([.sysmemWrite 20 9, .csrWrite 0 18, .csrWrite 4 4,
        .sysmemWrite 18 0, .sysmemWrite 22 4, .sysmemWrite 26 1, .sysmemWrite 30 1, .csrWrite 12 1,
        .sysmemWrite 20 77, .sysmemWrite 34 4, .sysmemWrite 38 8, .sysmemWrite 42 1,
        .sysmemWrite 46 0, .csrWrite 12 2, .sramWrite 8 6].map text) = .ok t ∧
      (t.smem, t.sram) = ([0, 0, 0, 0, 0, 77, 1, 1, 4, 8, 1, 0, 0, 0, 0, 0], [0, 0, 6, 0]) ∧
      t.csr.read CSR.regTail = 2 := by
  obtain ⟨setup, returns, stim, memories, tail⟩ :
      ∃ setup, (do let world ← buildWorld 16 4
                   overlapping.foldlM setupRow { world, stim := [] }) = .ok setup ∧
        setup.stim = [.sysmemWrite 20 9, .csrWrite 0 18, .csrWrite 4 4,
          .sysmemWrite 18 0, .sysmemWrite 22 4, .sysmemWrite 26 1, .sysmemWrite 30 1,
          .csrWrite 12 1, .sysmemWrite 20 77, .sysmemWrite 34 4, .sysmemWrite 38 8,
          .sysmemWrite 42 1, .sysmemWrite 46 0, .csrWrite 12 2, .sramWrite 8 6] ∧
        setup.world.memories =
          ([0, 0, 0, 0, 0, 77, 1, 1, 4, 8, 1, 0, 0, 0, 0, 0], [0, 0, 6, 0]) ∧
        setup.world.csr.read CSR.regTail = 2 :=
    ⟨_, rfl, by decide +kernel, by decide +kernel, by decide +kernel⟩
  obtain ⟨⟨t, sent, same, registers⟩, -, -⟩ := stim_faithful (by decide) (by decide) returns
  rw [stim] at sent
  exact ⟨t, sent, same.trans memories, (registers _ (by decide)).trans tail⟩

end AxiDma.Host.Stimulus
