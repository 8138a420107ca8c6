import AxiDma.Host.ParseStimulus
import AxiDma.Verified.Provenance

/-! # What `host_runner.py` predicts

The prediction looks a source word up among the words that the file lists, by its byte address.
The transfers before it may have brought another word there; `prediction_iff` compares the
listed word with the loaded word of the cell that this one comes from.
-/

namespace AxiDma.Host.HostRunner

open AxiDma.Golden AxiDma.Lib

variable {answered : List Bytes → Bool} {csrBaseAddr : Int} {lines : List (List Char)}
  {ds : List Directive} {d : Directive} {transfers : List Transfer} {s s' : Session}
  {base n i : Nat} {mem : Cell → Int}

/-! ## Sequential execution -/

/-- The descriptor in slot `i`. -/
def slotWords (mem : Cell → Int) (base i : Nat) : Descriptor :=
  { w0 := (mem (.smem (base / 4 + 4 * i))).toNat
    w1 := (mem (.smem (base / 4 + 4 * i + 1))).toNat
    w2 := (mem (.smem (base / 4 + 4 * i + 2))).toNat
    w3 := (mem (.smem (base / 4 + 4 * i + 3))).toNat }

/-- The memories after the first `i` slots, each descriptor as its slot holds it then. -/
def after (base : Nat) (mem : Cell → Int) : Nat → Cell → Int
  | 0 => mem
  | i + 1 => execMoves (slotWords (after base mem i) base i).moves (after base mem i)

/-- The words that the transfer of slot `i` copies. -/
def copied (base : Nat) (mem : Cell → Int) (i : Nat) : List Int :=
  let d := slotWords (after base mem i) base i
  (List.range d.beats).map fun j => after base mem i (d.source j)

/-- This is what the event loop of the golden model does. -/
theorem after_wordAt {m : List Nat × List Nat} (words : Words m)
    (space : base + 16 * n ≤ 2 ^ 32) (fits : RunFits base n m) :
    after base (fun c => ↑(wordAt m c)) n = fun c => ↑(wordAt (execSlots base n m) c) := by
  induction n with
  | zero => rfl
  | succ n ih =>
    have fitsBefore : RunFits base n m := fun j less => fits j (by omega)
    have wordsHere := (wordAt_execSlots words fitsBefore).1
    have same := ih (by omega) fitsBefore
    have slot : slotWords (fun c => ↑(wordAt (execSlots base n m) c)) base n =
        slotDesc base n (execSlots base n m) := by
      have addr : slotAddr base n / 4 = base / 4 + 4 * n := by
        rw [slotAddr, descriptorSizeBytes]
        omega
      have masked (c : Cell) : wordAt (execSlots base n m) c &&& mask32 =
          wordAt (execSlots base n m) c := by
        rw [and_mask32, Nat.mod_eq_of_lt (wordsHere c)]
      rw [slotDesc, addr, descAt, Descriptor.init, slotWords, Descriptor.mk.injEq]
      exact ⟨(masked (.smem _)).symm, (masked (.smem _)).symm, (masked (.smem _)).symm,
        (masked (.smem _)).symm⟩
    rw [after, same, slot]
    rw [(wordAt_execSlots words fits).2, runMoves_succ, execMoves_append,
      ← (wordAt_execSlots words fitsBefore).2]
    exact execMoves_comp fun x : Nat => (x : Int)

/-- The moves of the slots before `i`, as they are loaded. -/
def movesBefore (base : Nat) (mem : Cell → Int) (i : Nat) : List (Move Cell) :=
  (List.range i).flatMap fun j => (slotWords mem base j).moves

/-- No transfer writes a slot. -/
def RingKept (base n : Nat) (mem : Cell → Int) : Prop :=
  ∀ i < n, ∀ mv ∈ (slotWords mem base i).moves, ∀ k < 4 * n, mv.dst ≠ .smem (base / 4 + k)

/-- The slot under way is as it was loaded. -/
theorem slotWords_execMoves (kept : RingKept base n mem) (within : i < n) :
    slotWords (execMoves (movesBefore base mem i) mem) base i = slotWords mem base i := by
  have word {k : Nat} (small : k < 4) :
      execMoves (movesBefore base mem i) mem (.smem (base / 4 + 4 * i + k)) =
        mem (.smem (base / 4 + 4 * i + k)) := by
    rw [execMoves_of_ne]
    intro mv member
    obtain ⟨j, earlier, mine⟩ := List.mem_flatMap.mp member
    have := List.mem_range.mp earlier
    rw [Nat.add_assoc]
    exact kept j (by omega) mv mine _ (by omega)
  have first : execMoves (movesBefore base mem i) mem (.smem (base / 4 + 4 * i)) =
      mem (.smem (base / 4 + 4 * i)) := word (k := 0) (by decide)
  rw [slotWords, first, word (by decide), word (by decide), word (by decide)]
  rfl

theorem after_eq (kept : RingKept base n mem) (within : i ≤ n) :
    after base mem i = execMoves (movesBefore base mem i) mem := by
  induction i with
  | zero => rfl
  | succ i ih =>
    have before := ih (by omega)
    rw [after, before, slotWords_execMoves kept (by omega), movesBefore, movesBefore,
      List.range_succ, List.flatMap_append, List.flatMap_singleton, execMoves_append]

/-! ## What a file loads -/

def recordAll (ds : List Directive) : Images := ds.foldl Images.record .init

/-- The word that a directive leaves in the memories of the board. -/
def Directive.load (mem : Cell → Int) : Directive → Cell → Int
  | .sysmemWrite addr value => Function.update mem (.smem (addr.toNat / 4)) value
  | .sramWrite addr value => Function.update mem (.sram (addr.toNat / 4)) value
  | _ => mem

def loaded (ds : List Directive) : Cell → Int := ds.foldl Directive.load fun _ => 0

/-- What the last write to a register wrote. -/
def register (ds : List Directive) (offset : Int) : Int := (recordAll ds).csrWrites offset

/-- The numbers of a directive that was sent. -/
def Directive.InRange : Directive → Prop
  | .csrWrite _ value => 0 ≤ value
  | .sysmemWrite addr value | .sramWrite addr value => 0 ≤ addr ∧ 0 ≤ value
  | .sysmemRead _ | .sramRead _ | .skip => True

/-- The write is to a word address. -/
def Directive.Aligned : Directive → Prop
  | .sysmemWrite addr _ | .sramWrite addr _ => addr % 4 = 0
  | _ => True

theorem recordAll_snoc (ds : List Directive) (d : Directive) :
    recordAll (ds ++ [d]) = (recordAll ds).record d := by
  rw [recordAll, List.foldl_append]
  rfl

theorem loaded_snoc (ds : List Directive) (d : Directive) : loaded (ds ++ [d]) = d.load (loaded ds) := by
  rw [loaded, List.foldl_append]
  rfl

theorem loaded_nonneg (inRange : ∀ d ∈ ds, d.InRange) (c : Cell) : 0 ≤ loaded ds c := by
  induction ds using List.reverseRecOn with
  | nil => exact Int.le_refl 0
  | append_singleton ds d ih =>
    have before := ih fun d' member => inRange d' (List.mem_append_left [d] member)
    have here := inRange d (List.mem_append_right ds (List.mem_singleton_self d))
    rw [loaded_snoc]
    cases d with
    | sysmemWrite addr value | sramWrite addr value =>
      rw [Directive.load, Function.update_apply]
      split
      · exact here.2
      · exact before
    | csrWrite | sysmemRead | sramRead | skip => exact before

/-! ## What a file lists -/

/-- The byte address and the word of a write to system memory. -/
def Directive.sysmemEntry : Directive → Option (Int × Int)
  | .sysmemWrite addr value => some (addr, value)
  | _ => none

def Directive.sramEntry : Directive → Option (Int × Int)
  | .sramWrite addr value => some (addr, value)
  | _ => none

/-- What the last write to exactly this byte address wrote, 0 if there is none. -/
def listed (writes : List (Int × Int)) (a : Int) : Int := (writes.reverse.lookup a).getD 0

theorem listed_snoc (writes : List (Int × Int)) (addr value : Int) :
    listed (writes ++ [(addr, value)]) = Function.update (listed writes) addr value := by
  funext a
  rw [listed, List.reverse_append, List.reverse_singleton, List.singleton_append, List.lookup_cons,
    Function.update_apply]
  by_cases here : a = addr
  · simp [here]
  · rw [if_neg here, beq_false_of_ne here]
    rfl

/-- The dictionaries are what the file lists. -/
theorem recordAll_eq_listed (ds : List Directive) :
    (recordAll ds).sysmemImage = listed (ds.filterMap Directive.sysmemEntry) ∧
      (recordAll ds).sramImage = listed (ds.filterMap Directive.sramEntry) := by
  induction ds using List.reverseRecOn with
  | nil => exact ⟨rfl, rfl⟩
  | append_singleton ds d ih =>
    obtain ⟨sysmem, sram⟩ := ih
    -- a line of another kind adds no entry
    have same (writes : List (Int × Int)) : listed writes = listed (writes ++ []) := by
      rw [List.append_nil]
    rw [recordAll_snoc, List.filterMap_append, List.filterMap_append]
    cases d with
    | sysmemWrite addr value =>
      refine ⟨?_, sram.trans (same _)⟩
      exact (congrArg (Function.update · addr value) sysmem).trans (listed_snoc _ addr value).symm
    | sramWrite addr value =>
      refine ⟨sysmem.trans (same _), ?_⟩
      exact (congrArg (Function.update · addr value) sram).trans (listed_snoc _ addr value).symm
    | csrWrite | sysmemRead | sramRead | skip =>
      exact ⟨sysmem.trans (same _), sram.trans (same _)⟩

/-! ## Aligned files -/

/-- The dictionary holds the loaded words under their byte addresses. -/
structure Mirrors (image : Int → Int) (cell : Nat → Cell) (mem : Cell → Int) : Prop where
  word : ∀ a, image a = if 0 ≤ a ∧ a % 4 = 0 then mem (cell (a.toNat / 4)) else 0

theorem Mirrors.update {image : Int → Int} {cell : Nat → Cell} (mirrors : Mirrors image cell mem)
    (distinct : Function.Injective cell) {addr value : Int} (low : 0 ≤ addr) (aligned : addr % 4 = 0) :
    Mirrors (Function.update image addr value) cell
      (Function.update mem (cell (addr.toNat / 4)) value) where
  word a := by
    by_cases here : a = addr
    · subst here
      rw [Function.update_self, if_pos ⟨low, aligned⟩, Function.update_self]
    · rw [Function.update_of_ne here, mirrors.word]
      refine ite_congr rfl (fun inMem => ?_) fun _ => rfl
      rw [Function.update_of_ne]
      exact fun same => here (by have := distinct same; omega)

theorem Mirrors.update_other {image : Int → Int} {cell : Nat → Cell} (mirrors : Mirrors image cell mem)
    {c : Cell} (other : ∀ k, cell k ≠ c) (value : Int) :
    Mirrors image cell (Function.update mem c value) where
  word a := by rw [mirrors.word, Function.update_of_ne (other _)]

theorem mirrors_loaded (inRange : ∀ d ∈ ds, d.InRange) (aligned : ∀ d ∈ ds, d.Aligned) :
    Mirrors (recordAll ds).sysmemImage .smem (loaded ds) ∧
      Mirrors (recordAll ds).sramImage .sram (loaded ds) := by
  induction ds using List.reverseRecOn with
  | nil => exact ⟨⟨fun a => (ite_self 0).symm⟩, ⟨fun a => (ite_self 0).symm⟩⟩
  | append_singleton ds d ih =>
    obtain ⟨sysmem, sram⟩ := ih (fun d' member => inRange d' (List.mem_append_left [d] member))
      fun d' member => aligned d' (List.mem_append_left [d] member)
    have range := inRange d (List.mem_append_right ds (List.mem_singleton_self d))
    have word := aligned d (List.mem_append_right ds (List.mem_singleton_self d))
    rw [recordAll_snoc, loaded_snoc]
    cases d with
    | sysmemWrite addr value =>
      exact ⟨sysmem.update (fun _ _ => Cell.smem.inj) range.1 word,
        sram.update_other (fun _ => by simp) value⟩
    | sramWrite addr value =>
      exact ⟨sysmem.update_other (fun _ => by simp) value,
        sram.update (fun _ _ => Cell.sram.inj) range.1 word⟩
    | csrWrite | sysmemRead | sramRead | skip => exact ⟨sysmem, sram⟩

/-! ## The session -/

theorem withStruct_eq_ok {α : Type} {x : Except StructError α} {a : α} :
    withStruct x = .ok a ↔ x = .ok a := by
  cases x <;> simp [withStruct, pure, Except.pure, throw, throwThe, MonadExceptOf.throw]

theorem buildPacket_addr {opcode addr : Int} {payload bytes : Bytes}
    (built : buildPacket opcode addr payload = .ok bytes) : 0 ≤ addr := by
  obtain ⟨header, packed, -⟩ := bind_eq_ok.mp built
  simp only [packIBII, bind_eq_ok] at packed
  obtain ⟨-, -, -, -, address, packedAddr, -⟩ := packed
  obtain ⟨w, rfl, -⟩ := packI_eq_ok.mp packedAddr
  exact Int.natCast_nonneg _

theorem writePacket_inRange {opcode addr value : Int} {bytes : Bytes}
    (written : writePacket opcode addr value = .ok bytes) : 0 ≤ addr ∧ 0 ≤ value := by
  obtain ⟨payload, packed, built⟩ := bind_eq_ok.mp written
  obtain ⟨w, rfl, -⟩ := packI_eq_ok.mp (withStruct_eq_ok.mp packed)
  exact ⟨buildPacket_addr (withStruct_eq_ok.mp built), Int.natCast_nonneg _⟩

theorem packet_inRange {sent : Option Bytes} (built : packet csrBaseAddr d = .ok sent) :
    d.InRange := by
  cases d with
  | csrWrite offset value =>
    obtain ⟨bytes, written, -⟩ := bind_eq_ok.mp built
    exact (writePacket_inRange written).2
  | sysmemWrite addr value | sramWrite addr value =>
    obtain ⟨bytes, written, -⟩ := bind_eq_ok.mp built
    exact writePacket_inRange written
  | sysmemRead | sramRead | skip => trivial

theorem some_map_ne {x : Runner Bytes} : some <$> x ≠ .ok none := by
  cases x <;> simp [Functor.map, Except.map]

theorem sendLine_returns {line : List Char} (sent : sendLine answered csrBaseAddr s line = .ok s') :
    ∃ d, parseLine line = .ok d ∧ d.InRange ∧ s'.images = s.images.record d := by
  obtain ⟨d, parsed, rest⟩ := bind_eq_ok.mp sent
  obtain ⟨bytes, built, rest⟩ := bind_eq_ok.mp rest
  refine ⟨d, parsed, packet_inRange built, ?_⟩
  cases bytes with
  | none =>
    obtain rfl := pure_eq_ok.mp rest
    cases d with
    | skip => rfl
    | csrWrite | sysmemWrite | sramWrite | sysmemRead | sramRead => exact absurd built some_map_ne
  | some bytes =>
    dsimp only at rest
    split at rest
    · rw [← pure_eq_ok.mp rest]
    · cases rest

theorem stimulus_returns (parsed : lines.mapM parseLine = .ok ds)
    (sent : lines.foldlM (sendLine answered csrBaseAddr) { images := .init, sent := [] } = .ok s) :
    s.images = recordAll ds ∧ ∀ d ∈ ds, d.InRange := by
  have all := foldlM_invariant
    (P := fun seen t => ∃ ds', seen.mapM parseLine = .ok ds' ∧ t.images = recordAll ds' ∧
      ∀ d ∈ ds', d.InRange)
    (fun seen line t t' _ held step => ?_) ⟨[], rfl, rfl, by simp⟩ sent
  · obtain ⟨ds', parsed', images, inRange⟩ := all
    obtain rfl := Except.ok.inj (parsed.symm.trans parsed')
    exact ⟨images, inRange⟩
  · obtain ⟨ds', parsed', images, inRange⟩ := held
    obtain ⟨d, parsedLine, here, images'⟩ := sendLine_returns step
    refine ⟨ds' ++ [d], ?_, ?_, ?_⟩
    · rw [List.mapM_append, parsed', ok_bind, List.mapM_cons, parsedLine]
      rfl
    · rw [images', images, recordAll_snoc]
    · intro d' member
      rcases List.mem_append.mp member with old | new
      · exact inRange d' old
      · exact List.mem_singleton.mp new ▸ here

/-! ## The prediction -/

def ringBase (ds : List Directive) : Nat := (register ds csrOffBaseaddr).toNat

/-- TAIL, the number of descriptors. -/
def posted (ds : List Directive) : Nat := (register ds csrOffTail).toNat

theorem register_nonneg (inRange : ∀ d ∈ ds, d.InRange) (offset : Int) : 0 ≤ register ds offset := by
  induction ds using List.reverseRecOn with
  | nil => exact Int.le_refl 0
  | append_singleton ds d ih =>
    have before := ih fun d' member => inRange d' (List.mem_append_left [d] member)
    have here := inRange d (List.mem_append_right ds (List.mem_singleton_self d))
    rw [register, recordAll_snoc]
    cases d with
    | csrWrite offset' value =>
      change 0 ≤ Function.update (recordAll ds).csrWrites offset' value offset
      rw [Function.update_apply]
      split
      · exact here
      · exact before
    | sysmemWrite | sramWrite | sysmemRead | sramRead | skip => exact before

/-- The word at byte address `a + 4 * k`, by its cell. -/
theorem Mirrors.at {image : Int → Int} {cell : Nat → Cell} (mirrors : Mirrors image cell mem)
    (a k : Nat) : image (a + 4 * k) = if a % 4 = 0 then mem (cell (a / 4 + k)) else 0 := by
  rw [mirrors.word]
  by_cases aligned : a % 4 = 0
  · rw [if_pos aligned, if_pos (by omega), show ((a : Int) + 4 * k).toNat / 4 = a / 4 + k by omega]
  · rw [if_neg aligned, if_neg (by omega)]

/-- Word `k` of the descriptor in slot `i`, as the file lists it. -/
def listedWord (ds : List Directive) (i k : Nat) : Int :=
  listed (ds.filterMap Directive.sysmemEntry) (ringBase ds + 16 * i + 4 * k)

/-- What the file lists for word `j` of the source of slot `i`. -/
def listedSource (ds : List Directive) (i j : Nat) : Int :=
  listed (ds.filterMap
      (if listedWord ds i 3 % 2 = 1 then Directive.sysmemEntry else Directive.sramEntry))
    (listedWord ds i 0 + 4 * j)

/-- The length listed for slot `i` is the one it holds, and every word listed for its source was
    loaded as the word that the transfers before have brought there. -/
structure Foretold (ds : List Directive) (i : Nat) : Prop where
  beats : (listedWord ds i 2 % 256).toNat = (slotWords (loaded ds) (ringBase ds) i).beats
  words : ∀ j < (slotWords (loaded ds) (ringBase ds) i).beats,
    listedSource ds i j = loaded ds (origin (movesBefore (ringBase ds) (loaded ds) i)
      ((slotWords (loaded ds) (ringBase ds) i).source j))

/-- What is predicted for a slot, by what the file lists. -/
theorem transferAt_words (inRange : ∀ d ∈ ds, d.InRange) (i : Nat) :
    (transferAt (recordAll ds) i).expectedWords =
      (List.range (listedWord ds i 2 % 256).toNat).map (listedSource ds i) := by
  obtain ⟨sysmem, sram⟩ := recordAll_eq_listed ds
  have base : (recordAll ds).csrWrites csrOffBaseaddr = ringBase ds :=
    (Int.toNat_of_nonneg (register_nonneg inRange csrOffBaseaddr)).symm
  have word (k : Nat) : (recordAll ds).sysmemImage ((ringBase ds : Int) + i * 16 + 4 * k) =
      listedWord ds i k := by
    rw [sysmem, listedWord, Int.mul_comm (i : Int) 16]
  have src : (recordAll ds).sysmemImage ((ringBase ds : Int) + i * 16 + 0x00) =
      listedWord ds i 0 := word 0
  have len : (recordAll ds).sysmemImage ((ringBase ds : Int) + i * 16 + 0x08) =
      listedWord ds i 2 := word 2
  have flags : (recordAll ds).sysmemImage ((ringBase ds : Int) + i * 16 + 0x0C) =
      listedWord ds i 3 := word 3
  simp only [transferAt, base, src, len, flags]
  refine List.map_congr_left fun j _ => ?_
  rw [listedSource, Int.mul_comm (j : Int) 4]
  by_cases dir : listedWord ds i 3 % 2 = 1
  · rw [if_pos (by omega), if_pos dir, sysmem]
  · rw [if_neg (by omega), if_neg dir, sram]

theorem range_map_eq_iff {α : Type} {f g : Nat → α} {n m : Nat} :
    (List.range n).map f = (List.range m).map g ↔ n = m ∧ ∀ j < m, f j = g j := by
  constructor
  · intro same
    obtain rfl : n = m := by simpa using congrArg List.length same
    exact ⟨rfl, by simpa [List.map_inj_left] using same⟩
  · rintro ⟨rfl, words⟩
    exact List.map_congr_left fun j member => words j (List.mem_range.mp member)

/-- What the prediction is worth: in a file whose ring no transfer overwrites, the words expected
    of a descriptor are those it copies exactly if they are foretold. -/
theorem prediction_iff (parsed : lines.mapM parseLine = .ok ds)
    (returns : parseStimulus answered csrBaseAddr lines = .ok transfers)
    (kept : RingKept (ringBase ds) (posted ds) (loaded ds)) :
    transfers.length = posted ds ∧ ∀ i < posted ds, ∃ t, transfers[i]? = some t ∧
      (t.expectedWords = copied (ringBase ds) (loaded ds) i ↔ Foretold ds i) := by
  obtain ⟨s, sent, eq⟩ := bind_eq_ok.mp returns
  obtain ⟨images, inRange⟩ := stimulus_returns parsed sent
  obtain rfl := pure_eq_ok.mp eq
  have tail : (s.images.csrWrites csrOffTail).toNat = posted ds := by
    rw [images]
    rfl
  rw [tail, images]
  refine ⟨by rw [List.length_map, List.length_range], fun i within => ?_⟩
  refine ⟨transferAt (recordAll ds) i, ?_, ?_⟩
  · rw [List.getElem?_map, List.getElem?_range within]
    rfl
  · rw [transferAt_words inRange i, copied, after_eq kept (Nat.le_of_lt within),
      slotWords_execMoves kept within, range_map_eq_iff]
    simp only [execMoves_eq]
    exact ⟨fun ⟨beats, words⟩ => ⟨beats, words⟩, fun told => ⟨told.beats, told.words⟩⟩

/-- In a file of word addresses, the loaded word of the source cell itself counts. -/
theorem foretold_iff_of_aligned (inRange : ∀ d ∈ ds, d.InRange) (aligned : ∀ d ∈ ds, d.Aligned)
    (ring : ringBase ds % 4 = 0) (i : Nat) :
    let d := slotWords (loaded ds) (ringBase ds) i
    Foretold ds i ↔ ∀ j < d.beats, (if d.w0 % 4 = 0 then loaded ds (d.source j) else 0) =
      loaded ds (origin (movesBefore (ringBase ds) (loaded ds) i) (d.source j)) := by
  intro d
  obtain ⟨sysmem, sram⟩ := mirrors_loaded inRange aligned
  rw [(recordAll_eq_listed ds).1] at sysmem
  rw [(recordAll_eq_listed ds).2] at sram
  have word (k : Nat) : listedWord ds i k =
      ((loaded ds (.smem (ringBase ds / 4 + 4 * i + k))).toNat : Int) := by
    have here := sysmem.at (ringBase ds + 16 * i) k
    rw [if_pos (by omega), show (ringBase ds + 16 * i) / 4 + k = ringBase ds / 4 + 4 * i + k by omega]
      at here
    rw [Int.toNat_of_nonneg (loaded_nonneg inRange _), ← here, listedWord]
    congr 1
  have src : listedWord ds i 0 = d.w0 := word 0
  have beats : (listedWord ds i 2 % 256).toNat = d.beats := by
    have len : listedWord ds i 2 = d.w2 := word 2
    rw [len, Descriptor.beats]
    omega
  have source (j : Nat) : listedSource ds i j = if d.w0 % 4 = 0 then loaded ds (d.source j) else 0 := by
    have flags : listedWord ds i 3 = d.w3 := word 3
    rw [listedSource, flags, src, Descriptor.source]
    cases dir : d.toSram with
    | true =>
      have odd := beq_iff_eq.mp dir
      rw [if_pos (by omega), if_pos rfl]
      exact sysmem.at d.w0 j
    | false =>
      have even := beq_eq_false_iff_ne.mp dir
      rw [if_neg (by omega), if_neg Bool.false_ne_true]
      exact sram.at d.w0 j
  constructor
  · intro told j within
    rw [← source j]
    exact told.words j within
  · intro words
    refine ⟨beats, fun j within => ?_⟩
    rw [source j]
    exact words j within

/-- A word goes to SRAM, and from there on to another place. -/
def chained : List Directive :=
  [.sysmemWrite 0x300 7, .csrWrite 0 0, .csrWrite 4 4,
    .sysmemWrite 0 0x300, .sysmemWrite 4 0x100, .sysmemWrite 8 1, .sysmemWrite 12 1, .csrWrite 12 1,
    .sysmemWrite 16 0x100, .sysmemWrite 20 0x380, .sysmemWrite 24 1, .sysmemWrite 28 0,
    .csrWrite 12 2]

/-- The lines of the golden driver for it. -/
def chainedLines : List (List Char) :=
  [Stim.sysmemWrite 0x300 7, .csrWrite 0 0, .csrWrite 4 4,
    .sysmemWrite 0 0x300, .sysmemWrite 4 0x100, .sysmemWrite 8 1, .sysmemWrite 12 1, .csrWrite 12 1,
    .sysmemWrite 16 0x100, .sysmemWrite 20 0x380, .sysmemWrite 24 1, .sysmemWrite 28 0,
    .csrWrite 12 2].map Stimulus.text

theorem chained_mispredicted :
    chainedLines.mapM parseLine = .ok chained ∧
      parseStimulus (fun _ => true) 0x80000000 chainedLines =
        .ok [⟨0x300, 0x100, 1, 1, [7]⟩, ⟨0x100, 0x380, 1, 0, [0]⟩] ∧
      RingKept (ringBase chained) (posted chained) (loaded chained) ∧
      copied (ringBase chained) (loaded chained) 1 = [7] := by
  refine ⟨?_, ?_, ?_, ?_⟩
  · decide +kernel
  · decide +kernel
  · unfold RingKept
    decide +kernel
  · decide +kernel

/-- `sram_write`, a tab, `0x100`, a blank and `+7`: the file lists for the SRAM the word that the
    first descriptor brings there. -/
def preloadLine : List Char :=
  Stimulus.sramWrite ++ ['\t', '0', 'x', '1', '0', '0', ' ', '+', '7', '\n']

/-- With that line the second descriptor of the chain is predicted. -/
theorem second_of_chained_predicted :
    let ds := .sramWrite 0x100 7 :: chained
    parseStimulus (fun _ => true) 0x80000000 (preloadLine :: chainedLines) =
        .ok [⟨0x300, 0x100, 1, 1, [7]⟩, ⟨0x100, 0x380, 1, 0, [7]⟩] ∧
      [7] = copied (ringBase ds) (loaded ds) 1 := by
  intro ds
  have parsed : (preloadLine :: chainedLines).mapM parseLine = .ok ds := by decide +kernel
  have returns : parseStimulus (fun _ => true) 0x80000000 (preloadLine :: chainedLines) =
      .ok [⟨0x300, 0x100, 1, 1, [7]⟩, ⟨0x100, 0x380, 1, 0, [7]⟩] := by decide +kernel
  have kept : RingKept (ringBase ds) (posted ds) (loaded ds) := by
    unfold RingKept
    decide +kernel
  refine ⟨returns, ?_⟩
  obtain ⟨t, second, same⟩ := (prediction_iff parsed returns kept).2 1 (by decide +kernel)
  obtain rfl := Option.some.inj second
  exact same.mpr ⟨by decide +kernel, by decide +kernel⟩

end AxiDma.Host.HostRunner
