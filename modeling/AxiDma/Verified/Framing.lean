import AxiDma.Firmware.UartReadWrite
import AxiDma.Host.HostRunner
import AxiDma.Host.SerialHost
import AxiDma.Verified.Replies

/-! # Framing from the host to the firmware

What the packet builders of the host produce, the parser of `main` takes apart: it finds
the sync word behind any noise (`scan_sync`), reads the header and the payload by their
lengths, and is where it started after the last byte.
-/

namespace AxiDma.Verified

open AxiDma.Lib AxiDma.Rtl AxiDma.Firmware AxiDma.Host

/-! ## The builders -/

def frame (opcode : Byte) (address length : Word) (payload : List Byte) : List Byte :=
  bytesLe packetSyncWord ++ [opcode] ++ bytesLe address ++ bytesLe length ++ payload

theorem buildPacket_eq_ok {opcode address : Int} {payload bytes : Bytes} :
    SerialHost.buildPacket opcode address payload = .ok bytes ↔
      ∃ (op : Byte) (addr len : Word), opcode = op.toNat ∧ address = addr.toNat ∧
        payload.length = len.toNat ∧ bytes = frame op addr len payload := by
  have sync : packI SerialHost.packetSyncWord = .ok (bytesLe packetSyncWord) :=
    packI_eq_ok.mpr ⟨packetSyncWord, rfl, rfl⟩
  simp only [SerialHost.buildPacket, packIBII, sync, bind_eq_ok, pure_eq_ok, packB_eq_ok,
    packI_eq_ok, Except.ok.injEq]
  constructor
  · rintro ⟨header, ⟨_, rfl, _, ⟨op, eqOp, rfl⟩, _, ⟨addr, eqAddr, rfl⟩, _, ⟨len, eqLen, rfl⟩, rfl⟩, rfl⟩
    exact ⟨op, addr, len, eqOp, eqAddr, by exact_mod_cast eqLen, rfl⟩
  · rintro ⟨op, addr, len, eqOp, eqAddr, eqLen, rfl⟩
    exact ⟨_, ⟨_, rfl, _, ⟨op, eqOp, rfl⟩, _, ⟨addr, eqAddr, rfl⟩, _, ⟨len, by exact_mod_cast eqLen, rfl⟩,
      rfl⟩, rfl⟩

/-- The two builders are one. -/
theorem hostRunner_buildPacket : HostRunner.buildPacket = SerialHost.buildPacket := rfl

/-! ## The parser -/

namespace Parser

open AxiDma.Firmware.Parser

variable {s : Parser} {bs : List Byte}

theorem receiveAll_of_inl {b : Byte} {s' : Parser} (fed : s.feed b = .inl s') :
    s.receiveAll (b :: bs) = s'.receiveAll bs := by
  rw [receiveAll, fed]

theorem receiveAll_of_inr {b : Byte} {p : Packet} (fed : s.feed b = .inr p) :
    s.receiveAll (b :: bs) = (p :: (start.receiveAll bs).1, (start.receiveAll bs).2) := by
  rw [receiveAll, fed]

/-- What a byte does to a run of the parser that is known. -/
theorem feed_of_receiveAll {b : Byte} {ps : List Packet} {s' : Parser}
    (received : s.receiveAll (b :: bs) = (ps, s')) :
    (∃ t, s.feed b = .inl t ∧ t.receiveAll bs = (ps, s')) ∨
      ∃ p rest, s.feed b = .inr p ∧ ps = p :: rest ∧ start.receiveAll bs = (rest, s') := by
  rw [receiveAll] at received
  cases fed : s.feed b with
  | inl t =>
    rw [fed] at received
    exact .inl ⟨t, rfl, received⟩
  | inr p =>
    rw [fed, Prod.mk.injEq] at received
    exact .inr ⟨p, _, rfl, received.1.symm, Prod.ext rfl received.2⟩

theorem receiveAll_append {as : List Byte} {ps : List Packet} {s' : Parser}
    (received : s.receiveAll as = (ps, s')) :
    s.receiveAll (as ++ bs) = (ps ++ (s'.receiveAll bs).1, (s'.receiveAll bs).2) := by
  induction as generalizing s ps with
  | nil =>
    rw [receiveAll, Prod.mk.injEq] at received
    obtain ⟨rfl, rfl⟩ := received
    rfl
  | cons b as ih =>
    rw [List.cons_append]
    rcases feed_of_receiveAll received with ⟨t, fed, later⟩ | ⟨p, rest, fed, rfl, later⟩
    · rw [receiveAll_of_inl fed, ih later]
    · rw [receiveAll_of_inr fed, ih later]
      rfl

def searching (window : Word) : Parser := { start with syncBuffer := window }

/-- The parser in the header, after `n` bytes of it. -/
def inHeader (n : Nat) (p : Packet) : Parser :=
  { state := .readHeader, syncBuffer := packetSyncWord, read := n, packet := p }

def inPayload (n : Nat) (p : Packet) : Parser :=
  { state := .readPayload, syncBuffer := packetSyncWord, read := n, packet := p }

/-- The search of the parser is `scan`. -/
theorem receiveAll_of_scan {window : Word} {rest : List Byte}
    (found : scan packetSyncWord window bs = some rest) :
    (searching window).receiveAll bs = (inHeader 0 ⟨0, 0, 0, 0⟩).receiveAll rest := by
  induction bs generalizing window with
  | nil => cases found
  | cons b bs ih =>
    rw [scan] at found
    by_cases sync : shiftIn window b = packetSyncWord
    · rw [if_pos sync, Option.some.injEq] at found
      have fed : (searching window).feed b = .inl (inHeader 0 ⟨0, 0, 0, 0⟩) := by
        have shifted : window >>> 8 ||| lane b 3 = packetSyncWord := sync
        simp [Parser.feed, searching, start, shifted, inHeader]
      rw [receiveAll_of_inl fed, found]
    · rw [if_neg sync] at found
      have fed : (searching window).feed b = .inl (searching (shiftIn window b)) := by
        have shifted : ¬ window >>> 8 ||| lane b 3 = packetSyncWord := sync
        simp [Parser.feed, searching, start, shifted]
        rfl
      rw [receiveAll_of_inl fed, ih found]

/-- Header bytes, up to the one before the last. -/
theorem feed_header {n : Nat} {p : Packet} {b : Byte} (early : n < 8) :
    (inHeader n p).feed b = .inl (inHeader (n + 1) (headerByte p n b)) := by
  simp [Parser.feed, inHeader, early]

theorem lanes_eq_wordLe (a b c d : Byte) :
    lane a 0 ||| lane b 1 ||| lane c 2 ||| lane d 3 = wordLe [a, b, c, d] := by
  have first : lane a 0 = wordLe [a] := by
    have zero : wordLe [] ||| lane a 0 = wordLe [a] := or_shiftLeft_eq_wordLe (by decide) a
    exact (BitVec.zero_or).symm.trans zero
  have second : wordLe [a] ||| lane b 1 = wordLe [a, b] := or_shiftLeft_eq_wordLe (by simp) b
  have third : wordLe [a, b] ||| lane c 2 = wordLe [a, b, c] := or_shiftLeft_eq_wordLe (by simp) c
  rw [first, second, third]
  exact or_shiftLeft_eq_wordLe (by simp) d

theorem receiveAll_header (op : Byte) (addr len : Word) :
    (inHeader 0 ⟨0, 0, 0, 0⟩).receiveAll ([op] ++ bytesLe addr ++ bytesLe len ++ bs) =
      if 0 < len.toNat then (inPayload 0 ⟨op, addr, len, 0⟩).receiveAll bs
      else (⟨op, addr, len, 0⟩ :: (start.receiveAll bs).1, (start.receiveAll bs).2) := by
  have address := wordLe_bytesLe addr
  have length := wordLe_bytesLe len
  obtain ⟨a, b, c, d, eqAddr⟩ : ∃ a b c d, bytesLe addr = [a, b, c, d] := ⟨_, _, _, _, rfl⟩
  obtain ⟨e, f, g, h, eqLen⟩ : ∃ a b c d, bytesLe len = [a, b, c, d] := ⟨_, _, _, _, rfl⟩
  rw [eqAddr, ← lanes_eq_wordLe] at address
  rw [eqLen, ← lanes_eq_wordLe] at length
  rw [eqAddr, eqLen]
  simp only [List.cons_append, List.nil_append]
  rw [receiveAll_of_inl (feed_header (by decide)), receiveAll_of_inl (feed_header (by decide)),
    receiveAll_of_inl (feed_header (by decide)), receiveAll_of_inl (feed_header (by decide)),
    receiveAll_of_inl (feed_header (by decide)), receiveAll_of_inl (feed_header (by decide)),
    receiveAll_of_inl (feed_header (by decide)), receiveAll_of_inl (feed_header (by decide))]
  -- the last byte decides on the payload
  generalize packet : headerByte _ 7 g = p
  have whole : headerByte p 8 h = ⟨op, addr, len, 0⟩ := by
    rw [← packet, ← address, ← length]
    rfl
  by_cases some : 0 < len.toNat
  · have fed : (inHeader 8 p).feed h = .inl (inPayload 0 ⟨op, addr, len, 0⟩) := by
      simp [Parser.feed, inHeader, whole, some, inPayload]
    rw [if_pos some]
    exact receiveAll_of_inl fed
  · have fed : (inHeader 8 p).feed h = .inr ⟨op, addr, len, 0⟩ := by
      simp [Parser.feed, inHeader, whole, some]
    rw [if_neg some]
    exact receiveAll_of_inr fed

/-- The payload word of a packet after one more byte. -/
theorem feed_payload {taken : List Byte} {p : Packet} {b : Byte}
    (word : p.payloadWord = wordLe (taken.take 4)) :
    (inPayload taken.length p).feed b =
      if taken.length + 1 < p.payloadLen.toNat then
        .inl (inPayload (taken ++ [b]).length { p with payloadWord := wordLe ((taken ++ [b]).take 4) })
      else .inr { p with payloadWord := wordLe ((taken ++ [b]).take 4) } := by
  have next : (if taken.length < 4 then
        { p with payloadWord := p.payloadWord ||| lane b taken.length }
      else p) = { p with payloadWord := wordLe ((taken ++ [b]).take 4) } := by
    by_cases early : taken.length < 4
    · have grown : wordLe taken ||| lane b taken.length = wordLe (taken ++ [b]) :=
        or_shiftLeft_eq_wordLe early b
      have short : (taken ++ [b]).length ≤ 4 := by
        rw [List.length_append, List.length_singleton]
        omega
      rw [if_pos early, word, List.take_of_length_le (Nat.le_of_lt early), grown,
        List.take_of_length_le short]
    · rw [if_neg early, List.take_append_of_le_length (by omega), ← word]
  rw [List.length_append, List.length_singleton, ← next]
  by_cases early : taken.length < 4 <;> simp [Parser.feed, inPayload, early]

/-- The payload is read whole; the word is made of its first four bytes. -/
theorem receiveAll_payload {taken more : List Byte} {p : Packet} (some : more ≠ [])
    (length : p.payloadLen.toNat = taken.length + more.length)
    (word : p.payloadWord = wordLe (taken.take 4)) :
    (inPayload taken.length p).receiveAll (more ++ bs) =
      ({ p with payloadWord := wordLe ((taken ++ more).take 4) } :: (start.receiveAll bs).1,
        (start.receiveAll bs).2) := by
  induction more generalizing taken p with
  | nil => exact absurd rfl some
  | cons b more ih =>
    have fed := feed_payload (b := b) word
    rw [List.length_cons] at length
    rw [List.cons_append]
    cases more with
    | nil =>
      rw [if_neg (by simp only [List.length_nil] at length; omega)] at fed
      exact receiveAll_of_inr fed
    | cons c more =>
      rw [if_pos (by rw [length, List.length_cons]; omega)] at fed
      rw [receiveAll_of_inl fed, ih (List.cons_ne_nil _ _) ?_ rfl, List.append_assoc]
      · rfl
      · rw [length, List.length_append, List.length_singleton]
        omega

def packetOf (op : Byte) (addr len : Word) (payload : List Byte) : Packet :=
  { opcode := op, destAddr := addr, payloadLen := len, payloadWord := wordLe (payload.take 4) }

/-- One frame behind noise: its packet is dispatched, and the parser starts again on
    what follows. -/
theorem receiveAll_frame {noise payload : List Byte} (op : Byte) (addr : Word) {len : Word}
    (quiet : ¬ bytesLe packetSyncWord <:+: noise) (length : payload.length = len.toNat) :
    start.receiveAll (noise ++ frame op addr len payload ++ bs) =
      (packetOf op addr len payload :: (start.receiveAll bs).1, (start.receiveAll bs).2) := by
  have split : noise ++ frame op addr len payload ++ bs = noise ++ bytesLe packetSyncWord ++
      ([op] ++ bytesLe addr ++ bytesLe len ++ (payload ++ bs)) := by
    simp [frame]
  have found := scan_sync (by decide) (by decide) quiet
    ([op] ++ bytesLe addr ++ bytesLe len ++ (payload ++ bs))
  have searched : start.receiveAll _ = _ := receiveAll_of_scan found
  rw [split, searched, receiveAll_header]
  cases payload with
  | nil =>
    have none : ¬ 0 < len.toNat := by rw [← length]; decide
    rw [if_neg none]
    rfl
  | cons b payload =>
    have some : 0 < len.toNat := by rw [← length]; exact Nat.succ_pos _
    rw [if_pos some]
    refine @receiveAll_payload _ [] _ _ (List.cons_ne_nil _ _) ?_ rfl
    rw [List.length_nil, Nat.zero_add, length]

end Parser

/-! ## The write commands -/

def writeAccesses (p : Packet) : Option (List Op) :=
  if p.opcode = cmdWriteSram then
    some [.out32 (memAccessCtrlBase + regInitAddr) p.destAddr,
      .out32 (memAccessCtrlBase + regInitData) p.payloadWord, .out32 (memAccessCtrlBase + regSramWr) 1]
  else if p.opcode = cmdWriteSysmem then
    some [.out32 (memAccessCtrlBase + regInitAddr) p.destAddr,
      .out32 (memAccessCtrlBase + regInitData) p.payloadWord, .out32 (memAccessCtrlBase + regMemWr) 1]
  else if p.opcode = cmdWriteCsr then some [.out32 p.destAddr p.payloadWord]
  else none

/-- A write command accesses the bus and is acknowledged, or does neither, by the length. -/
structure WritesByLength (p : Packet) : Prop where
  accesses : ∀ ops, writeAccesses p = some ops →
    ∀ (σ : Type) (env : σ → (op : Op) → Answer op × σ) (s : σ),
      accesses ((process p).trace env s) = if 4 ≤ p.payloadLen.toNat then ops else []
  replies : (writeAccesses p).isSome →
    ∀ (σ : Type) (env : σ → (op : Op) → Answer op × σ) (s : σ),
      sentBytes ((process p).trace env s) = bytesLe packetSyncWord ++
        [if 4 ≤ p.payloadLen.toNat then cmdAck else cmdNack]

theorem command_write {p : Packet} {ops : List Op} (writes : writeAccesses p = some ops) {σ : Type}
    (env : σ → (op : Op) → Answer op × σ) (s : σ) :
    accesses ((command p).trace env s) = (if 4 ≤ p.payloadLen.toNat then ops else []) ∧
      ((command p).exec env s).1 = if 4 ≤ p.payloadLen.toNat then .ack else .nack := by
  unfold writeAccesses at writes
  unfold command
  by_cases sram : p.opcode = cmdWriteSram
  · rw [if_pos sram, Option.some.injEq] at writes
    subst writes
    rw [if_pos sram, writeReply]
    split <;> exact ⟨rfl, rfl⟩
  rw [if_neg sram] at writes ⊢
  by_cases sysmem : p.opcode = cmdWriteSysmem
  · rw [if_pos sysmem, Option.some.injEq] at writes
    subst writes
    rw [if_pos sysmem, writeReply]
    split <;> exact ⟨rfl, rfl⟩
  rw [if_neg sysmem] at writes ⊢
  by_cases csr : p.opcode = cmdWriteCsr
  · rw [if_pos csr, Option.some.injEq] at writes
    subst writes
    rw [if_pos csr, writeReply]
    split <;> exact ⟨rfl, rfl⟩
  rw [if_neg csr] at writes
  cases writes

theorem writesByLength (p : Packet) : WritesByLength p where
  accesses := by
    intro ops writes σ env s
    rw [accesses_process]
    exact (command_write writes env s).1
  replies := by
    intro write σ env s
    obtain ⟨ops, writes⟩ := Option.isSome_iff_exists.mp write
    rw [sentBytes_process, (command_write writes env s).2]
    split <;> rfl

/-! ## Streams -/

/-- A packet sent by the host, and the bytes before it. -/
structure Sent where
  noise : List Byte
  opcode : Int
  address : Int
  payload : Bytes
  bytes : Bytes

/-- One of the builders gives the bytes. -/
def Sent.Built (s : Sent) : Prop :=
  SerialHost.buildPacket s.opcode s.address s.payload = .ok s.bytes ∨
    HostRunner.buildPacket s.opcode s.address s.payload = .ok s.bytes

/-- The packet dispatched is the packet sent. -/
structure Carries (s : Sent) (p : Packet) : Prop where
  opcode : s.opcode = p.opcode.toNat
  address : s.address = p.destAddr.toNat
  length : s.payload.length = p.payloadLen.toNat
  word : p.payloadWord.toNat = Nat.ofDigits 256 ((s.payload.take 4).map BitVec.toNat)

theorem Sent.Built.frame {s : Sent} (built : s.Built) :
    ∃ op addr len, s.payload.length = len.toNat ∧ s.bytes = frame op addr len s.payload ∧
      Carries s (Parser.packetOf op addr len s.payload) := by
  rw [Built, hostRunner_buildPacket, or_self, buildPacket_eq_ok] at built
  obtain ⟨op, addr, len, opcode, address, length, bytes⟩ := built
  exact ⟨op, addr, len, length, bytes, opcode, address, length,
    toNat_wordLe (List.length_take_le 4 s.payload)⟩

/-- Framing round-trips.  Packets of the host, each behind bytes without the sync word,
    are dispatched in order as they were sent, and the parser is then at its start; a write
    command writes exactly if it carries a whole word. -/
theorem framing_round_trips {sent : List Sent} (built : ∀ s ∈ sent, s.Built)
    (quiet : ∀ s ∈ sent, ¬ [0xEF, 0xBE, 0xAD, 0xDE] <:+: s.noise) :
    let received := Parser.start.receiveAll (sent.flatMap fun s => s.noise ++ s.bytes)
    List.Forall₂ Carries sent received.1 ∧ received.2 = Parser.start ∧
      ∀ p ∈ received.1, WritesByLength p := by
  intro received
  suffices dispatched : List.Forall₂ Carries sent received.1 ∧ received.2 = Parser.start from
    ⟨dispatched.1, dispatched.2, fun p _ => writesByLength p⟩
  induction sent with
  | nil => exact ⟨.nil, rfl⟩
  | cons s sent ih =>
    obtain ⟨op, addr, len, length, bytes, carries⟩ := (built s List.mem_cons_self).frame
    obtain ⟨rest, start⟩ := ih (fun s member => built s (List.mem_cons_of_mem _ member))
      (fun s member => quiet s (List.mem_cons_of_mem _ member))
    have first : Parser.start.receiveAll (s.noise ++ frame op addr len s.payload ++
        sent.flatMap fun s => s.noise ++ s.bytes) = _ :=
      Parser.receiveAll_frame op addr (quiet s List.mem_cons_self) length
    rw [← bytes] at first
    change List.Forall₂ _ _ (Parser.receiveAll _ _).1 ∧ (Parser.receiveAll _ _).2 = _
    rw [List.flatMap_cons, first]
    exact ⟨.cons carries rest, start⟩

/-- A write of a word that is the sync word behind three bytes of it, then a short write. -/
def twoWrites : List Sent :=
  [{ noise := [0xEF, 0xBE, 0xAD], opcode := 1, address := 8, payload := [0xEF, 0xBE, 0xAD, 0xDE],
     bytes := frame 1 8 4 [0xEF, 0xBE, 0xAD, 0xDE] },
   { noise := [], opcode := 3, address := 0x80000000, payload := [1],
     bytes := frame 3 0x80000000 1 [1] }]

theorem framing_round_trips_two :
    let received := Parser.start.receiveAll (twoWrites.flatMap fun s => s.noise ++ s.bytes)
    (List.Forall₂ Carries twoWrites received.1 ∧ received.2 = Parser.start ∧
      ∀ p ∈ received.1, WritesByLength p) ∧
    received.1 = [⟨1, 8, 4, packetSyncWord⟩, ⟨3, 0x80000000, 1, 1⟩] :=
  ⟨framing_round_trips (List.forall_mem_cons.mpr ⟨.inl rfl, List.forall_mem_singleton.mpr (.inr rfl)⟩)
    (by decide), by decide⟩

end AxiDma.Verified
