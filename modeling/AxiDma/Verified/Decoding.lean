import AxiDma.Host.SerialHost
import AxiDma.Verified.Framing

/-! # Decoding the replies on the host

The firmware sends replies of different lengths, and text before them.  A reader of the host
finds the sync word behind any text (`scan_sync`), and which call it serves says how many bytes
belong to the reply: a command of that call never gives a reply of another length (`fits`).
-/

namespace AxiDma.Verified

open AxiDma.Lib AxiDma.Rtl AxiDma.Firmware AxiDma.Host
open AxiDma.Host.SerialHost (DMASerialHost Call Outcome Reader)

/-- What `xil_printf` may put on the wire. -/
def Text (bs : List Byte) : Prop := ∀ b ∈ bs, b.toNat < 0x80

instance (bs : List Byte) : Decidable (Text bs) := inferInstanceAs (Decidable (∀ b ∈ bs, _))

theorem Text.nil : Text [] := fun _ member => by cases member

theorem Text.append {as bs : List Byte} (first : Text as) (second : Text bs) : Text (as ++ bs) := by
  intro b member
  cases List.mem_append.mp member with
  | inl before => exact first b before
  | inr after => exact second b after

/-- Text cannot contain the sync word. -/
theorem Text.no_sync {bs : List Byte} (text : Text bs) : ¬ bytesLe packetSyncWord <:+: bs := by
  intro occurs
  have high : (0xEF : Byte) ∈ bs := occurs.subset (by decide)
  exact absurd (text _ high) (by decide)

/-! ## The reader -/

/-- What the host makes of a reply. -/
def Reply.outcome : Reply → Outcome
  | .nack => .nacked cmdNack
  | .ack => .acked
  | .value val => .word val

/-- The reply has the length a call expects. -/
def Reply.Fits (readsWord : Bool) : Reply → Prop
  | .nack => True
  | .ack => readsWord = false
  | .value _ => readsWord = true

namespace Reader

open AxiDma.Host.SerialHost.Reader

variable {readsWord : Bool}

/-- The outcome of a call on the bytes that come, and the bytes it leaves. -/
def receive (readsWord : Bool) : Reader → List Byte → Option (Outcome × List Byte)
  | _, [] => none
  | s, b :: bs =>
    match s.feed readsWord b with
    | .inl s => receive readsWord s bs
    | .inr outcome => some (outcome, bs)

/-- The call ends on the last of the bytes. -/
def Decodes (readsWord : Bool) (s : Reader) (bs : List Byte) (outcome : Outcome) : Prop :=
  receive readsWord s bs = some (outcome, [])

theorem decodes_cons {s : Reader} {b : Byte} {bs : List Byte} {outcome : Outcome}
    (decodes : Decodes readsWord s (b :: bs) outcome) :
    (∃ s', s.feed readsWord b = .inl s' ∧ Decodes readsWord s' bs outcome) ∨
      s.feed readsWord b = .inr outcome ∧ bs = [] := by
  unfold Decodes at decodes
  rw [receive] at decodes
  cases fed : s.feed readsWord b with
  | inl s' =>
    rw [fed] at decodes
    exact .inl ⟨s', rfl, decodes⟩
  | inr last =>
    rw [fed, Option.some.injEq, Prod.mk.injEq] at decodes
    obtain ⟨rfl, rfl⟩ := decodes
    exact .inr ⟨rfl, rfl⟩

/-- The loop of `_wait_for_ack` is `scan`. -/
theorem receive_of_scan {window : Word} {bs rest : List Byte}
    (found : scan packetSyncWord window bs = some rest) :
    receive readsWord (.sync window) bs = receive readsWord .resp rest := by
  -- the window of the last four bytes is all the state of the loop
  induction bs generalizing window with
  | nil => cases found
  | cons b bs ih =>
    rw [scan] at found
    have fed : (Reader.sync window).feed readsWord b =
        .inl (if shiftIn window b = packetSyncWord then .resp else .sync (shiftIn window b)) := rfl
    rw [receive, fed]
    by_cases sync : shiftIn window b = packetSyncWord
    · rw [if_pos sync, Option.some.injEq] at found
      simp only [if_pos sync, found]
    · rw [if_neg sync] at found
      simp only [if_neg sync]
      exact ih found

/-- One reply behind text: the call finds it, and ends on its last byte. -/
theorem decodes_reply {text : List Byte} (plain : Text text) {r : Reply} (fits : r.Fits readsWord) :
    Decodes readsWord start (text ++ r.bytes) r.outcome := by
  have found (rest : List Byte) :
      scan packetSyncWord 0 (text ++ bytesLe packetSyncWord ++ rest) = some rest :=
    scan_sync (by decide) (by decide) plain.no_sync rest
  cases r with
  | nack =>
    rw [Decodes, start, Reply.bytes, ← List.append_assoc, receive_of_scan (found _)]
    rfl
  | ack =>
    obtain rfl : readsWord = false := fits
    rw [Decodes, start, Reply.bytes, ← List.append_assoc, receive_of_scan (found _)]
    rfl
  | value val =>
    obtain rfl : readsWord = true := fits
    have word : wordLe (bytesLe val) = val := wordLe_bytesLe val
    rw [Decodes, start, Reply.bytes, List.append_assoc, ← List.append_assoc,
      receive_of_scan (found _)]
    exact congrArg (fun w => some (Outcome.word w, [])) word

end Reader

/-! ## The requests -/

namespace Call

open AxiDma.Host.SerialHost.Call

/-- The packet of a call with one word of payload. -/
def wordPacket (opcode : Byte) (addr data : Int) : Packet :=
  { opcode, destAddr := BitVec.ofInt 32 addr, payloadLen := 4, payloadWord := BitVec.ofInt 32 data }

def plainPacket (opcode : Byte) (addr : Int) : Packet :=
  { opcode, destAddr := BitVec.ofInt 32 addr, payloadLen := 0, payloadWord := 0 }

/-- The packet the firmware dispatches for a call. -/
def packet (h : DMASerialHost) : Call → Packet
  | .csrWrite byteOffset data => wordPacket cmdWriteCsr (h.csrBaseAddr + byteOffset) data
  | .csrRead byteOffset => plainPacket cmdReadCsr (h.csrBaseAddr + byteOffset)
  | .smemWrite byteAddr data => wordPacket cmdWriteSysmem (h.smemBaseAddr + byteAddr) data
  | .sramWrite byteAddr data => wordPacket cmdWriteSram (h.sramBaseAddr + byteAddr) data
  | .readSmem byteAddr => plainPacket cmdReadSysmem (h.smemBaseAddr + byteAddr)
  | .readSram byteAddr => plainPacket cmdReadSram (h.sramBaseAddr + byteAddr)
  | .runDma => plainPacket cmdRunDma 0
  | .smemCrc byteAddr byteLength => wordPacket cmdCrcSysmem (h.smemBaseAddr + byteAddr) byteLength
  | .sramCrc byteAddr byteLength => wordPacket cmdCrcSram (h.sramBaseAddr + byteAddr) byteLength

/-- The bytes are sent, and the firmware takes them for this packet. -/
def Requests (request : Except StructError Bytes) (p : Packet) : Prop :=
  ∃ bytes, request = .ok bytes ∧
    ∀ bs, Parser.start.receiveAll (bytes ++ bs) =
      (p :: (Parser.start.receiveAll bs).1, (Parser.start.receiveAll bs).2)

theorem mask32_eq (v : Int) : SerialHost.mask32 v = (BitVec.ofInt 32 v).toNat := by
  rw [SerialHost.mask32, BitVec.toNat_ofInt]
  omega

theorem requests_buildPacket {p : Packet} {payload : Bytes}
    (length : payload.length = p.payloadLen.toNat) (word : wordLe (payload.take 4) = p.payloadWord) :
    Requests (SerialHost.buildPacket p.opcode.toNat p.destAddr.toNat payload) p := by
  refine ⟨frame p.opcode p.destAddr p.payloadLen payload, ?_, ?_⟩
  · exact buildPacket_eq_ok.mpr
      ⟨p.opcode, p.destAddr, p.payloadLen, rfl, rfl, by exact_mod_cast length, rfl⟩
  · intro bs
    have dispatched : Parser.start.receiveAll ([] ++ frame p.opcode p.destAddr p.payloadLen payload ++
        bs) = _ := Parser.receiveAll_frame p.opcode p.destAddr (by decide) length
    rw [List.nil_append] at dispatched
    rw [dispatched, Parser.packetOf, word]

theorem requests_word (opcode : Byte) (addr data : Int) :
    Requests (SerialHost.sendWord opcode.toNat (SerialHost.mask32 addr) data)
      (wordPacket opcode addr data) := by
  have payload : packI (SerialHost.mask32 data) = .ok (bytesLe (BitVec.ofInt 32 data)) :=
    packI_eq_ok.mpr ⟨_, mask32_eq data, rfl⟩
  have sends : SerialHost.sendWord opcode.toNat (SerialHost.mask32 addr) data =
      SerialHost.buildPacket opcode.toNat (SerialHost.mask32 addr)
        (bytesLe (BitVec.ofInt 32 data)) := by
    simp only [SerialHost.sendWord, payload, bind, Except.bind]
  rw [sends, mask32_eq]
  exact requests_buildPacket (p := wordPacket opcode addr data) rfl (wordLe_bytesLe _)

theorem requests_plain (opcode : Byte) (addr : Int) :
    Requests (SerialHost.buildPacket opcode.toNat (SerialHost.mask32 addr) [])
      (plainPacket opcode addr) := by
  rw [mask32_eq]
  exact requests_buildPacket (p := plainPacket opcode addr) rfl rfl

/-- Every call sends its packet. -/
theorem requests (h : DMASerialHost) (c : Call) : Requests (h.request c) (packet h c) := by
  cases c with
  | csrWrite byteOffset data => exact requests_word cmdWriteCsr _ data
  | csrRead byteOffset => exact requests_plain cmdReadCsr _
  | smemWrite byteAddr data => exact requests_word cmdWriteSysmem _ data
  | sramWrite byteAddr data => exact requests_word cmdWriteSram _ data
  | readSmem byteAddr => exact requests_plain cmdReadSysmem _
  | readSram byteAddr => exact requests_plain cmdReadSram _
  | runDma => exact requests_plain cmdRunDma 0
  | smemCrc byteAddr byteLength => exact requests_word cmdCrcSysmem _ byteLength
  | sramCrc byteAddr byteLength => exact requests_word cmdCrcSram _ byteLength

/-! ## The length of a reply -/

section Fits

variable {σ : Type} {env : σ → (op : Op) → Answer op × σ} {s : σ} {p : Packet}

theorem fits_writeReply (write : Word → Word → Prog Unit) (report : String) :
    ((writeReply p write report).exec env s).1.Fits false := by
  rw [writeReply]
  split
  · simp only [Program.exec_bind]
    rfl
  · trivial

theorem fits_readReply (read : Word → Prog Word) (report : String) (addrFirst : Bool) :
    ((readReply p read report addrFirst).exec env s).1.Fits true := by
  simp only [readReply, Program.exec_bind]
  rfl

theorem fits_crcReply (range : Word → Word → Prog Word) (report : String) :
    ((crcReply p range report).exec env s).1.Fits true := by
  rw [crcReply]
  split
  · simp only [Program.exec_bind]
    rfl
  · trivial

theorem fits_startAndWaitReply : (startAndWaitReply.exec env s).1.Fits false := by
  simp only [startAndWaitReply, Program.exec_bind]
  split
  · trivial
  · rfl

theorem fits_runDmaReply : (runDmaReply.exec env s).1.Fits false := by
  simp only [runDmaReply, Program.exec_bind]
  split
  · trivial
  · exact fits_startAndWaitReply

/-- The command of a call replies in the length the call reads. -/
theorem fits (h : DMASerialHost) (c : Call) :
    ((command (packet h c)).exec env s).1.Fits (readsWord c) := by
  cases c with
  | csrWrite byteOffset data => exact fits_writeReply (p := wordPacket _ _ data) out32 _
  | csrRead byteOffset => exact fits_readReply in32 _ true
  | smemWrite byteAddr data => exact fits_writeReply (p := wordPacket _ _ data) sysmemWrite _
  | sramWrite byteAddr data => exact fits_writeReply (p := wordPacket _ _ data) sramWrite _
  | readSmem byteAddr => exact fits_readReply sysmemRead _ false
  | readSram byteAddr => exact fits_readReply sramRead _ false
  | runDma => exact fits_runDmaReply
  | smemCrc byteAddr byteLength =>
    exact fits_crcReply (p := wordPacket _ _ byteLength) crc32SysmemRange _
  | sramCrc byteAddr byteLength =>
    exact fits_crcReply (p := wordPacket _ _ byteLength) crc32SramRange _

end Fits

end Call

end AxiDma.Verified
