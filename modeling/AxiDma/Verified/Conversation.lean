import AxiDma.Firmware.Board
import AxiDma.Lib.Run
import AxiDma.Verified.Decoding
import AxiDma.Verified.Shim

/-! # Conversations of the host with the firmware

`Link` is the host, the two directions of the serial line and the firmware on any bus; an event
moves one of them.  Nothing is asked of the order of events but what the parties ask themselves:
the host makes a call when the last one is over, and both sides read what has been sent.
`Phase` says for every state what the bytes under way will be taken for.
-/

namespace AxiDma.Verified

open AxiDma.Lib AxiDma.Rtl AxiDma.Firmware AxiDma.Host
open AxiDma.Host.SerialHost (DMASerialHost Call Outcome Reader)

/-! ## The parties -/

structure Link (σ : Type) where
  /-- Calls to come. -/
  calls : List Call
  /-- The call in progress. -/
  pending : Option (Call × Reader)
  toFpga : List Byte
  thread : Thread
  bus : σ
  /-- Bytes to the host, with the number of packets dispatched before each was sent. -/
  toHost : List (Nat × Byte)
  outcomes : List Outcome
  /-- Calls made, and packets dispatched. -/
  made : Nat
  dispatched : Nat

namespace Link

inductive Event where
  /-- The host makes its next call. -/
  | call
  /-- The firmware reads a byte. -/
  | receive
  /-- The firmware executes an operation; `text` is what `xil_printf` puts on the wire. -/
  | execute (text : List Byte)
  /-- The host reads a byte. -/
  | read
  deriving DecidableEq, Repr

variable {σ : Type}

/-- What `main` does before its loop. -/
def boot : Prog Unit := xilPrintf "MicroBlaze DMA Validation Firmware Ready.\r\n" []

def start (bus : σ) (calls : List Call) : Link σ :=
  { calls, pending := none, toFpga := [], thread := .execute boot, bus, toHost := [],
    outcomes := [], made := 0, dispatched := 0 }

def output (text : List Byte) : Op → List Byte
  | .uartWriteByte b => [b]
  | .xilPrintf _ _ => text
  | _ => []

def call (h : DMASerialHost) (l : Link σ) : Link σ :=
  match l.pending, l.calls with
  | none, c :: calls =>
    match h.request c with
    | .ok bytes =>
      { l with calls, pending := some (c, .start), toFpga := l.toFpga ++ bytes, made := l.made + 1 }
    | .error _ => l
  | _, _ => l

def receive (l : Link σ) : Link σ :=
  match l.thread, l.toFpga with
  | .receive parser, b :: toFpga =>
    match parser.feed b with
    | .inl parser => { l with toFpga, thread := .receive parser }
    | .inr packet =>
      { l with toFpga, thread := .execute (process packet), dispatched := l.dispatched + 1 }
  | _, _ => l

def execute (env : σ → (op : Op) → Answer op × σ) (text : List Byte) (l : Link σ) : Link σ :=
  match l.thread with
  | .execute (.act op next) =>
    { l with
      thread := .execute (next (env l.bus op).1)
      bus := (env l.bus op).2
      toHost := l.toHost ++ (output text op).map (l.dispatched, ·) }
  | .execute (.done ()) => { l with thread := .receive .start }
  | .receive _ => l

def read (l : Link σ) : Link σ :=
  match l.pending, l.toHost with
  | some (c, reader), (_, b) :: toHost =>
    match reader.feed c.readsWord b with
    | .inl reader => { l with toHost, pending := some (c, reader) }
    | .inr outcome => { l with toHost, pending := none, outcomes := l.outcomes ++ [outcome] }
  | _, _ => l

def step (h : DMASerialHost) (env : σ → (op : Op) → Answer op × σ) (l : Link σ) : Event → Link σ
  | .call => l.call h
  | .receive => l.receive
  | .execute text => l.execute env text
  | .read => l.read

/-- `xil_printf` sends bytes below 0x80. -/
def Plain (_ : Link σ) : Event → Prop
  | .execute text => Text text
  | _ => True

instance (l : Link σ) : (e : Event) → Decidable (Plain l e)
  | .execute text => inferInstanceAs (Decidable (Text text))
  | .call | .receive | .read => isTrue trivial

/-! ## What the host should see -/

/-- The outcomes of calls, when the firmware processes their packets one after the other. -/
def expected (h : DMASerialHost) (env : σ → (op : Op) → Answer op × σ) : σ → List Call → List Outcome
  | _, [] => []
  | bus, c :: calls =>
    ((command (Call.packet h c)).exec env bus).1.outcome ::
      expected h env ((process (Call.packet h c)).exec env bus).2 calls

/-- The outcomes so far are the first of `total`, and no call meets a byte of another's. -/
structure InStep (total : List Outcome) (l : Link σ) : Prop where
  outcomes : l.outcomes <+: total
  /-- The call in progress is the next one. -/
  counts : l.made = l.outcomes.length + l.pending.isSome.toNat
  /-- Bytes under way to the host are of the packet of the call in progress, or from before
      the first packet. -/
  own : ∀ x ∈ l.toHost, x.1 = 0 ∨ l.pending.isSome = true ∧ x.1 = l.made

/-! ## The invariant -/

def wire (l : Link σ) : List Byte := l.toHost.map Prod.snd

def sendBytes : List Byte → Prog Unit
  | [] => .done ()
  | b :: bs => .act (.uartWriteByte b) fun _ => sendBytes bs

/-- Before it dispatches the next packet, the firmware sends at most text, and then receives
    exactly `packets`; it leaves the bus as `later`. -/
def Idles (env : σ → (op : Op) → Answer op × σ) (l : Link σ) (packets : List Packet) (later : σ) :
    Prop :=
  match l.thread with
  | .receive parser => parser.receiveAll l.toFpga = (packets, .start) ∧ l.bus = later
  | .execute prog =>
    Parser.start.receiveAll l.toFpga = (packets, .start) ∧ (prog.exec env l.bus).2 = later ∧
      Quiet prog ∧ (l.dispatched ≠ 0 → prog = .done ())

/-- The firmware sends `left` and nothing more for its packet. -/
def Replies (env : σ → (op : Op) → Answer op × σ) (l : Link σ) (left : List Byte) (later : σ) :
    Prop :=
  match l.thread with
  | .receive parser => parser.receiveAll l.toFpga = ([], .start) ∧ l.bus = later ∧ left = []
  | .execute prog =>
    Parser.start.receiveAll l.toFpga = ([], .start) ∧ (prog.exec env l.bus).2 = later ∧
      prog = sendBytes left

/-- Whatever text follows the bytes, the call takes the next reply for its own. -/
def Awaits (c : Call) (reader : Reader) (bytes : List Byte) : Prop :=
  ∀ text (r : Reply), Text text → r.Fits c.readsWord →
    Reader.Decodes c.readsWord reader (bytes ++ text ++ r.bytes) r.outcome

/-- Where a conversation is whose outcomes are `total` in the end. -/
inductive Phase (h : DMASerialHost) (env : σ → (op : Op) → Answer op × σ) (total : List Outcome)
    (l : Link σ) : Prop
  /-- No call is in progress. -/
  | rests (bus : σ) (idles : Idles env l [] bus) (pending : l.pending = none)
      (text : Text l.wire) (own : ∀ x ∈ l.toHost, x.1 = 0) (counts : l.dispatched = l.made)
      (rest : total = l.outcomes ++ expected h env bus l.calls)
  /-- The packet is on its way. -/
  | asks (c : Call) (reader : Reader) (bus : σ) (idles : Idles env l [Call.packet h c] bus)
      (pending : l.pending = some (c, reader)) (awaits : Awaits c reader l.wire)
      (own : ∀ x ∈ l.toHost, x.1 = 0) (counts : l.dispatched + 1 = l.made)
      (rest : total = l.outcomes ++ expected h env bus (c :: l.calls))
  /-- The firmware executes the command. -/
  | commands (c : Call) (reader : Reader) (prog : Prog Reply)
      (thread : l.thread = .execute (prog >>= sendReply)) (quiet : Quiet prog)
      (fits : (prog.exec env l.bus).1.Fits c.readsWord)
      (drained : Parser.start.receiveAll l.toFpga = ([], .start))
      (pending : l.pending = some (c, reader)) (awaits : Awaits c reader l.wire)
      (own : ∀ x ∈ l.toHost, x.1 = 0 ∨ x.1 = l.made) (counts : l.dispatched = l.made)
      (rest : total = l.outcomes ++ (prog.exec env l.bus).1.outcome ::
        expected h env ((prog >>= sendReply).exec env l.bus).2 l.calls)
  /-- The firmware replies, or has replied. -/
  | replies (c : Call) (reader : Reader) (left : List Byte) (outcome : Outcome) (bus : σ)
      (sends : Replies env l left bus) (pending : l.pending = some (c, reader))
      (decodes : Reader.Decodes c.readsWord reader (l.wire ++ left) outcome)
      (own : ∀ x ∈ l.toHost, x.1 = 0 ∨ x.1 = l.made) (counts : l.dispatched = l.made)
      (rest : total = l.outcomes ++ outcome :: expected h env bus l.calls)

structure Inv (h : DMASerialHost) (env : σ → (op : Op) → Answer op × σ) (total : List Outcome)
    (l : Link σ) : Prop where
  counts : l.made = l.outcomes.length + l.pending.isSome.toNat
  phase : Phase h env total l

variable {h : DMASerialHost} {env : σ → (op : Op) → Answer op × σ} {total : List Outcome}
  {l l' : Link σ}

theorem Inv.inStep (inv : Inv h env total l) : InStep total l := by
  obtain ⟨counts, phase⟩ := inv
  cases phase with
  | rests bus idles pending text own _ rest =>
    exact ⟨⟨_, rest.symm⟩, counts, fun x member => .inl (own x member)⟩
  | asks c reader bus idles pending awaits own _ rest =>
    exact ⟨⟨_, rest.symm⟩, counts, fun x member => .inl (own x member)⟩
  | commands c reader prog thread quiet fits drained pending awaits own _ rest =>
    refine ⟨⟨_, rest.symm⟩, counts, fun x member => (own x member).imp_right fun same => ?_⟩
    exact ⟨by simp [pending], same⟩
  | replies c reader left outcome bus sends pending decodes own _ rest =>
    refine ⟨⟨_, rest.symm⟩, counts, fun x member => (own x member).imp_right fun same => ?_⟩
    exact ⟨by simp [pending], same⟩

theorem inv_start (bus : σ) (calls : List Call) :
    Inv h env (expected h env (boot.exec env bus).2 calls) (start bus calls) where
  counts := rfl
  phase := .rests (boot.exec env bus).2
    ⟨rfl, rfl, quiet_xilPrintf _ _, fun dispatched => absurd rfl dispatched⟩ rfl Text.nil
    (fun _ member => by cases member) rfl rfl

/-! ## The host makes a call -/

theorem Idles.sent {later : σ} {bytes : List Byte} {p : Packet} (idles : Idles env l [] later)
    (received : ∀ bs, Parser.start.receiveAll (bytes ++ bs) =
      (p :: (Parser.start.receiveAll bs).1, (Parser.start.receiveAll bs).2))
    (thread : l'.thread = l.thread) (bus : l'.bus = l.bus) (dispatched : l'.dispatched = l.dispatched)
    (toFpga : l'.toFpga = l.toFpga ++ bytes) : Idles env l' [p] later := by
  have one : Parser.start.receiveAll bytes = ([p], .start) := by
    have alone := received []
    rwa [List.append_nil] at alone
  unfold Idles at idles ⊢
  rw [thread, bus, dispatched, toFpga]
  cases running : l.thread with
  | receive parser =>
    rw [running] at idles
    refine ⟨?_, idles.2⟩
    rw [Parser.receiveAll_append idles.1, one]
    rfl
  | execute prog =>
    rw [running] at idles
    refine ⟨?_, idles.2⟩
    rw [Parser.receiveAll_append idles.1, one]
    rfl

theorem call_none {c : Call} {calls : List Call} {bytes : List Byte} (pending : l.pending = none)
    (next : l.calls = c :: calls) (sends : h.request c = .ok bytes) :
    l.call h =
      { l with calls, pending := some (c, .start), toFpga := l.toFpga ++ bytes,
               made := l.made + 1 } := by
  simp [Link.call, pending, next, sends]

theorem call_some {asked : Call × Reader} (pending : l.pending = some asked) : l.call h = l := by
  simp [Link.call, pending]

theorem Phase.call (phase : Phase h env total l) : Phase h env total (l.call h) := by
  cases phase with
  | rests later idles pending text own counts rest =>
    cases calls : l.calls with
    | nil =>
      have stays : l.call h = l := by simp [Link.call, pending, calls]
      rw [stays]
      exact .rests later idles pending text own counts rest
    | cons c calls' =>
      obtain ⟨bytes, sends, received⟩ := Call.requests h c
      rw [call_none pending calls sends]
      refine .asks c .start later (idles.sent received rfl rfl rfl rfl) rfl ?_ own ?_ ?_
      · intro more r plain fits
        exact Reader.decodes_reply (text.append plain) fits
      · exact congrArg (· + 1) counts
      · rw [rest, calls]
  | asks c reader later idles pending awaits own counts rest =>
    rw [call_some pending]
    exact .asks c reader later idles pending awaits own counts rest
  | commands c reader prog thread quiet fits drained pending awaits own counts rest =>
    rw [call_some pending]
    exact .commands c reader prog thread quiet fits drained pending awaits own counts rest
  | replies c reader left outcome later sends pending decodes own counts rest =>
    rw [call_some pending]
    exact .replies c reader left outcome later sends pending decodes own counts rest

/-! ## The firmware receives -/

theorem receive_of_execute {prog : Prog Unit} (thread : l.thread = .execute prog) :
    l.receive = l := by
  simp [Link.receive, thread]

theorem receive_inl {parser parser' : Parser} {b : Byte} {bs : List Byte}
    (thread : l.thread = .receive parser) (toFpga : l.toFpga = b :: bs)
    (fed : parser.feed b = .inl parser') :
    l.receive = { l with toFpga := bs, thread := .receive parser' } := by
  simp [Link.receive, thread, toFpga, fed]

theorem receive_inr {parser : Parser} {p : Packet} {b : Byte} {bs : List Byte}
    (thread : l.thread = .receive parser) (toFpga : l.toFpga = b :: bs)
    (fed : parser.feed b = .inr p) :
    l.receive = { l with toFpga := bs, thread := .execute (process p),
                         dispatched := l.dispatched + 1 } := by
  simp [Link.receive, thread, toFpga, fed]

/-- Waiting for nothing, the parser goes on with the byte. -/
theorem receive_drained {parser : Parser} (thread : l.thread = .receive parser)
    (drained : parser.receiveAll l.toFpga = ([], .start)) :
    l.receive = l ∨ ∃ parser' bs, l.receive = { l with toFpga := bs, thread := .receive parser' } ∧
      parser'.receiveAll bs = ([], .start) := by
  cases toFpga : l.toFpga with
  | nil =>
    left
    simp [Link.receive, thread, toFpga]
  | cons b bs =>
    rw [toFpga] at drained
    rcases Parser.feed_of_receiveAll drained with ⟨parser', fed, later⟩ | ⟨_, _, _, none, _⟩
    · exact .inr ⟨parser', bs, receive_inl thread toFpga fed, later⟩
    · cases none

theorem Phase.receive (phase : Phase h env total l) : Phase h env total l.receive := by
  cases running : l.thread with
  | execute prog =>
    rw [receive_of_execute running]
    exact phase
  | receive parser =>
    cases phase with
    | rests later idles pending text own counts rest =>
      have waits := idles
      rw [Idles, running] at waits
      rcases receive_drained running waits.1 with stays | ⟨parser', bs, next, drained⟩
      · rw [stays]
        exact .rests later idles pending text own counts rest
      · rw [next]
        exact .rests later ⟨drained, waits.2⟩ pending text own counts rest
    | asks c reader later idles pending awaits own counts rest =>
      have waits := idles
      rw [Idles, running] at waits
      obtain ⟨received, rfl⟩ := waits
      cases toFpga : l.toFpga with
      | nil =>
        rw [toFpga] at received
        cases received
      | cons b bs =>
        rw [toFpga] at received
        rcases Parser.feed_of_receiveAll received with ⟨parser', fed, drained⟩ | ⟨p, ps, fed, eq, drained⟩
        · rw [receive_inl running toFpga fed]
          exact .asks c reader _ ⟨drained, rfl⟩ pending awaits own counts rest
        · obtain ⟨rfl, rfl⟩ := List.cons.inj eq
          rw [receive_inr running toFpga fed]
          refine .commands c reader (command (Call.packet h c)) ?_ (quiet_command _) (Call.fits h c)
            drained pending awaits (fun x member => .inl (own x member)) counts ?_
          · rw [process_eq]
          · rw [rest, expected, process_eq]
    | commands c reader prog thread quiet fits drained pending awaits own counts rest =>
      rw [running] at thread
      cases thread
    | replies c reader left outcome later sends pending decodes own counts rest =>
      have waits := sends
      rw [Replies, running] at waits
      rcases receive_drained running waits.1 with stays | ⟨parser', bs, next, drained⟩
      · rw [stays]
        exact .replies c reader left outcome later sends pending decodes own counts rest
      · rw [next]
        exact .replies c reader left outcome later ⟨drained, waits.2⟩ pending decodes own counts rest

/-! ## The firmware executes -/

theorem execute_done {text : List Byte} (thread : l.thread = .execute (.done ())) :
    l.execute env text = { l with thread := .receive .start } := by
  simp [Link.execute, thread]

theorem execute_act {text : List Byte} {op : Op} {next : Answer op → Prog Unit}
    (thread : l.thread = .execute (.act op next)) :
    l.execute env text =
      { l with
        thread := .execute (next (env l.bus op).1)
        bus := (env l.bus op).2
        toHost := l.toHost ++ (output text op).map (l.dispatched, ·) } := by
  simp [Link.execute, thread]

theorem text_output {text : List Byte} (plain : Text text) {op : Op}
    (silent : sentByte? op = none) : Text (output text op) := by
  cases op with
  | uartWriteByte b => cases silent
  | xilPrintf format args => exact plain
  | out32 addr data => exact fun _ member => by cases member
  | in32 addr => exact fun _ member => by cases member

theorem wire_output (text : List Byte) (op : Op) :
    (l.toHost ++ (output text op).map (l.dispatched, ·)).map Prod.snd =
      l.wire ++ output text op := by
  rw [List.map_append, List.map_map, wire]
  congr 1
  exact List.map_id _

/-- Every new byte is of the packet dispatched last. -/
theorem own_output {P : Nat → Prop} {text : List Byte} {op : Op} (own : ∀ x ∈ l.toHost, P x.1)
    (new : P l.dispatched) :
    ∀ x ∈ l.toHost ++ (output text op).map (l.dispatched, ·), P x.1 := by
  intro x member
  cases List.mem_append.mp member with
  | inl before => exact own x before
  | inr sent =>
    obtain ⟨b, -, rfl⟩ := List.mem_map.mp sent
    exact new

theorem Awaits.text {c : Call} {reader : Reader} {bytes more : List Byte}
    (awaits : Awaits c reader bytes) (plain : Text more) : Awaits c reader (bytes ++ more) := by
  intro text r after fits
  have decodes := awaits (more ++ text) r (plain.append after) fits
  rwa [← List.append_assoc bytes] at decodes

/-- Before its next packet the firmware executes an operation of `boot`, or starts to receive. -/
theorem Idles.execute {packets : List Packet} {later : σ} (idles : Idles env l packets later)
    {prog : Prog Unit} (thread : l.thread = .execute prog) {text : List Byte} (plain : Text text) :
    l.execute env text = { l with thread := .receive .start } ∧
        Idles env { l with thread := .receive .start } packets later ∨
      ∃ op next, l.thread = .execute (.act op next) ∧ l.dispatched = 0 ∧ Text (output text op) ∧
        Idles env (l.execute env text) packets later := by
  rw [Idles, thread] at idles
  obtain ⟨received, leaves, quiet, last⟩ := idles
  cases prog with
  | done u => exact .inl ⟨execute_done thread, received, leaves⟩
  | act op next =>
    right
    obtain ⟨silent, rest⟩ := quiet.of_act
    have first : l.dispatched = 0 := by
      by_contra later
      cases last later
    refine ⟨op, next, thread, first, text_output plain silent, ?_⟩
    rw [execute_act thread]
    exact ⟨received, leaves, rest _, fun later => absurd first later⟩

/-- A byte of the reply moves from the program to the wire. -/
theorem Replies.execute {c : Call} {reader : Reader} {left : List Byte} {outcome : Outcome}
    {later : σ} (sends : Replies env l left later) (pending : l.pending = some (c, reader))
    (decodes : Reader.Decodes c.readsWord reader (l.wire ++ left) outcome)
    (own : ∀ x ∈ l.toHost, x.1 = 0 ∨ x.1 = l.made) (counts : l.dispatched = l.made)
    (rest : total = l.outcomes ++ outcome :: expected h env later l.calls)
    {prog : Prog Unit} (thread : l.thread = .execute prog) (text : List Byte) :
    Phase h env total (l.execute env text) := by
  rw [Replies, thread] at sends
  obtain ⟨drained, leaves, rfl⟩ := sends
  cases left with
  | nil =>
    rw [execute_done thread]
    exact .replies c reader [] outcome later ⟨drained, leaves, rfl⟩ pending decodes own counts rest
  | cons b left =>
    rw [execute_act thread]
    refine .replies c reader left outcome later ⟨drained, leaves, rfl⟩ pending ?_
      (own_output (P := fun n => n = 0 ∨ n = l.made) own (.inr counts)) counts rest
    rw [Link.wire, wire_output, List.append_assoc]
    exact decodes

theorem sendReply_eq (r : Reply) : sendReply r = sendBytes r.bytes := by
  cases r <;> rfl

theorem Phase.execute (phase : Phase h env total l) {text : List Byte} (plain : Text text) :
    Phase h env total (l.execute env text) := by
  cases running : l.thread with
  | receive parser =>
    have stays : l.execute env text = l := by simp [Link.execute, running]
    rw [stays]
    exact phase
  | execute prog =>
    cases phase with
    | rests later idles pending wire own counts rest =>
      rcases idles.execute running plain with ⟨next, idles⟩ | ⟨op, _, thread, first, out, idles⟩
      · rw [next]
        exact .rests later idles pending wire own counts rest
      · rw [execute_act thread] at idles ⊢
        refine .rests later idles pending ?_ (own_output (P := (· = 0)) own first) counts rest
        rw [Link.wire, wire_output]
        exact wire.append out
    | asks c reader later idles pending awaits own counts rest =>
      rcases idles.execute running plain with ⟨next, idles⟩ | ⟨op, _, thread, first, out, idles⟩
      · rw [next]
        exact .asks c reader later idles pending awaits own counts rest
      · rw [execute_act thread] at idles ⊢
        refine .asks c reader later idles pending ?_ (own_output (P := (· = 0)) own first) counts rest
        rw [Link.wire, wire_output]
        exact awaits.text out
    | commands c reader cmd thread quiet fits drained pending awaits own counts rest =>
      cases cmd with
      | act op next =>
        obtain ⟨silent, quietly⟩ := quiet.of_act
        rw [execute_act thread]
        refine .commands c reader (next (env l.bus op).1) rfl (quietly _) fits drained pending ?_
          (own_output (P := fun n => n = 0 ∨ n = l.made) own (.inr counts)) counts rest
        rw [Link.wire, wire_output]
        exact awaits.text (text_output plain silent)
      | done r =>
        -- the first byte of the reply
        have sends : Replies env l r.bytes ((sendReply r).exec env l.bus).2 := by
          rw [Replies, thread]
          exact ⟨drained, rfl, sendReply_eq r⟩
        have decodes : Reader.Decodes c.readsWord reader (l.wire ++ r.bytes) r.outcome := by
          have alone := awaits [] r Text.nil fits
          rwa [List.append_nil] at alone
        exact sends.execute pending decodes own counts rest thread text
    | replies c reader left outcome later sends pending decodes own counts rest =>
      exact sends.execute pending decodes own counts rest running text

/-! ## The host reads -/

theorem read_inl {c : Call} {reader reader' : Reader} {x : Nat × Byte} {xs : List (Nat × Byte)}
    (pending : l.pending = some (c, reader)) (toHost : l.toHost = x :: xs)
    (fed : reader.feed c.readsWord x.2 = .inl reader') :
    l.read = { l with toHost := xs, pending := some (c, reader') } := by
  simp [Link.read, pending, toHost, fed]

theorem read_inr {c : Call} {reader : Reader} {outcome : Outcome} {x : Nat × Byte}
    {xs : List (Nat × Byte)} (pending : l.pending = some (c, reader)) (toHost : l.toHost = x :: xs)
    (fed : reader.feed c.readsWord x.2 = .inr outcome) :
    l.read = { l with toHost := xs, pending := none, outcomes := l.outcomes ++ [outcome] } := by
  simp [Link.read, pending, toHost, fed]

/-- A call that awaits its reply does not end before it. -/
theorem Awaits.read {c : Call} {reader : Reader} {b : Byte} {bs : List Byte}
    (awaits : Awaits c reader (b :: bs)) :
    ∃ reader', reader.feed c.readsWord b = .inl reader' ∧ Awaits c reader' bs := by
  rcases Reader.decodes_cons (awaits [] .nack Text.nil trivial) with ⟨reader', fed, -⟩ | ⟨-, ended⟩
  · refine ⟨reader', fed, ?_⟩
    intro text r plain fits
    rcases Reader.decodes_cons (awaits text r plain fits) with ⟨_, same, decodes⟩ | ⟨last, -⟩
    · rw [fed] at same
      exact Sum.inl.inj same ▸ decodes
    · rw [fed] at last
      cases last
  · exact absurd (List.append_eq_nil_iff.mp ended).2 (List.cons_ne_nil _ _)

theorem Phase.read (phase : Phase h env total l) : Phase h env total l.read := by
  cases toHost : l.toHost with
  | nil =>
    have stays : l.read = l := by
      cases pending : l.pending <;> simp [Link.read, pending, toHost]
    rw [stays]
    exact phase
  | cons x xs =>
    have wire : l.wire = x.2 :: xs.map Prod.snd := by rw [Link.wire, toHost, List.map_cons]
    have fewer : ∀ y ∈ xs, y ∈ l.toHost := fun y member => toHost ▸ List.mem_cons_of_mem x member
    cases phase with
    | rests later idles pending text own counts rest =>
      have stays : l.read = l := by simp [Link.read, pending]
      rw [stays]
      exact .rests later idles pending text own counts rest
    | asks c reader later idles pending awaits own counts rest =>
      rw [wire] at awaits
      obtain ⟨reader', fed, awaits⟩ := awaits.read
      rw [read_inl pending toHost fed]
      exact .asks c reader' later idles rfl awaits (fun y member => own y (fewer y member)) counts
        rest
    | commands c reader prog thread quiet fits drained pending awaits own counts rest =>
      rw [wire] at awaits
      obtain ⟨reader', fed, awaits⟩ := awaits.read
      rw [read_inl pending toHost fed]
      exact .commands c reader' prog thread quiet fits drained rfl awaits
        (fun y member => own y (fewer y member)) counts rest
    | replies c reader left outcome later sends pending decodes own counts rest =>
      rw [wire] at decodes
      rcases Reader.decodes_cons decodes with ⟨reader', fed, decodes⟩ | ⟨fed, ended⟩
      · rw [read_inl pending toHost fed]
        exact .replies c reader' left outcome later sends rfl decodes
          (fun y member => own y (fewer y member)) counts rest
      · obtain ⟨empty, rfl⟩ := List.append_eq_nil_iff.mp ended
        obtain rfl : xs = [] := List.map_eq_nil_iff.mp empty
        rw [read_inr pending toHost fed]
        refine .rests later ?_ rfl Text.nil (fun _ member => by cases member) counts ?_
        · rw [Replies] at sends
          rw [Idles]
          cases running : l.thread with
          | receive parser =>
            rw [running] at sends
            exact ⟨sends.1, sends.2.1⟩
          | execute prog =>
            rw [running] at sends
            obtain ⟨drained, leaves, rfl⟩ := sends
            exact ⟨drained, leaves, Quiet.pure (), fun _ => rfl⟩
        · rw [rest, List.append_assoc]
          rfl

/-! ## One event -/

theorem counts_step (counts : l.made = l.outcomes.length + l.pending.isSome.toNat) (e : Event) :
    (step h env l e).made =
      (step h env l e).outcomes.length + (step h env l e).pending.isSome.toNat := by
  cases e with
  | call =>
    cases pending : l.pending with
    | some asked => simpa [step, Link.call, pending] using counts
    | none =>
      cases calls : l.calls with
      | nil => simpa [step, Link.call, pending, calls] using counts
      | cons c calls' =>
        cases request : h.request c <;> simp_all [step, Link.call]
  | receive =>
    have same : l.receive.made = l.made ∧ l.receive.outcomes = l.outcomes ∧
        l.receive.pending = l.pending := by
      rw [Link.receive]
      split
      · split <;> exact ⟨rfl, rfl, rfl⟩
      · exact ⟨rfl, rfl, rfl⟩
    rw [step, same.1, same.2.1, same.2.2, counts]
  | execute text =>
    have same : (l.execute env text).made = l.made ∧ (l.execute env text).outcomes = l.outcomes ∧
        (l.execute env text).pending = l.pending := by
      rw [Link.execute]
      split <;> exact ⟨rfl, rfl, rfl⟩
    rw [step, same.1, same.2.1, same.2.2, counts]
  | read =>
    cases pending : l.pending with
    | none => simpa [step, Link.read, pending] using counts
    | some asked =>
      cases toHost : l.toHost with
      | nil => simpa [step, Link.read, pending, toHost] using counts
      | cons x xs =>
        cases fed : asked.2.feed asked.1.readsWord x.2 <;> simp_all [step, Link.read]

theorem Inv.step (inv : Inv h env total l) {e : Event} (plain : Plain l e) :
    Inv h env total (step h env l e) where
  counts := counts_step inv.counts e
  phase := by
    cases e with
    | call => exact inv.phase.call
    | receive => exact inv.phase.receive
    | execute text => exact inv.phase.execute plain
    | read => exact inv.phase.read

/-! ## Completion -/

def threadLeft (env : σ → (op : Op) → Answer op × σ) (l : Link σ) : Nat :=
  match l.thread with
  | .receive _ => 0
  | .execute prog => (prog.trace env l.bus).length + 1

/-- Calls to make, a packet to dispatch, operations to execute, bytes to read. -/
def left (env : σ → (op : Op) → Answer op × σ) (l : Link σ) : Nat × Nat × Nat × Nat :=
  (l.calls.length, l.made - l.dispatched, threadLeft env l, l.toFpga.length + l.toHost.length)

/-- Lexicographically, in this order. -/
def Less : Nat × Nat × Nat × Nat → Nat × Nat × Nat × Nat → Prop :=
  Prod.Lex (· < ·) (Prod.Lex (· < ·) (Prod.Lex (· < ·) (· < ·)))

theorem less_execute {prog : Prog Unit} (thread : l.thread = .execute prog) :
    Less (left env (l.execute env [])) (left env l) := by
  have fewer : threadLeft env (l.execute env []) < threadLeft env l := by
    cases prog with
    | done u =>
      rw [execute_done thread]
      simp [threadLeft, thread]
    | act op next =>
      rw [execute_act thread]
      simp [threadLeft, thread]
  have same : (l.execute env []).calls = l.calls ∧ (l.execute env []).made = l.made ∧
      (l.execute env []).dispatched = l.dispatched := by
    rw [Link.execute]
    split <;> exact ⟨rfl, rfl, rfl⟩
  rw [left, same.1, same.2.1, same.2.2]
  exact .right _ (.right _ (.left _ _ fewer))

/-- While calls or a reply are left, some event brings the conversation on. -/
theorem Inv.progress (inv : Inv h env total l) (more : ¬ (l.calls = [] ∧ l.pending = none)) :
    ∃ e, Plain l e ∧ Less (left env (Link.step h env l e)) (left env l) := by
  cases running : l.thread with
  | execute prog => exact ⟨.execute [], Text.nil, less_execute running⟩
  | receive parser =>
    cases inv.phase with
    | rests later idles pending text own counts rest =>
      cases calls : l.calls with
      | nil => exact absurd ⟨calls, pending⟩ more
      | cons c calls' =>
        obtain ⟨bytes, sends, -⟩ := Call.requests h c
        refine ⟨.call, trivial, ?_⟩
        rw [Link.step, call_none pending calls sends]
        exact .left _ _ (by rw [calls]; exact Nat.lt_succ_self _)
    | asks c reader later idles pending awaits own counts rest =>
      refine ⟨.receive, trivial, ?_⟩
      rw [Idles, running] at idles
      have received := idles.1
      cases toFpga : l.toFpga with
      | nil =>
        rw [toFpga] at received
        cases received
      | cons b bs =>
        cases fed : parser.feed b with
        | inl parser' =>
          rw [Link.step, receive_inl running toFpga fed]
          simp [left, Less, threadLeft, running, toFpga, Prod.lex_def]
        | inr p =>
          rw [Link.step, receive_inr running toFpga fed]
          exact .right _ (.left _ _ (by change l.made - (l.dispatched + 1) < _; omega))
    | commands c reader prog thread quiet fits drained pending awaits own counts rest =>
      rw [running] at thread
      cases thread
    | replies c reader rest' outcome later sends pending decodes own counts rest =>
      refine ⟨.read, trivial, ?_⟩
      rw [Replies, running] at sends
      obtain ⟨-, -, rfl⟩ := sends
      cases toHost : l.toHost with
      | nil =>
        rw [Link.wire, toHost] at decodes
        cases decodes
      | cons x xs =>
        cases fed : reader.feed c.readsWord x.2 <;>
          simp [Link.step, Link.read, pending, toHost, fed, left, Less, threadLeft, running,
            Prod.lex_def]

/-- From any state of a conversation the rest of it can take place. -/
theorem Inv.completes {l : Link σ} (inv : Inv h env total l) :
    ∃ events, LegalRun (Link.step h env) Plain l events ∧
      (run (Link.step h env) l events).outcomes = total := by
  by_cases ended : l.calls = [] ∧ l.pending = none
  · refine ⟨[], trivial, ?_⟩
    cases inv.phase with
    | rests later idles pending text own counts rest =>
      rw [rest, ended.1, expected, List.append_nil]
      rfl
    | asks c reader later idles pending awaits own counts rest =>
      rw [ended.2] at pending
      cases pending
    | commands c reader prog thread quiet fits drained pending awaits own counts rest =>
      rw [ended.2] at pending
      cases pending
    | replies c reader rest' outcome later sends pending decodes own counts rest =>
      rw [ended.2] at pending
      cases pending
  · obtain ⟨e, plain, less⟩ := inv.progress ended
    obtain ⟨events, legal, whole⟩ := (inv.step plain).completes
    exact ⟨e :: events, ⟨plain, legal⟩, whole⟩
termination_by left env l
decreasing_by exact less

end Link

/-- The host and the firmware stay in step.  In every state of every conversation, on any
    bus and with any text on the wire, the calls have seen the replies of their own packets, and
    have left nothing of them; and the conversation can always be completed. -/
theorem conversation_in_step (h : DMASerialHost) {σ : Type}
    (env : σ → (op : Op) → Answer op × σ) (bus : σ) (calls : List Call) {events : List Link.Event}
    (legal : LegalRun (Link.step h env) Link.Plain (Link.start bus calls) events) :
    let total := Link.expected h env (Link.boot.exec env bus).2 calls
    let l := run (Link.step h env) (Link.start bus calls) events
    Link.InStep total l ∧ ∃ more, LegalRun (Link.step h env) Link.Plain l more ∧
      (run (Link.step h env) l more).outcomes = total := by
  intro total l
  have inv : Link.Inv h env total l :=
    legal.invariant (fun _ _ inv plain => inv.step plain) (Link.inv_start bus calls)
  exact ⟨inv.inStep, inv.completes⟩

/-- A call, then more turns than it needs, with two bytes of text for each report. -/
def oneCall : List Link.Event :=
  [.call] ++ List.replicate 17 .receive ++ List.replicate 30 (.execute [0x2E, 0x0A]) ++
    List.replicate 30 .read

def threeTurns : List Link.Event :=
  List.replicate 2 (.execute [0x52, 0x0A]) ++ oneCall ++ oneCall ++ oneCall

/-- A write of the sync word, a `run_dma` with an empty ring, and a read of the word. -/
def threeCalls : List Call := [.sramWrite 4 0xDEADBEEF, .runDma, .readSram 4]

theorem conversation_in_step_three :
    let env := Shim.access fun _ => 4
    let bus : Shim := { initAddr := 0, initData := 0, rdata := 0, mem := fun _ _ => 0 }
    let total := Link.expected ⟨0x80000000, 0, 0⟩ env (Link.boot.exec env bus).2 threeCalls
    let l := run (Link.step ⟨0x80000000, 0, 0⟩ env) (Link.start bus threeCalls) threeTurns
    Link.InStep total l ∧ l.outcomes = [.acked, .nacked cmdNack, .word packetSyncWord] ∧
      l.toHost = [] := by
  intro env bus total l
  have legal : LegalRun (Link.step ⟨0x80000000, 0, 0⟩ env) Link.Plain (Link.start bus threeCalls)
      threeTurns := by decide +kernel
  obtain ⟨inStep, -⟩ := conversation_in_step ⟨0x80000000, 0, 0⟩ env bus threeCalls legal
  exact ⟨inStep, by decide +kernel, by decide +kernel⟩

end AxiDma.Verified
