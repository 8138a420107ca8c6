import AxiDma.Firmware.Board
import AxiDma.Lib.ByteStream
import AxiDma.Rtl.VivadoConfig
import AxiDma.Verified.AxiLiteSlave

/-! # The whole FPGA and its firmware

`vivado_config` with `dma_top` in it: the CSR block, the ring manager, `movement_top`, the system
memory and the access controller to both memories.  MicroBlaze reaches the CSR block and the
controller over one bus.  `dma_top.sv` is wired by its port names, as everywhere.
-/

namespace AxiDma.Verified

open AxiDma.Lib AxiDma.Rtl AxiDma.Firmware
open CsrCore (Delays bus)

structure Fpga (k addrWidth : Nat) where
  csr : Csr.State
  rm : RingManager.State maxInflight
  board : VivadoConfig.State k addrWidth
  /-- The bytes on the serial line, without the text of `xil_printf`. -/
  sent : List Byte

namespace Fpga

variable {k addrWidth : Nat}

structure In where
  delays : Delays
  /-- What other targets return. -/
  otherData : Word
  deriving DecidableEq, Repr

/-- After `rst_n`; both memories keep their contents. -/
def reset (board : VivadoConfig.State k addrWidth) : Fpga k addrWidth :=
  { csr := Csr.resetState, rm := RingManager.resetState maxInflight, board := VivadoConfig.reset board
    sent := [] }

/-! ## Wiring -/

def window (interconnect : Interconnect) (target : Target) (addr : Word) : Bool :=
  interconnect.route addr == target

/-- What a target sees of the bus. -/
def busOf (interconnect : Interconnect) (target : Target) (i : In) (op : Option Op) : AxiLiteMaster :=
  bus i.delays (asked (window interconnect target) op)

def core (s : Fpga k addrWidth) : DmaCore.State k addrWidth := ⟨s.rm, s.board.dma⟩

def coreIn (memWords : Nat) (s : Fpga k addrWidth) : DmaCore.In addrWidth :=
  { csr := Csr.toRing s.csr, axi := SysMem.out memWords s.board.sysMem, init := VivadoConfig.bramInit s.board }

def csrIn (memWords : Nat) (s : Fpga k addrWidth) (bus : AxiLiteMaster) : Csr.In :=
  { rstN := true
    bus := bus
    ring :=
      { head := s.rm.head
        busy := RingManager.busy s.rm
        ringEmpty := RingManager.ringEmpty s.rm (Csr.toRing s.csr)
        irqEmptySet := RingManager.irqEmptySet s.rm (Csr.toRing s.csr)
        errorSet := RingManager.errorSet (DmaCore.rmIn s.core (s.coreIn memWords)) } }

def boardIn (s : Fpga k addrWidth) (bus : AxiLiteMaster) : VivadoConfig.In :=
  { bus := bus
    rmDfAddr := RingManager.rmDfAddr s.rm (Csr.toRing s.csr)
    rmDfValid := RingManager.fetchReqValid s.rm (Csr.toRing s.csr) }

/-! ## One cycle -/

/-- A byte leaves when there is room for it. -/
def output (i : In) : Option Op → List Byte
  | some (.uartWriteByte byte) => if i.delays.tx then [byte] else []
  | _ => []

def step (memWords : Nat) (interconnect : Interconnect) (s : Fpga k addrWidth) (i : In) (op : Option Op) :
    Fpga k addrWidth :=
  { csr := Csr.next s.csr (s.csrIn memWords (busOf interconnect .csr i op))
    rm := RingManager.step s.rm (DmaCore.rmIn s.core (s.coreIn memWords))
    board := VivadoConfig.step memWords s.board (s.boardIn (busOf interconnect .memAccessCtrl i op))
    sent := s.sent ++ output i op }

def writeResponds (s : Fpga k addrWidth) (i : In) : Target → Bool
  | .csr => s.csr.bvalid && i.delays.b
  | .memAccessCtrl => s.board.memInit.bvalid && i.delays.b
  | .other => i.delays.b

def readResponds (s : Fpga k addrWidth) (i : In) : Target → Option Word
  | .csr => if s.csr.rvalid && i.delays.r then some s.csr.rdata else none
  | .memAccessCtrl => if s.board.memInit.rvalid && i.delays.r then some s.board.memInit.rdata else none
  | .other => if i.delays.r then some i.otherData else none

/-- MicroBlaze with the bus and the serial line. -/
def device (k addrWidth memWords : Nat) (interconnect : Interconnect) :
    Device (Fpga k addrWidth) In Op Answer where
  step := step memWords interconnect
  answer s i op :=
    match op with
    | .out32 addr _ => if writeResponds s i (interconnect.route addr) then some () else none
    | .in32 addr => readResponds s i (interconnect.route addr)
    | .uartWriteByte _ | .xilPrintf _ _ => if i.delays.tx then some () else none
  prompt i := i.delays.aw && i.delays.w && i.delays.b && i.delays.ar && i.delays.r && i.delays.tx

variable {memWords : Nat} {interconnect : Interconnect} {s : Fpga k addrWidth} {i : In} {op : Option Op}
  {addr data : Word}

theorem csr_step : (step memWords interconnect s i op).csr =
    Csr.next s.csr (s.csrIn memWords (busOf interconnect .csr i op)) := rfl

theorem board_step : (step memWords interconnect s i op).board =
    VivadoConfig.step memWords s.board (s.boardIn (busOf interconnect .memAccessCtrl i op)) := rfl

theorem memInit_step : (step memWords interconnect s i op).board.memInit =
    MemAccessCtrl.step s.board.memInit
      (VivadoConfig.memInitIn s.board (s.boardIn (busOf interconnect .memAccessCtrl i op))) := rfl

/-- Ring manager and `movement_top` step as one core. -/
theorem core_step : (step memWords interconnect s i op).core = DmaCore.step s.core (s.coreIn memWords) := rfl

theorem sysMem_step : (step memWords interconnect s i op).board.sysMem =
    SysMem.step memWords s.board.sysMem
      (MovementTop.axiOut s.board.dma (DmaCore.mtIn s.core (s.coreIn memWords))).axi
      (VivadoConfig.memInitPort s.board) := rfl

theorem sent_step : (step memWords interconnect s i op).sent = s.sent ++ output i op := rfl

/-! ## The two slaves -/

theorem prompt_delays {i : In} (prompt : (device k addrWidth memWords interconnect).prompt i = true) :
    ((i.delays.aw = true ∧ i.delays.w = true ∧ i.delays.b = true) ∧ i.delays.ar = true ∧ i.delays.r = true) ∧
      i.delays.tx = true := by
  simp only [device, Bool.and_eq_true] at prompt
  obtain ⟨⟨⟨⟨⟨aw, w⟩, b⟩, ar⟩, r⟩, tx⟩ := prompt
  exact ⟨⟨⟨aw, w, b⟩, ar, r⟩, tx⟩

theorem route_of_window {target : Target} (here : window interconnect target addr = true) :
    interconnect.route addr = target := beq_iff_eq.mp here

/-- The CSR block. -/
def csrSlave (k addrWidth memWords : Nat) (interconnect : Interconnect) :
    Slave (device k addrWidth memWords interconnect) where
  acts i := i.delays
  mine := window interconnect .csr
  port s := Csr.writePort s.csr
  rvalid s := s.csr.rvalid
  rdata s := s.csr.rdata
  readData s addr := Csr.readData s.csr (s.csrIn memWords Csr.busIdle).ring (addr.setWidth 8)
  port_step s i op := Csr.writePort_next _ _
  rvalid_step s i op := by
    change (Csr.next s.csr _).rvalid = _
    rw [Csr.next_rvalid, Csr.arHs, Csr.arready]
    cases s.csr.rvalid <;> simp [csrIn, busOf]
  rdata_step s i op := by
    change (Csr.next s.csr _).rdata = _
    rw [Csr.next_rdata, Csr.arHs, Csr.arready, Bool.and_comm]
    rfl
  answer_out s i addr data here := by
    simp only [device, route_of_window here, writeResponds]
    rfl
  answer_in s i addr here := by
    simp only [device, route_of_window here, readResponds]
  prompt i all := (prompt_delays all).1

/-- The access controller. -/
def initSlave (k addrWidth memWords : Nat) (interconnect : Interconnect) :
    Slave (device k addrWidth memWords interconnect) where
  acts i := i.delays
  mine := window interconnect .memAccessCtrl
  port s := MemAccessCtrl.writePort s.board.memInit
  rvalid s := s.board.memInit.rvalid
  rdata s := s.board.memInit.rdata
  readData s addr := MemAccessCtrl.readData s.board.memInit (addr.setWidth 8)
  port_step s i op := MemAccessCtrl.writePort_step _ _
  rvalid_step s i op := by
    change (MemAccessCtrl.step s.board.memInit _).rvalid = _
    rw [MemAccessCtrl.rvalid_step, MemAccessCtrl.arHs, MemAccessCtrl.arready]
    cases s.board.memInit.rvalid <;> simp [VivadoConfig.memInitIn, boardIn, busOf]
  rdata_step s i op := by
    change (MemAccessCtrl.step s.board.memInit _).rdata = _
    rw [MemAccessCtrl.rdata_step, MemAccessCtrl.arHs, MemAccessCtrl.arready, Bool.and_comm]
    rfl
  answer_out s i addr data here := by
    simp only [device, route_of_window here, writeResponds]
    rfl
  answer_in s i addr here := by
    simp only [device, route_of_window here, readResponds]
  prompt i all := (prompt_delays all).1

/-- The windows are apart. -/
theorem window_apart {target target' : Target} (apart : target ≠ target')
    (here : window interconnect target addr = true) : window interconnect target' addr = false := by
  rw [window, route_of_window here]
  simpa using apart

theorem asked_out_apart {target target' : Target} (apart : target ≠ target')
    (here : window interconnect target addr = true) :
    asked (window interconnect target') (some (.out32 addr data)) = none := by
  rw [asked, window_apart apart here, if_neg Bool.false_ne_true]

theorem asked_in_apart {target target' : Target} (apart : target ≠ target')
    (here : window interconnect target addr = true) :
    asked (window interconnect target') (some (.in32 addr)) = none := by
  rw [asked, window_apart apart here, if_neg Bool.false_ne_true]

/-! ## Output -/

section Output

variable {K : List Byte → Fpga k addrWidth → Prop} {sent : List Byte}

/-- Neither slave is asked. -/
def Elsewhere (interconnect : Interconnect) (op : Option Op) : Prop :=
  asked (window interconnect .csr) op = none ∧ asked (window interconnect .memAccessCtrl) op = none

/-- A family over what has been sent that is kept as long as nothing is asked of the slaves. -/
def Sends (memWords : Nat) (interconnect : Interconnect) (K : List Byte → Fpga k addrWidth → Prop) : Prop :=
  ∀ sent s i op, Elsewhere interconnect op → K sent s →
    K (sent ++ output i op) (step memWords interconnect s i op)

/-- A byte takes one cycle with room for it. -/
theorem ensures_uartWriteByte (sends : Sends memWords interconnect K) (holds : K sent s) (byte : Byte) :
    Ensures (device k addrWidth memWords interconnect) (fun _ => K (sent ++ [byte])) 1
      ⟨s, uartWriteByte byte⟩ := by
  refine Ensures.of_inv (fun n c => c.prog = uartWriteByte byte ∧ K sent c.state ∧ 1 ≤ n ∨
    c.prog = .done () ∧ K (sent ++ [byte]) c.state) ?_ ?_ (.inl ⟨rfl, holds, Nat.le_refl 1⟩)
  · intro n c i inv
    obtain ⟨s, prog⟩ := c
    cases inv with
    | inl prints =>
      obtain ⟨rfl, holds, left⟩ := prints
      -- without room the byte is offered again
      have next := sends sent s i (some (.uartWriteByte byte)) ⟨rfl, rfl⟩ holds
      have driven : Driven.step (device k addrWidth memWords interconnect) ⟨s, uartWriteByte byte⟩ i =
          ⟨step memWords interconnect s i (some (.uartWriteByte byte)),
            if i.delays.tx then .done () else uartWriteByte byte⟩ := by
        simp only [Driven.step, device, uartWriteByte, Program.call]
        cases i.delays.tx <;> rfl
      rw [driven]
      cases tx : i.delays.tx with
      | true =>
        rw [output, if_pos tx] at next
        exact .inr ⟨rfl, next⟩
      | false =>
        rw [output, if_neg (by simp [tx]), List.append_nil] at next
        exact .inl ⟨rfl, next, by simpa [device, tx] using left⟩
    | inr returned =>
      obtain ⟨rfl, holds⟩ := returned
      have next := sends _ s i none ⟨rfl, rfl⟩ holds
      change K (sent ++ [byte] ++ []) _ at next
      rw [List.append_nil] at next
      exact .inr ⟨rfl, next⟩
  · intro n c inv
    obtain ⟨s, prog⟩ := c
    cases inv with
    | inl prints =>
      obtain ⟨rfl, -, left⟩ := prints
      exact left
    | inr returned =>
      obtain ⟨rfl, holds⟩ := returned
      exact holds

theorem ensures_xilPrintf (sends : Sends memWords interconnect K) (holds : K sent s) (format : String)
    (args : List Word) :
    Ensures (device k addrWidth memWords interconnect) (fun _ => K sent) 1 ⟨s, xilPrintf format args⟩ := by
  have kept (s : Fpga k addrWidth) (i : In) (op : Option Op) (silent : output i op = [])
      (elsewhere : Elsewhere interconnect op) (holds : K sent s) :
      K sent (step memWords interconnect s i op) := by
    have next := sends sent s i op elsewhere holds
    rwa [silent, List.append_nil] at next
  refine Ensures.of_inv (fun n c => K sent c.state ∧ (c.prog = xilPrintf format args ∧ 1 ≤ n ∨ c.prog = .done ()))
    ?_ ?_ ⟨holds, .inl ⟨rfl, Nat.le_refl 1⟩⟩
  · intro n c i inv
    obtain ⟨s, prog⟩ := c
    obtain ⟨holds, waits⟩ := inv
    cases waits with
    | inl prints =>
      obtain ⟨rfl, left⟩ := prints
      have driven : Driven.step (device k addrWidth memWords interconnect) ⟨s, xilPrintf format args⟩ i =
          ⟨step memWords interconnect s i (some (.xilPrintf format args)),
            if i.delays.tx then .done () else xilPrintf format args⟩ := by
        simp only [Driven.step, device, xilPrintf, Program.call]
        cases i.delays.tx <;> rfl
      rw [driven]
      refine ⟨kept s i _ rfl ⟨rfl, rfl⟩ holds, ?_⟩
      cases tx : i.delays.tx with
      | true => exact .inr rfl
      | false => exact .inl ⟨rfl, by simpa [device, tx] using left⟩
    | inr returned =>
      obtain rfl := returned
      exact ⟨kept s i none rfl ⟨rfl, rfl⟩ holds, .inr rfl⟩
  · intro n c inv
    obtain ⟨s, prog⟩ := c
    obtain ⟨holds, ⟨rfl, left⟩ | rfl⟩ := inv
    · exact left
    · exact holds

theorem ensures_uartWriteU32 (sends : Sends memWords interconnect K) (holds : K sent s) (data : Word) :
    Ensures (device k addrWidth memWords interconnect) (fun _ => K (sent ++ bytesLe data)) 4
      ⟨s, uartWriteU32 data⟩ := by
  refine (ensures_uartWriteByte sends holds _).bind (n := 3) fun _ s holds => ?_
  refine (ensures_uartWriteByte sends holds _).bind (n := 2) fun _ s holds => ?_
  refine (ensures_uartWriteByte sends holds _).bind (n := 1) fun _ s holds => ?_
  refine (ensures_uartWriteByte sends holds _).mono (fun _ s holds => ?_) (Nat.le_refl 1)
  simpa [bytesLe] using holds

/-- The bytes of an answer. -/
def answerBytes (ackType : Byte) : List Byte := bytesLe packetSyncWord ++ [ackType]

theorem ensures_sendAck (sends : Sends memWords interconnect K) (holds : K sent s) (ackType : Byte) :
    Ensures (device k addrWidth memWords interconnect) (fun _ => K (sent ++ answerBytes ackType)) 5
      ⟨s, sendAck ackType⟩ := by
  refine (ensures_uartWriteU32 sends holds _).bind (n := 1) fun _ s holds => ?_
  refine (ensures_uartWriteByte sends holds _).mono (fun _ s holds => ?_) (Nat.le_refl 1)
  rwa [List.append_assoc] at holds

end Output

end Fpga

end AxiDma.Verified
