import AxiDma.Verified.PanelCommands
import AxiDma.Verified.RunDma

/-! # A session of the host

The host writes the ring and the data, runs the DMA and reads the memories back, each by one packet.
-/

namespace AxiDma.Verified

open AxiDma.Lib AxiDma.Rtl AxiDma.Firmware

theorem processAll_append (first second : List Packet) :
    processAll (first ++ second) = processAll first >>= fun _ => processAll second := by
  induction first with
  | nil => rfl
  | cons packet packets ih =>
    rw [List.cons_append, processAll, processAll, ih, Program.bind_assoc]

theorem process_of_runDma {packet : Packet} (runs : packet.opcode = cmdRunDma) : process packet = runDma := by
  simp only [process, runs]
  rfl

section OnFpga

open Fpga Panel

/-- The DMA has not been used since reset, and INIT_DONE and CTRL are 0: packets that do not touch CTRL load a
    ring, with TAIL neither 0 nor past it and good descriptors below TAIL, a RUN_DMA follows, and then packets
    that write no register; of the registers of the DMA only those of the ring are read, and the DMA needs
    fewer cycles than the second loop has turns.  Under any delays the session is over within the given number
    of prompt cycles; beside the text of `xil_printf` the host gets the replies of the panel it started on, an
    ACK, and the replies of a panel whose memories are as the descriptors leave them. -/
theorem session_on_fpga {k addrWidth log : Nat} {interconnect : Interconnect} {first second : List Packet}
    {start : Packet} (loads : ∀ packet ∈ first, Plain interconnect True packet) (runs : start.opcode = cmdRunDma)
    (looks : ∀ packet ∈ second, Plain interconnect False packet) {p loaded : Panel} (zero : p.regs.ctrl = 0)
    (load : ((processAll first).exec (Panel.access interconnect (depths addrWidth (2 ^ log))) p).2 = loaded)
    {pos : 0 < loaded.regs.ringlen.toNat}
    (offers : Offers k addrWidth (loaded.ring (2 ^ log) pos) loaded.regs.tail)
    (soon : ClosedCore.drains loaded.regs.tail.toNat < 10000000) {s : Fpga k addrWidth}
    (at' : At (2 ^ log) interconnect Asleep p s) :
    let env := Panel.access interconnect (depths addrWidth (2 ^ log))
    let copied := ClosedCore.copies (loaded.ring (2 ^ log) pos) (loaded.bram addrWidth) loaded.regs.tail.toNat
    let done := { loaded.ran (2 ^ log) copied with sent := loaded.sent ++ answerBytes cmdAck }
    Ensures (device k addrWidth (2 ^ log) interconnect)
      (fun _ s => s.sent = p.sent ++ replies env p first ++ answerBytes cmdAck ++ replies env done second ∧
        At (2 ^ log) interconnect AtRest ((processAll second).exec env done).2 s)
      ((processAll first).total env cost p +
        (2 * ClosedCore.drains loaded.regs.tail.toNat + 20048 + (processAll second).total env cost done))
      ⟨s, processAll (first ++ start :: second)⟩ := by
  intro env copied done
  -- three stretches: the packets before, the RUN_DMA, the packets after
  rw [processAll_append, processAll, process_of_runDma runs]
  refine (ensures_exec still_asleep (along_of_only (calm_processAll loads) fun _ => zero) at').bind
    fun _ s after => ?_
  obtain ⟨-, at'⟩ := after
  rw [load] at at'
  have clear : loaded.regs.ctrl = 0 := by
    rw [← load]
    exact (Panel.ctrl_of_only (calm_processAll loads)).trans zero
  -- the packets before write no register, CTRL included, so RUN_DMA finds it at 0
  refine (ensures_runDma offers soon clear at').bind fun _ s at' => ?_
  have along : (processAll second).Along env (Panel.Allowed interconnect) done :=
    along_of_only (calm_processAll looks) False.elim
  refine (ensures_exec still_atRest along at').mono (fun _ s after => ?_) (Nat.le_refl _)
  obtain ⟨-, at'⟩ := after
  have sent : loaded.sent = p.sent ++ replies env p first := by
    rw [← load]
    exact sent_processAll
  refine ⟨?_, at'⟩
  rw [at'.shows'.sent, sent_processAll, ← sent]

/-- Two descriptors and a word into a system memory of zeros, the ring registers, and a RUN_DMA; then the
    copy is read. -/
def loadThereAndBack : List Packet :=
  [⟨cmdWriteSysmem, 4, 4, 7⟩, ⟨cmdWriteSysmem, 64, 4, 4⟩, ⟨cmdWriteSysmem, 72, 4, 1⟩, ⟨cmdWriteSysmem, 76, 4, 1⟩,
    ⟨cmdWriteSysmem, 84, 4, 8⟩, ⟨cmdWriteSysmem, 88, 4, 1⟩,
    ⟨cmdWriteCsr, csrAccessBase + csrRegBaseaddr, 4, 64⟩, ⟨cmdWriteCsr, csrAccessBase + csrRegRinglen, 4, 4⟩,
    ⟨cmdWriteCsr, csrAccessBase + csrRegTail, 4, 2⟩]

/-- A board with zeros in both memories. -/
def emptyBoard : VivadoConfig.State 6 3 :=
  { thereAndBackBoard with sysMem := ClosedCore.handedOver { ClosedCore.thereAndBack with ram := fun _ => 0 } }

def loadedPanel : Panel :=
  ((processAll loadThereAndBack).exec (Panel.access Board.addressMap (depths 3 (2 ^ 5)))
    (panelOf (2 ^ 5) emptyBoard)).2

theorem pos_loadedPanel : 0 < loadedPanel.regs.ringlen.toNat := by decide +kernel

theorem offers_loadedPanel : Offers 6 3 (loadedPanel.ring (2 ^ 5) pos_loadedPanel) loadedPanel.regs.tail where
  deep := by decide
  small := by decide
  some := by decide
  pos := by decide +kernel
  room := by decide +kernel
  good := by decide +kernel

theorem session_there_and_back : Csr.Regs.zero.ctrl = 0 ∧
    Ensures (device 6 3 (2 ^ 5) Board.addressMap)
      (fun _ s => s.sent = (List.replicate 10 Reply.ack.bytes).flatten ++ (Reply.value 7).bytes ∧
        Dormant s.board.dma)
      (2 * ClosedCore.drains 2 + 20183)
      ⟨reset emptyBoard, processAll (loadThereAndBack ++ ⟨cmdRunDma, 0, 0, 0⟩ :: [⟨cmdReadSysmem, 8, 0, 0⟩])⟩ := by
  have loads : ∀ packet ∈ loadThereAndBack, Plain Board.addressMap True packet := by
    intro packet member
    have all : ∀ packet ∈ loadThereAndBack, packet.opcode ≠ cmdRunDma ∧ packet.opcode ≠ cmdReadCsr ∧
        (packet.opcode = cmdWriteCsr → Board.addressMap.route packet.destAddr = .csr ∧
          packet.destAddr.setWidth 8 ≠ Csr.regCtrl) := by decide
    obtain ⟨noRun, noRead, writes⟩ := all packet member
    exact ⟨noRun, fun write => ⟨(writes write).1, trivial, (writes write).2⟩, fun read => absurd read noRead⟩
  have looks : ∀ packet ∈ [(⟨cmdReadSysmem, 8, 0, 0⟩ : Packet)], Plain Board.addressMap False packet := by
    intro packet member
    obtain rfl := List.mem_singleton.mp member
    exact ⟨by decide, fun write => absurd write (by decide), fun read => absurd read (by decide)⟩
  have soon : ClosedCore.drains loadedPanel.regs.tail.toNat < 10000000 := by decide +kernel
  refine ⟨rfl, ?_⟩
  have whole := @session_on_fpga 6 3 5 Board.addressMap loadThereAndBack [⟨cmdReadSysmem, 8, 0, 0⟩]
    ⟨cmdRunDma, 0, 0, 0⟩ loads rfl looks (panelOf (2 ^ 5) emptyBoard) loadedPanel rfl rfl pos_loadedPanel
    offers_loadedPanel soon _ (at_reset emptyBoard)
  refine whole.mono (fun _ s after => ?_) (by decide +kernel)
  obtain ⟨sent, at'⟩ := after
  exact ⟨sent.trans (by decide +kernel), at'.shows'.still⟩

end OnFpga

end AxiDma.Verified
