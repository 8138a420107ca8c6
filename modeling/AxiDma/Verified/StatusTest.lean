import AxiDma.Verified.PanelCommands
import AxiDma.Verified.RunDma

/-! # `test_status_and_irq` on the FPGA

The test resets the DMA, lays out a ring of its own, hands the memories over and runs it.  Up to the
handover it runs on a panel, from then on on the core behind the registers, which is there before TAIL is
written.  It is the test by itself: no test of the suite sets INIT_DONE back to 0.
-/

namespace AxiDma.Verified

open AxiDma.Lib AxiDma.Rtl AxiDma.Firmware
open CsrCore (Between Finished Before Fresh)
open StatusAndIrq

/-! ## Writes to the memories of a panel -/

namespace Panel

variable {interconnect : Interconnect} {depth : Memory → Nat} {p : Panel}

def stores (depth : Memory → Nat) (p : Panel) (m : Memory) (byteAddr data : Word) : Panel :=
  { p with shim := { p.shim with initAddr := byteAddr, initData := data
                                 mem := store p.shim.mem m (wordOf depth m byteAddr) data } }

theorem exec_regWrite {offset : Word} (byte : (offset.setWidth 8).setWidth 32 = offset) (val : Word) :
    (regWrite offset val).exec (access interconnect depth) p =
      ((), { p with shim := p.shim.write depth (offset.setWidth 8) val }) := by
  have route := interconnect.route_memAccessCtrl (offset.setWidth 8)
  have lsb := memAccessCtrlAddr_lsb (offset.setWidth 8)
  rw [byte] at route lsb
  rw [regWrite, out32, Program.exec_call, access, route, lsb]

theorem exec_sramWrite (byteAddr data : Word) :
    (sramWrite byteAddr data).exec (access interconnect depth) p = ((), p.stores depth .sram byteAddr data) := by
  rw [sramWrite, Program.exec_bind, exec_regWrite (by decide), Program.exec_bind, exec_regWrite (by decide),
    exec_regWrite (by decide)]
  rfl

theorem exec_sysmemWrite (byteAddr data : Word) :
    (sysmemWrite byteAddr data).exec (access interconnect depth) p = ((), p.stores depth .sysmem byteAddr data) := by
  rw [sysmemWrite, Program.exec_bind, exec_regWrite (by decide), Program.exec_bind, exec_regWrite (by decide),
    exec_regWrite (by decide)]
  rfl

end Panel

/-! ## The ring of the test -/

/-- The words that the test writes. -/
def laidOut : List MemOp :=
  [.write .sram descSrc data, .write .sysmem (ringBase + 0x00) descSrc, .write .sysmem (ringBase + 0x04) descDst,
    .write .sysmem (ringBase + 0x08) 1, .write .sysmem (ringBase + 0x0C) dirSramToSysmem]

/-- Two slots, of which the test posts the first. -/
def testRing (memWords : Nat) (mem : Memory → Nat → Word) : PostedRing :=
  { memWords, baseaddr := ringBase, ringlen := ringLen, ram := mem .sysmem, pos := by decide }

def testPair : Pair := { toSram := false, axiAddr := descDst, sramAddr := descSrc, len := 1 }

section Ring

variable {k addrWidth memWords : Nat} {mem : Memory → Nat → Word}

/-- The words of the test lie below byte address 4096. -/
theorem wordOf_of_small {depth : Memory → Nat} {m : Memory} {byteAddr : Word} (deep : 1024 ≤ depth m)
    (small : byteAddr.toNat < 4096) : wordOf depth m byteAddr = byteAddr.toNat / 4 := by
  rw [wordOf, Nat.mod_eq_of_lt (by omega)]

theorem le_depths (bram : 10 ≤ addrWidth) (ram : 1024 ≤ memWords) (m : Memory) :
    1024 ≤ depths addrWidth memWords m := by
  cases m with
  | sram => exact Nat.pow_le_pow_right (by decide : 0 < 2) bram
  | sysmem => exact ram

theorem slotWord_testRing : (testRing memWords mem).slotWord 0 = 640 :=
  show Posting.slotAddr ringBase ringLen.toNat 0 / 4 = 640 by decide

theorem pairOf_testRing (ram : 1024 ≤ memWords) :
    pairOf ((testRing memWords (latest (depths addrWidth memWords) mem laidOut)).slotDesc 0) = testPair := by
  have word {j : Nat} (less : j < 4) :
      (testRing memWords (latest (depths addrWidth memWords) mem laidOut)).readWord
        ((testRing memWords (latest (depths addrWidth memWords) mem laidOut)).slotWord 0 + j) =
          latest (depths addrWidth memWords) mem laidOut .sysmem (640 + j) := by
    rw [slotWord_testRing, PostedRing.readWord]
    exact if_pos (show 640 + j < memWords by omega)
  have at' (a : Word) (small : a.toNat < 4096) : wordOf (depths addrWidth memWords) .sysmem a = a.toNat / 4 :=
    wordOf_of_small ram small
  have words : (testRing memWords (latest (depths addrWidth memWords) mem laidOut)).slotWords 0 =
      [descSrc, descDst, 1, dirSramToSysmem] := by
    simp only [PostedRing.slotWords, List.range_succ, List.range_zero, List.nil_append, List.cons_append,
      List.map_cons, List.map_nil, word (show 0 < 4 by decide), word (show 1 < 4 by decide),
      word (show 2 < 4 by decide), word (show 3 < 4 by decide)]
    simp [latest, laidOut, MemOp.writesTo, at', ringBase]
  rw [PostedRing.slotDesc, words]
  rfl

theorem offers_testRing (deep : 6 ≤ k) (small : addrWidth ≤ 16) (bram : 10 ≤ addrWidth) (ram : 1024 ≤ memWords) :
    Offers k addrWidth (testRing memWords (latest (depths addrWidth memWords) mem laidOut)) 1 where
  deep := deep
  small := small
  some := Nat.lt_of_lt_of_le (by decide) ram
  pos := by decide
  room := show (1 : Word).toNat < ringLen.toNat by decide
  good := by
    intro n less
    obtain rfl : n = 0 := Nat.lt_one_iff.mp less
    have pair := @pairOf_testRing addrWidth memWords mem ram
    have sram : 1024 ≤ 2 ^ addrWidth := le_depths bram ram .sram
    constructor
    case fits =>
      rw [pair]
      exact ⟨show 708 + 1 ≤ memWords by omega, show 704 + 1 ≤ 2 ^ addrWidth by omega, fun _ => by decide⟩
    case apart =>
      intro n less j inSlot hit
      obtain rfl : n = 0 := Nat.lt_one_iff.mp less
      rw [pair, slotWord_testRing] at hit
      have first : 708 ≤ 640 + j := hit.2.1
      omega

/-- The transfer writes the word at `descDst`. -/
theorem copies_testRing (bram : 10 ≤ addrWidth) (ram : 1024 ≤ memWords) :
    let words := latest (depths addrWidth memWords) mem laidOut
    let copied := ClosedCore.copies (testRing memWords words) (fun a : BitVec addrWidth => words .sram a.toNat) 1
    copied.bram = (fun a => words .sram a.toNat) ∧ copied.ram = store words .sysmem 708 data .sysmem := by
  intro words copied
  have one : copied = copyPair testPair ⟨words .sysmem, fun a => words .sram a.toNat⟩ := by
    rw [← @pairOf_testRing addrWidth memWords mem ram]
    rfl
  have sram : 1024 ≤ 2 ^ addrWidth := le_depths bram ram .sram
  have source : words .sram 704 = data := by
    have at' : wordOf (depths addrWidth memWords) .sram descSrc = 704 := wordOf_of_small sram (by decide)
    simp [words, latest, laidOut, MemOp.writesTo, at']
  have read : Transfer.sourceWord testPair (fun a : BitVec addrWidth => words .sram a.toNat) 0 = data := by
    have addr : (BitVec.ofNat addrWidth 704).toNat = 704 := by
      rw [BitVec.toNat_ofNat, Nat.mod_eq_of_lt (by omega)]
    calc Transfer.sourceWord testPair (fun a : BitVec addrWidth => words .sram a.toNat) 0
        = words .sram (BitVec.ofNat addrWidth 704).toNat := rfl
      _ = data := by rw [addr, source]
  rw [one]
  refine ⟨rfl, ?_⟩
  calc (copyPair testPair ⟨words .sysmem, fun a => words .sram a.toNat⟩).ram
      = overlayNat (words .sysmem) 708
          [Transfer.sourceWord testPair (fun a : BitVec addrWidth => words .sram a.toNat) 0] := rfl
    _ = Function.update (words .sysmem) 708 data := by rw [read, overlayNat_cons, overlayNat_nil]
    _ = store words .sysmem 708 data .sysmem := by
      funext n
      by_cases same : n = 708
      · simp [same, store]
      · simp [same, store, Function.update_of_ne]

theorem words_testRing (bram : 10 ≤ addrWidth) (ram : 1024 ≤ memWords)
    (zero : ∀ m n, depths addrWidth memWords m ≤ n → mem m n = 0) :
    let words := latest (depths addrWidth memWords) mem laidOut
    Panel.words memWords (ClosedCore.copies (testRing memWords words)
      (fun a : BitVec addrWidth => words .sram a.toNat) 1) = store words .sysmem 708 data := by
  intro words
  obtain ⟨same, written⟩ := @copies_testRing addrWidth memWords mem bram ram
  have outside (m : Memory) (n : Nat) (le : depths addrWidth memWords m ≤ n) : words m n = 0 :=
    (latest_outside (Nat.lt_of_lt_of_le (by decide) (le_depths bram ram m)) le _).trans (zero m n le)
  funext m n
  cases m with
  | sram =>
    have other : store words .sysmem 708 data .sram n = words .sram n := if_neg fun hit => by simp at hit
    rw [Panel.words, same, other]
    split
    · change words .sram (BitVec.ofNat addrWidth n).toNat = words .sram n
      rw [BitVec.toNat_ofNat, Nat.mod_eq_of_lt ‹_›]
    · exact (outside .sram n (Nat.not_lt.mp ‹_›)).symm
  | sysmem =>
    rw [Panel.words, written]
    split
    · rfl
    · have past : memWords ≤ n := Nat.not_lt.mp ‹_›
      rw [store, if_neg (by omega)]
      exact (outside .sysmem n past).symm

end Ring

namespace Fpga

variable {k addrWidth log : Nat} {interconnect : Interconnect} {p : Panel} {s : Fpga k addrWidth}

/-! ## Up to the handover -/

theorem ensures_resetDma (at' : At (2 ^ log) interconnect Asleep p s) :
    Ensures (device k addrWidth (2 ^ log) interconnect) (fun _ => At (2 ^ log) interconnect Asleep (cleared p)) 6
      ⟨s, resetDma⟩ := by
  refine (ensures_reset at').bind (n := 3) fun _ s after => ?_
  obtain ⟨⟨resetting, init⟩, csr⟩ := after
  exact ensures_release resetting init csr

/-- A write to a memory, and what follows it. -/
theorem ensures_stores {β : Type} {post : β → Fpga k addrWidth → Prop} {n : Nat} {prog : Prog Unit} {next : Prog β}
    {p' : Panel} (calm : Panel.OnlyCalm interconnect False prog)
    (exec : prog.exec (Panel.access interconnect (depths addrWidth (2 ^ log))) p = ((), p'))
    (at' : At (2 ^ log) interconnect Asleep p s)
    (continues : ∀ s, At (2 ^ log) interconnect Asleep p' s →
      Ensures (device k addrWidth (2 ^ log) interconnect) post n ⟨s, next⟩) :
    Ensures (device k addrWidth (2 ^ log) interconnect) post
      (prog.total (Panel.access interconnect (depths addrWidth (2 ^ log))) cost p + n)
      ⟨s, do
        prog
        next⟩ := by
  refine (ensures_exec still_asleep (Panel.along_of_only calm False.elim) at').bind fun _ s after => ?_
  obtain ⟨-, at'⟩ := after
  rw [exec] at at'
  exact continues s at'

/-- The panel with the ring laid out. -/
def laid (depth : Memory → Nat) (p : Panel) : Panel :=
  (((((cleared p).stores depth .sram descSrc data).stores depth .sysmem (ringBase + 0x00) descSrc).stores depth
    .sysmem (ringBase + 0x04) descDst).stores depth .sysmem (ringBase + 0x08) 1).stores depth
      .sysmem (ringBase + 0x0C) dirSramToSysmem

theorem mem_laid (depth : Memory → Nat) (p : Panel) :
    (laid depth p).shim.mem = latest depth p.shim.mem laidOut := by
  simp only [laid, Panel.stores, store_eq_latest, ← latest_append]
  rfl

theorem ensures_layOut {β : Type} {post : β → Fpga k addrWidth → Prop} {n : Nat} {next : Prog β}
    (at' : At (2 ^ log) interconnect Asleep p s)
    (continues : ∀ s, At (2 ^ log) interconnect Asleep (laid (depths addrWidth (2 ^ log)) p) s →
      Ensures (device k addrWidth (2 ^ log) interconnect) post n ⟨s, next⟩) :
    Ensures (device k addrWidth (2 ^ log) interconnect) post (51 + n) ⟨s, do
      resetDma
      sramWrite descSrc data
      sysmemWrite (ringBase + 0x00) descSrc
      sysmemWrite (ringBase + 0x04) descDst
      sysmemWrite (ringBase + 0x08) 1
      sysmemWrite (ringBase + 0x0C) dirSramToSysmem
      next⟩ := by
  have budget : 6 + (9 + (9 + (9 + (9 + (9 + n))))) ≤ 51 + n := by omega
  refine Ensures.within ?_ budget
  apply (ensures_resetDma at').bind
  intro _ s at'
  apply ensures_stores (calm_sramWrite _ _) (Panel.exec_sramWrite _ _) at'
  intro s at'
  apply ensures_stores (calm_sysmemWrite _ _) (Panel.exec_sysmemWrite _ _) at'
  intro s at'
  apply ensures_stores (calm_sysmemWrite _ _) (Panel.exec_sysmemWrite _ _) at'
  intro s at'
  apply ensures_stores (calm_sysmemWrite _ _) (Panel.exec_sysmemWrite _ _) at'
  intro s at'
  exact ensures_stores (calm_sysmemWrite _ _) (Panel.exec_sysmemWrite _ _) at' continues

/-- A ring that is still to be posted. -/
theorem begins_between {ring : PostedRing} {tail : Word} (pos : tail ≠ 0) (loaded : ring.ram = p.shim.mem .sysmem)
    (before : Before p.regs) : Begins (k := k) p (Between ring (p.bram addrWidth) tail p.regs) := by
  intro csr core mem regs noReadback unwritten noData noError bram loaded'
  have fresh : Fresh csr := ⟨regs ▸ before, unwritten, noData, noError⟩
  have sound := fresh.sound core (loaded'.trans loaded.symm) pos
  rw [bram, regs] at sound
  exact ⟨sound, unwritten⟩

/-! ## From the handover on -/

theorem only_csrWrite (reg : BitVec 8) (data : Word) :
    (csrWrite (reg.setWidth 32) data).Only (ToCsr interconnect) := ⟨csr_window reg, fun _ => trivial⟩

theorem only_csrRead (reg : BitVec 8) : (csrRead (reg.setWidth 32)).Only (ToCsr interconnect) :=
  ⟨csr_window reg, fun _ => trivial⟩

theorem only_xilPrintf (format : String) (args : List Word) :
    (xilPrintf format args).Only (ToCsr interconnect) := ⟨trivial, fun _ => trivial⟩

theorem only_waitForDmaDone (timeout : Nat) : (waitForDmaDone timeout).Only (ToCsr interconnect) := by
  induction timeout with
  | zero => exact (only_xilPrintf _ _).bind fun _ => trivial
  | succ timeout ih =>
    apply (only_csrRead Csr.regStatus).bind
    intro status
    split
    · exact (only_csrRead Csr.regIrqStatus).bind fun _ => (only_xilPrintf _ _).bind fun _ => trivial
    · split
      · trivial
      · exact ih

theorem only_check (passes : Bool) (format : String) (args : List Word) :
    (check passes format args).Only (ToCsr interconnect) := by
  cases passes with
  | true => trivial
  | false => exact (only_xilPrintf format args).bind fun _ => trivial

theorem only_finalStatus : finalStatus.Only (ToCsr interconnect) := by
  refine (only_csrRead Csr.regStatus).bind fun status => (only_csrRead Csr.regIrqStatus).bind fun irq => ?_
  refine (only_csrRead Csr.regHead).bind fun head => (only_csrRead Csr.regTail).bind fun tail => ?_
  refine (only_xilPrintf _ _).bind fun _ => (only_xilPrintf _ _).bind fun _ => ?_
  refine (only_check _ _ _).bind fun empty => (only_check _ _ _).bind fun noError => ?_
  refine (only_check _ _ _).bind fun irqEmpty => (only_check _ _ _).bind fun same => ?_
  split
  · exact (only_xilPrintf _ _).bind fun _ => trivial
  · trivial

theorem only_statusAndIrq (ringBase ringLen tail : Word) (timeout : Nat) :
    (statusAndIrq ringBase ringLen tail timeout).Only (ToCsr interconnect) := by
  refine (only_csrWrite Csr.regIrqClear _).bind fun _ => (only_csrWrite Csr.regBaseaddr _).bind fun _ => ?_
  refine (only_csrWrite Csr.regRinglen _).bind fun _ => (only_csrRead Csr.regStatus).bind fun before => ?_
  apply (only_xilPrintf _ _).bind
  intro printed
  split
  · exact (only_xilPrintf _ _).bind fun _ => trivial
  · refine (only_csrWrite Csr.regTail _).bind fun _ => (only_csrWrite Csr.regCtrl _).bind fun _ => ?_
    refine (only_csrRead Csr.regStatus).bind fun during => (only_xilPrintf _ _).bind fun _ => ?_
    apply (only_waitForDmaDone timeout).bind
    intro done
    split
    · exact only_finalStatus
    · trivial

/-- On the FPGA as on the core behind the registers. -/
theorem ensures_statusAndIrq {ring : PostedRing} {tail : Word} {r : Csr.Regs} {timeout : Nat}
    {bram : BitVec addrWidth → Word} (offers : Offers k addrWidth ring tail)
    (enough : ClosedCore.drains tail.toNat < timeout) (before : Before r)
    (behind : Behind ring.memWords p (Between ring bram tail r) s)
    (csr : (csrSlave k addrWidth ring.memWords interconnect).Rest s)
    (init : (initSlave k addrWidth ring.memWords interconnect).Rest s) :
    Ensures (device k addrWidth ring.memWords interconnect)
      (fun pass s => pass = true ∧ Csr.irq s.csr = true ∧
        contents ring.memWords s.board = Panel.words ring.memWords (ClosedCore.copies ring bram tail.toNat))
      (2 * ClosedCore.drains tail.toNat + 35) ⟨s, statusAndIrq ring.baseaddr ring.ringlen tail timeout⟩ := by
  obtain ⟨c, follows, between⟩ := behind
  have noData : c.csr.rvalid = false := (congrArg Csr.State.rvalid follows.mirrors.csr).trans csr.noData
  have core := CsrCore.ensures_statusAndIrq offers enough before between noData
  refine (Ensures.transfer (simulates p) (only_statusAndIrq _ _ _ _) ⟨follows, init⟩ core).mono
    (fun pass s after => ?_) (Nat.le_refl _)
  obtain ⟨c, ⟨follows, -⟩, ⟨finished, -⟩, passes⟩ := after
  refine ⟨passes, ?_, contents_of_finished offers follows.mirrors finished⟩
  obtain ⟨-, -, -, up⟩ := finished.memories offers
  rw [← follows.mirrors.csr, up]
  decide

end Fpga

open Fpga

/-- `test_status_and_irq` passes.  From any state in which INIT_DONE is 0, the DMA has not been used since
    reset and nothing is to be fetched, and with memories of at least 1024 words, the test returns true under
    any delays within the given number of prompt cycles; the interrupt is up, and the memories are as if the
    test had written the word at `desc_dst` too. -/
theorem testStatusAndIrq_passes {k addrWidth log : Nat} {interconnect : Interconnect} (deep : 6 ≤ k)
    (small : addrWidth ≤ 16) (bram : 10 ≤ addrWidth) (ram : 10 ≤ log) {p : Panel} {s : Fpga k addrWidth}
    (at' : At (2 ^ log) interconnect Asleep p s) :
    Ensures (device k addrWidth (2 ^ log) interconnect)
      (fun pass s' => pass = true ∧ Csr.irq s'.csr = true ∧
        contents (2 ^ log) s'.board = latest (depths addrWidth (2 ^ log)) (contents (2 ^ log) s.board)
          (laidOut ++ [.write .sysmem descDst data]))
      (2 * ClosedCore.drains 1 + 90) ⟨s, testStatusAndIrq⟩ := by
  have mem : contents (2 ^ log) s.board = p.shim.mem := congrArg Shim.mem at'.shows'.shim
  have words : 1024 ≤ 2 ^ log := Nat.pow_le_pow_right (by decide : 0 < 2) ram
  have offers := @offers_testRing k addrWidth (2 ^ log) p.shim.mem deep small bram words
  have source : (laid (depths addrWidth (2 ^ log)) p).bram addrWidth =
      fun a => latest (depths addrWidth (2 ^ log)) p.shim.mem laidOut .sram a.toNat := by
    funext a
    rw [Panel.bram, mem_laid]
  -- the core is there with TAIL at 0, so STATUS shows an empty ring first
  have begins := @begins_between k addrWidth (laid (depths addrWidth (2 ^ log)) p)
    (testRing (2 ^ log) (latest (depths addrWidth (2 ^ log)) p.shim.mem laidOut)) 1 offers.pos
    (congrFun (mem_laid _ p).symm .sysmem) ⟨rfl, rfl⟩
  rw [source] at begins
  have last : store (latest (depths addrWidth (2 ^ log)) p.shim.mem laidOut) .sysmem 708 data =
      latest (depths addrWidth (2 ^ log)) p.shim.mem (laidOut ++ [.write .sysmem descDst data]) := by
    have word : wordOf (depths addrWidth (2 ^ log)) .sysmem descDst = 708 := wordOf_of_small words (by decide)
    rw [latest_append, ← store_eq_latest, word]
  refine ((ensures_xilPrintf (sends_at (p := p) still_asleep) at' _ _).bind
    (n := 2 * ClosedCore.drains 1 + 89) fun _ s at' => ?_).within (by omega)
  refine (ensures_layOut at' (n := 2 * ClosedCore.drains 1 + 38) fun s at' => ?_).within (by omega)
  refine ((ensures_handOver begins
    (fun c i between => between.step offers (show CsrCore.Reads none from trivial)) at').bind
      (n := 2 * ClosedCore.drains 1 + 35) fun _ s handed => ?_).within (by omega)
  obtain ⟨⟨behind, csr⟩, init⟩ := handed
  refine (ensures_statusAndIrq offers (by decide) ⟨rfl, rfl⟩ behind csr init).mono (fun pass s after => ?_)
    (Nat.le_refl _)
  obtain ⟨passes, up, copied⟩ := after
  rw [mem, ← last]
  exact ⟨passes, up, copied.trans (words_testRing bram words fun m n outside => mem ▸ contents_outside _ outside)⟩

/-- Both memories have 1024 words. -/
def zeroedBoard : VivadoConfig.State 6 10 :=
  { memInit := MemAccessCtrl.resetState, dma := (zeroed 6 10).mt
    sysMem := ClosedCore.handedOver (testRing 1024 fun _ _ => 0) }

theorem testStatusAndIrq_zeroed :
    Ensures (device 6 10 (2 ^ 10) Board.addressMap)
      (fun pass s => pass = true ∧ Csr.irq s.csr = true ∧ s.board.sysMem.ram 0x2C4 = 0xABCDEF00)
      (2 * ClosedCore.drains 1 + 90) ⟨Fpga.reset zeroedBoard, testStatusAndIrq⟩ := by
  refine (testStatusAndIrq_passes (by decide) (by decide) (by decide) (by decide) (at_reset zeroedBoard)).mono
    (fun pass s after => ?_) (Nat.le_refl _)
  obtain ⟨passes, up, words⟩ := after
  have word : s.board.sysMem.ram 0x2C4 = 0xABCDEF00 :=
    (congrFun (congrFun words .sysmem) 0x2C4).trans (by decide +kernel)
  exact ⟨passes, up, word⟩

end AxiDma.Verified
