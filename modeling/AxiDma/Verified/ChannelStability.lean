import AxiDma.Verified.Chain

/-! # Stability of the AXI channels

What the master offers on AR, AW and W stays on offer until it is accepted.  For the two
address channels this is a matter of the master's own state.  `wvalid` and `wdata` are the
MID FIFO's `empty` and `dout`, and the SRAM controller reads MID as well: `OneReader` says
that it never does while the master writes a burst, because both engines serve the pair of one
descriptor.  Nothing is asked of the slave.
-/

namespace AxiDma.Verified

open AxiDma.Lib AxiDma.Rtl

/-! ## The master alone -/

namespace AxiMaster

open AxiDma.Rtl.AxiMaster

variable {s : State} {i : In}

/-- An address channel that is not accepted leaves the master where it is. -/
theorem next_of_arvalid (offers : (out s i).axi.arvalid = true) (stall : i.axi.arready = false) :
    next s i = s := by
  rw [arvalid_eq, Bool.or_eq_true, beq_iff_eq, beq_iff_eq] at offers
  cases offers with
  | inl fetch => simp [next, comb, fetch, stall]
  | inr move => simp [next, comb, move, stall]

theorem next_of_awvalid (offers : (out s i).axi.awvalid = true) (stall : i.axi.awready = false) :
    next s i = s := by
  rw [awvalid_eq, beq_iff_eq] at offers
  simp [next, comb, offers, stall]

theorem next_of_wvalid (offers : (out s i).axi.wvalid = true) (stall : i.axi.wready = false) :
    next s i = s := by
  rw [wvalid_eq, Bool.and_eq_true, beq_iff_eq] at offers
  obtain ⟨state, shows⟩ := offers
  simp [next, comb, state, shows, stall]

end AxiMaster

/-! ## Bursts on the write channels -/

/-- The data path with what the write channels have seen. -/
structure Channels (k addrWidth : Nat) where
  chain : Chain k addrWidth
  /-- Accepted AW requests. -/
  opened : Nat
  /-- Accepted W beats with `wlast`. -/
  closed : Nat

namespace Channels

variable {k addrWidth : Nat}

def start (s : DataPath.State k addrWidth) : Channels k addrWidth :=
  { chain := Chain.start s, opened := 0, closed := 0 }

def driven (c : Channels k addrWidth) (i : DataPath.In addrWidth) : Axi4Master :=
  (DataPath.axiOut c.chain.path i).axi

def step (c : Channels k addrWidth) (i : DataPath.In addrWidth) : Channels k addrWidth :=
  { chain := c.chain.step i
    opened := c.opened + (awHs (c.driven i) i.axi).toNat
    closed := c.closed + (wHs (c.driven i) i.axi && (c.driven i).wlast).toNat }

/-! ## What the channels promise -/

/-- In a cycle with inputs `i`, followed by one with inputs `j`: what is offered and not accepted
    is offered again, and W beats belong to the one burst that is open. -/
structure Stable (c : Channels k addrWidth) (i j : DataPath.In addrWidth) : Prop where
  ar : (c.driven i).arvalid = true → i.axi.arready = false →
    ((c.step i).driven j).arvalid = true ∧ ((c.step i).driven j).araddr = (c.driven i).araddr ∧
      ((c.step i).driven j).arlen = (c.driven i).arlen
  aw : (c.driven i).awvalid = true → i.axi.awready = false →
    ((c.step i).driven j).awvalid = true ∧ ((c.step i).driven j).awaddr = (c.driven i).awaddr ∧
      ((c.step i).driven j).awlen = (c.driven i).awlen
  w : (c.driven i).wvalid = true → i.axi.wready = false →
    ((c.step i).driven j).wvalid = true ∧ ((c.step i).driven j).wdata = (c.driven i).wdata ∧
      ((c.step i).driven j).wlast = (c.driven i).wlast
  /-- The AW of the burst has been accepted and its `wlast` has not. -/
  inBurst : (c.driven i).wvalid = true → c.opened = c.closed + 1

/-! ## The invariant -/

/-- The master writes only pairs from the SRAM, the controller only pairs to it. -/
def OneReader (c : Chain k addrWidth) : Prop :=
  ∀ p, Chain.Current c p →
    (c.path.engines.axi.state = .dmWrAw ∨ c.path.engines.axi.state = .dmWrW → p.toSram = false) ∧
      (c.path.engines.sram.state = .writing → p.toSram = true)

structure Inv (c : Channels k addrWidth) : Prop where
  fed : Chain.Fed c.chain
  mid : c.chain.path.engines.mid.Ok
  oneReader : OneReader c.chain
  counted : c.opened = c.closed + (c.chain.path.engines.axi.state == .dmWrW).toNat

theorem inv_start (s : DataPath.State k addrWidth) : Inv (start s) where
  fed := Chain.fed_start s
  mid := Fifo.ok_reset _
  oneReader := fun p _ => by
    simp [start, Chain.start, DataPath.reset, Engines.reset, AxiMaster.resetState,
      SramController.resetState]
  counted := rfl

variable {c : Channels k addrWidth} {i : DataPath.In addrWidth}

theorem axi_writes_of_next {s : AxiMaster.State} {i : AxiMaster.In}
    (writes : (AxiMaster.next s i).state = .dmWrAw ∨ (AxiMaster.next s i).state = .dmWrW) :
    (s.state = .dmWrAw ∨ s.state = .dmWrW) ∨ s.state = .dmGet ∧ i.dmInDout.rw = true := by
  cases state : s.state <;> grind [AxiMaster.next_state]

theorem sram_writes_of_next {s : SramController.State} {i : SramController.In}
    (writes : (SramController.next addrWidth s i).state = .writing) :
    s.state = .writing ∨ s.state = .dmGet ∧ i.dmInDout.rw = true := by
  cases state : s.state <;> grind [SramController.next_state]

theorem OneReader.step {c : Chain k addrWidth} (oneReader : OneReader c) (fed : Chain.Fed c)
    (i : DataPath.In addrWidth) : OneReader (c.step i) := by
  intro p current
  cases done : c.done with
  | true =>
    -- after a handshake neither engine writes
    obtain ⟨axi, sram⟩ := Chain.idle_of_done (i := i) done
    simp [axi, sram]
  | false =>
    have before := Chain.current_of_step done current
    obtain ⟨axi, sram⟩ := oneReader p before
    constructor
    · intro writes
      cases axi_writes_of_next writes with
      | inl wrote => exact axi wrote
      | inr gets =>
        have taken : _ = p.axi := fed.axi_presented (i := i) before gets.1
        have rw : p.axi.rw = true := taken ▸ gets.2
        simpa [Pair.axi] using rw
    · intro writes
      cases sram_writes_of_next writes with
      | inl wrote => exact sram wrote
      | inr gets =>
        have taken : _ = p.sram := fed.sram_presented (i := i) before gets.1
        have rw : p.sram.rw = true := taken ▸ gets.2
        exact rw

/-- The write channels open and close the burst that `dmWrW` is in. -/
theorem burst_next (s : AxiMaster.State) (i : AxiMaster.In) :
    (s.state == .dmWrW).toNat + (awHs (AxiMaster.out s i).axi i.axi).toNat =
      ((AxiMaster.next s i).state == .dmWrW).toNat +
        (wHs (AxiMaster.out s i).axi i.axi && (AxiMaster.out s i).axi.wlast).toNat := by
  cases state : s.state <;> grind [AxiMaster.next_state, AxiMaster.out_eq, awHs, wHs]

theorem Inv.step (inv : Inv c) (i : DataPath.In addrWidth) : Inv (c.step i) where
  fed := inv.fed.step i
  mid := Fifo.ok_step inv.mid _
  oneReader := inv.oneReader.step inv.fed i
  counted := by
    have moves := burst_next c.chain.path.engines.axi
      (Engines.axiIn c.chain.path.engines (DataPath.enginesIn c.chain.path i))
    have before := inv.counted
    change c.opened + (awHs (AxiMaster.out _ _).axi i.axi).toNat =
      c.closed + (wHs (AxiMaster.out _ _).axi i.axi && (AxiMaster.out _ _).axi.wlast).toNat +
        ((AxiMaster.next _ _).state == .dmWrW).toNat
    change _ + (awHs (AxiMaster.out _ _).axi i.axi).toNat = _ +
      (wHs (AxiMaster.out _ _).axi i.axi && (AxiMaster.out _ _).axi.wlast).toNat at moves
    omega

/-! ## The W channel -/

/-- While the master offers a beat that is not accepted, nobody reads MID. -/
theorem Inv.mid_waits (inv : Inv c) (offers : (c.driven i).wvalid = true)
    (stall : i.axi.wready = false) :
    (Engines.midIn c.chain.path.engines (DataPath.enginesIn c.chain.path i)).rdEn = false := by
  have writes := (AxiMaster.wvalid_eq _ _).symm.trans offers
  rw [Bool.and_eq_true, beq_iff_eq] at writes
  have master : (Engines.axiOut c.chain.path.engines
      (DataPath.enginesIn c.chain.path i)).midRdEn = false := by
    rw [Engines.axiOut, AxiMaster.midRdEn_eq]
    exact (congrArg _ stall).trans (Bool.and_false _)
  have controller : c.chain.path.engines.sram.state ≠ .writing := by
    intro reads
    obtain ⟨p, current⟩ := Chain.exists_current c.chain
    obtain ⟨fromSram, toSram⟩ := inv.oneReader p current
    exact Bool.false_ne_true ((fromSram (.inr writes.1)).symm.trans (toSram reads))
  simp [Engines.midIn, master, Engines.sramOut, SramController.midRdEn_eq, controller]

/-- MID shows the beat on offer. -/
theorem Inv.w_stable (inv : Inv c) (offers : (c.driven i).wvalid = true)
    (stall : i.axi.wready = false) (j : DataPath.In addrWidth) :
    ((c.step i).driven j).wvalid = true ∧ ((c.step i).driven j).wdata = (c.driven i).wdata ∧
      ((c.step i).driven j).wlast = (c.driven i).wlast := by
  have writes := (AxiMaster.wvalid_eq _ _).symm.trans offers
  rw [Bool.and_eq_true, beq_iff_eq] at writes
  have shows : c.chain.path.engines.mid.empty = false :=
    Bool.eq_false_of_not_eq_true' writes.2
  have idle := inv.mid_waits offers stall
  have stays : (c.step i).chain.path.engines.axi = c.chain.path.engines.axi :=
    AxiMaster.next_of_wvalid offers stall
  have mid : (c.step i).chain.path.engines.mid.empty = false :=
    Fifo.shows_of_idle inv.mid idle shows
  have word : (c.step i).chain.path.engines.mid.dout = c.chain.path.engines.mid.dout :=
    Fifo.dout_of_idle inv.mid idle shows
  simp only [driven, DataPath.axiOut, Engines.axiOut, AxiMaster.out_eq, Engines.axiIn, stays, mid,
    shows, word, writes.1]
  simp

theorem Inv.stable (inv : Inv c) (i j : DataPath.In addrWidth) : Stable c i j where
  ar := by
    intro offers stall
    have stays : (c.step i).chain.path.engines.axi = c.chain.path.engines.axi :=
      AxiMaster.next_of_arvalid offers stall
    have again := (AxiMaster.arvalid_eq _ _).symm.trans offers
    simp only [driven, DataPath.axiOut, Engines.axiOut, AxiMaster.out_eq, stays]
    exact ⟨again, trivial, trivial⟩
  aw := by
    intro offers stall
    have stays : (c.step i).chain.path.engines.axi = c.chain.path.engines.axi :=
      AxiMaster.next_of_awvalid offers stall
    have again := (AxiMaster.awvalid_eq _ _).symm.trans offers
    simp only [driven, DataPath.axiOut, Engines.axiOut, AxiMaster.out_eq, stays]
    exact ⟨again, trivial, trivial⟩
  w := fun offers stall => inv.w_stable offers stall j
  inBurst := by
    intro offers
    have writes := (AxiMaster.wvalid_eq _ _).symm.trans offers
    rw [Bool.and_eq_true] at writes
    rw [inv.counted, writes.1]
    rfl

end Channels

/-- The AXI channels are stable.  In every state of every run of the data path from reset,
    whatever the slave, the descriptors and the BRAM port do. -/
theorem channels_stable {k addrWidth : Nat} (s : DataPath.State k addrWidth)
    (is : List (DataPath.In addrWidth)) (i j : DataPath.In addrWidth) :
    Channels.Stable (run Channels.step (Channels.start s) is) i j :=
  (run_invariant (P := Channels.Inv) (fun _ i inv => inv.step i) (Channels.inv_start s) is).stable i j

end AxiDma.Verified
