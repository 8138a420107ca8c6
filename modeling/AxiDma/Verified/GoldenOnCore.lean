import AxiDma.Verified.CoreAtRest
import AxiDma.Verified.GoldenAgrees

/-! # A golden scenario on the core

The memories a scenario leaves behind hold its descriptors in the slots of the ring, so the
core that starts on them fetches what the golden model has fetched and drains to the same
final memories.
-/

namespace AxiDma.Golden

open AxiDma.Lib

variable {ds : List Descriptor} {smemWords sramWords : Nat}

/-- What a scenario that returns leaves in the ring. -/
structure RingLaid (base ringlen : Nat) (ds : List Descriptor) (smem : List Nat) : Prop where
  slots : ∀ j d, ds[j]? = some d → Holds smem (base / 4 + 4 * j) d
  room : ds ≠ [] → ds.length < ringlen
  inside : base / 4 + 4 * ds.length ≤ 2 ^ 30

theorem runScenario_ring {loads : List Load} {baseaddr ringlen : Int} {result : Result}
    (addressable : smemWords ≤ 2 ^ 30) (masked : ∀ d ∈ ds, Masked d)
    (returns : runScenario (scenario loads baseaddr ringlen ds) smemWords sramWords = .ok result) :
    RingLaid (maskInt baseaddr) (maskInt ringlen) ds result.initialSmem := by
  rw [runScenario, bind_eq_ok] at returns
  obtain ⟨w, built, running⟩ := returns
  obtain ⟨s, setup, running⟩ := bind_eq_ok.mp running
  obtain ⟨waiting, sized, enabled⟩ := setup_eq addressable masked built setup
  rw [if_neg (by simp [enabled]), bind_eq_ok] at running
  obtain ⟨⟨final, fetched⟩, looped, eq⟩ := running
  obtain rfl := pure_eq_ok.mp eq
  obtain ⟨-, rfl⟩ := buildWorld_eq_ok.mp built
  have once : (scenario loads baseaddr ringlen ds).filterMap Row.ringlen? = [ringlen] := by
    have noLoad : (loads.map Load.row).filterMap Row.ringlen? = [] := by
      refine List.filterMap_eq_nil_iff.mpr fun row member => ?_
      obtain ⟨load, -, rfl⟩ := List.mem_map.mp member
      cases load <;> rfl
    have noDesc : (ds.map Descriptor.row).filterMap Row.ringlen? = [] := by
      refine List.filterMap_eq_nil_iff.mpr fun row member => ?_
      obtain ⟨d, -, rfl⟩ := List.mem_map.mp member
      rfl
    rw [scenario, List.filterMap_append, noLoad, List.nil_append]
    change ringlen :: (ds.map Descriptor.row ++ [Row.enable]).filterMap Row.ringlen? = [ringlen]
    rw [List.filterMap_append, noDesc]
    rfl
  have length := ringlen_of_once (w := World.fresh smemWords sramWords) once
  rw [← setup_world built_fresh setup] at length
  exact
    { slots := fun j d known => by
        have held := waiting.slots j d known
        rwa [Nat.zero_add] at held
      room := fun some => by
        have room := waiting.room some
        rwa [Nat.zero_add, length] at room
      inside := by
        have inside := waiting.inside
        rwa [Nat.zero_add] at inside }

end AxiDma.Golden

namespace AxiDma.Verified

open AxiDma.Lib AxiDma.Rtl

namespace ClosedCore

variable {k addrWidth smemWords : Nat} {ds : List Desc} {base ringlen : Nat} {ring : PostedRing}

/-- The ring of the core is the one of the scenario. -/
structure Laid (base ringlen : Nat) (ds : List Desc) (ring : PostedRing) : Prop where
  laid : Golden.RingLaid base ringlen (ds.map toGolden) (image ring.memWords ring.ram)
  base_eq : ring.baseaddr.toNat = base
  length_eq : ring.ringlen.toNat = ringlen

theorem Laid.room (laid : Laid base ringlen ds ring) (some : ds ≠ []) :
    ds.length < ring.ringlen.toNat := by
  have room := laid.laid.room (by simpa using some)
  rwa [List.length_map, ← laid.length_eq] at room

/-- No slot wraps. -/
theorem Laid.slotWord (laid : Laid base ringlen ds ring) {n : Nat} (posted : n < ds.length) :
    ring.slotWord n = base / 4 + 4 * n := by
  have inside := laid.laid.inside
  have room := laid.room fun none => by simp [none] at posted
  rw [List.length_map] at inside
  rw [PostedRing.slotWord, Posting.slotAddr, laid.base_eq, Nat.mod_eq_of_lt (a := n) (by omega),
    Nat.mod_eq_of_lt (by omega)]
  omega

theorem readWord_of_image {i v : Nat} (known : (image ring.memWords ring.ram)[i]? = some v) :
    (ring.readWord i).toNat = v := by
  have inside := (List.getElem?_eq_some_iff.mp known).1
  rw [length_image] at inside
  rw [getElem?_image inside] at known
  rw [PostedRing.readWord, if_pos inside]
  exact Option.some.inj known

theorem Laid.slotDesc (laid : Laid base ringlen ds ring) {n : Nat} {d : Desc} (known : ds[n]? = some d) :
    ring.slotDesc n = d := by
  have posted := (List.getElem?_eq_some_iff.mp known).1
  have held := laid.laid.slots n (toGolden d) (by rw [List.getElem?_map, known]; rfl)
  have w0 := readWord_of_image held.w0
  have w1 := readWord_of_image held.w1
  have w2 := readWord_of_image held.w2
  have w3 := readWord_of_image held.w3
  rw [PostedRing.slotDesc, PostedRing.slotWords, laid.slotWord posted]
  cases d with
  | mk a b c e =>
    have words : packDesc ((List.range 4).map fun j => ring.readWord (base / 4 + 4 * n + j)) =
        ⟨ring.readWord (base / 4 + 4 * n), ring.readWord (base / 4 + 4 * n + 1),
          ring.readWord (base / 4 + 4 * n + 2), ring.readWord (base / 4 + 4 * n + 3)⟩ := rfl
    rw [words, BitVec.eq_of_toNat_eq w0, BitVec.eq_of_toNat_eq w1, BitVec.eq_of_toNat_eq w2,
      BitVec.eq_of_toNat_eq w3]

theorem Laid.descs (laid : Laid base ringlen ds ring) : ring.descs ds.length = ds := by
  refine List.ext_getElem? fun n => ?_
  rcases Nat.lt_or_ge n ds.length with posted | beyond
  · rw [PostedRing.getElem?_descs posted, List.getElem?_eq_getElem posted,
      laid.slotDesc (List.getElem?_eq_getElem posted)]
  · rw [List.getElem?_eq_none (by simpa using beyond), List.getElem?_eq_none beyond]

/-- The bounds the golden model has checked are those software owes to the core. -/
theorem Laid.good (laid : Laid base ringlen ds ring) (lengths : ∀ d ∈ ds, d.lenBeats ≠ 0)
    (fits : ∀ d ∈ ds, Golden.MoveFits (toGolden d) ring.memWords (2 ^ addrWidth))
    (apart : ∀ d ∈ ds, Golden.Apart base ds.length (toGolden d)) :
    ring.AllGood addrWidth ds.length := by
  intro n posted
  have known := List.getElem?_eq_getElem posted
  have member := List.mem_of_getElem? known
  rw [laid.slotDesc known]
  refine ⟨fits_of_golden (lengths _ member) (fits _ member), fun m slot j near writes => ?_⟩
  obtain ⟨dir, low, high⟩ := writes
  rw [pairOf_toSram] at dir
  have off := apart _ member (by rw [toGolden_toSram, dir])
  rw [laid.slotWord slot, pairOf_len, memBase_eq, beats_of_ne_zero (lengths _ member)] at *
  have dst : (pairOf (ds[n])).axiAddr.toNat = (toGolden (ds[n])).w1 := by
    unfold pairOf
    rw [dir]
    rfl
  rw [dst] at low high
  rw [toGolden_beats] at off
  omega

/-- A CSR side that posts the whole ring at once. -/
structure Posts (base ringlen n : Nat) (csr : RingManager.CsrIn) : Prop where
  base : csr.baseaddr.toNat = base
  length : csr.ringlen.toNat = ringlen
  tail : csr.tail.toNat = n
  enabled : csr.enable = true
  noReset : csr.reset = false

/-- The scenario's ring and CSR side from reset on. -/
theorem Laid.held (laid : Laid base ringlen ds ring) (some : ds ≠ [])
    (good : ring.AllGood addrWidth ds.length) (s : DmaCore.State k addrWidth) {mem : Rtl.SysMem.State}
    (loaded : mem.ram = ring.ram) {csr : RingManager.CsrIn} (posts : Posts base ringlen ds.length csr)
    (baseaddr : csr.baseaddr = ring.baseaddr) (length : csr.ringlen = ring.ringlen) :
    Held ring s.mt.engines.bram.mem csr ds.length (start s mem) :=
  (ready_start s loaded).held ⟨baseaddr, length, posts.tail, posts.noReset⟩ (laid.room some) good

end ClosedCore

/-- A scenario of loads, BASEADDR, RINGLEN, at least one descriptor and ENABLE, in this order, returns, and its
    descriptors have lengths and stay off the ring: the core starts on its initial memories, with the CSR
    side as the scenario sets it.  Whenever the status is idle, the memories are the final ones of the golden
    model and there was no `df_error`; and the status is idle within `drains`. -/
theorem golden_on_core {k addrWidth smemWords : Nat} (deep : 6 ≤ k) (small : addrWidth ≤ 16)
    (addressable : smemWords ≤ 2 ^ 30) {loads : List Golden.Load} {baseaddr ringlen : Int}
    {ds : List Desc} {result : Golden.Result}
    (returns : Golden.runScenario
      (Golden.scenario loads baseaddr ringlen (ds.map toGolden)) smemWords (2 ^ addrWidth) = .ok result)
    (some : ds ≠ []) (lengths : ∀ d ∈ ds, d.lenBeats ≠ 0)
    (apart : ∀ d ∈ ds, Golden.Apart (Golden.maskInt baseaddr) ds.length (toGolden d))
    (s : DmaCore.State k addrWidth) (mem : Rtl.SysMem.State)
    (smem : image smemWords mem.ram = result.initialSmem)
    (sram : bramImage s.mt.engines.bram.mem = result.initialSram) {csr : RingManager.CsrIn}
    (posts : ClosedCore.Posts (Golden.maskInt baseaddr) (Golden.maskInt ringlen) ds.length csr) :
    let at' := fun n => (fun r => ClosedCore.step smemWords r csr)^[n] (ClosedCore.start s mem)
    (∀ n, ClosedCore.Idle (at' n) csr → (at' n).pipe.errors = [] ∧ (at' n).pipe.finished = ds.length ∧
      image smemWords (at' n).mem.ram = result.finalSmem ∧
      bramImage (at' n).pipe.core.mt.engines.bram.mem = result.finalSram) ∧
    ∃ n ≤ ClosedCore.drains ds.length, ClosedCore.Idle (at' n) csr := by
  have masked : ∀ d ∈ ds.map toGolden, Golden.Masked d := by
    intro e member
    obtain ⟨d, -, rfl⟩ := List.mem_map.mp member
    exact toGolden_masked d
  obtain ⟨-, moved, fits⟩ := Golden.runScenario_eq addressable masked
    (fun e member => by
      obtain ⟨d, posted, rfl⟩ := List.mem_map.mp member
      rw [List.length_map]
      exact apart d posted) returns
  have ringLaid := Golden.runScenario_ring addressable masked returns
  have room : ds.length < Golden.maskInt ringlen := by
    have room := ringLaid.room (by simpa using some)
    rwa [List.length_map] at room
  have here := Golden.smemWords_pos returns
  have fit : ∀ d ∈ ds, Golden.MoveFits (toGolden d) smemWords (2 ^ addrWidth) := by
    intro d posted
    refine fits _ (List.mem_map_of_mem posted) ?_
    rw [toGolden_beats]
    exact fun zero => lengths d posted (BitVec.eq_of_toNat_eq zero)
  -- both models copy the same list
  have copied := images_copyAll (m := ⟨mem.ram, s.mt.engines.bram.mem⟩) lengths fit
  rw [images, images, smem, sram, ← moved] at copied
  obtain ⟨finalSmem, finalSram⟩ := Prod.mk.inj copied
  obtain ⟨ring, memWords, ram, baseEq, lengthEq⟩ : ∃ ring : PostedRing, ring.memWords = smemWords ∧
      ring.ram = mem.ram ∧ ring.baseaddr = csr.baseaddr ∧ ring.ringlen = csr.ringlen :=
    ⟨⟨smemWords, csr.baseaddr, csr.ringlen, mem.ram, by rw [posts.length]; omega⟩, rfl, rfl, rfl, rfl⟩
  subst memWords
  have laid : ClosedCore.Laid (Golden.maskInt baseaddr) (Golden.maskInt ringlen) ds ring :=
    ⟨by rwa [ram, smem], by rw [baseEq, posts.base], by rw [lengthEq, posts.length]⟩
  have held := laid.held some (laid.good lengths fit apart) s ram.symm posts baseEq.symm lengthEq.symm
  constructor
  · intro n idle
    have reached := iterate_invariant
      (fun r (held : ClosedCore.Held ring _ csr ds.length r) => held.step small here deep) held n
    have order := reached.runs.inOrder small here reached.legal
    obtain ⟨finished, ramEq, bramEq⟩ := order.idle idle
    rw [reached.target] at finished ramEq bramEq
    rw [ClosedCore.copies, laid.descs, ram] at ramEq bramEq
    exact ⟨order.noError, finished, by rw [ramEq, finalSmem], by rw [bramEq, finalSram]⟩
  · obtain ⟨n, within, idle, -⟩ := held.drains small here deep posts.enabled
    exact ⟨n, within, idle⟩

/-- The CSR side of a ring of three slots at 32 with two descriptors. -/
def twoPosted : RingManager.CsrIn :=
  { baseaddr := 32, ringlen := 3, tail := 2, enable := true, reset := false, irqEn := true,
    errorClear := false }

theorem golden_on_core_there_and_back :
    twoPosted.enable = true ∧ ∃ n ≤ ClosedCore.drains 2,
      let last := (fun r => ClosedCore.step 16 r twoPosted)^[n] (ClosedCore.start (zeroed 6 2)
        (memOf [7, 0, 0, 0, 0, 0, 0, 0, 0, 4, 1, 1, 4, 8, 1, 0]))
      image 16 last.mem.ram = [7, 0, 7, 0, 0, 0, 0, 0, 0, 4, 1, 1, 4, 8, 1, 0] ∧
        bramImage last.pipe.core.mt.engines.bram.mem = [0, 7, 0, 0] := by
  have returns : Golden.runScenario (Golden.scenario [.smem 0 7] 32 3
      ([⟨0, 4, 1, 1⟩, ⟨4, 8, 1, 0⟩].map toGolden)) 16 (2 ^ 2) = .ok
        { stimLines := [.sysmemWrite 0 7, .csrWrite 0 32, .csrWrite 4 3, .sysmemWrite 32 0,
            .sysmemWrite 36 4, .sysmemWrite 40 1, .sysmemWrite 44 1, .csrWrite 12 1,
            .sysmemWrite 48 4, .sysmemWrite 52 8, .sysmemWrite 56 1, .sysmemWrite 60 0,
            .csrWrite 12 2]
          initialSmem := [7, 0, 0, 0, 0, 0, 0, 0, 0, 4, 1, 1, 4, 8, 1, 0]
          finalSmem := [7, 0, 7, 0, 0, 0, 0, 0, 0, 4, 1, 1, 4, 8, 1, 0]
          initialSram := [0, 0, 0, 0]
          finalSram := [0, 7, 0, 0]
          descsFetched := [79228162532711081684433371136, 18446744108069289988] } := by decide +kernel
  have posts : ClosedCore.Posts 32 3 2 twoPosted := ⟨rfl, rfl, rfl, rfl, rfl⟩
  obtain ⟨whenIdle, n, within, idle⟩ := golden_on_core (by decide) (by decide) (by decide) returns
    (by decide) (by decide) (by decide) (zeroed 6 2)
    (memOf [7, 0, 0, 0, 0, 0, 0, 0, 0, 4, 1, 1, 4, 8, 1, 0]) rfl rfl posts
  exact ⟨rfl, n, within, (whenIdle n idle).2.2⟩

end AxiDma.Verified
