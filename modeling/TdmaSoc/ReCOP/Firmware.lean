import TdmaSoc.ReCOP.Port

/-!
# The program in the memory

`rawOutput.mif` is the program that the memory is filled with: it loads the configurations of the three components
into DPCR, one after the other, and clears it. Behind it come words that are no instruction, up to the end of the
memory, where the program counter starts again. So DPCR is a function of the program counter (`Configuring`).
-/

namespace TdmaSoc
open Recop Instruction

/-- The words that `rawOutput.mif` gives one by one. -/
def rawOutput : List Word :=
  [0x4000, 0x9100, 0x6900, 0x0004, 0x4000, 0x9280, 0x6900, 0x0024, 0x4000, 0xA300, 0x6900, 0x0004, 0x4000, 0x0000,
    0x6900, 0x0000, 0x3400]

/-- The file has 4096 words, ones where it says nothing else; the memory is larger, and what is left of it is 0. -/
def firmware : ProgMem := fun pc => if pc.toNat < 4096 then rawOutput.getD pc.toNat 0xFFFF else 0

namespace Recop

/-- DPCR at the start of an instruction, by its address. -/
def loaded (pc : BitVec 15) : BitVec 32 :=
  if pc.toNat < 4 then 0
  else if pc.toNat < 8 then 0x91000004
  else if pc.toNat < 12 then 0x92800024
  else if pc.toNat < 16 then 0xA3000004
  else 0

/-- At the start of an instruction. -/
structure Configuring (a : Arch) : Prop where
  dpcr : a.dpcr = loaded a.pc
  even : a.pc.toNat < 16 → a.pc.toNat % 2 = 0
  /-- R0 holds the upper half of what is loaded next. -/
  upper : a.pc.toNat < 16 → a.pc.toNat % 4 = 2 → a.regs 0 = (loaded (a.pc + 2)).slice 16 16

variable {s₀ : Recop} {t : Nat}

/-- The instructions of the program, by their addresses. -/
theorem fetch_program : ∀ pc : Fin 16, pc.val % 2 = 0 →
    firmware.fetch (BitVec.ofNat 15 pc) = some (if pc.val % 4 = 0
      then .ldr 0 (.value ((loaded (BitVec.ofNat 15 pc + 4)).slice 16 16))
      else .datacall 0 (.value ((loaded (BitVec.ofNat 15 pc + 2)).slice 0 16))) ∧
    words (firmware (BitVec.ofNat 15 pc)).am = 2 := by
  decide

/-- Behind the program there is no instruction, or one that loads R0. -/
theorem firmware_of_le {pc : BitVec 15} (h : 16 ≤ pc.toNat) :
    firmware.fetch pc = some .noop ∧ words (firmware pc).am = 1 ∨ firmware pc = 0 := by
  by_cases hend : pc.toNat < 4096
  · left
    rcases Nat.eq_or_lt_of_le h with h16 | h17
    · have hpc : pc = 16 := BitVec.eq_of_toNat_eq h16.symm
      subst hpc
      exact ⟨rfl, rfl⟩
    · have hw : firmware pc = 0xFFFF := by
        unfold firmware
        rw [if_pos hend, List.getD_eq_default _ _ h17]
      unfold ProgMem.fetch
      rw [hw]
      exact ⟨rfl, rfl⟩
  · right
    exact if_neg hend

theorem loaded_of_le {pc : BitVec 15} (h : 16 ≤ pc.toNat) : loaded pc = 0 := by
  unfold loaded
  rw [if_neg (by omega), if_neg (by omega), if_neg (by omega), if_neg (by omega)]

/-- The word 0 leaves DPCR alone and goes on to the next. -/
theorem FirstT0.pass_zero {rom : ProgMem} (ht : s₀.FirstT0 rom t) (hw : rom (s₀.sample rom t).pc = 0) :
    (s₀.sample rom (finish rom s₀ t)).pc = (s₀.sample rom t).pc + 1 ∧
      (s₀.sample rom (finish rom s₀ t)).dpcr = (s₀.sample rom t).dpcr := by
  obtain ⟨-, -, -, c, held, m, hexec, hq, hm⟩ := next_sample ht ht.sampled
  unfold finish
  rw [hexec]
  rw [hw] at hm ⊢
  obtain ⟨st, ns, pw, pm, da, di, dw, ifs, rs, rw, ao, o1, o2, ds, dp, iq, so, cz⟩ := c
  obtain ⟨rfl, rfl, rfl, rfl, rfl, rfl, rfl⟩ := hq
  change pm = _ at hm
  subst hm
  exact ⟨rfl, rfl⟩

theorem Configuring.of_le {a : Arch} (hdpcr : a.dpcr = 0) (h : 16 ≤ a.pc.toNat ∨ a.pc = 0) : Configuring a := by
  rcases h with h | h
  · exact ⟨hdpcr.trans (loaded_of_le h).symm, fun hlt => by omega, fun hlt => by omega⟩
  · refine ⟨hdpcr.trans ?_, fun _ => ?_, fun _ hmod => ?_⟩ <;> rw [h] at *
    · rfl
    · rfl
    · cases hmod

/-- An address in the program, and the one two words on. -/
theorem loaded_step : ∀ n : Fin 16, n.val % 2 = 0 →
    (BitVec.ofNat 15 n + 2).toNat = n.val + 2 ∧
      (n.val % 4 = 0 → loaded (BitVec.ofNat 15 n) = loaded (BitVec.ofNat 15 n + 2)) ∧
      (loaded (BitVec.ofNat 15 n + 2)).slice 16 16 ++ (loaded (BitVec.ofNat 15 n + 2)).slice 0 16 =
        loaded (BitVec.ofNat 15 n + 2) := by
  decide

theorem Configuring.finish (ht : s₀.FirstT0 firmware t) (h : Configuring (s₀.sample firmware t)) :
    Configuring (s₀.sample firmware (finish firmware s₀ t)) := by
  by_cases hlt : (s₀.sample firmware t).pc.toNat < 16
  · have heven := h.even hlt
    have hpc : BitVec.ofNat 15 (s₀.sample firmware t).pc.toNat = (s₀.sample firmware t).pc := BitVec.ofNat_toNat _ _
    obtain ⟨hfetch, hwords⟩ := fetch_program ⟨_, hlt⟩ heven
    obtain ⟨hnext, hsame, hhalves⟩ := loaded_step ⟨_, hlt⟩ heven
    dsimp only at hfetch hwords hnext hsame hhalves
    rw [hpc] at hfetch hwords hnext hsame hhalves
    obtain ⟨-, hexec⟩ := ht.executes _ hfetch
    unfold Recop.finish
    rw [hexec, hwords]
    by_cases hmod : (s₀.sample firmware t).pc.toNat % 4 = 0
    · rw [if_pos hmod]
      refine ⟨h.dpcr.trans (hsame hmod), fun _ => ?_, fun _ _ => ?_⟩
      · show ((s₀.sample firmware t).pc + 2).toNat % 2 = 0
        omega
      · show (loaded ((s₀.sample firmware t).pc + 4)).slice 16 16 = _
        have hfour : (s₀.sample firmware t).pc + 4 = (s₀.sample firmware t).pc + 2 + 2 := by
          rw [BitVec.add_assoc]
          rfl
        rw [hfour]
        rfl
    · rw [if_neg hmod]
      refine ⟨?_, fun _ => ?_, fun _ hmod' => ?_⟩
      · show (s₀.sample firmware t).regs 0 ++ _ = loaded ((s₀.sample firmware t).pc + 2)
        rw [h.upper hlt (by omega)]
        exact hhalves
      · show ((s₀.sample firmware t).pc + 2).toNat % 2 = 0
        omega
      · change ((s₀.sample firmware t).pc + 2).toNat % 4 = 2 at hmod'
        omega
  · have hdpcr : (s₀.sample firmware t).dpcr = 0 := h.dpcr.trans (loaded_of_le (by omega))
    have hnext : (s₀.sample firmware (Recop.finish firmware s₀ t)).pc = (s₀.sample firmware t).pc + 1 ∧
        (s₀.sample firmware (Recop.finish firmware s₀ t)).dpcr = (s₀.sample firmware t).dpcr := by
      rcases firmware_of_le (show 16 ≤ (s₀.sample firmware t).pc.toNat by omega) with ⟨hfetch, hwords⟩ | hzero
      · obtain ⟨-, hexec⟩ := ht.executes _ hfetch
        unfold Recop.finish
        rw [hexec, hwords]
        exact ⟨rfl, rfl⟩
      · exact ht.pass_zero hzero
    refine .of_le (hnext.2.trans hdpcr) ?_
    rw [hnext.1]
    by_cases hlast : (s₀.sample firmware t).pc.toNat = 2 ^ 15 - 1
    · right
      rw [show (s₀.sample firmware t).pc = BitVec.ofNat 15 (2 ^ 15 - 1) from BitVec.eq_of_toNat_eq hlast]
      rfl
    · left
      have := (s₀.sample firmware t).pc.isLt
      rw [BitVec.toNat_add]
      show 16 ≤ (_ + 1) % _
      omega

theorem configuring (ht : s₀.FirstT0 firmware t) : Configuring (s₀.sample firmware t) := by
  refine ht.induction (C := fun t => Configuring (s₀.sample firmware t)) ?_ fun τ hτ ih => ih.finish hτ
  refine .of_le ?_ (.inr ?_) <;> rw [sample, after_succ] <;> rfl

/-- What DPCR holds at any time. -/
theorem dpcr_firmware (s₀ : Recop) (u : Nat) :
    (s₀.after firmware u).reg.dpcr ∈ [0, 0x91000004, 0x92800024, 0xA3000004] := by
  obtain ⟨t, ht, hle, hlt⟩ := exists_instruction firmware s₀ u
  rw [show u = t + (u - t) by omega, ht.dpcr (by omega), (configuring ht).dpcr]
  unfold loaded
  split_ifs <;> simp

end Recop

namespace RecopPort

/-- The processor has run the program since it was last in reset. -/
def Runs (rom : ProgMem) (x : RecopPort) : Prop := ∃ s₀ u, x.recop = Recop.after rom s₀ u

theorem Runs.init (rom : ProgMem) (mem : BitVec 12 → Word) : (init mem).Runs rom := ⟨blank mem, 0, rfl⟩

theorem recop_clock (rom : ProgMem) (x : RecopPort) (key : BitVec 4) (sw : BitVec 10) :
    (x.clock rom key sw).recop = x.recop.edge rom x.reset := by
  unfold clock
  split_ifs <;> rfl

theorem Runs.clock {rom : ProgMem} {x : RecopPort} (h : x.Runs rom) (key : BitVec 4) (sw : BitVec 10) :
    (x.clock rom key sw).Runs rom := by
  obtain ⟨s₀, u, h⟩ := h
  unfold Runs
  rw [recop_clock]
  cases x.reset
  · refine ⟨s₀, u + 1, ?_⟩
    rw [h, after_succ]
    rfl
  · exact ⟨blank x.recop.dm.cells, 0, rfl⟩

/-- What port 5 may send in the clock after `key` and `sw`: nothing, a configuration of the program, or that of a
key which is down. -/
inductive Offer (key : BitVec 4) (sw : BitVec 10) : TdmaMinPort → Prop
  | idle : Offer key sw .idle
  | program {v : BitVec 32} (h : v ∈ [0x91000004, 0x92800024, 0xA3000004]) : Offer key sw (dpcrPacket v)
  | adc (h : key.getLsbD 1 = false) : Offer key sw (adcConfig sw)
  | avg (h : key.getLsbD 2 = false) : Offer key sw (avgConfig sw)
  | cor (h : key.getLsbD 3 = false) : Offer key sw (corConfig sw)

theorem packet_offer {v : BitVec 32} (h : v ∈ [0, 0x91000004, 0x92800024, 0xA3000004]) (key : BitVec 4)
    (sw : BitVec 10) : Offer key sw (packet v key sw) := by
  unfold packet
  split_ifs with hv h1 h2 h3
  · exact .adc h1
  · exact .avg h2
  · exact .cor h3
  · exact .idle
  · refine .program ((List.mem_cons.1 h).resolve_left fun h0 => hv ?_)
    rw [h0]
    rfl

theorem Runs.dpcr {x : RecopPort} (h : x.Runs firmware) : x.dpcr ∈ [0, 0x91000004, 0x92800024, 0xA3000004] := by
  obtain ⟨s₀, u, h⟩ := h
  unfold RecopPort.dpcr
  rw [h]
  split
  · exact List.mem_cons_self
  · exact dpcr_firmware s₀ u

/-- In a clock the port keeps what it sends, which is so at power-on only, or makes a new offer. -/
theorem Runs.sendSignal_clock {x : RecopPort} (h : x.Runs firmware) (key : BitVec 4) (sw : BitVec 10) :
    (x.clock firmware key sw).sendSignal = x.sendSignal ∨ Offer key sw (x.clock firmware key sw).sendSignal := by
  unfold RecopPort.clock
  dsimp only
  split_ifs with hreset h0
  · exact .inl rfl
  · exact .inr .idle
  · exact .inr (packet_offer h.dpcr key sw)

end RecopPort
end TdmaSoc
