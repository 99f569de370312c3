import TdmaSoc.ReCOP.Refinement

/-!
# What an instruction finds

The multiplexer settings are registers, and an instruction starts with those of the instruction before it.
`FirstT0.leftovers` follows them through one instruction: a fetch leaves the settings of the data memory and
the register file alone and may change the mode of the program counter only as the old or the new
instruction asks (`Steady`). Every instruction that `decode` knows sets what it needs; the others, `JMP` in
the inherent and direct modes and `LDR` and `STR` in the inherent mode, act on what they find.
-/

namespace TdmaSoc

namespace ControlUnit

/-- The multiplexers before the data memory and the register file are set alike. -/
structure SameSelects (c c' : ControlUnit) : Prop where
  dmSelAddr : c'.dmSelAddr = c.dmSelAddr
  dmSelIn : c'.dmSelIn = c.dmSelIn
  rfSelIn : c'.rfSelIn = c.rfSelIn

theorem SameSelects.trans {c c' c'' : ControlUnit} (h : c.SameSelects c') (h' : c'.SameSelects c'') :
    c.SameSelects c'' :=
  ⟨h'.1.trans h.1, h'.2.trans h.2, h'.3.trans h.3⟩

/-- Decoding the instruction `w` leaves the mode `m` of the program counter as it is. -/
structure Steady (w : Word) (m : BitVec 2) : Prop where
  T1 : pcModeT1 w.am w.opcode m = m
  T2 : ∀ c : ControlUnit, c.pcMode = m → (c.tickT2 w.am w.opcode).pcMode = m
  T3 : ∀ (c : ControlUnit) (e z : Bool), c.pcMode = m → (c.tickT3 w.opcode e z).pcMode = m

end ControlUnit

namespace Recop
open ControlUnit
variable (rom : ProgMem) {s : Recop} {a : Arch} {i w v : Word} {m : BitVec 2}

/-! ### The settings, clock by clock -/

theorem cu_clock_T0 (hs : s.cu.state = .T0) :
    s.cu.SameSelects (s.clock rom).cu ∧ (s.clock rom).cu.pcMode = s.cu.pcMode := by
  rw [cu_clock, ControlUnit.clock, opcodeProcess, hs]
  exact ⟨⟨rfl, rfl, rfl⟩, rfl⟩

theorem cu_clock_T1 (hs : s.cu.state = .T1) :
    s.cu.SameSelects (s.clock rom).cu ∧
      (s.clock rom).cu.pcMode =
        if s.fetch.instFetched then pcModeT1 (s.ir.opcode.slice 6 2) (s.ir.opcode.slice 0 6) s.cu.pcMode
        else s.cu.pcMode := by
  rw [cu_clock, ControlUnit.clock, opcodeProcess, hs]
  cases s.fetch.instFetched <;> exact ⟨⟨rfl, rfl, rfl⟩, rfl⟩

theorem Sampled.settings (h : s.Sampled a) :
    s.cu.SameSelects (s.clock rom).cu ∧ (s.clock rom).cu.pcMode = s.cu.pcMode := by
  rcases h.start with hs | hs
  · exact cu_clock_T0 rom hs
  · obtain ⟨hsel, hpc⟩ := cu_clock_T1 rom hs
    rw [h.instFetched] at hpc
    exact ⟨hsel, hpc⟩

theorem Fetching.pcMode_clock (h : s.Fetching i w) (hi : Steady i m) (hw : Steady w m) (hm : s.cu.pcMode = m) :
    (s.clock rom).cu.pcMode = m := by
  rw [(cu_clock_T1 rom h.state).2]
  split
  · next hf =>
    obtain ⟨f, v, hfiw, hir⟩ := h.decodes hf
    rw [hir, InstReg.opcode_clock_am, InstReg.opcode_clock_opcode, hm]
    rcases hfiw with rfl | rfl
    · exact hi.T1
    · exact hw.T1
  · exact hm

theorem Executes.pcMode_clock (h : s.Executes w) (hw : Steady w m) (hm : s.cu.pcMode = m) :
    (s.clock rom).cu.pcMode = m := by
  obtain ⟨v, hir⟩ := h.ir
  rw [cu_clock, ControlUnit.clock, opcodeProcess, hir, InstReg.opcode_clock_am, InstReg.opcode_clock_opcode]
  rcases h.state with hs | hs <;> rw [hs]
  · exact hw.T2 _ hm
  · exact hw.T3 _ _ _ hm

theorem Written.selects {q : ControlUnit} {r : Word} (h : s.Written q r w v a) : q.SameSelects s.cu := by
  obtain ⟨n, he⟩ := h.executing
  rw [he.cu]
  exact ⟨rfl, rfl, rfl⟩

/-! ### One instruction -/

/-- What happens to the settings in an instruction with first word `w` from `s` to `s'`, which decodes in the
control unit `c`. -/
structure Leftovers (w : Word) (s : Recop) (c : ControlUnit) (s' : Recop) : Prop where
  found : s.cu.SameSelects c
  left : ∃ e z, SameSelects ((c.tickT2 w.am w.opcode).tickT3 w.opcode e z) s'.cu
  fetchInst1 : s'.fetch.fetchInst1 = w
  mode : ∃ m, c.pcMode = pcModeT1 w.am w.opcode m
  foundMode : ∀ m, Steady s.fetch.fetchInst1 m → Steady w m → s.cu.pcMode = m → c.pcMode = m
  leftMode : ∀ m, Steady w m → c.pcMode = m → s'.cu.pcMode = m

theorem Sampled.leftovers (h : s.Sampled a) :
    ∃ c held, ((Recop.clock rom)^[(rom a.pc).cycles] s).Sampled
        (a.execute c (rom a.pc).am (rom a.pc).opcode (rom a.pc).rz (rom a.pc).rx (rom.operand a.pc) held) ∧
      c.Quiet ∧ Leftovers (rom a.pc) s c ((Recop.clock rom)^[(rom a.pc).cycles] s) := by
  obtain ⟨hsel, hpc⟩ := h.settings rom
  obtain ⟨d, hd, hdec⟩ := h.fetch rom
  obtain ⟨g, hg, -, -, hwritten⟩ := hdec.written rom
  have hend : (Recop.clock rom)^[(rom a.pc).cycles] s = g.clock rom :=
    (iterate_cycles ((hd.mono fun _ h => h.busy).trans (hg.mono fun _ h => h.busy))).2
  obtain ⟨n, hg'⟩ := hwritten.executing
  have hg0 : g.cu.state = .T0 := congrArg ControlUnit.state hg'.cu
  refine ⟨d.cu, d.aluResult, ?_, hdec.quiet, ?_⟩
  · rw [hend]
    exact hwritten.sampled rom
  rw [hend]
  refine ⟨?_, ?_, ?_, hdec.pcMode, ?_, ?_⟩
  · refine hd.keeps (I := fun x => s.cu.SameSelects x.cu) hsel fun x hx hI => ?_
    exact hI.trans (cu_clock_T1 rom hx.state).1
  · exact ⟨_, _, hwritten.selects.trans (cu_clock_T0 rom hg0).1⟩
  · exact (hg'.holds.clock rom (by rw [hg'.cu]; exact hwritten.irFetchStart)).fetchInst1
  · intro m hi hw hm
    refine hd.keeps (I := fun x => x.cu.pcMode = m) (hpc.trans hm) fun x hx hI => ?_
    exact hx.pcMode_clock rom hi hw hI
  · intro m hw hm
    rw [(cu_clock_T0 rom hg0).2]
    refine hg.keeps (I := fun x => x.cu.pcMode = m) hm fun x hx hI => ?_
    exact hx.pcMode_clock rom hw hI

end Recop
end TdmaSoc
