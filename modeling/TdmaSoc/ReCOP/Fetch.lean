import TdmaSoc.Lib.Steps
import TdmaSoc.ReCOP.InstructionSet

/-!
# Fetching

An instruction starts with the control unit just after the first edge of `T0` (`Sampled`). The fetch unit
spends two clocks in each of its states, as its next state is a register too: the address goes out twice and
the word is taken twice, the second time with the same result. While it works no write enable is up, so the
architectural state stays. `decoded` is where this ends: the instruction is in the registers and
the control unit at the first edge of `T2`.
-/

namespace TdmaSoc
open Recop

namespace ControlUnit

structure Quiet (c : ControlUnit) : Prop where
  pcWriteFlag : c.pcWriteFlag = false
  dmWrite : c.dmWrite = false
  rfWrite : c.rfWrite = false
  dpcrWriteFlag : c.dpcrWriteFlag = false
  irqClr : c.irqClr = false
  sopWrite : c.sopWrite = false
  aluClrZFlag : c.aluClrZFlag = false

variable {c : ControlUnit}

theorem Quiet.defaults (h : c.Quiet) (hf : c.irFetchStart = false) : c.defaults = c := by
  ext1 <;> simp only [ControlUnit.defaults, h.pcWriteFlag, h.dpcrWriteFlag, h.irqClr, h.aluClrZFlag, h.sopWrite, hf]

theorem Quiet.select (h : c.Quiet) (s n : CuState) (m : BitVec 2) (f : Bool) :
    Quiet { c with state := s, nextState := n, pcMode := m, irFetchStart := f } :=
  ⟨h.1, h.2, h.3, h.4, h.5, h.6, h.7⟩

theorem Quiet.clock_T0 (h : c.Quiet) (hi : c.aluOperation = aluIdle) (hs : c.state = .T0) (o : BitVec 8)
    (g e z : Bool) :
    c.clock o g e z = { c with state := c.nextState, nextState := .T1, irFetchStart := true } := by
  ext1 <;> simp only [clock, fsmProcess, opcodeProcess, hs, tickT0, ControlUnit.defaults, hi, h.pcWriteFlag,
    h.dmWrite, h.rfWrite, h.dpcrWriteFlag, h.irqClr, h.sopWrite, h.aluClrZFlag]

theorem Quiet.clock_T1 (h : c.Quiet) (hs : c.state = .T1) (o : BitVec 8) (g e z : Bool) :
    c.clock o g e z =
      { c with
        state := c.nextState
        irFetchStart := false
        nextState := if g then .T2 else c.nextState
        pcMode := if g then pcModeT1 (o.slice 6 2) (o.slice 0 6) c.pcMode else c.pcMode } := by
  cases g <;> ext1 <;> simp only [clock, fsmProcess, opcodeProcess, hs, tickT1, ControlUnit.defaults, h.pcWriteFlag,
    h.dpcrWriteFlag, h.irqClr, h.sopWrite, h.aluClrZFlag, Bool.false_eq_true, if_true, if_false]

end ControlUnit

/-! ### Fields of an instruction in the registers -/

namespace InstReg
variable (w v : Word)

theorem opcode_clock_am : (clock (w ++ v)).opcode.slice 6 2 = w.am := by
  ext i hi
  simp only [clock, Word.am, ← BitVec.getLsbD_eq_getElem hi, BitVec.getLsbD_slice, BitVec.getLsbD_append]
  simp [show ¬ 24 + (6 + i) < 16 by omega, show 24 + (6 + i) - 16 = 14 + i by omega, hi]
  omega

theorem opcode_clock_opcode : (clock (w ++ v)).opcode.slice 0 6 = w.opcode := by
  ext i hi
  simp only [clock, Word.opcode, ← BitVec.getLsbD_eq_getElem hi, BitVec.getLsbD_slice, BitVec.getLsbD_append]
  simp [show ¬ 24 + i < 16 by omega, show 24 + i - 16 = 8 + i by omega, hi]
  omega

theorem rz_clock : (clock (w ++ v)).rz = w.rz := by
  ext i hi
  simp only [clock, Word.rz, ← BitVec.getLsbD_eq_getElem hi, BitVec.getLsbD_slice, BitVec.getLsbD_append]
  simp [show ¬ 20 + i < 16 by omega, show 20 + i - 16 = 4 + i by omega]

theorem rx_clock : (clock (w ++ v)).rx = w.rx := by
  ext i hi
  simp only [clock, Word.rx, ← BitVec.getLsbD_eq_getElem hi, BitVec.getLsbD_slice, BitVec.getLsbD_append]
  simp [show ¬ 16 + i < 16 by omega]

theorem operand_clock : (clock (w ++ v)).operand = v := by
  ext i hi
  simp only [clock, ← BitVec.getLsbD_eq_getElem hi, BitVec.getLsbD_slice, BitVec.getLsbD_append]
  simp [hi]

end InstReg

namespace Recop
variable (rom : ProgMem) {s : Recop} {a : Arch}

theorem arch_clock_quiet (h : s.cu.Quiet) :
    (s.clock rom).arch = { s.arch with z := Alu.zFlag false s.cu.aluOperation s.aluResult s.zFlag } := by
  simp only [arch, clock, settle, registered, ProgCounter.clock, RegFile.clock, DataMem.clock, Registers.clock,
    h.pcWriteFlag, h.dmWrite, h.rfWrite, h.dpcrWriteFlag, h.sopWrite, h.aluClrZFlag]
  cases s.pc.prevWriteFlag <;> rfl

theorem arch_clock_idle (h : s.cu.Quiet) (hi : s.cu.aluOperation = aluIdle) : (s.clock rom).arch = s.arch := by
  rw [arch_clock_quiet rom h, hi]; rfl

/-- Right after the first edge of `T0`: the fetch is about to start. After reset the control unit is one
clock ahead. -/
structure Sampled (a : Arch) (s : Recop) : Prop where
  arch : s.arch = a
  quiet : s.cu.Quiet
  aluOperation : s.cu.aluOperation = aluIdle
  irFetchStart : s.cu.irFetchStart = true
  nextState : s.cu.nextState = .T1
  start : s.cu.state = .T0 ∨ s.cu.state = .T1
  fetchState : s.fetch.fetchState = .idle
  nextFetchState : s.fetch.nextFetchState = .idle
  instFetched : s.fetch.instFetched = false

structure Waiting (a : Arch) (s : Recop) : Prop where
  arch : s.arch = a
  quiet : s.cu.Quiet
  aluOperation : s.cu.aluOperation = aluIdle
  state : s.cu.state = .T1
  nextState : s.cu.nextState = .T1

/-- The instruction of first word `w` and operand `v` is in the registers and stays there. -/
structure Holds (w v : Word) (s : Recop) : Prop where
  fetchInst1 : s.fetch.fetchInst1 = w
  fetchInst2 : s.fetch.fetchInst2 = v
  ir : s.ir = InstReg.clock (w ++ v)
  fetchState : s.fetch.fetchState = .idle
  nextFetchState : s.fetch.nextFetchState = .idle

theorem Holds.clock {w v : Word} (h : s.Holds w v) (hf : s.cu.irFetchStart = false) : (s.clock rom).Holds w v := by
  refine ⟨?_, ?_, ?_, ?_, ?_⟩
  · simp only [Recop.clock, settle, registered, FetchUnit.clock, FetchUnit.irProcess, h.fetchState, h.fetchInst1]
  · simp only [Recop.clock, settle, registered, FetchUnit.clock, FetchUnit.irProcess, h.fetchState, h.fetchInst2]
  · simp only [Recop.clock, settle, registered, instruction, h.fetchInst1, h.fetchInst2]
  · simp only [Recop.clock, settle, registered, FetchUnit.clock, h.nextFetchState]
  · simp [Recop.clock, settle, registered, FetchUnit.clock, FetchUnit.irProcess, h.fetchState, h.nextFetchState, hf]

/-- At the first edge of `T2`. -/
structure Decoded (w v : Word) (a : Arch) (s : Recop) : Prop where
  arch : s.arch = a
  quiet : s.cu.Quiet
  aluOperation : s.cu.aluOperation = aluIdle
  irFetchStart : s.cu.irFetchStart = false
  state : s.cu.state = .T2
  nextState : s.cu.nextState = .T2
  holds : s.Holds w v
  pcMode : ∃ m, s.cu.pcMode = ControlUnit.pcModeT1 w.am w.opcode m

/-- A state of the control unit other than `T0`. -/
def Busy (s : Recop) : Prop := s.cu.state ≠ .T0

/-- A clock of a fetch. When a word is decoded, it is the one before, `i`, or the new one, `w`. -/
structure Fetching (i w : Word) (s : Recop) : Prop where
  state : s.cu.state = .T1
  decodes : s.fetch.instFetched = true → ∃ f v : Word, (f = i ∨ f = w) ∧ s.ir = InstReg.clock (f ++ v)

theorem Fetching.busy {i w : Word} (h : s.Fetching i w) : s.Busy := by rw [Busy, h.state]; exact CuState.noConfusion

theorem Waiting.fetching {i w : Word} (h : s.Waiting a) (hf : s.fetch.instFetched = false) : s.Fetching i w :=
  ⟨h.state, fun ht => by rw [hf] at ht; cases ht⟩

theorem cu_clock (s : Recop) :
    (s.clock rom).cu = s.cu.clock s.ir.opcode s.fetch.instFetched (rzEmpty s.rzValue) s.zFlag := rfl

theorem fetch_clock (s : Recop) :
    (s.clock rom).fetch = s.fetch.clock s.cu.irFetchStart s.pc.pcOut (rom s.progMemAddress) := rfl

theorem Sampled.clock (h : s.Sampled a) :
    (s.clock rom).Waiting a ∧ ∃ j p, (s.clock rom).fetch = ⟨.idle, .fetch1, s.fetch.fetchInst1, j, false, p⟩ := by
  refine ⟨?_, s.fetch.fetchInst2, s.fetch.progMemIn, ?_⟩
  · have harch := (arch_clock_idle rom h.quiet h.aluOperation).trans h.arch
    rcases h.start with hs | hs
    · have hcu := (cu_clock rom _).trans (h.quiet.clock_T0 h.aluOperation hs _ _ _ _)
      refine ⟨harch, ?_, ?_, ?_, ?_⟩
      · rw [hcu]; exact h.quiet.select ..
      · exact (congrArg ControlUnit.aluOperation hcu).trans h.aluOperation
      · exact (congrArg ControlUnit.state hcu).trans h.nextState
      · exact congrArg ControlUnit.nextState hcu
    · have hcu := (cu_clock rom _).trans (h.quiet.clock_T1 hs _ _ _ _)
      rw [h.instFetched] at hcu
      refine ⟨harch, ?_, ?_, ?_, ?_⟩
      · rw [hcu]; exact h.quiet.select ..
      · exact (congrArg ControlUnit.aluOperation hcu).trans h.aluOperation
      · exact (congrArg ControlUnit.state hcu).trans h.nextState
      · exact (congrArg ControlUnit.nextState hcu).trans h.nextState
  · simp [fetch_clock, FetchUnit.clock, FetchUnit.irProcess, h.fetchState, h.nextFetchState, h.irFetchStart]

theorem Waiting.clock (h : s.Waiting a) (hf : s.fetch.instFetched = false) : (s.clock rom).Waiting a := by
  have hcu := (cu_clock rom _).trans (h.quiet.clock_T1 h.state _ _ _ _)
  rw [hf] at hcu
  refine ⟨(arch_clock_idle rom h.quiet h.aluOperation).trans h.arch, ?_, ?_, ?_, ?_⟩
  · rw [hcu]; exact h.quiet.select ..
  · exact (congrArg ControlUnit.aluOperation hcu).trans h.aluOperation
  · exact (congrArg ControlUnit.state hcu).trans h.nextState
  · exact (congrArg ControlUnit.nextState hcu).trans h.nextState

theorem Waiting.fetch1 {i j w : Word} {p : BitVec 15} (h : s.Waiting a)
    (hf : s.fetch = ⟨.idle, .fetch1, i, j, false, p⟩) :
    ∃ d, Steps (Recop.clock rom) (Fetching i w) 3 s d ∧ d.Waiting a ∧ d.fetch = ⟨.fetch2, .fetch2, i, j, false, a.pc⟩ ∧
      d.progMemAddress = a.pc := by
  have hpc {s : Recop} (h : s.Waiting a) : s.pc.pcOut = a.pc := congrArg Arch.pc h.arch
  have h1 := h.clock rom (by rw [hf])
  have f1 : (s.clock rom).fetch = ⟨.fetch1, .fetch1, i, j, false, p⟩ := by
    simp [fetch_clock, hf, FetchUnit.clock, FetchUnit.irProcess]
  have h2 := h1.clock rom (by rw [f1])
  have f2 : ((s.clock rom).clock rom).fetch = ⟨.fetch1, .fetch2, i, j, false, a.pc⟩ := by
    rw [fetch_clock, f1, hpc h1]; rfl
  have h3 := h2.clock rom (by rw [f2])
  refine ⟨_, ⟨h.fetching (by rw [hf]), h1.fetching (by rw [f1]), h2.fetching (by rw [f2]), rfl⟩, h3, ?_, ?_⟩
  · rw [fetch_clock, f2, hpc h2]; rfl
  · show ((s.clock rom).clock rom).fetch.progMemIn = a.pc
    rw [f2]

/-- Once the words are there, two clocks bring them into the instruction register and the control unit
to `T2`. It decodes twice, the second time with the new instruction. -/
theorem Waiting.decoded {i w v : Word} {p : BitVec 15} {f : FetchStatus} (h : s.Waiting a)
    (hf : s.fetch = ⟨f, .idle, w, v, true, p⟩) (hi : ∃ f v : Word, (f = i ∨ f = w) ∧ s.ir = InstReg.clock (f ++ v))
    (hn : (s.clock rom).fetch = ⟨.idle, .idle, w, v, true, p⟩) :
    ∃ d, Steps (Recop.clock rom) (Fetching i w) 2 s d ∧ d.Decoded w v a := by
  have hcu := (cu_clock rom _).trans (h.quiet.clock_T1 h.state _ _ _ _)
  rw [hf] at hcu
  have hq : (s.clock rom).cu.Quiet := by rw [hcu]; exact h.quiet.select ..
  have hidle := (congrArg ControlUnit.aluOperation hcu).trans h.aluOperation
  have hs := (congrArg ControlUnit.state hcu).trans h.nextState
  have ht : (s.clock rom).cu.nextState = .T2 := congrArg ControlUnit.nextState hcu
  have hir : (s.clock rom).ir = InstReg.clock (w ++ v) := by
    show InstReg.clock s.instruction = _
    rw [instruction, hf]
  have hcu' := (cu_clock rom _).trans (hq.clock_T1 hs _ _ _ _)
  rw [hn, hir, InstReg.opcode_clock_am, InstReg.opcode_clock_opcode] at hcu'
  refine ⟨_, ⟨⟨h.state, fun _ => hi⟩, ⟨hs, fun _ => ⟨w, v, .inr rfl, hir⟩⟩, rfl⟩, ?_⟩
  refine ⟨?_, ?_, ?_, ?_, ?_, ?_, ?_, ?_⟩
  · exact (arch_clock_idle rom hq hidle).trans ((arch_clock_idle rom h.quiet h.aluOperation).trans h.arch)
  · rw [hcu']; exact hq.select ..
  · exact (congrArg ControlUnit.aluOperation hcu').trans hidle
  · exact congrArg ControlUnit.irFetchStart hcu'
  · exact (congrArg ControlUnit.state hcu').trans ht
  · exact congrArg ControlUnit.nextState hcu'
  · refine Holds.clock rom ⟨?_, ?_, hir, ?_, ?_⟩ (congrArg ControlUnit.irFetchStart hcu) <;> rw [hn]
  · exact ⟨_, congrArg ControlUnit.pcMode hcu'⟩

/-- A fetch takes 7 or 9 clocks, for one or two words. -/
theorem Sampled.fetch (h : s.Sampled a) :
    ∃ d, Steps (Recop.clock rom) (Fetching s.fetch.fetchInst1 (rom a.pc)) (if (rom a.pc).Long then 8 else 6)
        (s.clock rom) d ∧ d.Decoded (rom a.pc) (rom.operand a.pc) a := by
  obtain ⟨hw, j, p, hf⟩ := h.clock rom
  obtain ⟨e, he, hw, hf, ha⟩ := hw.fetch1 rom (w := rom a.pc) hf
  have hpc {s : Recop} (h : s.Waiting a) : s.pc.pcOut = a.pc := congrArg Arch.pc h.arch
  have h1 := hw.clock rom (by rw [hf])
  have a1 : (e.clock rom).progMemAddress = a.pc := by
    show e.fetch.progMemIn = a.pc
    rw [hf]
  rw [ProgMem.operand]
  by_cases hl : (rom a.pc).Long
  · rw [if_pos hl, if_pos hl]
    -- the second word is read from the address that the first clock of `fetch2` puts out
    have f1 : (e.clock rom).fetch = ⟨.fetch2, .fetch3, rom a.pc, j, false, a.pc + 1⟩ := by
      rw [fetch_clock, hf, ha, hpc hw]
      rcases hl with hl | hl <;> simp [FetchUnit.clock, FetchUnit.irProcess, hl]
    have h2 := h1.clock rom (by rw [f1])
    have f2 : ((e.clock rom).clock rom).fetch = ⟨.fetch3, .fetch3, rom a.pc, j, false, a.pc + 1⟩ := by
      rw [fetch_clock, f1, a1, hpc h1]
      rcases hl with hl | hl <;> simp [FetchUnit.clock, FetchUnit.irProcess, hl]
    have a2 : ((e.clock rom).clock rom).progMemAddress = a.pc + 1 := by
      show (e.clock rom).fetch.progMemIn = a.pc + 1
      rw [f1]
    have h3 := h2.clock rom (by rw [f2])
    have f3 : (((e.clock rom).clock rom).clock rom).fetch =
        ⟨.fetch3, .idle, rom a.pc, rom (a.pc + 1), true, a.pc + 1⟩ := by
      rw [fetch_clock, f2, a2]; rfl
    have i3 : (((e.clock rom).clock rom).clock rom).ir = InstReg.clock (rom a.pc ++ j) := by
      show InstReg.clock ((e.clock rom).clock rom).instruction = _
      rw [instruction, f2]
    have a3 : (((e.clock rom).clock rom).clock rom).progMemAddress = a.pc + 1 := by
      show ((e.clock rom).clock rom).fetch.progMemIn = a.pc + 1
      rw [f2]
    obtain ⟨d, hd, hdec⟩ := h3.decoded rom f3 ⟨_, j, .inr rfl, i3⟩ (by rw [fetch_clock, f3, a3]; rfl)
    refine ⟨d, he.trans (Steps.trans (n := 3) ?_ hd), hdec⟩
    exact ⟨hw.fetching (by rw [hf]), h1.fetching (by rw [f1]), h2.fetching (by rw [f2]), rfl⟩
  · rw [if_neg hl, if_neg hl]
    have f1 : (e.clock rom).fetch = ⟨.fetch2, .idle, rom a.pc, 0, true, a.pc⟩ := by
      rw [fetch_clock, hf, ha, hpc hw]
      simp [FetchUnit.clock, FetchUnit.irProcess, not_or.1 hl]
    have i1 : (e.clock rom).ir = InstReg.clock (s.fetch.fetchInst1 ++ j) := by
      show InstReg.clock e.instruction = _
      rw [instruction, hf]
    obtain ⟨d, hd, hdec⟩ := h1.decoded rom f1 ⟨_, j, .inl rfl, i1⟩ (by
      rw [fetch_clock, f1, a1, hpc h1]
      simp [FetchUnit.clock, FetchUnit.irProcess, not_or.1 hl])
    exact ⟨d, he.trans (Steps.trans (n := 1) ⟨hw.fetching (by rw [hf]), rfl⟩ hd), hdec⟩

end Recop
end TdmaSoc
