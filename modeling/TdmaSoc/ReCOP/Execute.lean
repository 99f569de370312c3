import TdmaSoc.ReCOP.Fetch

/-!
# Executing

The five clocks from the first edge of `T2` to the next sample: two of `T2` set the multiplexers and the
ALU, two of `T3` raise the write enables, the second of these and the first of `T0` write. `Arch.strobe` is
one such write; the second finds the program counter moved on and the registers and the memory written.
-/

namespace TdmaSoc
open Recop

/-! ### The control unit in `T2` and `T3` -/

namespace ControlUnit
variable {c : ControlUnit} {am : BitVec 2} {o : BitVec 6}

/-- The second clock of `T2` changes nothing. -/
theorem tickT2_tickT2 (c : ControlUnit) (am : BitVec 2) (o : BitVec 6) :
    (c.tickT2 am o).tickT2 am o = c.tickT2 am o := by
  rcases Opcode.cases o with (rfl | rfl | rfl | rfl | rfl | rfl | rfl | rfl | rfl | rfl) |
    (rfl | rfl | rfl | rfl | rfl | rfl) | h
  case inr.inr => simp only [tickT2, decodeT2, h, or_self, if_false]
  all_goals rcases am_cases am with rfl | rfl | rfl | rfl <;> rfl

/-- `T2` sets the multiplexers and the operation of the ALU. -/
theorem tickT2_frame (c : ControlUnit) (am : BitVec 2) (o : BitVec 6) :
    ∃ m da di r f o1 o2 d, c.tickT2 am o =
      { c with
        nextState := .T3, pcMode := m, dmSelAddr := da, dmSelIn := di, rfSelIn := r, aluOperation := f,
        aluSelOp1 := o1, aluSelOp2 := o2, dpcrSel := d } := by
  rcases Opcode.cases o with (rfl | rfl | rfl | rfl | rfl | rfl | rfl | rfl | rfl | rfl) |
    (rfl | rfl | rfl | rfl | rfl | rfl) | h
  case inr.inr => simp only [tickT2, decodeT2, h, or_self, if_false]; exact ⟨_, _, _, _, _, _, _, _, rfl⟩
  all_goals rcases am_cases am with rfl | rfl | rfl | rfl <;> exact ⟨_, _, _, _, _, _, _, _, rfl⟩

theorem tickT2_states (c : ControlUnit) (am : BitVec 2) (o : BitVec 6) :
    (c.tickT2 am o).state = c.state ∧ (c.tickT2 am o).nextState = .T3 ∧
      (c.tickT2 am o).irFetchStart = c.irFetchStart := by
  obtain ⟨m, da, di, r, f, o1, o2, d, hd⟩ := tickT2_frame c am o
  rw [hd]
  exact ⟨rfl, rfl, rfl⟩

theorem Quiet.tickT2 (h : c.Quiet) : (c.tickT2 am o).Quiet := by
  obtain ⟨m, da, di, r, f, o1, o2, d, hd⟩ := tickT2_frame c am o
  rw [hd]
  exact ⟨h.1, h.2, h.3, h.4, h.5, h.6, h.7⟩

/-- `T3` raises write enables and holds the ALU; the multiplexers of the memory, the ALU and DPCR stay. -/
theorem tickT3_frame (c : ControlUnit) (o : BitVec 6) (e z : Bool) :
    ∃ m r rw dw dp iq so cz, c.tickT3 o e z =
      { c with
        nextState := .T0, pcWriteFlag := true, aluOperation := aluHold, pcMode := m, rfSelIn := r, rfWrite := rw,
        dmWrite := dw, dpcrWriteFlag := dp, irqClr := iq, sopWrite := so, aluClrZFlag := cz } := by
  rcases Opcode.cases o with (rfl | rfl | rfl | rfl | rfl | rfl | rfl | rfl | rfl | rfl) |
    (rfl | rfl | rfl | rfl | rfl | rfl) | h
  case inr.inr => simp only [tickT3, decodeT3, h, or_self, if_false]; exact ⟨_, _, _, _, _, _, _, _, rfl⟩
  all_goals exact ⟨_, _, _, _, _, _, _, _, rfl⟩

theorem tickT3_fsmProcess (c : ControlUnit) (n : CuState) (o : BitVec 6) (e z : Bool) :
    (c.fsmProcess n).tickT3 o e z = (c.tickT3 o e z).fsmProcess n := by
  rcases Opcode.cases o with (rfl | rfl | rfl | rfl | rfl | rfl | rfl | rfl | rfl | rfl) |
    (rfl | rfl | rfl | rfl | rfl | rfl) | h
  case inr.inr => simp only [fsmProcess, tickT3, decodeT3, h, or_self, if_false]
  all_goals rfl

def withMode (m : BitVec 2) (c : ControlUnit) : ControlUnit := { c with pcMode := m }

/-- The second clock of `T3` raises the same write enables again. -/
theorem Quiet.tickT3_tickT3 (h : c.Quiet) (hf : c.irFetchStart = false) (o : BitVec 6) (e z : Bool) :
    ∀ e' z', ∃ m, (c.tickT3 o e z).defaults.tickT3 o e' z' = (c.tickT3 o e z).withMode m := by
  intro e' z'
  rw [← h.defaults hf]
  rcases Opcode.cases o with (rfl | rfl | rfl | rfl | rfl | rfl | rfl | rfl | rfl | rfl) |
    (rfl | rfl | rfl | rfl | rfl | rfl) | h
  case inr.inr => simp only [tickT3, decodeT3, h, or_self, if_false]; exact ⟨_, rfl⟩
  all_goals exact ⟨_, rfl⟩

end ControlUnit

/-! ### Five clocks -/

namespace Alu

theorem result_result (f : BitVec 3) (x y held : Word) : result f x y (result f x y held) = result f x y held := by
  simp only [result]; split_ifs <;> rfl

theorem zFlag_zFlag (f : BitVec 3) (r : Word) (z : Bool) : zFlag false f r (zFlag false f r z) = zFlag false f r z := by
  simp only [zFlag]; split_ifs <;> rfl

end Alu

namespace Arch

/-- The writes of one clock under the enables and multiplexers of `c`, for an instruction with registers `z`
and `x` and operand `v`, with `result` out of the ALU and the memory showing the word at `read`. -/
def strobe (c : ControlUnit) (z x : BitVec 4) (v result : Word) (read : BitVec 12) (a : Arch) : Arch where
  pc := a.pc
  regs := a.regs.clock c.rfWrite z (RegFile.inputSelect c.rfSelIn v (a.mem read) result)
  z := if c.aluClrZFlag then false else a.z
  mem :=
    if c.dmWrite then
      Function.update a.mem (dataMemInAddr c.dmSelAddr v a.pc (a.regs x) (a.regs z))
        (dataMemInData c.dmSelIn v a.pc (a.regs x))
    else a.mem
  dpcr := (Registers.clock (a.regs 7) (a.regs x) v c.dpcrSel c.dpcrWriteFlag c.sopWrite ⟨a.dpcr, a.sop⟩).dpcr
  sop := (Registers.clock (a.regs 7) (a.regs x) v c.dpcrSel c.dpcrWriteFlag c.sopWrite ⟨a.dpcr, a.sop⟩).sop

section Strobe
variable {q : ControlUnit} {z x : BitVec 4} {v r : Word} {read : BitVec 12}

theorem regs_strobe_of_not (h : q.rfWrite = false) (a : Arch) : (a.strobe q z x v r read).regs = a.regs := by
  show (if q.rfWrite then _ else _) = _
  rw [h]
  rfl

theorem mem_strobe_of_not (h : q.dmWrite = false) (a : Arch) : (a.strobe q z x v r read).mem = a.mem := by
  show (if q.dmWrite then _ else _) = _
  rw [h]
  rfl

theorem dpcr_strobe_of_not (h : q.dpcrWriteFlag = false) (a : Arch) : (a.strobe q z x v r read).dpcr = a.dpcr := by
  show (if q.dpcrWriteFlag then _ else _) = _
  rw [h]
  rfl

/-- Loading DPCR and SOP again from the same words changes nothing. -/
theorem registers_clock_clock (r7 rx v : Word) (sel : BitVec 1) (dpcrWr sopWr : Bool) (r : Registers) :
    Registers.clock r7 rx v sel dpcrWr sopWr (Registers.clock r7 rx v sel dpcrWr sopWr r) =
      Registers.clock r7 rx v sel dpcrWr sopWr r := by
  unfold Registers.clock
  cases dpcrWr <;> cases sopWr <;> simp only [if_true, Bool.false_eq_true, if_false]
  all_goals split_ifs <;> rfl

end Strobe

def nextPc (c : ControlUnit) (x : BitVec 4) (v : Word) (a : Arch) : BitVec 15 :=
  (ProgCounter.clock true c.pcMode (pcIn c.pcMode (a.regs x) v) ⟨a.pc, false⟩).pcOut

/-- The two writes, with the program counter moving on in the first. -/
def writeBack (c : ControlUnit) (z x : BitVec 4) (v result : Word) (a : Arch) : Arch :=
  let read := dataMemInAddr c.dmSelAddr v a.pc (a.regs x) (a.regs z)
  strobe c z x v result read { a.strobe c z x v result read with pc := a.nextPc c x v }

def result (c : ControlUnit) (z x : BitVec 4) (v held : Word) (a : Arch) : Word :=
  Alu.result c.aluOperation (Alu.op1Select c.aluSelOp1 (a.regs x) v)
    (Alu.op2Select c.aluSelOp2 (a.regs x) (a.regs z)) held

/-- Z follows the result while the ALU works. -/
def flagged (c : ControlUnit) (result : Word) (a : Arch) : Arch :=
  { a with z := Alu.zFlag false c.aluOperation result a.z }

/-- What an instruction does from the first edge of `T2` on, where the control unit is `c` and the result
of the ALU `held`. -/
def execute (c : ControlUnit) (am : BitVec 2) (opcode : BitVec 6) (z x : BitVec 4) (v held : Word) (a : Arch) :
    Arch :=
  let p := c.tickT2 am opcode
  let b := a.flagged p (a.result p z x v held)
  b.writeBack (p.tickT3 opcode (rzEmpty (b.regs z)) b.z) z x v (a.result p z x v held)

end Arch

namespace Recop
variable (rom : ProgMem) {s : Recop} {a : Arch} {w v : Word} {c : ControlUnit}

/-- A clock of `T2` or `T3` with the instruction of first word `w` in its register. -/
structure Executes (w : Word) (s : Recop) : Prop where
  state : s.cu.state = .T2 ∨ s.cu.state = .T3
  ir : ∃ v : Word, s.ir = InstReg.clock (w ++ v)

theorem Executes.busy (h : s.Executes w) : s.Busy := by
  rcases h.state with hs | hs <;> rw [Busy, hs] <;> exact CuState.noConfusion

structure Executing (c : ControlUnit) (w v : Word) (a : Arch) (s : Recop) : Prop where
  cu : s.cu = c
  arch : s.arch = a
  holds : s.Holds w v

theorem Executing.fields (h : s.Executing c w v a) :
    s.rxValue = a.regs w.rx ∧ s.rzValue = a.regs w.rz ∧ s.ir.operand = v ∧ s.ir.rz = w.rz := by
  have hr : s.regs = a.regs := congrArg Arch.regs h.arch
  rw [rxValue, rzValue, hr, h.holds.ir, InstReg.rx_clock, InstReg.rz_clock, InstReg.operand_clock]
  exact ⟨rfl, rfl, rfl, rfl⟩

theorem Executing.aluResult_clock (h : (s.clock rom).Executing c w v a) :
    (s.clock rom).aluResult = a.result c w.rz w.rx v s.aluResult := by
  obtain ⟨hx, hz, ho, _⟩ := h.fields
  show Alu.result (s.clock rom).cu.aluOperation
    (Alu.op1Select (s.clock rom).cu.aluSelOp1 (s.clock rom).rxValue (s.clock rom).ir.operand)
    (Alu.op2Select (s.clock rom).cu.aluSelOp2 (s.clock rom).rxValue (s.clock rom).rzValue) s.aluResult = _
  rw [hx, hz, ho, h.cu]; rfl

theorem Executing.address_clock (h : s.Executing c w v a) :
    (s.clock rom).dm.address = dataMemInAddr c.dmSelAddr v a.pc (a.regs w.rx) (a.regs w.rz) := by
  obtain ⟨hx, hz, ho, _⟩ := h.fields
  show dataMemInAddr s.cu.dmSelAddr s.ir.operand s.pc.pcOut s.rxValue s.rzValue = _
  have hp : s.pc.pcOut = a.pc := congrArg Arch.pc h.arch
  rw [hx, hz, ho, h.cu, hp]

theorem Executing.cu_T2 (h : s.Executing c w v a) (hs : c.state = .T2) :
    (s.clock rom).cu = (c.defaults.tickT2 w.am w.opcode).fsmProcess c.nextState := by
  rw [cu_clock, h.cu, ControlUnit.clock, ControlUnit.opcodeProcess, hs, h.holds.ir, InstReg.opcode_clock_am,
    InstReg.opcode_clock_opcode]

theorem Executing.cu_T3 (h : s.Executing c w v a) (hs : c.state = .T3) :
    (s.clock rom).cu =
      (c.defaults.tickT3 w.opcode (rzEmpty (a.regs w.rz)) a.z).fsmProcess c.nextState := by
  obtain ⟨_, hz, _, _⟩ := h.fields
  have hzf : s.zFlag = a.z := congrArg Arch.z h.arch
  rw [cu_clock, h.cu, ControlUnit.clock, ControlUnit.opcodeProcess, hs, hz, hzf, h.holds.ir,
    InstReg.opcode_clock_opcode]

theorem Executing.arch_clock (h : s.Executing c w v a) (hi : c.aluOperation = aluHold) :
    (s.clock rom).arch =
      { a.strobe c w.rz w.rx v s.aluResult s.dm.address with
        pc := (ProgCounter.clock c.pcWriteFlag c.pcMode (pcIn c.pcMode (a.regs w.rx) v)
          ⟨a.pc, s.pc.prevWriteFlag⟩).pcOut } := by
  obtain ⟨hx, hz, ho, hrz⟩ := h.fields
  have hcu := h.cu
  subst hcu
  have ha := h.arch
  subst ha
  simp only [Recop.arch, Recop.clock, settle, registered, Arch.strobe, hx, hz, ho, hrz, DataMem.q, DataMem.clock,
    Alu.zFlag, hi, r7]
  rfl

theorem Executing.aluResult_hold (h : (s.clock rom).Executing c w v a) (hc : c.aluOperation = aluHold) :
    (s.clock rom).aluResult = s.aluResult := by
  rw [h.aluResult_clock, Arch.result, hc]; rfl

theorem prevWriteFlag_clock (hp : s.cu.pcWriteFlag = false) : (s.clock rom).pc.prevWriteFlag = false := by
  simp only [Recop.clock, settle, registered, ProgCounter.clock, hp]
  cases h : s.pc.prevWriteFlag <;> simp [h]

/-- The ALU has settled on `r` under `p` and Z has followed it; the writes come next. -/
structure Latched (p : ControlUnit) (r w v : Word) (a : Arch) (s : Recop) : Prop where
  executing : s.Executing (p.fsmProcess .T3) w v a
  quiet : p.Quiet
  irFetchStart : p.irFetchStart = false
  nextState : p.nextState = .T3
  z : Alu.zFlag false p.aluOperation r a.z = a.z
  aluResult : s.aluResult = r

/-- The first of the two writes of `q` to the state `a` has been made. -/
structure Written (q : ControlUnit) (r w v : Word) (a : Arch) (s : Recop) : Prop where
  executing : ∃ m, s.Executing ((q.withMode m).fsmProcess .T0) w v
    { a.strobe q w.rz w.rx v r (dataMemInAddr q.dmSelAddr v a.pc (a.regs w.rx) (a.regs w.rz)) with
      pc := a.nextPc q w.rx v }
  irFetchStart : q.irFetchStart = false
  nextState : q.nextState = .T0
  pcWriteFlag : q.pcWriteFlag = true
  aluOperation : q.aluOperation = aluHold
  aluResult : s.aluResult = r
  address : s.dm.address = dataMemInAddr q.dmSelAddr v a.pc (a.regs w.rx) (a.regs w.rz)
  prevWriteFlag : s.pc.prevWriteFlag = true

/-- The two clocks of `T2`: the ALU settles in the first and Z follows in the second. -/
theorem Decoded.latched (h : s.Decoded w v a) :
    let p := s.cu.tickT2 w.am w.opcode
    let r := a.result p w.rz w.rx v s.aluResult
    ∃ d, Steps (Recop.clock rom) (Executes w) 2 s d ∧ d.Latched p r w v (a.flagged p r) := by
  intro p r
  obtain ⟨hst, hnext, hfs⟩ := ControlUnit.tickT2_states s.cu w.am w.opcode
  rw [h.state] at hst
  rw [h.irFetchStart] at hfs
  have hquiet : p.Quiet := h.quiet.tickT2
  have e0 : s.Executing s.cu w v a := ⟨rfl, h.arch, h.holds⟩
  have e1 : (s.clock rom).Executing p w v a := by
    refine ⟨?_, (arch_clock_idle rom h.quiet h.aluOperation).trans h.arch, h.holds.clock rom h.irFetchStart⟩
    rw [e0.cu_T2 rom h.state, h.quiet.defaults h.irFetchStart, h.nextState, ← hst]; rfl
  set s1 := s.clock rom
  have r1 : s1.aluResult = r := e1.aluResult_clock
  have hq1 : s1.cu.Quiet := by rw [e1.cu]; exact hquiet
  have e2 : (s1.clock rom).Executing (p.fsmProcess .T3) w v (a.flagged p r) := by
    refine ⟨?_, ?_, e1.holds.clock rom (by rw [e1.cu, hfs])⟩
    · rw [e1.cu_T2 rom hst, hquiet.defaults hfs, ControlUnit.tickT2_tickT2, hnext]
    · rw [arch_clock_quiet rom hq1, e1.cu, e1.arch, r1, show s1.zFlag = a.z from congrArg Arch.z e1.arch]; rfl
  refine ⟨s1.clock rom, ⟨⟨.inl h.state, v, h.holds.ir⟩, ⟨.inl ?_, v, e1.holds.ir⟩, rfl⟩, e2, hquiet, hfs, hnext,
    Alu.zFlag_zFlag .., ?_⟩
  · rw [e1.cu, hst]
  · rw [e2.aluResult_clock, r1]
    exact Alu.result_result ..

/-- The first clock of `T3` raises the enables. -/
theorem Latched.raised {p : ControlUnit} {r : Word} (h : s.Latched p r w v a) :
    (s.clock rom).Executing ((p.tickT3 w.opcode (rzEmpty (a.regs w.rz)) a.z).fsmProcess .T3) w v a := by
  have e2 := h.executing
  have hfs : s.cu.irFetchStart = false := by rw [e2.cu]; exact h.irFetchStart
  have hq2 : s.cu.Quiet := by
    rw [e2.cu]; exact h.quiet.select .T3 p.nextState p.pcMode p.irFetchStart
  refine ⟨?_, ?_, e2.holds.clock rom hfs⟩
  · rw [e2.cu_T3 rom rfl, ← e2.cu, hq2.defaults hfs, e2.cu, ControlUnit.tickT3_fsmProcess]
    exact congrArg (ControlUnit.fsmProcess · _) h.nextState
  · rw [arch_clock_quiet rom hq2, e2.arch, h.aluResult, show s.zFlag = a.z from congrArg Arch.z e2.arch, e2.cu]
    exact congrArg (Arch.mk a.pc a.regs · a.mem a.dpcr a.sop) h.z

/-- The two clocks of `T3`: the enables rise in the first and the second writes. -/
theorem Latched.written {p : ControlUnit} {r : Word} (h : s.Latched p r w v a) :
    ∃ d, Steps (Recop.clock rom) (Executes w) 2 s d ∧ ¬ d.Busy ∧
      d.Written (p.tickT3 w.opcode (rzEmpty (a.regs w.rz)) a.z) r w v a := by
  have hidem := h.quiet.tickT3_tickT3 h.irFetchStart w.opcode (rzEmpty (a.regs w.rz)) a.z
  have e3 := h.raised rom
  set q := p.tickT3 w.opcode (rzEmpty (a.regs w.rz)) a.z with hq
  obtain ⟨hqf, hqn, hqp, hqh, hqa⟩ : q.irFetchStart = false ∧ q.nextState = .T0 ∧ q.pcWriteFlag = true ∧
      q.aluOperation = aluHold ∧ q.dmSelAddr = p.dmSelAddr := by
    obtain ⟨_, _, _, _, _, _, _, _, hd⟩ := ControlUnit.tickT3_frame p w.opcode (rzEmpty (a.regs w.rz)) a.z
    rw [hq, hd]
    exact ⟨h.irFetchStart, rfl, rfl, rfl, rfl⟩
  have e2 := h.executing
  have hq2 : s.cu.Quiet := by
    rw [e2.cu]; exact h.quiet.select .T3 p.nextState p.pcMode p.irFetchStart
  have a3 : (s.clock rom).dm.address = dataMemInAddr q.dmSelAddr v a.pc (a.regs w.rx) (a.regs w.rz) := by
    rw [hqa]; exact e2.address_clock rom
  set s3 := s.clock rom
  have r3 : s3.aluResult = r := (e3.aluResult_hold rom hqh).trans h.aluResult
  have p3 : s3.pc.prevWriteFlag = false := prevWriteFlag_clock rom hq2.pcWriteFlag
  obtain ⟨m, hm⟩ := hidem (rzEmpty (a.regs w.rz)) a.z
  have e4 : (s3.clock rom).Executing ((q.withMode m).fsmProcess .T0) w v
      { a.strobe q w.rz w.rx v r (dataMemInAddr q.dmSelAddr v a.pc (a.regs w.rx) (a.regs w.rz)) with
        pc := a.nextPc q w.rx v } := by
    refine ⟨?_, ?_, e3.holds.clock rom (by rw [e3.cu]; exact hqf)⟩
    · rw [e3.cu_T3 rom rfl, show (q.fsmProcess .T3).defaults = q.defaults.fsmProcess .T3 from rfl,
        ControlUnit.tickT3_fsmProcess, hm]
      exact congrArg ((q.withMode m).fsmProcess ·) hqn
    · rw [e3.arch_clock rom hqh, p3, r3, a3, show (q.fsmProcess .T3).pcWriteFlag = true from hqp]; rfl
  refine ⟨s3.clock rom, ⟨⟨.inr ?_, v, e2.holds.ir⟩, ⟨.inr ?_, v, e3.holds.ir⟩, rfl⟩, ?_, ⟨m, e4⟩, hqf, hqn, hqp, hqh,
    ?_, e3.address_clock rom, ?_⟩
  · rw [e2.cu]; rfl
  · rw [e3.cu]; rfl
  · rw [Busy, e4.cu, not_not]; rfl
  · exact (e4.aluResult_hold rom hqh).trans r3
  · show (ProgCounter.clock s3.cu.pcWriteFlag ..).prevWriteFlag = true
    rw [show s3.cu.pcWriteFlag = true by rw [e3.cu]; exact hqp]
    simp [ProgCounter.clock, p3]

/-- The first clock of `T0` writes once more. -/
theorem Written.sampled {q : ControlUnit} {r : Word} (h : s.Written q r w v a) :
    (s.clock rom).Sampled (a.writeBack q w.rz w.rx v r) := by
  obtain ⟨m, e4⟩ := h.executing
  have hcu : (s.clock rom).cu = (((q.withMode m).fsmProcess .T0).defaults.tickT0).fsmProcess .T0 := by
    rw [cu_clock, e4.cu]
    exact congrArg (ControlUnit.fsmProcess · _) h.nextState
  have hh := e4.holds.clock rom (by rw [e4.cu]; exact h.irFetchStart)
  refine ⟨?_, ?_, ?_, ?_, ?_, .inl ?_, hh.fetchState, hh.nextFetchState, ?_⟩
  · rw [e4.arch_clock rom h.aluOperation, h.aluResult, h.address, h.prevWriteFlag,
      show ((q.withMode m).fsmProcess .T0).pcWriteFlag = true from h.pcWriteFlag]; rfl
  · rw [hcu]; exact ⟨rfl, rfl, rfl, rfl, rfl, rfl, rfl⟩
  · rw [hcu]; rfl
  · rw [hcu]; rfl
  · rw [hcu]; rfl
  · rw [hcu]; rfl
  · rw [fetch_clock]
    simp [FetchUnit.clock, FetchUnit.irProcess, e4.holds.fetchState]

/-- `T2` and `T3` together, up to the first of the two writes. -/
theorem Decoded.written (h : s.Decoded w v a) :
    let p := s.cu.tickT2 w.am w.opcode
    let r := a.result p w.rz w.rx v s.aluResult
    ∃ d, Steps (Recop.clock rom) (Executes w) 4 s d ∧ ¬ d.Busy ∧ p.Quiet ∧
      d.Written (p.tickT3 w.opcode (rzEmpty (a.regs w.rz)) (a.flagged p r).z) r w v (a.flagged p r) := by
  intro p r
  obtain ⟨e, he, hlatched⟩ := h.latched rom
  obtain ⟨d, hd, hbusy, hwritten⟩ := hlatched.written rom
  exact ⟨d, he.trans hd, hbusy, hlatched.quiet, hwritten⟩

end Recop
end TdmaSoc
