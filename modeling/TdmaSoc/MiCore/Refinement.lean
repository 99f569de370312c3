import TdmaSoc.MiCore.InstructionSet
import TdmaSoc.MiCore.Stores

/-!
# The MiCore executes its instruction set

Every instruction takes three clocks. `Begun.latched` is what the first two of them leave for the third: the
instruction, PC moved on, and in the modes with an address this address and SP. `Latched.execute` is the third, with
one lemma for each form that the control signals can have there.
-/

namespace TdmaSoc
namespace MiCore
open Signals

/-! ### One clock on the programmer's state -/

/-- No condition bit is loaded or cleared. -/
structure Signals.KeepsCcr (s : Signals) : Prop where
  clrC : s.clrC = false
  clrZ : s.clrZ = false
  clrV : s.clrV = false
  clrN : s.clrN = false
  ldC : s.ldC = false
  ldZ : s.ldZ = false
  ldV : s.ldV = false
  ldN : s.ldN = false

variable {m m₂ : MiCore} {ir : BitVec 32} {i i₀ i₁ : Input} (lpm : Lpm) (rom : BitVec 10 → BitVec 32)

theorem ccrNext_of_keeps (h : m.signals.KeepsCcr) : m.ccrNext lpm = m.ccr := by
  unfold ccrNext
  rw [h.clrC, h.clrZ, h.clrV, h.clrN, h.ldC, h.ldZ, h.ldV, h.ldN]
  rfl

theorem decodeT1_keepsCcr (opcode : BitVec 11) : (decodeT1 opcode).KeepsCcr := by
  unfold decodeT1
  dsimp only
  split
  · split <;> exact ⟨rfl, rfl, rfl, rfl, rfl, rfl, rfl, rfl⟩
  · split
    · exact ⟨rfl, rfl, rfl, rfl, rfl, rfl, rfl, rfl⟩
    · split <;> exact ⟨rfl, rfl, rfl, rfl, rfl, rfl, rfl, rfl⟩

theorem arch_clock (h : m.resetCircuit = .running) {s : Signals} (hsig : m.signals = s) :
    (m.clock lpm rom i).arch =
      { pc := if s.ldPc then m.pcIn i else m.pcHold
        sp := if s.ldSp then m.spIn i else m.spHold
        regs := if s.ldRf then Function.update m.regs (rz m.irHold) (m.rfIn lpm i) else m.regs
        ccr := m.ccrNext lpm
        ram := if s.we then Function.update m.intRam.cells (m.arHold.slice 0 10) m.dmIn else m.intRam.cells
        sor := if m.arHold = 0xFFFF ∧ s.we then m.dmIn else m.sorHold } := by
  subst hsig
  unfold arch clock
  rw [h]
  rfl

theorem arch_clock_of_keeps (h : m.resetCircuit = .running) {s : Signals} (hsig : m.signals = s) (hs : s.KeepsCcr) :
    (m.clock lpm rom i).arch =
      { pc := if s.ldPc then m.pcIn i else m.pcHold
        sp := if s.ldSp then m.spIn i else m.spHold
        regs := if s.ldRf then Function.update m.regs (rz m.irHold) (m.rfIn lpm i) else m.regs
        ccr := m.ccr
        ram := if s.we then Function.update m.intRam.cells (m.arHold.slice 0 10) m.dmIn else m.intRam.cells
        sor := if m.arHold = 0xFFFF ∧ s.we then m.dmIn else m.sorHold } := by
  rw [arch_clock lpm rom h hsig, ccrNext_of_keeps lpm (by rw [hsig]; exact hs)]

theorem dmOut_of_not_we (hwe : m.signals.we = false) : m.dmOut i = m.arch.read i m.arHold := by
  unfold dmOut fallen
  rw [hwe]
  rfl

section
variable (h : m.resetCircuit = .running)
include h

theorem arch_nothing (hsig : m.signals = defaults .T0) : (m.clock lpm rom i).arch = m.arch := by
  rw [arch_clock_of_keeps lpm rom h hsig ⟨rfl, rfl, rfl, rfl, rfl, rfl, rfl, rfl⟩]
  simp only [defaults, Bool.false_eq_true, and_false, if_false]
  rfl

theorem arch_loadRf {sel : BitVec 2} (hsig : m.signals = (defaults .T0).loadRf sel) :
    (m.clock lpm rom i).arch = m.arch.setReg (rz m.irHold) (m.rfIn lpm i) := by
  rw [arch_clock_of_keeps lpm rom h hsig ⟨rfl, rfl, rfl, rfl, rfl, rfl, rfl, rfl⟩]
  simp only [loadRf, defaults, Bool.false_eq_true, and_false, if_false, if_true]
  rfl

theorem arch_loadPc {sel : BitVec 2} (hsig : m.signals = (defaults .T0).loadPc sel) :
    (m.clock lpm rom i).arch = { m.arch with pc := m.pcIn i } := by
  rw [arch_clock_of_keeps lpm rom h hsig ⟨rfl, rfl, rfl, rfl, rfl, rfl, rfl, rfl⟩]
  simp only [loadPc, defaults, Bool.false_eq_true, and_false, if_false, if_true]
  rfl

theorem arch_loadSp {sel : BitVec 2} (hsig : m.signals = (defaults .T0).loadSp sel) :
    (m.clock lpm rom i).arch = { m.arch with sp := m.spIn i } := by
  rw [arch_clock_of_keeps lpm rom h hsig ⟨rfl, rfl, rfl, rfl, rfl, rfl, rfl, rfl⟩]
  simp only [loadSp, defaults, Bool.false_eq_true, and_false, if_false, if_true]
  rfl

theorem arch_store {sel : BitVec 2} (hsig : m.signals = (defaults .T0).store sel) :
    (m.clock lpm rom i).arch = m.arch.write m.arHold m.dmIn := by
  rw [arch_clock_of_keeps lpm rom h hsig ⟨rfl, rfl, rfl, rfl, rfl, rfl, rfl, rfl⟩]
  simp only [store, defaults, Bool.false_eq_true, and_true, if_false, if_true]
  rfl

theorem arch_call (hsig : m.signals = ((defaults .T0).store selpc2dm).loadPc selir2pc) :
    (m.clock lpm rom i).arch = { m.arch.write m.arHold m.dmIn with pc := m.pcIn i } := by
  rw [arch_clock_of_keeps lpm rom h hsig ⟨rfl, rfl, rfl, rfl, rfl, rfl, rfl, rfl⟩]
  simp only [store, loadPc, defaults, Bool.false_eq_true, and_true, if_false, if_true]
  rfl

/-- `Rz` from the ALU, with the condition bits that `ccrNext` has. -/
theorem arch_ldRf {s : Signals} (hsig : m.signals = s) (hrf : s.ldRf = true) (hpc : s.ldPc = false)
    (hsp : s.ldSp = false) (hwe : s.we = false) :
    (m.clock lpm rom i).arch = { m.arch.setReg (rz m.irHold) (m.rfIn lpm i) with ccr := m.ccrNext lpm } := by
  rw [arch_clock lpm rom h hsig, hrf, hpc, hsp, hwe]
  simp only [Bool.false_eq_true, and_false, if_false, if_true]
  rfl

end

/-! ### The first two clocks -/

/-- The instruction `word`, begun in `m`, has come to `T2` with its address. -/
structure Latched (m : MiCore) (word : BitVec 32) (m₂ : MiCore) : Prop extends Decoded m word m₂ where
  ccr : m₂.ccr = m.ccr
  sor : m₂.sorHold = m.sorHold
  sp : am (opcode word) ≠ Am.stack → m₂.spHold = m.spHold
  push : am (opcode word) = Am.stack → (opcode word).getLsbD 7 = false →
    m₂.arHold = m.spHold ∧ m₂.spHold = m.spHold - 1
  pull : am (opcode word) = Am.stack → (opcode word).getLsbD 7 = true →
    m₂.arHold = m.spHold + 1 ∧ m₂.spHold = m.spHold + 1
  direct : am (opcode word) = Am.direct → m₂.arHold = value word
  indirect : am (opcode word) = Am.indirect → m₂.arHold = m.regs (ry word)

theorem Begun.signals (h : m.Begun) : m.signals = decodeT0 := by
  unfold MiCore.signals
  rw [h.state]
  rfl

theorem Begun.latched (h : m.Begun) (hi₀ : i₀.rstL = true) (hi₁ : i₁.rstL = true) :
    Latched m (m.pmOut rom i₀) ((m.clock lpm rom i₀).clock lpm rom i₁) := by
  have hd := h.decoded lpm rom hi₀ hi₁
  have hsor := h.sorHold lpm rom i₁ hi₀
  obtain ⟨hreset, hsig, hir, -, hsp, hregs, -⟩ := h.fetched lpm rom hi₀
  have hccr : (m.clock lpm rom i₀).ccr = m.ccr :=
    ccrNext_of_keeps lpm (by rw [h.signals]; exact ⟨rfl, rfl, rfl, rfl, rfl, rfl, rfl, rfl⟩)
  generalize m.clock lpm rom i₀ = m₁ at hd hsor hreset hsig hir hsp hregs hccr ⊢
  generalize m.pmOut rom i₀ = ir at hd hsig hir ⊢
  have hldAr : (m₁.clock lpm rom i₁).arHold = if m₁.signals.ldAr then m₁.dmAdr else m₁.arHold := rfl
  refine { hd with sor := hsor, ccr := ?_, sp := ?_, push := ?_, pull := ?_, direct := ?_, indirect := ?_ }
  · exact (ccrNext_of_keeps lpm (by rw [hsig]; exact decodeT1_keepsCcr _)).trans hccr
  · intro ham
    have hld : m₁.signals.ldSp = false := by
      rw [hsig, decodeT1, if_neg ham]
      split
      · rfl
      · split <;> rfl
    rw [clock_spHold hreset, hld, ← hsp]
    rfl
  · intro ham hbit
    have hpush : m₁.signals = { ((defaults .T2).loadSp selspop2sp).loadAr selsp2adr with spOpSel := decSp } := by
      rw [hsig, decodeT1, if_pos ham, if_pos hbit]
    rw [hldAr, clock_spHold hreset, spIn, spOpOut, dmAdr, hpush, ← hsp]
    exact ⟨rfl, rfl⟩
  · intro ham hbit
    have hpull : m₁.signals = { ((defaults .T2).loadSp selspop2sp).loadAr selspop2adr with spOpSel := incSp } := by
      rw [hsig, decodeT1, if_pos ham, if_neg (by rw [hbit]; decide)]
    rw [hldAr, clock_spHold hreset, spIn, dmAdr, spOpOut, hpull, ← hsp]
    exact ⟨rfl, rfl⟩
  · intro ham
    have hdirect : m₁.signals = (defaults .T2).loadAr selir2adr := by
      rw [hsig, decodeT1, ham]
      rfl
    rw [hldAr, dmAdr, hdirect, hir]
    rfl
  · intro ham
    have hindirect : m₁.signals = (defaults .T2).loadAr selry2adr := by
      rw [hsig, decodeT1, ham]
      rfl
    rw [hldAr, dmAdr, hindirect, ryValue, hir, hregs]
    rfl

theorem Latched.arch (h : Latched m ir m₂) : m₂.arch = { m.arch.next with sp := m₂.spHold } := by
  unfold MiCore.arch
  rw [h.pc, h.regs, h.ccr, h.cells, h.sor]
  rfl

theorem Latched.arch_of_not_stack (h : Latched m ir m₂) (ham : am (opcode ir) ≠ Am.stack) : m₂.arch = m.arch.next := by
  rw [h.arch, h.sp ham]
  rfl

/-! ### The third clock -/

def AluOp.sel : AluOp → BitVec 4
  | .add => addd
  | .sub => subb
  | .and => andd
  | .or => orrr
  | .xor => xoro

def UnaryOp.sel : UnaryOp → BitVec 4
  | .cmp => cmpl
  | .lsh => lshf
  | .rsh => rshf
  | .lrt => lrtr
  | .rrt => rrtr
  | .abs => absv

def AluOp.signals (op : AluOp) (aluBinSel : BitVec 1) : Signals :=
  match op with
  | .add | .sub => (defaults .T0).arithmetic op.sel aluBinSel
  | .and | .or | .xor => (defaults .T0).logical op.sel aluBinSel

theorem aluOut_of_sel {op : AluOp} (h : m.signals.aluSel = op.sel) : m.aluOut lpm = op.eval m.aluAin m.aluBin := by
  rw [aluOut, h]
  cases op <;> rfl

theorem aluOut_of_unary {op : UnaryOp} (h : m.signals.aluSel = op.sel) : m.aluOut lpm = op.eval lpm m.aluAin := by
  rw [aluOut, h]
  cases op <;> rfl

section
variable (h : Latched m ir m₂)
include h

theorem Latched.aluAin (hsel : m₂.signals.aluAinSel = selx2alua) : m₂.aluAin = m.regs (rx ir) := by
  rw [MiCore.aluAin, hsel, rxValue, h.regs, h.ir]
  rfl

theorem Latched.aluBin_reg (hsel : m₂.signals.aluBinSel = sely2alub) :
    m₂.aluBin = (Operand.reg (ry ir)).eval m.arch := by
  rw [MiCore.aluBin, hsel, ryValue, h.regs, h.ir]
  rfl

theorem Latched.aluBin_value (hsel : m₂.signals.aluBinSel = selir2alub) :
    m₂.aluBin = (Operand.value (value ir)).eval m.arch := by
  rw [MiCore.aluBin, hsel, h.ir]
  rfl

theorem Latched.alu (ham : am (opcode ir) ≠ Am.stack) {o : AluOp} {sel : BitVec 1} {right : Operand}
    (hsig : m₂.signals = o.signals sel) (hright : m₂.aluBin = right.eval m.arch) :
    (m₂.clock lpm rom i).arch = (Instruction.alu o (rz ir) (rx ir) right).exec lpm i m.arch := by
  have hsel : m₂.signals.aluSel = o.sel ∧ m₂.signals.aluAinSel = selx2alua ∧ m₂.signals.rfInSel = selalu2rf := by
    rw [hsig]
    cases o <;> exact ⟨rfl, rfl, rfl⟩
  have hleft := h.aluAin hsel.2.1
  have hout := aluOut_of_sel lpm hsel.1
  rw [hleft, hright] at hout
  have hin : m₂.rfIn lpm i = m₂.aluOut lpm := by
    rw [rfIn, hsel.2.2]
    rfl
  have hccr : m₂.ccrNext lpm = o.flags lpm m.ccr (m.regs (rx ir)) (right.eval m.arch) := by
    rw [ccrNext, hleft, hright, hout, h.ccr, hsig]
    cases o <;> rfl
  rw [arch_ldRf lpm rom h.reset hsig (by cases o <;> rfl) (by cases o <;> rfl) (by cases o <;> rfl)
    (by cases o <;> rfl), hin, hout, hccr, h.arch_of_not_stack ham, h.ir]
  rfl

theorem Latched.unary (ham : am (opcode ir) ≠ Am.stack) {o : UnaryOp}
    (hsig : m₂.signals = (defaults .T0).alu o.sel (defaults .T0).aluBinSel) :
    (m₂.clock lpm rom i).arch = (Instruction.unary o (rz ir) (rx ir)).exec lpm i m.arch := by
  have hsel : m₂.signals.aluSel = o.sel ∧ m₂.signals.aluAinSel = selx2alua ∧ m₂.signals.rfInSel = selalu2rf := by
    rw [hsig]
    exact ⟨rfl, rfl, rfl⟩
  have hout := aluOut_of_unary lpm hsel.1
  rw [h.aluAin hsel.2.1] at hout
  have hin : m₂.rfIn lpm i = m₂.aluOut lpm := by
    rw [rfIn, hsel.2.2]
    rfl
  have hccr : m₂.ccrNext lpm = m.ccr :=
    (ccrNext_of_keeps lpm (by rw [hsig]; exact ⟨rfl, rfl, rfl, rfl, rfl, rfl, rfl, rfl⟩)).trans h.ccr
  rw [arch_ldRf lpm rom h.reset hsig rfl rfl rfl rfl, hin, hout, hccr, h.arch_of_not_stack ham, h.ir]
  rfl

/-- `Rz` from the data memory. -/
theorem Latched.load (ham : am (opcode ir) ≠ Am.stack) (hsig : m₂.signals = (defaults .T0).loadRf seldm2rf)
    {address : Operand} (har : m₂.arHold = address.eval m.arch) :
    (m₂.clock lpm rom i).arch = (Instruction.load (rz ir) address).exec lpm i m.arch := by
  have hin : m₂.rfIn lpm i = m.arch.read i (address.eval m.arch) := by
    rw [← har, rfIn, hsig]
    refine (dmOut_of_not_we (by rw [hsig]; rfl)).trans ?_
    rw [h.arch_of_not_stack ham]
    rfl
  rw [arch_loadRf lpm rom h.reset hsig, hin, h.arch_of_not_stack ham, h.ir]
  rfl

theorem Latched.str (ham : am (opcode ir) ≠ Am.stack) {sel : BitVec 2} (hsig : m₂.signals = (defaults .T0).store sel)
    {address source : Operand} (har : m₂.arHold = address.eval m.arch) (hin : m₂.dmIn = source.eval m.arch) :
    (m₂.clock lpm rom i).arch = (Instruction.str address source).exec lpm i m.arch := by
  rw [arch_store lpm rom h.reset hsig, har, hin, h.arch_of_not_stack ham]
  rfl

theorem Latched.dmIn_reg (hsig : m₂.signals.dmInSel = selrx2dm) : m₂.dmIn = m.regs (rx ir) := by
  rw [dmIn, hsig, rxValue, h.regs, h.ir]
  rfl

/-- A branch that is taken if `bit` is set. -/
theorem Latched.skip (ham : am (opcode ir) ≠ Am.stack) {f : Flag} {bit : Bool} (hbit : bit = m.ccr.get f)
    (hsig : m₂.signals = MiCore.skip bit (defaults .T0)) :
    (m₂.clock lpm rom i).arch = (Instruction.skip f (value ir)).exec lpm i m.arch := by
  show _ = if m.ccr.get f then _ else _
  rw [← hbit]
  cases bit with
  | false =>
    rw [arch_nothing lpm rom h.reset hsig, h.arch_of_not_stack ham]
    rfl
  | true =>
    have hsig : m₂.signals = (defaults .T0).loadPc selir2pc := hsig
    have hin : m₂.pcIn i = value ir := by
      rw [pcIn, hsig, h.ir]
      rfl
    rw [arch_loadPc lpm rom h.reset hsig, hin, h.arch_of_not_stack ham]
    rfl

theorem Latched.clrf (ham : am (opcode ir) ≠ Am.stack) {c z v n : Bool}
    (hsig : m₂.signals = { defaults .T0 with clrC := c, clrZ := z, clrV := v, clrN := n }) :
    (m₂.clock lpm rom i).arch = (Instruction.clrf c z v n).exec lpm i m.arch := by
  have hccr : m₂.ccrNext lpm = ⟨!c && m.ccr.c, !z && m.ccr.z, !v && m.ccr.v, !n && m.ccr.n⟩ := by
    rw [ccrNext, hsig, h.ccr]
    cases c <;> cases z <;> cases v <;> cases n <;> rfl
  have harch := h.arch_of_not_stack ham
  rw [arch_clock lpm rom h.reset hsig, hccr]
  simp only [defaults, Bool.false_eq_true, and_false, if_false]
  exact congrArg (fun a : Arch => { a with ccr := ⟨!c && m.ccr.c, !z && m.ccr.z, !v && m.ccr.v, !n && m.ccr.n⟩ }) harch

end

/-! ### Every instruction -/

/-- In `T2`, the control signals `s` execute `instruction`. -/
def Executes (i : Input) (m m₂ : MiCore) (s : Signals) (instruction : Instruction) : Prop :=
  m₂.signals = s → (m₂.clock lpm rom i).arch = instruction.exec lpm i m.arch

variable {lpm rom} in
theorem Executes.ite {c : Prop} [Decidable c] {s s' : Signals} {instruction instruction' : Instruction}
    (hpos : c → Executes lpm rom i m m₂ s instruction) (hneg : ¬ c → Executes lpm rom i m m₂ s' instruction') :
    Executes lpm rom i m m₂ (if c then s else s') (if c then instruction else instruction') := by
  by_cases hc : c
  · rw [if_pos hc, if_pos hc]
    exact hpos hc
  · rw [if_neg hc, if_neg hc]
    exact hneg hc

section
variable (h : Latched m ir m₂)
include h

theorem Latched.execute_stack (ham : am (opcode ir) = Am.stack) :
    Executes lpm rom i m m₂ (executeStack (op (opcode ir)) (defaults .T0)) (Instruction.decodeStack ir) := by
  have hbit := getLsbD_seven (opcode ir)
  unfold executeStack Instruction.decodeStack
  refine .ite (fun hpul hsig => ?_) fun _ => .ite (fun hpsh hsig => ?_) fun _ => .ite (fun hret hsig => ?_) fun _ =>
    .ite (fun hjsr hsig => ?_) fun _ hsig => ?_
  · rw [hpul] at hbit
    obtain ⟨har, hsp⟩ := h.pull ham hbit
    have hin : m₂.rfIn lpm i = m.arch.read i (m.arch.sp + 1) := by
      rw [rfIn, hsig]
      refine (dmOut_of_not_we (by rw [hsig]; rfl)).trans ?_
      rw [h.arch, har]
      rfl
    rw [arch_loadRf lpm rom h.reset hsig, hin, h.arch, hsp, h.ir]
    rfl
  · rw [hpsh] at hbit
    obtain ⟨har, hsp⟩ := h.push ham hbit
    rw [arch_store lpm rom h.reset hsig, har, h.dmIn_reg (by rw [hsig]; rfl), h.arch, hsp]
    rfl
  · rw [hret] at hbit
    obtain ⟨har, hsp⟩ := h.pull ham hbit
    have hin : m₂.pcIn i = m.arch.read i (m.arch.sp + 1) := by
      rw [pcIn, hsig]
      refine (dmOut_of_not_we (by rw [hsig]; rfl)).trans ?_
      rw [h.arch, har]
      rfl
    rw [arch_loadPc lpm rom h.reset hsig, hin, h.arch, hsp]
    rfl
  · rw [hjsr] at hbit
    obtain ⟨har, hsp⟩ := h.push ham hbit
    have hpc : m₂.pcIn i = value ir := by
      rw [pcIn, hsig, h.ir]
      rfl
    have hin : m₂.dmIn = m.arch.pc + 1 := by
      rw [dmIn, hsig]
      exact h.pc
    rw [arch_call lpm rom h.reset hsig, har, hin, hpc, h.arch, hsp]
    rfl
  · rw [arch_nothing lpm rom h.reset hsig, h.arch]
    cases hup : (opcode ir).getLsbD 7 with
    | false => rw [(h.push ham hup).2]; rfl
    | true => rw [(h.pull ham hup).2]; rfl

theorem Latched.execute_direct (ham : am (opcode ir) = Am.direct) :
    Executes lpm rom i m m₂ (executeDirect (op (opcode ir)) (defaults .T0)) (Instruction.decodeDirect ir) := by
  have hstack : am (opcode ir) ≠ Am.stack := by
    rw [ham]
    decide
  have har := h.direct ham
  unfold executeDirect Instruction.decodeDirect
  refine .ite (fun _ hsig => ?_) fun _ => .ite (fun _ hsig => ?_) fun _ => .ite (fun _ hsig => ?_) fun _ hsig => ?_
  · exact h.load lpm rom hstack hsig har
  · exact h.str lpm rom hstack hsig har (h.dmIn_reg (by rw [hsig]; rfl))
  · have hin : m₂.spIn i = m.arch.read i (value ir) := by
      rw [← har, spIn, hsig]
      refine (dmOut_of_not_we (by rw [hsig]; rfl)).trans ?_
      rw [h.arch_of_not_stack hstack]
      rfl
    rw [arch_loadSp lpm rom h.reset hsig, hin, h.arch_of_not_stack hstack]
    rfl
  · rw [arch_nothing lpm rom h.reset hsig, h.arch_of_not_stack hstack]
    rfl

theorem Latched.execute_indirect (ham : am (opcode ir) = Am.indirect) :
    Executes lpm rom i m m₂ (executeIndirect (op (opcode ir)) (defaults .T0)) (Instruction.decodeIndirect ir) := by
  have hstack : am (opcode ir) ≠ Am.stack := by
    rw [ham]
    decide
  have har := h.indirect ham
  unfold executeIndirect Instruction.decodeIndirect
  refine .ite (fun _ hsig => ?_) fun _ => .ite (fun _ hsig => ?_) fun _ => .ite (fun _ hsig => ?_) fun _ hsig => ?_
  · exact h.load lpm rom hstack hsig har
  · exact h.str lpm rom hstack hsig har (h.dmIn_reg (by rw [hsig]; rfl))
  · refine h.str lpm rom hstack hsig har ?_
    rw [dmIn, hsig, h.ir]
    rfl
  · rw [arch_nothing lpm rom h.reset hsig, h.arch_of_not_stack hstack]
    rfl

theorem Latched.ldr (ham : am (opcode ir) ≠ Am.stack) {sel : BitVec 2} (hsig : m₂.signals = (defaults .T0).loadRf sel)
    {source : Operand} (hin : m₂.rfIn lpm i = source.eval m.arch) :
    (m₂.clock lpm rom i).arch = (Instruction.ldr (rz ir) source).exec lpm i m.arch := by
  rw [arch_loadRf lpm rom h.reset hsig, hin, h.arch_of_not_stack ham, h.ir]
  rfl

theorem Latched.jmp (ham : am (opcode ir) ≠ Am.stack) {sel : BitVec 2} (hsig : m₂.signals = (defaults .T0).loadPc sel)
    {target : Operand} (hin : m₂.pcIn i = target.eval m.arch) :
    (m₂.clock lpm rom i).arch = (Instruction.jmp target).exec lpm i m.arch := by
  rw [arch_loadPc lpm rom h.reset hsig, hin, h.arch_of_not_stack ham]
  rfl

/-- The inherent and the immediate instructions, in the order of the control unit. -/
theorem Latched.execute_implicit (hstack : am (opcode ir) ≠ Am.stack) :
    Executes lpm rom i m m₂ (executeImplicit (opcode ir) m₂.ccr (defaults .T0)) (Instruction.decodeImplicit ir) := by
  have hreg : m₂.signals.aluBinSel = sely2alub → m₂.aluBin = (Operand.reg (ry ir)).eval m.arch := h.aluBin_reg
  have hvalue : m₂.signals.aluBinSel = selir2alub → m₂.aluBin = (Operand.value (value ir)).eval m.arch :=
    h.aluBin_value
  unfold executeImplicit Instruction.decodeImplicit
  repeat' refine Executes.ite (fun _ => ?_) fun _ => ?_
  all_goals intro hsig
  · refine h.ldr lpm rom hstack hsig ?_
    rw [rfIn, hsig, h.ir]
    rfl
  · have hin : m₂.spIn i = value ir := by
      rw [spIn, hsig, h.ir]
      rfl
    rw [arch_loadSp lpm rom h.reset hsig, hin, h.arch_of_not_stack hstack]
    rfl
  · refine h.jmp lpm rom hstack hsig ?_
    rw [pcIn, hsig, h.ir]
    rfl
  · refine h.jmp lpm rom hstack hsig ?_
    rw [pcIn, hsig, ryValue, h.ir, h.regs]
    rfl
  · exact h.alu lpm rom (o := .add) hstack hsig (hreg (by rw [hsig]; rfl))
  · exact h.alu lpm rom (o := .add) hstack hsig (hvalue (by rw [hsig]; rfl))
  · exact h.alu lpm rom (o := .sub) hstack hsig (hreg (by rw [hsig]; rfl))
  · exact h.alu lpm rom (o := .sub) hstack hsig (hvalue (by rw [hsig]; rfl))
  · exact h.alu lpm rom (o := .and) hstack hsig (hreg (by rw [hsig]; rfl))
  · exact h.alu lpm rom (o := .and) hstack hsig (hvalue (by rw [hsig]; rfl))
  · exact h.alu lpm rom (o := .or) hstack hsig (hreg (by rw [hsig]; rfl))
  · exact h.alu lpm rom (o := .or) hstack hsig (hvalue (by rw [hsig]; rfl))
  · exact h.alu lpm rom (o := .xor) hstack hsig (hreg (by rw [hsig]; rfl))
  · exact h.alu lpm rom (o := .xor) hstack hsig (hvalue (by rw [hsig]; rfl))
  · exact h.unary lpm rom (o := .cmp) hstack hsig
  · exact h.unary lpm rom (o := .lsh) hstack hsig
  · exact h.unary lpm rom (o := .rsh) hstack hsig
  · exact h.unary lpm rom (o := .lrt) hstack hsig
  · exact h.unary lpm rom (o := .rrt) hstack hsig
  · exact h.unary lpm rom (o := .abs) hstack hsig
  · refine h.ldr lpm rom hstack hsig ?_
    rw [rfIn, hsig, rxValue, h.ir, h.regs]
    rfl
  · exact h.clrf lpm rom hstack hsig
  · exact h.skip lpm rom (f := .c) hstack (congrArg Ccr.c h.ccr) hsig
  · exact h.skip lpm rom (f := .z) hstack (congrArg Ccr.z h.ccr) hsig
  · exact h.skip lpm rom (f := .v) hstack (congrArg Ccr.v h.ccr) hsig
  · exact h.skip lpm rom (f := .n) hstack (congrArg Ccr.n h.ccr) hsig
  · rw [arch_nothing lpm rom h.reset hsig, h.arch_of_not_stack hstack]
    rfl

theorem Latched.execute : (m₂.clock lpm rom i).arch = (Instruction.decode ir).exec lpm i m.arch := by
  have hmode : Executes lpm rom i m m₂ (decodeT2 (opcode ir) m₂.ccr) (Instruction.decode ir) := by
    unfold decodeT2 Instruction.decode
    refine .ite (fun hstack => ?_) fun hstack => .ite (fun hdirect => ?_) fun _ =>
      .ite (fun hindirect => ?_) fun _ => ?_
    · exact h.execute_stack lpm rom hstack
    · exact h.execute_direct lpm rom hdirect
    · exact h.execute_indirect lpm rom hindirect
    · exact h.execute_implicit lpm rom hstack
  exact hmode h.signals

end

/-! ### A run -/

/-- The instruction at PC, fetched with the inputs of its first clock and executed with those of its third. -/
def Arch.step (lpm : Lpm) (rom : BitVec 10 → BitVec 32) (a : Arch) (first third : Input) : Arch :=
  (Instruction.decode (a.fetch rom first)).exec lpm third a

/-- After `k` instructions. -/
def Arch.steps (lpm : Lpm) (rom : BitVec 10 → BitVec 32) (env : Nat → Input) (a : Arch) : Nat → Arch
  | 0 => a
  | k + 1 => (a.steps lpm rom env k).step lpm rom (env (3 * k)) (env (3 * k + 2))

theorem Begun.step (h : m.Begun) (i₂ : Input) (hi₀ : i₀.rstL = true) (hi₁ : i₁.rstL = true) (hi₂ : i₂.rstL = true) :
    (((m.clock lpm rom i₀).clock lpm rom i₁).clock lpm rom i₂).Begun ∧
      (((m.clock lpm rom i₀).clock lpm rom i₁).clock lpm rom i₂).arch = m.arch.step lpm rom i₀ i₂ := by
  have hlatched := h.latched lpm rom hi₀ hi₁
  exact ⟨hlatched.begun lpm rom hi₂, hlatched.execute lpm rom⟩

theorem Begun.steps (h : m.Begun) (env : Nat → Input) (hrst : ∀ t, (env t).rstL = true) (k : Nat) :
    (before lpm rom env m k).Begun ∧ (before lpm rom env m k).arch = m.arch.steps lpm rom env k := by
  induction k with
  | zero => exact ⟨h, rfl⟩
  | succ k ih =>
    obtain ⟨hbegun, harch⟩ := ih
    obtain ⟨hnext, hstep⟩ := hbegun.step lpm rom (env (3 * k + 2)) (hrst (3 * k)) (hrst (3 * k + 1)) (hrst (3 * k + 2))
    refine ⟨hnext, hstep.trans ?_⟩
    rw [harch]
    rfl

theorem Begun.starts (h : m.Begun) : m.Starts := ⟨by rw [h.reset]; rfl, h.state⟩

/-! ### Out of reset -/

/-- `rst_l` has been low, and the reset has not ended. -/
structure ResetCircuit.Resetting (r : ResetCircuit) : Prop where
  sr : r.sr = true
  enaPd : r.enaPd = false
  clrPd : r.clrPd = true
  initUp : r.initUp = true

/-- The counter goes round to 3 before the reset ends. -/
def ResetCircuit.remaining (r : ResetCircuit) : Nat := 3 - r.mrs.toNat

theorem ResetCircuit.clock_low (r : ResetCircuit) : (r.clock false).Resetting := ⟨rfl, rfl, rfl, rfl⟩

theorem ResetCircuit.Resetting.clock {r : ResetCircuit} (h : r.Resetting) :
    (r.mrs = 0b11 ∧ r.clock true = .running) ∨
      r.mrs ≠ 0b11 ∧ (r.clock true).Resetting ∧ (r.clock true).remaining + 1 = r.remaining := by
  obtain ⟨mrs, sr, enaPd, clrPd, initUp⟩ := r
  obtain ⟨hsr, henaPd, hclrPd, hinitUp⟩ := h
  dsimp only at hsr henaPd hclrPd hinitUp
  subst hsr henaPd hclrPd hinitUp
  by_cases hmrs : mrs = 0b11
  · subst hmrs
    exact .inl ⟨rfl, rfl⟩
  · refine .inr ⟨hmrs, ?_, ?_⟩
    · simp only [ResetCircuit.clock, hmrs, if_false, Bool.true_eq_false]
      exact ⟨rfl, rfl, rfl, rfl⟩
    · have hmrs' : (ResetCircuit.clock true ⟨mrs, true, false, true, true⟩).mrs = mrs + 1 := by
        simp only [ResetCircuit.clock, hmrs, if_false, if_true, Bool.true_eq_false]
      rw [remaining, remaining, hmrs']
      bv_omega

/-- What a reset makes of the programmer's state. -/
def Arch.restart (a : Arch) : Arch := { a with pc := 0x0000, sp := 0x01FF, sor := 0x0000 }

/-- A clock of the reset. -/
theorem clock_resetting (h : m.resetCircuit.Resetting) (i : Input) :
    (m.clock lpm rom i).state = .T0 ∧ (m.clock lpm rom i).pcHold = 0x0000 ∧ (m.clock lpm rom i).spHold = 0x01FF ∧
      (m.clock lpm rom i).sorHold = 0x0000 := by
  unfold clock pulseDistributor
  rw [h.initUp, h.clrPd]
  exact ⟨rfl, rfl, rfl, rfl⟩

variable {env : Nat → Input}

theorem after_shift (d : Nat) :
    after lpm rom (fun t => env (t + 1)) (m.clock lpm rom (env 0)) d = after lpm rom env m (d + 1) := by
  induction d with
  | zero => rfl
  | succ d ih => exact congrArg (fun m : MiCore => m.clock lpm rom (env (d + 1))) ih

theorem after_add (d t : Nat) :
    after lpm rom env m (d + t) = after lpm rom (fun t => env (d + t)) (after lpm rom env m d) t := by
  induction t with
  | zero => rfl
  | succ t ih => exact congrArg (fun m : MiCore => m.clock lpm rom (env (d + t))) ih

/-- Within four clocks the reset is over, and the next one fetches the instruction at 0. -/
theorem exists_begun (env : Nat → Input) (hrst : ∀ t, (env t).rstL = true) (h : m.resetCircuit.Resetting) :
    ∃ d, 1 ≤ d ∧ d ≤ m.resetCircuit.remaining + 1 ∧ (after lpm rom env m d).Begun ∧
      (after lpm rom env m d).pcHold = 0x0000 ∧ (after lpm rom env m d).spHold = 0x01FF ∧
      (after lpm rom env m d).sorHold = 0x0000 := by
  generalize hn : m.resetCircuit.remaining = n
  induction n generalizing m env with
  | zero =>
    obtain ⟨hstate, hregs⟩ := clock_resetting lpm rom h (env 0)
    have hmrs : m.resetCircuit.mrs = 0b11 := by
      unfold ResetCircuit.remaining at hn
      bv_omega
    have hreset : m.resetCircuit.clock (env 0).rstL = .running := by
      rw [hrst]
      rcases h.clock with ⟨-, hrunning⟩ | ⟨hne, -, -⟩
      · exact hrunning
      · exact absurd hmrs hne
    exact ⟨1, Nat.le_refl 1, Nat.le_refl 1, ⟨hreset, hstate⟩, hregs⟩
  | succ n ih =>
    have hreset : (m.clock lpm rom (env 0)).resetCircuit = m.resetCircuit.clock true := by
      show m.resetCircuit.clock (env 0).rstL = _
      rw [hrst]
    rcases h.clock with ⟨hmrs, -⟩ | ⟨-, hresetting, hremaining⟩
    · unfold ResetCircuit.remaining at hn
      rw [hmrs] at hn
      cases hn
    · rw [← hreset] at hresetting hremaining
      obtain ⟨d, hpos, hle, hbegun⟩ := ih (fun t => env (t + 1)) (fun t => hrst (t + 1)) hresetting (by omega)
      rw [after_shift] at hbegun
      exact ⟨d + 1, by omega, by omega, hbegun⟩

/-- Out of any reset the MiCore executes its program. After a clock with `rst_l` low, in any run from power-on, and with
`rst_l` high from then on, an instruction starts within four clocks at address 0, with SP at the end of the lower half
of the internal RAM; and from there every three clocks execute one instruction, in one step of the instruction set. -/
theorem executes_program (lpm : Lpm) (rom : BitVec 10 → BitVec 32) (m₀ : MiCore) (is : List Input) (i : Input)
    (hlow : i.rstL = false) (env : Nat → Input) (hrst : ∀ t, (env t).rstL = true) :
    ∃ (d : Nat) (a₀ : Arch), 1 ≤ d ∧ d ≤ 4 ∧ a₀.pc = 0x0000 ∧ a₀.sp = 0x01FF ∧ a₀.sor = 0x0000 ∧ ∀ k,
      (after lpm rom env ((machine lpm rom m₀).run (is ++ [i])) (d + 3 * k)).Starts ∧
        (after lpm rom env ((machine lpm rom m₀).run (is ++ [i])) (d + 3 * k)).arch =
          a₀.steps lpm rom (fun t => env (d + t)) k := by
  have hresetting : ((machine lpm rom m₀).run (is ++ [i])).resetCircuit.Resetting := by
    rw [Machine.run_concat]
    show (ResetCircuit.clock i.rstL _).Resetting
    rw [hlow]
    exact ResetCircuit.clock_low _
  obtain ⟨d, hpos, hle, hbegun, hpc, hsp, hsor⟩ := exists_begun lpm rom env hrst hresetting
  refine ⟨d, (after lpm rom env ((machine lpm rom m₀).run (is ++ [i])) d).arch, hpos, ?_, hpc, hsp, hsor, fun k => ?_⟩
  · unfold ResetCircuit.remaining at hle
    omega
  · obtain ⟨hstart, harch⟩ := hbegun.steps lpm rom (fun t => env (d + t)) (fun t => hrst (d + t)) k
    rw [after_add]
    exact ⟨hstart.starts, harch⟩

/-- After a reset the program of the example is in its subroutine with the second instruction. -/
theorem executes_program_example :
    ∃ d ≤ 4, (after exampleLpm exampleRom (fun _ => exampleInput true)
      ((machine exampleLpm exampleRom examplePowerOn).run ([] ++ [exampleInput false])) (d + 3)).pcHold = 4 := by
  obtain ⟨d, a₀, -, hd, hpc, -, -, hrun⟩ := executes_program exampleLpm exampleRom examplePowerOn []
    (exampleInput false) rfl (fun _ => exampleInput true) (fun _ => rfl)
  have harch := congrArg Arch.pc (hrun 1).2
  refine ⟨d, hd, harch.trans ?_⟩
  show (Arch.step exampleLpm exampleRom a₀ (exampleInput true) (exampleInput true)).pc = 4
  have hfetch : a₀.fetch exampleRom (exampleInput true) = exampleRom 0 := by
    unfold Arch.fetch
    rw [hpc]
    rfl
  have hdecode : Instruction.decode (exampleRom 0) = .jsr 4 := by decide +kernel
  rw [Arch.step, hfetch, hdecode]
  rfl

end MiCore
end TdmaSoc
