import TdmaSoc.Lib.Nesting
import TdmaSoc.MiCore.Datapath

/-!
# The stack

Calls and pushes store at SP and decrement it, returns and pulls increment it and load from there. All of them
split the work: `T1` moves the address and SP, `T2` does the access. `Begun.push` and `Begun.pull` are what an
instruction does as a whole; the cells from SP + 1 up to the end of the internal RAM are then a stack in the
sense of `Grows` (`grows`), whose free cells are those up to SP.
-/

namespace TdmaSoc
namespace MiCore
open Signals

/-! ### Out of reset -/

namespace ResetCircuit

def running : ResetCircuit := ⟨0b11, false, true, false, false⟩

theorem clock_running : running.clock true = running := rfl

theorem running_of_clock {r : ResetCircuit} (h : r.enaPd = true → r = running) (rstL : Bool)
    (hena : (r.clock rstL).enaPd = true) : r.clock rstL = running := by
  obtain ⟨mrs, sr, enaPd, clrPd, initUp⟩ := r
  revert mrs sr enaPd clrPd initUp rstL
  decide

end ResetCircuit

/-- The first clock of an instruction, with the reset over. -/
structure Begun (m : MiCore) : Prop where
  reset : m.resetCircuit = .running
  state : m.state = .T0

variable {lpm : Lpm} {rom : BitVec 10 → BitVec 32}

theorem begun_of_starts {m₀ : MiCore} (h₀ : m₀.PowerOn) (is : List Input)
    (h : ((machine lpm rom m₀).run is).Starts) : ((machine lpm rom m₀).run is).Begun := by
  have hreset : ∀ is, ((machine lpm rom m₀).run is).resetCircuit.enaPd = true →
      ((machine lpm rom m₀).run is).resetCircuit = .running := by
    refine Machine.always (fun hena => ?_) fun m i hm => ResetCircuit.running_of_clock hm i.rstL
    rw [show (machine lpm rom m₀).init = m₀ from rfl, h₀.1] at hena
    cases hena
  exact ⟨hreset is h.1, h.2⟩

/-! ### One instruction -/

variable {m : MiCore} {i i₀ i₁ : Input}

theorem clock_pcHold (h : m.resetCircuit = .running) :
    (m.clock lpm rom i).pcHold = if m.signals.ldPc then m.pcIn i else m.pcHold := by
  unfold clock
  rw [h]
  rfl

theorem clock_spHold (h : m.resetCircuit = .running) :
    (m.clock lpm rom i).spHold = if m.signals.ldSp then m.spIn i else m.spHold := by
  unfold clock
  rw [h]
  rfl

theorem clock_state (h : m.resetCircuit = .running) : (m.clock lpm rom i).state = m.signals.nextState := by
  unfold clock
  rw [h]
  rfl

theorem clock_reset (h : m.resetCircuit = .running) (hi : i.rstL = true) :
    (m.clock lpm rom i).resetCircuit = .running := by
  show m.resetCircuit.clock i.rstL = _
  rw [h, hi, ResetCircuit.clock_running]

theorem clock_cells_of_not_we (h : m.signals.we = false) : (m.clock lpm rom i).intRam.cells = m.intRam.cells := by
  show (if m.signals.we then _ else _) = _
  rw [h]
  rfl

theorem clock_cells_of_we (h : m.signals.we = true) :
    (m.clock lpm rom i).intRam.cells = Function.update m.intRam.cells (m.arHold.slice 0 10) m.dmIn := by
  show (if m.signals.we then _ else _) = _
  rw [h]
  rfl

/-- `T1` only moves the address and SP. -/
theorem decodeT1_frame (opcode : BitVec 11) :
    (decodeT1 opcode).nextState = .T2 ∧ (decodeT1 opcode).ldPc = false ∧ (decodeT1 opcode).ldIr = false ∧
      (decodeT1 opcode).ldRf = false ∧ (decodeT1 opcode).we = false := by
  unfold decodeT1
  dsimp only
  split
  · split <;> exact ⟨rfl, rfl, rfl, rfl, rfl⟩
  · split
    · exact ⟨rfl, rfl, rfl, rfl, rfl⟩
    · split <;> exact ⟨rfl, rfl, rfl, rfl, rfl⟩

theorem decodeT2_nextState (opcode : BitVec 11) (cc : Ccr) : (decodeT2 opcode cc).nextState = .T0 := by
  unfold decodeT2 executeStack executeDirect executeIndirect executeImplicit
  dsimp only
  repeat' refine iteInduction (motive := fun s : Signals => s.nextState = .T0) (fun _ => ?_) fun _ => ?_
  all_goals rfl

/-- The instruction `ir`, begun in `m`, has come to `T2`. -/
structure Decoded (m : MiCore) (ir : BitVec 32) (m₂ : MiCore) : Prop where
  reset : m₂.resetCircuit = .running
  state : m₂.state = .T2
  ir : m₂.irHold = ir
  pc : m₂.pcHold = m.pcHold + 1
  regs : m₂.regs = m.regs
  cells : m₂.intRam.cells = m.intRam.cells

variable (lpm rom)

/-- The state in `T1`. -/
theorem Begun.fetched (h : m.Begun) (hi : i.rstL = true) :
    (m.clock lpm rom i).resetCircuit = .running ∧
      (m.clock lpm rom i).signals = decodeT1 (opcode (m.pmOut rom i)) ∧
      (m.clock lpm rom i).irHold = m.pmOut rom i ∧ (m.clock lpm rom i).pcHold = m.pcHold + 1 ∧
      (m.clock lpm rom i).spHold = m.spHold ∧ (m.clock lpm rom i).regs = m.regs ∧
      (m.clock lpm rom i).intRam.cells = m.intRam.cells := by
  have hsig : m.signals = decodeT0 := by
    unfold signals
    rw [h.state]
    rfl
  have hir : (m.clock lpm rom i).irHold = m.pmOut rom i := by
    show (if m.signals.ldIr then _ else _) = _
    rw [hsig]
    rfl
  refine ⟨clock_reset h.reset hi, ?_, hir, ?_, ?_, ?_, ?_⟩
  · unfold signals
    rw [clock_state h.reset, hsig, hir]
    rfl
  · rw [clock_pcHold h.reset, pcIn, hsig]
    rfl
  · rw [clock_spHold h.reset, hsig]
    rfl
  · show (if m.signals.ldRf then _ else _) = _
    rw [hsig]
    rfl
  · exact clock_cells_of_not_we (by rw [hsig]; rfl)

theorem Begun.decoded (h : m.Begun) (hi₀ : i₀.rstL = true) (hi₁ : i₁.rstL = true) :
    Decoded m (m.pmOut rom i₀) ((m.clock lpm rom i₀).clock lpm rom i₁) := by
  obtain ⟨hreset, hsig, hir, hpc, -, hregs, hcells⟩ := h.fetched lpm rom hi₀
  obtain ⟨hnext, hldPc, hldIr, hldRf, hwe⟩ := decodeT1_frame (opcode (m.pmOut rom i₀))
  rw [← hsig] at hnext hldPc hldIr hldRf hwe
  refine ⟨clock_reset hreset hi₁, ?_, ?_, ?_, ?_, ?_⟩
  · rw [clock_state hreset, hnext]
  · show (if (m.clock lpm rom i₀).signals.ldIr then _ else _) = _
    rw [hldIr, ← hir]
    rfl
  · rw [clock_pcHold hreset, hldPc, ← hpc]
    rfl
  · show (if (m.clock lpm rom i₀).signals.ldRf then _ else _) = _
    rw [hldRf, ← hregs]
    rfl
  · rw [clock_cells_of_not_we hwe, hcells]

theorem Decoded.signals {ir : BitVec 32} {m₂ : MiCore} (h : Decoded m ir m₂) :
    m₂.signals = decodeT2 (opcode ir) m₂.ccr := by
  unfold MiCore.signals
  rw [h.state, h.ir]
  rfl

theorem Decoded.signals_stack {ir : BitVec 32} {m₂ : MiCore} (h : Decoded m ir m₂) (ham : am (opcode ir) = Am.stack)
    {o : BitVec 5} (hop : op (opcode ir) = o) : m₂.signals = executeStack o (defaults .T0) := by
  rw [h.signals, decodeT2, if_pos ham, hop]

theorem Decoded.begun {ir : BitVec 32} {m₂ : MiCore} (h : Decoded m ir m₂) (hi : i.rstL = true) :
    (m₂.clock lpm rom i).Begun :=
  ⟨clock_reset h.reset hi, by rw [clock_state h.reset, h.signals, decodeT2_nextState]⟩

/-! ### What the instructions do to the stack -/

inductive Pairing | value | call
deriving DecidableEq, Repr

/-- The control unit neither writes to the data memory nor loads SP for the opcode. -/
def Quiet (opcode : BitVec 11) : Prop :=
  ∀ (state : StateType) (c z v n : Bool),
    (opdec state opcode ⟨c, z, v, n⟩).we = false ∧ (opdec state opcode ⟨c, z, v, n⟩).ldSp = false

instance (opcode : BitVec 11) : Decidable (Quiet opcode) :=
  inferInstanceAs (Decidable (∀ (_ : StateType) (_ _ _ _ : Bool), _))

/-- An instruction's part in the nesting; the others that load SP or write to the data memory have none. -/
def letter (ir : BitVec 32) : Option (Letter Pairing) :=
  if am (opcode ir) = Am.stack ∧ op (opcode ir) = Op.psh then some (.opening .value)
  else if am (opcode ir) = Am.stack ∧ op (opcode ir) = Op.pul then some (.closing .value)
  else if am (opcode ir) = Am.stack ∧ op (opcode ir) = Op.jsr then some (.opening .call)
  else if am (opcode ir) = Am.stack ∧ op (opcode ir) = Op.ret then some (.closing .call)
  else if Quiet (opcode ir) then some .plain
  else none

variable {ir : BitVec 32}

theorem letter_cases {l : Letter Pairing} (h : letter ir = some l) :
    (am (opcode ir) = Am.stack ∧
        (op (opcode ir) = Op.psh ∧ l = .opening .value ∨ op (opcode ir) = Op.pul ∧ l = .closing .value ∨
          op (opcode ir) = Op.jsr ∧ l = .opening .call ∨ op (opcode ir) = Op.ret ∧ l = .closing .call)) ∨
      Quiet (opcode ir) ∧ l = .plain := by
  unfold letter at h
  split at h
  case isTrue hop => cases h; exact .inl ⟨hop.1, .inl ⟨hop.2, rfl⟩⟩
  split at h
  case isTrue hop => cases h; exact .inl ⟨hop.1, .inr (.inl ⟨hop.2, rfl⟩)⟩
  split at h
  case isTrue hop => cases h; exact .inl ⟨hop.1, .inr (.inr (.inl ⟨hop.2, rfl⟩))⟩
  split at h
  case isTrue hop => cases h; exact .inl ⟨hop.1, .inr (.inr (.inr ⟨hop.2, rfl⟩))⟩
  split at h
  case isTrue hquiet => cases h; exact .inr ⟨hquiet, rfl⟩
  case isFalse => cases h

theorem letter_eq_opening {x : Pairing} (h : letter ir = some (.opening x)) :
    am (opcode ir) = Am.stack ∧ (op (opcode ir) = Op.psh ∧ x = .value ∨ op (opcode ir) = Op.jsr ∧ x = .call) := by
  rcases letter_cases h with ⟨ham, ⟨hop, hl⟩ | ⟨-, hl⟩ | ⟨hop, hl⟩ | ⟨-, hl⟩⟩ | ⟨-, hl⟩ <;> cases hl
  · exact ⟨ham, .inl ⟨hop, rfl⟩⟩
  · exact ⟨ham, .inr ⟨hop, rfl⟩⟩

theorem letter_eq_closing {x : Pairing} (h : letter ir = some (.closing x)) :
    am (opcode ir) = Am.stack ∧ (op (opcode ir) = Op.pul ∧ x = .value ∨ op (opcode ir) = Op.ret ∧ x = .call) := by
  rcases letter_cases h with ⟨ham, ⟨-, hl⟩ | ⟨hop, hl⟩ | ⟨-, hl⟩ | ⟨hop, hl⟩⟩ | ⟨-, hl⟩ <;> cases hl
  · exact ⟨ham, .inl ⟨hop, rfl⟩⟩
  · exact ⟨ham, .inr ⟨hop, rfl⟩⟩

theorem letter_eq_plain (h : letter ir = some .plain) : Quiet (opcode ir) := by
  rcases letter_cases h with ⟨-, ⟨-, hl⟩ | ⟨-, hl⟩ | ⟨-, hl⟩ | ⟨-, hl⟩⟩ | ⟨hquiet, hl⟩ <;> cases hl
  exact hquiet

/-- `opcode(7)` tells the two directions apart. -/
theorem getLsbD_seven (opcode : BitVec 11) : opcode.getLsbD 7 = (op opcode).getLsbD 3 := by
  unfold op
  rw [BitVec.getLsbD_slice]
  rfl

/-- `T1` of a push or a call. -/
theorem Begun.push_T1 (h : m.Begun) (i₁ : Input) (hi₀ : i₀.rstL = true) {x : Pairing}
    (hletter : letter (m.pmOut rom i₀) = some (.opening x)) :
    ((m.clock lpm rom i₀).clock lpm rom i₁).arHold = m.spHold ∧
      ((m.clock lpm rom i₀).clock lpm rom i₁).spHold = m.spHold - 1 := by
  obtain ⟨hreset, hsig, -, -, hsp, -, -⟩ := h.fetched lpm rom hi₀
  obtain ⟨ham, hop⟩ := letter_eq_opening hletter
  have hbit : (opcode (m.pmOut rom i₀)).getLsbD 7 = false := by
    rw [getLsbD_seven]
    rcases hop with ⟨hop, -⟩ | ⟨hop, -⟩ <;> rw [hop] <;> rfl
  have hpush : (m.clock lpm rom i₀).signals =
      { ((defaults .T2).loadSp selspop2sp).loadAr selsp2adr with spOpSel := decSp } := by
    rw [hsig, decodeT1, if_pos ham, if_pos hbit]
  constructor
  · show (if (m.clock lpm rom i₀).signals.ldAr then (m.clock lpm rom i₀).dmAdr else _) = _
    unfold dmAdr
    rw [hpush, ← hsp]
    rfl
  · rw [clock_spHold hreset, spIn, spOpOut, hpush, ← hsp]
    rfl

/-- `T1` of a pull or a return. -/
theorem Begun.pull_T1 (h : m.Begun) (i₁ : Input) (hi₀ : i₀.rstL = true) {x : Pairing}
    (hletter : letter (m.pmOut rom i₀) = some (.closing x)) :
    ((m.clock lpm rom i₀).clock lpm rom i₁).arHold = m.spHold + 1 ∧
      ((m.clock lpm rom i₀).clock lpm rom i₁).spHold = m.spHold + 1 := by
  obtain ⟨hreset, hsig, -, -, hsp, -, -⟩ := h.fetched lpm rom hi₀
  obtain ⟨ham, hop⟩ := letter_eq_closing hletter
  have hbit : ¬ (opcode (m.pmOut rom i₀)).getLsbD 7 = false := by
    rw [getLsbD_seven]
    rcases hop with ⟨hop, -⟩ | ⟨hop, -⟩ <;> rw [hop] <;> decide
  have hpull : (m.clock lpm rom i₀).signals =
      { ((defaults .T2).loadSp selspop2sp).loadAr selspop2adr with spOpSel := incSp } := by
    rw [hsig, decodeT1, if_pos ham, if_neg hbit]
  constructor
  · show (if (m.clock lpm rom i₀).signals.ldAr then (m.clock lpm rom i₀).dmAdr else _) = _
    unfold dmAdr spOpOut
    rw [hpull, ← hsp]
    rfl
  · rw [clock_spHold hreset, spIn, spOpOut, hpull, ← hsp]
    rfl

/-- The word that a push or a call stores. -/
def pushed (m : MiCore) (ir : BitVec 32) : BitVec 16 :=
  if op (opcode ir) = Op.jsr then m.pcHold + 1 else m.regs (rx ir)

theorem pushed_value (h : letter ir = some (.opening .value)) : m.pushed ir = m.regs (rx ir) := by
  obtain ⟨-, ⟨hop, -⟩ | ⟨-, hx⟩⟩ := letter_eq_opening h
  · unfold pushed
    rw [hop]
    rfl
  · cases hx

theorem pushed_call (h : letter ir = some (.opening .call)) : m.pushed ir = m.pcHold + 1 := by
  obtain ⟨-, ⟨-, hx⟩ | ⟨hop, -⟩⟩ := letter_eq_opening h
  · cases hx
  · unfold pushed
    rw [if_pos hop]

theorem Begun.opening (h : m.Begun) (i₂ : Input) (hi₀ : i₀.rstL = true) (hi₁ : i₁.rstL = true) {x : Pairing}
    (hletter : letter (m.pmOut rom i₀) = some (.opening x)) :
    (((m.clock lpm rom i₀).clock lpm rom i₁).clock lpm rom i₂).spHold = m.spHold - 1 ∧
      (((m.clock lpm rom i₀).clock lpm rom i₁).clock lpm rom i₂).intRam.cells =
        Function.update m.intRam.cells (m.spHold.slice 0 10) (m.pushed (m.pmOut rom i₀)) := by
  have hd := h.decoded lpm rom hi₀ hi₁
  obtain ⟨har, hsp⟩ := h.push_T1 lpm rom i₁ hi₀ hletter
  obtain ⟨ham, hop⟩ := letter_eq_opening hletter
  generalize (m.clock lpm rom i₀).clock lpm rom i₁ = m₂ at hd har hsp ⊢
  rcases hop with ⟨hop, -⟩ | ⟨hop, -⟩
  · have hsig : m₂.signals = (defaults .T0).store selrx2dm := hd.signals_stack ham hop
    constructor
    · rw [clock_spHold hd.reset, hsig, ← hsp]
      rfl
    · rw [clock_cells_of_we (by rw [hsig]; rfl), hd.cells, har, dmIn, hsig, pushed, hop, rxValue, hd.regs, hd.ir]
      rfl
  · have hsig : m₂.signals = ((defaults .T0).store selpc2dm).loadPc selir2pc := hd.signals_stack ham hop
    constructor
    · rw [clock_spHold hd.reset, hsig, ← hsp]
      rfl
    · rw [clock_cells_of_we (by rw [hsig]; rfl), hd.cells, har, dmIn, hsig, pushed, hop, hd.pc]
      rfl

theorem Begun.closing (h : m.Begun) (i₂ : Input) (hi₀ : i₀.rstL = true) (hi₁ : i₁.rstL = true) {x : Pairing}
    (hletter : letter (m.pmOut rom i₀) = some (.closing x)) :
    (((m.clock lpm rom i₀).clock lpm rom i₁).clock lpm rom i₂).spHold = m.spHold + 1 ∧
      (((m.clock lpm rom i₀).clock lpm rom i₁).clock lpm rom i₂).intRam.cells = m.intRam.cells := by
  have hd := h.decoded lpm rom hi₀ hi₁
  obtain ⟨har, hsp⟩ := h.pull_T1 lpm rom i₁ hi₀ hletter
  obtain ⟨ham, hop⟩ := letter_eq_closing hletter
  generalize (m.clock lpm rom i₀).clock lpm rom i₁ = m₂ at hd har hsp ⊢
  have hsig : m₂.signals = (defaults .T0).loadRf seldm2rf ∨ m₂.signals = (defaults .T0).loadPc seldm2pc := by
    rcases hop with ⟨hop, -⟩ | ⟨hop, -⟩
    · exact .inl (hd.signals_stack ham hop)
    · exact .inr (hd.signals_stack ham hop)
  rcases hsig with hsig | hsig
  all_goals
    constructor
    · rw [clock_spHold hd.reset, hsig, ← hsp]
      rfl
    · rw [clock_cells_of_not_we (by rw [hsig]; rfl), hd.cells]

theorem Begun.plain (h : m.Begun) (i₂ : Input) (hi₀ : i₀.rstL = true) (hi₁ : i₁.rstL = true)
    (hletter : letter (m.pmOut rom i₀) = some .plain) :
    (((m.clock lpm rom i₀).clock lpm rom i₁).clock lpm rom i₂).spHold = m.spHold ∧
      (((m.clock lpm rom i₀).clock lpm rom i₁).clock lpm rom i₂).intRam.cells = m.intRam.cells := by
  have hd := h.decoded lpm rom hi₀ hi₁
  have hquiet := letter_eq_plain hletter
  obtain ⟨hreset, hsig₁, -, -, hsp, -, -⟩ := h.fetched lpm rom hi₀
  have hldSp₁ : (decodeT1 (opcode (m.pmOut rom i₀))).ldSp = false := (hquiet .T1 false false false false).2
  have hsp₂ : ((m.clock lpm rom i₀).clock lpm rom i₁).spHold = m.spHold := by
    rw [clock_spHold hreset, hsig₁, hldSp₁, ← hsp]
    rfl
  generalize (m.clock lpm rom i₀).clock lpm rom i₁ = m₂ at hd hsp₂ ⊢
  obtain ⟨hwe, hldSp⟩ : m₂.signals.we = false ∧ m₂.signals.ldSp = false := by
    rw [hd.signals]
    exact hquiet .T2 m₂.ccr.c m₂.ccr.z m₂.ccr.v m₂.ccr.n
  constructor
  · rw [clock_spHold hd.reset, hldSp, ← hsp₂]
    rfl
  · rw [clock_cells_of_not_we hwe, hd.cells]

theorem slice_high_of_lt {a : BitVec 16} (h : a.toNat < 0x400) : a.slice 10 6 = 0b000000 := by
  apply BitVec.eq_of_toNat_eq
  simp [BitVec.slice, Nat.shiftRight_eq_div_pow]
  omega

/-- In `T2` a pull or a return reads the cell at the address that SP has been moved to. -/
theorem Begun.loads (h : m.Begun) (i₂ : Input) (hi₀ : i₀.rstL = true) (hi₁ : i₁.rstL = true) {x : Pairing}
    (hletter : letter (m.pmOut rom i₀) = some (.closing x)) (hram : (m.spHold + 1).toNat < 0x400) :
    ((m.clock lpm rom i₀).clock lpm rom i₁).dmOut i₂ = m.intRam.cells ((m.spHold + 1).slice 0 10) := by
  have hd := h.decoded lpm rom hi₀ hi₁
  obtain ⟨har, -⟩ := h.pull_T1 lpm rom i₁ hi₀ hletter
  obtain ⟨ham, hop⟩ := letter_eq_closing hletter
  generalize (m.clock lpm rom i₀).clock lpm rom i₁ = m₂ at hd har ⊢
  have hwe : m₂.signals.we = false := by
    rcases hop with ⟨hop, -⟩ | ⟨hop, -⟩ <;> rw [hd.signals_stack ham hop] <;> rfl
  rw [dmOut, har, if_pos (slice_high_of_lt hram), fallen, hwe, har, ← hd.cells]
  rfl

theorem Begun.pul (h : m.Begun) (i₂ : Input) (hi₀ : i₀.rstL = true) (hi₁ : i₁.rstL = true)
    (hletter : letter (m.pmOut rom i₀) = some (.closing .value)) (hram : (m.spHold + 1).toNat < 0x400) :
    (((m.clock lpm rom i₀).clock lpm rom i₁).clock lpm rom i₂).regs (rz (m.pmOut rom i₀)) =
      m.intRam.cells ((m.spHold + 1).slice 0 10) := by
  have hd := h.decoded lpm rom hi₀ hi₁
  have hload := h.loads lpm rom i₂ hi₀ hi₁ hletter hram
  generalize (m.clock lpm rom i₀).clock lpm rom i₁ = m₂ at hd hload ⊢
  have hsig : m₂.signals = (defaults .T0).loadRf seldm2rf := by
    obtain ⟨ham, ⟨hop, -⟩ | ⟨-, hx⟩⟩ := letter_eq_closing hletter
    · exact hd.signals_stack ham hop
    · cases hx
  show (if m₂.signals.ldRf then Function.update m₂.regs (rz m₂.irHold) (m₂.rfIn lpm i₂) else _) _ = _
  rw [rfIn, hsig, ← hload, hd.ir]
  exact Function.update_self ..

theorem Begun.ret (h : m.Begun) (i₂ : Input) (hi₀ : i₀.rstL = true) (hi₁ : i₁.rstL = true)
    (hletter : letter (m.pmOut rom i₀) = some (.closing .call)) (hram : (m.spHold + 1).toNat < 0x400) :
    (((m.clock lpm rom i₀).clock lpm rom i₁).clock lpm rom i₂).pcHold =
      m.intRam.cells ((m.spHold + 1).slice 0 10) := by
  have hd := h.decoded lpm rom hi₀ hi₁
  have hload := h.loads lpm rom i₂ hi₀ hi₁ hletter hram
  generalize (m.clock lpm rom i₀).clock lpm rom i₁ = m₂ at hd hload ⊢
  have hsig : m₂.signals = (defaults .T0).loadPc seldm2pc := by
    obtain ⟨ham, ⟨-, hx⟩ | ⟨hop, -⟩⟩ := letter_eq_closing hletter
    · cases hx
    · exact hd.signals_stack ham hop
  rw [clock_pcHold hd.reset, pcIn, hsig, ← hload]
  rfl

/-! ### A run -/

/-- The state after `t` clocks. -/
def after (lpm : Lpm) (rom : BitVec 10 → BitVec 32) (env : Nat → Input) (m : MiCore) : Nat → MiCore
  | 0 => m
  | t + 1 => (after lpm rom env m t).clock lpm rom (env t)

/-- The state before instruction `k`. -/
def before (lpm : Lpm) (rom : BitVec 10 → BitVec 32) (env : Nat → Input) (m : MiCore) (k : Nat) : MiCore :=
  after lpm rom env m (3 * k)

/-- Instruction `k`, as it is in the instruction register once it has been fetched. -/
def executed (lpm : Lpm) (rom : BitVec 10 → BitVec 32) (env : Nat → Input) (m : MiCore) (k : Nat) : BitVec 32 :=
  (after lpm rom env m (3 * k + 1)).irHold

/-- The free cells of the internal RAM: those up to SP. -/
def free (m : MiCore) : Nat := (m.spHold + 1).toNat

def cell (m : MiCore) (q : Nat) : BitVec 16 := m.intRam.cells (BitVec.ofNat 10 q)

section
variable {env : Nat → Input} {n : Nat} (hm : m.Begun) (hrst : ∀ t < 3 * n, (env t).rstL = true)
include hm hrst

theorem begun_before {k : Nat} (hk : k ≤ n) : (before lpm rom env m k).Begun := by
  induction k with
  | zero => exact hm
  | succ k ih =>
    have hd := (ih (by omega)).decoded lpm rom (hrst (3 * k) (by omega))
      (hrst (3 * k + 1) (by omega))
    exact hd.begun lpm rom (hrst (3 * k + 2) (by omega))

theorem executed_eq {k : Nat} (hk : k < n) :
    executed lpm rom env m k = (before lpm rom env m k).pmOut rom (env (3 * k)) := by
  have hbegun := begun_before lpm rom hm hrst (Nat.le_of_lt hk)
  exact (hbegun.fetched lpm rom (hrst (3 * k) (by omega))).2.2.1

end

theorem slice_toNat (a : BitVec 16) : a.slice 0 10 = BitVec.ofNat 10 a.toNat := by
  apply BitVec.eq_of_toNat_eq
  simp [BitVec.slice]

theorem ofNat_ne {p q : Nat} (hp : p < 0x400) (hq : q < 0x400) (h : q ≠ p) : BitVec.ofNat 10 q ≠ BitVec.ofNat 10 p := by
  intro heq
  have := congrArg BitVec.toNat heq
  simp at this
  omega

/-- The instructions of a run work on the stack as the letters say. -/
theorem grows {env : Nat → Input} {n : Nat} (hm : m.Begun) (hrst : ∀ t < 3 * n, (env t).rstL = true) :
    Grows (fun k => letter (executed lpm rom env m k)) n 0x400 (fun k => (before lpm rom env m k).free)
      (fun k => (before lpm rom env m k).cell)
      (fun k => (before lpm rom env m k).pushed (executed lpm rom env m k)) where
  plain k hk hletter := by
    have hbegun := begun_before lpm rom hm hrst (Nat.le_of_lt hk)
    rw [executed_eq lpm rom hm hrst hk] at hletter
    obtain ⟨hsp, hcells⟩ := hbegun.plain lpm rom (env (3 * k + 2))
      (hrst (3 * k) (by omega)) (hrst (3 * k + 1) (by omega)) hletter
    exact ⟨congrArg (fun sp : BitVec 16 => (sp + 1).toNat) hsp, fun q _ => congrFun hcells _⟩
  opening k hk x p hletter hfree hp := by
    have hbegun := begun_before lpm rom hm hrst (Nat.le_of_lt hk)
    rw [executed_eq lpm rom hm hrst hk] at hletter ⊢
    obtain ⟨hsp, hcells⟩ := hbegun.opening lpm rom (env (3 * k + 2))
      (hrst (3 * k) (by omega)) (hrst (3 * k + 1) (by omega)) hletter
    have hpsp : (before lpm rom env m k).spHold.toNat = p := by
      unfold free at hfree
      bv_omega
    rw [slice_toNat, hpsp] at hcells
    refine ⟨?_, ?_, fun q hq hne => ?_⟩
    · show (_ + 1 : BitVec 16).toNat = p
      rw [show (before lpm rom env m (k + 1)).spHold = _ from hsp, BitVec.sub_add_cancel, hpsp]
    · show (before lpm rom env m (k + 1)).intRam.cells _ = _
      rw [show (before lpm rom env m (k + 1)).intRam.cells = _ from hcells, Function.update_self]
    · show (before lpm rom env m (k + 1)).intRam.cells _ = _
      rw [show (before lpm rom env m (k + 1)).intRam.cells = _ from hcells,
        Function.update_of_ne (ofNat_ne hp hq hne)]
      rfl
  closing k hk x hletter hfree := by
    have hbegun := begun_before lpm rom hm hrst (Nat.le_of_lt hk)
    rw [executed_eq lpm rom hm hrst hk] at hletter
    obtain ⟨hsp, hcells⟩ := hbegun.closing lpm rom (env (3 * k + 2))
      (hrst (3 * k) (by omega)) (hrst (3 * k + 1) (by omega)) hletter
    refine ⟨?_, fun q _ => congrFun hcells _⟩
    show (_ + 1 : BitVec 16).toNat = _
    rw [show (before lpm rom env m (k + 1)).spHold = _ from hsp]
    unfold free at hfree ⊢
    bv_omega

variable {lpm rom}

/-- States that the processor comes to from power-on. -/
def Reachable (lpm : Lpm) (rom : BitVec 10 → BitVec 32) (m : MiCore) : Prop :=
  ∃ (m₀ : MiCore) (is : List Input), m₀.PowerOn ∧ m = (machine lpm rom m₀).run is

theorem Reachable.begun (h : Reachable lpm rom m) (hstart : m.Starts) : m.Begun := by
  obtain ⟨m₀, is, h₀, rfl⟩ := h
  exact begun_of_starts h₀ is hstart

/-- Pushes, pulls, calls and returns nest. From any reachable state at the start of an instruction, with SP in the
internal RAM, `n` instructions that are nested brackets, no deeper than there are cells up to SP, leave SP as it
was; among them each `PUL` loads the word of the `PSH` that is its partner, and each `RET` goes on with the word
after its `JSR`. -/
theorem stack_nests (lpm : Lpm) (rom : BitVec 10 → BitVec 32) (env : Nat → Input) (n : Nat)
    (hreach : Reachable lpm rom m) (hstart : m.Starts) (hrst : ∀ t < 3 * n, (env t).rstL = true)
    (hs : m.spHold.toNat ≤ 0x3FF)
    (hnest : Nested (fun k => letter (executed lpm rom env m k)) (m.spHold.toNat + 1) 0 n) :
    (before lpm rom env m n).spHold = m.spHold ∧
      (∀ j < n, letter (executed lpm rom env m j) = some (.closing .value) →
        ∃ i < j, Partners (fun k => letter (executed lpm rom env m k)) i j ∧
          (before lpm rom env m (j + 1)).regs (rz (executed lpm rom env m j)) =
            (before lpm rom env m i).regs (rx (executed lpm rom env m i))) ∧
      (∀ j < n, letter (executed lpm rom env m j) = some (.closing .call) →
        ∃ i < j, Partners (fun k => letter (executed lpm rom env m k)) i j ∧
          (before lpm rom env m (j + 1)).pcHold = (before lpm rom env m i).pcHold + 1) := by
  have hbegun := hreach.begun hstart
  have hgrows := grows lpm rom hbegun hrst
  have hfree : m.free = m.spHold.toNat + 1 := by
    unfold free
    bv_omega
  have hcap : m.free ≤ 0x400 := by omega
  have hd : m.spHold.toNat + 1 ≤ m.free := by omega
  refine ⟨?_, fun j hj hletter => ?_, fun j hj hletter => ?_⟩
  · obtain ⟨hend, -⟩ := hgrows.frame hnest (Nat.le_refl n) hd hcap
    have hend : ((before lpm rom env m n).spHold + 1).toNat = (m.spHold + 1).toNat := hend
    bv_omega
  all_goals
    obtain ⟨i, -, hij, hopen, hpartners, hram, hword⟩ :=
      hgrows.partner hnest (Nat.le_refl n) hd hcap (Nat.zero_le j) hj hletter
    have hj' := begun_before lpm rom hbegun hrst (Nat.le_of_lt hj)
    have hi₀ := hrst (3 * j) (by omega)
    have hi₁ := hrst (3 * j + 1) (by omega)
    unfold cell free at hword
    rw [← slice_toNat] at hword
    refine ⟨i, hij, hpartners, ?_⟩
  · rw [executed_eq lpm rom hbegun hrst hj] at hletter ⊢
    have hload := hj'.pul lpm rom (env (3 * j + 2)) hi₀ hi₁ hletter hram
    exact hload.trans (hword.trans (pushed_value hopen))
  · rw [executed_eq lpm rom hbegun hrst hj] at hletter
    have hload := hj'.ret lpm rom (env (3 * j + 2)) hi₀ hi₁ hletter hram
    exact hload.trans (hword.trans (pushed_call hopen))

/-- `JSR $4`, and from there on `PSH R1`, `CLRF`, `PUL R2`, `RET`. -/
def exampleRom (a : BitVec 10) : BitVec 32 :=
  if a = 0 then Am.stack ++ Op.jsr ++ 4#16 ++ 0#9
  else if a = 4 then Am.stack ++ Op.psh ++ 0#16 ++ 0#3 ++ 0#3 ++ 1#3
  else if a = 5 then Am.implicit ++ Op.clrf ++ 0xF000#16 ++ 0#9
  else if a = 6 then Am.stack ++ Op.pul ++ 0#16 ++ 2#3 ++ 0#6
  else Am.stack ++ Op.ret ++ 0#25

def exampleLpm : Lpm where
  overflow addSub dataa datab :=
    if addSub = 1 then BitVec.saddOverflow dataa datab else BitVec.ssubOverflow dataa datab
  abs := BitVec.abs

/-- At power-on `R1` happens to hold 7. -/
def examplePowerOn : MiCore where
  resetCircuit := .powerOn
  state := .T0
  pcHold := 0
  arHold := 0
  spHold := 0
  sorHold := 0
  irHold := 0
  regs r := if r = 1 then 7 else 0
  ccr := ⟨false, false, false, false⟩
  intRam := ⟨fun _ => 0, 0⟩

def exampleInput (rstL : Bool) : Input := ⟨rstL, 0, 0, intPm, 0⟩

/-- The reset is over after four clocks. -/
def exampleStart : MiCore :=
  (machine exampleLpm exampleRom examplePowerOn).run ([false, true, true, true].map exampleInput)

theorem stack_nests_example :
    (before exampleLpm exampleRom (fun _ => exampleInput true) exampleStart 5).spHold = exampleStart.spHold ∧
      (∃ i < 3, (before exampleLpm exampleRom (fun _ => exampleInput true) exampleStart 4).regs
          (rz (executed exampleLpm exampleRom (fun _ => exampleInput true) exampleStart 3)) =
        (before exampleLpm exampleRom (fun _ => exampleInput true) exampleStart i).regs
          (rx (executed exampleLpm exampleRom (fun _ => exampleInput true) exampleStart i))) ∧
      ∃ i < 4, (before exampleLpm exampleRom (fun _ => exampleInput true) exampleStart 5).pcHold =
        (before exampleLpm exampleRom (fun _ => exampleInput true) exampleStart i).pcHold + 1 := by
  have hsp : exampleStart.spHold.toNat = 0x1FF := by decide +kernel
  have hpul : letter (executed exampleLpm exampleRom (fun _ => exampleInput true) exampleStart 3) =
      some (.closing .value) := by decide +kernel
  have hret : letter (executed exampleLpm exampleRom (fun _ => exampleInput true) exampleStart 4) =
      some (.closing .call) := by decide +kernel
  have hbody : Nested (fun k => letter (executed exampleLpm exampleRom (fun _ => exampleInput true) exampleStart k))
      0x1FF 1 4 :=
    .pair (by decide +kernel) (.plain (by decide +kernel) (.nil _ _)) hpul (.nil _ _)
  have hnest : Nested (fun k => letter (executed exampleLpm exampleRom (fun _ => exampleInput true) exampleStart k))
      (exampleStart.spHold.toNat + 1) 0 5 := by
    rw [hsp]
    exact .pair (by decide +kernel) hbody hret (.nil _ _)
  have hreach : Reachable exampleLpm exampleRom exampleStart :=
    ⟨examplePowerOn, [false, true, true, true].map exampleInput, ⟨rfl, rfl⟩, rfl⟩
  have hstart : exampleStart.Starts := ⟨by decide +kernel, by decide +kernel⟩
  obtain ⟨h, hvalue, hcall⟩ := stack_nests exampleLpm exampleRom (fun _ => exampleInput true) 5 hreach hstart
    (fun _ _ => rfl) (by omega) hnest
  obtain ⟨i, hi, -, hreg⟩ := hvalue 3 (by omega) hpul
  obtain ⟨j, hj, -, hpc⟩ := hcall 4 (by omega) hret
  exact ⟨h, ⟨i, hi, hreg⟩, j, hj, hpc⟩

end MiCore
end TdmaSoc
