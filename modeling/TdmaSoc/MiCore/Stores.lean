import TdmaSoc.MiCore.Stack

/-!
# Stores

The internal RAM is written whenever the control unit writes to the data memory, at the lower ten bits of the
address; only loads look at the upper six. A store from 0x400 up therefore also changes the cell that its
address has in common with them, unless that holds the word already.
-/

namespace TdmaSoc
namespace MiCore
open Signals

/-- `STR` direct or indirect, `STRV`, `PSH` and `JSR`. -/
inductive IsStore (ir : BitVec 32) : Prop
  | strDirect : am (opcode ir) = Am.direct → op (opcode ir) = Op.str → IsStore ir
  | strIndirect : am (opcode ir) = Am.indirect → op (opcode ir) = Op.str → IsStore ir
  | strv : am (opcode ir) = Am.indirect → op (opcode ir) = Op.strv → IsStore ir
  | psh : am (opcode ir) = Am.stack → op (opcode ir) = Op.psh → IsStore ir
  | jsr : am (opcode ir) = Am.stack → op (opcode ir) = Op.jsr → IsStore ir

/-- The address that a store is to. -/
def storeAddress (m : MiCore) (ir : BitVec 32) : BitVec 16 :=
  if am (opcode ir) = Am.stack then m.spHold
  else if am (opcode ir) = Am.indirect then m.regs (ry ir)
  else value ir

/-- The word that it stores. -/
def storeData (m : MiCore) (ir : BitVec 32) : BitVec 16 :=
  if am (opcode ir) = Am.stack ∧ op (opcode ir) = Op.jsr then m.pcHold + 1
  else if am (opcode ir) = Am.indirect ∧ op (opcode ir) = Op.strv then value ir
  else m.regs (rx ir)

variable {m m₂ : MiCore} {ir : BitVec 32} {i i₀ i₁ : Input} (lpm : Lpm) (rom : BitVec 10 → BitVec 32)

theorem clock_sorHold (h : m.resetCircuit = .running) :
    (m.clock lpm rom i).sorHold = if m.arHold = 0xFFFF ∧ m.signals.we then m.dmIn else m.sorHold := by
  unfold clock
  rw [h]
  rfl

theorem clock_sorHold_of_not_we (h : m.resetCircuit = .running) (hwe : m.signals.we = false) :
    (m.clock lpm rom i).sorHold = m.sorHold := by
  rw [clock_sorHold lpm rom h, hwe]
  exact if_neg (fun hboth => Bool.false_ne_true hboth.2)

/-- Fetching and decoding do not write to the signal output register. -/
theorem Begun.sorHold (h : m.Begun) (i₁ : Input) (hi₀ : i₀.rstL = true) :
    ((m.clock lpm rom i₀).clock lpm rom i₁).sorHold = m.sorHold := by
  obtain ⟨hreset, hsig, -⟩ := h.fetched lpm rom hi₀
  have hwe₀ : m.signals.we = false := by
    unfold signals
    rw [h.state]
    rfl
  have hwe₁ : (m.clock lpm rom i₀).signals.we = false := by
    rw [hsig]
    exact (decodeT1_frame _).2.2.2.2
  rw [clock_sorHold_of_not_we lpm rom hreset hwe₁, clock_sorHold_of_not_we lpm rom h.reset hwe₀]

/-- `T1` of the stores loads their address. -/
theorem Begun.store_T1 (h : m.Begun) (i₁ : Input) (hi₀ : i₀.rstL = true) (hstore : IsStore (m.pmOut rom i₀)) :
    ((m.clock lpm rom i₀).clock lpm rom i₁).arHold = m.storeAddress (m.pmOut rom i₀) := by
  obtain ⟨-, hsig, hir, -, hsp, hregs, -⟩ := h.fetched lpm rom hi₀
  show (if (m.clock lpm rom i₀).signals.ldAr then (m.clock lpm rom i₀).dmAdr else _) = _
  unfold dmAdr storeAddress ryValue
  cases hstore with
  | strDirect ham =>
    have hdirect : (m.clock lpm rom i₀).signals = (defaults .T2).loadAr selir2adr := by
      rw [hsig, decodeT1, ham]
      rfl
    rw [hdirect, ham, hir]
    rfl
  | strIndirect ham | strv ham =>
    have hindirect : (m.clock lpm rom i₀).signals = (defaults .T2).loadAr selry2adr := by
      rw [hsig, decodeT1, ham]
      rfl
    rw [hindirect, ham, hir, hregs]
    rfl
  | psh ham hop | jsr ham hop =>
    have hbit : (opcode (m.pmOut rom i₀)).getLsbD 7 = false := by
      rw [getLsbD_seven, hop]
      rfl
    have hpush : (m.clock lpm rom i₀).signals =
        { ((defaults .T2).loadSp selspop2sp).loadAr selsp2adr with spOpSel := decSp } := by
      rw [hsig, decodeT1, if_pos ham, if_pos hbit]
    rw [hpush, ham, hsp]
    rfl

/-- `T2` of the stores writes their word. -/
theorem Decoded.store_T2 (h : Decoded m ir m₂) (hstore : IsStore ir) :
    m₂.signals.we = true ∧ m₂.dmIn = m.storeData ir := by
  unfold dmIn storeData rxValue
  cases hstore with
  | strDirect ham hop =>
    have hsig : m₂.signals = (defaults .T0).store selrx2dm := by
      rw [h.signals, decodeT2, ham, hop]
      rfl
    rw [hsig, ham, h.regs, h.ir]
    exact ⟨rfl, rfl⟩
  | strIndirect ham hop =>
    have hsig : m₂.signals = (defaults .T0).store selrx2dm := by
      rw [h.signals, decodeT2, ham, hop]
      rfl
    rw [hsig, ham, hop, h.regs, h.ir]
    exact ⟨rfl, rfl⟩
  | strv ham hop =>
    have hsig : m₂.signals = (defaults .T0).store selir2dm := by
      rw [h.signals, decodeT2, ham, hop]
      rfl
    rw [hsig, ham, hop, h.ir]
    exact ⟨rfl, rfl⟩
  | psh ham hop =>
    have hsig : m₂.signals = (defaults .T0).store selrx2dm := h.signals_stack ham hop
    rw [hsig, ham, hop, h.regs, h.ir]
    exact ⟨rfl, rfl⟩
  | jsr ham hop =>
    have hsig : m₂.signals = ((defaults .T0).store selpc2dm).loadPc selir2pc := h.signals_stack ham hop
    rw [hsig, ham, hop, h.pc]
    exact ⟨rfl, rfl⟩

/-- What a store as a whole does to the internal RAM and to the signal output register. -/
theorem Begun.store (h : m.Begun) (i₂ : Input) (hi₀ : i₀.rstL = true) (hi₁ : i₁.rstL = true)
    (hstore : IsStore (m.pmOut rom i₀)) :
    (((m.clock lpm rom i₀).clock lpm rom i₁).clock lpm rom i₂).intRam.cells =
        Function.update m.intRam.cells ((m.storeAddress (m.pmOut rom i₀)).slice 0 10)
          (m.storeData (m.pmOut rom i₀)) ∧
      (((m.clock lpm rom i₀).clock lpm rom i₁).clock lpm rom i₂).sorHold =
        if m.storeAddress (m.pmOut rom i₀) = 0xFFFF then m.storeData (m.pmOut rom i₀) else m.sorHold := by
  have hd := h.decoded lpm rom hi₀ hi₁
  have har := h.store_T1 lpm rom i₁ hi₀ hstore
  have hsor := h.sorHold lpm rom i₁ hi₀
  obtain ⟨hwe, hdata⟩ := hd.store_T2 hstore
  generalize (m.clock lpm rom i₀).clock lpm rom i₁ = m₂ at hd har hsor hwe hdata ⊢
  constructor
  · rw [clock_cells_of_we hwe, hd.cells, har, hdata]
  · rw [clock_sorHold lpm rom hd.reset, har, hdata, hsor, hwe]
    exact if_congr (and_iff_left rfl) rfl rfl

/-- A cell of the internal RAM is at the address that has its number in the lower ten bits. -/
theorem setWidth_slice_of_lt {a : BitVec 16} (h : a.toNat < 0x400) : (a.slice 0 10).setWidth 16 = a := by
  rw [slice_toNat]
  apply BitVec.eq_of_toNat_eq
  simp
  omega

theorem toNat_setWidth_cell (c : BitVec 10) : (c.setWidth 16).toNat < 0x400 := by
  simp
  omega

/-- A store leaves the internal RAM as it is, but for the cell at its address, exactly if that address is below 0x400 or
the cell with its lower ten bits holds the stored word already. The signal output register changes at 0xFFFF only. -/
theorem store_frame_iff (lpm : Lpm) (rom : BitVec 10 → BitVec 32) (hreach : Reachable lpm rom m) (hstart : m.Starts)
    (i₀ i₁ i₂ : Input) (hrst : i₀.rstL = true ∧ i₁.rstL = true) (hstore : IsStore (m.pmOut rom i₀)) :
    let a := m.storeAddress (m.pmOut rom i₀)
    let m₃ := ((m.clock lpm rom i₀).clock lpm rom i₁).clock lpm rom i₂
    ((∀ c : BitVec 10, c.setWidth 16 ≠ a → m₃.intRam.cells c = m.intRam.cells c) ∧
        (m₃.sorHold ≠ m.sorHold → a = 0xFFFF)) ↔
      a.toNat < 0x400 ∨ m.intRam.cells (a.slice 0 10) = m.storeData (m.pmOut rom i₀) := by
  obtain ⟨hcells, hsor⟩ := (hreach.begun hstart).store lpm rom i₂ hrst.1 hrst.2 hstore
  dsimp only
  rw [hcells, hsor]
  generalize m.storeAddress (m.pmOut rom i₀) = a
  constructor
  · rintro ⟨hframe, -⟩
    by_cases hlow : a.toNat < 0x400
    · exact .inl hlow
    · have hne : (a.slice 0 10).setWidth 16 ≠ a := by
        intro heq
        have hlt := toNat_setWidth_cell (a.slice 0 10)
        rw [heq] at hlt
        exact hlow hlt
      have hcell := hframe (a.slice 0 10) hne
      rw [Function.update_self] at hcell
      exact .inr hcell.symm
  · intro hcase
    refine ⟨fun c hc => ?_, fun hchange => ?_⟩
    · by_cases hca : c = a.slice 0 10
      · subst hca
        rcases hcase with hlow | hheld
        · exact absurd (setWidth_slice_of_lt hlow) hc
        · rw [Function.update_self, hheld]
      · exact Function.update_of_ne hca ..
    · by_contra hne
      exact hchange (if_neg hne)

/-- Everywhere `STR` direct to `a`, of the register that holds 7. -/
def storeRom (a : BitVec 16) (_ : BitVec 10) : BitVec 32 := Am.direct ++ Op.str ++ a ++ 0#6 ++ 1#3

def storeStart (a : BitVec 16) : MiCore :=
  (machine exampleLpm (storeRom a) examplePowerOn).run ([false, true, true, true].map exampleInput)

/-- The cells after the first store to `a`. -/
def storeCells (a : BitVec 16) : BitVec 10 → BitVec 16 :=
  ((((storeStart a).clock exampleLpm (storeRom a) (exampleInput true)).clock exampleLpm (storeRom a)
    (exampleInput true)).clock exampleLpm (storeRom a) (exampleInput true)).intRam.cells

theorem reachable_storeStart (a : BitVec 16) : Reachable exampleLpm (storeRom a) (storeStart a) :=
  ⟨examplePowerOn, [false, true, true, true].map exampleInput, ⟨rfl, rfl⟩, rfl⟩

theorem store_frame_six : storeCells 5 6 = (storeStart 5).intRam.cells 6 :=
  ((store_frame_iff exampleLpm (storeRom 5) (reachable_storeStart 5) ⟨by decide +kernel, by decide +kernel⟩
    (exampleInput true) (exampleInput true) (exampleInput true) ⟨rfl, rfl⟩
    (.strDirect (by decide +kernel) (by decide +kernel))).2 (.inl (by decide +kernel))).1 6 (by decide +kernel)

/-- A store to 0x405, which is no address of the internal RAM, changes the cell 5. -/
theorem store_changes_five :
    ¬ ∀ (lpm : Lpm) (rom : BitVec 10 → BitVec 32) (m : MiCore), Reachable lpm rom m → m.Starts →
      ∀ i₀ i₁ i₂ : Input, i₀.rstL = true ∧ i₁.rstL = true → IsStore (m.pmOut rom i₀) →
        (∀ c : BitVec 10, c.setWidth 16 ≠ m.storeAddress (m.pmOut rom i₀) →
            (((m.clock lpm rom i₀).clock lpm rom i₁).clock lpm rom i₂).intRam.cells c = m.intRam.cells c) ∧
          ((((m.clock lpm rom i₀).clock lpm rom i₁).clock lpm rom i₂).sorHold ≠ m.sorHold →
            m.storeAddress (m.pmOut rom i₀) = 0xFFFF) := by
  intro h
  have hframe := (h exampleLpm (storeRom 0x405) (storeStart 0x405) (reachable_storeStart 0x405)
    ⟨by decide +kernel, by decide +kernel⟩ (exampleInput true) (exampleInput true) (exampleInput true) ⟨rfl, rfl⟩
    (.strDirect (by decide +kernel) (by decide +kernel))).1
  exact absurd (hframe 5 (by decide +kernel)) (by decide +kernel)

end MiCore
end TdmaSoc
