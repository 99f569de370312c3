import TdmaSoc.Asm.AsmToMif
import TdmaSoc.ReCOP.Refinement

/-!
# From the assembler to the processor

The words of an instruction line, loaded at the program counter, make the processor do the instruction that
`Fields.instruction` names.
-/

namespace TdmaSoc

theorem Word.fields_append (am : BitVec 2) (opcode : BitVec 6) (z x : BitVec 4) :
    let w : Word := am ++ opcode ++ z ++ x
    w.am = am ∧ w.opcode = opcode ∧ w.rz = z ∧ w.rx = x := by
  refine ⟨?_, ?_, ?_, ?_⟩ <;> ext i hi
  · simp only [Word.am, ← BitVec.getLsbD_eq_getElem hi, BitVec.getLsbD_slice, BitVec.getLsbD_append]
    simp [show ¬ 14 + i < 4 by omega, show ¬ 14 + i - 4 < 4 by omega, show ¬ 14 + i - 4 - 4 < 6 by omega, hi,
      show 14 + i - 4 - 4 - 6 = i by omega]
  · simp only [Word.opcode, ← BitVec.getLsbD_eq_getElem hi, BitVec.getLsbD_slice, BitVec.getLsbD_append]
    simp [show ¬ 8 + i < 4 by omega, show ¬ 8 + i - 4 < 4 by omega, hi, show 8 + i - 4 - 4 = i by omega]
  · simp only [Word.rz, ← BitVec.getLsbD_eq_getElem hi, BitVec.getLsbD_slice, BitVec.getLsbD_append]
    simp [show ¬ 4 + i < 4 by omega, hi, show 4 + i - 4 = i by omega]
  · simp only [Word.rx, ← BitVec.getLsbD_eq_getElem hi, BitVec.getLsbD_slice, BitVec.getLsbD_append]
    simp [hi]

/-- The program memory has `words` from `pc` on. -/
def ProgMem.Loaded (rom : ProgMem) (pc : BitVec 15) (words : List Word) : Prop :=
  ∀ i w, words[i]? = some w → rom (pc + BitVec.ofNat 15 i) = w

namespace Asm.Fields

/-- What the processor makes of the words. -/
def instruction (opcode : BitVec 6) (f : Fields) : Option Instruction :=
  Instruction.decode f.am.bits opcode (BitVec.ofInt 4 f.rz) (BitVec.ofInt 4 f.rx)
    (if f.Long then BitVec.ofInt 16 f.operand else 0)

theorem long_bits {f : Fields} : f.am.bits = amImmediate ∨ f.am.bits = amDirect ↔ f.Long := by
  rw [Long]
  cases f.am <;> decide

theorem fetch_of_loaded {rom : ProgMem} {pc : BitVec 15} {opcode : BitVec 6} {f : Fields}
    (h : rom.Loaded pc (f.words opcode)) : (rom pc).am = f.am.bits ∧ rom.fetch pc = f.instruction opcode := by
  have hw : rom pc = f.am.bits ++ opcode ++ BitVec.ofInt 4 f.rz ++ BitVec.ofInt 4 f.rx := by
    have := h 0 (f.am.bits ++ opcode ++ BitVec.ofInt 4 f.rz ++ BitVec.ofInt 4 f.rx)
      (by rw [words]; split <;> rfl)
    rwa [BitVec.add_zero] at this
  obtain ⟨ham, hop, hz, hx⟩ := Word.fields_append f.am.bits opcode (BitVec.ofInt 4 f.rz) (BitVec.ofInt 4 f.rx)
  refine ⟨by rw [hw, ham], ?_⟩
  have hv : rom.operand pc = if f.Long then BitVec.ofInt 16 f.operand else 0 := by
    rw [ProgMem.operand, hw]
    by_cases hl : f.Long
    · rw [if_pos hl, if_pos (by rw [Word.Long, ham]; exact long_bits.2 hl)]
      exact h 1 _ (by rw [words, if_pos hl]; rfl)
    · rw [if_neg hl, if_neg (by rw [Word.Long, ham]; exact fun hb => hl (long_bits.1 hb))]
  rw [ProgMem.fetch, hv, hw, ham, hop, hz, hx, instruction]

end Asm.Fields

/-- A program memory with `words` at `pc`. -/
def ProgMem.holding (pc : BitVec 15) (words : List Word) : ProgMem := fun p => words.getD (p - pc).toNat 0

theorem ProgMem.loaded_holding (pc : BitVec 15) (opcode : BitVec 6) (f : Asm.Fields) :
    (holding pc (f.words opcode)).Loaded pc (f.words opcode) := by
  intro k w hw
  have hk : k < 2 := by
    have := (List.getElem?_eq_some_iff.1 hw).1
    rw [Asm.Fields.words] at this
    split at this <;> simp at this <;> omega
  unfold holding
  rw [BitVec.add_comm, BitVec.add_sub_cancel, BitVec.toNat_ofNat, Nat.mod_eq_of_lt (by omega),
    List.getD_eq_getElem?_getD, hw]
  rfl

/-- What holds of the state after the words of an instruction, wherever they are loaded, is what holds of the
state after the instruction. -/
theorem Recop.performs_iff {opcode : BitVec 6} {f : Asm.Fields} {i : Instruction} (hi : f.instruction opcode = some i)
    (a : Arch) (Q : Arch → Prop) :
    (∀ (rom : ProgMem) (s : Recop), s.Sampled a → rom.Loaded a.pc (f.words opcode) →
        Q ((Recop.clock rom)^[(rom a.pc).cycles] s).arch) ↔ Q (i.exec (Instruction.words f.am.bits) a) := by
  have hrun {rom : ProgMem} {s : Recop} (hs : s.Sampled a) (hl : rom.Loaded a.pc (f.words opcode)) :
      ((Recop.clock rom)^[(rom a.pc).cycles] s).arch = i.exec (Instruction.words f.am.bits) a := by
    obtain ⟨ham, hf⟩ := Asm.Fields.fetch_of_loaded hl
    rw [← ham]
    exact (hs.exec (hf.trans hi)).arch
  refine ⟨fun h => ?_, fun h rom s hs hl => ?_⟩
  · have hl := ProgMem.loaded_holding a.pc opcode f
    rw [← hrun (sampled_start a) hl]
    exact h _ (start a) (sampled_start a) hl
  · rw [hrun hs hl]; exact h

/-- Whatever the state, executing `words` turns the registers `r` into `f r`. -/
def Recop.Leaves (words : List Word) (f : RegFile → RegFile) : Prop :=
  ∀ (rom : ProgMem) (a : Arch) (s : Recop), s.Sampled a → rom.Loaded a.pc words →
    ((Recop.clock rom)^[(rom a.pc).cycles] s).regs = f a.regs

theorem Recop.leaves_iff {opcode : BitVec 6} {f : Asm.Fields} {i : Instruction} (hi : f.instruction opcode = some i)
    (g : RegFile → RegFile) :
    Leaves (f.words opcode) g ↔ ∀ a, (i.exec (Instruction.words f.am.bits) a).regs = g a.regs := by
  refine Iff.trans ⟨fun h a rom s => h rom a s, fun h rom a s => h a rom s⟩ (forall_congr' fun a => ?_)
  exact performs_iff hi a fun b => b.regs = g a.regs

end TdmaSoc
