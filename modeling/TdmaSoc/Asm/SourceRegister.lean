import TdmaSoc.Asm.ThreeOperands

/-!
# Source registers

The assembler puts a lone or first register into `Rz`, while `DATACALL`, `DATACALL2` and `SSOP` take theirs
from `Rx` (`DATACALL Rx`, `DATACALL Rx #value` and `SSOP Rx` in `opcodes.vhd`). So these instructions read
`R0` whatever register the line names.
-/

namespace TdmaSoc

/-- The instructions with a source register, and what else stands in the line. -/
inductive SourceOp (py : Python)
  | datacall
  | datacall2 (l : Literal py)
  | ssop

namespace SourceOp
variable {py : Python}

/-- The mnemonic and the operands of the line. -/
def parts (n : BitVec 4) : SourceOp py → List Str
  | datacall => ["DATACALL".toList, registerName n]
  | datacall2 l => ["DATACALL2".toList, registerName n, '#' :: l.text]
  | ssop => ["SSOP".toList, registerName n]

def opcode : SourceOp py → BitVec 6
  | datacall => Opcode.datacall
  | datacall2 _ => Opcode.datacall2
  | ssop => Opcode.ssop

/-- What the assembler makes of the line. -/
def fields (n : BitVec 4) : SourceOp py → Asm.Fields
  | datacall => ⟨.register, n.toNat, 0, 0⟩
  | datacall2 l => ⟨.immediate, n.toNat, 0, l.value.toNat⟩
  | ssop => ⟨.register, n.toNat, 0, 0⟩

/-- The instruction that the processor performs. -/
def performed : SourceOp py → Instruction
  | datacall => .datacall 0 (.reg 7)
  | datacall2 l => .datacall 0 (.value l.value)
  | ssop => .ssop 0

/-- The instruction on `R[n]` has turned the state `a` into `b`. -/
def Done (n : BitVec 4) (a b : Arch) : SourceOp py → Prop
  | datacall => b.dpcr = a.regs n ++ a.regs 7
  | datacall2 l => b.dpcr = a.regs n ++ l.value
  | ssop => b.sop = a.regs n

/-- In the state `a`, the words that the assembler emits for the line do the instruction on the register that
the line names. -/
def Reads (op : SourceOp py) (n : BitVec 4) (a : Arch) (labels : Asm.Labels) (pc : Nat) : Prop :=
  ∃ words, Asm.assembleInstruction py (op.parts n) labels pc = .ok words ∧
    ∀ (rom : ProgMem) (s : Recop), s.Sampled a → rom.Loaded a.pc words →
      op.Done n a ((Recop.clock rom)^[(rom a.pc).cycles] s).arch

theorem fields_lone {m : Str} (hm : m ∉ ["NOOP".toList, "END".toList, "ENDPROG".toList]) (hj : m ≠ "JMP".toList)
    (n : BitVec 4) (labels : Asm.Labels) :
    Asm.fields py labels m [registerName n] = .ok ⟨.register, n.toNat, 0, 0⟩ := by
  unfold Asm.fields
  rw [if_neg hm]
  show (if m = "JMP".toList then _ else Asm.oneOperand py labels (registerName n)) = _
  rw [if_neg hj]
  show (do return ⟨.register, ← Asm.parseRegister py (registerName n), 0, 0⟩ : Except AsmError Asm.Fields) = _
  rw [Asm.parseRegister_registerName]
  rfl

theorem fields_value {m : Str} (hm : m ∉ ["NOOP".toList, "END".toList, "ENDPROG".toList]) (n : BitVec 4)
    (l : Literal py) (labels : Asm.Labels) :
    Asm.fields py labels m [registerName n, '#' :: l.text] = .ok ⟨.immediate, n.toNat, 0, l.value.toNat⟩ := by
  have him : Asm.parseImmediate py ('#' :: l.text) = .ok (l.value.toNat : Int) := by
    simp only [Asm.parseImmediate, l.reads]
  unfold Asm.fields
  rw [if_neg hm]
  show Asm.twoOperands py labels m (registerName n) ('#' :: l.text) = _
  unfold Asm.twoOperands
  rw [Asm.parseRegister_registerName]
  show (do return ⟨.immediate, (n.toNat : Int), 0, ← Asm.parseImmediate py ('#' :: l.text)⟩ :
    Except AsmError Asm.Fields) = _
  rw [him]
  rfl

theorem assembleInstruction_parts (op : SourceOp py) (n : BitVec 4) (labels : Asm.Labels) (pc : Nat) :
    Asm.assembleInstruction py (op.parts n) labels pc = .ok ((op.fields n).words op.opcode) := by
  cases op with
  | datacall => exact Asm.assembleInstruction_of_fields rfl rfl rfl (fields_lone (by decide) (by decide) n labels)
  | datacall2 l => exact Asm.assembleInstruction_of_fields rfl rfl rfl (fields_value (by decide) n l labels)
  | ssop => exact Asm.assembleInstruction_of_fields rfl rfl rfl (fields_lone (by decide) (by decide) n labels)

theorem instruction_fields (op : SourceOp py) (n : BitVec 4) :
    (op.fields n).instruction op.opcode = some op.performed := by
  cases op with
  | datacall => rfl
  | datacall2 l =>
    have hv : BitVec.ofInt 16 (l.value.toNat : Int) = l.value := by
      rw [BitVec.ofInt_natCast, BitVec.ofNat_toNat, BitVec.setWidth_eq]
    show Instruction.decode amImmediate Opcode.datacall2 _ 0 (BitVec.ofInt 16 (l.value.toNat : Int)) = _
    rw [hv]; rfl
  | ssop => rfl

theorem append_left_inj {x y v : Word} : x ++ v = y ++ v ↔ x = y := by
  refine ⟨fun h => ?_, fun h => by rw [h]⟩
  refine BitVec.eq_of_getLsbD_eq fun i hi => ?_
  have hbit := congrArg (BitVec.getLsbD · (16 + i)) h
  simp only [BitVec.getLsbD_append, show ¬ 16 + i < 16 by omega, if_false, Nat.add_sub_cancel_left] at hbit
  exact hbit

/-- Performed, the instruction has done on `R0` what the line asks to be done on `R[n]`. -/
theorem done_iff (op : SourceOp py) (n : BitVec 4) (k : BitVec 15) (a : Arch) :
    op.Done n a (op.performed.exec k a) ↔ a.regs n = a.regs 0 := by
  cases op with
  | datacall => exact append_left_inj.trans eq_comm
  | datacall2 l => exact append_left_inj.trans eq_comm
  | ssop => exact eq_comm

theorem reads_iff (op : SourceOp py) (n : BitVec 4) (a : Arch) (labels : Asm.Labels) (pc : Nat) :
    op.Reads n a labels pc ↔ a.regs n = a.regs 0 := by
  rw [← done_iff op n (Instruction.words (op.fields n).am.bits) a,
    ← Recop.performs_iff (instruction_fields op n) a (op.Done n a ·)]
  refine ⟨fun ⟨words, hw, h⟩ => ?_, fun h => ⟨_, assembleInstruction_parts op n labels pc, h⟩⟩
  rw [assembleInstruction_parts] at hw
  cases hw
  exact h

/-- In the state `a` a source-register instruction reads the register it names exactly if that register holds
what `R0` holds; the one register that is read in every state is `R0`. -/
theorem source_register (op : SourceOp py) (n : BitVec 4) (labels : Asm.Labels) (pc : Nat) :
    (∀ a, op.Reads n a labels pc ↔ a.regs n = a.regs 0) ∧ ((∀ a, op.Reads n a labels pc) ↔ n = 0) := by
  refine ⟨fun a => reads_iff op n a labels pc, fun h => ?_, fun h a => ?_⟩
  · -- a state in which every register holds its number
    have hnumber := (reads_iff op n ⟨0, fun k => (0 : BitVec 12) ++ k, false, fun _ => 0, 0, 0⟩ labels pc).1 (h _)
    have hinj : ∀ n : BitVec 4, (0 : BitVec 12) ++ n = (0 : BitVec 12) ++ (0 : BitVec 4) → n = 0 := by decide
    exact hinj n hnumber
  · rw [reads_iff, h]

/-- `DATACALL R1` with 1 in `R1` and 0 in `R0`. -/
theorem datacall_misses :
    ¬ (datacall : SourceOp .ascii).Reads 1 ⟨0, fun k => if k = 1 then 1 else 0, false, fun _ => 0, 0, 0⟩ [] 0 := by
  rw [reads_iff]
  decide

end SourceOp
end TdmaSoc
