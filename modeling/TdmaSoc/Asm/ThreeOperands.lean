import TdmaSoc.Asm.Encoding

/-!
# Three operands

The assembler puts the third operand of `ADD Ra Rb third` into `Rx` or the second word and drops the second
operand, while the processor takes `Rx` for the left operand of an immediate and `Rz` for the left operand of
a register. So `Rb` is read only where it is the register that the processor takes in its place.
-/

namespace TdmaSoc

inductive ThreeOp | add | sub | subv | and | or
deriving DecidableEq, Repr

namespace ThreeOp

def mnemonic : ThreeOp → Str
  | add => "ADD".toList
  | sub => "SUB".toList
  | subv => "SUBV".toList
  | and => "AND".toList
  | or => "OR".toList

def opcode : ThreeOp → BitVec 6
  | add => Opcode.addr
  | sub => Opcode.subr
  | subv => Opcode.subvr
  | and => Opcode.andr
  | or => Opcode.orr

def op : ThreeOp → AluOp
  | add => .add
  | sub => .sub
  | subv => .sub
  | and => .and
  | or => .or

end ThreeOp

def registerName (n : BitVec 4) : Str := 'R' :: (toString n.toNat).toList

/-- The text after `#` of a number of 16 bits. -/
structure Literal (py : Python) where
  text : Str
  value : Word
  reads : py.int0 text = some (value.toNat : Int)

inductive Third (py : Python)
  | value (l : Literal py)
  | reg (c : BitVec 4)

namespace Third
variable {py : Python}

def text : Third py → Str
  | value l => '#' :: l.text
  | reg c => registerName c

def eval (r : RegFile) : Third py → Word
  | value l => l.value
  | reg c => r c

end Third

namespace Asm
open Third
variable {py : Python}

theorem parseRegister_registerName (n : BitVec 4) : parseRegister py (registerName n) = .ok (n.toNat : Int) := by
  have hdigits : ∀ n < 16, (toString n).toList.all Char.isDigit = true ∧ (toString n).toList.length ≤ 640 ∧
      digits 10 (toString n).toList = some n := by decide +kernel
  obtain ⟨hd, hl, hv⟩ := hdigits n.toNat n.isLt
  rw [registerName, parseRegister, Python.int_of_digits (List.all_eq_true.1 hd) hl, hv]; rfl

theorem assembleInstruction_of_fields {m : Str} {ops : List Str} {opcode : BitVec 6} {f : Fields} {labels : Labels}
    {pc : Nat} (hup : py.strUpper m = m) (hm : opcodes.lookup m = some opcode) (hops : ops.filter (· ≠ []) = ops)
    (hf : fields py labels m ops = .ok f) :
    assembleInstruction py (m :: ops) labels pc = .ok (f.words opcode) := by
  have hm' : opcodes.lookup (py.strUpper m) = some opcode := by rw [hup, hm]
  simp only [assembleInstruction, hm']
  rw [hup, hops, hf]
  rfl

/-- What the assembler makes of `Ra`, `Rb` and the third operand. -/
def threeFields (a : BitVec 4) : Third py → Fields
  | .value l => ⟨.immediate, a.toNat, 0, l.value.toNat⟩
  | .reg c => ⟨.register, a.toNat, c.toNat, 0⟩

theorem assembleInstruction_three (m : ThreeOp) (a b : BitVec 4) (t : Third py) (labels : Labels) (pc : Nat) :
    assembleInstruction py [m.mnemonic, registerName a, registerName b, t.text] labels pc =
      .ok ((threeFields a t).words m.opcode) := by
  have hup : py.strUpper m.mnemonic = m.mnemonic := by cases m <;> rfl
  have hm : opcodes.lookup m.mnemonic = some m.opcode := by cases m <;> rfl
  have hthree : m.mnemonic ∈ threeRegs := by cases m <;> decide
  have hops : [registerName a, registerName b, t.text].filter (· ≠ []) = [registerName a, registerName b, t.text] := by
    cases t <;> rfl
  have hf : fields py labels m.mnemonic [registerName a, registerName b, t.text] = .ok (threeFields a t) := by
    rw [fields, if_neg (by cases m <;> decide)]
    show threeOperands py labels m.mnemonic (registerName a) (registerName b) t.text = _
    rw [threeOperands, if_neg (not_not.2 hthree), if_pos hthree, parseRegister_registerName]
    cases t with
    | value l =>
      have him : parseImmediate py (value l).text = .ok (l.value.toNat : Int) := by
        simp only [text, parseImmediate, l.reads]
      have hrx : parseRegister py (value l).text = .ok 0 := rfl
      rw [hrx, him]; rfl
    | reg c =>
      rw [text, parseRegister_registerName]; rfl
  exact assembleInstruction_of_fields hup hm hops hf

end Asm

namespace ThreeOp
open Instruction
variable {py : Python}

/-- The instruction that the processor performs. -/
def performed (m : ThreeOp) (a : BitVec 4) : Third py → Instruction
  | .value l => if m = sub then alu .sub a (.reg a) (.value l.value) else alu m.op a (.reg 0) (.value l.value)
  | .reg c =>
    if m = sub then alu .sub a (.reg a) (.value 0)
    else if m = subv then alu .sub a (.reg c) (.value 0)
    else alu m.op a (.reg a) (.reg c)

theorem instruction_eq (m : ThreeOp) (a : BitVec 4) (t : Third py) :
    (Asm.threeFields a t).instruction m.opcode = some (m.performed a t) := by
  have hr {w : Nat} (x : BitVec w) : BitVec.ofInt w (x.toNat : Int) = x := by
    rw [BitVec.ofInt_natCast, BitVec.ofNat_toNat, BitVec.setWidth_eq]
  cases t with
  | value l =>
    rw [Asm.Fields.instruction, Asm.threeFields]
    simp only [hr]
    cases m <;> rfl
  | reg c =>
    rw [Asm.Fields.instruction, Asm.threeFields]
    simp only [hr]
    cases m <;> rfl

/-- The line is rejected, or executing its words sets `Ra` to `Rb op third` and nothing else. -/
def Means (m : ThreeOp) (a b : BitVec 4) (t : Third py) (labels : Asm.Labels) (pc : Nat) : Prop :=
  match Asm.assembleInstruction py [m.mnemonic, registerName a, registerName b, t.text] labels pc with
  | .error _ => True
  | .ok words => Recop.Leaves words fun r => Function.update r a (m.op.eval (r b) (t.eval r))

/-- The left operand that the instruction lacks is the one the processor takes, or does not matter. -/
def Sound (m : ThreeOp) (a b : BitVec 4) : Third py → Prop
  | .value l =>
    match m with
    | add | subv => b = 0
    | sub => a = b
    | and => b = 0 ∨ l.value = 0
    | or => b = 0 ∨ l.value = BitVec.allOnes 16
  | .reg _ =>
    match m with
    | add | and | or => a = b
    | sub | subv => False

def operands (m : ThreeOp) (a : BitVec 4) (r : RegFile) : Third py → Word × Word
  | .value l => (if m = sub then r a else r 0, l.value)
  | .reg c => if m = sub then (r a, 0) else if m = subv then (r c, 0) else (r a, r c)

theorem means_iff (m : ThreeOp) (a b : BitVec 4) (t : Third py) (labels : Asm.Labels) (pc : Nat) :
    m.Means a b t labels pc ↔
      ∀ r : RegFile, m.op.eval (m.operands a r t).1 (m.operands a r t).2 = m.op.eval (r b) (t.eval r) := by
  have hexec (s : Arch) (n : BitVec 15) : ((m.performed a t).exec n s).regs =
      Function.update s.regs a (m.op.eval (m.operands a s.regs t).1 (m.operands a s.regs t).2) := by
    cases t <;> cases m <;> rfl
  rw [Means, Asm.assembleInstruction_three]
  show Recop.Leaves _ _ ↔ _
  rw [Recop.leaves_iff (instruction_eq m a t)]
  refine ⟨fun h r => ?_, fun h s => ?_⟩
  · have := congrFun ((hexec ⟨0, r, false, fun _ => 0, 0, 0⟩ _).symm.trans (h ⟨0, r, false, fun _ => 0, 0, 0⟩)) a
    simpa only [Function.update_self] using this
  · rw [hexec, h]

/-! ### When two operands always agree -/

theorem add_agree {x y : BitVec 4} {f : RegFile → Word} : (∀ r : RegFile, r x + f r = r y + f r) ↔ x = y := by
  refine ⟨fun h => ?_, fun h r => by rw [h]⟩
  by_contra hne
  have := h fun k => if k = y then 1 else 0
  rw [if_neg hne, if_pos rfl, BitVec.add_left_inj] at this
  exact absurd this (by decide)

theorem sub_agree {x y : BitVec 4} {v : Word} : (∀ r : RegFile, r x - v = r y - v) ↔ x = y := by
  simp only [BitVec.sub_eq_add_neg]
  exact add_agree (f := fun _ => -v)

theorem and_value_agree {x y : BitVec 4} {v : Word} : (∀ r : RegFile, r x &&& v = r y &&& v) ↔ y = x ∨ v = 0 := by
  refine ⟨fun h => or_iff_not_imp_left.2 fun hne => ?_, ?_⟩
  · have := h fun k => if k = y then BitVec.allOnes 16 else 0
    rw [if_neg (Ne.symm hne), if_pos rfl, BitVec.allOnes_and] at this
    exact this.symm.trans BitVec.zero_and
  · rintro (rfl | rfl) r
    · rfl
    · exact BitVec.and_zero.trans BitVec.and_zero.symm

theorem or_value_agree {x y : BitVec 4} {v : Word} :
    (∀ r : RegFile, r x ||| v = r y ||| v) ↔ y = x ∨ v = BitVec.allOnes 16 := by
  refine ⟨fun h => or_iff_not_imp_left.2 fun hne => ?_, ?_⟩
  · have := h fun k => if k = y then 0 else BitVec.allOnes 16
    rw [if_neg (Ne.symm hne), if_pos rfl, BitVec.allOnes_or] at this
    exact (this.trans BitVec.zero_or).symm
  · rintro (rfl | rfl) r
    · rfl
    · rw [BitVec.or_allOnes, BitVec.or_allOnes]

theorem and_reg_agree {x y c : BitVec 4} : (∀ r : RegFile, r x &&& r c = r y &&& r c) ↔ x = y := by
  refine ⟨fun h => ?_, fun h r => by rw [h]⟩
  by_contra hne
  by_cases hc : c = y
  · have := h fun k => if k = x then 0 else BitVec.allOnes 16
    rw [if_pos rfl, hc, if_neg (Ne.symm hne)] at this
    exact absurd this (by decide)
  · have := h fun k => if k = y then 0 else BitVec.allOnes 16
    rw [if_neg hne, if_neg hc, if_pos rfl] at this
    exact absurd this (by decide)

theorem or_reg_agree {x y c : BitVec 4} : (∀ r : RegFile, r x ||| r c = r y ||| r c) ↔ x = y := by
  refine ⟨fun h => ?_, fun h r => by rw [h]⟩
  by_contra hne
  by_cases hc : c = y
  · have := h fun k => if k = x then BitVec.allOnes 16 else 0
    rw [if_pos rfl, hc, if_neg (Ne.symm hne)] at this
    exact absurd this (by decide)
  · have := h fun k => if k = y then BitVec.allOnes 16 else 0
    rw [if_neg hne, if_neg hc, if_pos rfl] at this
    exact absurd this (by decide)

/-- No register is always the difference of two. -/
theorem difference_disagrees {x y c : BitVec 4} : ¬ ∀ r : RegFile, r x - 0 = r y - r c :=
  fun h => absurd (h fun _ => 1) (by decide)

/-- A line with three operands does what it says exactly if it is `Sound`. -/
theorem three_operands (m : ThreeOp) (a b : BitVec 4) (t : Third py) (labels : Asm.Labels) (pc : Nat) :
    m.Means a b t labels pc ↔ m.Sound a b t := by
  rw [means_iff]
  cases t with
  | value l =>
    cases m with
    | add => exact add_agree.trans eq_comm
    | sub => exact sub_agree
    | subv => exact sub_agree.trans eq_comm
    | and => exact and_value_agree
    | or => exact or_value_agree
  | reg c =>
    cases m with
    | add => exact add_agree
    | sub => exact iff_of_false difference_disagrees id
    | subv => exact iff_of_false difference_disagrees id
    | and => exact and_reg_agree
    | or => exact or_reg_agree

theorem subv_miscounts : ¬ subv.Means 4 4 (.value (⟨"1".toList, 1, rfl⟩ : Literal .ascii)) [] 0 := by
  rw [means_iff]
  intro h
  exact absurd (h fun k => if k = 4 then 16 else 0) (by decide)

end ThreeOp
end TdmaSoc
