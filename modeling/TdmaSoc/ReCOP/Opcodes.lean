import TdmaSoc.Lib.Slice

/-!
# Instruction words of the ReCOP

An instruction is one or two words of 16 bits: addressing mode (2), opcode (6), `Rz` (4), `Rx` (4), and
for the immediate and direct modes the operand in a word of its own. The constants are those of
`opcodes.vhd` and `various_constants.vhd`.
-/

namespace TdmaSoc

abbrev Word := BitVec 16

def amInherent : BitVec 2 := 0b00
def amImmediate : BitVec 2 := 0b01
def amDirect : BitVec 2 := 0b10
def amRegister : BitVec 2 := 0b11

theorem am_cases (am : BitVec 2) : am = amInherent ∨ am = amImmediate ∨ am = amDirect ∨ am = amRegister := by
  revert am; decide

namespace Opcode

def ldr : BitVec 6 := 0b000000
def str : BitVec 6 := 0b000010
def jmp : BitVec 6 := 0b011000
def present : BitVec 6 := 0b011100
def andr : BitVec 6 := 0b001000
def orr : BitVec 6 := 0b001100
def addr : BitVec 6 := 0b111000
def subr : BitVec 6 := 0b000100
def subvr : BitVec 6 := 0b000011
def clfz : BitVec 6 := 0b010000
def noop : BitVec 6 := 0b110100
def sz : BitVec 6 := 0b010100
def ssop : BitVec 6 := 0b111010
def lsip : BitVec 6 := 0b110111
def datacall : BitVec 6 := 0b101000
def datacall2 : BitVec 6 := 0b101001
def strpc : BitVec 6 := 0b011101

/-- The opcodes that the control unit tells apart, all others being `NOOP`. -/
theorem cases (o : BitVec 6) :
    (o = andr ∨ o = orr ∨ o = addr ∨ o = subvr ∨ o = subr ∨ o = ldr ∨ o = str ∨ o = jmp ∨ o = present ∨ o = sz) ∨
      (o = datacall ∨ o = datacall2 ∨ o = strpc ∨ o = clfz ∨ o = lsip ∨ o = ssop) ∨
      ((o ≠ andr ∧ o ≠ orr ∧ o ≠ addr ∧ o ≠ subvr ∧ o ≠ subr ∧ o ≠ ldr ∧ o ≠ str ∧ o ≠ jmp ∧ o ≠ present ∧ o ≠ sz) ∧
        o ≠ datacall ∧ o ≠ datacall2 ∧ o ≠ strpc ∧ o ≠ clfz ∧ o ≠ lsip ∧ o ≠ ssop) := by
  revert o; decide +kernel

end Opcode

def aluAdd : BitVec 3 := 0b000
def aluSub : BitVec 3 := 0b001
def aluAnd : BitVec 3 := 0b010
def aluOr : BitVec 3 := 0b011
def aluIdle : BitVec 3 := 0b100
def aluHold : BitVec 3 := 0b110

def aluSelOp1Rx : BitVec 2 := 0b00
def aluSelOp1Value : BitVec 2 := 0b01
def aluSelOp1Direct : BitVec 2 := 0b10

def aluSelOp2Rx : BitVec 1 := 0
def aluSelOp2Rz : BitVec 1 := 1

def pcModeRx : BitVec 2 := 0b00
def pcModeIncr1 : BitVec 2 := 0b01
def pcModeIncr2 : BitVec 2 := 0b10
def pcModeValue : BitVec 2 := 0b11

def dmSelAddrValue : BitVec 2 := 0b00
def dmSelAddrPc : BitVec 2 := 0b01
def dmSelAddrRx : BitVec 2 := 0b10
def dmSelAddrRz : BitVec 2 := 0b11

def dmSelInValue : BitVec 2 := 0b00
def dmSelInPc : BitVec 2 := 0b01
def dmSelInRx : BitVec 2 := 0b10

def rfSelInValue : BitVec 3 := 0b000
def rfSelInDprr : BitVec 3 := 0b001
def rfSelInAlu : BitVec 3 := 0b011
def rfSelInRzMax : BitVec 3 := 0b100
def rfSelInSip : BitVec 3 := 0b101
def rfSelInEr : BitVec 3 := 0b110
def rfSelInDm : BitVec 3 := 0b111

def dpcrR7 : BitVec 1 := 0
def dpcrValue : BitVec 1 := 1

namespace Word

def am (w : Word) : BitVec 2 := BitVec.slice w 14 2

def opcode (w : Word) : BitVec 6 := BitVec.slice w 8 6

def rz (w : Word) : BitVec 4 := BitVec.slice w 4 4

def rx (w : Word) : BitVec 4 := BitVec.slice w 0 4

/-- The instruction that starts with `w` has its operand in a second word. -/
def Long (w : Word) : Prop := w.am = amImmediate ∨ w.am = amDirect

instance (w : Word) : Decidable w.Long := instDecidableOr

end Word
end TdmaSoc
