import TdmaSoc.Lib.Slice

/-!
# Instruction words of the MiCore

An instruction is one word of 32 bits: addressing mode (2), opcode (5), address or value (16), `Rz` (3),
`Ry` (3), `Rx` (3). The constants are those of `opcodes.vhd` and `various_constants.vhd`; an opcode means
different things in different addressing modes.
-/

namespace TdmaSoc
namespace MiCore

namespace Am

def implicit : BitVec 2 := 0b00
def stack : BitVec 2 := 0b01
def direct : BitVec 2 := 0b10
def indirect : BitVec 2 := 0b11

end Am

namespace Op

def ldr : BitVec 5 := 0b00000
def str : BitVec 5 := 0b00001
def ldsp : BitVec 5 := 0b00010
def strv : BitVec 5 := 0b00010
def jmp : BitVec 5 := 0b00001
def jmpr : BitVec 5 := 0b00011
def addr : BitVec 5 := 0b00100
def addx : BitVec 5 := 0b00101
def xorr : BitVec 5 := 0b00110
def xorx : BitVec 5 := 0b11001
def subr : BitVec 5 := 0b00111
def subx : BitVec 5 := 0b01000
def andr : BitVec 5 := 0b01001
def andx : BitVec 5 := 0b01010
def orr : BitVec 5 := 0b01011
def orx : BitVec 5 := 0b01100
def cmp : BitVec 5 := 0b01101
def lsh : BitVec 5 := 0b01110
def rsh : BitVec 5 := 0b01111
def lrt : BitVec 5 := 0b10000
def rrt : BitVec 5 := 0b10001
def absr : BitVec 5 := 0b10010
def trf : BitVec 5 := 0b10011
def clrf : BitVec 5 := 0b10100
def skc : BitVec 5 := 0b10101
def skz : BitVec 5 := 0b10110
def skv : BitVec 5 := 0b10111
def skn : BitVec 5 := 0b11000
def noop : BitVec 5 := 0b11111
def pul : BitVec 5 := 0b01000
def psh : BitVec 5 := 0b00001
def ret : BitVec 5 := 0b01010
def jsr : BitVec 5 := 0b00011

end Op

def selir2pc : BitVec 2 := 0b00
def seldm2pc : BitVec 2 := 0b01
def selinc2pc : BitVec 2 := 0b10
def selry2pc : BitVec 2 := 0b11

def selir2rf : BitVec 2 := 0b00
def seldm2rf : BitVec 2 := 0b01
def selx2rf : BitVec 2 := 0b10
def selalu2rf : BitVec 2 := 0b11

def selir2sp : BitVec 2 := 0b00
def seldm2sp : BitVec 2 := 0b01
def selspop2sp : BitVec 2 := 0b10

def incSp : BitVec 1 := 1
def decSp : BitVec 1 := 0

def selir2adr : BitVec 2 := 0b00
def selsp2adr : BitVec 2 := 0b01
def selspop2adr : BitVec 2 := 0b10
def selry2adr : BitVec 2 := 0b11

def selir2dm : BitVec 2 := 0b00
def selpc2dm : BitVec 2 := 0b01
def selrx2dm : BitVec 2 := 0b10

def selx2alua : BitVec 1 := 0
def sely2alua : BitVec 1 := 1

def sely2alub : BitVec 1 := 0
def selir2alub : BitVec 1 := 1

def intPm : BitVec 1 := 0
def extPm : BitVec 1 := 1

def subb : BitVec 4 := 0b0000
def addd : BitVec 4 := 0b0001
def andd : BitVec 4 := 0b0010
def orrr : BitVec 4 := 0b0011
def cmpl : BitVec 4 := 0b0100
def absv : BitVec 4 := 0b0101
def lshf : BitVec 4 := 0b0110
def rshf : BitVec 4 := 0b0111
def lrtr : BitVec 4 := 0b1000
def rrtr : BitVec 4 := 0b1001
def xoro : BitVec 4 := 0b1010

/-- `opcode`, the wires from the instruction register to the control unit. -/
def opcode (ir : BitVec 32) : BitVec 11 := ir.slice 21 11

def am (opcode : BitVec 11) : BitVec 2 := opcode.slice 9 2

def op (opcode : BitVec 11) : BitVec 5 := opcode.slice 4 5

end MiCore
end TdmaSoc
