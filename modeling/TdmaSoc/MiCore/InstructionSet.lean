import TdmaSoc.MiCore.Datapath

/-!
# The instruction set of the MiCore

What a program sees of the MiCore, `Arch`, and what each instruction does to it in one step. The five bits of the
opcode mean different things in the four modes; the ones without a meaning do nothing, but in the stack mode, where
SP moves before the opcode is looked at.
-/

namespace TdmaSoc
namespace MiCore

@[ext] structure Arch where
  pc : BitVec 16
  sp : BitVec 16
  regs : BitVec 3 → BitVec 16
  ccr : Ccr
  ram : BitVec 10 → BitVec 16
  sor : BitVec 16

inductive AluOp | add | sub | and | or | xor
deriving DecidableEq, Repr

inductive UnaryOp | cmp | lsh | rsh | lrt | rrt | abs
deriving DecidableEq, Repr

inductive Flag | c | z | v | n
deriving DecidableEq, Repr

inductive Operand
  | reg (r : BitVec 3)
  | value (v : BitVec 16)
deriving DecidableEq, Repr

inductive Instruction
  /-- `R[z] := left op right`, with the condition bits. -/
  | alu (op : AluOp) (z left : BitVec 3) (right : Operand)
  | unary (op : UnaryOp) (z x : BitVec 3)
  | ldr (z : BitVec 3) (source : Operand)
  /-- `R[z] := M[address]` -/
  | load (z : BitVec 3) (address : Operand)
  | str (address source : Operand)
  | ldsp (v : BitVec 16)
  /-- `SP := M[address]` -/
  | loadSp (address : BitVec 16)
  | jmp (target : Operand)
  /-- Branch if the condition bit is set. -/
  | skip (flag : Flag) (target : BitVec 16)
  /-- Clears the condition bits that are named. -/
  | clrf (c z v n : Bool)
  | psh (x : BitVec 3)
  | pul (z : BitVec 3)
  | jsr (target : BitVec 16)
  | ret
  /-- Only SP moves. -/
  | moveSp (up : Bool)
  | noop
deriving DecidableEq, Repr

def AluOp.eval : AluOp → BitVec 16 → BitVec 16 → BitVec 16
  | .add, x, y => x + y
  | .sub, x, y => x - y
  | .and, x, y => x &&& y
  | .or, x, y => x ||| y
  | .xor, x, y => x ^^^ y

def UnaryOp.eval (lpm : Lpm) : UnaryOp → BitVec 16 → BitVec 16
  | .cmp, x => ~~~x
  | .lsh, x => x.slice 0 15 ++ (0 : BitVec 1)
  | .rsh, x => (0 : BitVec 1) ++ x.slice 1 15
  | .lrt, x => x.slice 0 15 ++ x.slice 15 1
  | .rrt, x => x.slice 0 1 ++ x.slice 1 15
  | .abs, x => lpm.abs x

/-- The condition bits after an operation: a sum or a difference sets all of them, the overflow as carry too. -/
def AluOp.flags (lpm : Lpm) (cc : Ccr) (op : AluOp) (x y : BitVec 16) : Ccr :=
  let zero := decide (op.eval x y = 0)
  match op with
  | .add => ⟨lpm.overflow 1 x y, zero, lpm.overflow 1 x y, (x + y).getLsbD 15⟩
  | .sub => ⟨lpm.overflow 0 x y, zero, lpm.overflow 0 x y, (x - y).getLsbD 15⟩
  | _ => { cc with z := zero }

def Ccr.get (cc : Ccr) : Flag → Bool
  | .c => cc.c
  | .z => cc.z
  | .v => cc.v
  | .n => cc.n

def Operand.eval (a : Arch) : Operand → BitVec 16
  | .reg r => a.regs r
  | .value v => v

namespace Arch

/-- The data memory: the internal RAM, the signal inputs at 0xFFFF and what is outside. -/
def read (a : Arch) (i : Input) (address : BitVec 16) : BitVec 16 :=
  if address.slice 10 6 = 0b000000 then a.ram (address.slice 0 10)
  else if address = 0xFFFF then i.sir
  else i.din

/-- The internal RAM does not see the upper bits of the address. -/
def write (a : Arch) (address word : BitVec 16) : Arch :=
  { a with
    ram := Function.update a.ram (address.slice 0 10) word
    sor := if address = 0xFFFF then word else a.sor }

/-- Before its own effect every instruction moves PC on. -/
def next (a : Arch) : Arch := { a with pc := a.pc + 1 }

def setReg (a : Arch) (z : BitVec 3) (word : BitVec 16) : Arch := { a with regs := Function.update a.regs z word }

end Arch

namespace Instruction

def exec (lpm : Lpm) (i : Input) (a : Arch) : Instruction → Arch
  | alu op z left right =>
    { a.next.setReg z (op.eval (a.regs left) (right.eval a)) with
      ccr := op.flags lpm a.ccr (a.regs left) (right.eval a) }
  | unary op z x => a.next.setReg z (op.eval lpm (a.regs x))
  | ldr z source => a.next.setReg z (source.eval a)
  | load z address => a.next.setReg z (a.read i (address.eval a))
  | str address source => a.next.write (address.eval a) (source.eval a)
  | ldsp v => { a.next with sp := v }
  | loadSp address => { a.next with sp := a.read i address }
  | jmp target => { a with pc := target.eval a }
  | skip flag target => if a.ccr.get flag then { a with pc := target } else a.next
  | clrf c z v n => { a.next with ccr := ⟨!c && a.ccr.c, !z && a.ccr.z, !v && a.ccr.v, !n && a.ccr.n⟩ }
  | psh x => { a.next.write a.sp (a.regs x) with sp := a.sp - 1 }
  | pul z => { a.next.setReg z (a.read i (a.sp + 1)) with sp := a.sp + 1 }
  | jsr target => { a.write a.sp (a.pc + 1) with pc := target, sp := a.sp - 1 }
  | ret => { a with pc := a.read i (a.sp + 1), sp := a.sp + 1 }
  | moveSp up => { a.next with sp := if up then a.sp + 1 else a.sp - 1 }
  | noop => a.next

/-! ### decode -/

def decodeStack (ir : BitVec 32) : Instruction :=
  let op := op (opcode ir)
  if op = Op.pul then pul (rz ir)
  else if op = Op.psh then psh (rx ir)
  else if op = Op.ret then ret
  else if op = Op.jsr then jsr (value ir)
  else moveSp ((opcode ir).getLsbD 7)

def decodeDirect (ir : BitVec 32) : Instruction :=
  let op := op (opcode ir)
  if op = Op.ldr then load (rz ir) (.value (value ir))
  else if op = Op.str then str (.value (value ir)) (.reg (rx ir))
  else if op = Op.ldsp then loadSp (value ir)
  else noop

def decodeIndirect (ir : BitVec 32) : Instruction :=
  let op := op (opcode ir)
  if op = Op.ldr then load (rz ir) (.reg (ry ir))
  else if op = Op.str then str (.reg (ry ir)) (.reg (rx ir))
  else if op = Op.strv then str (.reg (ry ir)) (.value (value ir))
  else noop

def decodeImplicit (ir : BitVec 32) : Instruction :=
  let op := op (opcode ir)
  if op = Op.ldr then ldr (rz ir) (.value (value ir))
  else if op = Op.ldsp then ldsp (value ir)
  else if op = Op.jmp then jmp (.value (value ir))
  else if op = Op.jmpr then jmp (.reg (ry ir))
  else if op = Op.addr then alu .add (rz ir) (rx ir) (.reg (ry ir))
  else if op = Op.addx then alu .add (rz ir) (rx ir) (.value (value ir))
  else if op = Op.subr then alu .sub (rz ir) (rx ir) (.reg (ry ir))
  else if op = Op.subx then alu .sub (rz ir) (rx ir) (.value (value ir))
  else if op = Op.andr then alu .and (rz ir) (rx ir) (.reg (ry ir))
  else if op = Op.andx then alu .and (rz ir) (rx ir) (.value (value ir))
  else if op = Op.orr then alu .or (rz ir) (rx ir) (.reg (ry ir))
  else if op = Op.orx then alu .or (rz ir) (rx ir) (.value (value ir))
  else if op = Op.xorr then alu .xor (rz ir) (rx ir) (.reg (ry ir))
  else if op = Op.xorx then alu .xor (rz ir) (rx ir) (.value (value ir))
  else if op = Op.cmp then unary .cmp (rz ir) (rx ir)
  else if op = Op.lsh then unary .lsh (rz ir) (rx ir)
  else if op = Op.rsh then unary .rsh (rz ir) (rx ir)
  else if op = Op.lrt then unary .lrt (rz ir) (rx ir)
  else if op = Op.rrt then unary .rrt (rz ir) (rx ir)
  else if op = Op.absr then unary .abs (rz ir) (rx ir)
  else if op = Op.trf then ldr (rz ir) (.reg (rx ir))
  else if op = Op.clrf then
    clrf ((opcode ir).getLsbD 3) ((opcode ir).getLsbD 2) ((opcode ir).getLsbD 1) ((opcode ir).getLsbD 0)
  else if op = Op.skc then skip .c (value ir)
  else if op = Op.skz then skip .z (value ir)
  else if op = Op.skv then skip .v (value ir)
  else if op = Op.skn then skip .n (value ir)
  else noop

/-- The instruction of a program word. -/
def decode (ir : BitVec 32) : Instruction :=
  if am (opcode ir) = Am.stack then decodeStack ir
  else if am (opcode ir) = Am.direct then decodeDirect ir
  else if am (opcode ir) = Am.indirect then decodeIndirect ir
  else decodeImplicit ir

end Instruction

def arch (m : MiCore) : Arch := ⟨m.pcHold, m.spHold, m.regs, m.ccr, m.intRam.cells, m.sorHold⟩

/-- The program memory, inside or outside. -/
def Arch.fetch (rom : BitVec 10 → BitVec 32) (i : Input) (a : Arch) : BitVec 32 :=
  if i.pmSel = intPm then rom (a.pc.slice 0 10) else if i.pmSel = extPm then i.pdin else rom (a.pc.slice 0 10)

end MiCore
end TdmaSoc
