import TdmaSoc.ReCOP.Datapath

/-!
# The instruction set

What a program sees of the ReCOP, `Arch`, and what each instruction does to it in one step. `decode`
says which instruction a first word and an operand are; a word of one of the other modes has operand 0.
Three encodings have no instruction: `JMP` in the inherent and direct modes and `LDR` and `STR` in the
inherent mode, whose multiplexers are left as the instructions before set them.
-/

namespace TdmaSoc

@[ext] structure Arch where
  pc : BitVec 15
  regs : RegFile
  z : Bool
  mem : BitVec 12 → Word
  dpcr : BitVec 32
  sop : Word

inductive AluOp | and | or | add | sub
deriving DecidableEq, Repr

def AluOp.eval : AluOp → Word → Word → Word
  | .and, x, y => x &&& y
  | .or, x, y => x ||| y
  | .add, x, y => x + y
  | .sub, x, y => x - y

inductive Operand
  | reg (r : BitVec 4)
  | value (v : Word)
deriving DecidableEq, Repr

def Operand.eval (a : Arch) : Operand → Word
  | .reg r => a.regs r
  | .value v => v

inductive Instruction
  /-- `R[rz] := left op right`, and Z says whether that is 0. -/
  | alu (op : AluOp) (rz : BitVec 4) (left right : Operand)
  | ldr (rz : BitVec 4) (source : Operand)
  /-- `R[rz] := M[address]` -/
  | load (rz : BitVec 4) (address : Operand)
  | str (address source : Operand)
  /-- `M[address] := ` the address of the next instruction -/
  | strpc (address : Word)
  | jmp (target : Operand)
  /-- Branch if `R[rz]` is 0. -/
  | present (rz : BitVec 4) (target : Word)
  /-- Branch if Z is set. -/
  | sz (target : Word)
  | clfz
  /-- `DPCR := R[rx] & low` -/
  | datacall (rx : BitVec 4) (low : Operand)
  | lsip (rz : BitVec 4)
  | ssop (rx : BitVec 4)
  | noop
deriving DecidableEq, Repr

namespace Instruction

def words (am : BitVec 2) : BitVec 15 := if am = amImmediate ∨ am = amDirect then 2 else 1

/-- `AND`, `OR` and `ADD`: an immediate goes with `R[x]`, otherwise `R[z]` does. -/
def decodeAlu (op : AluOp) (am : BitVec 2) (z x : BitVec 4) (v : Word) : Instruction :=
  if am = amImmediate then alu op z (.reg x) (.value v) else alu op z (.reg z) (.reg x)

/-- The instruction with the fields `am`, `opcode`, `z` and `x` and the operand `v`. -/
def decode (am : BitVec 2) (opcode : BitVec 6) (z x : BitVec 4) (v : Word) : Option Instruction :=
  if opcode = Opcode.andr then some (decodeAlu .and am z x v)
  else if opcode = Opcode.orr then some (decodeAlu .or am z x v)
  else if opcode = Opcode.addr then some (decodeAlu .add am z x v)
  else if opcode = Opcode.subvr then some (alu .sub z (.reg x) (.value v))
  else if opcode = Opcode.subr then some (alu .sub z (.reg z) (.value v))
  else if opcode = Opcode.ldr then
    if am = amImmediate then some (ldr z (.value v))
    else if am = amDirect then some (load z (.value v))
    else if am = amRegister then some (load z (.reg x))
    else none
  else if opcode = Opcode.str then
    if am = amImmediate then some (str (.reg z) (.value v))
    else if am = amDirect then some (str (.value v) (.reg x))
    else if am = amRegister then some (str (.reg z) (.reg x))
    else none
  else if opcode = Opcode.jmp then
    if am = amImmediate then some (jmp (.value v))
    else if am = amRegister then some (jmp (.reg x))
    else none
  else if opcode = Opcode.present then some (present z v)
  else if opcode = Opcode.sz then some (sz v)
  else if opcode = Opcode.datacall then some (datacall x (.reg 7))
  else if opcode = Opcode.datacall2 then some (datacall x (.value v))
  else if opcode = Opcode.strpc then some (strpc v)
  else if opcode = Opcode.clfz then some clfz
  else if opcode = Opcode.lsip then some (lsip z)
  else if opcode = Opcode.ssop then some (ssop x)
  else some noop

def exec (n : BitVec 15) (a : Arch) : Instruction → Arch
  | alu op rz left right =>
    let result := op.eval (left.eval a) (right.eval a)
    { a with pc := a.pc + n, regs := Function.update a.regs rz result, z := decide (result = 0) }
  | ldr rz source => { a with pc := a.pc + n, regs := Function.update a.regs rz (source.eval a) }
  | load rz address =>
    { a with pc := a.pc + n, regs := Function.update a.regs rz (a.mem ((address.eval a).slice 0 12)) }
  | str address source =>
    { a with pc := a.pc + n, mem := Function.update a.mem ((address.eval a).slice 0 12) (source.eval a) }
  | strpc address =>
    { a with
      pc := a.pc + n, mem := Function.update a.mem (address.slice 0 12) ((0 : BitVec 1) ++ (a.pc + n)) }
  | jmp target => { a with pc := (target.eval a).slice 0 15 }
  | present rz target => { a with pc := if a.regs rz = 0 then target.slice 0 15 else a.pc + 2 }
  | sz target => { a with pc := if a.z then target.slice 0 15 else a.pc + 2 }
  | clfz => { a with pc := a.pc + n, z := false }
  | datacall rx low => { a with pc := a.pc + n, dpcr := a.regs rx ++ low.eval a }
  | lsip rz => { a with pc := a.pc + n, regs := Function.update a.regs rz 0 }
  | ssop rx => { a with pc := a.pc + n, sop := a.regs rx }
  | noop => { a with pc := a.pc + n }

def Taken (a : Arch) : Instruction → Prop
  | jmp _ => True
  | present rz _ => a.regs rz = 0
  | sz _ => a.z = true
  | _ => False

end Instruction

def Recop.arch (s : Recop) : Arch where
  pc := s.pc.pcOut
  regs := s.regs
  z := s.zFlag
  mem := s.dm.cells
  dpcr := s.reg.dpcr
  sop := s.reg.sop

/-- The operand of the instruction at `pc`: the word after it, or 0 if it is one word. -/
def ProgMem.operand (rom : ProgMem) (pc : BitVec 15) : Word := if (rom pc).Long then rom (pc + 1) else 0

def ProgMem.fetch (rom : ProgMem) (pc : BitVec 15) : Option Instruction :=
  Instruction.decode (rom pc).am (rom pc).opcode (rom pc).rz (rom pc).rx (rom.operand pc)

end TdmaSoc
