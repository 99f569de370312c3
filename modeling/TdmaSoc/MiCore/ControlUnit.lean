import Mathlib.Data.Fintype.Basic
import TdmaSoc.MiCore.Opcodes

/-!
# controlunit

The reset circuit and the pulse distributor of the MiCore, which are clocked, and its operation decoder, which
is not: it makes the control signals of a clock from the state, the opcode and the condition bits.
-/

namespace TdmaSoc
namespace MiCore

inductive StateType | T0 | T1 | T2
deriving DecidableEq, Repr

instance : Fintype StateType := ⟨{.T0, .T1, .T2}, by intro s; cases s <;> decide⟩

/-! ### resetcircuit -/

structure ResetCircuit where
  mrs : BitVec 2
  sr : Bool
  enaPd : Bool
  clrPd : Bool
  initUp : Bool
deriving DecidableEq, Repr

namespace ResetCircuit

/-- At power-on only `mrs` has a value; what has none is not `'1'`. -/
def powerOn : ResetCircuit := ⟨0b00, false, false, false, false⟩

def clock (rstL : Bool) (r : ResetCircuit) : ResetCircuit :=
  let r :=
    if rstL = false then { r with sr := true, enaPd := false, clrPd := true }
    else if r.mrs = 0b11 then { r with sr := false, enaPd := true, clrPd := false }
    else r
  if r.sr then { r with mrs := r.mrs + 1, initUp := true }
  else { r with initUp := false }

end ResetCircuit

/-! ### pulsedistributor -/

def pulseDistributor (r : ResetCircuit) (state nextState : StateType) : StateType :=
  if r.clrPd then .T0
  else if r.enaPd then nextState
  else state

/-! ### opdec -/

/-- The condition bits `cout`, `zout`, `vout` and `nout`. -/
structure Ccr where
  c : Bool
  z : Bool
  v : Bool
  n : Bool
deriving DecidableEq, Repr

structure Signals where
  nextState : StateType
  ldPc : Bool
  ldAr : Bool
  ldIr : Bool
  ldSp : Bool
  ldRf : Bool
  we : Bool
  clrC : Bool
  clrZ : Bool
  clrV : Bool
  clrN : Bool
  ldC : Bool
  ldZ : Bool
  ldV : Bool
  ldN : Bool
  pcInSel : BitVec 2
  rfInSel : BitVec 2
  spInSel : BitVec 2
  dmAdrSel : BitVec 2
  dmInSel : BitVec 2
  aluAinSel : BitVec 1
  aluBinSel : BitVec 1
  aluSel : BitVec 4
  spOpSel : BitVec 1
deriving DecidableEq, Repr

namespace Signals

/-- What is assigned before the `case` of `opdec`, with the next state. -/
def defaults (nextState : StateType) : Signals where
  nextState := nextState
  ldPc := false
  ldAr := false
  ldIr := false
  ldSp := false
  ldRf := false
  we := false
  clrC := false
  clrZ := false
  clrV := false
  clrN := false
  ldC := false
  ldZ := false
  ldV := false
  ldN := false
  pcInSel := selinc2pc
  rfInSel := selalu2rf
  spInSel := seldm2sp
  dmAdrSel := selir2adr
  dmInSel := selir2dm
  aluAinSel := selx2alua
  aluBinSel := sely2alub
  aluSel := addd
  spOpSel := incSp

def loadRf (rfInSel : BitVec 2) (s : Signals) : Signals := { s with rfInSel := rfInSel, ldRf := true }

def loadPc (pcInSel : BitVec 2) (s : Signals) : Signals := { s with pcInSel := pcInSel, ldPc := true }

def loadSp (spInSel : BitVec 2) (s : Signals) : Signals := { s with spInSel := spInSel, ldSp := true }

def loadAr (dmAdrSel : BitVec 2) (s : Signals) : Signals := { s with dmAdrSel := dmAdrSel, ldAr := true }

def store (dmInSel : BitVec 2) (s : Signals) : Signals := { s with dmInSel := dmInSel, we := true }

/-- `Rz` from the ALU. -/
def alu (aluSel : BitVec 4) (aluBinSel : BitVec 1) (s : Signals) : Signals :=
  { s with aluSel := aluSel, aluAinSel := selx2alua, aluBinSel := aluBinSel }.loadRf selalu2rf

/-- `Rz` from the ALU, with all condition bits. -/
def arithmetic (aluSel : BitVec 4) (aluBinSel : BitVec 1) (s : Signals) : Signals :=
  { s.alu aluSel aluBinSel with ldC := true, ldZ := true, ldV := true, ldN := true }

/-- `Rz` from the ALU, with the condition bit `z`. -/
def logical (aluSel : BitVec 4) (aluBinSel : BitVec 1) (s : Signals) : Signals :=
  { s.alu aluSel aluBinSel with ldZ := true }

end Signals

open Signals

def decodeT0 : Signals := { (defaults .T1).loadPc selinc2pc with ldIr := true }

def decodeT1 (opcode : BitVec 11) : Signals :=
  let s := defaults .T2
  if am opcode = Am.stack then
    if opcode.getLsbD 7 = false then
      { (s.loadSp selspop2sp).loadAr selsp2adr with spOpSel := decSp }
    else { (s.loadSp selspop2sp).loadAr selspop2adr with spOpSel := incSp }
  else if am opcode = Am.indirect then s.loadAr selry2adr
  else if am opcode = Am.direct then s.loadAr selir2adr
  else s

def executeStack (op : BitVec 5) (s : Signals) : Signals :=
  if op = Op.pul then s.loadRf seldm2rf
  else if op = Op.psh then s.store selrx2dm
  else if op = Op.ret then s.loadPc seldm2pc
  else if op = Op.jsr then (s.store selpc2dm).loadPc selir2pc
  else s

def executeDirect (op : BitVec 5) (s : Signals) : Signals :=
  if op = Op.ldr then s.loadRf seldm2rf
  else if op = Op.str then s.store selrx2dm
  else if op = Op.ldsp then s.loadSp seldm2sp
  else s

def executeIndirect (op : BitVec 5) (s : Signals) : Signals :=
  if op = Op.ldr then s.loadRf seldm2rf
  else if op = Op.str then s.store selrx2dm
  else if op = Op.strv then s.store selir2dm
  else s

/-- A jump if the condition bit is set. -/
def skip (bit : Bool) (s : Signals) : Signals := if bit then s.loadPc selir2pc else s

def executeImplicit (opcode : BitVec 11) (cc : Ccr) (s : Signals) : Signals :=
  let op := op opcode
  if op = Op.ldr then s.loadRf selir2rf
  else if op = Op.ldsp then s.loadSp selir2sp
  else if op = Op.jmp then s.loadPc selir2pc
  else if op = Op.jmpr then s.loadPc selry2pc
  else if op = Op.addr then s.arithmetic addd sely2alub
  else if op = Op.addx then s.arithmetic addd selir2alub
  else if op = Op.subr then s.arithmetic subb sely2alub
  else if op = Op.subx then s.arithmetic subb selir2alub
  else if op = Op.andr then s.logical andd sely2alub
  else if op = Op.andx then s.logical andd selir2alub
  else if op = Op.orr then s.logical orrr sely2alub
  else if op = Op.orx then s.logical orrr selir2alub
  else if op = Op.xorr then s.logical xoro sely2alub
  else if op = Op.xorx then s.logical xoro selir2alub
  else if op = Op.cmp then s.alu cmpl s.aluBinSel
  else if op = Op.lsh then s.alu lshf s.aluBinSel
  else if op = Op.rsh then s.alu rshf s.aluBinSel
  else if op = Op.lrt then s.alu lrtr s.aluBinSel
  else if op = Op.rrt then s.alu rrtr s.aluBinSel
  else if op = Op.absr then s.alu absv s.aluBinSel
  else if op = Op.trf then s.loadRf selx2rf
  else if op = Op.clrf then
    { s with
      clrC := opcode.getLsbD 3
      clrZ := opcode.getLsbD 2
      clrV := opcode.getLsbD 1
      clrN := opcode.getLsbD 0 }
  else if op = Op.skc then skip cc.c s
  else if op = Op.skz then skip cc.z s
  else if op = Op.skv then skip cc.v s
  else if op = Op.skn then skip cc.n s
  else s

def decodeT2 (opcode : BitVec 11) (cc : Ccr) : Signals :=
  let s := defaults .T0
  if am opcode = Am.stack then executeStack (op opcode) s
  else if am opcode = Am.direct then executeDirect (op opcode) s
  else if am opcode = Am.indirect then executeIndirect (op opcode) s
  else executeImplicit opcode cc s

def opdec (state : StateType) (opcode : BitVec 11) (cc : Ccr) : Signals :=
  match state with
  | .T0 => decodeT0
  | .T1 => decodeT1 opcode
  | .T2 => decodeT2 opcode cc

end MiCore
end TdmaSoc
