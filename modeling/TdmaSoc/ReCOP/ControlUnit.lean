import TdmaSoc.ReCOP.Opcodes

/-!
# ControlUnit

`control_unit` of the ReCOP: a state machine that registers both its state and its next state, and the
registers that drive the multiplexers and the write enables of the datapath.
-/

namespace TdmaSoc

inductive CuState | T0 | T1 | T2 | T3
deriving DecidableEq, Repr

@[ext] structure ControlUnit where
  state : CuState
  nextState : CuState
  pcWriteFlag : Bool
  pcMode : BitVec 2
  dmSelAddr : BitVec 2
  dmSelIn : BitVec 2
  dmWrite : Bool
  irFetchStart : Bool
  rfSelIn : BitVec 3
  rfWrite : Bool
  aluOperation : BitVec 3
  aluSelOp1 : BitVec 2
  aluSelOp2 : BitVec 1
  dpcrSel : BitVec 1
  dpcrWriteFlag : Bool
  irqClr : Bool
  sopWrite : Bool
  aluClrZFlag : Bool
deriving DecidableEq, Repr

namespace ControlUnit

/-- The branches of `fsm_process` and `opcode_process` for `reset = '1'`. -/
def reset : ControlUnit where
  state := .T0
  nextState := .T1
  pcWriteFlag := false
  pcMode := pcModeIncr1
  dmSelAddr := dmSelAddrValue
  dmSelIn := dmSelInValue
  dmWrite := false
  irFetchStart := false
  rfSelIn := rfSelInValue
  rfWrite := false
  aluOperation := aluIdle
  aluSelOp1 := aluSelOp1Value
  aluSelOp2 := aluSelOp2Rz
  dpcrSel := dpcrValue
  dpcrWriteFlag := false
  irqClr := false
  sopWrite := false
  aluClrZFlag := false

/-- The values assigned before the `case` of `opcode_process`. -/
def defaults (c : ControlUnit) : ControlUnit :=
  { c with
    pcWriteFlag := false, dpcrWriteFlag := false, irqClr := false, aluClrZFlag := false, sopWrite := false,
    irFetchStart := false }

def tickT0 (c : ControlUnit) : ControlUnit :=
  { c with
    dmWrite := false, aluOperation := aluIdle, nextState := .T1, pcWriteFlag := false, rfWrite := false,
    irFetchStart := true }

/-- What `T1` assigns to `pc_mode_signal`. -/
def pcModeT1 (am : BitVec 2) (opcode : BitVec 6) (pcMode : BitVec 2) : BitVec 2 :=
  if opcode = Opcode.jmp then
    if am = amImmediate then pcModeValue
    else if am = amRegister then pcModeRx
    else pcMode
  else if opcode = Opcode.present then pcModeValue
  else if opcode = Opcode.sz then pcModeValue
  else
    if am = amInherent then pcModeIncr1
    else if am = amImmediate then pcModeIncr2
    else if am = amDirect then pcModeIncr2
    else if am = amRegister then pcModeIncr1
    else pcModeIncr1

def tickT1 (am : BitVec 2) (opcode : BitVec 6) (instFetched : Bool) (c : ControlUnit) : ControlUnit :=
  if instFetched then
    { c with irFetchStart := false, nextState := .T2, pcMode := pcModeT1 am opcode c.pcMode }
  else { c with irFetchStart := false }

def decodeT2 (am : BitVec 2) (opcode : BitVec 6) (c : ControlUnit) : ControlUnit :=
  if opcode = Opcode.andr ∨ opcode = Opcode.orr ∨ opcode = Opcode.addr then
    { c with
      aluOperation :=
        if opcode = Opcode.andr then aluAnd
        else if opcode = Opcode.orr then aluOr
        else if opcode = Opcode.addr then aluAdd
        else aluIdle
      rfSelIn := rfSelInAlu
      aluSelOp1 := if am = amImmediate then aluSelOp1Value else aluSelOp1Rx
      aluSelOp2 := if am = amImmediate then aluSelOp2Rx else aluSelOp2Rz }
  else if opcode = Opcode.subvr ∨ opcode = Opcode.subr then
    { c with
      aluOperation := aluSub
      rfSelIn := rfSelInAlu
      aluSelOp1 := aluSelOp1Value
      aluSelOp2 :=
        if opcode = Opcode.subvr then aluSelOp2Rx
        else if opcode = Opcode.subr then aluSelOp2Rz
        else aluSelOp2Rz }
  else if opcode = Opcode.ldr then
    if am = amImmediate then { c with rfSelIn := rfSelInValue }
    else if am = amRegister then { c with dmSelAddr := dmSelAddrRx, rfSelIn := rfSelInDm }
    else if am = amDirect then { c with dmSelAddr := dmSelAddrValue, rfSelIn := rfSelInDm }
    else c
  else if opcode = Opcode.str then
    if am = amImmediate then { c with dmSelIn := dmSelInValue, dmSelAddr := dmSelAddrRz }
    else if am = amRegister then { c with dmSelIn := dmSelInRx, dmSelAddr := dmSelAddrRz }
    else if am = amDirect then { c with dmSelIn := dmSelInRx, dmSelAddr := dmSelAddrValue }
    else c
  else if opcode = Opcode.jmp then
    if am = amImmediate then { c with pcMode := pcModeValue }
    else if am = amRegister then { c with pcMode := pcModeRx }
    else c
  else if opcode = Opcode.present then { c with pcMode := pcModeValue }
  else if opcode = Opcode.datacall then { c with dpcrSel := dpcrR7 }
  else if opcode = Opcode.datacall2 then { c with dpcrSel := dpcrValue }
  else if opcode = Opcode.sz then { c with pcMode := pcModeValue }
  else if opcode = Opcode.strpc then { c with dmSelIn := dmSelInPc, dmSelAddr := dmSelAddrValue }
  else c

def tickT2 (am : BitVec 2) (opcode : BitVec 6) (c : ControlUnit) : ControlUnit :=
  decodeT2 am opcode { c with nextState := .T3, aluSelOp1 := am, aluOperation := aluIdle }

def decodeT3 (opcode : BitVec 6) (rzEmpty aluZFlag : Bool) (c : ControlUnit) : ControlUnit :=
  if opcode = Opcode.andr ∨ opcode = Opcode.orr ∨ opcode = Opcode.addr ∨ opcode = Opcode.subvr ∨
      opcode = Opcode.subr then
    { c with rfWrite := true }
  else if opcode = Opcode.ldr then { c with rfWrite := true }
  else if opcode = Opcode.str then { c with dmWrite := true }
  else if opcode = Opcode.jmp then { c with pcWriteFlag := true }
  else if opcode = Opcode.present then
    { c with pcMode := if rzEmpty = false then pcModeIncr2 else c.pcMode, pcWriteFlag := true }
  else if opcode = Opcode.datacall then { c with dpcrWriteFlag := true, irqClr := true }
  else if opcode = Opcode.datacall2 then { c with dpcrWriteFlag := true, irqClr := true }
  else if opcode = Opcode.sz then
    { c with pcMode := if aluZFlag = false then pcModeIncr2 else c.pcMode, pcWriteFlag := true }
  else if opcode = Opcode.strpc then { c with dmWrite := true }
  else if opcode = Opcode.clfz then { c with aluClrZFlag := true }
  else if opcode = Opcode.lsip then { c with rfSelIn := rfSelInSip, rfWrite := true }
  else if opcode = Opcode.ssop then { c with sopWrite := true }
  else c

def tickT3 (opcode : BitVec 6) (rzEmpty aluZFlag : Bool) (c : ControlUnit) : ControlUnit :=
  decodeT3 opcode rzEmpty aluZFlag
    { c with pcWriteFlag := true, nextState := .T0, aluOperation := aluHold }

def opcodeProcess (irOpcode : BitVec 8) (instFetched rzEmpty aluZFlag : Bool) (c : ControlUnit) : ControlUnit :=
  let am := irOpcode.slice 6 2
  let opcode := irOpcode.slice 0 6
  match c.state with
  | .T0 => c.defaults.tickT0
  | .T1 => c.defaults.tickT1 am opcode instFetched
  | .T2 => c.defaults.tickT2 am opcode
  | .T3 => c.defaults.tickT3 opcode rzEmpty aluZFlag

def fsmProcess (nextState : CuState) (c : ControlUnit) : ControlUnit := { c with state := nextState }

/-- A rising edge of the clock. Both processes read the state and the next state from before it. -/
def clock (irOpcode : BitVec 8) (instFetched rzEmpty aluZFlag : Bool) (c : ControlUnit) : ControlUnit :=
  (c.opcodeProcess irOpcode instFetched rzEmpty aluZFlag).fsmProcess c.nextState

end ControlUnit
end TdmaSoc
