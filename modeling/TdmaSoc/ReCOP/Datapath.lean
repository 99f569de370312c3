import Mathlib.Logic.Function.Basic
import TdmaSoc.ReCOP.ControlUnit

/-!
# Datapath

The components of the ReCOP's datapath, each with its registers and one `clock` for a rising edge, and the
wiring of `datapath.vhd`. Every register reads what the wires carried before the edge; only the ALU's
result, a latch without clock, follows the operands of the state after it (`Recop.settle`).

The memories register address, data and write enable on the edge and show the addressed word afterwards.
-/

namespace TdmaSoc

/-! ### alu -/

namespace Alu

def op1Select (aluOp1Sel : BitVec 2) (rx irOperand : Word) : Word :=
  if aluOp1Sel = aluSelOp1Rx then rx
  else if aluOp1Sel = aluSelOp1Value then irOperand
  else if aluOp1Sel = aluSelOp1Direct then 0x0001
  else 0x0000

def op2Select (aluOp2Sel : BitVec 1) (rx rz : Word) : Word :=
  if aluOp2Sel = aluSelOp2Rx then rx
  else if aluOp2Sel = aluSelOp2Rz then rz
  else 0x0000

/-- `result`, which keeps its value `held` while the operation is `alu_hold`. -/
def result (aluOperation : BitVec 3) (operand1 operand2 held : Word) : Word :=
  if aluOperation = aluAdd then operand2 + operand1
  else if aluOperation = aluSub then operand2 - operand1
  else if aluOperation = aluAnd then operand2 &&& operand1
  else if aluOperation = aluOr then operand2 ||| operand1
  else if aluOperation = aluHold then held
  else 0x0000

def zFlag (clrZFlag : Bool) (aluOperation : BitVec 3) (result : Word) (z : Bool) : Bool :=
  if clrZFlag then false
  else if aluOperation.getLsbD 2 = false then decide (result = 0x0000)
  else z

end Alu

/-! ### prog_counter -/

structure ProgCounter where
  pcOut : BitVec 15
  prevWriteFlag : Bool
deriving DecidableEq, Repr

namespace ProgCounter

def reset : ProgCounter := ⟨0, false⟩

def clock (pcWriteFlag : Bool) (pcMode : BitVec 2) (pcIn : BitVec 15) (p : ProgCounter) : ProgCounter :=
  if pcWriteFlag ≠ p.prevWriteFlag then
    { prevWriteFlag := pcWriteFlag
      pcOut :=
        if pcWriteFlag then
          if pcMode = pcModeRx then pcIn
          else if pcMode = pcModeValue then pcIn
          else if pcMode = pcModeIncr1 then p.pcOut + 1
          else if pcMode = pcModeIncr2 then p.pcOut + 2
          else p.pcOut
        else p.pcOut }
  else p

end ProgCounter

/-! ### inst_reg -/

structure InstReg where
  opcode : BitVec 8
  rz : BitVec 4
  rx : BitVec 4
  operand : Word
deriving DecidableEq, Repr

namespace InstReg

def reset : InstReg := ⟨0, 0, 0, 0⟩

/-- The upper 16 bits of `instruction` are the first word, the lower 16 the second. -/
def clock (instruction : BitVec 32) : InstReg where
  opcode := instruction.slice 24 8
  rz := instruction.slice 20 4
  rx := instruction.slice 16 4
  operand := instruction.slice 0 16

end InstReg

/-! ### Fetching an instruction -/

inductive FetchStatus | idle | fetch1 | fetch2 | fetch3
deriving DecidableEq, Repr

/-- What `fsm_process` and `ir_process` of the datapath assign. -/
structure FetchUnit where
  fetchState : FetchStatus
  nextFetchState : FetchStatus
  fetchInst1 : Word
  fetchInst2 : Word
  instFetched : Bool
  progMemIn : BitVec 15
deriving DecidableEq, Repr

namespace FetchUnit

def reset : FetchUnit := ⟨.idle, .idle, 0, 0, false, 0⟩

def irProcess (irFetchStart : Bool) (pcOut : BitVec 15) (progMemOut : Word) (f : FetchUnit) : FetchUnit :=
  match f.fetchState with
  | .idle =>
    { f with
      instFetched := false
      nextFetchState := if irFetchStart then .fetch1 else f.nextFetchState }
  | .fetch1 => { f with instFetched := false, progMemIn := pcOut, nextFetchState := .fetch2 }
  | .fetch2 =>
    if progMemOut.am = amImmediate then
      { f with
        instFetched := false, fetchInst1 := progMemOut, progMemIn := pcOut + 1, nextFetchState := .fetch3 }
    else if progMemOut.am = amDirect then
      { f with
        instFetched := false, fetchInst1 := progMemOut, progMemIn := pcOut + 1, nextFetchState := .fetch3 }
    else
      { f with instFetched := true, fetchInst1 := progMemOut, fetchInst2 := 0, nextFetchState := .idle }
  | .fetch3 => { f with instFetched := true, nextFetchState := .idle, fetchInst2 := progMemOut }

def clock (irFetchStart : Bool) (pcOut : BitVec 15) (progMemOut : Word) (f : FetchUnit) : FetchUnit :=
  { f.irProcess irFetchStart pcOut progMemOut with fetchState := f.nextFetchState }

end FetchUnit

/-! ### regfile -/

abbrev RegFile := BitVec 4 → Word

namespace RegFile

/-- `rz_max`, `sip_hold`, `er_temp`, `dprr_res` and `dprr_res_reg` of the datapath: assigned by its reset only. -/
def unused : Word := 0

def inputSelect (rfInputSel : BitVec 3) (irOperand dmOut aluOut : Word) : Word :=
  if rfInputSel = rfSelInValue then irOperand
  else if rfInputSel = rfSelInDprr then unused
  else if rfInputSel = rfSelInAlu then aluOut
  else if rfInputSel = rfSelInRzMax then unused
  else if rfInputSel = rfSelInSip then unused
  else if rfInputSel = rfSelInEr then unused
  else if rfInputSel = rfSelInDm then dmOut
  else 0x0000

/-- `dprr_wren`, too, is low from reset on. -/
def clock (ldR : Bool) (selZ : BitVec 4) (dataInputZ : Word) (r : RegFile) : RegFile :=
  if ldR then Function.update r selZ dataInputZ else r

end RegFile

/-! ### Memories -/

structure DataMem where
  cells : BitVec 12 → Word
  address : BitVec 12

namespace DataMem

def q (m : DataMem) : Word := m.cells m.address

def clock (address : BitVec 12) (data : Word) (wren : Bool) (m : DataMem) : DataMem where
  cells := if wren then Function.update m.cells address data else m.cells
  address := address

end DataMem

abbrev ProgMem := BitVec 15 → Word

/-! ### registers -/

structure Registers where
  dpcr : BitVec 32
  sop : Word
deriving DecidableEq, Repr

namespace Registers

def reset : Registers := ⟨0, 0⟩

def clock (r7 rx irOperand : Word) (dpcrLsbSel : BitVec 1) (dpcrWr sopWr : Bool) (r : Registers) : Registers where
  dpcr :=
    if dpcrWr then
      if dpcrLsbSel = dpcrR7 then rx ++ r7
      else if dpcrLsbSel = dpcrValue then rx ++ irOperand
      else r.dpcr
    else r.dpcr
  sop := if sopWr then rx else r.sop

end Registers

/-! ### The processor -/

def rzEmpty (rzValue : Word) : Bool := decide (rzValue = 0x0000)

def pcIn (pcMode : BitVec 2) (rxValue irOperand : Word) : BitVec 15 :=
  if pcMode = pcModeRx then rxValue.slice 0 15
  else if pcMode = pcModeValue then irOperand.slice 0 15
  else 0

def dataMemInAddr (dmSelAddr : BitVec 2) (irOperand : Word) (pcOut : BitVec 15) (rxValue rzValue : Word) :
    BitVec 12 :=
  if dmSelAddr = dmSelAddrValue then irOperand.slice 0 12
  else if dmSelAddr = dmSelAddrPc then pcOut.slice 0 12
  else if dmSelAddr = dmSelAddrRx then rxValue.slice 0 12
  else if dmSelAddr = dmSelAddrRz then rzValue.slice 0 12
  else 0

def dataMemInData (dmSelIn : BitVec 2) (irOperand : Word) (pcOut : BitVec 15) (rxValue : Word) : Word :=
  if dmSelIn = dmSelInValue then irOperand
  else if dmSelIn = dmSelInPc then (0 : BitVec 1) ++ pcOut
  else if dmSelIn = dmSelInRx then rxValue
  else 0

/-- `control_unit` and the components of `datapath`. -/
structure Recop where
  cu : ControlUnit
  fetch : FetchUnit
  ir : InstReg
  pc : ProgCounter
  regs : RegFile
  aluResult : Word
  zFlag : Bool
  progMemAddress : BitVec 15
  dm : DataMem
  reg : Registers

namespace Recop

def rxValue (s : Recop) : Word := s.regs s.ir.rx
def rzValue (s : Recop) : Word := s.regs s.ir.rz
def r7 (s : Recop) : Word := s.regs 7
def instruction (s : Recop) : BitVec 32 := s.fetch.fetchInst1 ++ s.fetch.fetchInst2

/-- The registers after a rising edge, the ALU's result as it was. -/
def registered (rom : ProgMem) (s : Recop) : Recop where
  cu := s.cu.clock s.ir.opcode s.fetch.instFetched (rzEmpty s.rzValue) s.zFlag
  fetch := s.fetch.clock s.cu.irFetchStart s.pc.pcOut (rom s.progMemAddress)
  ir := InstReg.clock s.instruction
  pc := s.pc.clock s.cu.pcWriteFlag s.cu.pcMode (pcIn s.cu.pcMode s.rxValue s.ir.operand)
  regs := s.regs.clock s.cu.rfWrite s.ir.rz (RegFile.inputSelect s.cu.rfSelIn s.ir.operand s.dm.q s.aluResult)
  aluResult := s.aluResult
  zFlag := Alu.zFlag s.cu.aluClrZFlag s.cu.aluOperation s.aluResult s.zFlag
  progMemAddress := s.fetch.progMemIn
  dm := s.dm.clock (dataMemInAddr s.cu.dmSelAddr s.ir.operand s.pc.pcOut s.rxValue s.rzValue)
    (dataMemInData s.cu.dmSelIn s.ir.operand s.pc.pcOut s.rxValue) s.cu.dmWrite
  reg := s.reg.clock s.r7 s.rxValue s.ir.operand s.cu.dpcrSel s.cu.dpcrWriteFlag s.cu.sopWrite

/-- What the processes without clock of the ALU make of the operands. -/
def aluOut (s : Recop) : Word :=
  Alu.result s.cu.aluOperation (Alu.op1Select s.cu.aluSelOp1 s.rxValue s.ir.operand)
    (Alu.op2Select s.cu.aluSelOp2 s.rxValue s.rzValue) s.aluResult

def settle (s : Recop) : Recop := { s with aluResult := s.aluOut }

/-- One clock with `reset` low. -/
def clock (rom : ProgMem) (s : Recop) : Recop := (s.registered rom).settle

/-- The state while `reset` is high. The contents of the data memory and the address registers of the
memories are all that is left of the state before. -/
def reset (s : Recop) : Recop where
  cu := .reset
  fetch := .reset
  ir := .reset
  pc := .reset
  regs := fun _ => 0
  aluResult := 0
  zFlag := false
  progMemAddress := s.progMemAddress
  dm := s.dm
  reg := .reset

/-- A processor with `mem` in its data memory and 0 in everything else that a reset keeps. -/
def blank (mem : BitVec 12 → Word) : Recop where
  cu := .reset
  fetch := .reset
  ir := .reset
  pc := .reset
  regs := fun _ => 0
  aluResult := 0
  zFlag := false
  progMemAddress := 0
  dm := ⟨mem, 0⟩
  reg := .reset

def after (rom : ProgMem) (s : Recop) (t : Nat) : Recop := (clock rom)^[t] s.reset

end Recop
end TdmaSoc
