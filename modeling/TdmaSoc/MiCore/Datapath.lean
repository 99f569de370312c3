import Mathlib.Logic.Function.Basic
import TdmaSoc.Lib.Machine
import TdmaSoc.MiCore.ControlUnit

/-!
# datapath

The registers of the MiCore, its internal RAM and the multiplexers between them, and one `clock` from a rising
edge to the next. The RAM works on the falling edge between them: it takes the address, the data and the write
signal and shows the addressed word from then on, so the registers get that word at the rising edge.
-/

namespace TdmaSoc
namespace MiCore

/-- The overflow of the signed adder, for the condition bits, and the absolute value: modules of a library. -/
structure Lpm where
  overflow : BitVec 1 → BitVec 16 → BitVec 16 → Bool
  abs : BitVec 16 → BitVec 16

/-- The adders: `add_sub` is 1 for a sum and 0 for a difference. -/
def addSub (addSub : BitVec 1) (dataa datab : BitVec 16) : BitVec 16 :=
  if addSub = 1 then dataa + datab else dataa - datab

/-! ### int_ram -/

structure Ram where
  cells : BitVec 10 → BitVec 16
  address : BitVec 10

namespace Ram

def q (m : Ram) : BitVec 16 := m.cells m.address

def clock (address : BitVec 10) (data : BitVec 16) (we : Bool) (m : Ram) : Ram where
  cells := if we then Function.update m.cells address data else m.cells
  address := address

end Ram

/-- The pins of the processor in one clock. -/
structure Input where
  rstL : Bool
  din : BitVec 16
  pdin : BitVec 32
  pmSel : BitVec 1
  sir : BitVec 16

end MiCore

/-- `controlunit` and `datapath`. -/
structure MiCore where
  resetCircuit : MiCore.ResetCircuit
  state : MiCore.StateType
  pcHold : BitVec 16
  arHold : BitVec 16
  spHold : BitVec 16
  sorHold : BitVec 16
  irHold : BitVec 32
  regs : BitVec 3 → BitVec 16
  ccr : MiCore.Ccr
  intRam : MiCore.Ram

namespace MiCore

def rz (ir : BitVec 32) : BitVec 3 := ir.slice 6 3

def ry (ir : BitVec 32) : BitVec 3 := ir.slice 3 3

def rx (ir : BitVec 32) : BitVec 3 := ir.slice 0 3

def value (ir : BitVec 32) : BitVec 16 := ir.slice 9 16

/-- The control signals, and the wires of the datapath that they drive. -/
def signals (m : MiCore) : Signals := opdec m.state (opcode m.irHold) m.ccr

def rxValue (m : MiCore) : BitVec 16 := m.regs (rx m.irHold)

def ryValue (m : MiCore) : BitVec 16 := m.regs (ry m.irHold)

def spOpOut (m : MiCore) : BitVec 16 := addSub m.signals.spOpSel m.spHold 0x0001

def dmIn (m : MiCore) : BitVec 16 :=
  if m.signals.dmInSel = selir2dm then value m.irHold
  else if m.signals.dmInSel = selpc2dm then m.pcHold
  else if m.signals.dmInSel = selrx2dm then m.rxValue
  else value m.irHold

def dmAdr (m : MiCore) : BitVec 16 :=
  if m.signals.dmAdrSel = selir2adr then value m.irHold
  else if m.signals.dmAdrSel = selsp2adr then m.spHold
  else if m.signals.dmAdrSel = selspop2adr then m.spOpOut
  else if m.signals.dmAdrSel = selry2adr then m.ryValue
  else value m.irHold

/-- The internal RAM after the falling edge. -/
def fallen (m : MiCore) : Ram := m.intRam.clock (m.arHold.slice 0 10) m.dmIn m.signals.we

def dmOut (i : Input) (m : MiCore) : BitVec 16 :=
  if m.arHold.slice 10 6 = 0b000000 then m.fallen.q
  else if m.arHold = 0xFFFF then i.sir
  else i.din

def pmOut (rom : BitVec 10 → BitVec 32) (i : Input) (m : MiCore) : BitVec 32 :=
  if i.pmSel = intPm then rom (m.pcHold.slice 0 10)
  else if i.pmSel = extPm then i.pdin
  else rom (m.pcHold.slice 0 10)

def aluAin (m : MiCore) : BitVec 16 :=
  if m.signals.aluAinSel = selx2alua then m.rxValue
  else if m.signals.aluAinSel = sely2alua then m.ryValue
  else m.rxValue

def aluBin (m : MiCore) : BitVec 16 :=
  if m.signals.aluBinSel = selir2alub then value m.irHold
  else if m.signals.aluBinSel = sely2alub then m.ryValue
  else m.ryValue

def aluOut (lpm : Lpm) (m : MiCore) : BitVec 16 :=
  let result := addSub (m.signals.aluSel.slice 0 1) m.aluAin m.aluBin
  if m.signals.aluSel = addd then result
  else if m.signals.aluSel = subb then result
  else if m.signals.aluSel = andd then m.aluAin &&& m.aluBin
  else if m.signals.aluSel = orrr then m.aluAin ||| m.aluBin
  else if m.signals.aluSel = xoro then m.aluAin ^^^ m.aluBin
  else if m.signals.aluSel = cmpl then ~~~m.aluAin
  else if m.signals.aluSel = absv then lpm.abs m.aluAin
  else if m.signals.aluSel = lshf then m.aluAin.slice 0 15 ++ (0 : BitVec 1)
  else if m.signals.aluSel = rshf then (0 : BitVec 1) ++ m.aluAin.slice 1 15
  else if m.signals.aluSel = lrtr then m.aluAin.slice 0 15 ++ m.aluAin.slice 15 1
  else if m.signals.aluSel = rrtr then m.aluAin.slice 0 1 ++ m.aluAin.slice 1 15
  else 0x0000

def pcIn (i : Input) (m : MiCore) : BitVec 16 :=
  if m.signals.pcInSel = selir2pc then value m.irHold
  else if m.signals.pcInSel = seldm2pc then m.dmOut i
  else if m.signals.pcInSel = selinc2pc then m.pcHold + 0x0001
  else if m.signals.pcInSel = selry2pc then m.ryValue
  else m.pcHold + 0x0001

def rfIn (lpm : Lpm) (i : Input) (m : MiCore) : BitVec 16 :=
  if m.signals.rfInSel = selir2rf then value m.irHold
  else if m.signals.rfInSel = seldm2rf then m.dmOut i
  else if m.signals.rfInSel = selx2rf then m.rxValue
  else if m.signals.rfInSel = selalu2rf then m.aluOut lpm
  else m.aluOut lpm

def spIn (i : Input) (m : MiCore) : BitVec 16 :=
  if m.signals.spInSel = selir2sp then value m.irHold
  else if m.signals.spInSel = selspop2sp then m.spOpOut
  else if m.signals.spInSel = seldm2sp then m.dmOut i
  else m.spOpOut

/-- `ccr`; `v1` is `c1`. -/
def ccrNext (lpm : Lpm) (m : MiCore) : Ccr :=
  let c1 := lpm.overflow (m.signals.aluSel.slice 0 1) m.aluAin m.aluBin
  { c := if m.signals.clrC then false else if m.signals.ldC then c1 else m.ccr.c
    z := if m.signals.clrZ then false else if m.signals.ldZ then decide (m.aluOut lpm = 0) else m.ccr.z
    v := if m.signals.clrV then false else if m.signals.ldV then c1 else m.ccr.v
    n := if m.signals.clrN then false else if m.signals.ldN then (m.aluOut lpm).getLsbD 15 else m.ccr.n }

def clock (lpm : Lpm) (rom : BitVec 10 → BitVec 32) (m : MiCore) (i : Input) : MiCore where
  resetCircuit := m.resetCircuit.clock i.rstL
  state := pulseDistributor m.resetCircuit m.state m.signals.nextState
  pcHold := if m.resetCircuit.initUp then 0x0000 else if m.signals.ldPc then m.pcIn i else m.pcHold
  arHold := if m.signals.ldAr then m.dmAdr else m.arHold
  spHold := if m.resetCircuit.initUp then 0x01FF else if m.signals.ldSp then m.spIn i else m.spHold
  sorHold :=
    if m.resetCircuit.initUp then 0x0000
    else if m.arHold = 0xFFFF ∧ m.signals.we then m.dmIn
    else m.sorHold
  irHold := if m.signals.ldIr then m.pmOut rom i else m.irHold
  regs := if m.signals.ldRf then Function.update m.regs (rz m.irHold) (m.rfIn lpm i) else m.regs
  ccr := m.ccrNext lpm
  intRam := m.fallen

/-- The processor from a state that it may have at power-on. -/
def machine (lpm : Lpm) (rom : BitVec 10 → BitVec 32) (m : MiCore) : Machine MiCore Input := ⟨m, clock lpm rom⟩

/-- At power-on only the reset circuit and the state have values. -/
def PowerOn (m : MiCore) : Prop := m.resetCircuit = .powerOn ∧ m.state = .T0

/-- The pulse distributor runs, and an instruction is fetched in this clock. -/
def Starts (m : MiCore) : Prop := m.resetCircuit.enaPd = true ∧ m.state = .T0

end MiCore
end TdmaSoc
