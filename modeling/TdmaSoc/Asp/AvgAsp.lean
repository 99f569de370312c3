import Mathlib.Logic.Function.Basic
import TdmaSoc.Asp.Packets

/-!
# The averaging component

`AvgAsp` keeps the sum of the last samples of a window, `AverageDataRAM` stores the sums, and
`AvgAsp_RAM` around them announces the address of every new sum and answers the requests to read one.
-/

namespace TdmaSoc

structure AvgAsp where
  correlationSampleInterval : BitVec 8
  /-- `natural range 4 to MAX_N` -/
  avgWindowSize : {w : Nat // 4 ≤ w ∧ w ≤ 64}
  bufferReg : Vector (BitVec 10) 64
  sumAcc : BitVec 16
  ptr : Fin 64
  avgData : BitVec 16
  avgReady : Bool
  corrCalculate : Bool
  correlationSampleIntervalCounter : Nat

namespace AvgAsp

def init : AvgAsp where
  correlationSampleInterval := 0b00000100#8
  avgWindowSize := ⟨64, by decide⟩
  bufferReg := Vector.replicate 64 0
  sumAcc := 0
  ptr := 0
  avgData := 0
  avgReady := false
  corrCalculate := false
  correlationSampleIntervalCounter := 0

def isConfig (d : TdmaMinData) : Bool := packetType d == 0b1001#4 && d.getLsbD 23

/-- The window sizes of the codes; none is above `MAX_N`. -/
def desiredSize (code : BitVec 3) : {w : Nat // 4 ≤ w ∧ w ≤ 64} :=
  match code with
  | 0b000#3 => ⟨4, by decide⟩
  | 0b001#3 => ⟨8, by decide⟩
  | 0b010#3 => ⟨16, by decide⟩
  | 0b011#3 => ⟨32, by decide⟩
  | 0b100#3 => ⟨64, by decide⟩
  | _ => ⟨64, by decide⟩

/-- Bit 11 tells samples of 10 bits from samples of 8 bits. -/
def sampleOf (d : TdmaMinData) : BitVec 10 :=
  if d.getLsbD 11 then d.slice 0 10 else (d.slice 0 8).setWidth 10

/-- A sample that counts: one whose low ten bits are not all zero. -/
def accepts (d : TdmaMinData) : Bool := isSample d && d.slice 0 10 != 0#10

def clock (s : AvgAsp) (recv : TdmaMinPort) : AvgAsp :=
  if isConfig recv.data then
    { s with
      correlationSampleInterval := recv.data.slice 3 8
      avgWindowSize := desiredSize (recv.data.slice 0 3) }
  else if accepts recv.data then
    let newS := sampleOf recv.data
    let oldest := s.bufferReg[s.ptr]
    let counter := s.correlationSampleIntervalCounter + 1
    { s with
      bufferReg := s.bufferReg.set s.ptr newS
      sumAcc := s.sumAcc + newS.setWidth 16 - oldest.setWidth 16
      ptr := ⟨(s.ptr + 1) % s.avgWindowSize.val,
        Nat.lt_of_lt_of_le (Nat.mod_lt _ (by have := s.avgWindowSize.2; omega)) s.avgWindowSize.2.2⟩
      avgData := s.sumAcc
      avgReady := true
      corrCalculate := decide (counter ≥ s.correlationSampleInterval.toNat)
      correlationSampleIntervalCounter := if counter ≥ s.correlationSampleInterval.toNat then 0 else counter }
  else
    { s with avgData := 0, avgReady := false }

/-- The sum is ready after a sample, and stays so through the configuration words that follow it. -/
theorem avgReady_clock (s : AvgAsp) (recv : TdmaMinPort) : (s.clock recv).avgReady =
    if isConfig recv.data then s.avgReady else accepts recv.data := by
  unfold clock
  split
  · rfl
  · cases h : accepts recv.data <;> simp

end AvgAsp

/-- A word that is read in the clock it is written in is read as it was. -/
structure AverageDataRAM where
  ram : BitVec 10 → BitVec 16
  qReg : BitVec 16

namespace AverageDataRAM

def init : AverageDataRAM := ⟨fun _ => 0, 0⟩

def clock (s : AverageDataRAM) (dataIn : BitVec 16) (writeEnable : Bool) (writeAddr readAddr : BitVec 10) :
    AverageDataRAM where
  ram := if writeEnable then Function.update s.ram writeAddr dataIn else s.ram
  qReg := s.ram readAddr

end AverageDataRAM

structure AvgAspRAM where
  ldr : AvgAsp
  ram : AverageDataRAM
  prevCorrCalculate : Bool
  ramRaddr : BitVec 10
  ramWaddr : BitVec 10
  sendSignal : TdmaMinPort
  readRequest : Bool

namespace AvgAspRAM

def init : AvgAspRAM := ⟨.init, .init, false, 0, 0, .idle, false⟩

/-- To CorAsp: the address of a new average. -/
def addrPacket (ramWaddr : BitVec 10) : TdmaMinPort := ⟨0b00000011#8, (dataWord 0b0100#4).setSlice 0 ramWaddr⟩

/-- To CorAsp: the average that was asked for; bit 16 asks for a correlation. -/
def dataPacket (prevCorrCalculate : Bool) (ramQ : BitVec 16) : TdmaMinPort :=
  ⟨0b00000011#8, ((dataWord 0b0011#4).setSlice 16 (BitVec.ofBool prevCorrCalculate)).setSlice 0 ramQ⟩

/-- The request to read is taken up: a new average goes before it. -/
def answers (s : AvgAspRAM) : Bool := !s.ldr.avgReady && s.readRequest

def clock (s : AvgAspRAM) (recv : TdmaMinPort) : AvgAspRAM where
  ldr := s.ldr.clock recv
  ram := s.ram.clock s.ldr.avgData s.ldr.avgReady s.ramWaddr s.ramRaddr
  ramRaddr := if isAvgRequest recv.data then recv.data.slice 0 10 else s.ramRaddr
  -- the flag is set above and cleared below in the process, so clearing wins
  readRequest := if s.answers then false else if isAvgRequest recv.data then true else s.readRequest
  prevCorrCalculate := if s.answers then false else s.ldr.corrCalculate || s.prevCorrCalculate
  ramWaddr := if s.ldr.avgReady then s.ramWaddr + 1 else s.ramWaddr
  sendSignal :=
    if s.ldr.avgReady then addrPacket s.ramWaddr
    else if s.readRequest then dataPacket s.prevCorrCalculate s.ram.qReg
    else .idle

@[simp] theorem isData_addrPacket (mode : BitVec 4) (a : BitVec 10) :
    isData mode (addrPacket a).data = (0b0100#4 == mode) := by
  rw [addrPacket, isData_setSlice _ _ _ (by decide), isData_dataWord]

@[simp] theorem isData_dataPacket (mode : BitVec 4) (b : Bool) (q : BitVec 16) :
    isData mode (dataPacket b q).data = (0b0011#4 == mode) := by
  rw [dataPacket, isData_setSlice _ _ _ (by decide), isData_setSlice _ _ _ (by decide), isData_dataWord]

inductive Sent : TdmaMinPort → Prop
  | idle : Sent .idle
  | addr (a : BitVec 10) : Sent (addrPacket a)
  | data (b : Bool) (q : BitVec 16) : Sent (dataPacket b q)

theorem sent_clock (s : AvgAspRAM) (recv : TdmaMinPort) : Sent (s.clock recv).sendSignal := by
  show Sent (if s.ldr.avgReady then _ else if s.readRequest then _ else _)
  split
  · exact .addr ..
  · split
    · exact .data ..
    · exact .idle

end AvgAspRAM
end TdmaSoc
