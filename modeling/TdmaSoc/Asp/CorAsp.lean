import TdmaSoc.Asp.Packets

/-!
# The correlation component

`CorAsp`. One clock decodes the received word, then runs the state machine, then chooses what to send.
All three read the signals as they were before the clock (`s`) and assign the values they will have
after it (`v`); the process variables live in `v` only, where an assignment is seen at once.
-/

namespace TdmaSoc

inductive CorAspState
  | S0 | S1 | S2 | S3
deriving DecidableEq, Repr

structure CorAsp where
  state : CorAspState
  /-- `integer range 0 to 15` -/
  correlationWindowSize : Nat
  counter : BitVec 16
  calculate : Bool
  currentCorrOrigin : BitVec 10
  correlationPairProduct : BitVec 32
  multiplicandTemp : BitVec 16
  correlationFirstHalf : Bool
  correlationSecondHalf : Bool
  correlation : BitVec 36
  sendSignal : TdmaMinPort
  -- process variables
  avgData : BitVec 16
  avgDataMemAddr : BitVec 10
  newestAvgDataAddr : BitVec 10
  correlationRdy : Bool
  sendAvgDataRq : Bool
  hasSendAvgDataRq : Bool
  justRecvAvgData : Bool
deriving DecidableEq, Repr

namespace CorAsp

def init : CorAsp where
  state := .S0
  correlationWindowSize := 4
  counter := 0
  calculate := false
  currentCorrOrigin := 0
  correlationPairProduct := 0
  multiplicandTemp := 0
  correlationFirstHalf := false
  correlationSecondHalf := false
  correlation := 0
  sendSignal := .idle
  avgData := 0
  avgDataMemAddr := 0
  newestAvgDataAddr := 0
  correlationRdy := false
  sendAvgDataRq := false
  hasSendAvgDataRq := false
  justRecvAvgData := false

def windowSize (code : BitVec 3) : Nat :=
  match code with
  | 0b000#3 => 1
  | 0b001#3 => 2
  | 0b010#3 => 4
  | 0b011#3 => 8
  | _ => 15

def decode (recv : TdmaMinPort) (v : CorAsp) : CorAsp :=
  if packetType recv.data = 0b1010#4 then
    { v with correlationWindowSize := windowSize (recv.data.slice 0 3) }
  else if packetType recv.data = 0b1000#4 then
    if packetMode recv.data = 0b0011#4 then
      { v with
        calculate := if recv.data.getLsbD 16 then true else v.calculate
        avgData := recv.data.slice 0 16
        justRecvAvgData := true }
    else if packetMode recv.data = 0b0100#4 then
      { v with newestAvgDataAddr := recv.data.slice 0 10 }
    else v
  else v

/-- `to_unsigned` of an integer below zero stops a simulation; the subtractor that is built wraps. -/
def originOffset (correlationWindowSize : Nat) : Int := (correlationWindowSize / 2 : Nat) - 1

def fsm (s v : CorAsp) : CorAsp :=
  match s.state with
  | .S0 =>
    if v.justRecvAvgData = false then
      if v.hasSendAvgDataRq = false then
        { v with
          avgDataMemAddr := v.newestAvgDataAddr - BitVec.ofInt 10 (originOffset s.correlationWindowSize)
          sendAvgDataRq := true }
      else v
    else
      let v := { v with
        justRecvAvgData := false
        hasSendAvgDataRq := false
        correlationRdy := false
        correlationPairProduct := 0
        counter := 0
        multiplicandTemp := 0 }
      if s.calculate then
        { v with
          calculate := false
          correlation := 0
          multiplicandTemp := v.avgData
          currentCorrOrigin := v.avgDataMemAddr
          state := .S1 }
      else v
  | .S1 =>
    if v.justRecvAvgData = false then
      if v.hasSendAvgDataRq = false then
        { v with
          avgDataMemAddr := s.currentCorrOrigin - BitVec.ofNat 10 s.counter.toNat - 1
          sendAvgDataRq := true }
      else v
    else
      { v with
        justRecvAvgData := false
        hasSendAvgDataRq := false
        correlationPairProduct := s.multiplicandTemp.setWidth 32 * v.avgData.setWidth 32
        correlationRdy := false
        state := .S2 }
  | .S2 => { v with counter := s.counter + 1, state := .S3 }
  | .S3 =>
    if v.justRecvAvgData = false then
      if v.hasSendAvgDataRq = false then
        { v with
          avgDataMemAddr := s.currentCorrOrigin + BitVec.ofNat 10 s.counter.toNat
          sendAvgDataRq := true }
      else v
    else
      let v := { v with
        justRecvAvgData := false
        hasSendAvgDataRq := false
        correlation := s.correlation + s.correlationPairProduct.setWidth 36
        correlationPairProduct := 0 }
      if s.counter.toNat ≥ s.correlationWindowSize / 2 then
        { v with
          counter := 0
          correlationRdy := true
          state := .S0
          correlationFirstHalf := true
          correlationSecondHalf := true }
      else
        { v with
          multiplicandTemp := v.avgData
          correlationRdy := false
          state := .S1 }

/-- To PdAsp: 18 bits of the correlation, bit 18 telling the second half from the first. -/
def halfPacket (second : Bool) (half : BitVec 18) : TdmaMinPort :=
  ⟨0b00000100#8, ((dataWord 0b0101#4).setSlice 18 (BitVec.ofBool second)).setSlice 0 half⟩

/-- To AvgAsp: the address of the average that is asked for. -/
def requestPacket (avgDataMemAddr : BitVec 10) : TdmaMinPort :=
  ⟨0b00000010#8, (dataWord 0b0010#4).setSlice 0 avgDataMemAddr⟩

def send (s v : CorAsp) : CorAsp :=
  if s.correlationFirstHalf then
    { v with sendSignal := halfPacket false (s.correlation.slice 18 18), correlationFirstHalf := false }
  else if s.correlationSecondHalf then
    { v with sendSignal := halfPacket true (s.correlation.slice 0 18), correlationSecondHalf := false }
  else if v.sendAvgDataRq && !v.hasSendAvgDataRq then
    { v with sendSignal := requestPacket v.avgDataMemAddr, sendAvgDataRq := false, hasSendAvgDataRq := true }
  else
    { v with sendSignal := .idle }

def clock (s : CorAsp) (recv : TdmaMinPort) : CorAsp := s.send (s.fsm (s.decode recv))

end CorAsp
end TdmaSoc
