import TdmaSoc.Asp.Packets

/-!
# The peak detection component

`PdAsp`. One clock decodes the received word, then follows the slope of the correlation values if one
has become complete, then chooses what to send. As in `CorAsp`, `s` holds the signals before the clock
and `v` those after it, together with the process variables.
-/

namespace TdmaSoc

structure PdAsp where
  lastSlopePos : Bool
  peakDetected : Bool
  counter : BitVec 18
  counterPrev : BitVec 18
  correlationMin : BitVec 36
  correlationMax : BitVec 36
  peakType : Bool
  peakDetectSent : Bool
  correlationPeakRead : Bool
  sendSignal : TdmaMinPort
  -- process variables
  lastCorrelationValue : BitVec 36
  currentCorrelationValue : BitVec 36
  incompleteCorrelationValue : BitVec 36
  currSlopePos : Bool
  correlationRdy : Bool
  correlationCountRead : Bool
deriving DecidableEq, Repr

namespace PdAsp

def init : PdAsp where
  lastSlopePos := false
  peakDetected := false
  counter := 0
  counterPrev := 0
  correlationMin := 0
  correlationMax := 0
  peakType := true
  peakDetectSent := false
  correlationPeakRead := false
  sendSignal := .idle
  lastCorrelationValue := 0
  currentCorrelationValue := 0
  incompleteCorrelationValue := 0
  currSlopePos := false
  correlationRdy := false
  correlationCountRead := false

def decode (recv : TdmaMinPort) (v : PdAsp) : PdAsp :=
  if packetType recv.data = 0b1011#4 then
    { v with peakType := recv.data.getLsbD 0 }
  else if packetType recv.data = 0b1000#4 then
    if packetMode recv.data = 0b0101#4 then
      if recv.data.getLsbD 18 = false then
        { v with
          incompleteCorrelationValue := v.incompleteCorrelationValue.setSlice 18 (recv.data.slice 0 18) }
      else
        { v with
          incompleteCorrelationValue := v.incompleteCorrelationValue.setSlice 0 (recv.data.slice 0 18)
          correlationRdy := true
          lastCorrelationValue := v.currentCorrelationValue
          currentCorrelationValue := v.incompleteCorrelationValue.setSlice 0 (recv.data.slice 0 18) }
    else if packetMode recv.data = 0b0110#4 then
      { v with
        correlationPeakRead := recv.data.getLsbD 1
        correlationCountRead := recv.data.getLsbD 0
        peakDetected := false }
    else v
  else v

/-- The new value ends a rise. -/
def peak (s v : PdAsp) : PdAsp :=
  { v with
    correlationMax :=
      if v.lastCorrelationValue > s.correlationMax then v.lastCorrelationValue else s.correlationMax
    currSlopePos := false
    peakDetected := true
    counterPrev := s.counter
    counter := 0 }

/-- The slope from the last value to the new one. -/
def slope (s v : PdAsp) : PdAsp :=
  if v.correlationRdy then
    let v := { v with currSlopePos := s.lastSlopePos, correlationRdy := false }
    let v :=
      if s.lastSlopePos then
        if v.currentCorrelationValue > v.lastCorrelationValue then { v with counter := s.counter + 1 }
        else s.peak v
      else if v.currentCorrelationValue ≥ v.lastCorrelationValue then
        { v with
          correlationMin :=
            if v.lastCorrelationValue < s.correlationMin then v.lastCorrelationValue else s.correlationMin
          currSlopePos := true }
      else { v with counter := s.counter + 1 }
    { v with lastSlopePos := v.currSlopePos }
  else v

/-- To the Nios: a peak, with the number of values counted before it. -/
def reportPacket (counterPrev : BitVec 18) : TdmaMinPort :=
  ⟨0b00000111#8, ((dataWord 0b0111#4).setSlice 18 1#1).setSlice 0 counterPrev⟩

def send (s v : PdAsp) : PdAsp :=
  if s.peakDetected then { v with sendSignal := reportPacket s.counterPrev, peakDetectSent := true }
  else { v with sendSignal := .idle }

def clock (s : PdAsp) (recv : TdmaMinPort) : PdAsp := s.send (s.slope (s.decode recv))

def detects (s : PdAsp) (recv : TdmaMinPort) : Bool :=
  (s.decode recv).correlationRdy && s.lastSlopePos &&
    !decide ((s.decode recv).currentCorrelationValue > (s.decode recv).lastCorrelationValue)

theorem sendSignal_clock (s : PdAsp) (recv : TdmaMinPort) :
    (s.clock recv).sendSignal = if s.peakDetected then reportPacket s.counterPrev else .idle := by
  unfold clock send
  split <;> rfl

inductive Sent : TdmaMinPort → Prop
  | idle : Sent .idle
  | report (c : BitVec 18) : Sent (reportPacket c)

theorem sent_clock (s : PdAsp) (recv : TdmaMinPort) : Sent (s.clock recv).sendSignal := by
  unfold clock send
  split
  · exact .report ..
  · exact .idle

end PdAsp
end TdmaSoc
