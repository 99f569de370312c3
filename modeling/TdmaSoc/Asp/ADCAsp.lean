import TdmaSoc.Asp.Packets

/-!
# The ADC component

`ADCAsp`. A counter of clocks is compared with the configured delay; when it has reached it, the word
on the ADC's pins is sent to the averaging component and the counter starts again.
-/

namespace TdmaSoc

structure ADCAsp where
  adcSampleDelay : Nat
  sendSignal : TdmaMinPort
  bitSize : Bool
  adcSampleDelayCounter : Nat
deriving DecidableEq, Repr

namespace ADCAsp

def init : ADCAsp := ⟨16, .idle, false, 0⟩

/-- Type 1001 with bit 23 clear; with bit 23 set it is for the averaging component. -/
def isConfig (d : TdmaMinData) : Bool := packetType d == 0b1001#4 && !d.getLsbD 23

/-- The delays of the codes 000 to 111. -/
def sampleDelay (code : BitVec 3) : Nat :=
  match code with
  | 0b000#3 => 1
  | 0b001#3 => 2
  | 0b010#3 => 4
  | 0b011#3 => 8
  | 0b100#3 => 16
  | 0b101#3 => 32
  | 0b110#3 => 64
  | _ => 128

/-- To AvgAsp: a sample, with bit 10 set. -/
def samplePacket (bitSize : Bool) (adc : BitVec 10) : TdmaMinPort :=
  ⟨0b00000010#8,
    (((dataWord 0b0001#4).setSlice 10 1#1).setSlice 11 (BitVec.ofBool bitSize)).setSlice 0 adc⟩

def expired (s : ADCAsp) : Bool := decide (s.adcSampleDelayCounter ≥ s.adcSampleDelay)

def clock (s : ADCAsp) (adc : BitVec 10) (recv : TdmaMinPort) : ADCAsp where
  adcSampleDelay := if isConfig recv.data then sampleDelay (recv.data.slice 0 3) else s.adcSampleDelay
  bitSize := !(isConfig recv.data && !recv.data.getLsbD 3)
  sendSignal := if s.expired then samplePacket s.bitSize adc else .idle
  adcSampleDelayCounter := (if s.expired then 0 else s.adcSampleDelayCounter) + 1

@[simp] theorem samplePacket_addr (b : Bool) (adc : BitVec 10) : (samplePacket b adc).addr = 2#8 := rfl

@[simp] theorem isData_samplePacket (mode : BitVec 4) (b : Bool) (adc : BitVec 10) :
    isData mode (samplePacket b adc).data = (0b0001#4 == mode) := by
  rw [samplePacket, isData_setSlice _ _ _ (by decide), isData_setSlice _ _ _ (by decide),
    isData_setSlice _ _ _ (by decide), isData_dataWord]

@[simp] theorem valid_samplePacket (b : Bool) (adc : BitVec 10) : (samplePacket b adc).valid = true :=
  msb_of_isData (show isData 0b0001#4 _ = true by simp)

inductive Sent : TdmaMinPort → Prop
  | idle : Sent .idle
  | sample (b : Bool) (adc : BitVec 10) : Sent (samplePacket b adc)

theorem sent_clock (s : ADCAsp) (adc : BitVec 10) (recv : TdmaMinPort) : Sent (s.clock adc recv).sendSignal := by
  show Sent (if s.expired then _ else _)
  split
  · exact .sample ..
  · exact .idle

end ADCAsp
end TdmaSoc
