import TdmaSoc.Tdma.Types

/-!
# Packets of the application

Type 1000 marks a data packet; its mode says what it carries. Types 1001, 1010 and 1011 configure the
ADC and averaging, the correlation and the peak detection components.
-/

namespace TdmaSoc

def isData (mode : BitVec 4) (d : TdmaMinData) : Bool := packetType d == 0b1000#4 && packetMode d == mode

abbrev isSample := isData 0b0001#4
abbrev isAvgRequest := isData 0b0010#4
/-- An average, the answer to a request. -/
abbrev isAvgData := isData 0b0011#4
/-- The address of a new average. -/
abbrev isAvgAddr := isData 0b0100#4
/-- One half of a correlation value. -/
abbrev isCorrelation := isData 0b0101#4
/-- The acknowledgement of a peak, Correlation Count Read. -/
abbrev isCountRead := isData 0b0110#4
abbrev isPeakReport := isData 0b0111#4

/-- A cleared word with the type and the mode of a data packet. -/
def dataWord (mode : BitVec 4) : TdmaMinData := ((0#32).setSlice 28 0b1000#4).setSlice 20 mode

theorem isData_iff {mode : BitVec 4} {d : TdmaMinData} :
    isData mode d = true ↔ packetType d = 0b1000#4 ∧ packetMode d = mode := by
  simp [isData]

@[simp] theorem isData_zero (mode : BitVec 4) : isData mode 0#32 = false := by
  simp [isData, packetType]

theorem msb_of_isData {mode : BitVec 4} {d : TdmaMinData} (h : isData mode d = true) : d.msb = true :=
  msb_of_packetType (isData_iff.1 h).1 (by decide)

/-- Assigning bits below 20 does not change what kind of packet a word is. -/
theorem isData_setSlice {w lo : Nat} (mode : BitVec 4) (d : TdmaMinData) (v : BitVec w) (h : lo + w ≤ 20) :
    isData mode (d.setSlice lo v) = isData mode d := by
  rw [isData, isData, packetType, packetMode, BitVec.slice_setSlice_disjoint _ _ (.inr (by omega)),
    BitVec.slice_setSlice_disjoint _ _ (.inr (by omega))]
  rfl

@[simp] theorem isData_dataWord (mode mode' : BitVec 4) : isData mode' (dataWord mode) = (mode == mode') := by
  simp (disch := decide) [isData, packetType, packetMode, dataWord, BitVec.slice_setSlice_disjoint]

end TdmaSoc
