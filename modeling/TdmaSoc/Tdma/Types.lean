import TdmaSoc.Lib.Slice

/-!
# TdmaMinTypes

Addresses, data words and ports of the TDMA network, and the fields every packet has: a type in bits
31 to 28 and a mode in bits 23 to 20.
-/

namespace TdmaSoc

abbrev TdmaMinAddr := BitVec 8

abbrev TdmaMinData := BitVec 32

@[ext] structure TdmaMinPort where
  addr : TdmaMinAddr
  data : TdmaMinData
deriving DecidableEq, Repr

/-- The network of the chip has eight ports. -/
instance eightPorts : NeZero 8 := ⟨by decide⟩

/-- The `while` loop of `log2Ceil`, entered with exponent `i`. The guard `i < 31` ends it within 31
turns. -/
def log2CeilLoop (x : Nat) : Nat → Nat → Nat
  | 0, i => i
  | turns + 1, i => if 2 ^ i < x ∧ i < 31 then log2CeilLoop x turns (i + 1) else i

def log2Ceil (x : Nat) : Nat := log2CeilLoop x 31 0

theorem le_two_pow_log2CeilLoop {x : Nat} (hx : x ≤ 2 ^ 31) :
    ∀ {turns i : Nat}, 31 ≤ turns + i → i ≤ 31 → x ≤ 2 ^ log2CeilLoop x turns i
  | 0, i, ht, hi => by rw [show i = 31 by omega]; exact hx
  | turns + 1, i, ht, hi => by
    rw [log2CeilLoop]
    split
    case isTrue h => exact le_two_pow_log2CeilLoop hx (by omega) (by omega)
    case isFalse h =>
      by_cases h31 : i < 31
      · omega
      · rw [show i = 31 by omega]; exact hx

theorem log2CeilLoop_le {x b : Nat} (hx : x ≤ 2 ^ b) :
    ∀ {turns i : Nat}, i ≤ b → log2CeilLoop x turns i ≤ b
  | 0, _, hi => hi
  | turns + 1, i, hi => by
    rw [log2CeilLoop]
    split
    case isTrue h =>
      have : i < b := (Nat.pow_lt_pow_iff_right (by decide)).1 (Nat.lt_of_lt_of_le h.1 hx)
      exact log2CeilLoop_le hx this
    case isFalse => exact hi

/-- `log2Ceil` terminals are enough for `x` ports. -/
theorem le_two_pow_log2Ceil {x : Nat} (hx : x ≤ 2 ^ 31) : x ≤ 2 ^ log2Ceil x :=
  le_two_pow_log2CeilLoop hx (by decide) (by decide)

theorem log2Ceil_le {x b : Nat} (hx : x ≤ 2 ^ b) : log2Ceil x ≤ b :=
  log2CeilLoop_le hx (Nat.zero_le b)

namespace TdmaMinPort

def idle : TdmaMinPort := ⟨0, 0⟩

/-- `data'high`, the bit that makes the interface take the word as a packet. -/
def valid (p : TdmaMinPort) : Bool := p.data.msb

end TdmaMinPort

def packetType (d : TdmaMinData) : BitVec 4 := d.slice 28 4

def packetMode (d : TdmaMinData) : BitVec 4 := d.slice 20 4

theorem msb_eq_packetType_msb (d : TdmaMinData) : d.msb = (packetType d).msb := by
  simp [packetType, BitVec.slice, BitVec.msb_eq_getLsbD_last]

theorem msb_of_packetType {d : TdmaMinData} {t : BitVec 4} (h : packetType d = t) (ht : t.msb = true) :
    d.msb = true := by
  rw [msb_eq_packetType_msb, h, ht]

end TdmaSoc
