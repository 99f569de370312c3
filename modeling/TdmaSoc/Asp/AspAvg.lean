import Mathlib.Logic.Function.Basic
import TdmaSoc.Tdma.Types

/-!
# The earlier averaging component

`AspAvg`. It collects `WINDOW` samples, then sends their average and the address of that in the next two clocks.
While it sends it does not look at what it receives.
-/

namespace TdmaSoc

structure AspAvg where
  outAddr : BitVec 10
  /-- `integer range 0 to 2` -/
  sendStage : Nat
  sendBuffer : TdmaMinData
  send : TdmaMinPort
  -- process variables
  buf : Nat → BitVec 8
  index : Nat

namespace AspAvg

def destMem : BitVec 4 := 0b0110

def destData : BitVec 4 := 0b0101

/-- `buf` has no value at power-on. -/
def init (buf : Nat → BitVec 8) : AspAvg where
  outAddr := 0
  sendStage := 0
  sendBuffer := 0
  send := .idle
  buf := buf
  index := 0

/-- A sample that is ready: type 0000 with bit 8 set. -/
def isReady (d : TdmaMinData) : Bool := packetType d == 0b0000#4 && d.getLsbD 8

/-- The `for` loop over the samples in `buf`. -/
def sum (WINDOW : Nat) (buf : Nat → BitVec 8) : BitVec 16 :=
  (List.range WINDOW).foldl (fun sum i => sum + (buf i).signExtend 16) 0

/-- `resize(sum(15 downto 2), 16)` -/
def avg (sum : BitVec 16) : BitVec 16 := (sum.slice 2 14).signExtend 16

def averageWord (avg : BitVec 16) : TdmaMinData := 0b0011#4 ++ destData ++ 0b0000000#7 ++ 1#1 ++ avg

def addressWord (addr : BitVec 10) : TdmaMinData := 0b0100#4 ++ destMem ++ 0#14 ++ addr

def clock (WINDOW : Nat) (s : AspAvg) (recv : TdmaMinPort) : AspAvg :=
  if s.sendStage = 1 then
    { s with send := ⟨0b0100#4 ++ destMem, addressWord (s.outAddr - 1)⟩, sendStage := 0 }
  else if s.sendStage = 2 then
    { s with send := ⟨0b0011#4 ++ destData, s.sendBuffer⟩, sendStage := 1 }
  else if isReady recv.data then
    let buf := Function.update s.buf s.index (recv.data.slice 0 8)
    let index := (s.index + 1) % WINDOW
    if index = 0 then
      { s with
        send := .idle
        buf := buf
        index := index
        sendStage := 2
        sendBuffer := averageWord (avg (sum WINDOW buf))
        outAddr := s.outAddr + 1 }
    else { s with send := .idle, buf := buf, index := index }
  else { s with send := .idle }

end AspAvg
end TdmaSoc
