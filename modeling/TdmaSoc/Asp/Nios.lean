import Mathlib.Logic.Function.Basic
import TdmaSoc.Asp.Packets

/-!
# The program of the Nios

The main loop of `gp2.c`. The processor makes at most one access to its parallel ports per clock: it
reads `TDMA_RECV_DATA`, or makes the next of the writes that handling the last word read has left to
do. Variables that only the processor sees change with the read.
-/

namespace TdmaSoc

/-- The board has six displays. -/
instance sixDisplays : NeZero 6 := ⟨by decide⟩

inductive Pio
  | hex (digit : Fin 6) | tdmaSendAddr | tdmaSendData
deriving DecidableEq, Repr

structure Nios where
  maxCorr : BitVec 32
  /-- The writes to be made before the next word is read. -/
  todo : List (Pio × BitVec 32)
  hex : Fin 6 → BitVec 7
  tdmaSendAddr : BitVec 8
  tdmaSendData : BitVec 32

namespace Nios

/-- At the start of `main` the displays are to be set to 15. -/
def init : Nios where
  maxCorr := 0
  todo := [(.hex 0, 15), (.hex 1, 15), (.hex 2, 15), (.hex 3, 15), (.hex 4, 15), (.hex 5, 15)]
  hex := fun _ => 0
  tdmaSendAddr := 0
  tdmaSendData := 0

/-- `IOWR_ALTERA_AVALON_PIO_DATA` -/
def iowr (port : Pio) (data : BitVec 32) (s : Nios) : Nios :=
  match port with
  | .hex digit => { s with hex := Function.update s.hex digit (data.setWidth 7) }
  | .tdmaSendAddr => { s with tdmaSendAddr := data.setWidth 8 }
  | .tdmaSendData => { s with tdmaSendData := data }

/-- The segments that `display7` lights. -/
def display7 (number : Nat) : BitVec 32 :=
  match number with
  | 0 => 64
  | 1 => 121
  | 2 => 36
  | 3 => 48
  | 4 => 25
  | 5 => 18
  | 6 => 2
  | 7 => 120
  | 8 => 0
  | 9 => 16
  | _ => 0

/-- A data packet with id 0111 and bit 18 set. -/
def isReport (recvData : BitVec 32) : Bool :=
  (recvData >>> 28) &&& 0xF == 0b1000 && (recvData >>> 20) &&& 0xF == 0b0111 && (recvData >>> 18) &&& 1 == 1

/-- `(0b1000 << 28) | (0b0110 << 20) | 0b11` -/
def corrRead : BitVec 32 := (0b1000#32 <<< 28) ||| (0b0110#32 <<< 20) ||| 0b11#32

/-- The body of the loop after `recvData` has been read. -/
def handle (s : Nios) (recvData : BitVec 32) : Nios :=
  if isReport recvData then
    let corrCount := recvData &&& 0x3FFFF#32
    let shown :=
      if corrCount > s.maxCorr then
        [(Pio.hex 0, display7 (corrCount % 10).toNat), (Pio.hex 1, display7 (corrCount / 10 % 10).toNat),
          (Pio.hex 2, display7 (corrCount / 100 % 10).toNat)]
      else []
    { s with
      maxCorr := if corrCount > s.maxCorr then corrCount else s.maxCorr
      todo := shown ++ [(.tdmaSendAddr, 0b0100), (.tdmaSendData, corrRead)] }
  else s

def access (s : Nios) (recvData : BitVec 32) : Nios :=
  match s.todo with
  | (port, data) :: todo => { s.iowr port data with todo := todo }
  | [] => s.handle recvData

/-- The send port of the network is wired to two output ports. -/
def sendSignal (s : Nios) : TdmaMinPort := ⟨s.tdmaSendAddr, s.tdmaSendData⟩

def readsReport (s : Nios) (recvData : BitVec 32) : Bool := s.todo.isEmpty && isReport recvData

/-- The send data register holds an acknowledgement, or one is about to be written to it. -/
def acknowledges (s : Nios) : Prop := s.tdmaSendData ≠ 0 ∨ ∃ data, (Pio.tdmaSendData, data) ∈ s.todo

instance (s : Nios) : Decidable s.acknowledges :=
  decidable_of_iff (s.tdmaSendData ≠ 0 ∨ ∃ w ∈ s.todo, w.1 = Pio.tdmaSendData) <| by
    refine or_congr Iff.rfl ⟨fun ⟨w, hw, h⟩ => ⟨w.2, by rw [← h]; exact hw⟩, fun ⟨data, h⟩ => ⟨_, h, rfl⟩⟩

/-- The only word ever written to the send data register is the acknowledgement. -/
def OnlyCorrRead (s : Nios) : Prop := ∀ w ∈ s.todo, w.1 = Pio.tdmaSendData → w.2 = corrRead

instance (s : Nios) : Decidable s.OnlyCorrRead := inferInstanceAs (Decidable (∀ w ∈ s.todo, _ → _))

variable {s : Nios} {recvData : BitVec 32}

theorem tdmaSendData_iowr (s : Nios) (port : Pio) (data : BitVec 32) : (s.iowr port data).tdmaSendData =
    if port = .tdmaSendData then data else s.tdmaSendData := by
  cases port <;> rfl

theorem access_of_todo {w : Pio × BitVec 32} {ws : List (Pio × BitVec 32)} (h : s.todo = w :: ws) :
    s.access recvData = { s.iowr w.1 w.2 with todo := ws } := by
  simp [access, h]

theorem access_of_nil (h : s.todo = []) : s.access recvData = s.handle recvData := by simp [access, h]

theorem OnlyCorrRead.access (h : s.OnlyCorrRead) : (s.access recvData).OnlyCorrRead := by
  cases hw : s.todo with
  | cons w ws =>
    rw [access_of_todo hw]
    exact fun v hv => h v (by rw [hw]; exact List.mem_cons_of_mem _ hv)
  | nil =>
    rw [access_of_nil hw, handle]
    split
    · intro w hm hport
      dsimp only at hm
      rw [List.mem_append] at hm
      rcases hm with hm | hm
      · split at hm
        · simp only [List.mem_cons, List.not_mem_nil, or_false] at hm
          rcases hm with rfl | rfl | rfl <;> cases hport
        · cases hm
      · simp only [List.mem_cons, List.not_mem_nil, or_false] at hm
        rcases hm with rfl | rfl
        · cases hport
        · rfl
    · exact h

theorem OnlyCorrRead.keeps (h : s.OnlyCorrRead) (hs : s.tdmaSendData ≠ 0) :
    (s.access recvData).tdmaSendData ≠ 0 := by
  cases hw : s.todo with
  | cons w ws =>
    rw [access_of_todo hw]
    show (s.iowr w.1 w.2).tdmaSendData ≠ 0
    rw [tdmaSendData_iowr]
    split
    case isTrue hp => rw [h w (by rw [hw]; exact List.mem_cons_self ..) hp]; decide
    case isFalse => exact hs
  | nil =>
    rw [access_of_nil hw, handle]
    split <;> exact hs

/-- Only the reading of a report brings an acknowledgement. -/
theorem acknowledges_of_access (hr : s.readsReport recvData = false) (h : (s.access recvData).acknowledges) :
    s.acknowledges := by
  cases hw : s.todo with
  | cons w ws =>
    rw [access_of_todo hw] at h
    rcases h with h | ⟨data, h⟩
    · have h : (s.iowr w.1 w.2).tdmaSendData ≠ 0 := h
      rw [tdmaSendData_iowr] at h
      split at h
      case isTrue hp => exact .inr ⟨w.2, by rw [hw, ← hp]; exact List.mem_cons_self ..⟩
      case isFalse => exact .inl h
    · exact .inr ⟨data, by rw [hw]; exact List.mem_cons_of_mem _ h⟩
  | nil =>
    have hrep : isReport recvData = false := by simpa [readsReport, hw] using hr
    rw [access_of_nil hw, handle, hrep] at h
    exact h

end Nios
end TdmaSoc
