import TdmaSoc.Asp.ADCAsp
import TdmaSoc.Asp.AvgAsp
import TdmaSoc.Asp.CorAspStep
import TdmaSoc.Asp.Nios
import TdmaSoc.Asp.PdAsp
import TdmaSoc.Lib.Machine
import TdmaSoc.Tdma.Traffic

/-!
# The components on the network

`TopLevel` connects the ADC, averaging, correlation and peak detection components and the Nios to ports
1, 2, 3, 4 and 7 of a network of eight. Here any of them may be taken off (`on` says which are there);
a port without its component sends what the environment likes.
-/

namespace TdmaSoc

structure Chip where
  net : TdmaMin 8
  adc : ADCAsp
  avg : AvgAspRAM
  cor : CorAsp
  pd : PdAsp
  nios : Nios

/-- The environment in one clock: the pins of the ADC, whether the processor gets to access its ports,
and what the ports without component send. -/
structure ChipInput where
  adc : BitVec 10
  poll : Bool
  sends : Fin 8 → TdmaMinPort

/-- Nothing is sent and the processor does not get to its ports. -/
def ChipInput.quiet : ChipInput := ⟨0, false, fun _ => .idle⟩

/-- The components at `ps` are there and no others. -/
def onPorts (ps : List (Fin 8)) (p : Fin 8) : Bool := ps.contains p

namespace Chip

def init : Chip := ⟨.init, .init, .init, .init, .init, .init⟩

def component (x : Chip) (p : Fin 8) : Option TdmaMinPort :=
  match p with
  | 1 => some x.adc.sendSignal
  | 2 => some x.avg.sendSignal
  | 3 => some x.cor.sendSignal
  | 4 => some x.pd.sendSignal
  | 7 => some x.nios.sendSignal
  | _ => none

def sends (on : Fin 8 → Bool) (x : Chip) (i : ChipInput) (p : Fin 8) : TdmaMinPort :=
  if on p then (x.component p).getD (i.sends p) else i.sends p

def clock (on : Fin 8 → Bool) (x : Chip) (i : ChipInput) : Chip where
  net := x.net.clock (x.sends on i)
  adc := x.adc.clock i.adc (x.net.recvs 1)
  avg := x.avg.clock (x.net.recvs 2)
  cor := x.cor.clock (x.net.recvs 3)
  pd := x.pd.clock (x.net.recvs 4)
  nios := if i.poll then x.nios.access (x.net.recvs 7).data else x.nios

def machine (on : Fin 8 → Bool) : Machine Chip ChipInput := ⟨init, clock on⟩

variable {on : Fin 8 → Bool} (x : Chip) (i : ChipInput)

theorem sends_adc (h : on 1 = true) : x.sends on i 1 = x.adc.sendSignal := by simp [sends, component, h]

theorem sends_avg (h : on 2 = true) : x.sends on i 2 = x.avg.sendSignal := by simp [sends, component, h]

theorem sends_cor (h : on 3 = true) : x.sends on i 3 = x.cor.sendSignal := by simp [sends, component, h]

theorem sends_nios (h : on 7 = true) : x.sends on i 7 = x.nios.sendSignal := by simp [sends, component, h]

/-- The components send nothing but their own packets, and the queues hold valid packets only. -/
structure Sound (x : Chip) : Prop where
  queues : x.net.QueuesValid
  adc : ADCAsp.Sent x.adc.sendSignal
  avg : AvgAspRAM.Sent x.avg.sendSignal
  cor : CorAsp.Sent x.cor.sendSignal
  pd : PdAsp.Sent x.pd.sendSignal

theorem Sound.init : Chip.init.Sound := ⟨.init, .idle, .idle, .idle, .idle⟩

theorem Sound.clock {x : Chip} (h : x.Sound) (i : ChipInput) : (x.clock on i).Sound :=
  ⟨h.queues.clock _, ADCAsp.sent_clock .., AvgAspRAM.sent_clock .., CorAsp.sent_clock .., PdAsp.sent_clock ..⟩

end Chip
end TdmaSoc
