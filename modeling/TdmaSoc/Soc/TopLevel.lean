import TdmaSoc.Asp.SamplingChain
import TdmaSoc.Lib.Component
import TdmaSoc.ReCOP.Firmware

/-!
# The whole chip

`TopLevel`: the network with everything that is on it, and the signal generator, which shows the next word of its
memory when the ADC has sent one. From outside come the keys and the switches only; the processor of the Nios
makes its accesses at any clocks. `Chip` is a component of it (`hosts_chip`), whose other ports are the registers
of `recop` and of the Nios here. With the program of the memory, and the switches as they should be while KEY1 is
down, all that the sampling chain is sent are configurations (`Inv.configOnly`).
-/

namespace TdmaSoc
open TdmaMin (portAddr)

/-- The memory with the signal takes its address in a register. -/
structure SignalGen where
  address : BitVec 12

namespace SignalGen

def init : SignalGen := ⟨0⟩

def data (signal : BitVec 12 → BitVec 10) (s : SignalGen) : BitVec 10 := signal s.address

def clock (addr : {a : Nat // a < 4096}) : SignalGen := ⟨BitVec.ofNat 12 addr⟩

end SignalGen

structure TopLevel where
  tdmaMin : TdmaMin 8
  aspAdc : ADCAsp
  aspLaf : AvgAspRAM
  aspCor : CorAsp
  aspPd : PdAsp
  recop : RecopPort
  signalGen : SignalGen
  nios : Nios
  counter : Nat
  signalGenAddr : {a : Nat // a < 4096}

/-- The keys and the switches, and whether the Nios gets to access its ports. -/
structure TopLevelInput where
  key : BitVec 4
  sw : BitVec 10
  poll : Bool

namespace Nios
variable {s : Nios} {recvData : BitVec 32}

/-- The only address that the program sends to is that of port 4. -/
structure OnlyToPd (s : Nios) : Prop where
  addr : s.tdmaSendAddr ∈ [0, portAddr 4]
  todo : ∀ w ∈ s.todo, w.1 = .tdmaSendAddr → w.2.setWidth 8 = portAddr 4

theorem OnlyToPd.init : Nios.init.OnlyToPd := ⟨by decide, by decide⟩

theorem OnlyToPd.access (h : s.OnlyToPd) : (s.access recvData).OnlyToPd := by
  cases hw : s.todo with
  | cons w ws =>
    rw [access_of_todo hw]
    refine ⟨?_, fun v hv => h.todo v (by rw [hw]; exact List.mem_cons_of_mem _ hv)⟩
    show (s.iowr w.1 w.2).tdmaSendAddr ∈ _
    cases hport : w.1 with
    | hex digit => exact h.addr
    | tdmaSendData => exact h.addr
    | tdmaSendAddr =>
      have haddr := h.todo w (by rw [hw]; exact List.mem_cons_self) hport
      exact List.mem_cons_of_mem _ (List.mem_singleton.2 haddr)
  | nil =>
    rw [access_of_nil hw, handle]
    split
    · refine ⟨h.addr, fun w hm hport => ?_⟩
      dsimp only at hm
      rw [List.mem_append] at hm
      rcases hm with hm | hm
      · split at hm
        · simp only [List.mem_cons, List.not_mem_nil, or_false] at hm
          rcases hm with rfl | rfl | rfl <;> cases hport
        · cases hm
      · simp only [List.mem_cons, List.not_mem_nil, or_false] at hm
        rcases hm with rfl | rfl
        · rfl
        · cases hport
    · exact h

end Nios

namespace TopLevel

def init (mem : BitVec 12 → Word) : TopLevel :=
  ⟨.init, .init, .init, .init, .init, .init mem, .init, .init, 0, ⟨0, by decide⟩⟩

/-- Nothing drives ports 0 and 6. -/
def sendPort (x : TopLevel) (p : Fin 8) : TdmaMinPort :=
  match p with
  | 1 => x.aspAdc.sendSignal
  | 2 => x.aspLaf.sendSignal
  | 3 => x.aspCor.sendSignal
  | 4 => x.aspPd.sendSignal
  | 5 => x.recop.sendSignal
  | 7 => x.nios.sendSignal
  | _ => .idle

/-- The ADC has sent the data. -/
def sent (x : TopLevel) : Bool := (x.sendPort 1).data.getLsbD 10

def clock (rom : ProgMem) (signal : BitVec 12 → BitVec 10) (x : TopLevel) (i : TopLevelInput) : TopLevel where
  tdmaMin := x.tdmaMin.clock x.sendPort
  aspAdc := x.aspAdc.clock (x.signalGen.data signal) (x.tdmaMin.recvs 1)
  aspLaf := x.aspLaf.clock (x.tdmaMin.recvs 2)
  aspCor := x.aspCor.clock (x.tdmaMin.recvs 3)
  aspPd := x.aspPd.clock (x.tdmaMin.recvs 4)
  recop := x.recop.clock rom i.key i.sw
  signalGen := .clock x.signalGenAddr
  -- KEY0 resets the Nios
  nios :=
    if i.key.getLsbD 0 = false then .init
    else if i.poll then x.nios.access (x.tdmaMin.recvs 7).data else x.nios
  counter := if x.sent then x.counter + 1 else x.counter
  signalGenAddr := if x.sent then ⟨(x.counter + 1) % 4096, Nat.mod_lt _ (by decide)⟩ else x.signalGenAddr

def machine (rom : ProgMem) (mem : BitVec 12 → Word) (signal : BitVec 12 → BitVec 10) :
    Machine TopLevel TopLevelInput := ⟨init mem, clock rom signal⟩

/-! ### The components -/

/-- The ports of the four ASPs; the Nios is on its port by itself. -/
def asps : Fin 8 → Bool := onPorts [1, 2, 3, 4]

def chip (x : TopLevel) : Chip := ⟨x.tdmaMin, x.aspAdc, x.aspLaf, x.aspCor, x.aspPd, .init⟩

def chipInput (signal : BitVec 12 → BitVec 10) (x : TopLevel) (_ : TopLevelInput) : ChipInput :=
  ⟨x.signalGen.data signal, false, x.sendPort⟩

variable {rom : ProgMem} {mem : BitVec 12 → Word} {signal : BitVec 12 → BitVec 10}

theorem chip_sends {on : Fin 8 → Bool} (hon : ∀ p, on p = true → asps p = true) (x : TopLevel) (i : TopLevelInput) :
    x.chip.sends on (x.chipInput signal i) = x.sendPort := by
  funext p
  by_cases hp : on p = true
  · have hport : p ∈ [(1 : Fin 8), 2, 3, 4] := List.contains_iff_mem.1 (hon p hp)
    simp only [List.mem_cons, List.not_mem_nil, or_false] at hport
    rcases hport with rfl | rfl | rfl | rfl <;> exact if_pos hp
  · exact if_neg hp

theorem chip_clock {on : Fin 8 → Bool} (hon : ∀ p, on p = true → asps p = true) (rom : ProgMem)
    (signal : BitVec 12 → BitVec 10) (x : TopLevel) (i : TopLevelInput) :
    (x.clock rom signal i).chip = x.chip.clock on (x.chipInput signal i) := by
  show Chip.mk (x.tdmaMin.clock x.sendPort) _ _ _ _ _ = Chip.mk (x.tdmaMin.clock _) _ _ _ _ _
  rw [chip_sends hon]
  rfl

/-- On any of the ports of the ASPs, the chip is a component. -/
theorem hosts_on {on : Fin 8 → Bool} (hon : ∀ p, on p = true → asps p = true) :
    (machine rom mem signal).Hosts (Chip.machine on) chip (chipInput signal) :=
  ⟨rfl, chip_clock hon rom signal⟩

theorem hosts_chip : (machine rom mem signal).Hosts (Chip.machine asps) chip (chipInput signal) :=
  hosts_on fun _ hp => hp

/-! ### What the sampling chain is sent -/

/-- While KEY1 is down the switches select a delay of sixteen clocks or more. -/
def CarriedDelay (i : TopLevelInput) : Prop := i.key.getLsbD 1 = false → 4 ≤ (i.sw.slice 0 3).toNat

instance (i : TopLevelInput) : Decidable (CarriedDelay i) := inferInstanceAs (Decidable (_ → _))

/-- A configuration packet of the chain; one for the ADC selects the codes 100 to 111. -/
structure Configures (packet : TdmaMinPort) : Prop where
  config : isConfig packet.data = true
  delay : ADCAsp.isConfig packet.data = true → 4 ≤ (packet.data.slice 0 3).toNat

theorem configures_adcConfig {sw : BitVec 10} (h : 4 ≤ (sw.slice 0 3).toNat) : Configures (RecopPort.adcConfig sw) := by
  have htype : packetType (RecopPort.adcConfig sw).data = 0b1001#4 := by
    unfold packetType RecopPort.adcConfig
    rw [BitVec.slice_setSlice_disjoint _ _ (.inr (by omega)), BitVec.slice_setSlice_disjoint _ _ (.inr (by omega)),
      BitVec.slice_setSlice_disjoint _ _ (.inr (by omega)), BitVec.slice_setSlice_same _ _ _ (by omega)]
  have hcode : (RecopPort.adcConfig sw).data.slice 0 3 = sw.slice 0 3 := BitVec.slice_setSlice_same _ _ _ (by omega)
  exact ⟨by rw [isConfig, htype]; rfl, fun _ => hcode ▸ h⟩

theorem configures_avgConfig (sw : BitVec 10) : Configures (RecopPort.avgConfig sw) := by
  have htype : packetType (RecopPort.avgConfig sw).data = 0b1001#4 := by
    unfold packetType RecopPort.avgConfig
    rw [BitVec.slice_setSlice_disjoint _ _ (.inr (by omega)), BitVec.slice_setSlice_disjoint _ _ (.inr (by omega)),
      BitVec.slice_setSlice_disjoint _ _ (.inr (by omega)), BitVec.slice_setSlice_same _ _ _ (by omega)]
  have hbit : (RecopPort.avgConfig sw).data.getLsbD 23 = true := by
    unfold RecopPort.avgConfig
    rw [BitVec.getLsbD_setSlice, BitVec.getLsbD_setSlice, BitVec.getLsbD_setSlice]
    rfl
  exact ⟨by rw [isConfig, htype]; rfl, fun hadc => by rw [ADCAsp.isConfig, hbit] at hadc; simp at hadc⟩

theorem configures_corConfig (sw : BitVec 10) : Configures (RecopPort.corConfig sw) := by
  have htype : packetType (RecopPort.corConfig sw).data = 0b1010#4 := by
    unfold packetType RecopPort.corConfig
    rw [BitVec.slice_setSlice_disjoint _ _ (.inr (by omega)), BitVec.slice_setSlice_same _ _ _ (by omega)]
  exact ⟨by rw [isConfig, htype]; rfl, fun hadc => by rw [ADCAsp.isConfig, htype] at hadc; cases hadc⟩

theorem configures_of_offer {i : TopLevelInput} (hi : CarriedDelay i) {packet : TdmaMinPort}
    (h : RecopPort.Offer i.key i.sw packet) (hv : packet.valid = true) : Configures packet := by
  cases h with
  | idle => cases hv
  | program h =>
    simp only [List.mem_cons, List.not_mem_nil, or_false] at h
    rcases h with rfl | rfl | rfl <;> exact ⟨by decide, by decide⟩
  | adc h => exact configures_adcConfig (hi h)
  | avg h => exact configures_avgConfig i.sw
  | cor h => exact configures_corConfig i.sw

/-- The state of the rest of the chip, as the sampling chain sees it. -/
structure Inv (x : TopLevel) : Prop where
  pd : PdAsp.Sent x.aspPd.sendSignal
  nios : x.nios.OnlyToPd
  program : x.recop.Runs firmware
  recop : x.recop.sendSignal.valid = true → Configures x.recop.sendSignal

theorem Inv.init (mem : BitVec 12 → Word) : (init mem).Inv :=
  ⟨.idle, .init, .init firmware mem, fun hv => absurd (show TdmaMinPort.idle.valid = true from hv) (by decide)⟩

theorem Inv.clock {x : TopLevel} (h : x.Inv) {i : TopLevelInput} (hi : CarriedDelay i) :
    (x.clock firmware signal i).Inv where
  pd := PdAsp.sent_clock ..
  nios := by
    show (if i.key.getLsbD 0 = false then Nios.init else if i.poll then _ else _ : Nios).OnlyToPd
    split_ifs
    · exact .init
    · exact h.nios.access
    · exact h.nios
  program := h.program.clock i.key i.sw
  recop hv := by
    rcases h.program.sendSignal_clock i.key i.sw with hsame | hoffer
    · have hsame : (x.clock firmware signal i).recop.sendSignal = x.recop.sendSignal := hsame
      rw [hsame] at hv ⊢
      exact h.recop hv
    · exact configures_of_offer hi hoffer hv

theorem Inv.configOnly {x : TopLevel} (h : x.Inv) (i : TopLevelInput) :
    Chip.ConfigOnly asps x.chip (x.chipInput signal i) := by
  intro p hp1 hp2 hp3 hv haddr
  rw [chip_sends fun _ hp => hp] at hv haddr ⊢
  have hothers : ∀ p : Fin 8, p ≠ 1 → p ≠ 2 → p ≠ 3 → p = 0 ∨ p = 4 ∨ p = 5 ∨ p = 6 ∨ p = 7 := by decide
  rcases hothers p hp1 hp2 hp3 with rfl | rfl | rfl | rfl | rfl
  · exact absurd (show TdmaMinPort.idle.valid = true from hv) (by decide)
  · -- the peak detection component sends to port 7
    have hsent : PdAsp.Sent x.aspPd.sendSignal := h.pd
    change x.aspPd.sendSignal.valid = true at hv
    change x.aspPd.sendSignal.addr ∈ _ at haddr
    generalize x.aspPd.sendSignal = packet at hsent hv haddr
    cases hsent with
    | idle => exact absurd hv (by decide)
    | report c => exact absurd (show portAddr (7 : Fin 8) ∈ _ from haddr) (by decide)
  · have hconf := h.recop hv
    exact ⟨rfl, hconf.config, fun _ => hconf.delay⟩
  · exact absurd (show TdmaMinPort.idle.valid = true from hv) (by decide)
  · -- and the Nios to port 4
    have hnios : x.nios.tdmaSendAddr ∈ _ := h.nios.addr
    simp only [List.mem_cons, List.not_mem_nil, or_false] at hnios
    change x.nios.tdmaSendAddr ∈ _ at haddr
    exfalso
    revert haddr
    rcases hnios with hnios | hnios <;> rw [hnios] <;> decide

section Run
variable {is : List TopLevelInput} (h : (machine firmware mem signal).Along (fun _ i => CarriedDelay i) is)
include h

theorem run_inv : ((machine firmware mem signal).run is).Inv :=
  Machine.invariant (.init mem) (fun _ _ hx hi => hx.clock hi) h

theorem along_configOnly : (machine firmware mem signal).Along
    (fun x i => Chip.ConfigOnly asps x.chip (x.chipInput signal i)) is :=
  (h.strengthen (I := Inv) (.init mem) fun _ _ hx hi => hx.clock hi).mono fun _ i hx => hx.1.configOnly i

theorem run_chain : ((machine firmware mem signal).run is).chip.Chain := by
  rw [← hosts_chip.run]
  exact Chip.run_chain (by decide) (by decide) (by decide) (hosts_chip.along_iff.2 (along_configOnly h))

end Run

end TopLevel
end TdmaSoc
