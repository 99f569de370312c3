import TdmaSoc.ReCOP.Datacall
import TdmaSoc.ReCOP.Reset
import TdmaSoc.Tdma.Traffic

/-!
# recop

The entity `recop`, on port 5 of the network: the processor, the counter that holds it in reset at power-on, and
the register that offers a packet to the network in every clock, made of DPCR or, while that has type 0, of the
keys. It does not look whether the FIFO has room. A full FIFO has room again within nine clocks, and DPCR keeps a
word for twelve.
-/

namespace TdmaSoc
open Recop Instruction

structure RecopPort where
  recop : Recop
  resetCounter : Nat
  reset : Bool
  sendSignal : TdmaMinPort

namespace RecopPort

def init (mem : BitVec 12 → Word) : RecopPort := ⟨blank mem, 0, true, .idle⟩

/-- To ADCAsp: the bit size and the delay. -/
def adcConfig (sw : BitVec 10) : TdmaMinPort :=
  ⟨0b00000001#8,
    ((((0#32).setSlice 28 0b1001#4).setSlice 23 0#1).setSlice 3 (sw.slice 3 1)).setSlice 0 (sw.slice 0 3)⟩

/-- To AvgAsp: the correlation interval and the window. -/
def avgConfig (sw : BitVec 10) : TdmaMinPort :=
  ⟨0b00000010#8,
    ((((0#32).setSlice 28 0b1001#4).setSlice 23 1#1).setSlice 3 (sw.slice 3 7)).setSlice 0 (sw.slice 0 3)⟩

/-- To CorAsp: the correlation window. -/
def corConfig (sw : BitVec 10) : TdmaMinPort :=
  ⟨0b00000011#8, ((0#32).setSlice 28 0b1010#4).setSlice 0 (sw.slice 0 3)⟩

def dpcrPacket (dpcr : BitVec 32) : TdmaMinPort :=
  ⟨(0#8).setSlice 0 (dpcr.slice 24 4), ((0#32).setSlice 28 (dpcr.slice 28 4)).setSlice 0 (dpcr.slice 0 24)⟩

/-- What is sent out of reset; a key is `'0'` while it is pressed. -/
def packet (dpcr : BitVec 32) (key : BitVec 4) (sw : BitVec 10) : TdmaMinPort :=
  if dpcr.slice 28 4 = 0b0000#4 then
    if key.getLsbD 1 = false then adcConfig sw
    else if key.getLsbD 2 = false then avgConfig sw
    else if key.getLsbD 3 = false then corConfig sw
    else .idle
  else dpcrPacket dpcr

/-- `dpcr` clears as soon as `reset` is high. -/
def dpcr (x : RecopPort) : BitVec 32 := if x.reset then 0 else x.recop.reg.dpcr

def clock (rom : ProgMem) (x : RecopPort) (key : BitVec 4) (sw : BitVec 10) : RecopPort :=
  let recop := x.recop.edge rom x.reset
  if x.resetCounter < 100 then ⟨recop, x.resetCounter + 1, true, x.sendSignal⟩
  else if key.getLsbD 0 = false then ⟨recop, x.resetCounter, true, .idle⟩
  else ⟨recop, x.resetCounter, false, packet x.dpcr key sw⟩

end RecopPort

/-- The network with `recop` on port 5. -/
structure RecopNet where
  net : TdmaMin 8
  port : RecopPort

/-- The keys, the switches and what the other ports send. -/
structure RecopNetInput where
  key : BitVec 4
  sw : BitVec 10
  sends : Fin 8 → TdmaMinPort

namespace RecopNet

def sends (x : RecopNet) (i : RecopNetInput) (p : Fin 8) : TdmaMinPort :=
  if p = 5 then x.port.sendSignal else i.sends p

def clock (rom : ProgMem) (x : RecopNet) (i : RecopNetInput) : RecopNet where
  net := x.net.clock (x.sends i)
  port := x.port.clock rom i.key i.sw

def machine (rom : ProgMem) (mem : BitVec 12 → Word) : Machine RecopNet RecopNetInput := ⟨⟨.init, .init mem⟩, clock rom⟩

/-- After the first `g` clocks from power-on. -/
def after (rom : ProgMem) (mem : BitVec 12 → Word) (env : Nat → RecopNetInput) (g : Nat) : RecopNet :=
  (machine rom mem).run ((List.range g).map env)

/-- What the FIFO of port 5 takes in this clock. -/
def accepted (x : RecopNet) : List TdmaMinPort :=
  (x.net.interfaces 5).fifo.writes x.port.sendSignal.valid x.port.sendSignal

/-- `p` is the packet for the word `v` of DPCR. -/
structure Conveys (v : BitVec 32) (p : TdmaMinPort) : Prop where
  addr : p.addr = (v.slice 24 4).setWidth 8
  type : p.data.slice 28 4 = v.slice 28 4
  mode : p.data.slice 24 4 = 0
  data : p.data.slice 0 24 = v.slice 0 24

variable {rom : ProgMem} {mem : BitVec 12 → Word} {env : Nat → RecopNetInput}

theorem after_succ (g : Nat) : after rom mem env (g + 1) = (after rom mem env g).clock rom (env g) := by
  unfold after
  rw [List.range_succ, List.map_append]
  exact Machine.run_concat ..

theorem port_succ (g : Nat) :
    (after rom mem env (g + 1)).port = (after rom mem env g).port.clock rom (env g).key (env g).sw := by
  rw [after_succ]
  rfl

/-- The first hundred clocks. -/
theorem port_of_le {g : Nat} (hg : g ≤ 100) : (after rom mem env g).port = ⟨blank mem, g, true, .idle⟩ := by
  induction g with
  | zero => rfl
  | succ g ih =>
    rw [port_succ, ih (by omega), RecopPort.clock, if_pos (show g < 100 by omega)]
    rfl

section
variable (hkey : ∀ g, 100 ≤ g → (env g).key.getLsbD 0 = true)
include hkey

/-- The clock that ends the reset. -/
theorem port_released :
    (after rom mem env 101).port = ⟨blank mem, 100, false, RecopPort.packet 0 (env 100).key (env 100).sw⟩ := by
  rw [port_succ, port_of_le (Nat.le_refl 100), RecopPort.clock, if_neg (show ¬ 100 < 100 by omega),
    if_neg (by rw [hkey 100 (Nat.le_refl _)]; decide)]
  rfl

theorem port_running (rom : ProgMem) (mem : BitVec 12 → Word) (u : Nat) :
    (after rom mem env (101 + u)).port.recop = (blank mem).after rom u ∧
      (after rom mem env (101 + u)).port.resetCounter = 100 ∧ (after rom mem env (101 + u)).port.reset = false := by
  induction u with
  | zero =>
    rw [Nat.add_zero, port_released hkey]
    exact ⟨rfl, rfl, rfl⟩
  | succ u ih =>
    obtain ⟨hrecop, hcounter, hreset⟩ := ih
    rw [← Nat.add_assoc, port_succ, RecopPort.clock, if_neg (by omega),
      if_neg (by rw [hkey (101 + u) (by omega)]; decide)]
    refine ⟨?_, hcounter, rfl⟩
    rw [Recop.after_succ, ← hrecop, hreset]
    rfl

/-- A packet is made of what DPCR held one clock before. -/
theorem sendSignal_succ (u : Nat) :
    (after rom mem env (101 + u + 1)).port.sendSignal =
      RecopPort.packet ((blank mem).after rom u).reg.dpcr (env (101 + u)).key (env (101 + u)).sw := by
  obtain ⟨hrecop, hcounter, hreset⟩ := port_running hkey rom mem u
  rw [port_succ, RecopPort.clock, if_neg (by omega), if_neg (by rw [hkey (101 + u) (by omega)]; decide), ← hrecop]
  dsimp only
  rw [RecopPort.dpcr, hreset]
  rfl

end

/-! ### Every packet goes to one of the eight ports -/

/-- A word of DPCR that is no packet, or one to a port of the network. -/
def Deliverable (v : BitVec 32) : Prop := v.slice 28 4 = 0 ∨ 8 ≤ (v.slice 28 4).toNat ∧ (v.slice 24 4).toNat < 8

instance (v : BitVec 32) : Decidable (Deliverable v) := instDecidableOr

theorem setSlice_zero_addr (t : BitVec 4) : (0#8).setSlice 0 t = t.setWidth 8 := by
  revert t
  decide

theorem packet_addr {v : BitVec 32} (h : Deliverable v) (key : BitVec 4) (sw : BitVec 10) :
    ∃ d : Fin 8, (RecopPort.packet v key sw).addr = TdmaMin.portAddr d := by
  unfold RecopPort.packet
  split
  · split
    · exact ⟨1, rfl⟩
    split
    · exact ⟨2, rfl⟩
    split
    · exact ⟨3, rfl⟩
    · exact ⟨0, rfl⟩
  case isFalse htype =>
    obtain ⟨-, htarget⟩ := h.resolve_left htype
    refine ⟨⟨(v.slice 24 4).toNat, htarget⟩, ?_⟩
    unfold RecopPort.dpcrPacket TdmaMin.portAddr
    dsimp only
    rw [setSlice_zero_addr]
    apply BitVec.eq_of_toNat_eq
    simp

theorem conveys_dpcrPacket (v : BitVec 32) : Conveys v (RecopPort.dpcrPacket v) where
  addr := setSlice_zero_addr _
  type := by
    unfold RecopPort.dpcrPacket
    rw [BitVec.slice_setSlice_disjoint _ _ (.inr (by omega)), BitVec.slice_setSlice_same _ _ _ (by omega)]
  mode := by
    unfold RecopPort.dpcrPacket
    rw [BitVec.slice_setSlice_disjoint _ _ (.inr (by omega)), BitVec.slice_setSlice_disjoint _ _ (.inl (by omega)),
      BitVec.slice_zero]
    rfl
  data := BitVec.slice_setSlice_same _ _ _ (by omega)

/-- The clock after which DPCR holds what the instruction that the processor starts in clock `t` has loaded; the
processor's clock 0 is clock 101. -/
def written (rom : ProgMem) (mem : BitVec 12 → Word) (t : Nat) : Nat := 101 + finish rom (blank mem) t

section
variable (hkey : ∀ g, 100 ≤ g → (env g).key.getLsbD 0 = true)
  (hloads : ∀ t v, Loads rom (blank mem) t v → Deliverable v)
include hkey hloads

theorem sendSignal_addr (g : Nat) : ∃ d : Fin 8, (after rom mem env g).port.sendSignal.addr = TdmaMin.portAddr d := by
  by_cases h100 : g ≤ 100
  · rw [port_of_le h100]
    exact ⟨0, rfl⟩
  · by_cases h101 : g = 101
    · rw [h101, port_released hkey]
      exact packet_addr (.inl rfl) ..
    · obtain ⟨u, rfl⟩ : ∃ u, g = 101 + u + 1 := ⟨g - 102, by omega⟩
      rw [sendSignal_succ hkey]
      refine packet_addr ?_ ..
      rcases dpcr_cases rom (blank mem) u with h0 | ⟨t, ht⟩
      · rw [h0]
        exact .inl rfl
      · exact hloads t _ ht

theorem queue_addr (g : Nat) : ∀ y ∈ (after rom mem env g).net.queue 5, ∃ d : Fin 8, y.addr = TdmaMin.portAddr d := by
  induction g with
  | zero => exact fun y hy => absurd hy List.not_mem_nil
  | succ g ih =>
    intro y hy
    rw [after_succ] at hy
    rcases Scfifo.mem_clock _ hy with hy | ⟨-, rfl⟩
    · exact ih y hy
    · exact sendSignal_addr hkey hloads g

end

theorem net_succ (rom : ProgMem) (mem : BitVec 12 → Word) (env : Nat → RecopNetInput) (g : Nat) :
    (after rom mem env (g + 1)).net = (after rom mem env g).net.clock ((after rom mem env g).sends (env g)) := by
  rw [after_succ]
  rfl

variable {t : Nat} {v : BitVec 32}

theorem sendSignal_loaded (hkey : ∀ g, 100 ≤ g → (env g).key.getLsbD 0 = true) (h : Loads rom (blank mem) t v)
    (hv : v.slice 28 4 ≠ 0) {k : Nat} (hk : k < 12) :
    (after rom mem env (written rom mem t + k + 1)).port.sendSignal = RecopPort.dpcrPacket v := by
  unfold written
  rw [Nat.add_assoc 101, sendSignal_succ hkey, h.dpcr hk]
  exact if_neg hv

/-- No `DATACALL` is lost. If all of them load words of type 0, or of type 8 or more with one of the eight ports as
target, then each word `v` of another type than 0 goes out: from the clock after DPCR has got it, the packet for
`v` is offered without a break until the FIFO of port 5 takes it, in a clock `g` before the packet of any later
`DATACALL` is offered. -/
theorem datacall_accepted (rom : ProgMem) (mem : BitVec 12 → Word) (env : Nat → RecopNetInput)
    (hkey : ∀ g, 100 ≤ g → (env g).key.getLsbD 0 = true)
    (hloads : ∀ t v, Loads rom (blank mem) t v → Deliverable v) (t : Nat) (v : BitVec 32)
    (h : Loads rom (blank mem) t v) (hv : v.slice 28 4 ≠ 0) :
    (after rom mem env (written rom mem t)).port.recop.reg.dpcr = v ∧
      ∃ p g, Conveys v p ∧ written rom mem t < g ∧
        (∀ k, written rom mem t < k → k ≤ g → (after rom mem env k).port.sendSignal = p) ∧
        accepted (after rom mem env g) = [p] ∧
        ∀ t' v', Loads rom (blank mem) t' v' → t < t' → g ≤ written rom mem t' := by
  constructor
  · rw [written, (port_running hkey rom mem _).1]
    exact h.dpcr (k := 0) (by omega)
  · obtain ⟨k, hk, hroom⟩ := TdmaMin.exists_not_full (net_succ rom mem env)
      (queue_addr hkey hloads) (written rom mem t + 1)
    have hsend : ∀ j, written rom mem t < j → j ≤ written rom mem t + 1 + k →
        (after rom mem env j).port.sendSignal = RecopPort.dpcrPacket v := fun j hj hle => by
      obtain ⟨i, rfl⟩ : ∃ i, j = written rom mem t + i + 1 := ⟨j - written rom mem t - 1, by omega⟩
      exact sendSignal_loaded hkey h hv (by omega)
    have hconveys := conveys_dpcrPacket v
    refine ⟨_, written rom mem t + 1 + k, hconveys, by omega, hsend, ?_, fun t' v' h' hlt => ?_⟩
    · have hvalid : (RecopPort.dpcrPacket v).valid = true := by
        obtain ⟨htype, -⟩ := (hloads t v h).resolve_left hv
        refine (msb_eq_packetType_msb _).trans ?_
        rw [packetType, hconveys.type, BitVec.msb_eq_decide, decide_eq_true_eq]
        exact htype
      rw [accepted, hsend _ (by omega) (Nat.le_refl _), hvalid, Scfifo.writes, hroom]
      rfl
    · have := h.finish_le h' hlt
      unfold written
      omega

/-- `LDR R0 #33536`, `DATACALL R0 #5` and `JMP #4`, which goes to itself. -/
def datacallProgram : ProgMem := fun pc =>
  if pc = 0 then 0x4000
  else if pc = 1 then 0x8300
  else if pc = 2 then 0x6900
  else if pc = 3 then 5
  else if pc = 4 then 0x5800
  else 4

/-- `R0` holds what `LDR` has loaded by the time it is needed. -/
def Looping (a : Arch) : Prop := a.pc = 0 ∨ a.pc = 2 ∧ a.regs 0 = 0x8300 ∨ a.pc = 4

theorem looping_sample {t : Nat} (ht : (blank fun _ => 0).FirstT0 datacallProgram t) :
    Looping ((blank fun _ => 0).sample datacallProgram t) := by
  refine ht.induction (C := fun t => Looping ((blank fun _ => 0).sample datacallProgram t)) (.inl rfl) ?_
  intro τ hτ hpc
  unfold finish
  rcases hpc with hpc | ⟨hpc, hr⟩ | hpc
  · obtain ⟨-, hnext⟩ := hτ.executes (.ldr 0 (.value 0x8300)) (by rw [hpc]; rfl)
    rw [hnext]
    refine .inr (.inl ⟨?_, rfl⟩)
    show _ + words _ = _
    rw [hpc]
    rfl
  · obtain ⟨-, hnext⟩ := hτ.executes (.datacall 0 (.value 5)) (by rw [hpc]; rfl)
    rw [hnext]
    refine .inr (.inr ?_)
    show _ + words _ = _
    rw [hpc]
    rfl
  · obtain ⟨-, hnext⟩ := hτ.executes (.jmp (.value 4)) (by rw [hpc]; rfl)
    rw [hnext]
    exact .inr (.inr rfl)

theorem loads_datacallProgram {t : Nat} {v : BitVec 32} (h : Loads datacallProgram (blank fun _ => 0) t v) :
    v = 0x83000005 := by
  obtain ⟨ht, rx, low, hi, rfl⟩ := h
  rcases looping_sample ht with hpc | ⟨hpc, hr⟩ | hpc
  · rw [hpc] at hi
    cases hi
  · rw [hpc] at hi
    cases hi
    show (((blank fun _ => 0).sample datacallProgram t).regs 0 ++ (5 : Word) : BitVec (16 + 16)) = _
    rw [hr]
    rfl
  · rw [hpc] at hi
    cases hi

/-- The word 5 goes out to port 3. -/
theorem datacall_accepted_example :
    ∃ p g, Conveys 0x83000005 p ∧
      accepted (after datacallProgram (fun _ => 0) (fun _ => ⟨0b1111, 0, fun _ => .idle⟩) g) = [p] := by
  have hfirst : (blank fun _ => 0).FirstT0 datacallProgram 0 := ⟨rfl, fun u hu => absurd hu (Nat.succ_ne_zero u)⟩
  have hload : Loads datacallProgram (blank fun _ => 0) 14 0x83000005 := by
    obtain ⟨hsecond, hsample⟩ := hfirst.executes (.ldr 0 (.value 0x8300)) rfl
    have hcycles : 0 + (datacallProgram ((blank fun _ => 0).sample datacallProgram 0).pc).cycles = 14 := rfl
    rw [hcycles] at hsecond hsample
    have hpc : ((blank fun _ => 0).sample datacallProgram 14).pc = 2 := by rw [hsample]; rfl
    have hr : ((blank fun _ => 0).sample datacallProgram 14).regs 0 = 0x8300 := by rw [hsample]; rfl
    refine ⟨hsecond, 0, .value 5, by rw [hpc]; rfl, ?_⟩
    show _ = (((blank fun _ => 0).sample datacallProgram 14).regs 0 ++ (5 : Word) : BitVec (16 + 16))
    rw [hr]
    rfl
  obtain ⟨-, p, g, hp, -, -, haccepted, -⟩ := datacall_accepted datacallProgram (fun _ => 0)
    (fun _ => ⟨0b1111, 0, fun _ => .idle⟩) (fun _ _ => rfl)
    (fun t v h => by rw [loads_datacallProgram h]; decide) 14 0x83000005 hload (by decide)
  exact ⟨p, g, hp, haccepted⟩

end RecopNet
end TdmaSoc
