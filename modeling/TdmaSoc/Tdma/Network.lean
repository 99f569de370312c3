import TdmaSoc.Lib.Machine
import TdmaSoc.Lib.Scfifo
import TdmaSoc.Tdma.Fabric

/-!
# The TDMA network

`TdmaMinSlots`, `TdmaMinInterface` and `TdmaMin`. All registers step together on the clock edge; the
signals between them (`addr`, `ready`, `push`, `pull`) are functions of the registers before it. The
words of the FIFO are `send.addr & send.data`, kept as the pair.
-/

namespace TdmaSoc

/-- The scfifo megafunction as `TdmaMinFifo` sets it up: 256 words, show-ahead, overflow and underflow
checking on. -/
abbrev TdmaMinFifo := Scfifo TdmaMinPort 256

structure TdmaMinInterface where
  fifo : TdmaMinFifo
  recv : TdmaMinPort

namespace TdmaMinInterface

def init : TdmaMinInterface := ⟨.nil, .idle⟩

/-- `addr <= id xor (0 & slot)`: the port this one is connected to in `slot`. -/
def addr (identity slot : Nat) : TdmaMinAddr := BitVec.ofNat 8 identity ^^^ BitVec.ofNat 8 slot

def todo (x : TdmaMinInterface) : Option TdmaMinPort := x.fifo.q

def ready (x : TdmaMinInterface) (identity slot : Nat) : Bool :=
  match x.todo with
  | some p => p.addr == addr identity slot
  | none => false

def push (x : TdmaMinInterface) (identity slot : Nat) : TdmaMinData :=
  match x.todo with
  | some p => if p.addr == addr identity slot then p.data else 0
  | none => 0

def clock (x : TdmaMinInterface) (identity slot : Nat) (pull : TdmaMinData) (send : TdmaMinPort) :
    TdmaMinInterface where
  fifo := x.fifo.clock (x.ready identity slot) send.valid send
  recv := ⟨addr identity slot, pull⟩

end TdmaMinInterface

def stages (ports : Nat) : Nat := log2Ceil ports

structure TdmaMin (ports : Nat) where
  /-- `count` of `TdmaMinSlots`, unsigned and `stages` bits wide. -/
  slot : Nat
  slot_lt : slot < 2 ^ stages ports
  interfaces : Fin ports → TdmaMinInterface

namespace TdmaMin
variable {ports : Nat}

def init : TdmaMin ports := ⟨0, Nat.two_pow_pos _, fun _ => .init⟩

def push (n : TdmaMin ports) (identity : Fin ports) : TdmaMinData :=
  (n.interfaces identity).push identity n.slot

def pull (n : TdmaMin ports) : Fin ports → TdmaMinData := tdmaMinFabric (stages ports) ports n.slot n.push

def clock (n : TdmaMin ports) (sends : Fin ports → TdmaMinPort) : TdmaMin ports where
  slot := (n.slot + 1) % 2 ^ stages ports
  slot_lt := Nat.mod_lt _ (Nat.two_pow_pos _)
  interfaces := fun identity => (n.interfaces identity).clock identity n.slot (n.pull identity) (sends identity)

def recvs (n : TdmaMin ports) (d : Fin ports) : TdmaMinPort := (n.interfaces d).recv

def queue (n : TdmaMin ports) (p : Fin ports) : List TdmaMinPort := (n.interfaces p).fifo.items

def ack (n : TdmaMin ports) (p : Fin ports) : Bool := (n.interfaces p).ready p n.slot

/-- The network with arbitrary words on all its send ports. -/
def machine (ports : Nat) : Machine (TdmaMin ports) (Fin ports → TdmaMinPort) := ⟨init, clock⟩

def portAddr (d : Nat) : TdmaMinAddr := BitVec.ofNat 8 d

theorem portAddr_inj {a b : Nat} (ha : a < 256) (hb : b < 256) : portAddr a = portAddr b ↔ a = b := by
  rw [portAddr, portAddr, ← BitVec.toNat_inj]
  simp [Nat.mod_eq_of_lt ha, Nat.mod_eq_of_lt hb]

theorem addr_eq (identity slot : Nat) : TdmaMinInterface.addr identity slot = portAddr (identity ^^^ slot) := by
  simp [TdmaMinInterface.addr, portAddr, BitVec.ofNat_xor]

section Ports
variable (h2 : 2 ≤ ports) (h256 : ports ≤ 256)
include h256

theorem le_two_pow_stages : ports ≤ 2 ^ stages ports :=
  le_two_pow_log2Ceil (Nat.le_trans h256 (by decide))

theorem slot_lt_256 (n : TdmaMin ports) : n.slot < 256 := by
  have hs : stages ports ≤ 8 := log2Ceil_le (b := 8) h256
  exact Nat.lt_of_lt_of_le n.slot_lt (Nat.pow_le_pow_right (by decide) hs)

theorem xor_slot_lt (n : TdmaMin ports) (d : Fin ports) : d.val ^^^ n.slot < 256 :=
  Nat.xor_lt_two_pow (n := 8) (by omega) (slot_lt_256 h256 n)

/-- `addr` of port `d` is port `p` exactly in the slot `d xor p`. -/
theorem addr_eq_portAddr_iff (n : TdmaMin ports) (d p : Fin ports) :
    TdmaMinInterface.addr d n.slot = portAddr p ↔ d.val ^^^ n.slot = p := by
  rw [addr_eq, portAddr_inj (xor_slot_lt h256 n d) (by omega)]

include h2

theorem stages_pos : 0 < stages ports := by
  by_contra h0
  have := le_two_pow_stages h256
  rw [show stages ports = 0 by omega] at this
  omega

/-- What reaches port `d`: the word its partner in this slot pushes, or zero where there is no partner. -/
theorem pull_eq (n : TdmaMin ports) (d : Fin ports) :
    n.pull d = if h : d.val ^^^ n.slot < ports then n.push ⟨d.val ^^^ n.slot, h⟩ else 0 :=
  tdmaMinFabric_apply (stages_pos h2 h256) (le_two_pow_stages h256) n.slot_lt n.push d

end Ports

theorem recvs_clock (n : TdmaMin ports) (sends : Fin ports → TdmaMinPort) (d : Fin ports) :
    (n.clock sends).recvs d = ⟨TdmaMinInterface.addr d n.slot, n.pull d⟩ := rfl

theorem queue_clock (n : TdmaMin ports) (sends : Fin ports → TdmaMinPort) (p : Fin ports) :
    (n.clock sends).queue p =
      ((n.interfaces p).fifo.clock (n.ack p) (sends p).valid (sends p)).items := rfl

theorem push_of_nil {n : TdmaMin ports} {p : Fin ports} (h : n.queue p = []) : n.push p = 0 ∧ n.ack p = false := by
  simp [push, ack, TdmaMinInterface.push, TdmaMinInterface.ready, TdmaMinInterface.todo, Scfifo.q,
    show (n.interfaces p).fifo.items = [] from h]

theorem push_of_cons {n : TdmaMin ports} {p : Fin ports} {x : TdmaMinPort} {xs : List TdmaMinPort}
    (h : n.queue p = x :: xs) :
    n.push p = (if x.addr = TdmaMinInterface.addr p n.slot then x.data else 0) ∧
      n.ack p = decide (x.addr = TdmaMinInterface.addr p n.slot) := by
  simp [push, ack, TdmaMinInterface.push, TdmaMinInterface.ready, TdmaMinInterface.todo, Scfifo.q,
    show (n.interfaces p).fifo.items = x :: xs from h, beq_eq_decide]

def QueuesValid (n : TdmaMin ports) : Prop := ∀ p, ∀ x ∈ n.queue p, x.valid = true

theorem QueuesValid.init : (init : TdmaMin ports).QueuesValid := by
  intro p x h
  simp [queue, TdmaMin.init, TdmaMinInterface.init] at h

theorem QueuesValid.clock {n : TdmaMin ports} (h : n.QueuesValid) (sends : Fin ports → TdmaMinPort) :
    (n.clock sends).QueuesValid := by
  intro p x hx
  rw [queue_clock] at hx
  rcases Scfifo.mem_clock _ hx with hx | ⟨hv, rfl⟩
  · exact h p x hx
  · exact hv

end TdmaMin
end TdmaSoc
