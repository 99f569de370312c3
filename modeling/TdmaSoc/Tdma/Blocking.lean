import TdmaSoc.Tdma.Network

/-!
# The head of a queue

Nothing looks at an address before its packet enters a queue, and a port is connected to `identity xor slot` only,
with a slot of `stages` bits. A packet to one of these `2 ^ stages` addresses leaves the head of its queue within one
round of the slots, whether there is a port of this address or not; a packet to any other address stays there and
keeps the port from sending anything ever again.
-/

namespace TdmaSoc
namespace TdmaMin
variable {ports : Nat} {n : TdmaMin ports} {p : Fin ports} {x : TdmaMinPort} {xs : List TdmaMinPort}

/-- `x` is still at the head, with `xs` behind it and what has come since behind them. -/
def Heads (n : TdmaMin ports) (p : Fin ports) (x : TdmaMinPort) (xs : List TdmaMinPort) : Prop :=
  ∃ ys, n.queue p = x :: (xs ++ ys)

theorem Heads.ack_iff (h256 : ports ≤ 256) (h : n.Heads p x xs) :
    n.ack p = true ↔ x.addr.toNat = p.val ^^^ n.slot := by
  obtain ⟨ys, hq⟩ := h
  rw [(push_of_cons hq).2, decide_eq_true_eq, addr_eq, ← BitVec.toNat_inj, portAddr, BitVec.toNat_ofNat,
    Nat.mod_eq_of_lt (xor_slot_lt h256 n p)]

/-- The next clock leaves the head where it is, or takes it. -/
theorem Heads.clock (h : n.Heads p x xs) (sends : Fin ports → TdmaMinPort) :
    (n.ack p = false → (n.clock sends).Heads p x xs) ∧
      (n.ack p = true → ∃ ys, (n.clock sends).queue p = xs ++ ys) := by
  obtain ⟨ys, hq⟩ := h
  rw [queue_clock, Scfifo.clock_items, show (n.interfaces p).fifo.items = x :: (xs ++ ys) from hq]
  constructor
  · intro hack
    refine ⟨ys ++ (n.interfaces p).fifo.writes (sends p).valid (sends p), ?_⟩
    rw [queue_clock, Scfifo.clock_items, show (n.interfaces p).fifo.items = x :: (xs ++ ys) from hq, hack,
      ← List.append_assoc]
    rfl
  · intro hack
    rw [hack, if_pos rfl, List.tail_cons, List.append_assoc]
    exact ⟨_, rfl⟩

theorem slot_runFrom (n : TdmaMin ports) (js : List (Fin ports → TdmaMinPort)) :
    ((machine ports).runFrom n js).slot = (n.slot + js.length) % 2 ^ stages ports := by
  induction js generalizing n with
  | nil => exact (Nat.mod_eq_of_lt n.slot_lt).symm
  | cons sends js ih =>
    rw [Machine.runFrom_cons, ih, List.length_cons]
    show ((n.slot + 1) % 2 ^ stages ports + js.length) % 2 ^ stages ports = _
    rw [Nat.mod_add_mod, Nat.add_assoc, Nat.add_comm 1]

/-- While the slot of the head has not come, it stays. -/
theorem Heads.runFrom (h : n.Heads p x xs) {js : List (Fin ports → TdmaMinPort)}
    (hjs : ∀ k < js.length, ((machine ports).runFrom n (js.take k)).ack p = false) :
    ((machine ports).runFrom n js).Heads p x xs := by
  induction js generalizing n with
  | nil => exact h
  | cons sends js ih =>
    have hack : n.ack p = false := hjs 0 (Nat.succ_pos _)
    refine ih ((h.clock sends).1 hack) fun k hk => ?_
    exact hjs (k + 1) (Nat.succ_lt_succ hk)

/-- Every slot comes once in `2 ^ stages` clocks. -/
theorem exists_wait {m slot s : Nat} (hslot : slot < m) (hs : s < m) : ∃ k < m, (slot + k) % m = s := by
  by_cases hle : slot ≤ s
  · refine ⟨s - slot, by omega, ?_⟩
    rw [Nat.add_sub_cancel' hle, Nat.mod_eq_of_lt hs]
  · refine ⟨s + m - slot, by omega, ?_⟩
    rw [show slot + (s + m - slot) = s + m by omega, Nat.add_mod_right, Nat.mod_eq_of_lt hs]

/-- After `k` of the clocks `js` the FIFO is read and the head leaves; until then it was there. -/
def LeavesAt (n : TdmaMin ports) (p : Fin ports) (x : TdmaMinPort) (xs : List TdmaMinPort)
    (js : List (Fin ports → TdmaMinPort)) (k : Nat) : Prop :=
  (∀ j ≤ k, ((machine ports).runFrom n (js.take j)).Heads p x xs) ∧
    ((machine ports).runFrom n (js.take k)).ack p = true ∧
    ∃ ys, ((machine ports).runFrom n (js.take (k + 1))).queue p = xs ++ ys

theorem Heads.exists_ack (h256 : ports ≤ 256) (h : n.Heads p x xs) {js : List (Fin ports → TdmaMinPort)}
    (hx : x.addr.toNat < 2 ^ stages ports) (hlen : js.length = 2 ^ stages ports) :
    ∃ k < 2 ^ stages ports, ((machine ports).runFrom n (js.take k)).ack p = true := by
  by_contra hnone
  have hp : p.val < 2 ^ stages ports := Nat.lt_of_lt_of_le p.isLt (le_two_pow_stages h256)
  obtain ⟨k, hk, hslot⟩ := exists_wait n.slot_lt (Nat.xor_lt_two_pow hp hx)
  have hquiet : ∀ j < (js.take k).length, ((machine ports).runFrom n ((js.take k).take j)).ack p = false := by
    intro j hj
    rw [List.length_take] at hj
    rw [List.take_take, Nat.min_eq_left (by omega)]
    by_contra hack
    exact hnone ⟨j, by omega, by simpa using hack⟩
  refine hnone ⟨k, hk, ((h.runFrom hquiet).ack_iff h256).2 ?_⟩
  rw [slot_runFrom, List.length_take, Nat.min_eq_left (by omega), hslot, ← Nat.xor_assoc, Nat.xor_self, Nat.zero_xor]

theorem Heads.leaves (h : n.Heads p x xs) {js : List (Fin ports → TdmaMinPort)} {m : Nat} (hlen : js.length = m)
    (hack : ∃ k < m, ((machine ports).runFrom n (js.take k)).ack p = true) :
    ∃ k < m, n.LeavesAt p x xs js k := by
  classical
  let k := Nat.find hack
  obtain ⟨hk, hackk⟩ : k < m ∧ _ := Nat.find_spec hack
  have hquiet : ∀ j < k, ((machine ports).runFrom n (js.take j)).ack p = false := by
    intro j hj
    by_contra hackj
    exact Nat.find_min hack hj ⟨by omega, by simpa using hackj⟩
  have hheads : ∀ j ≤ k, ((machine ports).runFrom n (js.take j)).Heads p x xs := by
    intro j hj
    refine h.runFrom fun i hi => ?_
    rw [List.length_take] at hi
    rw [List.take_take, Nat.min_eq_left (by omega)]
    exact hquiet i (by omega)
  refine ⟨k, hk, hheads, hackk, ?_⟩
  rw [List.take_add_one, List.getElem?_eq_getElem (by omega), Machine.runFrom_append]
  exact ((hheads k (Nat.le_refl k)).clock _).2 hackk

/-- The head of a queue leaves within one round of the slots if its address is below `2 ^ stages`, and never leaves
if not. -/
theorem head_leaves (h256 : ports ≤ 256) (is js : List (Fin ports → TdmaMinPort)) (p : Fin ports) (x : TdmaMinPort)
    (xs : List TdmaMinPort) (hq : ((machine ports).run is).queue p = x :: xs) :
    (x.addr.toNat < 2 ^ stages ports → js.length = 2 ^ stages ports →
        ∃ k < 2 ^ stages ports, ((machine ports).run is).LeavesAt p x xs js k) ∧
      (2 ^ stages ports ≤ x.addr.toNat → ((machine ports).run (is ++ js)).Heads p x xs) := by
  have hheads : ((machine ports).run is).Heads p x xs := ⟨[], by rw [hq, List.append_nil]⟩
  constructor
  · intro hx hlen
    exact hheads.leaves hlen (hheads.exists_ack h256 hx hlen)
  · intro hx
    rw [Machine.run_append]
    induction js using List.reverseRecOn with
    | nil => exact hheads
    | append_singleton js sends ih =>
      rw [Machine.runFrom_append]
      refine (ih.clock sends).1 ?_
      by_contra hack
      have hp : p.val < 2 ^ stages ports := Nat.lt_of_lt_of_le p.isLt (le_two_pow_stages h256)
      have hlt := Nat.xor_lt_two_pow hp ((machine ports).runFrom ((machine ports).run is) js).slot_lt
      have := (ih.ack_iff h256).1 (by simpa using hack)
      omega

/-- A packet from port 0 of eight to the port `a`. -/
def sendsTo (a : TdmaMinAddr) (p : Fin 8) : TdmaMinPort := if p = 0 then ⟨a, 0x80000000⟩ else .idle

theorem head_leaves_seven :
    ∃ k < 8, ((machine 8).run [sendsTo 7]).LeavesAt 0 ⟨7, 0x80000000⟩ [] (List.replicate 8 fun _ => .idle) k :=
  (head_leaves (by omega) [sendsTo 7] (List.replicate 8 fun _ => .idle) 0 ⟨7, 0x80000000⟩ []
    (by decide +kernel)).1 (by decide +kernel) (by decide +kernel)

/-- A packet to address 8 does not leave in the next eight clocks. -/
theorem head_blocks :
    ((machine 8).run [sendsTo 8]).queue 0 = [⟨8, 0x80000000⟩] ∧ 2 ^ stages 8 = 8 ∧
      ¬ ∃ k < 8, ((machine 8).run [sendsTo 8]).LeavesAt 0 ⟨8, 0x80000000⟩ [] (List.replicate 8 fun _ => .idle) k := by
  have hquiet : ∀ k < 8, ((machine 8).runFrom ((machine 8).run [sendsTo 8])
      ((List.replicate 8 fun _ => .idle).take k)).ack 0 = false := by decide +kernel
  refine ⟨by decide +kernel, by decide +kernel, ?_⟩
  rintro ⟨k, hk, -, hack, -⟩
  rw [hquiet k hk] at hack
  cases hack

end TdmaMin
end TdmaSoc
