import TdmaSoc.Tdma.Delivery

/-!
# What is under way

Single clocks of the network, seen from one port: when the head of a queue leaves (`ack_iff`), what a
port receives and from whom (`recvs_clock_cases`), and what a queue becomes (`queue_clock_of_lt`). A full
queue has room again within nine clocks (`exists_not_full`). `Carries P` says that `P` holds of every packet
under way and of every word on show; it follows from `P` of every packet sent.
-/

namespace TdmaSoc

/-- What the network takes a send port to offer. -/
def TdmaMinPort.packets (x : TdmaMinPort) : List TdmaMinPort := if x.valid then [x] else []

@[simp] theorem TdmaMinPort.packets_idle : TdmaMinPort.idle.packets = [] := rfl

theorem TdmaMinPort.packets_cases (x : TdmaMinPort) : x.packets = [] ∨ x.valid = true ∧ x.packets = [x] := by
  unfold packets
  split
  case isTrue hv => exact .inr ⟨hv, rfl⟩
  case isFalse => exact .inl rfl

namespace TdmaMin
variable {ports : Nat} {n : TdmaMin ports} {sends : Fin ports → TdmaMinPort}

/-- The word with bit 31 set that `d` shows under the label `p`. -/
def shown (p d : Fin ports) (n : TdmaMin ports) : List TdmaMinData :=
  if (n.recvs d).valid = true ∧ (n.recvs d).addr = portAddr p then [(n.recvs d).data] else []

theorem queue_clock_of_lt (sends : Fin ports → TdmaMinPort) {p : Fin ports}
    (hf : (sends p).valid = true → (n.queue p).length < 256) :
    (n.clock sends).queue p = (if n.ack p then (n.queue p).tail else n.queue p) ++ (sends p).packets := by
  rw [queue_clock, Scfifo.clock_items, TdmaMinPort.packets]
  cases hv : (sends p).valid
  · rfl
  · rw [Scfifo.writes_of_lt _ (hf hv)]; rfl

/-- What `p` sends to `d` is in its queue until `d` shows it. -/
theorem shown_ledger (sends : Fin ports → TdmaMinPort) (h2 : 2 ≤ ports) (h256 : ports ≤ 256) (hv : n.QueuesValid)
    {p : Fin ports} (hf : (sends p).valid = true → (n.queue p).length < 256) (d : Fin ports) :
    shown p d (n.clock sends) ++ wordsFor d ((n.clock sends).queue p) =
      wordsFor d (n.queue p ++ (sends p).packets) := by
  have := ledger_step h2 h256 hv hf d
  rw [wordsFor_append, TdmaMinPort.packets]
  refine this.trans (congrArg _ ?_)
  unfold offered
  split <;> rfl

section
variable (h256 : ports ≤ 256)
include h256

/-- The head of a queue leaves for `d` in the slot `p xor d`, and in no other. -/
theorem ack_iff {p d : Fin ports} {x : TdmaMinPort} {xs : List TdmaMinPort} (hq : n.queue p = x :: xs)
    (hx : x.addr = portAddr d) : n.ack p = true ↔ n.slot = p.val ^^^ d := by
  rw [(push_of_cons hq).2, decide_eq_true_eq, hx, eq_comm, addr_eq_portAddr_iff h256]
  constructor <;> intro h
  · rw [← h, ← Nat.xor_assoc, Nat.xor_self, Nat.zero_xor]
  · rw [h, ← Nat.xor_assoc, Nat.xor_self, Nat.zero_xor]

variable (h2 : 2 ≤ ports)
include h2

theorem recvs_clock_of_ack (sends : Fin ports → TdmaMinPort) {p d : Fin ports} {x : TdmaMinPort}
    {xs : List TdmaMinPort} (hq : n.queue p = x :: xs) (hx : x.addr = portAddr d) (hack : n.ack p = true) :
    (n.clock sends).recvs d = ⟨portAddr p, x.data⟩ := by
  have hslot := (ack_iff h256 hq hx).1 hack
  have hp : d.val ^^^ n.slot = p := by rw [hslot, Nat.xor_comm p.val, ← Nat.xor_assoc, Nat.xor_self, Nat.zero_xor]
  have haddr : TdmaMinInterface.addr p n.slot = x.addr := by
    rw [hx, addr_eq_portAddr_iff h256, hslot, ← Nat.xor_assoc, Nat.xor_self, Nat.zero_xor]
  rw [recvs_clock, pull_eq h2 h256, addr_eq, hp, dif_pos p.isLt, Fin.eta, (push_of_cons hq).1, if_pos haddr.symm]

/-- What a port receives is nothing, or the head of a queue that leaves. -/
theorem recvs_clock_cases (sends : Fin ports → TdmaMinPort) (d : Fin ports) :
    ((n.clock sends).recvs d).data = 0 ∨ ∃ (p : Fin ports) (x : TdmaMinPort) (xs : List TdmaMinPort),
      n.queue p = x :: xs ∧ x.addr = portAddr d ∧ n.ack p = true ∧
        (n.clock sends).recvs d = ⟨portAddr p, x.data⟩ := by
  rw [recvs_clock, pull_eq h2 h256]
  by_cases hp : d.val ^^^ n.slot < ports
  · rw [dif_pos hp]
    cases hq : n.queue ⟨_, hp⟩ with
    | nil => exact .inl (push_of_nil hq).1
    | cons x xs =>
      by_cases hx : x.addr = TdmaMinInterface.addr (d.val ^^^ n.slot) n.slot
      · have hd : x.addr = portAddr d := by
          rw [hx, addr_eq, Nat.xor_assoc, Nat.xor_self, Nat.xor_zero]
        have hack : n.ack ⟨_, hp⟩ = true := by rw [(push_of_cons hq).2]; exact decide_eq_true hx
        refine .inr ⟨_, x, xs, hq, hd, hack, ?_⟩
        rw [(push_of_cons hq).1, if_pos hx, addr_eq]
      · left
        show n.push _ = _
        rw [(push_of_cons hq).1, if_neg hx]
  · left; rw [dif_neg hp]

end

/-- `P` holds of every packet in a queue and of every word that a port has received. -/
def Carries (P : Fin ports → TdmaMinPort → Prop) (n : TdmaMin ports) : Prop :=
  (∀ p, ∀ x ∈ n.queue p, P p x) ∧
  ∀ d, (n.recvs d).data = 0 ∨ ∃ p : Fin ports, (n.recvs d).addr = portAddr p ∧ P p ⟨portAddr d, (n.recvs d).data⟩

variable {P : Fin ports → TdmaMinPort → Prop}

theorem Carries.init : Carries P (init : TdmaMin ports) :=
  ⟨fun _ _ h => by simp [queue, TdmaMin.init, TdmaMinInterface.init] at h, fun _ => .inl rfl⟩

theorem Carries.clock (h256 : ports ≤ 256) (h2 : 2 ≤ ports) (h : Carries P n)
    (hs : ∀ p, (sends p).valid = true → P p (sends p)) : Carries P (n.clock sends) := by
  refine ⟨fun p x hx => ?_, fun d => ?_⟩
  · rw [queue_clock] at hx
    rcases Scfifo.mem_clock _ hx with hx | ⟨hv, rfl⟩
    · exact h.1 p x hx
    · exact hs p hv
  · rcases recvs_clock_cases h256 h2 sends d with h0 | ⟨p, x, xs, hq, hx, -, hr⟩
    · exact .inl h0
    · right
      have hP := h.1 p x (hq ▸ List.mem_cons_self ..)
      rw [hr]
      exact ⟨p, rfl, by rw [← hx]; exact hP⟩

/-- A kind of packet that `d` gets from `p` only, and that `p` sends to `d` only, is on show at `d` once for
every time it leaves `p`'s queue. -/
theorem count_clock (sends : Fin ports → TdmaMinPort) (h256 : ports ≤ 256) (h2 : 2 ≤ ports)
    (kind : TdmaMinData → Bool) (h0 : kind 0 = false)
    {p d : Fin ports} (hp : ∀ q, ∀ x ∈ n.queue q, kind x.data = true → x.addr = portAddr d → q = p)
    (hd : ∀ x ∈ n.queue p, kind x.data = true → x.addr = portAddr d)
    (hf : (sends p).valid = true → (n.queue p).length < 256)
    (hk : kind (sends p).data = true → (sends p).valid = true) :
    (kind ((n.clock sends).recvs d).data).toNat + ((n.clock sends).queue p).countP (kind ·.data) =
      (n.queue p).countP (kind ·.data) + (kind (sends p).data).toNat := by
  have hsent : (sends p).packets.countP (kind ·.data) = (kind (sends p).data).toNat := by
    unfold TdmaMinPort.packets
    cases hv : (sends p).valid
    · cases hkd : kind (sends p).data
      · rfl
      · rw [hk hkd] at hv; cases hv
    · cases hkd : kind (sends p).data <;> simp [hkd]
  rw [queue_clock_of_lt sends hf, List.countP_append, hsent, ← Nat.add_assoc]
  congr 1
  rcases recvs_clock_cases h256 h2 sends d with hr | ⟨q, x, xs, hq, hx, hack, hr⟩
  · -- nothing is on show, so nothing of the kind has left
    rw [hr, h0]
    cases hqp : n.queue p with
    | nil => simp
    | cons x xs =>
      cases hack : n.ack p
      · simp
      · cases hkx : kind x.data
        · simp [hkx]
        · have hxd := hd x (hqp ▸ List.mem_cons_self ..) hkx
          rw [recvs_clock_of_ack h256 h2 sends hqp hxd hack] at hr
          rw [show x.data = 0 from hr, h0] at hkx; cases hkx
  · rw [hr]
    cases hkx : kind x.data
    · -- what is on show is of another kind; so is what has left `p`, if it is not the same packet
      cases hqp : n.queue p with
      | nil => simp
      | cons y ys =>
        cases hackp : n.ack p
        · simp
        · cases hky : kind y.data
          · simp [hky]
          · have hyd := hd y (hqp ▸ List.mem_cons_self ..) hky
            have := recvs_clock_of_ack h256 h2 sends hqp hyd hackp
            rw [hr] at this
            have hxy : x.data = y.data := (TdmaMinPort.mk.inj this).2
            rw [hxy, hky] at hkx; cases hkx
    · obtain rfl := hp q x (hq ▸ List.mem_cons_self ..) hkx hx
      simp [hq, hack, hkx, Nat.add_comm]

/-! ### Waiting for a slot -/

/-- The clocks until slot `s` of a network of eight. -/
def wait (s : Nat) (n : TdmaMin 8) : Nat := (8 + s - n.slot) % 8

section
variable {n : TdmaMin 8} {s : Nat}

theorem slot_lt_eight (n : TdmaMin 8) : n.slot < 8 := n.slot_lt

theorem slot_clock (n : TdmaMin 8) (sends : Fin 8 → TdmaMinPort) : (n.clock sends).slot = (n.slot + 1) % 8 := rfl

theorem wait_lt (s : Nat) (n : TdmaMin 8) : wait s n < 8 := Nat.mod_lt _ (by omega)

theorem wait_clock_of_ne (hs : s < 8) (h : n.slot ≠ s) (sends : Fin 8 → TdmaMinPort) :
    wait s (n.clock sends) + 1 = wait s n := by
  have := slot_lt_eight n
  unfold wait
  rw [slot_clock]
  omega

theorem wait_clock_of_eq (h : n.slot = s) (sends : Fin 8 → TdmaMinPort) :
    wait s n = 0 ∧ wait s (n.clock sends) = 7 := by
  have := slot_lt_eight n
  unfold wait
  rw [slot_clock]
  omega

variable {x : Nat → TdmaMin 8} {sends : Nat → Fin 8 → TdmaMinPort} (hx : ∀ g, x (g + 1) = (x g).clock (sends g))
  {p : Fin 8}
include hx

/-- A full queue with a packet to `d` at its head gives it up in the slot `p xor d`. -/
theorem exists_not_full_of_head {d : Fin 8} {y : TdmaMinPort} {ys : List TdmaMinPort} (hy : y.addr = portAddr d)
    {w g : Nat} (hw : wait (p.val ^^^ d) (x g) = w) (hq : (x g).queue p = y :: ys) :
    ∃ k ≤ w + 1, ((x (g + k)).interfaces p).fifo.full = false := by
  have hs : p.val ^^^ d.val < 8 := Nat.xor_lt_two_pow (n := 3) p.isLt d.isLt
  induction w generalizing g with
  | zero =>
    cases hfull : ((x g).interfaces p).fifo.full
    · exact ⟨0, by omega, hfull⟩
    · have hslot : (x g).slot = p.val ^^^ d := by
        by_contra hne
        have := wait_clock_of_ne hs hne (sends g)
        omega
      refine ⟨1, by omega, ?_⟩
      have hlen : ((x (g + 1)).queue p).length ≤ 255 := by
        have hfits := ((x g).interfaces p).fifo.fits
        rw [show ((x g).interfaces p).fifo.items = y :: ys from hq, List.length_cons] at hfits
        rw [hx, queue_clock, Scfifo.clock_items, (ack_iff (by omega) hq hy).2 hslot, if_pos rfl,
          show ((x g).interfaces p).fifo.items = y :: ys from hq, Scfifo.writes_of_full _ hfull, List.append_nil]
        exact Nat.le_of_succ_le_succ hfits
      simp only [Scfifo.full, decide_eq_false_iff_not, Nat.not_le]
      exact Nat.lt_succ_of_le hlen
  | succ w ih =>
    cases hfull : ((x g).interfaces p).fifo.full
    · exact ⟨0, by omega, hfull⟩
    · have hslot : (x g).slot ≠ p.val ^^^ d := fun h => by
        have := (wait_clock_of_eq h (sends g)).1
        omega
      have hstay : (x (g + 1)).queue p = y :: ys := by
        have hack : (x g).ack p = false := by
          by_contra hack
          exact hslot ((ack_iff (by omega) hq hy).1 (by simpa using hack))
        rw [hx, queue_clock, Scfifo.clock_items, hack, Scfifo.writes_of_full _ hfull, List.append_nil]
        exact hq
      have hwait : wait (p.val ^^^ d) (x (g + 1)) = w := by
        have := wait_clock_of_ne hs hslot (sends g)
        rw [hx]
        omega
      obtain ⟨k, hk, hnot⟩ := ih hwait hstay
      exact ⟨k + 1, by omega, by rw [Nat.add_right_comm] at hnot; exact hnot⟩

/-- A queue for the eight ports only is not full for nine clocks. -/
theorem exists_not_full_at {g : Nat} (haddr : ∀ y ∈ (x g).queue p, ∃ d : Fin 8, y.addr = portAddr d) :
    ∃ k ≤ 8, ((x (g + k)).interfaces p).fifo.full = false := by
  cases hq : (x g).queue p with
  | nil =>
    refine ⟨0, by omega, ?_⟩
    rw [Nat.add_zero, Scfifo.full, show ((x g).interfaces p).fifo.items = [] from hq]
    rfl
  | cons y ys =>
    obtain ⟨d, hy⟩ := haddr y (by rw [hq]; exact List.mem_cons_self ..)
    obtain ⟨k, hk, hnot⟩ := exists_not_full_of_head hx hy rfl hq
    exact ⟨k, by have := wait_lt (p.val ^^^ d) (x g); omega, hnot⟩

/-- A port that sends to the eight ports only finds its queue not full within nine clocks. -/
theorem exists_not_full (haddr : ∀ g, ∀ y ∈ (x g).queue p, ∃ d : Fin 8, y.addr = portAddr d) (g : Nat) :
    ∃ k ≤ 8, ((x (g + k)).interfaces p).fifo.full = false :=
  exists_not_full_at hx (haddr g)

end

end TdmaMin
end TdmaSoc
