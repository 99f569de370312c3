import TdmaSoc.Tdma.Traffic

/-!
# How long a packet waits

The slots come round every `2 ^ stages` clocks, and the head of a queue leaves in the slot of its target,
whatever the other ports do. So each packet leaves one round at most after the packet before it (`drains`), and
a packet with `n` packets before it is on show within `n + 1` rounds (`latency`). `taken` and `seen` are what a
port puts into the network and what comes out of it.
-/

namespace TdmaSoc
namespace TdmaMin
variable {ports : Nat}

/-- What the FIFO of `p` takes in the `m` clocks from `g` on. -/
def taken (x : Nat → TdmaMin ports) (sends : Nat → Fin ports → TdmaMinPort) (p : Fin ports) (g m : Nat) :
    List TdmaMinPort :=
  (List.range m).flatMap fun j => ((x (g + j)).interfaces p).fifo.writes (sends (g + j) p).valid (sends (g + j) p)

/-- The words that `d` has shown under the label `p` in the first `g` clocks. -/
def seen (x : Nat → TdmaMin ports) (p d : Fin ports) (g : Nat) : List TdmaMinData :=
  (List.range g).flatMap fun j => shown p d (x (j + 1))

variable {x : Nat → TdmaMin ports} {sends : Nat → Fin ports → TdmaMinPort} {p d : Fin ports}

theorem wordsFor_replicate {y : TdmaMinPort} (k : Nat) (hy : y.addr = portAddr d) :
    wordsFor d (List.replicate k y) = List.replicate k y.data := by
  have hkeep : ∀ z ∈ List.replicate k y, (z.addr == portAddr d) = true := fun z hz => by
    rw [List.eq_of_mem_replicate hz, hy, beq_self_eq_true]
  rw [wordsFor, List.filter_eq_self.2 hkeep, List.map_replicate]

@[simp] theorem taken_zero (g : Nat) : taken x sends p g 0 = [] := rfl

theorem taken_one (g : Nat) :
    taken x sends p g 1 = ((x g).interfaces p).fifo.writes (sends g p).valid (sends g p) := by
  simp [taken]

theorem taken_add (g m m' : Nat) :
    taken x sends p g (m + m') = taken x sends p g m ++ taken x sends p (g + m) m' := by
  simp only [taken, List.range_add, List.flatMap_append, List.flatMap_map, Nat.add_assoc]

/-- While it is offered the same packet, a FIFO takes copies of it: one at least, if it has room once. -/
theorem taken_constant {y : TdmaMinPort} {g m : Nat} (h : ∀ j < m, sends (g + j) p = y) :
    ∃ k ≤ m, taken x sends p g m = List.replicate k y ∧ (y.valid = false → k = 0) ∧
      (y.valid = true → (∃ j < m, ((x (g + j)).interfaces p).fifo.full = false) → 0 < k) := by
  induction m with
  | zero => exact ⟨0, Nat.le_refl 0, rfl, fun _ => rfl, fun _ ⟨j, hj, _⟩ => absurd hj (Nat.not_lt_zero j)⟩
  | succ m ih =>
    obtain ⟨k, hk, htaken, hnone, hsome⟩ := ih fun j hj => h j (Nat.lt_succ_of_lt hj)
    rw [taken_add, htaken, taken_one, h m (Nat.lt_succ_self m), Scfifo.writes]
    by_cases hw : (y.valid && !((x (g + m)).interfaces p).fifo.full) = true
    · rw [if_pos hw]
      rw [Bool.and_eq_true] at hw
      refine ⟨k + 1, by omega, List.replicate_succ'.symm, fun hv => ?_, fun _ _ => k.succ_pos⟩
      rw [hv] at hw
      cases hw.1
    · rw [if_neg hw, List.append_nil]
      refine ⟨k, by omega, rfl, hnone, fun hv ⟨j, hj, hroom⟩ => hsome hv ⟨j, ?_, hroom⟩⟩
      by_contra hge
      rw [show j = m by omega] at hroom
      exact hw (by rw [hv, hroom]; rfl)

theorem seen_succ (g : Nat) : seen x p d (g + 1) = seen x p d g ++ shown p d (x (g + 1)) := by
  simp [seen, List.range_succ]

section
variable (hx : ∀ g, x (g + 1) = (x g).clock (sends g))
include hx

theorem queue_succ (g : Nat) : (x (g + 1)).queue p =
    (if (x g).ack p then ((x g).queue p).tail else (x g).queue p) ++ taken x sends p g 1 := by
  rw [hx, queue_clock, Scfifo.clock_items, taken_one]
  rfl

/-- A port whose packets go to ports of the network only has no others in its queue. -/
theorem queue_targets {g m : Nat} (h0 : ∀ y ∈ (x g).queue p, ∃ e : Fin ports, y.addr = portAddr e)
    (hs : ∀ j < m, (sends (g + j) p).valid = true → ∃ e : Fin ports, (sends (g + j) p).addr = portAddr e) :
    ∀ y ∈ (x (g + m)).queue p, ∃ e : Fin ports, y.addr = portAddr e := by
  induction m with
  | zero => exact h0
  | succ m ih =>
    intro y hy
    rw [← Nat.add_assoc, hx] at hy
    rcases Scfifo.mem_clock _ hy with hy | ⟨hvalid, rfl⟩
    · exact ih (fun j hj => hs j (Nat.lt_succ_of_lt hj)) y hy
    · exact hs m (Nat.lt_succ_self m) hvalid

variable (h2 : 2 ≤ ports) (h256 : ports ≤ 256)
include h2 h256

/-- What `p` has put in for `d` has come out at `d`, or waits. -/
theorem seen_append_waiting (h0 : x 0 = init) (p d : Fin ports) (g : Nat) :
    seen x p d g ++ wordsFor d ((x g).queue p) = wordsFor d (taken x sends p 0 g) := by
  have hvalid (g : Nat) : (x g).QueuesValid := by
    induction g with
    | zero => exact h0 ▸ .init
    | succ g ih => exact hx g ▸ ih.clock (sends g)
  induction g with
  | zero =>
    rw [h0]
    rfl
  | succ g ih =>
    have hstep : shown p d (x (g + 1)) ++ wordsFor d ((x (g + 1)).queue p) =
        wordsFor d ((x g).queue p) ++ wordsFor d (taken x sends p g 1) := by
      have hdelivered := delivered_eq h2 h256 (hvalid g) (sends g) p d
      rw [delivered, ← hx] at hdelivered
      rw [shown, hdelivered, ← wordsFor_append, hx g, queue_clock, Scfifo.reads_append_clock, wordsFor_append,
        taken_one]
      rfl
    rw [seen_succ, List.append_assoc, hstep, ← List.append_assoc, ih, taken_add, Nat.zero_add, wordsFor_append]

theorem leaves_now {g : Nat} {y : TdmaMinPort} {ys : List TdmaMinPort} (hy : y.addr = portAddr d)
    (hq : (x g).queue p = y :: ys) (hslot : (x g).slot = p.val ^^^ d) :
    (x (g + 1)).queue p = ys ++ taken x sends p g 1 ∧ (x (g + 1)).recvs d = ⟨portAddr p, y.data⟩ := by
  have hack := (ack_iff h256 hq hy).2 hslot
  constructor
  · rw [queue_succ hx, hack, if_pos rfl, hq]
    rfl
  · rw [hx]
    exact recvs_clock_of_ack h256 h2 (sends g) hq hy hack

/-- The head of a queue waits for its slot. -/
theorem leaves_in_slot {w g : Nat} {y : TdmaMinPort} {ys : List TdmaMinPort} (hy : y.addr = portAddr d)
    (hq : (x g).queue p = y :: ys) (hw : ((x g).slot + w) % 2 ^ stages ports = p.val ^^^ d) :
    ∃ k ≤ w, (x (g + (k + 1))).queue p = ys ++ taken x sends p g (k + 1) ∧
      (x (g + (k + 1))).recvs d = ⟨portAddr p, y.data⟩ := by
  induction w generalizing g ys with
  | zero =>
    rw [Nat.add_zero, Nat.mod_eq_of_lt (x g).slot_lt] at hw
    exact ⟨0, Nat.le_refl 0, leaves_now hx h2 h256 hy hq hw⟩
  | succ w ih =>
    by_cases hslot : (x g).slot = p.val ^^^ d
    · exact ⟨0, Nat.zero_le _, leaves_now hx h2 h256 hy hq hslot⟩
    · have hack : ¬(x g).ack p = true := fun h => hslot ((ack_iff h256 hq hy).1 h)
      have hstay : (x (g + 1)).queue p = y :: (ys ++ taken x sends p g 1) := by
        rw [queue_succ hx, if_neg hack, hq]
        rfl
      have hnext : ((x (g + 1)).slot + w) % 2 ^ stages ports = p.val ^^^ d := by
        rw [← hw, hx]
        show (((x g).slot + 1) % _ + w) % _ = _
        rw [Nat.mod_add_mod, Nat.add_right_comm, Nat.add_assoc]
      obtain ⟨k, hk, hqueue, hshown⟩ := ih hstay hnext
      have hg : g + 1 + (k + 1) = g + (k + 1 + 1) := by omega
      rw [hg] at hqueue hshown
      refine ⟨k + 1, by omega, ?_, hshown⟩
      rw [hqueue, List.append_assoc, ← taken_add, Nat.add_comm 1 (k + 1)]

/-- Within a round the head of a queue has left for its target. -/
theorem leaves_in_round {g : Nat} {y : TdmaMinPort} {ys : List TdmaMinPort} (hy : y.addr = portAddr d)
    (hq : (x g).queue p = y :: ys) :
    ∃ k, 0 < k ∧ k ≤ 2 ^ stages ports ∧ (x (g + k)).queue p = ys ++ taken x sends p g k ∧
      (x (g + k)).recvs d = ⟨portAddr p, y.data⟩ := by
  have hslot := (x g).slot_lt
  have hport := le_two_pow_stages h256
  have htarget : p.val ^^^ d.val < 2 ^ stages ports := Nat.xor_lt_two_pow (by omega) (by omega)
  -- the clocks from this slot to the one that is wanted
  have hw : ((x g).slot + (2 ^ stages ports + (p.val ^^^ d) - (x g).slot) % 2 ^ stages ports) % 2 ^ stages ports =
      p.val ^^^ d := by
    rw [Nat.add_mod_mod, show (x g).slot + (2 ^ stages ports + (p.val ^^^ d) - (x g).slot) =
      (p.val ^^^ d) + 2 ^ stages ports by omega, Nat.add_mod_right, Nat.mod_eq_of_lt htarget]
  obtain ⟨k, hk, hqueue, hshown⟩ := leaves_in_slot hx h2 h256 hy hq hw
  have hlt := Nat.mod_lt (2 ^ stages ports + (p.val ^^^ d) - (x g).slot) (Nat.two_pow_pos (stages ports))
  exact ⟨k + 1, by omega, by omega, hqueue, hshown⟩

/-- The packets `xs` leave, and what is behind them moves up. -/
theorem drains {xs zs : List TdmaMinPort} {g : Nat} (hxs : ∀ y ∈ xs, ∃ e : Fin ports, y.addr = portAddr e)
    (hq : (x g).queue p = xs ++ zs) :
    ∃ k, xs.length ≤ k ∧ k ≤ xs.length * 2 ^ stages ports ∧ (x (g + k)).queue p = zs ++ taken x sends p g k := by
  induction xs generalizing g zs with
  | nil => exact ⟨0, Nat.le_refl 0, by omega, by rw [Nat.add_zero, hq, taken_zero, List.append_nil]; rfl⟩
  | cons y ys ih =>
    obtain ⟨e, hy⟩ := hxs y List.mem_cons_self
    rw [List.cons_append] at hq
    obtain ⟨k, hpos, hk, hqueue, -⟩ := leaves_in_round hx h2 h256 hy hq
    rw [List.append_assoc] at hqueue
    obtain ⟨k', hlen, hk', hqueue'⟩ := ih (fun y h => hxs y (List.mem_cons_of_mem _ h)) hqueue
    refine ⟨k + k', by rw [List.length_cons]; omega, by rw [List.length_cons, Nat.add_mul]; omega, ?_⟩
    rw [← Nat.add_assoc, hqueue', List.append_assoc, ← taken_add]

end

/-- A packet waits one round at most for each packet before it and for itself, whatever the ports send: if all
before it go to ports of the network, then `d` shows it under the label of its sender within
`(xs.length + 1) * 2 ^ stages` clocks, and what was behind it is next. -/
theorem latency {ports : Nat} (h2 : 2 ≤ ports) (h256 : ports ≤ 256) (x : Nat → TdmaMin ports)
    (sends : Nat → Fin ports → TdmaMinPort) (hx : ∀ g, x (g + 1) = (x g).clock (sends g)) (g : Nat) (p d : Fin ports)
    (xs zs : List TdmaMinPort) (y : TdmaMinPort) (hq : (x g).queue p = xs ++ y :: zs)
    (hxs : ∀ q ∈ xs, ∃ e : Fin ports, q.addr = portAddr e) (hy : y.addr = portAddr d) :
    ∃ k, xs.length < k ∧ k ≤ (xs.length + 1) * 2 ^ stages ports ∧ (x (g + k)).recvs d = ⟨portAddr p, y.data⟩ ∧
      (x (g + k)).queue p = zs ++ taken x sends p g k := by
  obtain ⟨k, hlen, hk, hqueue⟩ := drains hx h2 h256 hxs hq
  rw [List.cons_append] at hqueue
  obtain ⟨k', hpos, hk', hqueue', hshown⟩ := leaves_in_round hx h2 h256 hy hqueue
  refine ⟨k + k', by omega, by rw [Nat.add_mul]; omega, by rw [← Nat.add_assoc]; exact hshown, ?_⟩
  rw [← Nat.add_assoc, hqueue', List.append_assoc, ← taken_add]

/-- Three ports, of which port 0 has sent to the ports 2 and 1. -/
def twoWaiting (g : Nat) : TdmaMin 3 :=
  (clock · fun _ => .idle)^[g] ((machine 3).run
    [fun p => if p.val = 0 then ⟨portAddr 2, 0x80000002⟩ else .idle,
      fun p => if p.val = 0 then ⟨portAddr 1, 0x80000001⟩ else .idle])

theorem latency_three : ∃ k, 1 < k ∧ k ≤ 2 * 2 ^ stages 3 ∧ (twoWaiting k).recvs 1 = ⟨portAddr 0, 0x80000001⟩ := by
  obtain ⟨k, hlt, hle, hshown, -⟩ := latency (by decide) (by decide) twoWaiting (fun _ _ => .idle)
    (fun g => Function.iterate_succ_apply' ..) 0 0 1 [⟨portAddr 2, 0x80000002⟩] [] ⟨portAddr 1, 0x80000001⟩
    (by decide +kernel) (fun q hq => ⟨2, by rw [List.mem_singleton.1 hq]; rfl⟩) rfl
  exact ⟨k, hlt, hle, by rw [← Nat.zero_add k]; exact hshown⟩

end TdmaMin
end TdmaSoc
