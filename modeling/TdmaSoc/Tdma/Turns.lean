import TdmaSoc.Tdma.Traffic

/-!
# When a packet's turn comes

`turn` bounds the clocks until the first packet of a kind is at the head of its queue and leaves: every packet
before it takes one round of the slots at most.
-/

namespace TdmaSoc
namespace TdmaMin
variable {n : TdmaMin 8} {p : Fin 8} {kind : TdmaMinData → Bool}

def turn (kind : TdmaMinData → Bool) (p : Fin 8) (n : TdmaMin 8) : Nat :=
  match n.queue p with
  | [] => 0
  | y :: ys => wait (p.val ^^^ y.addr.toNat) n + 8 * (y :: ys).findIdx (kind ·.data)

theorem turn_of_cons {y : TdmaMinPort} {ys : List TdmaMinPort} (hq : n.queue p = y :: ys) :
    turn kind p n = wait (p.val ^^^ y.addr.toNat) n + 8 * (y :: ys).findIdx (kind ·.data) := by
  rw [turn, hq]

theorem turn_lt (h : ∃ y ∈ n.queue p, kind y.data = true) : turn kind p n < 8 * (n.queue p).length := by
  obtain ⟨z, hz, hkind⟩ := h
  cases hq : n.queue p with
  | nil =>
    rw [hq] at hz
    cases hz
  | cons y ys =>
    have hidx : (y :: ys).findIdx (kind ·.data) < (y :: ys).length := List.findIdx_lt_length.2 ⟨z, hq ▸ hz, hkind⟩
    have hwait := wait_lt (p.val ^^^ y.addr.toNat) n
    rw [turn_of_cons hq]
    omega

theorem findIdx_append_of_mem {l : List TdmaMinPort} (h : ∃ y ∈ l, kind y.data = true) (m : List TdmaMinPort) :
    (l ++ m).findIdx (kind ·.data) = l.findIdx (kind ·.data) := by
  rw [List.findIdx_append, if_pos (List.findIdx_lt_length.2 h)]

/-- The packet leaves, or its turn comes nearer; packets that enter the queue stay behind it. -/
theorem turn_clock (sends : Fin 8 → TdmaMinPort) (h : ∃ y ∈ n.queue p, kind y.data = true)
    (htargets : ∀ y ∈ n.queue p, ∃ d : Fin 8, y.addr = portAddr d)
    (hroom : (sends p).valid = true → (n.queue p).length < 256) :
    (∃ y ys, n.queue p = y :: ys ∧ kind y.data = true ∧ n.ack p = true) ∨
      turn kind p (n.clock sends) < turn kind p n := by
  have hqueue := queue_clock_of_lt sends hroom
  cases hq : n.queue p with
  | nil =>
    obtain ⟨y, hy, -⟩ := h
    rw [hq] at hy
    cases hy
  | cons y ys =>
    obtain ⟨d, hd⟩ := htargets y (by rw [hq]; exact List.mem_cons_self)
    have haddr : y.addr.toNat = d.val := by
      rw [hd, portAddr, BitVec.toNat_ofNat]
      omega
    have hs : p.val ^^^ d.val < 8 := Nat.xor_lt_two_pow (n := 3) p.isLt d.isLt
    rw [hq] at h hqueue
    cases hack : n.ack p
    · right
      have hslot : n.slot ≠ p.val ^^^ d := fun hslot => by
        rw [(ack_iff (by omega) hq hd).2 hslot] at hack
        cases hack
      rw [hack, if_neg Bool.false_ne_true, List.cons_append] at hqueue
      rw [turn_of_cons hqueue, turn_of_cons hq, ← List.cons_append, findIdx_append_of_mem h, haddr]
      have hwait := wait_clock_of_ne hs hslot sends
      omega
    · by_cases hkind : kind y.data = true
      · exact .inl ⟨y, ys, rfl, hkind, rfl⟩
      · right
        have hrest : ∃ z ∈ ys, kind z.data = true := by
          obtain ⟨z, hz, hkz⟩ := h
          rcases List.mem_cons.1 hz with rfl | hz
          · exact absurd hkz hkind
          · exact ⟨z, hz, hkz⟩
        rw [hack, if_pos rfl, List.tail_cons] at hqueue
        have hlt : turn kind p (n.clock sends) < 8 * (ys.findIdx (kind ·.data) + 1) := by
          cases ys with
          | nil =>
            obtain ⟨z, hz, -⟩ := hrest
            cases hz
          | cons z zs =>
            rw [List.cons_append] at hqueue
            have hwait := wait_lt (p.val ^^^ z.addr.toNat) (n.clock sends)
            rw [turn_of_cons hqueue, ← List.cons_append, findIdx_append_of_mem hrest]
            omega
        have hidx : (y :: ys).findIdx (kind ·.data) = ys.findIdx (kind ·.data) + 1 := by
          rw [List.findIdx_cons]
          simp [hkind]
        rw [turn_of_cons hq, hidx]
        omega

end TdmaMin
end TdmaSoc
