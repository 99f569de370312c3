import TdmaSoc.Tdma.Network

/-!
# Isolation of the sources

Two runs in which port `p` sends the same and all other ports what they like. The slots pass alike in both,
so the queue of `p`, which nothing but its own packets and the slots moves, is the same in both (`Alike`),
and so is every word that is on show under the label `p`.
-/

namespace TdmaSoc
namespace TdmaMin
variable {ports : Nat}

/-- Port `p` cannot tell the two networks apart, and what they show under its label is the same. -/
structure Alike (p : Fin ports) (n n' : TdmaMin ports) : Prop where
  slot : n.slot = n'.slot
  fifo : (n.interfaces p).fifo = (n'.interfaces p).fifo
  label : ∀ d, (n.recvs d).addr = (n'.recvs d).addr
  data : ∀ d, (n.recvs d).addr = portAddr p → (n.recvs d).data = (n'.recvs d).data

variable {p : Fin ports} {n n' : TdmaMin ports} {sends sends' : Fin ports → TdmaMinPort}

theorem Alike.refl (p : Fin ports) (n : TdmaMin ports) : n.Alike p n :=
  ⟨rfl, rfl, fun _ => rfl, fun _ _ => rfl⟩

theorem Alike.push (h : n.Alike p n') : n.push p = n'.push p := by
  unfold TdmaMin.push TdmaMinInterface.push TdmaMinInterface.todo
  rw [h.fifo, h.slot]

theorem Alike.ack (h : n.Alike p n') : n.ack p = n'.ack p := by
  unfold TdmaMin.ack TdmaMinInterface.ready TdmaMinInterface.todo
  rw [h.fifo, h.slot]

/-- The fabric connects `p` to the same port in both networks. -/
theorem Alike.pull (h : n.Alike p n') (h2 : 2 ≤ ports) (h256 : ports ≤ 256) {d : Fin ports}
    (hd : TdmaMinInterface.addr d n.slot = portAddr p) : n.pull d = n'.pull d := by
  have hp : d.val ^^^ n.slot = p := (addr_eq_portAddr_iff h256 n d p).1 hd
  have hp' : d.val ^^^ n'.slot = p := by rw [← h.slot]; exact hp
  rw [pull_eq h2 h256, pull_eq h2 h256]
  simp only [hp, hp', p.isLt, dif_pos, Fin.eta]
  exact h.push

theorem Alike.clock (h : n.Alike p n') (h2 : 2 ≤ ports) (h256 : ports ≤ 256) (hs : sends p = sends' p) :
    (n.clock sends).Alike p (n'.clock sends') := by
  refine ⟨?_, ?_, fun d => ?_, fun d hd => ?_⟩
  · show (n.slot + 1) % _ = (n'.slot + 1) % _
    rw [h.slot]
  · show (n.interfaces p).fifo.clock (n.ack p) (sends p).valid (sends p) =
      (n'.interfaces p).fifo.clock (n'.ack p) (sends' p).valid (sends' p)
    rw [h.fifo, h.ack, hs]
  · rw [recvs_clock, recvs_clock, h.slot]
  · rw [recvs_clock] at hd
    rw [recvs_clock, recvs_clock]
    exact h.pull h2 h256 hd

/-- Traffic is isolated per source. In any two runs of the same length in which `p` sends the same in every
clock, every port that shows the label `p` shows it in both, with the same word. -/
theorem isolated {ports : Nat} (h2 : 2 ≤ ports) (h256 : ports ≤ 256) (p : Fin ports)
    (sends sends' : List (Fin ports → TdmaMinPort)) (hp : sends.map (· p) = sends'.map (· p)) (d : Fin ports) :
    (((machine ports).run sends).recvs d).addr = (((machine ports).run sends').recvs d).addr ∧
      ((((machine ports).run sends).recvs d).addr = portAddr p →
        (((machine ports).run sends).recvs d).data = (((machine ports).run sends').recvs d).data) := by
  have hall : List.Forall₂ (fun i i' : Fin ports → TdmaMinPort => i p = i' p) sends sends' :=
    List.forall₂_map_left_iff.1 (List.forall₂_map_right_iff.1 (hp ▸ List.forall₂_refl _))
  have hrun : ((machine ports).run sends).Alike p ((machine ports).run sends') :=
    Machine.related (R := Alike p) (.refl p _) (fun _ _ h _ _ hi => h.clock h2 h256 hi) hall
  exact ⟨hrun.label d, hrun.data d⟩

/-- Port 0 of three sends a packet to port 1; in the second run ports 1 and 2 send as well. -/
def lonely : List (Fin 3 → TdmaMinPort) :=
  [fun p => if p.val = 0 then ⟨portAddr 1, 0x80000001⟩ else .idle, fun _ => .idle]

def crowded : List (Fin 3 → TdmaMinPort) :=
  [fun p => ⟨portAddr 1, if p.val = 0 then 0x80000001 else 0x80000002⟩,
    fun p => if p.val = 0 then .idle else ⟨portAddr 9, 0x80000003⟩]

theorem isolated_three :
    ((machine 3).run lonely).recvs 1 = ⟨portAddr 0, 0x80000001⟩ ∧
      (((machine 3).run lonely).recvs 1).data = (((machine 3).run crowded).recvs 1).data :=
  ⟨by decide +kernel, (isolated (by decide) (by decide) 0 lonely crowded (by decide +kernel) 1).2 (by decide +kernel)⟩

end TdmaMin
end TdmaSoc
