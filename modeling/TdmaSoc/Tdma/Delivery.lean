import TdmaSoc.Tdma.Network

/-!
# Delivery

What a port has been sent is what it has received plus what still waits for it. The ledger of one
source `p` and one destination `d` balances in every clock (`ledger_step`): a word that reaches `d`
labelled `p` is the head that `p` pops for `d`, and an accepted packet is one more that waits.
-/

namespace TdmaSoc
namespace TdmaMin
variable {ports : Nat}

/-- The packets among `xs` for port `d`, their words only. -/
def wordsFor (d : Fin ports) (xs : List TdmaMinPort) : List TdmaMinData :=
  (xs.filter fun x => x.addr == portAddr d).map (·.data)

theorem wordsFor_append (d : Fin ports) (xs ys : List TdmaMinPort) :
    wordsFor d (xs ++ ys) = wordsFor d xs ++ wordsFor d ys := by
  simp [wordsFor]

theorem wordsFor_singleton (d : Fin ports) (x : TdmaMinPort) :
    wordsFor d [x] = if x.addr = portAddr d then [x.data] else [] := by
  by_cases h : x.addr = portAddr d <;> simp [wordsFor, h]

def offered (p d : Fin ports) (_ : TdmaMin ports) (sends : Fin ports → TdmaMinPort) : List TdmaMinData :=
  if (sends p).valid then wordsFor d [sends p] else []

/-- The word with bit 31 set that this clock puts on `recvs(d)` with label `p`. -/
def delivered (p d : Fin ports) (n : TdmaMin ports) (sends : Fin ports → TdmaMinPort) : List TdmaMinData :=
  let recv := (n.clock sends).recvs d
  if recv.valid = true ∧ recv.addr = portAddr p then [recv.data] else []

/-- All words with bit 31 set that this clock puts on `recvs(d)`, with their labels. -/
def received (d : Fin ports) (n : TdmaMin ports) (sends : Fin ports → TdmaMinPort) : List TdmaMinPort :=
  let recv := (n.clock sends).recvs d
  if recv.valid then [recv] else []

/-- No interface FIFO is full when a packet is offered to it. -/
def NotFull (n : TdmaMin ports) (sends : Fin ports → TdmaMinPort) : Prop :=
  ∀ p, (sends p).valid = true → (n.queue p).length < 256

instance (n : TdmaMin ports) (sends : Fin ports → TdmaMinPort) : Decidable (NotFull n sends) :=
  inferInstanceAs (Decidable (∀ _, _ → _))

section
variable (h2 : 2 ≤ ports) (h256 : ports ≤ 256)

include h2 h256 in
/-- The word that reaches `d` under label `p` is the one `p` reads from its FIFO for `d`. -/
theorem delivered_eq {n : TdmaMin ports} (hv : n.QueuesValid) (sends : Fin ports → TdmaMinPort) (p d : Fin ports) :
    delivered p d n sends = wordsFor d ((n.interfaces p).fifo.reads (n.ack p)) := by
  have hlabel := addr_eq_portAddr_iff h256 n d p
  have hpd : p.val ^^^ n.slot = d ↔ d.val ^^^ n.slot = p := by
    constructor <;> intro h <;> rw [← h] <;> simp
  simp only [delivered, recvs_clock, TdmaMinPort.valid, pull_eq h2 h256, hlabel]
  by_cases hp : d.val ^^^ n.slot = p
  · -- the slot of the pair: `p` pushes towards `d`
    have haddr : TdmaMinInterface.addr p n.slot = portAddr d := (addr_eq_portAddr_iff h256 n p d).2 (hpd.2 hp)
    simp only [hp, p.isLt, dif_pos, and_true, Fin.eta]
    cases hq : n.queue p with
    | nil =>
      obtain ⟨hpush, hack⟩ := push_of_nil hq
      simp [hpush, hack, Scfifo.reads, wordsFor]
    | cons x xs =>
      obtain ⟨hpush, hack⟩ := push_of_cons hq
      have hx : x.data.msb = true := hv p x (by rw [hq]; exact List.mem_cons_self ..)
      rw [hpush, hack, haddr]
      by_cases hxd : x.addr = portAddr d
      · simp [hxd, hx, Scfifo.reads, show (n.interfaces p).fifo.items = x :: xs from hq, wordsFor]
      · simp [hxd, Scfifo.reads, wordsFor]
  · -- any other slot: what `p` pops, if anything, is for another port
    simp only [hp, and_false, if_false]
    cases hq : n.queue p with
    | nil => simp [(push_of_nil hq).2, Scfifo.reads, wordsFor]
    | cons x xs =>
      rw [(push_of_cons hq).2]
      by_cases hxa : x.addr = TdmaMinInterface.addr p n.slot
      · have hne : TdmaMinInterface.addr p n.slot ≠ portAddr d := fun h =>
          hp (hpd.1 ((addr_eq_portAddr_iff h256 n p d).1 h))
        simp [hxa, Scfifo.reads, show (n.interfaces p).fifo.items = x :: xs from hq, wordsFor, hne]
      · simp [hxa, Scfifo.reads, wordsFor]

theorem offered_eq {n : TdmaMin ports} {sends : Fin ports → TdmaMinPort} {p : Fin ports}
    (hf : (sends p).valid = true → (n.queue p).length < 256) (d : Fin ports) :
    offered p d n sends = wordsFor d ((n.interfaces p).fifo.writes (sends p).valid (sends p)) := by
  unfold offered
  cases hv : (sends p).valid
  · simp [wordsFor]
  · rw [Scfifo.writes_of_lt _ (hf hv)]; rfl

include h2 h256 in
theorem ledger_step {n : TdmaMin ports} (hv : n.QueuesValid) {sends : Fin ports → TdmaMinPort} {p : Fin ports}
    (hf : (sends p).valid = true → (n.queue p).length < 256) (d : Fin ports) :
    delivered p d n sends ++ wordsFor d ((n.clock sends).queue p) =
      wordsFor d (n.queue p) ++ offered p d n sends := by
  rw [delivered_eq h2 h256 hv, offered_eq hf d, ← wordsFor_append, ← wordsFor_append, queue_clock,
    Scfifo.reads_append_clock]
  rfl

include h2 h256 in
theorem received_label {n : TdmaMin ports} {sends : Fin ports → TdmaMinPort} {d : Fin ports} {r : TdmaMinPort}
    (hr : r ∈ received d n sends) : ∃ p : Fin ports, r.addr = portAddr p ∧ r.data ∈ delivered p d n sends := by
  by_cases hval : ((n.clock sends).recvs d).valid = true
  · simp only [received, hval, if_true, List.mem_singleton] at hr
    subst hr
    by_cases hp : d.val ^^^ n.slot < ports
    · have hl := (addr_eq_portAddr_iff h256 n d ⟨_, hp⟩).2 rfl
      refine ⟨⟨_, hp⟩, hl, ?_⟩
      rw [delivered, if_pos ⟨hval, hl⟩]
      exact List.mem_singleton_self _
    · rw [recvs_clock, TdmaMinPort.valid, pull_eq h2 h256, dif_neg hp] at hval
      simp at hval
  · simp [received, hval] at hr

end

/-- `TdmaMin` delivers exactly once, in order and correctly labelled. On every run in which no FIFO is
full when it is offered a packet, what `d` has received under the label `p`, followed by what still waits
in `p`'s FIFO for `d`, is what `p` has offered to `d`; and every packet on `recvs(d)` is one that the
port it is labelled with has sent to `d`. -/
theorem exactly_once {ports : Nat} (h2 : 2 ≤ ports) (h256 : ports ≤ 256)
    (sends : List (Fin ports → TdmaMinPort)) (hfull : (machine ports).Along NotFull sends) (d : Fin ports) :
    (∀ p : Fin ports,
      (machine ports).log (delivered p d) sends ++ wordsFor d (((machine ports).run sends).queue p) =
        (machine ports).log (offered p d) sends) ∧
    ∀ r ∈ (machine ports).log (received d) sends,
      ∃ p : Fin ports, r.addr = portAddr p ∧ r.data ∈ (machine ports).log (offered p d) sends := by
  have hv : ∀ is, (machine ports).Along NotFull is → ((machine ports).run is).QueuesValid := fun is h =>
    Machine.invariant .init (fun _ sends h _ => h.clock sends) h
  have hledger : ∀ p : Fin ports, (machine ports).log (delivered p d) sends ++
      wordsFor d (((machine ports).run sends).queue p) = (machine ports).log (offered p d) sends := by
    intro p
    refine (Machine.ledger (fun s => wordsFor d (s.queue p)) ?_ (fun is i his hi => ?_) hfull).symm
    · simp [machine, queue, init, TdmaMinInterface.init, wordsFor]
    · exact ledger_step h2 h256 (hv is his) (hi p) d
  refine ⟨hledger, ?_⟩
  -- a received word is in the ledger of the port it is labelled with
  have hlog : ∀ r ∈ (machine ports).log (received d) sends,
      ∃ p : Fin ports, r.addr = portAddr p ∧ r.data ∈ (machine ports).log (delivered p d) sends := by
    clear hledger
    induction sends using List.reverseRecOn with
    | nil => intro r hr; simp at hr
    | append_singleton is i ih =>
      rw [Machine.along_concat] at hfull
      intro r hr
      rw [Machine.log_concat, List.mem_append] at hr
      rcases hr with hr | hr
      · obtain ⟨p, hp, hmem⟩ := ih hfull.1 r hr
        exact ⟨p, hp, by rw [Machine.log_concat]; exact List.mem_append_left _ hmem⟩
      · obtain ⟨p, hp, hmem⟩ := received_label h2 h256 hr
        exact ⟨p, hp, by rw [Machine.log_concat]; exact List.mem_append_right _ hmem⟩
  intro r hr
  obtain ⟨p, hp, hmem⟩ := hlog r hr
  exact ⟨p, hp, by rw [← hledger p]; exact List.mem_append_left _ hmem⟩

/-- Ports 0 and 2 of three send to port 1 in the same clock. -/
def exampleSends : List (Fin 3 → TdmaMinPort) :=
  [fun p => if p = 1 then .idle else ⟨portAddr 1, if p = 0 then 0x80000001 else 0x80000002⟩,
    fun _ => .idle, fun _ => .idle, fun _ => .idle]

theorem exactly_once_three :
    (machine 3).log (received 1) exampleSends = [⟨portAddr 0, 0x80000001⟩, ⟨portAddr 2, 0x80000002⟩] ∧
    (machine 3).log (delivered 2 1) exampleSends ++ wordsFor (1 : Fin 3) (((machine 3).run exampleSends).queue 2) =
      (machine 3).log (offered 2 1) exampleSends :=
  ⟨by decide +kernel, (exactly_once (by decide) (by decide) exampleSends (by decide +kernel) 1).1 2⟩

end TdmaMin
end TdmaSoc
