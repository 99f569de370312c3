import TdmaSoc.Asp.Chip

/-!
# Acknowledging peaks

PdAsp on port 4 reports a peak until it is acknowledged, the loop of the Nios on port 7 acknowledges
every report it reads. `AckBench` numbers the detections and follows each report through the network, by
a second FIFO that is clocked like that of port 4. The acknowledgement stays in the processor's send
register for good: from the first one on every new peak is acknowledged whether its report has been read
or not. What holds is `acknowledged_after_read`, as long as no peak is detected once a report has been
read and the loop reads no report that a later peak has made stale.
-/

namespace TdmaSoc
open TdmaMin

structure AckBench where
  chip : Chip
  /-- The number of peaks detected, which is the number of the last one. -/
  detections : Nat
  /-- The detection that the word in PdAsp's send register reports. -/
  sendTag : Nat
  /-- The detections that the packets in the FIFO of port 4 report. -/
  tags : Scfifo Nat 256
  /-- The detection that a word of port 4 on show at port 7 reports. -/
  recvTag : Nat
  /-- The detections of which the loop has read a report. -/
  read : List Nat

namespace AckBench

def init : AckBench := ⟨.init, 0, 0, .nil, 0, []⟩

def readsReport (x : AckBench) (i : ChipInput) : Bool :=
  i.poll && x.chip.nios.readsReport (x.chip.net.recvs 7).data

/-- The report it reads is one of PdAsp's. -/
def readsPeak (x : AckBench) (i : ChipInput) : Bool :=
  x.readsReport i && (x.chip.net.recvs 7).addr == portAddr (4 : Fin 8)

def clock (on : Fin 8 → Bool) (x : AckBench) (i : ChipInput) : AckBench where
  chip := x.chip.clock on i
  detections := x.detections + (x.chip.pd.detects (x.chip.net.recvs 4)).toNat
  sendTag := x.detections
  tags := x.tags.clock (x.chip.net.ack 4) (x.chip.sends on i 4).valid x.sendTag
  recvTag := x.tags.q.getD 0
  read := if x.readsPeak i then x.recvTag :: x.read else x.read

def machine (on : Fin 8 → Bool) : Machine AckBench ChipInput := ⟨init, clock on⟩

/-- An acknowledgement on show at port 4 resets a flag only if a report of the last detection has been read. -/
def Acknowledged (x : AckBench) : Prop :=
  x.chip.pd.peakDetected = true → isCountRead (x.chip.net.recvs 4).data = true → x.detections ∈ x.read

instance (x : AckBench) : Decidable (Acknowledged x) := inferInstanceAs (Decidable (_ → _ → _))

/-- No other port acknowledges peaks to PdAsp or reports peaks to the Nios. -/
def OnlyPair (on : Fin 8 → Bool) (x : AckBench) (i : ChipInput) : Prop :=
  (∀ p, p ≠ 7 → (x.chip.sends on i p).addr = portAddr (4 : Fin 8) →
    isCountRead (x.chip.sends on i p).data = false) ∧
  ∀ p, p ≠ 4 → (x.chip.sends on i p).addr = portAddr (7 : Fin 8) → Nios.isReport (x.chip.sends on i p).data = false

instance (on : Fin 8 → Bool) (x : AckBench) (i : ChipInput) : Decidable (OnlyPair on x i) :=
  inferInstanceAs (Decidable ((∀ _, _ → _ → _) ∧ ∀ _, _ → _ → _))

/-- The values 1, 0, 1, 0 in eight packets of port 3; the loop reads in every clock. -/
def exampleInput (t : Nat) : ChipInput :=
  let packet : TdmaMinPort :=
    if t = 1 ∨ t = 5 then CorAsp.halfPacket true 1
    else if t = 3 ∨ t = 7 then CorAsp.halfPacket true 0
    else if t < 8 then CorAsp.halfPacket false 0
    else .idle
  ⟨0, true, fun p => if p = 3 then packet else .idle⟩

/-- The second peak is acknowledged and no report of it has been read. -/
theorem acknowledged_unread :
    (machine (onPorts [4, 7])).Along (OnlyPair (onPorts [4, 7])) ((List.range 68).map exampleInput) ∧
      ¬ Acknowledged ((machine (onPorts [4, 7])).run ((List.range 68).map exampleInput)) := by
  decide +kernel

/-- No peak is detected once the loop has read a report, and no report is read that is not of the last peak. -/
structure Timely (x : AckBench) (i : ChipInput) : Prop where
  first : x.chip.pd.detects (x.chip.net.recvs 4) = true → ¬ x.chip.nios.acknowledges ∧ x.readsReport i = false
  latest : x.readsReport i = true → x.recvTag = x.detections

instance (x : AckBench) (i : ChipInput) : Decidable (Timely x i) :=
  decidable_of_iff ((x.chip.pd.detects (x.chip.net.recvs 4) = true →
      ¬ x.chip.nios.acknowledges ∧ x.readsReport i = false) ∧
    (x.readsReport i = true → x.recvTag = x.detections)) ⟨fun h => ⟨h.1, h.2⟩, fun h => ⟨h.1, h.2⟩⟩

structure Inv (x : AckBench) : Prop where
  /-- Port 4 gets acknowledgements from port 7 only, and port 7 gets reports from port 4 only. -/
  pair : x.chip.net.Carries fun p packet =>
    (packet.addr = portAddr (4 : Fin 8) → isCountRead packet.data = true → p = 7) ∧
    (packet.addr = portAddr (7 : Fin 8) → Nios.isReport packet.data = true → p = 4)
  only : x.chip.nios.OnlyCorrRead
  /-- What is under way from the Nios has left its register holding the acknowledgement. -/
  held : x.chip.net.queue 7 ≠ [] ∨ isCountRead (x.chip.net.recvs 4).data = true → x.chip.nios.tdmaSendData ≠ 0
  read : x.chip.nios.acknowledges → x.detections ∈ x.read

variable {on : Fin 8 → Bool} {x : AckBench} {i : ChipInput}

theorem Inv.init : AckBench.init.Inv where
  pair := .init
  only := by decide
  held h := absurd h (by decide)
  read h := absurd h (by decide)

theorem nios_clock : (x.clock on i).chip.nios =
    if i.poll then x.chip.nios.access (x.chip.net.recvs 7).data else x.chip.nios := rfl

/-- The acknowledgement stays in the register, which the packets under way have come from. -/
theorem Inv.held_clock (h7 : on 7 = true) (h : x.Inv) :
    (x.clock on i).chip.net.queue 7 ≠ [] ∨ isCountRead ((x.clock on i).chip.net.recvs 4).data = true →
      (x.clock on i).chip.nios.tdmaSendData ≠ 0 := by
  have hkeeps : x.chip.nios.tdmaSendData ≠ 0 → (x.clock on i).chip.nios.tdmaSendData ≠ 0 := fun hs => by
    rw [nios_clock]; split
    · exact h.only.keeps hs
    · exact hs
  rintro (hq | hc)
  · refine hkeeps ?_
    obtain ⟨packet, hm⟩ := List.exists_mem_of_ne_nil _ hq
    rcases Scfifo.mem_clock _ (show packet ∈ ((x.chip.net.interfaces 7).fifo.clock _ _ _).items from hm)
      with hm | ⟨hv, -⟩
    · exact h.held (.inl (List.ne_nil_of_mem hm))
    · rw [Chip.sends_nios _ _ h7] at hv
      intro h0
      rw [TdmaMinPort.valid, Nios.sendSignal, h0] at hv
      exact absurd (show (0#32).msb = true from hv) (by decide)
  · refine hkeeps ?_
    rcases recvs_clock_cases (by omega) (by omega) (x.chip.sends on i) 4 with h0 | ⟨p, a, as, hq, ha, -, hr⟩
    · rw [show ((x.clock on i).chip.net.recvs 4).data = 0 from h0] at hc
      simp [isCountRead] at hc
    · rw [show (x.clock on i).chip.net.recvs 4 = _ from hr] at hc
      have hp7 := (h.pair.1 p a (by rw [hq]; exact List.mem_cons_self ..)).1 ha hc
      subst hp7
      exact h.held (.inl (by rw [hq]; exact List.cons_ne_nil _ _))

/-- An acknowledgement is on its way only if a report of the last peak has been read. -/
theorem Inv.read_clock (h : x.Inv) (ht : x.Timely i) :
    (x.clock on i).chip.nios.acknowledges → (x.clock on i).detections ∈ (x.clock on i).read := by
  intro hack
  show x.detections + (x.chip.pd.detects (x.chip.net.recvs 4)).toNat ∈
    if x.readsPeak i then x.recvTag :: x.read else x.read
  by_cases hr : x.readsReport i = true
  · -- a report is read: it is PdAsp's, and of the last peak
    have hd : x.chip.pd.detects (x.chip.net.recvs 4) = false := by
      by_contra hd
      rw [(ht.first (by simpa using hd)).2] at hr; cases hr
    have hlabel : x.readsPeak i = true := by
      have hrep : Nios.isReport (x.chip.net.recvs 7).data = true :=
        (Bool.and_eq_true_iff.1 (Bool.and_eq_true_iff.1 hr).2).2
      rw [readsPeak, hr, Bool.true_and, beq_iff_eq]
      rcases h.pair.2 7 with h0 | ⟨p, hlabel, hpair⟩
      · rw [h0] at hrep; exact absurd hrep (by decide)
      · rw [hlabel, hpair.2 rfl hrep]
    rw [hlabel, hd, ht.latest hr]
    exact List.mem_cons_self ..
  · have hr : x.readsReport i = false := by simpa using hr
    have hack : x.chip.nios.acknowledges := by
      rw [nios_clock] at hack
      cases hpoll : i.poll
      · rw [hpoll] at hack; exact hack
      · rw [hpoll, if_pos rfl] at hack
        exact Nios.acknowledges_of_access (by rw [readsReport, hpoll] at hr; exact hr) hack
    have hd : x.chip.pd.detects (x.chip.net.recvs 4) = false := by
      by_contra hd
      exact (ht.first (by simpa using hd)).1 hack
    rw [readsPeak, hr, hd]
    exact h.read hack

theorem Inv.clock (h7 : on 7 = true) (h : x.Inv) (hp : OnlyPair on x i) (ht : x.Timely i) : (x.clock on i).Inv where
  pair := by
    refine h.pair.clock (by decide) (by decide) fun p _ => ⟨fun ha hc => ?_, fun ha hr => ?_⟩
    · by_contra hne; rw [hp.1 p hne ha] at hc; cases hc
    · by_contra hne; rw [hp.2 p hne ha] at hr; cases hr
  only := by
    rw [nios_clock]; split
    · exact h.only.access
    · exact h.only
  held := h.held_clock h7
  read := h.read_clock ht

/-- In a run whose clocks are all timely, no peak is acknowledged before the Nios has read a report of it. -/
theorem acknowledged_after_read {on : Fin 8 → Bool} (h7 : on 7 = true) {is : List ChipInput}
    (h : (machine on).Along (fun x i => OnlyPair on x i ∧ x.Timely i) is) : ((machine on).run is).Acknowledged := by
  have hinv : ((machine on).run is).Inv := Machine.invariant .init (fun _ _ h hp => h.clock h7 hp.1 hp.2) h
  exact fun _ hc => hinv.read (.inl (hinv.held (.inr hc)))

/-- The first peak of `exampleInput` is acknowledged after its report has been read. -/
theorem acknowledged_first_peak :
    let x := (machine (onPorts [4, 7])).run ((List.range 44).map exampleInput)
    isCountRead (x.chip.net.recvs 4).data = true ∧ x.detections ∈ x.read :=
  ⟨by decide +kernel, @acknowledged_after_read (onPorts [4, 7]) (by decide) ((List.range 44).map exampleInput)
    (by decide +kernel) (by decide +kernel) (by decide +kernel)⟩

end AckBench
end TdmaSoc
