import Mathlib.Tactic.Linarith
import Mathlib.Tactic.Positivity
import TdmaSoc.Asp.Chip

/-!
# Sampling periods and the slot of the ADC

Port 1 has the slot to port 2 once in eight clocks, and ADCAsp emits a sample whenever its counter has
reached the delay. `Sampling D` is the state of things when the delay stays at `D ≥ 8` clocks or more:
the counter is then the age of the last sample, and a sample in the queue is too young for the next one
to come before it has left (`Sampling.age`). Below eight clocks the queue only grows.
-/

namespace TdmaSoc
open TdmaMin

namespace ADCAsp

/-- The codes from 011 on are delays of eight clocks or more, those from 100 on of sixteen or more. -/
theorem le_sampleDelay : ∀ code : BitVec 3,
    (3 ≤ code.toNat → 8 ≤ sampleDelay code) ∧ (4 ≤ code.toNat → 16 ≤ sampleDelay code) := by
  decide

/-- A configuration word that leaves the delay at `D` clocks or more. -/
def KeepsDelay (D : Nat) (d : TdmaMinData) : Prop := isConfig d = true → D ≤ sampleDelay (d.slice 0 3)

instance (D : Nat) (d : TdmaMinData) : Decidable (KeepsDelay D d) := inferInstanceAs (Decidable (_ → _))

theorem Sent.isSample_of_valid {packet : TdmaMinPort} (h : Sent packet) (hv : packet.valid = true) :
    isSample packet.data = true ∧ packet.addr = portAddr (2 : Fin 8) := by
  cases h with
  | idle => cases hv
  | sample b adc => exact ⟨by simp [isSample], rfl⟩

theorem Sent.isData_false {packet : TdmaMinPort} (h : Sent packet) {mode : BitVec 4} (hm : mode ≠ 0b0001#4) :
    isData mode packet.data = false := by
  cases h with
  | idle => exact isData_zero _
  | sample b adc => rw [isData_samplePacket]; exact beq_eq_false_iff_ne.2 hm.symm

theorem Sent.words {packet : TdmaMinPort} (h : Sent packet) :
    [packet.data].filter isSample = wordsFor (2 : Fin 8) packet.packets := by
  cases h with
  | idle => rw [TdmaMinPort.packets_idle]; simp [wordsFor, isSample, TdmaMinPort.idle]
  | sample b adc =>
    rw [TdmaMinPort.packets, if_pos (valid_samplePacket b adc)]
    simp [wordsFor, isSample, portAddr]

end ADCAsp

namespace Chip
variable {on : Fin 8 → Bool} {x : Chip} {i : ChipInput} {D : Nat}

/-- ADCAsp and its queue while the delay is `D` clocks or more; the counter is the age of the last sample. -/
structure Sampling (D : Nat) (x : Chip) : Prop where
  adc : ADCAsp.Sent x.adc.sendSignal
  delay : D ≤ x.adc.adcSampleDelay
  samples : ∀ packet ∈ x.net.queue 1, isSample packet.data = true ∧ packet.addr = portAddr (2 : Fin 8)
  short : (x.net.queue 1).length ≤ 1
  sending : x.adc.sendSignal.packets ≠ [] → x.adc.adcSampleDelayCounter = 1
  /-- A sample in the queue waits for slot 3; at a delay of eight clocks the next may be on its way. -/
  age : x.net.queue 1 ≠ [] → 2 ≤ x.adc.adcSampleDelayCounter ∧
      x.adc.adcSampleDelayCounter ≤ 2 + (x.net.slot + 4) % 8 ∨
    D ≤ 8 ∧ x.adc.adcSampleDelayCounter = 1 ∧ x.net.slot = 3

theorem Sampling.init (h : D ≤ 16) : Chip.init.Sampling D :=
  ⟨.idle, h, fun _ hm => (by cases hm), Nat.zero_le _, fun hne => absurd rfl hne, fun hne => absurd rfl hne⟩

theorem Sampling.not_full (h : x.Sampling D) : (x.net.queue 1).length < 256 :=
  Nat.lt_of_le_of_lt h.short (by omega)

theorem Sampling.queue_clock (h1 : on 1 = true) (h : x.Sampling D) : (x.clock on i).net.queue 1 =
    (if x.net.ack 1 then (x.net.queue 1).tail else x.net.queue 1) ++ x.adc.sendSignal.packets := by
  have hq := queue_clock_of_lt (x.sends on i) (p := 1) fun _ => h.not_full
  rwa [sends_adc x i h1] at hq

theorem Sampling.ack_iff (h : x.Sampling D) {packet : TdmaMinPort} (hq : x.net.queue 1 = [packet]) :
    x.net.ack 1 = true ↔ x.net.slot = 3 :=
  TdmaMin.ack_iff (d := 2) (by omega) hq (h.samples packet (by rw [hq]; exact List.mem_singleton_self _)).2

/-- The queue of the ADC's port after a clock: what is sent, or the sample that has to wait on. -/
theorem Sampling.queue_cases (h1 : on 1 = true) (h : x.Sampling D) :
    (x.clock on i).net.queue 1 = x.adc.sendSignal.packets ∧ (x.net.queue 1 ≠ [] → x.net.slot = 3) ∨
    x.adc.sendSignal.packets = [] ∧
      ∃ packet, x.net.queue 1 = [packet] ∧ (x.clock on i).net.queue 1 = [packet] ∧ x.net.slot ≠ 3 := by
  have hq := h.queue_clock (i := i) h1
  cases hqueue : x.net.queue 1 with
  | nil =>
    left
    rw [hq, hqueue]
    exact ⟨by simp, fun hne => absurd rfl hne⟩
  | cons packet rest =>
    have hshort := h.short
    rw [hqueue] at hshort
    obtain rfl : rest = [] := by simpa using hshort
    by_cases hs : x.net.slot = 3
    · left
      rw [hq, hqueue, if_pos ((h.ack_iff hqueue).2 hs)]
      exact ⟨rfl, fun _ => hs⟩
    · right
      have hnone : x.adc.sendSignal.packets = [] := by
        by_contra hne
        have hn := h.sending hne
        rcases h.age (by rw [hqueue]; exact List.cons_ne_nil _ _) with ⟨h2, -⟩ | ⟨-, -, h3⟩
        · omega
        · exact hs h3
      refine ⟨hnone, packet, rfl, ?_, hs⟩
      rw [hq, hqueue, if_neg fun hack => hs ((h.ack_iff hqueue).1 hack), hnone]
      rfl

theorem Sampling.clock (h1 : on 1 = true) (h8 : 8 ≤ D) (h : x.Sampling D)
    (hk : ADCAsp.KeepsDelay D (x.net.recvs 1).data) : (x.clock on i).Sampling D := by
  have hcounter : (x.clock on i).adc.adcSampleDelayCounter =
      (if x.adc.expired then 0 else x.adc.adcSampleDelayCounter) + 1 := rfl
  have hsend : (x.clock on i).adc.sendSignal = if x.adc.expired then _ else .idle := rfl
  have hslot : (x.clock on i).net.slot = (x.net.slot + 1) % 8 := rfl
  have hslot8 : x.net.slot < 8 := x.net.slot_lt
  have hexp : x.adc.expired = true → D ≤ x.adc.adcSampleDelayCounter := fun he =>
    Nat.le_trans h.delay (of_decide_eq_true he)
  refine ⟨ADCAsp.sent_clock .., ?_, ?_, ?_, ?_, ?_⟩
  · show D ≤ if ADCAsp.isConfig (x.net.recvs 1).data then _ else _
    split
    case isTrue hc => exact hk hc
    case isFalse => exact h.delay
  · intro packet hm
    rw [h.queue_clock h1, List.mem_append] at hm
    rcases hm with hm | hm
    · refine h.samples packet ?_
      split at hm
      · exact List.mem_of_mem_tail hm
      · exact hm
    · rcases x.adc.sendSignal.packets_cases with hp | ⟨hv, hp⟩
      · rw [hp] at hm; cases hm
      · rw [hp, List.mem_singleton] at hm
        rw [hm]
        exact h.adc.isSample_of_valid hv
  · rcases h.queue_cases (i := i) h1 with ⟨hq, -⟩ | ⟨-, packet, -, hq, -⟩
    · rw [hq]; rcases x.adc.sendSignal.packets_cases with hp | ⟨-, hp⟩ <;> rw [hp] <;> simp
    · rw [hq]; simp
  · intro hne
    rw [hcounter]
    cases he : x.adc.expired
    · rw [hsend, he, if_neg Bool.false_ne_true] at hne; exact absurd rfl hne
    · rfl
  · intro hne
    rw [hcounter, hslot]
    rcases h.queue_cases (i := i) h1 with ⟨hq, -⟩ | ⟨-, packet, hold, -, h3⟩
    · -- the sample that enters the queue has just been emitted
      rw [hq] at hne
      have hn := h.sending hne
      have he : x.adc.expired = false := by
        by_contra he; have := hexp (by simpa using he); omega
      rw [he, hn]
      left; simp
    · rcases h.age (by rw [hold]; exact List.cons_ne_nil _ _) with ⟨h2, hage⟩ | ⟨-, -, hs⟩
      · cases he : x.adc.expired
        · left
          simp only [Bool.false_eq_true, if_false]
          omega
        · have hD := hexp he
          right
          simp only [if_true, Nat.zero_add, true_and]
          omega
      · exact absurd hs h3

def emitted (x : Chip) (_ : ChipInput) : List TdmaMinData := [x.adc.sendSignal.data].filter isSample

/-- The sample words that port 2 is handed by port 1. -/
def handed (on : Fin 8 → Bool) (x : Chip) (i : ChipInput) : List TdmaMinData := shown 1 2 (x.clock on i).net

/-- A sample that is emitted does not find the FIFO of port 1 full. -/
def SampleTaken (x : Chip) : Prop :=
  isSample x.adc.sendSignal.data = true → (x.net.queue 1).length < 256

instance (x : Chip) : Decidable (SampleTaken x) := inferInstanceAs (Decidable (_ → _))

/-- The ADC's configuration words select the delay codes 011 to 111. -/
def CarriedDelay (x : Chip) : Prop :=
  ADCAsp.isConfig (x.net.recvs 1).data = true → 3 ≤ ((x.net.recvs 1).data.slice 0 3).toNat

instance (x : Chip) : Decidable (CarriedDelay x) := inferInstanceAs (Decidable (_ → _))

theorem CarriedDelay.keepsDelay (h : x.CarriedDelay) : ADCAsp.KeepsDelay 8 (x.net.recvs 1).data := fun hc =>
  (ADCAsp.le_sampleDelay _).1 (h hc)

theorem Sampling.emitted_eq (h : x.Sampling D) : x.emitted i = wordsFor (2 : Fin 8) x.adc.sendSignal.packets :=
  h.adc.words

theorem Sampling.ledger (h1 : on 1 = true) (hs : x.Sound) (h : x.Sampling D) :
    x.handed on i ++ wordsFor (2 : Fin 8) ((x.clock on i).net.queue 1) =
      wordsFor (2 : Fin 8) (x.net.queue 1) ++ x.emitted i := by
  have := shown_ledger (x.sends on i) (p := 1) (by omega) (by omega) hs.queues (fun _ => h.not_full) 2
  rw [sends_adc x i h1, wordsFor_append] at this
  rw [h.emitted_eq]
  exact this

theorem run_sampling (h1 : on 1 = true) {is : List ChipInput} (h : (machine on).Along (fun x _ => CarriedDelay x) is) :
    ((machine on).run is).Sound ∧ ((machine on).run is).Sampling 8 :=
  Machine.invariant (I := fun x => x.Sound ∧ x.Sampling 8) ⟨.init, .init (by decide)⟩
    (fun _ i hx hc => ⟨hx.1.clock i, hx.2.clock h1 (Nat.le_refl 8) hc.keepsDelay⟩) h

theorem run_handed (h1 : on 1 = true) {is : List ChipInput} (h : (machine on).Along (fun x _ => CarriedDelay x) is) :
    (machine on).log emitted is =
      (machine on).log (handed on) is ++ wordsFor (2 : Fin 8) (((machine on).run is).net.queue 1) := by
  refine Machine.ledger (fun x => wordsFor (2 : Fin 8) (x.net.queue 1)) rfl (fun is i his _ => ?_) h
  obtain ⟨hs, hx⟩ := run_sampling h1 his
  exact hx.ledger h1 hs

theorem handed_within (h1 : on 1 = true) {is js : List ChipInput}
    (h : (machine on).Along (fun x _ => CarriedDelay x) (is ++ js)) (hlen : 8 ≤ js.length) :
    (machine on).log emitted is <+: (machine on).log (handed on) (is ++ js) := by
  have his := ((Machine.along_append ..).1 h).1
  refine Machine.reaches_within
    (fun js => (machine on).log emitted is <+: (machine on).log (handed on) (is ++ js))
    (fun js => ∃ packet, ((machine on).run (is ++ js)).net.queue 1 = [packet] ∧
      (machine on).log emitted is = (machine on).log (handed on) (is ++ js) ++ wordsFor (2 : Fin 8) [packet])
    (fun x => (11 - x.net.slot) % 8) ?_ (fun js i hg => ?_) (fun js i hj hc hw => ?_) h ?_
  · rw [List.append_nil, run_handed h1 his]
    cases hq : ((machine on).run is).net.queue 1 with
    | nil => left; simp [wordsFor]
    | cons packet rest =>
      have hshort := (run_sampling h1 his).2.short
      rw [hq] at hshort
      obtain rfl : rest = [] := by simpa using hshort
      exact .inr ⟨packet, rfl, rfl⟩
  · rw [← List.append_assoc, Machine.log_concat]
    exact hg.trans (List.prefix_append ..)
  · obtain ⟨packet, hq, he⟩ := hw
    obtain ⟨hs, hx⟩ := run_sampling h1 hj
    have hl := hx.ledger (i := i) h1 hs
    rw [hx.emitted_eq] at hl
    rw [← List.append_assoc, Machine.run_concat, Machine.log_concat, he]
    rcases hx.queue_cases (i := i) h1 with ⟨hq', -⟩ | ⟨hnone, packet', hold, hq', h3⟩
    · left
      rw [hq, hq'] at hl
      exact ⟨[], by rw [List.append_nil, List.append_cancel_right hl]⟩
    · right
      rw [hq] at hold
      obtain rfl : packet = packet' := by simpa using hold
      rw [hq, hq', hnone] at hl
      have hnil : handed on ((machine on).run (is ++ js)) i = [] := by
        have := congrArg List.length hl
        rw [List.length_append, List.length_append, show wordsFor (2 : Fin 8) [] = [] from rfl, List.length_nil] at this
        exact List.length_eq_zero_iff.1 (by omega)
      refine ⟨⟨packet, hq', by rw [hnil, List.append_nil]⟩, ?_⟩
      have hslot : ((machine on).step ((machine on).run (is ++ js)) i).net.slot =
        (((machine on).run (is ++ js)).net.slot + 1) % 8 := rfl
      have hslot8 : ((machine on).run (is ++ js)).net.slot < 8 := TdmaMin.slot_lt _
      rw [hslot]
      omega
  · exact Nat.lt_of_lt_of_le (Nat.mod_lt _ (by decide)) hlen

/-- The delays of eight clocks and more are carried: no sample finds the FIFO of port 1 full, which never holds
more than one, and every sample is handed to port 2 within eight clocks. -/
theorem sampling_carried {on : Fin 8 → Bool} (h1 : on 1 = true) {is : List ChipInput}
    (h : (machine on).Along (fun x _ => CarriedDelay x) is) :
    (machine on).Along (fun x _ => SampleTaken x) is ∧ (((machine on).run is).net.queue 1).length ≤ 1 ∧
    ∀ js, (machine on).Along (fun x _ => CarriedDelay x) (is ++ js) → 8 ≤ js.length →
      (machine on).log emitted is <+: (machine on).log (handed on) (is ++ js) := by
  refine ⟨?_, (run_sampling h1 h).2.short, fun js hj hlen => handed_within h1 hj hlen⟩
  have hstrong := Machine.Along.strengthen (I := fun x => x.Sound ∧ x.Sampling 8) ⟨.init, .init (by decide)⟩
    (fun _ i hx hc => ⟨hx.1.clock i, hx.2.clock h1 (Nat.le_refl 8) hc.keepsDelay⟩) h
  exact hstrong.mono fun _ _ hx _ => hx.1.2.not_full

def setDelay (code : BitVec 3) : ChipInput :=
  ⟨0, false, fun p => if p = 5 then ⟨1, (0x90000000#32).setSlice 0 code⟩ else .idle⟩

theorem sampling_carried_eight :
    let is := setDelay 0b011#3 :: List.replicate 30 ChipInput.quiet
    ((machine (onPorts [1])).log emitted is).length = 3 ∧
      (machine (onPorts [1])).log emitted is <+:
        (machine (onPorts [1])).log (handed (onPorts [1])) (is ++ List.replicate 8 .quiet) :=
  ⟨by decide +kernel, (@sampling_carried (onPorts [1]) (by decide)
    (setDelay 0b011#3 :: List.replicate 30 .quiet) (by decide +kernel)).2.2
    (List.replicate 8 .quiet) (by decide +kernel) (by decide)⟩

/-- The ADC alone on the chip, with delay `d` and nothing left to be received. -/
structure Alone (d : Nat) (x : Chip) : Prop where
  adc : ADCAsp.Sent x.adc.sendSignal
  delay : x.adc.adcSampleDelay = d
  counter : x.adc.adcSampleDelayCounter ≤ d
  others : ∀ p, p ≠ 1 → x.net.queue p = []
  samples : ∀ packet ∈ x.net.queue 1, packet.addr = portAddr (2 : Fin 8)
  nothing : (x.net.recvs 1).data = 0

theorem Alone.clock {d : Nat} (hd : 1 ≤ d) (h : x.Alone d) : (x.clock (onPorts [1]) .quiet).Alone d := by
  have hsends : ∀ p, p ≠ 1 → x.sends (onPorts [1]) .quiet p = .idle := fun p hp => by
    simp [sends, onPorts, hp, ChipInput.quiet]
  have hconfig : ADCAsp.isConfig (x.net.recvs 1).data = false := by rw [h.nothing]; decide
  refine ⟨ADCAsp.sent_clock .., ?_, ?_, fun p hp => ?_, fun packet hm => ?_, ?_⟩
  · show (if ADCAsp.isConfig (x.net.recvs 1).data then _ else _) = d
    rw [hconfig]; exact h.delay
  · show (if x.adc.expired then 0 else x.adc.adcSampleDelayCounter) + 1 ≤ d
    have hc := h.counter
    cases he : x.adc.expired
    · have := of_decide_eq_false he
      rw [h.delay] at this
      simp only [Bool.false_eq_true, if_false]; omega
    · exact hd
  · show (x.net.clock _).queue p = []
    rw [queue_clock, Scfifo.clock_items, hsends p hp, show (x.net.interfaces p).fifo.items = [] from h.others p hp]
    split <;> rfl
  · rcases Scfifo.mem_clock _ (show packet ∈ ((x.net.interfaces 1).fifo.clock _ _ _).items from hm) with hm | ⟨hv, hp⟩
    · exact h.samples packet hm
    · rw [sends_adc _ _ (by decide)] at hv hp
      rw [hp]
      exact (h.adc.isSample_of_valid hv).2
  · rcases recvs_clock_cases (by omega) (by omega) (x.sends (onPorts [1]) .quiet) 1 with h0 | ⟨p, a, as, hq, ha, -⟩
    · exact h0
    · -- what port 1 could receive would have to be a sample
      by_cases hp : p = 1
      · subst hp
        have := h.samples a (by rw [hq]; exact List.mem_cons_self ..)
        rw [ha] at this
        exact absurd this (by decide)
      · rw [h.others p hp] at hq; cases hq

/-- Eight times the samples under way and the age of the last one, less the clocks since the last slot 3, all
in units of one sample's period. -/
def backlog (d : Nat) (x : Chip) : Int :=
  8 * d * (x.net.queue 1).length + 8 * d * x.adc.sendSignal.packets.length + 8 * x.adc.adcSampleDelayCounter -
    d * ((x.net.slot + 4) % 8 : Nat)

/-- Every clock that refuses no sample adds to the backlog. -/
theorem Alone.backlog_clock {d : Nat} (h : x.Alone d) (ht : x.SampleTaken) :
    x.backlog d + (8 - d) ≤ (x.clock (onPorts [1]) .quiet).backlog d := by
  have hq : (x.clock (onPorts [1]) .quiet).net.queue 1 = _ :=
    queue_clock_of_lt (x.sends (onPorts [1]) .quiet) fun hv =>
      ht (h.adc.isSample_of_valid (by rwa [sends_adc _ _ (by decide)] at hv)).1
  rw [sends_adc _ _ (by decide)] at hq
  have hslot8 : x.net.slot < 8 := x.net.slot_lt
  -- the queue gets shorter in slot 3 only
  have hlen : (x.net.queue 1).length + x.adc.sendSignal.packets.length ≤
      ((x.clock (onPorts [1]) .quiet).net.queue 1).length + if (x.net.slot + 4) % 8 = 7 then 1 else 0 := by
    rw [hq, List.length_append]
    cases hqueue : x.net.queue 1 with
    | nil => simp
    | cons a as =>
      have hack := TdmaMin.ack_iff (n := x.net) (d := 2) (by decide) hqueue
        (h.samples a (by rw [hqueue]; exact List.mem_cons_self ..))
      cases ha : x.net.ack 1
      · simp
      · have h3 : x.net.slot = 3 := hack.1 ha
        rw [h3]
        simp only [if_true, List.tail_cons, List.length_cons]
        omega
  have hsent : (x.clock (onPorts [1]) .quiet).adc.sendSignal.packets.length = if x.adc.expired then 1 else 0 := by
    show (if x.adc.expired then _ else TdmaMinPort.idle).packets.length = _
    split
    · rw [TdmaMinPort.packets, if_pos (ADCAsp.valid_samplePacket ..)]; rfl
    · rfl
  have hcounter : (x.clock (onPorts [1]) .quiet).adc.adcSampleDelayCounter =
      (if x.adc.expired then 0 else x.adc.adcSampleDelayCounter) + 1 := rfl
  have hslot : (x.clock (onPorts [1]) .quiet).net.slot = (x.net.slot + 1) % 8 := rfl
  have hexp : x.adc.expired = true → x.adc.adcSampleDelayCounter = d := fun he => by
    have := of_decide_eq_true he
    rw [h.delay] at this
    exact Nat.le_antisymm h.counter this
  have hmul := Int.mul_le_mul_of_nonneg_left (Int.ofNat_le.2 hlen) (show (0 : Int) ≤ 8 * d by omega)
  simp only [backlog, hsent, hcounter, hslot]
  generalize (x.net.queue 1).length = q at hmul ⊢
  generalize x.adc.sendSignal.packets.length = s at hmul ⊢
  generalize ((x.clock (onPorts [1]) .quiet).net.queue 1).length = q' at hmul ⊢
  have hphase : (x.net.slot + 1 + 4) % 8 = if (x.net.slot + 4) % 8 = 7 then 0 else (x.net.slot + 4) % 8 + 1 := by
    split <;> omega
  rw [show ((x.net.slot + 1) % 8 + 4) % 8 = (x.net.slot + 1 + 4) % 8 by omega, hphase]
  cases he : x.adc.expired
  · by_cases h7 : (x.net.slot + 4) % 8 = 7
    · simp only [h7, if_true, Bool.false_eq_true, if_false] at hmul ⊢; push_cast at hmul ⊢; linarith
    · simp only [h7, if_false, Bool.false_eq_true] at hmul ⊢; push_cast at hmul ⊢; linarith
  · rw [hexp he]
    by_cases h7 : (x.net.slot + 4) % 8 = 7
    · simp only [h7, if_true] at hmul ⊢; push_cast at hmul ⊢; linarith
    · simp only [h7, if_false, if_true] at hmul ⊢; push_cast at hmul ⊢; linarith

theorem Alone.backlog_bounds {d : Nat} (h : x.Alone d) :
    -(7 * d : Int) ≤ x.backlog d ∧ x.backlog d ≤ 8 * d * 258 := by
  have hq : (x.net.queue 1).length ≤ 256 := (x.net.interfaces 1).fifo.fits
  have hs : x.adc.sendSignal.packets.length ≤ 1 := by
    rcases x.adc.sendSignal.packets_cases with hp | ⟨-, hp⟩ <;> rw [hp] <;> simp
  have hc := h.counter
  have hu : (x.net.slot + 4) % 8 ≤ 7 := by omega
  have hd : (0 : Int) ≤ d := by omega
  have hq' := Int.mul_le_mul_of_nonneg_left (Int.ofNat_le.2 hq) (show (0 : Int) ≤ 8 * d by omega)
  have hs' := Int.mul_le_mul_of_nonneg_left (Int.ofNat_le.2 hs) (show (0 : Int) ≤ 8 * d by omega)
  have hu' := Int.mul_le_mul_of_nonneg_left (Int.ofNat_le.2 hu) hd
  have hq0 : (0 : Int) ≤ 8 * d * (x.net.queue 1).length := by positivity
  have hs0 : (0 : Int) ≤ 8 * d * x.adc.sendSignal.packets.length := by positivity
  have hu0 : (0 : Int) ≤ d * ((x.net.slot + 4) % 8 : Nat) := by positivity
  unfold backlog
  push_cast at hq' hs' hu' hq0 hs0 hu0 ⊢
  constructor <;> linarith [Int.ofNat_le.2 hc]

/-- With a delay below eight clocks a sample is refused sooner or later. -/
theorem Alone.overflows {d k : Nat} (hd : 1 ≤ d) (h8 : d < 8) (h : x.Alone d) (hk : 2071 * d < k) :
    ¬ (machine (onPorts [1])).AlongFrom (fun x _ => SampleTaken x) x (List.replicate k .quiet) := by
  intro ht
  have hrun : ∀ (k : Nat) (x : Chip), x.Alone d →
      (machine (onPorts [1])).AlongFrom (fun x _ => SampleTaken x) x (List.replicate k .quiet) →
      ∃ y : Chip, y.Alone d ∧ x.backlog d + k * (8 - d) ≤ y.backlog d := by
    intro k
    induction k with
    | zero => exact fun x hx _ => ⟨x, hx, by simp⟩
    | succ k ih =>
      intro x hx ht
      rw [List.replicate_succ] at ht
      obtain ⟨y, hy, hle⟩ := ih _ (hx.clock hd) ht.2
      have hstep := hx.backlog_clock ht.1
      exact ⟨y, hy, by push_cast; linarith⟩
  obtain ⟨y, hy, hle⟩ := hrun k x h ht
  have h0 := h.backlog_bounds.1
  have h1 := hy.backlog_bounds.2
  have hmul := Int.mul_le_mul_of_nonneg_left (show (1 : Int) ≤ 8 - d by omega) (show (0 : Int) ≤ k by omega)
  have hk' : (2071 * d : Int) < k := by exact_mod_cast hk
  linarith

/-- The codes 000, 001 and 010 are not carried: after one configuration word and nothing else, a sample finds the
FIFO of port 1 full. -/
theorem sampling_overflows :
    ¬ (machine (onPorts [1])).Along (fun x _ => SampleTaken x) (setDelay 0b000#3 :: List.replicate 8400 .quiet) ∧
    ¬ (machine (onPorts [1])).Along (fun x _ => SampleTaken x) (setDelay 0b001#3 :: List.replicate 8400 .quiet) ∧
    ¬ (machine (onPorts [1])).Along (fun x _ => SampleTaken x) (setDelay 0b010#3 :: List.replicate 8400 .quiet) := by
  -- twelve clocks later the new delay is in force
  have hset : ∀ code : BitVec 3, code.toNat < 3 →
      let x := (machine (onPorts [1])).run (setDelay code :: List.replicate 12 .quiet)
      x.adc.adcSampleDelay = 2 ^ code.toNat ∧ x.adc.adcSampleDelayCounter ≤ 2 ^ code.toNat ∧
      (∀ p, p ≠ 1 → x.net.queue p = []) ∧ (∀ packet ∈ x.net.queue 1, packet.addr = portAddr (2 : Fin 8)) ∧
      (x.net.recvs 1).data = 0 := by
    decide +kernel
  have hno : ∀ code : BitVec 3, code.toNat < 3 →
      ¬ (machine (onPorts [1])).Along (fun x _ => SampleTaken x) (setDelay code :: List.replicate 8400 .quiet) := by
    intro code hc h
    rw [show 8400 = 12 + 8388 from rfl, List.replicate_add, ← List.cons_append, Machine.along_append] at h
    obtain ⟨h1, h2, h3, h4, h5⟩ := hset code hc
    have hsent : ((machine (onPorts [1])).run (setDelay code :: List.replicate 12 .quiet)).Sound :=
      Machine.invariant (P := fun _ _ => True) .init (fun _ i hx _ => hx.clock i)
        (h.1.mono fun _ _ _ => trivial)
    have hd : 2 ^ code.toNat ≤ 2 ^ 2 := Nat.pow_le_pow_right (by omega) (by omega)
    exact Alone.overflows Nat.one_le_two_pow (by omega) ⟨hsent.adc, h1, h2, h3, h4, h5⟩ (by omega) h.2
  exact ⟨hno _ (by decide), hno _ (by decide), hno _ (by decide)⟩

end Chip
end TdmaSoc
