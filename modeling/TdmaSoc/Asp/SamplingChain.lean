import TdmaSoc.Asp.Sampling
import TdmaSoc.Asp.Values

/-!
# The sampling chain loses nothing

ADC, averaging and correlation on ports 1, 2 and 3, at delays of sixteen clocks or more. Averages are
announced and requests answered through one slot in eight, from port 2 to port 3. The slots fix the
phase at which a sample is where (`Chain.received`, `ready`, `announcing`), with the ADC's counter as
its age; from the two follows the age at which an announcement leaves the queue (`OnTime`), which is
before the next one comes. With one answer at a time (`Loop`) the queue holds two packets at most.
-/

namespace TdmaSoc
open TdmaMin

namespace AvgAspRAM

theorem Sent.isSample_false {packet : TdmaMinPort} (h : Sent packet) : isSample packet.data = false := by
  cases h <;> simp [isSample, TdmaMinPort.idle]

/-- The component sends to port 3, announcements or answers. -/
theorem Sent.kind_of_valid {packet : TdmaMinPort} (h : Sent packet) (hv : packet.valid = true) :
    packet.addr = portAddr (3 : Fin 8) ∧
    (isAvgAddr packet.data = true ∧ isAvgData packet.data = false ∨
      isAvgData packet.data = true ∧ isAvgAddr packet.data = false) := by
  cases h with
  | idle => cases hv
  | addr a => exact ⟨rfl, .inl ⟨by simp [isAvgAddr], by simp [isAvgData]⟩⟩
  | data b q => exact ⟨rfl, .inr ⟨by simp [isAvgData], by simp [isAvgAddr]⟩⟩

end AvgAspRAM

/-- A configuration packet of the chain: of type 1001 or 1010. -/
def isConfig (d : TdmaMinData) : Bool := packetType d == 0b1001#4 || packetType d == 0b1010#4

namespace Chip
variable {on : Fin 8 → Bool} {x : Chip} {i : ChipInput}

/-- Apart from their own, ports 1 to 3 are sent configuration packets from port 5 only, and those for the ADC
select the codes 100 to 111. -/
def ConfigOnly (on : Fin 8 → Bool) (x : Chip) (i : ChipInput) : Prop :=
  ∀ p, p ≠ 1 → p ≠ 2 → p ≠ 3 → (x.sends on i p).valid = true →
    (x.sends on i p).addr ∈ [portAddr (1 : Fin 8), portAddr (2 : Fin 8), portAddr (3 : Fin 8)] →
    p = 5 ∧ isConfig (x.sends on i p).data = true ∧
      ((x.sends on i p).addr = portAddr (1 : Fin 8) → ADCAsp.isConfig (x.sends on i p).data = true →
        4 ≤ ((x.sends on i p).data.slice 0 3).toNat)

instance (on : Fin 8 → Bool) (x : Chip) (i : ChipInput) : Decidable (ConfigOnly on x i) :=
  inferInstanceAs (Decidable (∀ _, _ → _ → _ → _ → _ → _))

structure ChainPacket (p : Fin 8) (packet : TdmaMinPort) : Prop where
  adc : p = 1 → ADCAsp.Sent packet
  avg : p = 2 → AvgAspRAM.Sent packet
  cor : p = 3 → CorAsp.Sent packet
  valid : packet.valid = true
  config : p ≠ 1 → p ≠ 2 → p ≠ 3 →
    packet.addr ∈ [portAddr (1 : Fin 8), portAddr (2 : Fin 8), portAddr (3 : Fin 8)] →
    p = 5 ∧ isConfig packet.data = true ∧ (packet.addr = portAddr (1 : Fin 8) →
      ADCAsp.isConfig packet.data = true → 4 ≤ (packet.data.slice 0 3).toNat)

theorem ChainPacket.other {p : Fin 8} {packet : TdmaMinPort} (h : ChainPacket p packet)
    (hd : ∀ mode, isData mode packet.data = false) : p ≠ 1 ∧ p ≠ 2 ∧ p ≠ 3 := by
  refine ⟨fun hp => ?_, fun hp => ?_, fun hp => ?_⟩
  · have := ((h.adc hp).isSample_of_valid h.valid).1
    rw [isSample, hd] at this; cases this
  · rcases ((h.avg hp).kind_of_valid h.valid).2 with ⟨this, -⟩ | ⟨this, -⟩
    · rw [isAvgAddr, hd] at this; cases this
    · rw [isAvgData, hd] at this; cases this
  · rcases CorLink.sent_addr (h.cor hp) h.valid with ⟨-, this, -⟩ | ⟨-, this, -⟩
    · rw [isAvgRequest, hd] at this; cases this
    · rw [isCorrelation, hd] at this; cases this

theorem isData_of_isConfig {mode : BitVec 4} {d : TdmaMinData} (h : isConfig d = true) : isData mode d = false := by
  simp only [isConfig, Bool.or_eq_true, beq_iff_eq] at h
  rcases h with h | h <;> simp [isData, h]

theorem packetType_of_isData {mode : BitVec 4} {d : TdmaMinData} (h : isData mode d = true) :
    ADCAsp.isConfig d = false ∧ AvgAsp.isConfig d = false := by
  rw [isData_iff] at h
  simp [ADCAsp.isConfig, AvgAsp.isConfig, h.1]

/-- A packet at position `pos` of port 2's queue, at age `n` in slot `s`, leaves before the next one of its
kind comes: either it is young, or the next sample has been emitted only after it was ready. -/
def OnTime (n s pos : Nat) : Prop :=
  6 + (s + 1) % 8 ≤ n ∧ n + ((9 - s) % 8 + 1 + 8 * pos) ≤ 24 ∨ n + ((9 - s) % 8 + 1 + 8 * pos) ≤ 8

structure Chain (x : Chip) : Prop where
  loop : x.Loop
  sampling : x.Sampling 16
  carries : x.net.Carries ChainPacket
  queue3 : (x.net.queue 3).length ≤ 3
  /-- Samples are on show at port 2 in slot 4 only. -/
  received : isSample (x.net.recvs 2).data = true →
    x.net.slot = 4 ∧ 3 ≤ x.adc.adcSampleDelayCounter ∧ x.adc.adcSampleDelayCounter ≤ 10
  configured : AvgAsp.isConfig (x.net.recvs 2).data = true → x.net.slot = 0
  ready : x.avg.ldr.avgReady = true →
    x.net.slot = 5 ∧ 4 ≤ x.adc.adcSampleDelayCounter ∧ x.adc.adcSampleDelayCounter ≤ 11
  announcing : isAvgAddr x.avg.sendSignal.data = true →
    x.net.slot = 6 ∧ 5 ≤ x.adc.adcSampleDelayCounter ∧ x.adc.adcSampleDelayCounter ≤ 12
  announced : ∀ (pos : Nat) (packet : TdmaMinPort), (x.net.queue 2)[pos]? = some packet →
    isAvgAddr packet.data = true → OnTime x.adc.adcSampleDelayCounter x.net.slot pos
  one : (x.net.queue 2).countP (isAvgAddr ·.data) ≤ 1

theorem Chain.init : Chip.init.Chain where
  loop := .init
  sampling := .init (Nat.le_refl 16)
  carries := .init
  queue3 := Nat.zero_le _
  received h := absurd h (by decide)
  configured h := absurd h (by decide)
  ready h := absurd h (by decide)
  announcing h := absurd h (by decide)
  announced pos packet h := by
    have : Chip.init.net.queue 2 = [] := rfl
    rw [this] at h; simp at h
  one := Nat.zero_le _

theorem OnTime.wait {n n' s pos : Nat} (h : OnTime n s pos) (hs : s < 8) (h1 : s ≠ 1)
    (hn : n' = n + 1 ∨ 16 ≤ n ∧ n' = 1) : OnTime n' ((s + 1) % 8) pos := by
  unfold OnTime at *
  omega

theorem OnTime.move {n n' pos : Nat} (h : OnTime n 1 (pos + 1)) (hn : n' = n + 1 ∨ 16 ≤ n ∧ n' = 1) :
    OnTime n' 2 pos := by
  unfold OnTime at *
  omega

theorem Sampling.counter_clock {D : Nat} (h : x.Sampling D) (on : Fin 8 → Bool) (i : ChipInput) :
    (x.clock on i).adc.adcSampleDelayCounter = x.adc.adcSampleDelayCounter + 1 ∨
      D ≤ x.adc.adcSampleDelayCounter ∧ (x.clock on i).adc.adcSampleDelayCounter = 1 := by
  show (if x.adc.expired then 0 else x.adc.adcSampleDelayCounter) + 1 = _ ∨
    _ ∧ (if x.adc.expired then 0 else x.adc.adcSampleDelayCounter) + 1 = 1
  cases he : x.adc.expired
  · exact .inl rfl
  · exact .inr ⟨Nat.le_trans h.delay (of_decide_eq_true he), rfl⟩

namespace Chain

theorem answers_le (h : x.Chain) : (x.net.queue 2).countP (isAvgData ·.data) ≤ 1 := by
  have ht := h.loop.tokens
  have := Bool.toNat_le x.cor.hasSendAvgDataRq
  unfold tokens at ht
  omega

theorem queue2_length (h : x.Chain) : (x.net.queue 2).length =
    (x.net.queue 2).countP (isAvgAddr ·.data) + (x.net.queue 2).countP (isAvgData ·.data) := by
  have hall : ∀ packet ∈ x.net.queue 2, AvgAspRAM.Sent packet ∧ packet.valid = true := fun packet hm =>
    ⟨(h.carries.1 2 packet hm).avg rfl, (h.carries.1 2 packet hm).valid⟩
  generalize x.net.queue 2 = l at hall
  induction l with
  | nil => rfl
  | cons a l ih =>
    have ih := ih fun packet hm => hall packet (List.mem_cons_of_mem _ hm)
    obtain ⟨hs, hv⟩ := hall a (List.mem_cons_self ..)
    rw [List.length_cons, List.countP_cons, List.countP_cons, ih]
    rcases (hs.kind_of_valid hv).2 with ⟨h1, h2⟩ | ⟨h1, h2⟩
    · simp only [h1, h2, if_true, Bool.false_eq_true, if_false]; omega
    · simp only [h1, h2, if_true, Bool.false_eq_true, if_false]; omega

theorem queue2_le (h : x.Chain) : (x.net.queue 2).length ≤ 2 := by
  have := h.queue2_length
  have := h.answers_le
  have := h.one
  omega

theorem loopClosed (h1 : on 1 = true) (h : x.Chain) (hc : ConfigOnly on x i) : LoopClosed on x i := by
  constructor
  · intro p hp2 hp3
    by_cases hp1 : p = 1
    · subst hp1
      rw [sends_adc x i h1]
      exact ⟨fun _ => h.sampling.adc.isData_false (by decide), fun _ => h.sampling.adc.isData_false (by decide)⟩
    · have hmode : ∀ mode, (x.sends on i p).addr ∈
          [portAddr (1 : Fin 8), portAddr (2 : Fin 8), portAddr (3 : Fin 8)] →
          isData mode (x.sends on i p).data = false := by
        intro mode ha
        by_contra hd
        have hv := msb_of_isData (show isData mode (x.sends on i p).data = true by simpa using hd)
        rw [isData_of_isConfig (hc p hp1 hp2 hp3 hv ha).2.1] at hd
        exact hd rfl
      exact ⟨fun ha => hmode _ (by rw [ha]; decide), fun ha => hmode _ (by rw [ha]; decide)⟩
  · rintro p (rfl | rfl) -
    · exact Nat.lt_of_le_of_lt h.queue2_le (by omega)
    · exact Nat.lt_of_le_of_lt h.queue3 (by omega)

/-- Port 2 queues everything, and its queue moves up in slot 1. -/
theorem queue2_clock (h2 : on 2 = true) (h : x.Chain) : (x.clock on i).net.queue 2 =
    (if x.net.slot = 1 then (x.net.queue 2).tail else x.net.queue 2) ++ x.avg.sendSignal.packets := by
  have hq := queue_clock_of_lt (x.sends on i) (p := 2) fun _ =>
    Nat.lt_of_le_of_lt h.queue2_le (by omega)
  rw [sends_avg x i h2] at hq
  refine hq.trans (congrArg (· ++ _) ?_)
  cases hqueue : x.net.queue 2 with
  | nil => simp
  | cons a as =>
    have hm : a ∈ x.net.queue 2 := by rw [hqueue]; exact List.mem_cons_self ..
    have ha := ((h.carries.1 2 a hm).avg rfl).kind_of_valid (h.carries.1 2 a hm).valid
    have hack := TdmaMin.ack_iff (d := 3) (by omega) hqueue ha.1
    by_cases hs : x.net.slot = 1
    · rw [if_pos (hack.2 hs), if_pos hs]
    · rw [if_neg fun h => hs (hack.1 h), if_neg hs]

/-- When an announcement is sent the one before has left. -/
theorem none_when_announcing (h : x.Chain) (ha : isAvgAddr x.avg.sendSignal.data = true) :
    (x.net.queue 2).countP (isAvgAddr ·.data) = 0 := by
  rw [List.countP_eq_zero]
  intro packet hm hp
  obtain ⟨pos, hpos⟩ := List.mem_iff_getElem?.1 hm
  have hot := h.announced pos packet hpos hp
  obtain ⟨hs, h5, h12⟩ := h.announcing ha
  unfold OnTime at hot
  omega

/-- What port 2 receives from port 1, and when. -/
theorem received_clock (h : x.Chain) (hr : isSample ((x.clock on i).net.recvs 2).data = true) :
    (x.clock on i).net.slot = 4 ∧ 3 ≤ (x.clock on i).adc.adcSampleDelayCounter ∧
      (x.clock on i).adc.adcSampleDelayCounter ≤ 10 := by
  rcases recvs_clock_cases (by omega) (by omega) (x.sends on i) 2 with h0 | ⟨p, a, as, hq, ha, hack, hrecv⟩
  · rw [show ((x.clock on i).net.recvs 2).data = 0 from h0] at hr
    simp [isSample] at hr
  rw [show (x.clock on i).net.recvs 2 = _ from hrecv] at hr
  have hp := h.carries.1 p a (by rw [hq]; exact List.mem_cons_self ..)
  have hp1 : p = 1 := by
    by_contra hp1
    by_cases hp2 : p = 2
    · rw [(hp.avg hp2).isSample_false] at hr; cases hr
    by_cases hp3 : p = 3
    · have hs := hp.cor hp3
      cases hs <;> simp [isSample, TdmaMinPort.idle] at hr
    · have hcfg := (hp.config hp1 hp2 hp3 (by rw [ha]; decide)).2.1
      rw [isSample, isData_of_isConfig hcfg] at hr; cases hr
  subst hp1
  have hslot : x.net.slot = 3 := (TdmaMin.ack_iff (by omega) hq ha).1 hack
  have hslot' : (x.clock on i).net.slot = (x.net.slot + 1) % 8 := rfl
  have hage := h.sampling.age (by rw [hq]; exact List.cons_ne_nil _ _)
  have hn := h.sampling.counter_clock on i
  omega

/-- Configuration words come from port 5, in slot 7. -/
theorem configured_clock (h : x.Chain) (hr : AvgAsp.isConfig ((x.clock on i).net.recvs 2).data = true) :
    (x.clock on i).net.slot = 0 := by
  rcases recvs_clock_cases (by omega) (by omega) (x.sends on i) 2 with h0 | ⟨p, a, as, hq, ha, hack, hrecv⟩
  · rw [show ((x.clock on i).net.recvs 2).data = 0 from h0] at hr
    exact absurd hr (by decide)
  rw [show (x.clock on i).net.recvs 2 = _ from hrecv] at hr
  have hp := h.carries.1 p a (by rw [hq]; exact List.mem_cons_self ..)
  obtain ⟨hp1, hp2, hp3⟩ := hp.other fun mode => by
    by_contra hd
    rw [(packetType_of_isData (by simpa using hd)).2] at hr; cases hr
  have hp5 := (hp.config hp1 hp2 hp3 (by rw [ha]; decide)).1
  subst hp5
  have hslot : x.net.slot = 7 := (TdmaMin.ack_iff (by omega) hq ha).1 hack
  have hslot' : (x.clock on i).net.slot = (x.net.slot + 1) % 8 := rfl
  omega

/-- The announcements in the queue stay on time, and a new one is. -/
theorem announced_clock (h2 : on 2 = true) (h : x.Chain) (pos : Nat) (packet : TdmaMinPort)
    (hpos : ((x.clock on i).net.queue 2)[pos]? = some packet) (ha : isAvgAddr packet.data = true) :
    OnTime (x.clock on i).adc.adcSampleDelayCounter (x.clock on i).net.slot pos := by
  have hn := h.sampling.counter_clock on i
  have hslot8 : x.net.slot < 8 := x.net.slot_lt
  have hslot : (x.clock on i).net.slot = (x.net.slot + 1) % 8 := rfl
  rw [h.queue2_clock h2] at hpos
  rw [hslot]
  rcases Nat.lt_or_ge pos (if x.net.slot = 1 then (x.net.queue 2).tail else x.net.queue 2).length with hlt | hle
  · -- one that was there before
    rw [List.getElem?_append_left hlt] at hpos
    by_cases hs : x.net.slot = 1
    · rw [if_pos hs, List.getElem?_tail] at hpos
      rw [hs]
      exact (hs ▸ h.announced (pos + 1) packet hpos ha).move hn
    · rw [if_neg hs] at hpos
      exact (h.announced pos packet hpos ha).wait hslot8 hs hn
  · -- the one that is sent finds at most an answer in the queue
    rw [List.getElem?_append_right hle] at hpos
    rcases x.avg.sendSignal.packets_cases with hp | ⟨-, hp⟩
    · rw [hp] at hpos; simp at hpos
    · rw [hp] at hpos
      have hmem := List.mem_of_getElem? hpos
      rw [List.mem_singleton] at hmem
      subst hmem
      obtain ⟨hs, h5, h12⟩ := h.announcing ha
      have hlen := h.queue2_length
      rw [h.none_when_announcing ha] at hlen
      have hans := h.answers_le
      have hlt := (List.getElem?_eq_some_iff.1 hpos).1
      simp only [hs, Nat.reduceEqDiff, if_false, List.length_singleton] at hle hlt ⊢
      unfold OnTime
      omega

theorem one_clock (h2 : on 2 = true) (h : x.Chain) :
    ((x.clock on i).net.queue 2).countP (isAvgAddr ·.data) ≤ 1 := by
  have hold : (if x.net.slot = 1 then (x.net.queue 2).tail else x.net.queue 2).countP (isAvgAddr ·.data) ≤
      (x.net.queue 2).countP (isAvgAddr ·.data) := by
    split
    · exact (List.tail_sublist _).countP_le
    · exact Nat.le_refl _
  have h1 := h.one
  rw [h.queue2_clock h2, List.countP_append]
  rcases x.avg.sendSignal.packets_cases with hp | ⟨-, hp⟩
  · rw [hp, List.countP_nil]; omega
  · rw [hp, List.countP_singleton]
    by_cases ha : isAvgAddr x.avg.sendSignal.data = true
    · rw [if_pos ha]; have := h.none_when_announcing ha; omega
    · rw [if_neg ha]; omega

theorem keepsDelay (h : x.Chain) : ADCAsp.KeepsDelay 16 (x.net.recvs 1).data := by
  intro hr
  rcases h.carries.2 1 with h0 | ⟨p, -, hp⟩
  · rw [h0] at hr; exact absurd hr (by decide)
  · obtain ⟨hp1, hp2, hp3⟩ := hp.other fun mode => by
      by_contra hd
      rw [(packetType_of_isData (by simpa using hd)).1] at hr; cases hr
    exact (ADCAsp.le_sampleDelay _).2 ((hp.config hp1 hp2 hp3 (List.mem_cons_self ..)).2.2 rfl hr)

theorem clock (h1 : on 1 = true) (h2 : on 2 = true) (h3 : on 3 = true) (h : x.Chain) (hc : ConfigOnly on x i)
    (hq : ((x.clock on i).net.queue 3).length ≤ 3) : (x.clock on i).Chain where
  loop := h.loop.clock h2 h3 (h.loopClosed h1 hc)
  sampling := h.sampling.clock h1 (by decide) h.keepsDelay
  carries := by
    refine h.carries.clock (by omega) (by omega) fun p hv => ⟨?_, ?_, ?_, hv, fun hp1 hp2 hp3 => hc p hp1 hp2 hp3 hv⟩
    · rintro rfl; rw [sends_adc x i h1]; exact h.sampling.adc
    · rintro rfl; rw [sends_avg x i h2]; exact h.loop.sound.avg
    · rintro rfl; rw [sends_cor x i h3]; exact h.loop.sound.cor
  queue3 := hq
  received := h.received_clock
  configured := h.configured_clock
  ready := by
    intro hr
    have hn := h.sampling.counter_clock on i
    have hslot : (x.clock on i).net.slot = (x.net.slot + 1) % 8 := rfl
    have hr : (if AvgAsp.isConfig (x.net.recvs 2).data then x.avg.ldr.avgReady
      else AvgAsp.accepts (x.net.recvs 2).data) = true := (AvgAsp.avgReady_clock ..) ▸ hr
    split at hr
    case isTrue hcfg =>
      -- no configuration word comes right after a sample
      have := h.configured hcfg
      have := h.ready hr
      omega
    case isFalse =>
      have := h.received (Bool.and_eq_true_iff.1 hr).1
      omega
  announcing := by
    intro ha
    have hn := h.sampling.counter_clock on i
    have hslot : (x.clock on i).net.slot = (x.net.slot + 1) % 8 := rfl
    have hr : x.avg.ldr.avgReady = true := by
      by_contra hr
      have ha : isAvgAddr (if x.avg.ldr.avgReady then AvgAspRAM.addrPacket x.avg.ramWaddr
        else if x.avg.readRequest then AvgAspRAM.dataPacket x.avg.prevCorrCalculate x.avg.ram.qReg
        else .idle).data = true := ha
      rw [if_neg hr] at ha
      split at ha
      · simp [isAvgAddr] at ha
      · simp [isAvgAddr, TdmaMinPort.idle] at ha
    have := h.ready hr
    omega
  announced := h.announced_clock h2
  one := h.one_clock h2

end Chain

end Chip

namespace CorLink
variable {on : Fin 8 → Bool} {x : CorLink} {i : ChipInput}

/-- In the read loop answers come to delivered requests only. -/
theorem Link.answersDue (h : x.Link) (hl : x.chip.Loop) : x.AnswersDue := by
  intro ha
  have ht := hl.tokens
  have hp := h.pending
  rw [line, wordsFor_append, List.length_append, words_of_sent h.sound.cor] at hp
  simp only [Chip.tokens, ha, Bool.toNat_true] at ht
  have hs := Bool.toNat_le x.chip.cor.hasSendAvgDataRq
  have hqueue : (wordsFor (2 : Fin 8) (x.chip.net.queue 3)).length ≤
      (x.chip.net.queue 3).countP (isAvgRequest ·.data) := by
    rw [wordsFor, List.length_map, ← List.countP_eq_length_filter]
    refine List.countP_mono_left fun packet hm hp => ?_
    obtain ⟨hsent, hv⟩ := h.sent.1 3 packet hm rfl
    rcases sent_addr hsent hv with ⟨-, hr, -⟩ | ⟨h4, -⟩
    · exact hr
    · rw [h4] at hp; exact absurd hp (by decide)
  have hshown : (shown 3 2 x.chip.net).length ≤ (isAvgRequest (x.chip.net.recvs 2).data).toNat := by
    rw [← h.shown_requests]
    unfold shown
    split
    · rw [List.countP_singleton]
      cases isAvgRequest (x.chip.net.recvs 2).data <;> simp
    · exact Nat.zero_le _
  omega

theorem run_chip (is : List ChipInput) : ((machine on).run is).chip = (Chip.machine on).run is := by
  induction is using List.reverseRecOn with
  | nil => rfl
  | append_singleton is i ih =>
    rw [Machine.run_concat, Machine.run_concat, ← ih]; rfl

end CorLink

namespace Chip
variable {on : Fin 8 → Bool}

theorem run_chain (h1 : on 1 = true) (h2 : on 2 = true) (h3 : on 3 = true) {is : List ChipInput}
    (h : (machine on).Along (ConfigOnly on) is) : ((machine on).run is).Chain := by
  have hall : ((CorLink.machine on).run is).Link ∧ ((CorLink.machine on).run is).chip.Chain := by
    induction is using List.reverseRecOn with
    | nil => exact ⟨.init, .init⟩
    | append_singleton is i ih =>
      rw [Machine.along_concat] at h
      obtain ⟨hl, hc⟩ := ih h.1
      have hl' := hl.clock (i := i) h3 (hl.answersDue hc.loop)
      rw [Machine.run_concat]
      refine ⟨hl', hc.clock h1 h2 h3 ?_ hl'.queue_le⟩
      rw [CorLink.run_chip]; exact h.2
  rw [← CorLink.run_chip]; exact hall.2

def offered (on : Fin 8 → Bool) (p d : Fin 8) (x : Chip) (i : ChipInput) : List TdmaMinData :=
  wordsFor d (x.sends on i p).packets

def got (on : Fin 8 → Bool) (p d : Fin 8) (x : Chip) (i : ChipInput) : List TdmaMinData :=
  shown p d (x.clock on i).net

/-- The sampling chain is lossless at delays of sixteen clocks and more: the FIFOs of the ADC, averaging and
correlation ports never hold more than one, two and three packets, and whatever the three ports offer to a
port that port has got or it waits in the queue. -/
theorem chain_lossless {on : Fin 8 → Bool} (h1 : on 1 = true) (h2 : on 2 = true) (h3 : on 3 = true)
    {is : List ChipInput} (h : (machine on).Along (ConfigOnly on) is) :
    let x := (machine on).run is
    (x.net.queue 1).length ≤ 1 ∧ (x.net.queue 2).length ≤ 2 ∧ (x.net.queue 3).length ≤ 3 ∧
    ∀ p ∈ [(1 : Fin 8), 2, 3], ∀ d, (machine on).log (offered on p d) is =
      (machine on).log (got on p d) is ++ wordsFor d (x.net.queue p) := by
  have hbound : ∀ is, (machine on).Along (ConfigOnly on) is → ∀ p ∈ [(1 : Fin 8), 2, 3],
      (((machine on).run is).net.queue p).length ≤ 3 := fun is h p hp => by
    have hc := run_chain h1 h2 h3 h
    simp only [List.mem_cons, List.not_mem_nil, or_false] at hp
    rcases hp with rfl | rfl | rfl
    · exact Nat.le_trans hc.sampling.short (by omega)
    · exact Nat.le_trans hc.queue2_le (by omega)
    · exact hc.queue3
  have hc := run_chain h1 h2 h3 h
  refine ⟨hc.sampling.short, hc.queue2_le, hc.queue3, fun p hp d => ?_⟩
  refine Machine.ledger (fun x => wordsFor d (x.net.queue p)) rfl (fun is i his _ => ?_) h
  have hl := shown_ledger (((machine on).run is).sends on i) (by omega) (by omega)
    (run_chain h1 h2 h3 his).loop.sound.queues (fun _ => Nat.lt_of_le_of_lt (hbound is his p hp) (by omega)) d
  rw [wordsFor_append] at hl
  exact hl

/-- The ADC reads 5, and port 5 configures ADC, averaging and correlation. -/
def chainInput (t : Nat) : ChipInput :=
  let config : TdmaMinPort :=
    if t = 3 then ⟨1, 0x90000004⟩ else if t = 4 then ⟨2, 0x90800009⟩ else if t = 5 then ⟨3, 0xA0000001⟩ else .idle
  ⟨5, false, fun p => if p = 5 then config else .idle⟩

theorem chain_lossless_eighty :
    let M := machine (onPorts [1, 2, 3])
    let is := (List.range 80).map chainInput
    ((M.run is).net.queue 2).length ≤ 2 ∧
      M.log (offered (onPorts [1, 2, 3]) 2 3) is =
        M.log (got (onPorts [1, 2, 3]) 2 3) is ++ wordsFor (3 : Fin 8) ((M.run is).net.queue 2) := by
  have h := @chain_lossless (onPorts [1, 2, 3]) (by decide) (by decide) (by decide) ((List.range 80).map chainInput)
    (by decide +kernel)
  exact ⟨h.2.1, h.2.2.2 2 (by decide) 3⟩

end Chip
end TdmaSoc
