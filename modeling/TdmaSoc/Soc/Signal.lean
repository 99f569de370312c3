import TdmaSoc.Soc.TopLevel

/-!
# The signal arrives in order

When the ADC has sent a word, the generator counts in the next clock, its memory takes the new address in the one
after that, and shows the next word from then on. The ADC takes a word no sooner than sixteen clocks after the one
before, so each sample carries the word that the generator has come to (`Follows`); and what the ADC sends the
averaging component gets.
-/

namespace TdmaSoc

namespace ADCAsp

theorem Sent.getLsbD {packet : TdmaMinPort} (h : Sent packet) : packet.data.getLsbD 10 = isSample packet.data := by
  cases h with
  | idle => rfl
  | sample b adc =>
    have hbit : (samplePacket b adc).data.getLsbD 10 = true := by
      unfold samplePacket
      rw [BitVec.getLsbD_setSlice, BitVec.getLsbD_setSlice, BitVec.getLsbD_setSlice]
      rfl
    rw [hbit, isSample, isData_samplePacket]
    rfl

theorem slice_samplePacket (b : Bool) (adc : BitVec 10) : (samplePacket b adc).data.slice 0 10 = adc :=
  BitVec.slice_setSlice_same _ _ _ (by omega)

end ADCAsp

namespace TopLevel
variable {mem : BitVec 12 → Word} {signal : BitVec 12 → BitVec 10} {rom : ProgMem} {x : TopLevel} {D : Nat}

/-- The samples that the ADC has on its port. -/
def sampled (x : TopLevel) (_ : TopLevelInput) : List TdmaMinData := [(x.sendPort 1).data].filter isSample

/-- The samples that the averaging component is shown. -/
def received (x : TopLevel) (_ : TopLevelInput) : List TdmaMinData := [(x.tdmaMin.recvs 2).data].filter isSample

/-- The first `n` words of the signal, which starts again after 4096. -/
def words (signal : BitVec 12 → BitVec 10) (n : Nat) : List (BitVec 10) :=
  (List.range n).map fun k => signal (BitVec.ofNat 12 k)

/-- The generator has come to the word that the ADC takes next or has on its port. -/
structure Follows (signal : BitVec 12 → BitVec 10) (x : TopLevel) : Prop where
  addr : x.signalGenAddr.val = x.counter % 4096
  address : x.aspAdc.adcSampleDelayCounter ≠ 2 → x.signalGen.address = BitVec.ofNat 12 x.counter
  sample : isSample x.aspAdc.sendSignal.data = true →
    x.aspAdc.sendSignal.data.slice 0 10 = signal (BitVec.ofNat 12 x.counter)

theorem Follows.init (mem : BitVec 12 → Word) : Follows signal (init mem) :=
  ⟨rfl, fun _ => rfl, fun h => absurd (show isSample TdmaMinPort.idle.data = true from h) (by decide)⟩

theorem sent_eq (hs : x.chip.Sampling D) : x.sent = isSample x.aspAdc.sendSignal.data := hs.adc.getLsbD

/-- A sample on the port has just been taken. -/
theorem counter_of_sample (hs : x.chip.Sampling D) (h : isSample x.aspAdc.sendSignal.data = true) :
    x.aspAdc.adcSampleDelayCounter = 1 := by
  refine hs.sending ?_
  show x.aspAdc.sendSignal.packets ≠ []
  rw [TdmaMinPort.packets, if_pos (show x.aspAdc.sendSignal.valid = true from msb_of_isData h)]
  exact List.cons_ne_nil _ _

theorem counter_clock (rom : ProgMem) (signal : BitVec 12 → BitVec 10) (hs : x.chip.Sampling D) (i : TopLevelInput) :
    (x.clock rom signal i).counter = if isSample x.aspAdc.sendSignal.data then x.counter + 1 else x.counter := by
  rw [← sent_eq hs]
  rfl

theorem Follows.clock (hs : x.chip.Sampling D) (hD : 3 ≤ D) (h : Follows signal x) (i : TopLevelInput) :
    Follows signal (x.clock rom signal i) := by
  have hcount := counter_clock rom signal hs i
  have hdelay : D ≤ x.aspAdc.adcSampleDelay := hs.delay
  have hexp : x.aspAdc.expired = true → D ≤ x.aspAdc.adcSampleDelayCounter := fun he =>
    Nat.le_trans hdelay (of_decide_eq_true he)
  have hage : (x.clock rom signal i).aspAdc.adcSampleDelayCounter =
      (if x.aspAdc.expired then 0 else x.aspAdc.adcSampleDelayCounter) + 1 := rfl
  have haddr : (x.clock rom signal i).signalGenAddr.val =
      if isSample x.aspAdc.sendSignal.data then (x.counter + 1) % 4096 else x.signalGenAddr.val := by
    rw [← sent_eq hs]
    show (if x.sent then _ else _ : {a : Nat // a < 4096}).val = _
    split <;> rfl
  refine ⟨?_, fun hne => ?_, fun hsample => ?_⟩
  · rw [haddr, hcount]
    split
    · rfl
    · exact h.addr
  · have hnone : isSample x.aspAdc.sendSignal.data = false := by
      by_contra hsample
      have hone := counter_of_sample hs (by simpa using hsample)
      have hnot : x.aspAdc.expired = false := by
        by_contra he
        have := hexp (by simpa using he)
        omega
      rw [hage, hnot, hone] at hne
      exact hne rfl
    rw [hcount, hnone]
    show BitVec.ofNat 12 x.signalGenAddr = BitVec.ofNat 12 x.counter
    apply BitVec.eq_of_toNat_eq
    rw [BitVec.toNat_ofNat, BitVec.toNat_ofNat, h.addr]
    omega
  · have he : x.aspAdc.expired = true := by
      by_contra he
      have hidle : (x.clock rom signal i).aspAdc.sendSignal = .idle := if_neg he
      rw [hidle] at hsample
      exact absurd hsample (by decide)
    have hnow : (x.clock rom signal i).aspAdc.sendSignal =
        ADCAsp.samplePacket x.aspAdc.bitSize (x.signalGen.data signal) := if_pos he
    have hage := hexp he
    have hnone : isSample x.aspAdc.sendSignal.data = false := by
      by_contra hsample
      have hone := counter_of_sample hs (by simpa using hsample)
      omega
    rw [hnow, ADCAsp.slice_samplePacket, hcount, hnone]
    exact congrArg signal (h.address (by omega))

/-! ### What the averaging component is shown -/

/-- Samples for port 2 come from port 1. -/
theorem sample_of_chain {p : Fin 8} {packet : TdmaMinPort} (h : Chip.ChainPacket p packet)
    (haddr : packet.addr = TdmaMin.portAddr (2 : Fin 8)) (hs : isSample packet.data = true) : p = 1 := by
  by_contra hp1
  by_cases hp2 : p = 2
  · rw [(h.avg hp2).isSample_false] at hs
    cases hs
  by_cases hp3 : p = 3
  · have hcor := h.cor hp3
    cases hcor <;> simp [isSample, TdmaMinPort.idle] at hs
  · have hconfig := (h.config hp1 hp2 hp3 (by rw [haddr]; decide)).2.1
    rw [isSample, Chip.isData_of_isConfig hconfig] at hs
    cases hs

theorem received_eq (h : x.chip.Chain) (i : TopLevelInput) : x.received i = TdmaMin.shown 1 2 x.tdmaMin := by
  unfold received TdmaMin.shown
  cases hs : isSample (x.tdmaMin.recvs 2).data
  · rw [List.filter_singleton, hs, if_neg]
    · rfl
    rintro ⟨hv, haddr⟩
    rcases h.carries.2 2 with h0 | ⟨p, hp, hpacket⟩
    · have hmsb : (x.tdmaMin.recvs 2).data.msb = true := hv
      rw [show (x.tdmaMin.recvs 2).data = 0 from h0] at hmsb
      cases hmsb
    · have hp1 : p = 1 := by
        rw [show (x.tdmaMin.recvs 2).addr = _ from hp, TdmaMin.portAddr_inj (by omega) (by omega)] at haddr
        exact Fin.ext haddr
      have := ((hpacket.adc hp1).isSample_of_valid hv).1
      rw [show isSample (x.tdmaMin.recvs 2).data = true from this] at hs
      cases hs
  · rw [List.filter_singleton, hs, if_pos]
    · rfl
    refine ⟨msb_of_isData hs, ?_⟩
    rcases h.carries.2 2 with h0 | ⟨p, hp, hpacket⟩
    · rw [show (x.tdmaMin.recvs 2).data = 0 from h0] at hs
      simp [isSample] at hs
    · rw [← sample_of_chain hpacket rfl hs]
      exact hp

/-- The samples on their way to the averaging component. -/
def underway (x : TopLevel) : List TdmaMinData :=
  TdmaMin.shown 1 2 x.tdmaMin ++ TdmaMin.wordsFor (2 : Fin 8) (x.tdmaMin.queue 1)

theorem underway_init (mem : BitVec 12 → Word) : (init mem).underway = [] := by
  have hnet : (init mem).tdmaMin = TdmaMin.init := rfl
  rw [underway, hnet]
  decide

theorem length_underway_le (h : x.chip.Sampling D) : x.underway.length ≤ 2 := by
  have hshown : (TdmaMin.shown 1 2 x.tdmaMin).length ≤ 1 := by
    unfold TdmaMin.shown
    split <;> simp
  have hqueue : (TdmaMin.wordsFor (2 : Fin 8) (x.tdmaMin.queue 1)).length ≤ (x.tdmaMin.queue 1).length := by
    rw [TdmaMin.wordsFor, List.length_map]
    exact List.length_filter_le ..
  have hshort : (x.tdmaMin.queue 1).length ≤ 1 := h.short
  rw [underway, List.length_append]
  omega

section Run
variable {is : List TopLevelInput} (h : (machine firmware mem signal).Along (fun _ i => CarriedDelay i) is)
include h

theorem run_follows : Follows signal ((machine firmware mem signal).run is) := by
  induction is using List.reverseRecOn with
  | nil => exact .init mem
  | append_singleton is i ih =>
    rw [Machine.along_concat] at h
    rw [Machine.run_concat]
    exact (ih h.1).clock (run_chain h.1).sampling (by decide) i

theorem log_sampled : ((machine firmware mem signal).log sampled is).map (·.slice 0 10) =
    words signal ((machine firmware mem signal).run is).counter := by
  induction is using List.reverseRecOn with
  | nil => rfl
  | append_singleton is i ih =>
    rw [Machine.along_concat] at h
    have hcount : ((machine firmware mem signal).step ((machine firmware mem signal).run is) i).counter = _ :=
      counter_clock firmware signal (run_chain h.1).sampling i
    rw [Machine.log_concat, Machine.run_concat, hcount, List.map_append, ih h.1]
    show _ ++ ([_].filter isSample).map _ = _
    cases hs : isSample ((machine firmware mem signal).run is).aspAdc.sendSignal.data
    · rw [List.filter_singleton, show isSample (((machine firmware mem signal).run is).sendPort 1).data = false from hs]
      exact List.append_nil _
    · rw [List.filter_singleton, show isSample (((machine firmware mem signal).run is).sendPort 1).data = true from hs]
      unfold words
      rw [if_pos rfl, List.range_succ, List.map_append]
      exact congrArg (_ ++ [·]) ((run_follows h.1).sample hs)

/-- What has been sent and not been taken yet is on show or in the queue. -/
theorem log_received : (machine firmware mem signal).log sampled is =
    (machine firmware mem signal).log received is ++ ((machine firmware mem signal).run is).underway := by
  have h0 : (machine firmware mem signal).init.underway = [] := underway_init mem
  refine Machine.ledger underway h0 (fun is i his hi => ?_) h
  have hc := run_chain his
  generalize (machine firmware mem signal).run is = x at hc
  have hledger : x.chip.handed asps (x.chipInput signal i) ++ _ = _ :=
    hc.sampling.ledger (by decide) hc.loop.sound
  have hnet : (x.chip.clock asps (x.chipInput signal i)).net = (x.clock firmware signal i).tdmaMin :=
    congrArg Chip.net (chip_clock (fun _ hp => hp) firmware signal x i).symm
  rw [Chip.handed, hnet] at hledger
  rw [received_eq hc]
  unfold underway
  rw [List.append_assoc]
  exact congrArg (_ ++ ·) hledger

end Run

/-- The chip with the program of its memory. Whatever is done to the keys and the switches, as long as KEY1 is only
pressed while they select a delay of sixteen clocks or more, and at whatever pace the Nios works: the FIFOs of the
sampling chain never hold more than one, two and three packets, the samples of the ADC carry the words of the signal
in order, each once, and the averaging component is shown all of them but for the last two. -/
theorem signal_in_order (mem : BitVec 12 → Word) (signal : BitVec 12 → BitVec 10) (is : List TopLevelInput)
    (h : ∀ i ∈ is, CarriedDelay i) :
    let M := machine firmware mem signal
    let x := M.run is
    (x.tdmaMin.queue 1).length ≤ 1 ∧ (x.tdmaMin.queue 2).length ≤ 2 ∧ (x.tdmaMin.queue 3).length ≤ 3 ∧
      (M.log sampled is).map (·.slice 0 10) = words signal (M.log sampled is).length ∧
      ∃ rest, rest.length ≤ 2 ∧ M.log sampled is = M.log received is ++ rest := by
  intro M x
  have halong : M.Along (fun _ i => CarriedDelay i) is := Machine.along_of_forall h
  have hc := run_chain halong
  refine ⟨hc.sampling.short, hc.queue2_le, hc.queue3, ?_, _, length_underway_le hc.sampling, log_received halong⟩
  have hlog := log_sampled halong
  have hlen := congrArg List.length hlog
  rw [List.length_map, words, List.length_map, List.length_range] at hlen
  rw [hlen]
  exact hlog

/-- Nothing is pressed; the signal is a ramp. -/
theorem signal_in_order_ramp :
    let M := machine firmware (fun _ => 0) (BitVec.setWidth 10)
    let is := List.replicate 60 ⟨0b1111, 0, false⟩
    (M.log sampled is).map (·.slice 0 10) = [0, 1, 2] ∧
      ∃ rest, rest.length ≤ 2 ∧ M.log sampled is = M.log received is ++ rest := by
  have h := signal_in_order (fun _ => 0) (BitVec.setWidth 10) (List.replicate 60 ⟨0b1111, 0, false⟩) (by decide)
  refine ⟨h.2.2.2.1.trans ?_, h.2.2.2.2⟩
  decide +kernel

end TopLevel
end TdmaSoc
