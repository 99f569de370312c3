import TdmaSoc.Asp.LateCorrelation
import TdmaSoc.Asp.Progress
import TdmaSoc.Soc.Averages

/-!
# The correlations of the signal

`record` is the read loop of the chip with its record, `CorLink` its link to the peak detection component: both run
as they do on the sampling chain alone. Nobody else sends correlation values (`Inv.not_correlation`): the ReCOP sends
configurations, the Nios its acknowledgement. So the values that PdAsp takes are those that CorAsp completes, and
these are correlations of the moving sums.
-/

namespace TdmaSoc
open TdmaMin (portAddr)

/-- What the words behind the newest are does not matter. -/
theorem Window.lateCorrelation_congr {w w' : Nat → Nat} {newest n p : Nat} (hn : 1 ≤ n) (h : ∀ m ≤ newest, w m = w' m) :
    lateCorrelation w newest n p = lateCorrelation w' newest n p := by
  unfold lateCorrelation
  rw [h _ (by omega)]
  congr 1
  refine Finset.sum_congr rfl fun i _ => ?_
  rw [h _ (Nat.sub_le ..), h _ (Nat.sub_le ..)]

theorem CorLink.hosts_chip {on : Fin 8 → Bool} :
    (CorLink.machine on).Hosts (Chip.machine on) CorLink.chip fun _ i => i := ⟨rfl, fun _ _ => rfl⟩

namespace Nios
variable {s : Nios} {recvData : BitVec 32}

/-- The send data register is clear or has the acknowledgement. -/
structure OnlyReads (s : Nios) : Prop where
  data : s.tdmaSendData ∈ [0, corrRead]
  todo : s.OnlyCorrRead

theorem OnlyReads.init : Nios.init.OnlyReads := ⟨by decide, by decide⟩

theorem OnlyReads.access (h : s.OnlyReads) : (s.access recvData).OnlyReads := by
  refine ⟨?_, h.todo.access⟩
  cases hw : s.todo with
  | cons w ws =>
    rw [access_of_todo hw]
    show (s.iowr w.1 w.2).tdmaSendData ∈ _
    rw [tdmaSendData_iowr]
    split
    · rename_i hport
      rw [h.todo w (by rw [hw]; exact List.mem_cons_self) hport]
      decide
    · exact h.data
  | nil =>
    rw [access_of_nil hw, handle]
    split <;> exact h.data

end Nios

namespace TopLevel
variable {mem : BitVec 12 → Word} {signal : BitVec 12 → BitVec 10} {x : TopLevel} {i : TopLevelInput}

/-! ### The link to the peak detection component -/

/-- Who sends what. -/
theorem Inv.isData_sendPort (h : x.Inv) (hs : x.chip.Sound) (hn : x.nios.OnlyReads) {mode : BitVec 4} {p : Fin 8}
    (hd : isData mode (x.sendPort p).data = true) :
    (p, mode) ∈ [((1 : Fin 8), 0b0001#4), (2, 0b0011#4), (2, 0b0100#4), (3, 0b0010#4), (3, 0b0101#4), (4, 0b0111#4),
      (7, 0b0110#4)] := by
  have hport : ∀ p : Fin 8, p = 0 ∨ p = 1 ∨ p = 2 ∨ p = 3 ∨ p = 4 ∨ p = 5 ∨ p = 6 ∨ p = 7 := by decide
  rcases hport p with rfl | rfl | rfl | rfl | rfl | rfl | rfl | rfl
  · exact absurd ((isData_zero mode).symm.trans hd) Bool.false_ne_true
  · change isData mode x.aspAdc.sendSignal.data = true at hd
    have hadc : ADCAsp.Sent x.aspAdc.sendSignal := hs.adc
    generalize x.aspAdc.sendSignal = packet at hadc hd
    cases hadc <;> simp_all [TdmaMinPort.idle]
  · change isData mode x.aspLaf.sendSignal.data = true at hd
    have havg : AvgAspRAM.Sent x.aspLaf.sendSignal := hs.avg
    generalize x.aspLaf.sendSignal = packet at havg hd
    cases havg <;> simp_all [TdmaMinPort.idle]
  · change isData mode x.aspCor.sendSignal.data = true at hd
    have hcor : CorAsp.Sent x.aspCor.sendSignal := hs.cor
    generalize x.aspCor.sendSignal = packet at hcor hd
    cases hcor <;> simp_all [TdmaMinPort.idle]
  · change isData mode x.aspPd.sendSignal.data = true at hd
    have hpd := h.pd
    generalize x.aspPd.sendSignal = packet at hpd hd
    cases hpd with
    | idle => simp [TdmaMinPort.idle] at hd
    | report c =>
      change isData mode (((dataWord 0b0111#4).setSlice 18 1#1).setSlice 0 c) = true at hd
      rw [isData_setSlice _ _ _ (by decide), isData_setSlice _ _ _ (by decide), isData_dataWord] at hd
      simp_all
  · change isData mode x.recop.sendSignal.data = true at hd
    rw [Chip.isData_of_isConfig (h.recop (msb_of_isData hd)).config] at hd
    cases hd
  · exact absurd ((isData_zero mode).symm.trans hd) Bool.false_ne_true
  · have hdata := hn.data
    simp only [List.mem_cons, List.not_mem_nil, or_false] at hdata
    change isData mode x.nios.tdmaSendData = true at hd
    rcases hdata with hdata | hdata
    · rw [hdata] at hd
      exact absurd ((isData_zero mode).symm.trans hd) Bool.false_ne_true
    · rw [hdata] at hd
      revert mode
      decide

theorem Inv.not_correlation (h : x.Inv) (hs : x.chip.Sound) (hn : x.nios.OnlyReads) {p : Fin 8} (hp : p ≠ 3) :
    isCorrelation (x.sendPort p).data = false := by
  have honly : ∀ p : Fin 8, (p, 0b0101#4) ∈ [((1 : Fin 8), 0b0001#4), (2, 0b0011#4), (2, 0b0100#4), (3, 0b0010#4),
      (3, 0b0101#4), (4, 0b0111#4), (7, 0b0110#4)] → p = 3 := by decide
  by_contra hd
  exact hp (honly p (h.isData_sendPort hs hn (Bool.eq_true_of_not_eq_false hd)))

def completed (x : TopLevel) (_ : TopLevelInput) : List (BitVec 36) := x.aspCor.completed (x.tdmaMin.recvs 3)

/-- The values that PdAsp assigns to `current_correlation_value`. -/
def assigned (x : TopLevel) (_ : TopLevelInput) : List (BitVec 36) := x.aspPd.assigned (x.tdmaMin.recvs 4)

section Run
variable {is : List TopLevelInput}

theorem run_onlyReads (rom : ProgMem) (mem : BitVec 12 → Word) (signal : BitVec 12 → BitVec 10)
    (is : List TopLevelInput) : ((machine rom mem signal).run is).nios.OnlyReads := by
  refine Machine.always (I := fun x : TopLevel => x.nios.OnlyReads) .init (fun x i h => ?_) is
  show (if i.key.getLsbD 0 = false then Nios.init else if i.poll then _ else _ : Nios).OnlyReads
  split_ifs
  · exact .init
  · exact h.access
  · exact h

/-- The chip in the link is the one that is there. -/
theorem corLink_chip (rom : ProgMem) (is : List TopLevelInput) :
    ((CorLink.machine asps).run ((machine rom mem signal).inputs (chipInput signal) is)).chip =
      ((machine rom mem signal).run is).chip := by
  rw [CorLink.run_chip, hosts_chip.run]

theorem along_paired (h : (machine firmware mem signal).Along (fun _ i => CarriedDelay i) is) :
    (CorLink.machine asps).Along (CorLink.Paired asps)
      ((machine firmware mem signal).inputs (chipInput signal) is) := by
  induction is using List.reverseRecOn with
  | nil => trivial
  | append_singleton is i ih =>
    rw [Machine.along_concat] at h
    have hpaired := ih h.1
    have hlink := (CorLink.run_inFlight (by decide) hpaired).1.link
    rw [Machine.inputs_concat, Machine.along_concat]
    refine ⟨hpaired, hlink.answersDue (by rw [corLink_chip]; exact (run_chain h.1).loop), fun p hp _ => ?_⟩
    rw [corLink_chip, chip_sends fun _ hp => hp]
    exact (run_inv h.1).not_correlation (run_chain h.1).loop.sound (run_onlyReads ..) hp

theorem log_link (obs : Chip → ChipInput → List (BitVec 36)) (rom : ProgMem) (mem : BitVec 12 → Word)
    (signal : BitVec 12 → BitVec 10) (is : List TopLevelInput) :
    (CorLink.machine asps).log (fun x i => obs x.chip i) ((machine rom mem signal).inputs (chipInput signal) is) =
      (machine rom mem signal).log (fun x i => obs x.chip (x.chipInput signal i)) is := by
  rw [← hosts_chip.log, ← CorLink.hosts_chip.log, Machine.inputs_self]

theorem log_completed (h : (machine firmware mem signal).Along (fun _ i => CarriedDelay i) is) :
    ∃ vs, vs.length ≤ 1 ∧ (machine firmware mem signal).log completed is =
      (machine firmware mem signal).log assigned is ++ vs := by
  obtain ⟨-, vs, hflight, hlog⟩ := CorLink.run_inFlight (by decide) (along_paired h)
  have hcompleted := log_link Chip.completed firmware mem signal is
  have hassigned := log_link (fun x _ => x.pd.assigned (x.net.recvs 4)) firmware mem signal is
  exact ⟨vs, hflight.length_le.2, hcompleted.symm.trans (hlog.trans (congrArg (· ++ vs) hassigned))⟩

end Run

/-! ### The record of the read loop -/

/-- The read loop of the chip with its record. -/
def record (mem : BitVec 12 → Word) (signal : BitVec 12 → BitVec 10) (is : List TopLevelInput) : MemoryBench :=
  (MemoryBench.machine asps).run ((machine firmware mem signal).inputs (chipInput signal) is)

theorem record_chip (mem : BitVec 12 → Word) (signal : BitVec 12 → BitVec 10) (is : List TopLevelInput) :
    (record mem signal is).chip = ((machine firmware mem signal).run is).chip := by
  rw [record, MemoryBench.run_chip, hosts_chip.run]

theorem record_concat (is : List TopLevelInput) (i : TopLevelInput) : record mem signal (is ++ [i]) =
    (record mem signal is).clock asps (((machine firmware mem signal).run is).chipInput signal i) := by
  unfold record
  rw [Machine.inputs_concat, Machine.run_concat]
  rfl

/-- The sums of the accepted samples that AvgAsp has been shown. -/
def sumsSeen (mem : BitVec 12 → Word) (signal : BitVec 12 → BitVec 10) (is : List TopLevelInput) : List Nat :=
  AvgAsp.sums 64 ((((machine firmware mem signal).log received is).filter AvgAsp.accepts).map
    fun d => (AvgAsp.sampleOf d).toNat)

theorem record_words (is : List TopLevelInput) : (record mem signal is).words =
    (AvgAspRAM.machine.log AvgAspRAM.writes ((machine firmware mem signal).inputs avgInput is)).map (·.2) := by
  induction is using List.reverseRecOn with
  | nil => rfl
  | append_singleton is i ih =>
    have hchip := record_chip mem signal is
    have havg : AvgAspRAM.machine.run ((machine firmware mem signal).inputs avgInput is) = _ :=
      (hosts_aspLaf firmware).run is
    rw [record_concat, Machine.inputs_concat, Machine.log_concat, List.map_append, ← ih, havg]
    show _ ++ (AvgAspRAM.writes (record mem signal is).chip.avg ((record mem signal is).chip.net.recvs 2)).map _ = _
    rw [hchip]
    rfl

section Run
variable {is : List TopLevelInput} (hdelay : (machine firmware mem signal).Along (fun _ i => CarriedDelay i) is)
  (hkept : (machine firmware mem signal).Along (fun _ i => KeptWindow i) is)
include hdelay

theorem record_inv : (record mem signal is).Inv :=
  MemoryBench.run_inv (by decide) (by decide) (by decide) (hosts_chip.along_iff.2 (along_configOnly hdelay))

include hkept

/-- The words of the memory are the sums, but for one that is yet to be written. -/
theorem record_sums : (record mem signal is).words.map (·.toNat) <+: sumsSeen mem signal is ∧
    (sumsSeen mem signal is).length ≤ (record mem signal is).words.length + 1 := by
  rcases List.eq_nil_or_concat is with rfl | ⟨before, i, rfl⟩
  · exact ⟨List.nil_prefix, Nat.zero_le _⟩
  · rw [List.concat_eq_append] at *
    have hdelay := ((Machine.along_concat ..).1 hdelay).1
    have hkept := ((Machine.along_concat ..).1 hkept).1
    have hwritten := AvgAspRAM.written_sums (inputs_desiredSize hdelay hkept) (spaced_inputs hdelay)
      (avgInput ((machine firmware mem signal).run before) i)
    rw [← Machine.inputs_concat, samples_inputs] at hwritten
    have hwords : (record mem signal (before ++ [i])).words.map (·.toNat) = sumsSeen mem signal before := by
      rw [record_words, List.map_map]
      exact hwritten
    have hlen := congrArg List.length hwords
    rw [List.length_map] at hlen
    rw [hwords, hlen, sumsSeen, sumsSeen, Machine.log_concat, List.filter_append, List.map_append]
    refine ⟨AvgAsp.sums_prefix 64 _ _, ?_⟩
    rw [AvgAsp.length_sums, AvgAsp.length_sums, List.length_append, List.length_map, List.length_map]
    have hone : ((received ((machine firmware mem signal).run before) i).filter AvgAsp.accepts).length ≤ 1 :=
      Nat.le_trans (List.length_filter_le ..) (List.length_filter_le ..)
    omega

end Run

theorem getD_of_prefix {ws : List (BitVec 16)} {sums : List Nat} (h : ws.map (·.toNat) <+: sums) {m : Nat}
    (hm : m < ws.length) : (ws.getD m 0).toNat = sums.getD m 0 := by
  obtain ⟨rest, rfl⟩ := h
  rw [List.getD_append _ _ _ _ (by rwa [List.length_map]), List.getD_eq_getElem?_getD, List.getD_eq_getElem?_getD,
    List.getElem?_map, List.getElem?_eq_getElem hm]
  rfl

/-- From the signal to the peak detection component, with the keys used so that the delay is sixteen clocks or more and
the averaging window stays 64. PdAsp takes the values that CorAsp completes, each once and in order, but for one on its
way. When such a value completes a correlation of `n` pairs over a window that has stayed the same, it is one of the
moving sums about the number `newest + 1 - n`, `newest` being the number CorAsp had last heard of when it began. -/
theorem signal_correlated (mem : BitVec 12 → Word) (signal : BitVec 12 → BitVec 10) (is : List TopLevelInput)
    (hdelay : ∀ j ∈ is, CarriedDelay j) (hkept : ∀ j ∈ is, KeptWindow j) :
    let M := machine firmware mem signal
    (∃ vs, vs.length ≤ 1 ∧ M.log completed is = M.log assigned is ++ vs) ∧
      ∀ before i, before ++ [i] <+: is → ∀ v ∈ completed (M.run before) i,
        let sums := sumsSeen mem signal before
        let newest := (record mem signal before).newest
        let board := (record mem signal (before ++ [i])).board
        board.InWindow → newest ≤ sums.length ∧ sums.length ≤ newest + 722 ∧ ∃ p ∈ 0 :: sums,
          v.toNat = Window.lateCorrelation (sums.getD · 0) newest board.pairs p := by
  intro M
  refine ⟨log_completed (Machine.along_of_forall hdelay), fun before i hbefore v hv => ?_⟩
  intro sums newest board hw
  have hmem : ∀ j ∈ before, j ∈ is := fun j hj => hbefore.subset (List.mem_append_left _ hj)
  have hdelay : M.Along (fun _ i => CarriedDelay i) before := Machine.along_of_forall fun j hj => hdelay j (hmem j hj)
  have hkept : M.Along (fun _ i => KeptWindow i) before := Machine.along_of_forall fun j hj => hkept j (hmem j hj)
  have hinv : (record mem signal before).Inv := record_inv hdelay
  have hchip : (record mem signal before).chip = (M.run before).chip := record_chip mem signal before
  obtain ⟨hpre, hlen⟩ : (record mem signal before).words.map (·.toNat) <+: sums ∧ sums.length ≤ _ :=
    record_sums hdelay hkept
  have hcompleted : completed (M.run before) i =
      (record mem signal before).chip.cor.completed (record mem signal before).recv := by
    rw [MemoryBench.recv, hchip]
    rfl
  rw [hcompleted, CorAsp.completed] at hv
  split_ifs at hv with hdone
  · rw [List.mem_singleton] at hv
    have hboard : board = ((record mem signal before).clock asps ((M.run before).chipInput signal i)).board := by
      rw [← record_concat]
    rw [hboard] at hw ⊢
    obtain ⟨hlate, p, hp, hsum⟩ := hinv.correlates hdone hw
    have hknown := (hinv.recent (.inr (by rw [hdone.1]; decide))).known
    have hwords := hpre.length_le
    rw [List.length_map] at hwords
    refine ⟨by omega, by omega, p.toNat, ?_, ?_⟩
    · rcases List.mem_cons.1 hp with rfl | hp
      · exact List.mem_cons_self
      · exact List.mem_cons_of_mem _ (hpre.subset (List.mem_map_of_mem hp))
    · rw [hv]
      refine hsum.trans (Window.lateCorrelation_congr hw.pairs.1 fun m hm => ?_)
      rcases Nat.lt_or_ge m (record mem signal before).words.length with hlt | hge
      · exact getD_of_prefix hpre hlt
      · have hm : m = 0 := by omega
        have hzero : sums.getD 0 0 = 0 := AvgAsp.getD_sums_zero ..
        have hnone : (record mem signal before).words = [] := List.eq_nil_of_length_eq_zero (by omega)
        rw [hm, hzero, hnone]
        rfl
  · cases hv

/-- Nothing is pressed; the signal is a ramp that starts at 1. -/
theorem signal_correlated_ramp :
    let signal : BitVec 12 → BitVec 10 := fun a => BitVec.setWidth 10 a + 1
    let before : List TopLevelInput := List.replicate 162 ⟨0b1111, 0, false⟩
    let sums := sumsSeen (fun _ => 0) signal before
    ∃ p ∈ 0 :: sums, 9 = p * sums.getD 2 0 + sums.getD 1 0 * sums.getD 3 0 := by
  intro signal before sums
  obtain ⟨hnewest, hpairs, hw⟩ : (record (fun _ => 0) signal before).newest = 3 ∧
      (record (fun _ => 0) signal (before ++ [⟨0b1111, 0, false⟩])).board.pairs = 2 ∧
      (record (fun _ => 0) signal (before ++ [⟨0b1111, 0, false⟩])).board.InWindow := by decide +kernel
  have h := (signal_correlated (fun _ => 0) signal (before ++ [⟨0b1111, 0, false⟩]) (by decide +kernel)
    (by decide +kernel)).2 before ⟨0b1111, 0, false⟩ (List.prefix_refl _) 9 (by decide +kernel) hw
  obtain ⟨-, -, p, hp, hsum⟩ := h
  rw [hnewest, hpairs, Window.lateCorrelation, Finset.sum_range_one] at hsum
  exact ⟨p, hp, hsum⟩

end TopLevel
end TdmaSoc
