import TdmaSoc.Asp.Averages
import TdmaSoc.Soc.Signal

/-!
# The moving sums of the signal

At power-on the window is 64, the program selects 64 again, and so do the keys if the switches let them. A
configuration reaches port 2 in another slot than a sample does, so every sample is written once; and the memory
holds the sums over the signal that the averaging component has been shown.
-/

namespace TdmaSoc
open TdmaMin (portAddr)

namespace AvgAsp

/-- What is written for the samples `xs`: the sum of the `size` samples before each. -/
def sums (size : Nat) (xs : List Nat) : List Nat := (List.range xs.length).map fun m => (last size (xs.take m)).sum

@[simp] theorem length_sums (size : Nat) (xs : List Nat) : (sums size xs).length = xs.length := by simp [sums]

theorem getElem?_sums (size : Nat) {xs : List Nat} {m : Nat} (hm : m < xs.length) :
    (sums size xs)[m]? = some (last size (xs.take m)).sum := by
  rw [sums, List.getElem?_map, List.getElem?_range hm, Option.map_some]

theorem sums_concat (size : Nat) (xs : List Nat) (x : Nat) :
    sums size (xs ++ [x]) = sums size xs ++ [(last size xs).sum] := by
  unfold sums
  rw [List.length_append, List.length_singleton, List.range_succ, List.map_append, List.map_singleton, List.take_left]
  congr 1
  refine List.map_congr_left fun m hm => ?_
  rw [List.take_append_of_le_length (Nat.le_of_lt (List.mem_range.1 hm))]

theorem desiredSize_of_le : ∀ code : BitVec 3, 4 ≤ code.toNat → desiredSize code = ⟨64, by decide⟩ := by decide

/-- Nothing comes before the first sample. -/
theorem getD_sums_zero (size : Nat) (xs : List Nat) : (sums size xs).getD 0 0 = 0 := by
  rw [List.getD_eq_getElem?_getD]
  cases xs with
  | nil => rfl
  | cons x xs =>
    rw [getElem?_sums size (by simp)]
    simp [last]

theorem sums_prefix (size : Nat) (xs ys : List Nat) : sums size xs <+: sums size (xs ++ ys) := by
  induction ys using List.reverseRecOn with
  | nil => rw [List.append_nil]
  | append_singleton ys y ih =>
    rw [← List.append_assoc, sums_concat]
    exact ih.trans (List.prefix_append ..)

/-- With the window of power-on, the accumulator has the sum of the last 64 samples. -/
theorem sumAcc_kept {is : List TdmaMinPort}
    (hc : ∀ r ∈ is, isConfig r.data = true → desiredSize (r.data.slice 0 3) = ⟨64, by decide⟩) :
    (machine.run is).sumAcc.toNat = (last 64 (samples is)).sum := by
  have hwindow : (machine.run []).avgWindowSize = ⟨64, by decide⟩ := rfl
  have hsum := @sumAcc_fixed [] is rfl fun q hq hconfig => (hc q hq hconfig).trans hwindow.symm
  rw [List.nil_append, hwindow] at hsum
  exact hsum

end AvgAsp

namespace AvgAspRAM
open AvgAsp (accepts samples desiredSize sums)

/-- With the window of power-on, what is written one clock after the words `is` are the sums of their samples. -/
theorem written_sums {is : List TdmaMinPort}
    (hc : ∀ r ∈ is, AvgAsp.isConfig r.data = true → desiredSize (r.data.slice 0 3) = ⟨64, by decide⟩)
    (hspaced : Spaced is) (next : TdmaMinPort) :
    (machine.log writes (is ++ [next])).map (·.2.toNat) = sums 64 (samples is) := by
  induction is using List.reverseRecOn generalizing next with
  | nil => rfl
  | append_singleton is r ih =>
    have hold := ih (fun q hq => hc q (List.mem_append_left _ hq)) (spaced_concat.1 hspaced).1 r
    rw [machine.log_concat, List.map_append, hold, hspaced.writes_concat, AvgAsp.samples_concat]
    cases accepts r.data
    · exact List.append_nil _
    · have hsum := AvgAsp.sumAcc_kept fun q hq => hc q (List.mem_append_left _ hq)
      rw [if_pos rfl, if_pos rfl, AvgAsp.sums_concat, ← hsum]
      rfl

/-- With the window of power-on, the memory holds the last 1024 sums. -/
theorem holds_sums {is : List TdmaMinPort}
    (hc : ∀ r ∈ is, AvgAsp.isConfig r.data = true → desiredSize (r.data.slice 0 3) = ⟨64, by decide⟩)
    (hspaced : Spaced is) (next : TdmaMinPort) :
    RingBuffer.Holds (BitVec.ofNat 10) 1024 (sums 64 (samples is))
      fun a => ((machine.run (is ++ [next])).ram.ram a).toNat := by
  induction is using List.reverseRecOn generalizing next with
  | nil => exact RingBuffer.Holds.nil _ _ _
  | append_singleton is r ih =>
    have hold := ih (fun q hq => hc q (List.mem_append_left _ hq)) (spaced_concat.1 hspaced).1 r
    have hwrites := hspaced.writes_concat next
    rw [machine.run_concat]
    have hram : (fun a => (((machine.run (is ++ [r])).clock next).ram.ram a).toNat) = fun a =>
        if (machine.run (is ++ [r])).ldr.avgReady = true ∧ (machine.run (is ++ [r])).ramWaddr = a
          then (machine.run (is ++ [r])).ldr.avgData.toNat else ((machine.run (is ++ [r])).ram.ram a).toNat := by
      funext a
      rw [ram_clock]
      split <;> rfl
    show RingBuffer.Holds _ _ _ fun a => (((machine.run (is ++ [r])).clock next).ram.ram a).toNat
    rw [hram, AvgAsp.samples_concat]
    unfold writes at hwrites
    cases ha : accepts r.data
    · have hready : (machine.run (is ++ [r])).ldr.avgReady = false := by
        by_contra hready
        rw [ha, if_pos (by simpa using hready)] at hwrites
        cases hwrites
      rw [hready]
      simpa using hold
    · have hready : (machine.run (is ++ [r])).ldr.avgReady = true := by
        by_contra hready
        rw [ha, if_neg hready] at hwrites
        cases hwrites
      rw [ha, hready, if_pos rfl, if_pos rfl] at hwrites
      obtain ⟨haddr, hdata⟩ := Prod.mk.inj (List.cons.inj hwrites).1
      have hsum := AvgAsp.sumAcc_kept fun q hq => hc q (List.mem_append_left _ hq)
      rw [if_pos rfl, AvgAsp.sums_concat, haddr, hdata, hsum, hready]
      have hplace : ∀ m n : Nat, m < n → n < m + 1024 → BitVec.ofNat 10 m ≠ BitVec.ofNat 10 n := fun m n h1 h2 he => by
        have := congrArg BitVec.toNat he
        rw [BitVec.toNat_ofNat, BitVec.toNat_ofNat] at this
        omega
      have hnew := hold.write hplace (AvgAsp.last 64 (samples is)).sum
      rw [AvgAsp.length_sums] at hnew
      refine cast (congrArg _ (funext fun a => ?_)) hnew
      by_cases hadr : BitVec.ofNat 10 (samples is).length = a
      · subst hadr
        rw [Function.update_self]
        simp
      · rw [Function.update_of_ne (Ne.symm hadr)]
        simp [hadr]

end AvgAspRAM

namespace TopLevel
variable {mem : BitVec 12 → Word} {signal : BitVec 12 → BitVec 10} {x : TopLevel} {i : TopLevelInput}

/-- While KEY2 is down the switches select the window of 64. -/
def KeptWindow (i : TopLevelInput) : Prop := i.key.getLsbD 2 = false → 4 ≤ (i.sw.slice 0 3).toNat

instance (i : TopLevelInput) : Decidable (KeptWindow i) := inferInstanceAs (Decidable (_ → _))

/-- A configuration that port 5 sends to AvgAsp selects the window of 64. -/
def WindowPacket (p : Fin 8) (packet : TdmaMinPort) : Prop :=
  p = 5 → packet.addr = portAddr (2 : Fin 8) → AvgAsp.isConfig packet.data = true → 4 ≤ (packet.data.slice 0 3).toNat

theorem windowPacket_of_offer (hi : KeptWindow i) {packet : TdmaMinPort} (h : RecopPort.Offer i.key i.sw packet) :
    WindowPacket 5 packet := by
  intro _ haddr hconfig
  cases h with
  | idle => exact absurd hconfig (by decide)
  | program h =>
    simp only [List.mem_cons, List.not_mem_nil, or_false] at h
    rcases h with rfl | rfl | rfl <;> revert haddr hconfig <;> decide
  | adc h => exact absurd (show portAddr (1 : Fin 8) = portAddr (2 : Fin 8) from haddr) (by decide)
  | avg h =>
    have hcode : (RecopPort.avgConfig i.sw).data.slice 0 3 = i.sw.slice 0 3 :=
      BitVec.slice_setSlice_same _ _ _ (by omega)
    rw [hcode]
    exact hi h
  | cor h => exact absurd (show portAddr (3 : Fin 8) = portAddr (2 : Fin 8) from haddr) (by decide)

structure Window (x : TopLevel) : Prop where
  recop : WindowPacket 5 x.recop.sendSignal
  carries : x.tdmaMin.Carries WindowPacket

theorem Window.init (mem : BitVec 12 → Word) : (init mem).Window :=
  ⟨fun _ _ hconfig => absurd (show AvgAsp.isConfig TdmaMinPort.idle.data = true from hconfig) (by decide), .init⟩

theorem Window.clock (hx : x.Inv) (h : x.Window) (hi : KeptWindow i) : (x.clock firmware signal i).Window where
  recop := by
    rcases hx.program.sendSignal_clock i.key i.sw with hsame | hoffer
    · have hsame : (x.clock firmware signal i).recop.sendSignal = x.recop.sendSignal := hsame
      rw [hsame]
      exact h.recop
    · exact windowPacket_of_offer hi hoffer
  carries := h.carries.clock (by omega) (by omega) fun p _ hp => by
    subst hp
    exact h.recop rfl

/-- A configuration that AvgAsp is shown comes from port 5. -/
theorem Window.desiredSize (hc : x.chip.Chain) (h : x.Window)
    (hconfig : AvgAsp.isConfig (x.tdmaMin.recvs 2).data = true) :
    AvgAsp.desiredSize ((x.tdmaMin.recvs 2).data.slice 0 3) = ⟨64, by decide⟩ := by
  have hzero : (x.tdmaMin.recvs 2).data ≠ 0 := fun h0 => by
    rw [h0] at hconfig
    exact absurd hconfig (by decide)
  obtain ⟨p, hp, hpacket⟩ := (hc.carries.2 2).resolve_left hzero
  obtain ⟨hp1, hp2, hp3⟩ := hpacket.other fun mode => by
    by_contra hd
    have hnot : AvgAsp.isConfig (x.tdmaMin.recvs 2).data = false :=
      (Chip.packetType_of_isData (Bool.eq_true_of_not_eq_false hd)).2
    rw [hnot] at hconfig
    cases hconfig
  have hport : portAddr (2 : Fin 8) ∈ [portAddr 1, portAddr 2, portAddr 3] := by decide
  have hp5 := (hpacket.config hp1 hp2 hp3 hport).1
  obtain ⟨q, hq, hwindow⟩ := (h.carries.2 2).resolve_left hzero
  have hqp : portAddr q = portAddr p := hq.symm.trans hp
  rw [TdmaMin.portAddr_inj (by omega) (by omega)] at hqp
  exact AvgAsp.desiredSize_of_le _ (hwindow ((Fin.ext hqp).trans hp5) rfl hconfig)

/-- The words that AvgAsp is shown along a run. -/
def avgInput (x : TopLevel) (_ : TopLevelInput) : TdmaMinPort := x.tdmaMin.recvs 2

theorem hosts_aspLaf (rom : ProgMem) :
    (machine rom mem signal).Hosts AvgAspRAM.machine aspLaf avgInput := ⟨rfl, fun _ _ => rfl⟩

section Run
variable {is : List TopLevelInput}

theorem run_window (hdelay : (machine firmware mem signal).Along (fun _ i => CarriedDelay i) is)
    (h : (machine firmware mem signal).Along (fun _ i => KeptWindow i) is) :
    ((machine firmware mem signal).run is).Window := by
  induction is using List.reverseRecOn with
  | nil => exact .init mem
  | append_singleton is i ih =>
    rw [Machine.along_concat] at h hdelay
    rw [Machine.run_concat]
    exact (ih hdelay.1 h.1).clock (run_inv hdelay.1) h.2

theorem inputs_desiredSize (hdelay : (machine firmware mem signal).Along (fun _ i => CarriedDelay i) is)
    (h : (machine firmware mem signal).Along (fun _ i => KeptWindow i) is) :
    ∀ r ∈ (machine firmware mem signal).inputs avgInput is, AvgAsp.isConfig r.data = true →
      AvgAsp.desiredSize (r.data.slice 0 3) = ⟨64, by decide⟩ := by
  induction is using List.reverseRecOn with
  | nil => exact fun r hr => absurd hr List.not_mem_nil
  | append_singleton is i ih =>
    rw [Machine.along_concat] at h hdelay
    intro r hr
    rw [Machine.inputs_concat, List.mem_append, List.mem_singleton] at hr
    rcases hr with hr | rfl
    · exact ih hdelay.1 h.1 r hr
    · exact (run_window hdelay.1 h.1).desiredSize (run_chain hdelay.1)

/-- A sample is shown in slot 4, and a configuration in slot 0. -/
theorem spaced_inputs (h : (machine firmware mem signal).Along (fun _ i => CarriedDelay i) is) :
    AvgAspRAM.Spaced ((machine firmware mem signal).inputs avgInput is) := by
  induction is using List.reverseRecOn with
  | nil => exact List.IsChain.nil
  | append_singleton is i ih =>
    rw [Machine.along_concat] at h
    rw [Machine.inputs_concat, AvgAspRAM.spaced_concat]
    refine ⟨ih h.1, fun hconfig q hq => ?_⟩
    rcases List.eq_nil_or_concat is with rfl | ⟨before, j, rfl⟩
    · cases hq
    · rw [List.concat_eq_append] at *
      rw [Machine.inputs_concat, List.getLast?_concat, Option.mem_some_iff] at hq
      by_contra haccepts
      rw [← hq] at haccepts
      have hsample := (Bool.and_eq_true_iff.1 (show AvgAsp.accepts _ = true by simpa using haccepts)).1
      have hslot := ((run_chain ((Machine.along_concat ..).1 h.1).1).received hsample).1
      have hzero := (run_chain h.1).configured hconfig
      rw [Machine.run_concat] at hzero
      generalize (machine firmware mem signal).run before = x at hslot hzero
      have hnext : (x.tdmaMin.slot + 1) % 8 = 0 := hzero
      rw [show x.tdmaMin.slot = 4 from hslot] at hnext
      exact absurd hnext (by decide)

theorem samples_inputs (is : List TopLevelInput) :
    AvgAsp.samples ((machine firmware mem signal).inputs avgInput is) =
      (((machine firmware mem signal).log received is).filter AvgAsp.accepts).map
        fun d => (AvgAsp.sampleOf d).toNat := by
  induction is using List.reverseRecOn with
  | nil => rfl
  | append_singleton is i ih =>
    rw [Machine.inputs_concat, Machine.log_concat, AvgAsp.samples_append, List.filter_append, List.map_append, ih]
    generalize (machine firmware mem signal).run is = x
    have hsample : ∀ d, AvgAsp.accepts d = true → isSample d = true := fun d hd => (Bool.and_eq_true_iff.1 hd).1
    show _ ++ (([x.tdmaMin.recvs 2].filter fun r => AvgAsp.accepts r.data).map _) =
      _ ++ (([(x.tdmaMin.recvs 2).data].filter isSample).filter AvgAsp.accepts).map _
    rw [List.filter_filter, List.filter_singleton, List.filter_singleton]
    cases ha : AvgAsp.accepts (x.tdmaMin.recvs 2).data
    · rw [Bool.false_and]
      rfl
    · rw [hsample _ ha]
      rfl

end Run

theorem words_of_isPrefix {ws : List (BitVec 10)} {n : Nat} (h : ws <+: words signal n) :
    ws = words signal ws.length := by
  have hlen : ws.length ≤ n := by simpa [words] using h.length_le
  conv => lhs; rw [List.prefix_iff_eq_take.1 h]
  rw [words, ← List.map_take, List.take_range, Nat.min_eq_left hlen, words]

/-- The chip with the program of its memory, with the keys used so that the delay is sixteen clocks or more and the
window stays 64: the samples that the averaging component is shown carry the first words of the signal, and after one
more clock each of the last 1024 of those that it accepts has the sum of the 64 before it in the memory. -/
theorem signal_averaged (mem : BitVec 12 → Word) (signal : BitVec 12 → BitVec 10) (is : List TopLevelInput)
    (i : TopLevelInput) (hdelay : ∀ j ∈ is, CarriedDelay j) (hkept : ∀ j ∈ is, KeptWindow j) :
    let M := machine firmware mem signal
    let seen := M.log received is
    let xs := (seen.filter AvgAsp.accepts).map fun d => (AvgAsp.sampleOf d).toNat
    seen.map (·.slice 0 10) = words signal seen.length ∧ ∀ m < xs.length, xs.length ≤ m + 1024 →
      ((M.run (is ++ [i])).aspLaf.ram.ram (BitVec.ofNat 10 m)).toNat = (AvgAsp.last 64 (xs.take m)).sum := by
  intro M seen xs
  have hdelay : M.Along (fun _ i => CarriedDelay i) is := Machine.along_of_forall hdelay
  have hkept : M.Along (fun _ i => KeptWindow i) is := Machine.along_of_forall hkept
  have hsamples : AvgAsp.samples (M.inputs avgInput is) = xs := samples_inputs is
  have hram : AvgAspRAM.machine.run (M.inputs avgInput is ++ [avgInput (M.run is) i]) = (M.run (is ++ [i])).aspLaf := by
    rw [← Machine.inputs_concat]
    exact (hosts_aspLaf firmware).run (is ++ [i])
  have hholds := AvgAspRAM.holds_sums (inputs_desiredSize hdelay hkept) (spaced_inputs hdelay) (avgInput (M.run is) i)
  rw [hsamples, hram] at hholds
  refine ⟨?_, fun m hm hlate => ?_⟩
  · have hprefix : seen.map (·.slice 0 10) <+: words signal (M.run is).counter := by
      rw [← log_sampled hdelay, log_received hdelay, List.map_append]
      exact List.prefix_append _ _
    rw [words_of_isPrefix hprefix, List.length_map]
  · exact hholds m _ (AvgAsp.getElem?_sums 64 hm) (by rw [AvgAsp.length_sums]; exact hlate)

/-- Nothing is pressed; the signal is a ramp that starts at 1. -/
theorem signal_averaged_ramp :
    let M := machine firmware (fun _ => 0) fun a => BitVec.setWidth 10 a + 1
    let is : List TopLevelInput := List.replicate 79 ⟨0b1111, 0, false⟩
    (M.log received is).map (·.slice 0 10) = [1, 2, 3, 4] ∧
      ((M.run (is ++ [⟨0b1111, 0, false⟩])).aspLaf.ram.ram 3).toNat = 1 + 2 + 3 := by
  have h := signal_averaged (fun _ => 0) (fun a => BitVec.setWidth 10 a + 1) (List.replicate 79 ⟨0b1111, 0, false⟩)
    ⟨0b1111, 0, false⟩ (by decide) (by decide)
  refine ⟨h.1.trans ?_, (h.2 3 ?_ ?_).trans ?_⟩ <;> decide +kernel

end TopLevel
end TdmaSoc
