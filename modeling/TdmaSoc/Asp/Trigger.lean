import TdmaSoc.Asp.Averages

/-!
# The trigger of a correlation

The averaging process counts samples, and the sample that completes an interval raises `corrCalculate`; the level
stays up until the next sample. `prevCorrCalculate` remembers it for the next answer to CorAsp, which takes the flag
along and clears it. The flagged answers are paid for by the triggers as long as none of them goes out while the
level is still up: then the flag is raised again from the same trigger.
-/

namespace TdmaSoc
namespace AvgAsp

/-- The sample that completes an interval. -/
def triggers (s : AvgAsp) (recv : TdmaMinPort) : Bool :=
  accepts recv.data && decide (s.correlationSampleIntervalCounter + 1 ≥ s.correlationSampleInterval.toNat)

variable {s : AvgAsp} {recv : TdmaMinPort}

theorem triggers_iff (h : accepts recv.data = true) : s.triggers recv = true ↔
    s.correlationSampleInterval.toNat ≤ s.correlationSampleIntervalCounter + 1 := by
  rw [triggers, h, Bool.true_and, decide_eq_true_eq]

theorem corrCalculate_clock (s : AvgAsp) (recv : TdmaMinPort) :
    (s.clock recv).corrCalculate = if accepts recv.data then s.triggers recv else s.corrCalculate := by
  unfold AvgAsp.clock triggers
  cases hc : isConfig recv.data
  · cases accepts recv.data <;> rfl
  · rw [accepts_of_isConfig hc]
    rfl

theorem counter_clock (s : AvgAsp) (recv : TdmaMinPort) : (s.clock recv).correlationSampleIntervalCounter =
    if s.triggers recv then 0
    else s.correlationSampleIntervalCounter + (if accepts recv.data then 1 else 0) := by
  unfold AvgAsp.clock triggers
  cases hc : isConfig recv.data
  · cases accepts recv.data
    · rfl
    · simp only [Bool.true_and, decide_eq_true_eq]
      rfl
  · rw [accepts_of_isConfig hc]
    rfl

end AvgAsp

namespace AvgAspRAM
open AvgAsp (accepts samples)

variable {s : AvgAspRAM} {recv : TdmaMinPort} {is : List TdmaMinPort}

/-- Every sample that counts finds the correlation sample interval `interval`. -/
def Interval (interval : Nat) (s : AvgAspRAM) (recv : TdmaMinPort) : Prop :=
  accepts recv.data = true → s.ldr.correlationSampleInterval.toNat = interval

/-- An answer that takes the flag along goes out after the level is down, or in the clock of a sample. -/
def TakesLast (s : AvgAspRAM) (recv : TdmaMinPort) : Prop :=
  s.answers = true → s.prevCorrCalculate = true → s.ldr.corrCalculate = true → accepts recv.data = true

instance (interval : Nat) (s : AvgAspRAM) (recv : TdmaMinPort) : Decidable (Interval interval s recv) :=
  inferInstanceAs (Decidable (_ → _))

instance (s : AvgAspRAM) (recv : TdmaMinPort) : Decidable (TakesLast s recv) :=
  inferInstanceAs (Decidable (_ → _))

/-- The answers that leave in this clock with bit 16 set. -/
def flagged (s : AvgAspRAM) (recv : TdmaMinPort) : List TdmaMinPort :=
  if isAvgData (s.clock recv).sendSignal.data && (s.clock recv).sendSignal.data.getLsbD 16
  then [(s.clock recv).sendSignal] else []

def triggers (s : AvgAspRAM) (recv : TdmaMinPort) : List TdmaMinPort := if s.ldr.triggers recv then [recv] else []

/-- A trigger that no answer has taken along yet. -/
def pending (s : AvgAspRAM) : Nat := (s.ldr.corrCalculate || s.prevCorrCalculate).toNat

theorem bit16_dataPacket (flag : Bool) (q : BitVec 16) : (dataPacket flag q).data.getLsbD 16 = flag := by
  unfold dataPacket
  cases flag <;> simp [BitVec.setSlice, dataWord]

theorem length_flagged (s : AvgAspRAM) (recv : TdmaMinPort) :
    (flagged s recv).length = (s.answers && s.prevCorrCalculate).toNat := by
  unfold flagged answers
  have hsend : (s.clock recv).sendSignal = if s.ldr.avgReady then addrPacket s.ramWaddr
      else if s.readRequest then dataPacket s.prevCorrCalculate s.ram.qReg else .idle := rfl
  rw [hsend]
  cases s.ldr.avgReady
  · cases s.readRequest
    · simp [TdmaMinPort.idle]
    · show (if isAvgData (dataPacket _ _).data && (dataPacket _ _).data.getLsbD 16 then [_] else []).length = _
      rw [bit16_dataPacket, isAvgData, isData_dataPacket]
      cases s.prevCorrCalculate <;> rfl
  · simp

/-- An answer with the flag is paid for by what was pending; what is pending after the clock was so before, or comes
from a new trigger. -/
theorem flagged_clock (h : TakesLast s recv) :
    (flagged s recv).length + (s.clock recv).pending ≤ s.pending + (triggers s recv).length := by
  have hprev : (s.clock recv).prevCorrCalculate =
      if s.answers then false else s.ldr.corrCalculate || s.prevCorrCalculate := rfl
  have hcorr : (s.clock recv).ldr.corrCalculate =
      if accepts recv.data then s.ldr.triggers recv else s.ldr.corrCalculate := AvgAsp.corrCalculate_clock _ _
  rw [length_flagged, pending, pending, triggers, hprev, hcorr]
  unfold TakesLast at h
  have hnot : s.ldr.triggers recv = true → accepts recv.data = true := fun ht => (Bool.and_eq_true_iff.1 ht).1
  revert h hnot
  cases s.answers <;> cases s.prevCorrCalculate <;> cases s.ldr.corrCalculate <;> cases accepts recv.data <;>
    cases s.ldr.triggers recv <;> simp

theorem flagged_le_triggers (h : machine.Along TakesLast is) :
    (machine.log flagged is).length + (machine.run is).pending ≤ (machine.log triggers is).length := by
  induction is using List.reverseRecOn with
  | nil => exact Nat.le_refl 0
  | append_singleton is r ih =>
    rw [Machine.along_concat] at h
    rw [Machine.log_concat, Machine.log_concat, Machine.run_concat, List.length_append, List.length_append]
    have hclock : _ + ((machine.run is).clock r).pending ≤ _ := flagged_clock h.2
    have := ih h.1
    show _ + ((machine.run is).clock r).pending ≤ _
    omega

/-- Every trigger takes `interval` samples. -/
theorem samples_eq {interval : Nat} (hpos : 1 ≤ interval) (h : machine.Along (Interval interval) is) :
    (samples is).length = (machine.log triggers is).length * interval +
        (machine.run is).ldr.correlationSampleIntervalCounter ∧
      (machine.run is).ldr.correlationSampleIntervalCounter < interval := by
  induction is using List.reverseRecOn with
  | nil => exact ⟨(Nat.zero_mul _).symm, hpos⟩
  | append_singleton is r ih =>
    rw [Machine.along_concat] at h
    obtain ⟨hlen, hlt⟩ := ih h.1
    have hcounter : ((machine.run is).clock r).ldr.correlationSampleIntervalCounter = _ :=
      AvgAsp.counter_clock (machine.run is).ldr r
    have hint := h.2
    rw [Machine.log_concat, Machine.run_concat, AvgAsp.samples_concat, List.length_append, Nat.add_mul]
    show _ = _ + ((machine.run is).clock r).ldr.correlationSampleIntervalCounter ∧
      ((machine.run is).clock r).ldr.correlationSampleIntervalCounter < _
    rw [hcounter, triggers]
    cases ha : accepts r.data
    · have hnone : (machine.run is).ldr.triggers r = false := by rw [AvgAsp.triggers, ha]; rfl
      rw [hnone]
      exact ⟨by simpa using hlen, hlt⟩
    · have hfull := AvgAsp.triggers_iff (s := (machine.run is).ldr) ha
      rw [hint ha] at hfull
      rw [if_pos rfl, if_pos rfl, List.length_append, List.length_singleton]
      cases ht : (machine.run is).ldr.triggers r
      · rw [ht] at hfull
        have hnot : ¬ interval ≤ (machine.run is).ldr.correlationSampleIntervalCounter + 1 :=
          fun hle => Bool.noConfusion (hfull.2 hle)
        show _ = _ + 0 * interval + (_ + 1) ∧ _ + 1 < interval
        omega
      · have hle := hfull.1 ht
        show _ = _ + 1 * interval + 0 ∧ 0 < interval
        omega

/-- With a constant interval and no answer that takes the flag along while its trigger is still up, no more answers
ask for a correlation than intervals have been completed. -/
theorem flagged_le (interval : Nat) (hpos : 1 ≤ interval) (is : List TdmaMinPort)
    (hint : machine.Along (Interval interval) is) (h : machine.Along TakesLast is) :
    (machine.log flagged is).length ≤ (samples is).length / interval := by
  obtain ⟨hlen, -⟩ := samples_eq hpos hint
  have := flagged_le_triggers h
  rw [Nat.le_div_iff_mul_le hpos, hlen]
  refine Nat.le_trans (Nat.mul_le_mul_right _ ?_) (Nat.le_add_right _ _)
  omega

/-- Four samples and one more, and a request. -/
def exampleTriggered : List TdmaMinPort :=
  List.replicate 5 AvgAsp.exampleSample ++ [exampleRequest 0, .idle]

theorem flagged_le_one :
    (machine.log flagged exampleTriggered).length ≤ (samples exampleTriggered).length / 4 :=
  flagged_le 4 (by omega) exampleTriggered (by decide +kernel) (by decide +kernel)

/-- Four samples, and two requests that are both answered with bit 16 set. -/
def exampleRequested : List TdmaMinPort :=
  List.replicate 4 AvgAsp.exampleSample ++ [exampleRequest 0, .idle, exampleRequest 0, .idle]

theorem flagged_twice :
    machine.Along (Interval 4) exampleRequested ∧ (samples exampleRequested).length / 4 = 1 ∧
      (machine.log flagged exampleRequested).length = 2 := by
  decide +kernel

end AvgAspRAM
end TdmaSoc
